import Verbatim.Proofs.Total

/-!
# Nothing is lost

The leaves of a tree, with composite ones split into their pieces, are the tokens of the text, in order
and without the end. The text of the tree is therefore the text that was parsed.
-/
namespace Verbatim

namespace Kind

/-- Kinds that are written with several tokens of the text. -/
def isComposite (k : Kind) : Bool := k.pieces != [k]

/-- A composite kind is spelled by its pieces, each of which is a single character. -/
theorem spelling_of_composite {k : Kind} (h : k.isComposite = true) :
    ∃ s, k.spelling? = some s ∧ k.pieces.map (fun b => b.spelling?.map String.toList) =
      s.toList.map fun c => some [c] := by
  cases k <;> first | exact absurd h (by decide) | exact ⟨_, rfl, by decide⟩

end Kind

namespace Token

/-- A token as a leaf of the tree shows it. -/
def shown (t : Token) : Kind × Text := (t.kind, t.text)

end Token

namespace Green

/-- The tokens of the text that a leaf is made of: one for each piece of its kind. -/
def piecesOf (leaf : Kind × Text) : List (Kind × Text) :=
  if leaf.1.isComposite then leaf.1.pieces.zip (leaf.2.map fun c => [c]) else [leaf]

/-- A leaf of a composite kind is written as that kind is spelled. -/
def WellSpelled (leaf : Kind × Text) : Prop :=
  leaf.1.isComposite = true → leaf.1.spelling? = some (String.ofList leaf.2)

theorem leavesOf_append (gs hs : List Green) : leavesOf (gs ++ hs) = leavesOf gs ++ leavesOf hs := by
  induction gs with
  | nil => rfl
  | cons g gs ih => simp [leavesOf, ih]

theorem leavesOf_map_leaf (ts : List Token) : leavesOf (ts.map Token.leaf) = ts.map Token.shown := by
  induction ts with
  | nil => rfl
  | cons t ts ih => simp [leavesOf, leaves, Token.leaf, Token.shown, ih]

@[simp] theorem leaves_branch (k : Kind) (cs : List Green) : (branch k cs).leaves = leavesOf cs := by
  simp [branch, leaves]

mutual
/-- The text of an element is that of its leaves. -/
theorem text_eq_leaves : ∀ g : Green, g.text = g.leaves.flatMap (·.2)
  | .token _ t => by simp [text, leaves]
  | .node _ _ cs => by rw [text, leaves, texts_eq_leaves cs]

theorem texts_eq_leaves : ∀ gs : List Green, texts gs = (leavesOf gs).flatMap (·.2)
  | [] => rfl
  | g :: gs => by rw [texts, leavesOf, List.flatMap_append, text_eq_leaves g, texts_eq_leaves gs]
end

mutual
/-- Every node of a tree knows its size. -/
def Sized : Green → Prop
  | token _ _ => True
  | node _ n cs => n = totalSize cs ∧ SizedOf cs

def SizedOf : List Green → Prop
  | [] => True
  | g :: gs => Sized g ∧ SizedOf gs
end

mutual
theorem size_of_sized : ∀ g : Green, g.Sized → g.size = Text.size g.text
  | .token _ _, _ => rfl
  | .node _ _ cs, h => by
    rw [size, text, h.1]
    exact totalSize_of_sizedOf cs h.2

theorem totalSize_of_sizedOf : ∀ gs : List Green, SizedOf gs → totalSize gs = Text.size (texts gs)
  | [], _ => rfl
  | g :: gs, h => by
    rw [texts, Text.size_append, ← size_of_sized g h.1, ← totalSize_of_sizedOf gs h.2]
    simp [totalSize]
end

theorem sizedOf_append {gs hs : List Green} : SizedOf (gs ++ hs) ↔ SizedOf gs ∧ SizedOf hs := by
  induction gs with
  | nil => simp [SizedOf]
  | cons g gs ih => simp [SizedOf, ih, and_assoc]

theorem sizedOf_iff {gs : List Green} : SizedOf gs ↔ ∀ g ∈ gs, g.Sized := by
  induction gs with
  | nil => simp [SizedOf]
  | cons g gs ih => simp [SizedOf, ih]

theorem Sized.children {g : Green} (h : g.Sized) : SizedOf g.children := by
  cases g with
  | token k t => trivial
  | node k n cs => exact h.2

theorem sizedOf_map_leaf (ts : List Token) : SizedOf (ts.map Token.leaf) := by
  induction ts with
  | nil => trivial
  | cons t ts ih => exact ⟨trivial, ih⟩

/-- The pieces of a leaf spell it. -/
theorem flatMap_piecesOf {leaf : Kind × Text} (h : WellSpelled leaf) :
    (piecesOf leaf).flatMap (·.2) = leaf.2 := by
  unfold piecesOf
  split
  · next hc =>
    obtain ⟨s, spelling, each⟩ := Kind.spelling_of_composite hc
    obtain rfl := Option.some.inj (spelling.symm.trans (h hc))
    have length := congrArg List.length each
    simp only [List.length_map, String.toList_ofList] at length
    rw [List.flatMap_def, List.map_snd_zip (by simp [length]), ← List.flatMap_def]
    exact List.flatMap_singleton' _
  · simp

end Green

open Green Token

/-- What has grown shows the tokens that were used up, one by one. -/
structure Sprout.Shows (s : Sprout) (ts used : List Token) : Prop where
  split : ts = used ++ s.rest
  leaves : (leavesOf s.greens).flatMap piecesOf = used.map shown
  spelled : ∀ leaf ∈ leavesOf s.greens, WellSpelled leaf
  no_end : ∀ t ∈ used, t.kind ≠ .eof
  sized : SizedOf s.greens

namespace Sprout.Shows

theorem nil (reports : List Diagnostic) (ts : List Token) : Shows ⟨[], reports, ts⟩ ts [] :=
  ⟨rfl, rfl, fun _ h => absurd h List.not_mem_nil, fun _ h => absurd h List.not_mem_nil, trivial⟩

theorem andThen {a : Sprout} {next : List Token → Sprout} {ts used used' : List Token}
    (ha : a.Shows ts used) (hn : (next a.rest).Shows a.rest used') :
    (a.andThen next).Shows ts (used ++ used') := by
  refine ⟨?_, ?_, ?_, ?_, sizedOf_append.mpr ⟨ha.sized, hn.sized⟩⟩
  · rw [ha.split, List.append_assoc]
    exact congrArg (used ++ ·) hn.split
  · simp only [Sprout.andThen, leavesOf_append, List.flatMap_append, List.map_append, ha.leaves,
      hn.leaves]
  · intro leaf h
    rw [Sprout.andThen, leavesOf_append, List.mem_append] at h
    exact h.elim (ha.spelled leaf) (hn.spelled leaf)
  · intro t h
    exact (List.mem_append.mp h).elim (ha.no_end t) (hn.no_end t)

theorem under {a : Sprout} {ts used : List Token} (h : a.Shows ts used) (k : Kind) :
    (a.under k).Shows ts used := by
  have leaves : leavesOf (a.under k).greens = leavesOf a.greens := by
    simp [Sprout.under, leavesOf]
  exact ⟨h.split, leaves ▸ h.leaves, leaves ▸ h.spelled, h.no_end, ⟨rfl, h.sized⟩, trivial⟩

/-- Tokens that are placed as they are show themselves. -/
theorem ofTokens {placed : List Token} (h : ∀ t ∈ placed, t.isTrivia = true) (rest : List Token) :
    (Sprout.ofTokens placed rest).Shows (placed ++ rest) placed := by
  have simple : ∀ t ∈ placed, t.kind.isComposite = false ∧ t.kind ≠ .eof := by
    intro t ht
    have trivia : t.kind.isTrivia = true := h t ht
    generalize t.kind = k at trivia
    revert trivia
    cases k <;> decide
  have leaves : leavesOf (Sprout.ofTokens placed rest).greens = placed.map shown :=
    leavesOf_map_leaf placed
  refine ⟨rfl, ?_, ?_, fun t ht => (simple t ht).2, sizedOf_map_leaf placed⟩
  · rw [leaves, List.flatMap_map]
    clear leaves h
    induction placed with
    | nil => rfl
    | cons t placed ih =>
      rw [List.flatMap_cons, ih fun t ht => simple t (List.mem_cons_of_mem _ ht), piecesOf,
        show (shown t).1.isComposite = false from (simple t List.mem_cons_self).1]
      rfl
  · intro leaf hl
    rw [leaves] at hl
    obtain ⟨t, ht, rfl⟩ := List.mem_map.mp hl
    intro hc
    rw [show (shown t).1.isComposite = false from (simple t ht).1] at hc
    contradiction

theorem trivia (ts : List Token) :
    (Sprout.trivia ts).Shows ts (ts.takeWhile (·.isTrivia)) := by
  have := ofTokens (fun t ht => List.mem_takeWhile_imp ht : ∀ t ∈ ts.takeWhile (·.isTrivia), _)
    (ts.dropWhile (·.isTrivia))
  rwa [List.takeWhile_append_dropWhile] at this

theorem outer (k : Kind) (ts : List Token) : ∃ used, (Sprout.outer k ts).Shows ts used := by
  have ahead : ∀ t ∈ (ts.takeWhile (·.isTrivia)).take
      ((ts.takeWhile (·.isTrivia)).length - Token.attachedCount k (ts.takeWhile (·.isTrivia))),
      t.isTrivia = true := fun t ht => List.mem_takeWhile_imp (List.mem_of_mem_take ht)
  have shows := ofTokens ahead (Sprout.outer k ts).rest
  refine ⟨_, ?_, shows.leaves, shows.spelled, shows.no_end, shows.sized⟩
  simp [Sprout.outer, Sprout.ofTokens, ← List.append_assoc]

/-- A token of the tree shows the tokens that it is glued from. -/
theorem taken {k : Kind} {glued : List Token} (hk : glued.map (·.kind) = k.pieces)
    (hs : ∀ t ∈ glued, Spelled t.kind t.text) (rest : List Token) :
    (Sprout.taken k k.pieces.length (glued ++ rest)).Shows (glued ++ rest) glued := by
  have length : k.pieces.length = glued.length := by rw [← hk, List.length_map]
  have front : (glued ++ rest).take k.pieces.length = glued := by rw [length, List.take_left]
  have back : (Sprout.taken k k.pieces.length (glued ++ rest)).rest = rest := by
    rw [Sprout.taken, length, List.drop_left]
  have leaf : leavesOf (Sprout.taken k k.pieces.length (glued ++ rest)).greens =
      [(k, glued.flatMap (·.text))] := by
    simp [Sprout.taken, front, leavesOf, Green.leaves]
  have texts (hc : k.isComposite = true) :
      ∃ s, k.spelling? = some s ∧ glued.map (·.text) = s.toList.map fun c => [c] := by
    obtain ⟨s, spelling, each⟩ := Kind.spelling_of_composite hc
    refine ⟨s, spelling, ?_⟩
    have written : glued.map (fun t => some t.text) = s.toList.map fun c => some [c] := by
      rw [← hk, List.map_map] at each
      rw [← each]
      refine List.map_congr_left fun t ht => ?_
      have shown := List.mem_map_of_mem (f := (fun b : Kind => b.spelling?.map String.toList) ∘
        Token.kind) ht
      rw [each] at shown
      obtain ⟨c, -, hc⟩ := List.mem_map.mp shown
      obtain ⟨s', hs', -⟩ := Option.map_eq_some_iff.mp hc.symm
      rw [Function.comp_apply, hs', (hs t ht).spelling s' hs']
      rfl
    have := congrArg (List.filterMap id) written
    simpa [List.filterMap_map, Function.comp_def] using this
  have joined {s : String} (h : glued.map (·.text) = s.toList.map fun c => [c]) :
      glued.flatMap (·.text) = s.toList := by
    rw [List.flatMap_def, h, ← List.flatMap_def]
    exact List.flatMap_singleton' _
  refine ⟨by rw [back], ?_, ?_, fun t ht => (hs t ht).no_end, trivial, trivial⟩
  · rw [leaf, List.flatMap_singleton, piecesOf]
    split
    · next hc =>
      obtain ⟨s, -, each⟩ := texts hc
      rw [joined each, ← each, ← hk, List.zip_map']
      rfl
    · next hc =>
      have single : k.pieces = [k] := by simpa [Kind.isComposite] using hc
      rw [single, List.map_eq_singleton_iff] at hk
      obtain ⟨t, rfl, rfl⟩ := hk
      simp [shown]
  · rw [leaf]
    rintro _ (_ | ⟨_, h⟩)
    · intro hc
      obtain ⟨s, spelling, each⟩ := texts hc
      rw [joined each, String.ofList_toList]
      exact spelling
    · cases h

end Sprout.Shows

namespace Input

theorem ofTokens_append_trivia {trivia : List Token} (h : ∀ t ∈ trivia, t.isTrivia = true)
    (ts : List Token) :
    ofTokens (trivia ++ ts) = ofTokens ts := by
  induction trivia with
  | nil => rfl
  | cons t trivia ih =>
    rw [List.cons_append, ofTokens_trivia (h t List.mem_cons_self)]
    exact ih fun t ht => h t (List.mem_cons_of_mem _ ht)

theorem ofTokens_dropTrivia (ts : List Token) : ofTokens (ts.dropWhile (·.isTrivia)) = ofTokens ts := by
  have all : ∀ t ∈ ts.takeWhile (·.isTrivia), t.isTrivia = true := fun t ht =>
    List.mem_takeWhile_imp ht
  have := ofTokens_append_trivia all (ts.dropWhile (·.isTrivia))
  rw [← this, List.takeWhile_append_dropWhile]

/-- Whether trivia have been placed is not seen. -/
theorem ofTokens_outer (k : Kind) (ts : List Token) : ofTokens (Sprout.outer k ts).rest = ofTokens ts := by
  have ahead : ∀ t ∈ (ts.takeWhile (·.isTrivia)).drop
      ((ts.takeWhile (·.isTrivia)).length - attachedCount k (ts.takeWhile (·.isTrivia))),
      t.isTrivia = true := fun t ht => List.mem_takeWhile_imp (List.mem_of_mem_drop ht)
  have := ofTokens_append_trivia ahead (ts.dropWhile (·.isTrivia))
  rw [ofTokens_dropTrivia] at this
  exact this

theorem Aligned.congr {input : Input} {ts' : List Token} {i : Nat} (h : input.Aligned ts i)
    (heq : ofTokens ts' = ofTokens ts) : input.Aligned ts' i := by
  obtain ⟨kind, joint⟩ := h
  rw [← heq] at kind joint
  exact ⟨kind, joint⟩

end Input

namespace Outline

variable {input : Input}

/-- Tokens of a text: but for the end, they are single tokens written as their kinds are. -/
def Lexed (ts : List Token) : Prop := ∀ t ∈ ts, t.kind = .eof ∨ Spelled t.kind t.text

theorem lexed_list (t : Text) : Lexed (Token.list t) := by
  obtain ⟨ts, split, inRow, -⟩ := Token.listFrom_inRow 0 t
  intro x hx
  rw [show Token.list t = _ from split, List.mem_append] at hx
  rcases hx with hx | hx
  · exact .inr (Input.spelled_of_inRow inRow x hx)
  · exact .inl (by rw [List.mem_singleton.mp hx])

theorem Lexed.rest {s : Sprout} {ts used : List Token} (h : Lexed ts) (hs : s.Shows ts used) :
    Lexed s.rest :=
  fun t ht => h t (hs.split ▸ List.mem_append_right _ ht)

mutual
/-- What grows from an outline shows the tokens that it spells. -/
theorem shows_grow (stop : Nat) : ∀ (o : Outline) {ts : List Token} {i : Nat}, Lexed ts →
    input.Aligned ts i → Fits input o i → ∃ used, (o.grow stop ts).Shows ts used ∧
      input.Aligned (o.grow stop ts).rest (i + o.width)
  | .token k n, ts, i, hl, ha, hf => by
    obtain ⟨at_i, more, rfl⟩ := hf
    have ahead := Sprout.Shows.trivia ts
    have stops : ((Sprout.trivia ts).rest).takeWhile (·.isTrivia) = [] := takeWhile_dropWhile ts
    have no_end : ∀ b ∈ k.pieces, b ≠ .eof := fun b hb he =>
      more (Kind.pieces_of_barrier (b := .eof) rfl (he ▸ hb))
    obtain ⟨glued, rest, split, kinds, aligned, -⟩ := ha.dropTrivia.glued stops no_end at_i
    have lexed : ∀ t ∈ glued, Spelled t.kind t.text := by
      intro t ht
      have kind : t.kind ∈ k.pieces := kinds ▸ List.mem_map_of_mem ht
      have whole : t ∈ (Sprout.trivia ts).rest :=
        (show (Sprout.trivia ts).rest = glued ++ rest from split) ▸ List.mem_append_left _ ht
      exact (hl.rest ahead t whole).resolve_left (no_end _ kind)
    have shows := Sprout.Shows.taken kinds lexed rest
    rw [grow, width]
    refine ⟨_, ahead.andThen (by rw [← split] at shows; exact shows), ?_⟩
    have left : ((Sprout.trivia ts).andThen (.taken k k.pieces.length)).rest = rest := by
      have length : k.pieces.length = glued.length := by rw [← kinds, List.length_map]
      change (ts.dropWhile (·.isTrivia)).drop k.pieces.length = rest
      rw [split, length, List.drop_left]
    rwa [left]
  | .error cause, ts, i, _, ha, _ => ⟨[], .nil _ ts, ha⟩
  | .fault _, ts, i, _, ha, _ => ⟨[], .nil _ ts, ha⟩
  | .void, ts, i, _, ha, _ => ⟨[], .nil _ ts, ha⟩
  | .node k row, ts, i, hl, ha, hf => by
    obtain ⟨outside, shows⟩ := Sprout.Shows.outer k ts
    have ahead := Sprout.Shows.trivia (Sprout.outer k ts).rest
    have aligned := ((ha.congr (Input.ofTokens_outer k ts)).dropTrivia)
    obtain ⟨used, inner, rest⟩ := shows_growOf stop row ((hl.rest shows).rest ahead) aligned hf
    rw [grow]
    exact ⟨_, shows.andThen ((ahead.andThen inner).under k), rest⟩
  | .around k first row, ts, i, hl, ha, hf => by
    obtain ⟨outside, shows⟩ := Sprout.Shows.outer k ts
    have ahead := Sprout.Shows.trivia (Sprout.outer k ts).rest
    have aligned := ((ha.congr (Input.ofTokens_outer k ts)).dropTrivia)
    obtain ⟨used, inner, rest⟩ := shows_grow stop first ((hl.rest shows).rest ahead) aligned hf.1
    obtain ⟨used', inner', rest'⟩ :=
      shows_growOf stop row (((hl.rest shows).rest ahead).rest inner) rest hf.2
    rw [grow, width, ← Nat.add_assoc]
    exact ⟨_, shows.andThen ((ahead.andThen (inner.andThen inner')).under k), rest'⟩

theorem shows_growOf (stop : Nat) : ∀ (row : List Outline) {ts : List Token} {i : Nat}, Lexed ts →
    input.Aligned ts i → FitsOf input row i → ∃ used, (growOf stop row ts).Shows ts used ∧
      input.Aligned (growOf stop row ts).rest (i + widthOf row)
  | [], ts, i, _, ha, _ => ⟨[], .nil _ ts, ha⟩
  | o :: older, ts, i, hl, ha, hf => by
    obtain ⟨used, shows, rest⟩ := shows_growOf stop older hl ha hf.1
    obtain ⟨used', shows', rest'⟩ := shows_grow stop o (hl.rest shows) rest hf.2
    rw [growOf, widthOf, ← Nat.add_assoc]
    exact ⟨_, shows.andThen shows', rest'⟩
end

end Outline

/-- The text of what has grown is that of the tokens that were used up. -/
theorem Sprout.Shows.texts_eq {s : Sprout} {ts used : List Token} (h : s.Shows ts used) :
    texts s.greens = used.flatMap (·.text) := by
  have pieces : (leavesOf s.greens).flatMap (·.2) =
      ((leavesOf s.greens).flatMap piecesOf).flatMap (·.2) := by
    rw [List.flatMap_assoc]
    exact List.flatMap_congr fun leaf hl => (flatMap_piecesOf (h.spelled leaf hl)).symm
  rw [texts_eq_leaves, pieces, h.leaves, List.flatMap_map]
  rfl

namespace Outline

/-- An outline that spells all that the parser sees of a text shows all tokens but the end. -/
theorem shows_whole {t : Text} {row : List Outline} (fits : FitsOf (.ofTokens (Token.list t)) row 0)
    (all : widthOf row = (Input.ofTokens (Token.list t)).length) : ∃ ts,
      Token.list t = ts ++ [⟨.eof, [], t.size, none⟩] ∧ Token.InRow 0 ts ∧ ts.flatMap (·.text) = t ∧
        (whole row (Token.list t)).Shows (Token.list t) ts := by
  obtain ⟨ts, split, inRow, spells, front⟩ := Input.takeWhile_listFrom 0 t
  rw [Nat.zero_add] at split
  change Token.list t = _ at split
  change (Token.list t).takeWhile _ = _ at front
  obtain ⟨used, shows, aligned⟩ :=
    shows_growOf (Replay.textEnd (Token.list t)) row (lexed_list t) (Input.aligned_start _) fits
  have shows_all := shows.andThen (Sprout.Shows.trivia (growOf (Replay.textEnd (Token.list t)) row
    (Token.list t)).rest)
  -- Behind what was used up stands the end, since the parser has seen everything.
  have ends : (whole row (Token.list t)).rest.takeWhile (·.kind != .eof) = [] := by
    have last := aligned.dropTrivia
    have stops := takeWhile_dropWhile
      (growOf (Replay.textEnd (Token.list t)) row (Token.list t)).rest
    change List.takeWhile _ ((growOf (Replay.textEnd (Token.list t)) row (Token.list t)).rest.dropWhile
      (·.isTrivia)) = []
    generalize (growOf (Replay.textEnd (Token.list t)) row (Token.list t)).rest.dropWhile
      (·.isTrivia) = rest at last stops
    cases rest with
    | nil => rfl
    | cons x rest =>
      have seen : x.isTrivia = false := by
        rw [← Bool.not_eq_true]
        intro hx
        simp [hx] at stops
      have kind := last.kind_head seen
      rw [Nat.zero_add, all, Input.kind_eq_eof_of_le (Nat.le_refl _)] at kind
      simp [← kind]
  have same := congrArg (List.takeWhile (·.kind != .eof)) shows_all.split
  rw [front,
    List.takeWhile_append_of_pos fun x hx => by simpa using shows_all.no_end x hx] at same
  rw [show ((growOf (Replay.textEnd (Token.list t)) row (Token.list t)).andThen Sprout.trivia).rest =
    (whole row (Token.list t)).rest from rfl, ends, List.append_nil] at same
  exact ⟨ts, split, inRow, spells, same ▸ shows_all⟩

end Outline

namespace Parse

open Verbatim.Parser Outline

/-- Nothing is lost: the leaves of the tree of a text, split into their pieces, are its tokens without
the end, with the same kinds and texts; composite leaves are spelled as their kinds are; and the tree
has the text and the size of the text. -/
theorem lossless (t : Text) : ∃ p, ofText t = .ok p ∧
    p.tree.leaves.flatMap piecesOf = ((Token.list t).filter (·.kind != .eof)).map shown ∧
    (∀ leaf ∈ p.tree.leaves, WellSpelled leaf) ∧ p.text = t ∧ p.tree.size = t.size := by
  obtain ⟨row, -, -, fits, width, parsed⟩ := ofText_eq t
  obtain ⟨ts, split, -, spells, shows⟩ := shows_whole fits width
  have text := shows.texts_eq.trans spells
  have front : (Token.list t).filter (·.kind != .eof) = ts := by
    rw [split, List.filter_append, List.filter_eq_self.mpr fun x hx => by
      simpa using shows.no_end x hx]
    simp
  refine ⟨_, ofText_of_byProgram parsed, ?_, ?_, text, ?_⟩
  · rw [leaves_branch, shows.leaves, front]
  · rw [leaves_branch]
    exact shows.spelled
  · exact (totalSize_of_sizedOf _ shows.sized).trans (congrArg Text.size text)

end Parse

end Verbatim
