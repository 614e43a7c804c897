import Verbatim.Proofs.LineBreak
import Verbatim.Proofs.Trivia

/-!
# What a tree depends on while it grows

The trivia in front of a node go into the tree at once, whether outside of the node or inside. So what is
left of a tree without its trivia grows from the other tokens alone, and what is reported on the way from
the tokens that are no trivia or malformed. Nothing depends on where a text starts, or on what comes
behind the tokens that are used up.
-/
namespace Verbatim

open Green Token

theorem Kind.spelling_of_pieces (k : Kind) : k.pieces = [k] ∨ ∀ b ∈ k.pieces, b.spelling? ≠ none := by
  cases k <;> first | exact .inl rfl | exact .inr (by decide)

/-- Moves a diagnostic back by some bytes. -/
def Diagnostic.moved (n : Nat) (d : Diagnostic) : Diagnostic := { d with span := d.span.shift n }

namespace Sprout

/-- What is reported for tokens that are placed as they are. -/
def faults (ts : List Token) : List Diagnostic := ts.filterMap Token.diagnostic?

@[simp] theorem faults_append (ts us : List Token) : faults (ts ++ us) = faults ts ++ faults us :=
  List.filterMap_append

/-- A node with all the trivia in front of it. -/
structure Entered (s : Sprout) (k : Kind) (ts : List Token) (inside : Sprout) : Prop where
  bare : bareOf s.greens = [.branch k (bareOf inside.greens)]
  reports : s.reports = faults (ts.takeWhile (·.isTrivia)) ++ inside.reports
  rest : s.rest = inside.rest

/-- Wherever the trivia in front of a node go, what is inside grows behind them. -/
theorem entered (k : Kind) (next : List Token → Sprout) (ts : List Token) :
    ((outer k ts).andThen fun ts => ((trivia ts).andThen next).under k).Entered k ts
      (next (ts.dropWhile (·.isTrivia))) := by
  generalize hn : (ts.takeWhile (·.isTrivia)).length -
    attachedCount k (ts.takeWhile (·.isTrivia)) = n
  have inner := Replay.trivia_outer k ts
  rw [hn] at inner
  have outside : outer k ts = ofTokens ((ts.takeWhile (·.isTrivia)).take n)
      ((ts.takeWhile (·.isTrivia)).drop n ++ ts.dropWhile (·.isTrivia)) := by
    rw [outer, hn]
  have none (placed : List Token) (h : ∀ t ∈ placed, t ∈ ts.takeWhile (·.isTrivia)) :
      bareOf (placed.map Token.leaf) = [] :=
    bareOf_of_trivia fun t ht => List.mem_takeWhile_imp (h t ht)
  have before := none _ fun t ht => List.mem_of_mem_take (i := n) ht
  have behind := none _ fun t ht => List.mem_of_mem_drop (i := n) ht
  refine ⟨?_, ?_, ?_⟩
  · simp only [andThen, under, inner]
    rw [bareOf_append, outside]
    simp only [ofTokens, before, List.nil_append, branch, bareOf, bare, bareOf_append, behind]
  · simp only [andThen, under, inner]
    rw [outside]
    simp only [ofTokens]
    rw [← List.append_assoc, ← List.filterMap_append, List.take_append_drop]
    rfl
  · simp only [andThen, under, inner, ofTokens]

end Sprout

/-! ## Tokens that are left out -/

/-- All tokens are kept that are no trivia. -/
def Keeps (keep : Token → Bool) : Prop := ∀ t, t.isTrivia = false → keep t = true

/-- No malformed token is left out. -/
def Sound (keep : Token → Bool) (ts : List Token) : Prop := ∀ t ∈ ts, keep t = false → t.fault = none

theorem Sound.sub {keep : Token → Bool} {ts us : List Token} (h : Sound keep ts)
    (sub : ∀ t ∈ us, t ∈ ts) : Sound keep us := fun t ht => h t (sub t ht)

/-- What grows over the tokens that are kept is what grows over all of them, but for the trivia; and it
reports the same, where no malformed token is left out. -/
structure Sifted (keep : Token → Bool) (ts : List Token) (a b : Sprout) : Prop where
  bare : bareOf a.greens = bareOf b.greens
  rest : b.rest = a.rest.filter keep
  reports : Sound keep ts → a.reports = b.reports

namespace Keeps

variable {keep : Token → Bool} (h : Keeps keep) (ts : List Token)

include h

theorem takeWhile_filter :
    (ts.filter keep).takeWhile (·.isTrivia) = (ts.takeWhile (·.isTrivia)).filter keep ∧
      (ts.filter keep).dropWhile (·.isTrivia) = (ts.dropWhile (·.isTrivia)).filter keep := by
  induction ts with
  | nil => exact ⟨rfl, rfl⟩
  | cons t ts rest =>
    by_cases ht : t.isTrivia = true
    · by_cases hk : keep t = true
      · simp [ht, hk, rest]
      · simp [ht, hk, rest]
    · have hk := h t (by simpa using ht)
      simp [ht, hk]

omit h in
theorem faults_filter {ts : List Token} (sound : Sound keep ts) :
    Sprout.faults (ts.filter keep) = Sprout.faults ts := by
  induction ts with
  | nil => rfl
  | cons t ts ih =>
    have rest := ih (sound.sub fun t ht => List.mem_cons_of_mem _ ht)
    simp only [Sprout.faults] at rest ⊢
    by_cases hk : keep t = true
    · simp [hk, List.filterMap_cons, rest]
    · have := sound t List.mem_cons_self (by simpa using hk)
      simp [hk, rest, Token.diagnostic?, this]

theorem faults_takeWhile (sound : Sound keep ts) :
    Sprout.faults ((ts.filter keep).takeWhile (·.isTrivia)) = Sprout.faults (ts.takeWhile (·.isTrivia)) := by
  rw [(h.takeWhile_filter ts).1,
    faults_filter (sound.sub fun t ht => (List.takeWhile_prefix _).subset ht)]

theorem trivia : Sifted keep ts (.trivia ts) (.trivia (ts.filter keep)) := by
  have bare (ts : List Token) : bareOf (Sprout.trivia ts).greens = [] :=
    bareOf_of_trivia fun t ht => List.mem_takeWhile_imp ht
  exact ⟨(bare ts).trans (bare _).symm, (h.takeWhile_filter ts).2,
    fun sound => (h.faults_takeWhile ts sound).symm⟩

theorem anchor_filter (stop : Nat) : anchor stop (ts.filter keep) = anchor stop ts := by
  have same : (ts.filter keep).find? (!·.isTrivia) = ts.find? (!·.isTrivia) := by
    rw [List.find?_filter]
    refine congrArg (ts.find? ·) (funext fun t => ?_)
    have := h t
    cases ht : t.isTrivia <;> simp_all
  rw [anchor, anchor, same]

end Keeps

namespace Sifted

variable {keep : Token → Bool} {ts : List Token} {a b : Sprout}

theorem nil (ts : List Token) : Sifted keep ts ⟨[], [], ts⟩ ⟨[], [], ts.filter keep⟩ :=
  ⟨rfl, rfl, fun _ => rfl⟩

theorem andThen {next : List Token → Sprout} (h : Sifted keep ts a b) (sub : ∀ t ∈ a.rest, t ∈ ts)
    (hn : Sifted keep a.rest (next a.rest) (next (a.rest.filter keep))) :
    Sifted keep ts (a.andThen next) (b.andThen next) := by
  refine ⟨?_, ?_, fun sound => ?_⟩
  · simp only [Sprout.andThen, bareOf_append, h.bare, h.rest, hn.bare]
  · simp only [Sprout.andThen, h.rest, hn.rest]
  · simp only [Sprout.andThen, h.reports sound, h.rest, hn.reports (sound.sub sub)]

theorem entered {k : Kind} (keeps : Keeps keep) {inside inside' : Sprout} (ha : a.Entered k ts inside)
    (hb : b.Entered k (ts.filter keep) inside')
    (h : Sifted keep (ts.dropWhile (·.isTrivia)) inside inside') : Sifted keep ts a b := by
  refine ⟨?_, ?_, fun sound => ?_⟩
  · rw [ha.bare, hb.bare, h.bare]
  · rw [ha.rest, hb.rest, h.rest]
  · rw [ha.reports, hb.reports, keeps.faults_takeWhile ts sound,
      h.reports (sound.sub fun t ht => (List.dropWhile_suffix _).subset ht)]

end Sifted

theorem Sprout.Shows.sub {a : Sprout} {ts used : List Token} (h : a.Shows ts used) :
    ∀ t ∈ a.rest, t ∈ ts := fun _ ht => h.split ▸ List.mem_append_right _ ht

namespace Outline

variable {input : Input} {keep : Token → Bool}

mutual
/-- Leaving out trivia changes nothing but the trivia of a tree. -/
theorem sifted_grow (keeps : Keeps keep) (stop : Nat) : ∀ (o : Outline) {ts : List Token} {i : Nat},
    Lexed ts → input.Aligned ts i → Fits input o i →
      Sifted keep ts (o.grow stop ts) (o.grow stop (ts.filter keep))
  | .token k n, ts, i, hl, ha, hf => by
    obtain ⟨at_i, more, rfl⟩ := hf
    have no_end : ∀ b ∈ k.pieces, b ≠ .eof := fun b hb he =>
      more (Kind.pieces_of_barrier (b := .eof) rfl (he ▸ hb))
    obtain ⟨glued, rest, split, kinds, -, seen⟩ :=
      ha.dropTrivia.glued (takeWhile_dropWhile ts) no_end at_i
    have length : k.pieces.length = glued.length := by rw [← kinds, List.length_map]
    have kept : glued.filter keep = glued := List.filter_eq_self.mpr fun t ht => keeps t (seen t ht)
    rw [grow, grow]
    refine (keeps.trivia ts).andThen (Sprout.Shows.trivia ts).sub ?_
    change Sifted keep (ts.dropWhile (·.isTrivia))
      (.taken k k.pieces.length (ts.dropWhile (·.isTrivia)))
      (.taken k k.pieces.length ((ts.dropWhile (·.isTrivia)).filter keep))
    rw [split, List.filter_append, kept, length, Level.taken_append, Level.taken_append]
    exact ⟨rfl, rfl, fun _ => rfl⟩
  | .error cause, ts, i, _, _, _ =>
    ⟨rfl, rfl, fun _ => by rw [grow, grow, keeps.anchor_filter ts]⟩
  | .fault _, ts, i, _, _, _ => .nil ts
  | .void, ts, i, _, _, _ => .nil ts
  | .node k row, ts, i, hl, ha, hf => by
    have inside := sifted_growOf keeps stop row (hl.rest (Sprout.Shows.trivia ts)) ha.dropTrivia hf
    rw [grow, grow]
    refine .entered keeps (Sprout.entered k _ ts) (Sprout.entered k _ _) ?_
    rw [(keeps.takeWhile_filter ts).2]
    exact inside
  | .around k inner row, ts, i, hl, ha, hf => by
    have lexed := hl.rest (Sprout.Shows.trivia ts)
    have first := sifted_grow keeps stop inner lexed ha.dropTrivia hf.1
    obtain ⟨used, shows, aligned⟩ := shows_grow stop inner lexed ha.dropTrivia hf.1
    have second := sifted_growOf keeps stop row (lexed.rest shows) aligned hf.2
    rw [grow, grow]
    refine .entered keeps (Sprout.entered k _ ts) (Sprout.entered k _ _) ?_
    rw [(keeps.takeWhile_filter ts).2]
    exact first.andThen shows.sub second

theorem sifted_growOf (keeps : Keeps keep) (stop : Nat) : ∀ (row : List Outline) {ts : List Token}
    {i : Nat}, Lexed ts → input.Aligned ts i → FitsOf input row i →
      Sifted keep ts (growOf stop row ts) (growOf stop row (ts.filter keep))
  | [], ts, i, _, _, _ => .nil ts
  | o :: older, ts, i, hl, ha, hf => by
    obtain ⟨used, shows, aligned⟩ := shows_growOf stop older hl ha hf.1
    rw [growOf, growOf]
    exact (sifted_growOf keeps stop older hl ha hf.1).andThen shows.sub
      (sifted_grow keeps stop o (hl.rest shows) aligned hf.2)
end

end Outline

/-! ## A text that starts elsewhere -/

namespace Sprout

/-- The same over a text that starts further behind. -/
def moved (n : Nat) (a : Sprout) : Sprout :=
  ⟨a.greens, a.reports.map (Diagnostic.moved n), a.rest.map (Token.moved n)⟩

variable (n : Nat)

theorem diagnostic?_moved (t : Token) :
    (t.moved n).diagnostic? = t.diagnostic?.map (Diagnostic.moved n) := by
  simp [Token.diagnostic?, Token.moved, Diagnostic.moved, Token.span, Span.shift, Function.comp_def]

theorem faults_moved (ts : List Token) :
    faults (ts.map (Token.moved n)) = (faults ts).map (Diagnostic.moved n) := by
  rw [faults, faults, List.filterMap_map, List.map_filterMap]
  exact congrArg (ts.filterMap ·) (funext fun t => diagnostic?_moved n t)

theorem takeWhile_moved (ts : List Token) :
    (ts.map (Token.moved n)).takeWhile (·.isTrivia) = (ts.takeWhile (·.isTrivia)).map (Token.moved n) ∧
      (ts.map (Token.moved n)).dropWhile (·.isTrivia) =
        (ts.dropWhile (·.isTrivia)).map (Token.moved n) :=
  ⟨List.takeWhile_map .., List.dropWhile_map ..⟩

theorem ofTokens_moved (placed rest : List Token) :
    ofTokens (placed.map (Token.moved n)) (rest.map (Token.moved n)) = (ofTokens placed rest).moved n := by
  simp only [ofTokens, moved, List.map_map, Sprout.mk.injEq, and_true]
  exact ⟨rfl, faults_moved n placed⟩

theorem trivia_moved (ts : List Token) : trivia (ts.map (Token.moved n)) = (trivia ts).moved n := by
  rw [trivia, (takeWhile_moved n ts).1, (takeWhile_moved n ts).2, ofTokens_moved]
  rfl

theorem attachedCount_moved (k : Kind) (ts : List Token) :
    attachedCount k (ts.map (Token.moved n)) = attachedCount k ts := by
  have same : (fun t : Token => !(t.moved n).separates) = fun t => !t.separates := rfl
  have same' : (fun t : Token => (t.moved n).kind != .comment) = fun t => t.kind != .comment := rfl
  unfold attachedCount
  split
  · simp only [← List.map_reverse, List.takeWhile_map, List.dropWhile_map, List.length_map,
      Function.comp_def, same, same']
  · rfl

theorem outer_moved (k : Kind) (ts : List Token) :
    outer k (ts.map (Token.moved n)) = (outer k ts).moved n := by
  simp only [outer, (takeWhile_moved n ts).1, (takeWhile_moved n ts).2, attachedCount_moved,
    List.length_map, ← List.map_take, ← List.map_drop, ← List.map_append, ofTokens_moved]

theorem taken_moved (k : Kind) (m : Nat) (ts : List Token) :
    taken k m (ts.map (Token.moved n)) = (taken k m ts).moved n := by
  simp only [taken, moved, ← List.map_take, ← List.map_drop, List.flatMap_map, Sprout.mk.injEq,
    and_true]
  refine ⟨rfl, ?_⟩
  rcases ts.take m with _ | ⟨t, _ | ⟨u, us⟩⟩
  · rfl
  · change (t.moved n).diagnostic?.toList = t.diagnostic?.toList.map (Diagnostic.moved n)
    rw [diagnostic?_moved]
    cases t.diagnostic? <;> rfl
  · rfl

theorem andThen_moved (a : Sprout) (next : List Token → Sprout) {next' : List Token → Sprout}
    (h : next' (a.rest.map (Token.moved n)) = (next a.rest).moved n) :
    (a.moved n).andThen next' = (a.andThen next).moved n := by
  simp only [andThen, moved, List.map_append] at h ⊢
  rw [h]

theorem under_moved (a : Sprout) (k : Kind) : (a.moved n).under k = (a.under k).moved n := rfl

end Sprout

namespace Outline

variable (n : Nat)

theorem anchor_moved (stop : Nat) (ts : List Token) :
    anchor (stop + n) (ts.map (Token.moved n)) = (anchor stop ts).shift n := by
  have same : (fun t : Token => !(t.moved n).isTrivia) = fun t => !t.isTrivia := rfl
  simp only [anchor, List.find?_map, Function.comp_def, same]
  cases ts.find? (!·.isTrivia) <;> rfl

mutual
/-- The tree is the same wherever its text starts, and what is reported moves with the text. -/
theorem grow_moved (stop : Nat) : ∀ (o : Outline) (ts : List Token),
    o.grow (stop + n) (ts.map (Token.moved n)) = (o.grow stop ts).moved n
  | .token k m, ts => by
    rw [grow, grow, Sprout.trivia_moved]
    exact Sprout.andThen_moved n _ _ (Sprout.taken_moved n k m _)
  | .error cause, ts => by
    rw [grow, grow, anchor_moved]
    rfl
  | .fault _, ts => rfl
  | .void, ts => rfl
  | .node k row, ts => by
    rw [grow, grow, Sprout.outer_moved]
    refine Sprout.andThen_moved n _ _ ?_
    rw [Sprout.trivia_moved, Sprout.andThen_moved n _ _ (growOf_moved stop row _), Sprout.under_moved]
  | .around k inner row, ts => by
    rw [grow, grow, Sprout.outer_moved]
    refine Sprout.andThen_moved n _ _ ?_
    rw [Sprout.trivia_moved, Sprout.andThen_moved n _
      (fun ts => (grow stop inner ts).andThen fun ts => growOf stop row ts) ?_, Sprout.under_moved]
    rw [grow_moved stop inner, Sprout.andThen_moved n _ _ (growOf_moved stop row _)]

theorem growOf_moved (stop : Nat) : ∀ (row : List Outline) (ts : List Token),
    growOf (stop + n) row (ts.map (Token.moved n)) = (growOf stop row ts).moved n
  | [], ts => rfl
  | o :: older, ts => by
    rw [growOf, growOf, growOf_moved stop older]
    exact Sprout.andThen_moved n _ _ (grow_moved stop o _)
end

end Outline

/-! ## Tokens that come behind -/

/-- No trivia stand among some tokens, nor in front of those that come behind them. -/
structure Bordered (ts us : List Token) : Prop where
  seen : ∀ t ∈ ts, t.isTrivia = false
  stops : us.takeWhile (·.isTrivia) = []

namespace Bordered

variable {ts us : List Token} (h : Bordered ts us)

include h

theorem drop (n : Nat) : Bordered (ts.drop n) us := ⟨fun t ht => h.seen t (List.mem_of_mem_drop ht), h.stops⟩

theorem takeWhile_append : (ts ++ us).takeWhile (·.isTrivia) = [] := by
  cases ts with
  | nil => exact h.stops
  | cons t ts => simp [h.seen t List.mem_cons_self]

theorem trivia : Sprout.trivia (ts ++ us) = ⟨[], [], ts ++ us⟩ :=
  Sprout.trivia_of_none h.takeWhile_append

theorem outer (k : Kind) : Sprout.outer k (ts ++ us) = ⟨[], [], ts ++ us⟩ :=
  Sprout.outer_of_none h.takeWhile_append

end Bordered

namespace Outline

variable {ts us us' : List Token}

mutual
/-- Where there are no trivia, what is quiet grows from as many tokens as it takes, whatever comes behind
them. -/
theorem grow_front (stop stop' : Nat) : ∀ (o : Outline) {ts us : List Token}, Bordered ts us →
    o.Quiet → o.width ≤ ts.length → o.grow stop' (ts ++ us) = ⟨(o.grow stop ts).greens,
      (o.grow stop ts).reports, ts.drop o.width ++ us⟩ ∧ (o.grow stop ts).rest = ts.drop o.width
  | .token k n, ts, us, h, _, le => by
    have alone : Bordered ts [] := ⟨h.seen, rfl⟩
    have front := alone.trivia
    rw [List.append_nil] at front
    rw [width] at le
    rw [grow, grow, front, h.trivia]
    simp only [Sprout.andThen, Sprout.taken, List.nil_append, List.take_append_of_le_length le,
      List.drop_append_of_le_length le, width, and_self]
  | .error _, _, _, _, quiet, _ => absurd quiet id
  | .fault _, _, _, _, quiet, _ => absurd quiet id
  | .void, ts, us, _, _, _ => ⟨rfl, rfl⟩
  | .node k row, ts, us, h, quiet, le => by
    have alone : Bordered ts [] := ⟨h.seen, rfl⟩
    have front := alone.trivia
    have outside := alone.outer k
    rw [List.append_nil] at front outside
    obtain ⟨same, rest⟩ := growOf_front stop stop' row h quiet le
    rw [grow, grow, h.outer, outside]
    simp only [Sprout.andThen, h.trivia, front, Sprout.under, List.nil_append, same, rest, width,
      and_self]
  | .around k inner row, ts, us, h, quiet, le => by
    have alone : Bordered ts [] := ⟨h.seen, rfl⟩
    have front := alone.trivia
    have outside := alone.outer k
    rw [List.append_nil] at front outside
    rw [width] at le
    obtain ⟨first, left⟩ := grow_front stop stop' inner h quiet.1 (by omega)
    obtain ⟨second, rest⟩ := growOf_front stop stop' row (h.drop inner.width) quiet.2 (by
      rw [List.length_drop]
      omega)
    rw [grow, grow, h.outer, outside]
    simp only [Sprout.andThen, h.trivia, front, Sprout.under, List.nil_append, first, left, second,
      rest, width, List.drop_drop, and_self]

theorem growOf_front (stop stop' : Nat) : ∀ (row : List Outline) {ts us : List Token}, Bordered ts us →
    QuietOf row → widthOf row ≤ ts.length → growOf stop' row (ts ++ us) = ⟨(growOf stop row ts).greens,
      (growOf stop row ts).reports, ts.drop (widthOf row) ++ us⟩ ∧
      (growOf stop row ts).rest = ts.drop (widthOf row)
  | [], ts, us, _, _, _ => ⟨rfl, rfl⟩
  | o :: older, ts, us, h, quiet, le => by
    rw [widthOf] at le
    obtain ⟨first, left⟩ := growOf_front stop stop' older h quiet.1 (by omega)
    obtain ⟨second, rest⟩ := grow_front stop stop' o (h.drop (widthOf older)) quiet.2 (by
      rw [List.length_drop]
      omega)
    rw [growOf, growOf]
    simp only [Sprout.andThen, first, left, second, rest, widthOf, List.drop_drop, and_self]
end

/-! ## What a quiet outline reports -/

/-- What is reported are the malformed tokens that are used up. -/
def Accounts (a : Sprout) (ts : List Token) : Prop :=
  a.reports ++ Sprout.faults a.rest = Sprout.faults ts

/-- Tokens of a text: only those without a fixed spelling can be malformed. -/
def Sane (ts : List Token) : Prop := ∀ t ∈ ts, t.kind.spelling? ≠ none → t.fault = none

namespace Accounts

variable {ts : List Token}

theorem andThen {a : Sprout} {next : List Token → Sprout} (h : Accounts a ts)
    (hn : Accounts (next a.rest) a.rest) : Accounts (a.andThen next) ts := by
  simp only [Accounts, Sprout.andThen, List.append_assoc] at *
  rw [hn, h]

theorem trivia (ts : List Token) : Accounts (.trivia ts) ts := by
  have parts := List.takeWhile_append_dropWhile (p := fun t : Token => t.isTrivia) (l := ts)
  have all := Sprout.faults_append (ts.takeWhile (·.isTrivia)) (ts.dropWhile (·.isTrivia))
  rw [parts] at all
  exact all.symm

theorem entered {a inside : Sprout} {k : Kind} (h : a.Entered k ts inside)
    (hi : Accounts inside (ts.dropWhile (·.isTrivia))) : Accounts a ts := by
  have ahead : Sprout.faults (ts.takeWhile (·.isTrivia)) ++ Sprout.faults (ts.dropWhile (·.isTrivia)) =
      Sprout.faults ts := trivia ts
  rw [Accounts, h.reports, h.rest, List.append_assoc, show _ ++ _ = _ from hi, ahead]

/-- Tokens of which the tree makes one. -/
theorem taken {k : Kind} {glued rest : List Token} (kinds : glued.map (·.kind) = k.pieces)
    (sane : Sane glued) : Accounts (.taken k k.pieces.length (glued ++ rest)) (glued ++ rest) := by
  have length : k.pieces.length = glued.length := by rw [← kinds, List.length_map]
  rw [length, Level.taken_append, Accounts, Sprout.faults_append]
  refine congrArg (· ++ _) ?_
  rcases k.spelling_of_pieces with single | spelled
  · rw [single] at kinds
    obtain ⟨t, ts, rfl, -, none⟩ := List.map_eq_cons_iff.mp kinds
    obtain rfl : ts = [] := by simpa using none
    cases h : t.diagnostic? <;> simp [Level.reportsOf, Sprout.faults, h]
  · have sound : ∀ t ∈ glued, t.diagnostic? = none := fun t ht => by
      rw [Token.diagnostic?, sane t ht (spelled _ (kinds ▸ List.mem_map_of_mem ht))]
      rfl
    have none : Sprout.faults glued = [] := List.filterMap_eq_nil_iff.mpr sound
    rw [none]
    rcases glued with _ | ⟨t, _ | ⟨u, us⟩⟩
    · rfl
    · simp [Level.reportsOf, sound t List.mem_cons_self]
    · rfl

end Accounts

variable {input : Input}

theorem Sane.rest {a : Sprout} {ts used : List Token} (h : Sane ts) (shows : a.Shows ts used) :
    Sane a.rest := fun t ht => h t (shows.split ▸ List.mem_append_right _ ht)

mutual
theorem accounts_grow (stop : Nat) : ∀ (o : Outline) {ts : List Token} {i : Nat}, Lexed ts → Sane ts →
    input.Aligned ts i → Fits input o i → o.Quiet → Accounts (o.grow stop ts) ts
  | .token k n, ts, i, hl, hs, ha, hf, _ => by
    obtain ⟨at_i, more, rfl⟩ := hf
    have no_end : ∀ b ∈ k.pieces, b ≠ .eof := fun b hb he =>
      more (Kind.pieces_of_barrier (b := .eof) rfl (he ▸ hb))
    obtain ⟨glued, rest, split, kinds, -, -⟩ :=
      ha.dropTrivia.glued (takeWhile_dropWhile ts) no_end at_i
    have sane := hs.rest (Sprout.Shows.trivia ts)
    rw [show (Sprout.trivia ts).rest = _ from split] at sane
    rw [grow]
    refine (Accounts.trivia ts).andThen ?_
    rw [show (Sprout.trivia ts).rest = _ from split]
    exact .taken kinds fun t ht => sane t (List.mem_append_left _ ht)
  | .error _, _, _, _, _, _, _, quiet => absurd quiet id
  | .fault _, _, _, _, _, _, _, quiet => absurd quiet id
  | .void, ts, _, _, _, _, _, _ => rfl
  | .node k row, ts, i, hl, hs, ha, hf, quiet => by
    have ahead := Sprout.Shows.trivia ts
    rw [grow]
    exact .entered (Sprout.entered k _ ts)
      (accounts_growOf stop row (hl.rest ahead) (hs.rest ahead) ha.dropTrivia hf quiet)
  | .around k inner row, ts, i, hl, hs, ha, hf, quiet => by
    have ahead := Sprout.Shows.trivia ts
    have first := accounts_grow stop inner (hl.rest ahead) (hs.rest ahead) ha.dropTrivia hf.1 quiet.1
    obtain ⟨used, shows, aligned⟩ := shows_grow stop inner (hl.rest ahead) ha.dropTrivia hf.1
    rw [grow]
    exact .entered (Sprout.entered k _ ts) (first.andThen (accounts_growOf stop row
      ((hl.rest ahead).rest shows) ((hs.rest ahead).rest shows) aligned hf.2 quiet.2))

/-- A quiet outline reports the malformed tokens that it takes, in their order, and nothing else. -/
theorem accounts_growOf (stop : Nat) : ∀ (row : List Outline) {ts : List Token} {i : Nat}, Lexed ts →
    Sane ts → input.Aligned ts i → FitsOf input row i → QuietOf row → Accounts (growOf stop row ts) ts
  | [], ts, i, _, _, _, _, _ => rfl
  | o :: older, ts, i, hl, hs, ha, hf, quiet => by
    obtain ⟨used, shows, aligned⟩ := shows_growOf stop older hl ha hf.1
    rw [growOf]
    exact (accounts_growOf stop older hl hs ha hf.1 quiet.1).andThen
      (accounts_grow stop o (hl.rest shows) (hs.rest shows) aligned hf.2 quiet.2)
end

mutual
theorem quiet_of_grow (stop : Nat) : ∀ (o : Outline) {ts : List Token}, o.Clean →
    (o.grow stop ts).reports = [] → o.Quiet
  | .token _ _, _, _, _ => trivial
  | .error _, _, _, h => by simp [grow] at h
  | .fault _, _, clean, _ => absurd clean id
  | .void, _, _, _ => trivial
  | .node k row, ts, clean, h => by
    rw [grow, (Sprout.entered k _ ts).reports] at h
    exact quiet_of_growOf stop row clean.2 (List.append_eq_nil_iff.mp h).2
  | .around k inner row, ts, clean, h => by
    rw [grow, (Sprout.entered k _ ts).reports] at h
    obtain ⟨first, second⟩ := List.append_eq_nil_iff.mp (List.append_eq_nil_iff.mp h).2
    exact ⟨quiet_of_grow stop inner clean.2.2.1 first, quiet_of_growOf stop row clean.2.2.2 second⟩

/-- Where nothing is reported, the outline is quiet. -/
theorem quiet_of_growOf (stop : Nat) : ∀ (row : List Outline) {ts : List Token}, CleanOf row →
    (growOf stop row ts).reports = [] → QuietOf row
  | [], _, _, _ => trivial
  | o :: older, ts, clean, h => by
    obtain ⟨first, second⟩ := List.append_eq_nil_iff.mp h
    exact ⟨quiet_of_growOf stop older clean.2 first, quiet_of_grow stop o clean.1 second⟩
end

end Outline

end Verbatim
