import Mathlib.Data.List.Forall2
import Verbatim.Proofs.Lossless

/-!
# Trivia change nothing but leaves

Two texts may differ in their blanks and comments only. The parser sees the same of both, so that the
same outline grows over the tokens of either: the trees differ in their trivia, and each diagnostic is
anchored at the same token.
-/
namespace Verbatim

namespace Token

/-- What a token is, wherever it stands. -/
def face (t : Token) : Kind × Text × Option LexicalFault := (t.kind, t.text, t.fault)

/-- The tokens that are no trivia. -/
def visible (ts : List Token) : List Token := ts.filter (!·.isTrivia)

/-- The tokens that are no trivia, without the end. -/
def words (ts : List Token) : List Token := visible (ts.filter (·.kind != .eof))

/-- For each of some tokens, whether the next of them follows it directly. -/
def touching : List Token → List Bool
  | [] => []
  | t :: ts => (ts.head?.map (t.span.stop == ·.offset)).getD false :: touching ts

@[simp] theorem length_touching (ts : List Token) : (touching ts).length = ts.length := by
  induction ts with
  | nil => rfl
  | cons t ts ih => rw [touching, List.length_cons, List.length_cons, ih]

theorem visible_append (ts us : List Token) : visible (ts ++ us) = visible ts ++ visible us :=
  List.filter_append ..

theorem visible_of_trivia {ts : List Token} (h : ∀ t ∈ ts, t.isTrivia = true) : visible ts = [] :=
  List.filter_eq_nil_iff.mpr fun t ht => by simp [h t ht]

theorem InRow.le_offset {start : Nat} {ts : List Token} (h : InRow start ts) :
    ∀ t ∈ ts, start ≤ t.offset := by
  induction ts generalizing start with
  | nil => simp
  | cons first ts ih =>
    rintro t (_ | ⟨_, ht⟩)
    · exact Nat.le_of_eq h.1.symm
    · have := ih h.2.2.2 t ht
      omega

theorem InRow.lt_end {start : Nat} {ts : List Token} (h : InRow start ts) :
    ∀ t ∈ ts, t.offset < start + Text.size (ts.flatMap (·.text)) := by
  induction ts generalizing start with
  | nil => simp
  | cons first ts ih =>
    have room : first.text.size ≠ 0 := fun hz => h.2.1 (Text.eq_nil_of_size hz)
    rw [List.flatMap_cons, Text.size_append]
    rintro t (_ | ⟨_, ht⟩)
    · have := h.1
      omega
    · have := ih h.2.2.2 t ht
      omega

/-- Tokens in a row start one behind the other. -/
theorem InRow.pairwise {start : Nat} {ts : List Token} (h : InRow start ts) :
    ts.Pairwise (·.offset < ·.offset) := by
  induction ts generalizing start with
  | nil => exact .nil
  | cons first ts ih =>
    refine .cons (fun t ht => ?_) (ih h.2.2.2)
    have le := h.2.2.2.le_offset t ht
    have first_offset := h.1
    have : first.text.size ≠ 0 := fun hz => h.2.1 (Text.eq_nil_of_size hz)
    omega

end Token

open Token

namespace Input

/-- In a row, tokens follow each other directly if there are no trivia in between. -/
theorem joints_eq_touching {start : Nat} {ts : List Token} (h : InRow start ts) :
    (significant ts).map (·.2) = touching (visible ts) := by
  induction ts generalizing start with
  | nil => rfl
  | cons t ts ih =>
    have rest := ih h.2.2.2
    by_cases trivia : t.isTrivia = true
    · simpa [significant, visible, trivia] using rest
    · have heads : (ts.head?.map (!·.isTrivia)).getD false =
          ((visible ts).head?.map (t.span.stop == ·.offset)).getD false := by
        have stop : t.span.stop = start + t.text.size := by rw [Span.stop, Token.span, h.1]
        have row := h.2.2.2
        rw [← stop] at row
        cases ts with
        | nil => rfl
        | cons next ts =>
          by_cases trivia : next.isTrivia = true
          · have apart : ∀ w ∈ visible ts, t.span.stop ≠ w.offset := fun w hw => by
              have lt := List.rel_of_pairwise_cons row.pairwise (List.mem_of_mem_filter hw)
              rw [← row.1]
              exact Nat.ne_of_lt lt
            have skip : visible (next :: ts) = visible ts := by simp [visible, trivia]
            rw [skip]
            cases hv : visible ts with
            | nil => simp [trivia]
            | cons w ws => simp [trivia, apart w (by simp [hv])]
          · simp [visible, trivia, row.1]
      have keep : visible (t :: ts) = t :: visible ts := by simp [visible, trivia]
      rw [keep, touching, ← heads, ← rest]
      simp [significant, trivia]

/-- What is seen of tokens of the given kinds, each of which the next one touches or not. -/
def seeing (kinds : List Kind) (joints : List Bool) : Input := pack ⟨#[], #[]⟩ (kinds.zip joints)

theorem holds_seeing (kinds : List Kind) (joints : List Bool) : (seeing kinds joints).Holds (kinds.zip joints) :=
  holds_nil.pack _

/-- The parser sees no more of a text than its words and which of them follow each other directly. -/
theorem ofTokens_list (t : Text) : ofTokens (Token.list t) =
    seeing ((words (Token.list t)).map (·.kind)) (touching (words (Token.list t))) := by
  obtain ⟨ts, row, inRow, -, front⟩ := takeWhile_listFrom 0 t
  have no_end : ∀ x ∈ ts, (x.kind != .eof) = true := fun x hx => by
    simpa using (spelled_of_inRow inRow x hx).no_end
  have seen : words (Token.list t) = visible ts := by
    rw [words, show Token.list t = _ from row, List.filter_append, List.filter_eq_self.mpr no_end]
    exact congrArg visible (List.append_nil ts)
  rw [ofTokens_eq_pack, show (Token.list t).takeWhile _ = ts from front, seeing, seen,
    ← joints_eq_touching inRow, visible, ← map_significant, List.zip_map', List.map_id']

theorem kinds_ofTokens_list (t : Text) :
    (ofTokens (Token.list t)).kinds.toList = (words (Token.list t)).map (·.kind) := by
  rw [ofTokens_list, (holds_seeing _ _).kinds, List.map_fst_zip (by rw [List.length_map, length_touching])]

/-- A token is joint if the next one starts where it ends. -/
theorem isJoint_ofTokens_list (t : Text) (i : Nat) :
    (ofTokens (Token.list t)).isJoint i = (touching (words (Token.list t)))[i]?.getD false := by
  have known : (touching (words (Token.list t))).length ≤ ((words (Token.list t)).map (·.kind)).length := by
    rw [List.length_map, length_touching]
  rw [ofTokens_list, (holds_seeing _ _).joint]
  conv_rhs => rw [← List.map_snd_zip known, List.getElem?_map]
  cases (((words (Token.list t)).map (·.kind)).zip (touching (words (Token.list t))))[i]? <;> rfl

end Input

/-! ## Trees without trivia -/

namespace Green

mutual
/-- The tree with its trivia deleted. -/
def bare : Green → Green
  | token k t => token k t
  | node k _ cs => branch k (bareOf cs)

/-- The same for some elements, of which those that are trivia go. -/
def bareOf : List Green → List Green
  | [] => []
  | token k t :: gs => if k.isTrivia then bareOf gs else token k t :: bareOf gs
  | node k n cs :: gs => bare (node k n cs) :: bareOf gs
end

theorem bareOf_append (gs hs : List Green) : bareOf (gs ++ hs) = bareOf gs ++ bareOf hs := by
  induction gs with
  | nil => rfl
  | cons g gs ih =>
    cases g with
    | token k t =>
      simp only [List.cons_append, bareOf, ih]
      split <;> rfl
    | node k n cs => simp only [List.cons_append, bareOf, ih]

theorem bareOf_of_trivia {placed : List Token} (h : ∀ t ∈ placed, t.isTrivia = true) :
    bareOf (placed.map Token.leaf) = [] := by
  induction placed with
  | nil => rfl
  | cons t placed ih =>
    have first : t.kind.isTrivia = true := h t List.mem_cons_self
    rw [List.map_cons, Token.leaf, bareOf, if_pos first]
    exact ih fun t ht => h t (List.mem_cons_of_mem _ ht)

end Green

open Green

/-- Two texts, seen as rows of tokens, that differ in trivia only. -/
structure Twins (S T : List Token) : Prop where
  faces : S.map face = T.map face
  left_ends : ∃ ws e, S = ws ++ [e] ∧ e.kind = .eof
  left_ordered : S.Pairwise (·.offset < ·.offset)
  right_ordered : T.Pairwise (·.offset < ·.offset)

/-- Diagnostics with the same cause that are anchored at the same one of the visible tokens. -/
structure Paired (S T : List Token) (d d' : Diagnostic) : Prop where
  cause : d.cause = d'.cause
  place : ∃ (i : Nat) (x y : Token), S[i]? = some x ∧ T[i]? = some y ∧ d.span = x.span ∧ d'.span = y.span

/-- What is left of both texts from the visible token `i` on. -/
structure Level (input : Input) (S T : List Token) (i : Nat) (us vs : List Token) : Prop where
  lt : i < S.length
  left : visible us = S.drop i
  right : visible vs = T.drop i
  left_aligned : input.Aligned us i
  right_aligned : input.Aligned vs i
  left_calm : ∀ t ∈ us, t.isTrivia = true → t.fault = none
  right_calm : ∀ t ∈ vs, t.isTrivia = true → t.fault = none

/-- What has grown over both texts, up to the visible token `i`. -/
structure Alike (input : Input) (S T : List Token) (i : Nat) (a b : Sprout) : Prop where
  bare : bareOf a.greens = bareOf b.greens
  reports : List.Forall₂ (Paired S T) a.reports b.reports
  level : Level input S T i a.rest b.rest

namespace Alike

variable {input : Input} {S T us vs : List Token} {i j : Nat} {a b : Sprout}

theorem nil (h : Level input S T i us vs) : Alike input S T i ⟨[], [], us⟩ ⟨[], [], vs⟩ :=
  ⟨rfl, .nil, h⟩

theorem andThen {next next' : List Token → Sprout} (h : Alike input S T i a b)
    (hn : Alike input S T j (next a.rest) (next' b.rest)) :
    Alike input S T j (a.andThen next) (b.andThen next') := by
  refine ⟨?_, List.rel_append h.reports hn.reports, hn.level⟩
  simp only [Sprout.andThen, bareOf_append, h.bare, hn.bare]

theorem under (h : Alike input S T i a b) (k : Kind) : Alike input S T i (a.under k) (b.under k) := by
  refine ⟨?_, h.reports, h.level⟩
  simp [Sprout.under, branch, bareOf, Green.bare, h.bare]

end Alike

/-- Placing trivia is not seen. -/
theorem Level.ofTokens {input : Input} {S T : List Token} {i : Nat}
    {placed placed' rest rest' : List Token}
    (h : Level input S T i (placed ++ rest) (placed' ++ rest'))
    (trivia : ∀ t ∈ placed, t.isTrivia = true) (trivia' : ∀ t ∈ placed', t.isTrivia = true) :
    Alike input S T i (.ofTokens placed rest) (.ofTokens placed' rest') := by
  have silent {ps rs : List Token} (ht : ∀ t ∈ ps, t.isTrivia = true)
      (calm : ∀ t ∈ ps ++ rs, t.isTrivia = true → t.fault = none) :
      ps.filterMap Token.diagnostic? = [] :=
    List.filterMap_eq_nil_iff.mpr fun t hp => by
      rw [Token.diagnostic?, calm t (List.mem_append_left _ hp) (ht t hp)]
      rfl
  obtain ⟨lt, left, right, left_aligned, right_aligned, left_calm, right_calm⟩ := h
  refine ⟨?_, ?_, lt, ?_, ?_, ?_, ?_, fun t ht => left_calm t (List.mem_append_right _ ht),
    fun t ht => right_calm t (List.mem_append_right _ ht)⟩
  · exact (bareOf_of_trivia trivia).trans (bareOf_of_trivia trivia').symm
  · simp only [Sprout.ofTokens, silent trivia left_calm, silent trivia' right_calm]
    exact .nil
  · rwa [visible_append, visible_of_trivia trivia, List.nil_append] at left
  · rwa [visible_append, visible_of_trivia trivia', List.nil_append] at right
  · exact left_aligned.congr (Input.ofTokens_append_trivia trivia rest).symm
  · exact right_aligned.congr (Input.ofTokens_append_trivia trivia' rest').symm

namespace Level

variable {input : Input} {S T us vs : List Token} {i : Nat}

theorem trivia (h : Level input S T i us vs) : Alike input S T i (.trivia us) (.trivia vs) := by
  refine Level.ofTokens ?_ (fun t ht => List.mem_takeWhile_imp ht) fun t ht => List.mem_takeWhile_imp ht
  rwa [List.takeWhile_append_dropWhile, List.takeWhile_append_dropWhile]

theorem outer (h : Level input S T i us vs) (k : Kind) :
    Alike input S T i (.outer k us) (.outer k vs) := by
  have parts (ts : List Token) : (ts.takeWhile (·.isTrivia)).take
        ((ts.takeWhile (·.isTrivia)).length - attachedCount k (ts.takeWhile (·.isTrivia))) ++
      (Sprout.outer k ts).rest = ts := by
    simp [Sprout.outer, Sprout.ofTokens, ← List.append_assoc]
  have split := h
  rw [← parts us, ← parts vs] at split
  exact split.ofTokens (fun t ht => List.mem_takeWhile_imp (List.mem_of_mem_take ht))
    fun t ht => List.mem_takeWhile_imp (List.mem_of_mem_take ht)

theorem anchors (h : Level input S T i us vs) (twins : Twins S T) (stop stop' : Nat) :
    ∃ x y, S[i]? = some x ∧ T[i]? = some y ∧ anchor stop us = x.span ∧ anchor stop' vs = y.span := by
  have lt := h.lt
  have lt' : i < T.length := by
    have := congrArg List.length twins.faces
    rw [List.length_map, List.length_map] at this
    exact this ▸ h.lt
  have first (stop : Nat) {ts R : List Token} (lt : i < R.length) (hv : visible ts = R.drop i) :
      anchor stop ts = R[i].span := by
    have head : ts.find? (!·.isTrivia) = some R[i] := by
      rw [← List.head?_filter, show ts.filter (!·.isTrivia) = R.drop i from hv,
        List.head?_drop, List.getElem?_eq_getElem lt]
    rw [anchor, head]
  exact ⟨S[i], T[i], List.getElem?_eq_getElem lt, List.getElem?_eq_getElem lt',
    first stop lt h.left, first stop' lt' h.right⟩

/-- The report of a token that is taken alone. -/
def reportsOf : List Token → List Diagnostic
  | [t] => t.diagnostic?.toList
  | _ => []

theorem taken_append (k : Kind) (ts rest : List Token) :
    Sprout.taken k ts.length (ts ++ rest) =
      ⟨[.token k (ts.flatMap (·.text))], reportsOf ts, rest⟩ := by
  rw [Sprout.taken, List.take_left, List.drop_left]
  rfl

/-- Malformed in the one text, malformed in the other. -/
theorem paired_fault {t t' : Token} (left : S[i]? = some t) (right : T[i]? = some t')
    (h : t.face = t'.face) : List.Forall₂ (Paired S T) t.diagnostic?.toList t'.diagnostic?.toList := by
  have fault : t.fault = t'.fault := congrArg (fun f => f.2.2) h
  rw [Token.diagnostic?, Token.diagnostic?, ← fault]
  cases t.fault with
  | none => exact .nil
  | some what => exact .cons ⟨rfl, i, t, t', left, right, rfl, rfl⟩ .nil

/-- A token of the tree, taken from both texts. -/
theorem taken (h : Level input S T i us vs) (twins : Twins S T) {k : Kind}
    (stops : us.takeWhile (·.isTrivia) = []) (stops' : vs.takeWhile (·.isTrivia) = [])
    (at_i : input.isAt i k = true) (more : k ≠ .eof) :
    Alike input S T (i + k.pieces.length) (.taken k k.pieces.length us) (.taken k k.pieces.length vs) := by
  have no_end : ∀ b ∈ k.pieces, b ≠ .eof := fun b hb he =>
    more (Kind.pieces_of_barrier (b := .eof) rfl (he ▸ hb))
  obtain ⟨glued, rest, rfl, kinds, aligned, seen⟩ := h.left_aligned.glued stops no_end at_i
  obtain ⟨glued', rest', rfl, kinds', aligned', seen'⟩ := h.right_aligned.glued stops' no_end at_i
  have visible_of {ts us : List Token} (seen : ∀ t ∈ ts, t.isTrivia = false) :
      visible (ts ++ us) = ts ++ visible us := by
    rw [visible_append, visible, List.filter_eq_self.mpr fun t ht => by simp [seen t ht]]
  have left := h.left
  have right := h.right
  rw [visible_of seen] at left
  rw [visible_of seen'] at right
  have length : k.pieces.length = glued.length := by rw [← kinds, List.length_map]
  have length' : k.pieces.length = glued'.length := by rw [← kinds', List.length_map]
  have front : (S.drop i).take k.pieces.length = glued := by rw [← left, length, List.take_left]
  have front' : (T.drop i).take k.pieces.length = glued' := by rw [← right, length', List.take_left]
  have faces : glued.map face = glued'.map face := by
    rw [← front, ← front', List.map_take, List.map_take, List.map_drop, List.map_drop, twins.faces]
  have behind : visible rest = S.drop (i + k.pieces.length) := by
    rw [← List.drop_drop, ← left, length, List.drop_left]
  have behind' : visible rest' = T.drop (i + k.pieces.length) := by
    rw [← List.drop_drop, ← right, length', List.drop_left]
  have texts : glued.flatMap (·.text) = glued'.flatMap (·.text) := by
    have := congrArg (List.flatMap fun f : Kind × Text × Option LexicalFault => f.2.1) faces
    rwa [List.flatMap_map, List.flatMap_map] at this
  have grows : Sprout.taken k k.pieces.length (glued ++ rest) = ⟨[.token k (glued.flatMap (·.text))],
      reportsOf glued, rest⟩ := by rw [length]; exact taken_append k glued rest
  have grows' : Sprout.taken k k.pieces.length (glued' ++ rest') =
      ⟨[.token k (glued'.flatMap (·.text))], reportsOf glued', rest'⟩ := by
    rw [length']; exact taken_append k glued' rest'
  rw [grows, grows']
  refine ⟨by rw [texts], ?_, ?_, behind, behind', aligned, aligned', ?_, ?_⟩
  · cases glued with
    | nil =>
      obtain rfl : glued' = [] := by simpa using faces.symm
      exact .nil
    | cons t ts =>
      obtain ⟨t', ts', rfl, face, faces⟩ := List.map_eq_cons_iff.mp faces.symm
      cases ts with
      | cons t₂ ts =>
        obtain ⟨t₂', ts', rfl, -⟩ := List.map_eq_cons_iff.mp faces
        exact .nil
      | nil =>
        obtain rfl : ts' = [] := by simpa using faces
        refine paired_fault (i := i) ?_ ?_ face.symm
        · rw [← List.head?_drop, ← left]
          rfl
        · rw [← List.head?_drop, ← right]
          rfl
  · obtain ⟨ws, e, rfl, is_end⟩ := twins.left_ends
    by_contra beyond
    have lt := h.lt
    rw [List.length_append, List.length_singleton] at lt beyond
    rw [List.drop_eq_nil_of_le (by rw [List.length_append, List.length_singleton]; omega)] at behind
    rw [behind, List.append_nil, List.drop_append_of_le_length (by omega)] at left
    have last : e ∈ glued := by simp [left]
    exact no_end e.kind (kinds ▸ List.mem_map_of_mem last) is_end
  · exact fun t ht => h.left_calm t (List.mem_append_right _ ht)
  · exact fun t ht => h.right_calm t (List.mem_append_right _ ht)

end Level

namespace Outline

variable {input : Input} {S T : List Token}

mutual
/-- An outline grows alike over two texts that differ in trivia only. -/
theorem alike_grow (twins : Twins S T) (stop stop' : Nat) : ∀ (o : Outline) {us vs : List Token}
    {i : Nat}, Level input S T i us vs → Fits input o i →
      Alike input S T (i + o.width) (o.grow stop us) (o.grow stop' vs)
  | .token k n, us, vs, i, h, hf => by
    obtain ⟨at_i, more, rfl⟩ := hf
    rw [grow, grow]
    exact h.trivia.andThen (h.trivia.level.taken twins (takeWhile_dropWhile us) (takeWhile_dropWhile vs)
      at_i more)
  | .error cause, us, vs, i, h, _ => by
    obtain ⟨x, y, left, right, here, here'⟩ := h.anchors twins stop stop'
    exact ⟨rfl, .cons ⟨rfl, i, x, y, left, right, here, here'⟩ .nil, h⟩
  | .fault _, us, vs, i, h, _ => .nil h
  | .void, us, vs, i, h, _ => .nil h
  | .node k row, us, vs, i, h, hf => by
    have outside := h.outer k
    have ahead := outside.level.trivia
    rw [grow, grow]
    exact outside.andThen ((ahead.andThen (alike_growOf twins stop stop' row ahead.level hf)).under k)
  | .around k inner row, us, vs, i, h, hf => by
    have outside := h.outer k
    have ahead := outside.level.trivia
    have first := alike_grow twins stop stop' inner ahead.level hf.1
    rw [grow, grow, width, ← Nat.add_assoc]
    exact outside.andThen ((ahead.andThen
      (first.andThen (alike_growOf twins stop stop' row first.level hf.2))).under k)

theorem alike_growOf (twins : Twins S T) (stop stop' : Nat) : ∀ (row : List Outline)
    {us vs : List Token} {i : Nat}, Level input S T i us vs → FitsOf input row i →
      Alike input S T (i + widthOf row) (growOf stop row us) (growOf stop' row vs)
  | [], us, vs, i, h, _ => .nil h
  | o :: older, us, vs, i, h, hf => by
    have before := alike_growOf twins stop stop' older h hf.1
    rw [growOf, growOf, widthOf, ← Nat.add_assoc]
    exact before.andThen (alike_grow twins stop stop' o before.level hf.2)
end

end Outline

/-! ## The diagnostics that are kept -/

namespace Paired

variable {S T : List Token} {d d' e e' : Diagnostic}

/-- Diagnostics that start together in one text start together in the other. -/
theorem start_eq_iff (twins : Twins S T) (h : Paired S T d d') (h' : Paired S T e e') :
    d.span.start = e.span.start ↔ d'.span.start = e'.span.start := by
  obtain ⟨-, i, x, y, xi, yi, dx, dy⟩ := h
  obtain ⟨-, j, z, w, zj, wj, ez, ew⟩ := h'
  have same_place {R : List Token} (ordered : R.Pairwise (·.offset < ·.offset)) {x z : Token}
      (xi : R[i]? = some x) (zj : R[j]? = some z) : x.offset = z.offset ↔ i = j := by
    obtain ⟨hi, rfl⟩ := List.getElem?_eq_some_iff.mp xi
    obtain ⟨hj, rfl⟩ := List.getElem?_eq_some_iff.mp zj
    rw [List.pairwise_iff_getElem] at ordered
    refine ⟨fun same => ?_, fun same => by subst same; rfl⟩
    rcases Nat.lt_trichotomy i j with lt | rfl | lt
    · have := ordered i j hi hj lt
      omega
    · rfl
    · have := ordered j i hj hi lt
      omega
  rw [dx, dy, ez, ew]
  exact (same_place twins.left_ordered xi zj).trans (same_place twins.right_ordered yi wj).symm

theorem foldl_keep (twins : Twins S T) {ds ds' : List Diagnostic}
    (h : List.Forall₂ (Paired S T) ds ds') {known known' : Array Diagnostic}
    (hk : List.Forall₂ (Paired S T) known.toList known'.toList) :
    List.Forall₂ (Paired S T) (ds.foldl Diagnostic.keep known).toList
      (ds'.foldl Diagnostic.keep known').toList := by
  induction h generalizing known known' with
  | nil => exact hk
  | @cons d d' ds ds' first rest ih =>
    refine ih ?_
    have same : (known.any (·.span.start == d.span.start)) =
        known'.any (·.span.start == d'.span.start) := by
      rw [← Array.any_toList, ← Array.any_toList]
      clear ih
      generalize known.toList = ks at hk
      generalize known'.toList = ks' at hk
      induction hk with
      | nil => rfl
      | cons e rest ih =>
        rw [List.any_cons, List.any_cons, ih]
        congr 1
        exact Bool.eq_iff_iff.mpr (by simpa using e.start_eq_iff twins first)
    rw [Diagnostic.keep, Diagnostic.keep, same]
    split
    · exact hk
    · rw [Array.toList_push, Array.toList_push]
      exact List.rel_append hk (.cons first .nil)

end Paired

namespace Parse

/-- Two texts that differ in trivia only: their words are the same, the same of them touch, and none of
the trivia is malformed. -/
structure DifferInTrivia (s t : Text) : Prop where
  faces : (words (Token.list s)).map face = (words (Token.list t)).map face
  seams : touching (words (Token.list s)) = touching (words (Token.list t))
  left_calm : ∀ x ∈ Token.list s, x.isTrivia = true → x.fault = none
  right_calm : ∀ x ∈ Token.list t, x.isTrivia = true → x.fault = none

/-- Diagnostics with the same cause, and so of the same category and with the same message, that are
anchored at the same word of either text, or both at the end. -/
structure SamePlace (s t : Text) (d d' : Diagnostic) : Prop where
  cause : d.cause = d'.cause
  place : (∃ (i : Nat) (x y : Token), (words (Token.list s))[i]? = some x ∧
      (words (Token.list t))[i]? = some y ∧ d.span = x.span ∧ d'.span = y.span) ∨
    d.span = ⟨s.size, 0⟩ ∧ d'.span = ⟨t.size, 0⟩

/-- The visible tokens of a text: its words and the end. -/
theorem visible_list (t : Text) :
    visible (Token.list t) = words (Token.list t) ++ [⟨.eof, [], t.size, none⟩] ∧
      (visible (Token.list t)).Pairwise (·.offset < ·.offset) := by
  obtain ⟨ts, row, inRow, spells⟩ := Token.listFrom_inRow 0 t
  rw [Nat.zero_add] at row
  change Token.list t = _ at row
  have no_end : ∀ x ∈ ts, (x.kind != .eof) = true := fun x hx => by
    simpa using (Input.spelled_of_inRow inRow x hx).no_end
  refine ⟨?_, List.Pairwise.filter _ ?_⟩
  · rw [words, row, visible_append, List.filter_append, List.filter_eq_self.mpr no_end]
    simp [visible, Token.isTrivia, Kind.isTrivia]
  · rw [row, List.pairwise_append]
    refine ⟨inRow.pairwise, List.pairwise_singleton _ _, fun x hx e he => ?_⟩
    rw [List.mem_singleton.mp he]
    have := inRow.lt_end x hx
    rwa [spells, Nat.zero_add] at this

theorem DifferInTrivia.twins {s t : Text} (h : DifferInTrivia s t) :
    Twins (visible (Token.list s)) (visible (Token.list t)) := by
  obtain ⟨left, left_ordered⟩ := visible_list s
  obtain ⟨right, right_ordered⟩ := visible_list t
  refine ⟨?_, ⟨_, _, left, rfl⟩, left_ordered, right_ordered⟩
  rw [left, right, List.map_append, List.map_append, h.faces]
  rfl

/-- Trivia never change the structure: the trees of texts that differ in trivia only are the same once
their trivia are deleted, and the diagnostics agree one by one. -/
theorem ofText_of_differInTrivia (s t : Text) (h : DifferInTrivia s t) :
    ∃ p q, ofText s = .ok p ∧ ofText t = .ok q ∧ p.tree.bare = q.tree.bare ∧
      List.Forall₂ (SamePlace s t) p.diagnostics q.diagnostics := by
  have kinds : (words (Token.list s)).map (·.kind) = (words (Token.list t)).map (·.kind) := by
    have := congrArg (List.map (·.1)) h.faces
    rwa [List.map_map, List.map_map] at this
  have same : Input.ofTokens (Token.list s) = Input.ofTokens (Token.list t) := by
    rw [Input.ofTokens_list, Input.ofTokens_list, kinds, h.seams]
  obtain ⟨row, outlined, -, fits, -, parsed⟩ := ofText_eq s
  obtain ⟨row', outlined', -, -, -, parsed'⟩ := ofText_eq t
  rw [← same, outlined] at outlined'
  obtain rfl : row = row' := by simpa using (Parser.Frame.mk.inj outlined').2
  have twins := h.twins
  have start : Level (.ofTokens (Token.list s)) (visible (Token.list s)) (visible (Token.list t)) 0
      (Token.list s) (Token.list t) :=
    ⟨by simp [(visible_list s).1], rfl, rfl, Input.aligned_start _, same ▸ Input.aligned_start _,
      h.left_calm, h.right_calm⟩
  have grown := Outline.alike_growOf twins (Replay.textEnd (Token.list s))
    (Replay.textEnd (Token.list t)) row start fits
  have alike := grown.andThen grown.level.trivia
  refine ⟨_, _, ofText_of_byProgram parsed, ofText_of_byProgram parsed', ?_, ?_⟩
  · exact congrArg (branch .sourceFile) alike.bare
  · have none_known : List.Forall₂ (Paired (visible (Token.list s)) (visible (Token.list t)))
        (#[] : Array Diagnostic).toList (#[] : Array Diagnostic).toList := .nil
    refine (Paired.foldl_keep twins alike.reports none_known).imp ?_
    rintro d d' ⟨cause, i, x, y, left, right, dx, dy⟩
    refine ⟨cause, ?_⟩
    have length := congrArg List.length h.faces
    rw [List.length_map, List.length_map] at length
    rw [(visible_list s).1] at left
    rw [(visible_list t).1] at right
    rcases Nat.lt_or_ge i (words (Token.list s)).length with lt | ge
    · rw [List.getElem?_append_left lt] at left
      rw [List.getElem?_append_left (length ▸ lt)] at right
      exact .inl ⟨i, x, y, left, right, dx, dy⟩
    · rw [List.getElem?_append_right ge] at left
      rw [List.getElem?_append_right (length ▸ ge)] at right
      rw [List.mem_singleton.mp (List.mem_of_getElem? left)] at dx
      rw [List.mem_singleton.mp (List.mem_of_getElem? right)] at dy
      exact .inr ⟨dx, dy⟩

/-- A comment instead of a blank, and a missing body that is reported at the end. -/
theorem ofText_of_differInTrivia_comment :
    DifferInTrivia "fn f".toList "fn/**/f\n".toList ∧
      ∃ p q, ofText "fn f".toList = .ok p ∧ ofText "fn/**/f\n".toList = .ok q ∧
        p.tree.bare = q.tree.bare ∧
        List.Forall₂ (SamePlace "fn f".toList "fn/**/f\n".toList) p.diagnostics q.diagnostics := by
  have differ : DifferInTrivia "fn f".toList "fn/**/f\n".toList :=
    ⟨by decide +kernel, by decide +kernel, by decide +kernel, by decide +kernel⟩
  exact ⟨differ, ofText_of_differInTrivia _ _ differ⟩

end Parse

end Verbatim
