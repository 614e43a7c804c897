import Mathlib.Data.List.Flatten
import Verbatim.Proofs.Children
import Verbatim.Proofs.Navigation

/-!
# Finding elements by offset

The tokens of a tree stand in a row, each where the one before it ends. What is found at an offset are just
those tokens of the row that are not empty and touch it, and so there are at most two of them. What is found
to cover a span is the smallest element that does.
-/
namespace Verbatim

/-- Whether an offset lies in a span or at one of its ends, and the span is not empty. -/
def Span.meets (s : Span) (offset : Nat) : Bool := !s.isEmpty && s.touches offset

theorem Span.meets_iff {s : Span} {offset : Nat} :
    s.meets offset = true ↔ s.len ≠ 0 ∧ s.start ≤ offset ∧ offset ≤ s.stop := by
  rw [meets, Bool.and_eq_true, touches_iff]
  simp [isEmpty]

namespace Green

/-! ## Tokens in a row -/

/-- What lies below an element is not in front of it. -/
theorem not_lt_of_prefix {r q : Route} (h : r <+: q) : ¬ q < r := by
  obtain ⟨q, rfl⟩ := h
  induction r with
  | nil => simp
  | cons i r ih => simpa [List.cons_lt_cons_iff] using ih

/-- Tokens with the spans that they have if the first of them starts at `start`. -/
def spansFrom (start : Nat) : List (Route × Text) → List (Route × Span)
  | [] => []
  | s :: ss => (s.1, ⟨start, Text.size s.2⟩) :: spansFrom (start + Text.size s.2) ss

/-- The tokens below the end of a route with their spans. -/
def spansBelow (g : Green) (r : Route) : List (Route × Span) :=
  (spansFrom 0 g.spots).filter (r <+: ·.1)

theorem sizeOfSpots_cons (s : Route × Text) (ss : List (Route × Text)) :
    sizeOfSpots (s :: ss) = Text.size s.2 + sizeOfSpots ss := by
  rw [sizeOfSpots, List.flatMap_cons, Text.size_append]
  rfl

/-- The tokens of an element take up all of it, wherever it stands. -/
theorem sizeOfSpots_below {g : Green} (sized : g.Sized) (r : Route) : sizeOfSpots (along r g.spots) = g.size := by
  rw [sizeOfSpots_along, sizeOfSpots, text_spots]
  exact (size_of_sized g sized).symm

theorem spansFrom_append (start : Nat) (ss ts : List (Route × Text)) :
    spansFrom start (ss ++ ts) = spansFrom start ss ++ spansFrom (start + sizeOfSpots ss) ts := by
  induction ss generalizing start with
  | nil => rfl
  | cons s ss ih =>
    rw [List.cons_append, spansFrom, spansFrom, ih, sizeOfSpots_cons, Nat.add_assoc]
    rfl

theorem mem_spansFrom {start : Nat} {ss : List (Route × Text)} {x : Route × Span}
    (h : x ∈ spansFrom start ss) : start ≤ x.2.start ∧ ∃ s ∈ ss, s.1 = x.1 := by
  induction ss generalizing start with
  | nil => simp [spansFrom] at h
  | cons s ss ih =>
    rcases List.mem_cons.mp h with rfl | h
    · exact ⟨Nat.le_refl _, s, List.mem_cons_self, rfl⟩
    · obtain ⟨later, t, member, eq⟩ := ih h
      exact ⟨by omega, t, List.mem_cons_of_mem _ member, eq⟩

/-- Each token ends where a later one starts, or before. -/
theorem spansFrom_ordered (start : Nat) (ss : List (Route × Text)) :
    (spansFrom start ss).Pairwise fun x y => x.2.stop ≤ y.2.start := by
  induction ss generalizing start with
  | nil => exact .nil
  | cons s ss ih =>
    apply List.pairwise_cons.mpr
    refine ⟨?_, ih _⟩
    intro y hy
    exact (mem_spansFrom hy).1

/-- No token of a row meets an offset exactly if the row as a whole does not. -/
theorem met_eq_nil_iff (offset start : Nat) (ss : List (Route × Text)) :
    (spansFrom start ss).filter (·.2.meets offset) = [] ↔
      (Span.mk start (sizeOfSpots ss)).meets offset = false := by
  induction ss generalizing start with
  | nil => simp [spansFrom, sizeOfSpots, Span.meets, Span.isEmpty]
  | cons s ss ih =>
    have rest := ih (start + Text.size s.2)
    rw [List.filter_eq_nil_iff] at rest ⊢
    rw [spansFrom, List.forall_mem_cons, rest, sizeOfSpots_cons]
    simp only [Bool.eq_false_iff, ne_eq, Span.meets_iff, Span.stop]
    omega

/-- At most two tokens of a row meet an offset. Of two, the first ends there and the second starts there. -/
theorem met_few {offset start : Nat} {ss : List (Route × Text)} {ms : List (Route × Span)}
    (h : (spansFrom start ss).filter (·.2.meets offset) = ms) :
    ms.length ≤ 2 ∧ ∀ x y, ms = [x, y] → x.2.stop = offset ∧ y.2.start = offset := by
  have order : ms.Pairwise fun x y => x.2.stop ≤ y.2.start := h ▸ (spansFrom_ordered start ss).filter _
  have meet : ∀ x ∈ ms, x.2.meets offset = true := by
    intro x hx
    rw [← h] at hx
    exact (List.mem_filter.mp hx).2
  have seam : ∀ x y ms', ms = x :: y :: ms' → x.2.stop = offset ∧ y.2.start = offset ∧ ms' = [] := by
    rintro x y ms' rfl
    simp only [List.pairwise_cons, List.forall_mem_cons, Span.meets_iff, Span.stop] at order meet ⊢
    obtain ⟨⟨xy, -⟩, behind, -⟩ := order
    obtain ⟨hx, hy, hz⟩ := meet
    refine ⟨by omega, by omega, ?_⟩
    -- A third one would start where the second one ends, which is behind the offset.
    cases ms' with
    | nil => rfl
    | cons z ms' =>
      have third := behind z List.mem_cons_self
      have touched := hz z List.mem_cons_self
      omega
  constructor
  · rcases ms with _ | ⟨x, _ | ⟨y, ms'⟩⟩
    · simp
    · simp
    · simp [(seam x y ms' rfl).2.2]
  · intro x y eq
    exact ⟨(seam x y [] eq).1, (seam x y [] eq).2.1⟩

end Green

namespace TokensAt

/-- What a position answers for its children, if each of them found a token and they found two at most. -/
theorem toList_join {answers : List TokensAt} (found : ∀ a ∈ answers, a.toList ≠ [])
    (few : (answers.flatMap toList).length ≤ 2) :
    (match answers with
      | [] => none
      | [only] => only
      | left :: right :: _ => left.join right).toList = answers.flatMap toList := by
  match answers with
  | [] => rfl
  | [only] => simp
  | left :: right :: more =>
    have atLeft := List.length_pos_iff.mpr (found left List.mem_cons_self)
    have atRight := List.length_pos_iff.mpr (found right (List.mem_cons_of_mem _ List.mem_cons_self))
    simp only [List.flatMap_cons, List.length_append] at few
    have ends : more.flatMap toList = [] := by
      rw [← List.length_eq_zero_iff]
      omega
    have two (l r : Position) : (between l r).toList.length = 2 := rfl
    cases left with
    | none => simp [toList] at atLeft
    | between l l' =>
      rw [two] at few
      omega
    | single l =>
      cases right with
      | none => simp [toList] at atRight
      | between r r' =>
        rw [two, show (single l).toList.length = 1 from rfl] at few
        omega
      | single r => simp [toList, join, ends]

end TokensAt

namespace Position

open Green

variable {tree : Green} {p : Position}

/-! ## The tokens at an offset -/

/-- The tokens below a position with their spans. -/
def tokenSpans (p : Position) : List (Route × Span) := spansFrom p.offset (along p.path p.element.spots)

/-- A tree has the tokens in front of an element, those below it and those behind it. -/
theorem Within.spots_split (h : Within tree p) :
    tree.spots = tree.tokensBefore p.path ++ along p.path p.element.spots ++ tree.tokensBehind p.path := by
  induction p with
  | root t =>
    obtain rfl : t = tree := Position.root.inj h.top
    rw [path, tokensBefore_nil, tokensBehind_nil, along_nil, List.nil_append, List.append_nil]
    rfl
  | child p i e known ih =>
    have parent := h.parent.at?_path
    have here : p.element.children[i]? = some e := h.valid.2.1
    rw [path, tokensBefore_snoc parent here, tokensBehind_snoc parent here, ih h.parent, spots_of_child here,
      along_append, along_append, along_along]
    simp only [List.append_assoc]
    rfl

/-- The tokens below an element are those of the tree whose routes go through it. -/
theorem Within.tokenSpans_eq (sized : tree.Sized) (h : Within tree p) :
    p.tokenSpans = tree.spansBelow p.path := by
  have none_of {start : Nat} {ss : List (Route × Text)} (apart : ∀ s ∈ ss, ¬ p.path <+: s.1) :
      (spansFrom start ss).filter (p.path <+: ·.1) = [] := by
    apply List.filter_eq_nil_iff.mpr
    intro x hx
    obtain ⟨-, s, member, eq⟩ := mem_spansFrom hx
    simpa [← eq] using apart s member
  have before : ∀ s ∈ tree.tokensBefore p.path, ¬ p.path <+: s.1 := by
    intro s member below
    exact not_lt_of_prefix below (of_decide_eq_true (List.mem_filter.mp member).2)
  have behind : ∀ s ∈ tree.tokensBehind p.path, ¬ p.path <+: s.1 := by
    intro s member
    exact (of_decide_eq_true (List.mem_filter.mp member).2).2
  have inside : ∀ x ∈ p.tokenSpans, decide (p.path <+: x.1) = true := by
    intro x hx
    obtain ⟨-, s, member, eq⟩ := mem_spansFrom hx
    obtain ⟨t, -, rfl⟩ := List.mem_map.mp member
    simp [← eq]
  rw [spansBelow, h.spots_split, spansFrom_append, spansFrom_append, List.filter_append, List.filter_append,
    none_of before, none_of behind, Nat.zero_add, ← h.offset_eq sized, List.nil_append, List.append_nil]
  exact (List.filter_eq_self.mpr inside).symm

/-- Some tokens of an element meet an offset if its span does. -/
theorem Within.met_eq_nil_iff (sized : tree.Sized) (h : Within tree p) (offset : Nat) :
    p.tokenSpans.filter (·.2.meets offset) = [] ↔ p.span.meets offset = false := by
  rw [tokenSpans, Green.met_eq_nil_iff, sizeOfSpots_below (h.sized sized)]
  rfl

/-- The tokens below some children in a row are those of the first child, of the second and so on. -/
theorem tokenSpans_childrenFrom (p : Position) (sized : p.element.Sized) (gs : List Green) {index rel : Nat}
    (hd : p.element.children.drop index = gs) (hr : rel = relativeOffset p.element index) :
    spansFrom (p.offset + rel) (along p.path (spotsFrom index gs)) =
      (p.childrenFrom index rel gs).flatMap tokenSpans := by
  induction gs generalizing index rel with
  | nil => rfl
  | cons g gs ih =>
    obtain ⟨here, rest, next⟩ := next_place hd hr
    have size := sizeOfSpots_below (sizedOf_iff.mp sized.children g (List.mem_of_getElem? here)) (p.path ++ [index])
    rw [childrenFrom, List.flatMap_cons, spotsFrom, along_append, ← along_place, spansFrom_append, size,
      Nat.add_assoc, ih rest next, tokenSpans, offset_counted p hr]
    rfl

theorem exists_of_isNode (h : p.isNode = true) : ∃ k n cs, p.element = .node k n cs := by
  rw [isNode] at h
  cases g : p.element with
  | token k t =>
    rw [g] at h
    cases h
  | node k n cs => exact ⟨k, n, cs, rfl⟩

/-- The tokens below a node are those of its children. -/
theorem tokenSpans_node (sized : p.element.Sized) (node : p.isNode = true) :
    p.tokenSpans = p.children.flatMap tokenSpans := by
  have spots : p.element.spots = spotsFrom 0 p.element.children := by
    obtain ⟨k, n, cs, g⟩ := exists_of_isNode node
    rw [g]
    rfl
  rw [tokenSpans, spots]
  have row := @tokenSpans_childrenFrom p sized p.element.children 0 0 rfl rfl
  rwa [Nat.add_zero] at row

theorem touchingOf_eq (p : Position) (offset index rel : Nat) (gs : List Green) :
    touchingOf p offset index rel gs =
      ((p.childrenFrom index rel gs).filter (·.span.meets offset)).map (·.tokensAt offset) := by
  induction gs generalizing index rel with
  | nil => rfl
  | cons g gs ih =>
    rw [touchingOf, childrenFrom, List.filter_cons, ih]
    change (if Span.meets _ _ = true then _ else _) = _
    split <;> rfl

/-- A node that meets an offset asks those of its children that do; any other finds nothing. -/
theorem tokensAt_node (node : p.isNode = true) (offset : Nat) : p.tokensAt offset =
    if p.span.meets offset then
      match (p.children.filter (·.span.meets offset)).map (·.tokensAt offset) with
      | [] => .none
      | [only] => only
      | left :: right :: _ => left.join right
    else .none := by
  obtain ⟨k, n, cs, g⟩ := exists_of_isNode node
  have guard : (p.span.isEmpty || !p.span.touches offset) = !p.span.meets offset := by
    rw [Span.meets, Bool.not_and, Bool.not_not]
  rw [tokensAt, children, g, tokensIn, guard, touchingOf_eq]
  cases p.span.meets offset <;> rfl

/-- What is found below a position: the tokens with spans that meet an offset. -/
structure Finds (tree : Green) (p : Position) (offset : Nat) (ts : List Position) : Prop where
  spans : ts.map (fun t => (t.path, t.span)) = p.tokenSpans.filter (·.2.meets offset)
  tokens : ∀ t ∈ ts, Within tree t ∧ t.isToken = true

theorem Finds.ne_nil (sized : tree.Sized) (h : Within tree p) {offset : Nat} {ts : List Position}
    (finds : Finds tree p offset ts) (meets : p.span.meets offset = true) : ts ≠ [] := by
  rintro rfl
  have nothing := (h.met_eq_nil_iff sized offset).mp finds.spans.symm
  rw [meets] at nothing
  cases nothing

/-- The children that meet an offset find all that there is to find. -/
theorem Finds.of_children (sized : tree.Sized) (h : Within tree p) (node : p.isNode = true) {offset : Nat}
    {found : Position → List Position}
    (finds : ∀ c ∈ p.children, c.span.meets offset = true → Finds tree c offset (found c)) :
    Finds tree p offset ((p.children.filter (·.span.meets offset)).flatMap found) := by
  have within : ∀ c ∈ p.children, Within tree c := h.childrenFrom rfl rfl
  constructor
  · rw [tokenSpans_node (h.sized sized) node, List.filter_flatMap]
    generalize p.children = cs at finds within
    induction cs with
    | nil => rfl
    | cons c cs ih =>
      rw [List.forall_mem_cons] at finds within
      rw [List.flatMap_cons, ← ih finds.2 within.2, List.filter_cons]
      split
      · next meets => rw [List.flatMap_cons, List.map_append, (finds.1 meets).spans]
      · next apart =>
        have nothing := (within.1.met_eq_nil_iff sized offset).mpr (by simpa using apart)
        rw [nothing, List.nil_append]
  · intro t ht
    obtain ⟨c, hc, ht⟩ := List.mem_flatMap.mp ht
    obtain ⟨child, meets⟩ := List.mem_filter.mp hc
    exact (finds c child meets).tokens t ht

theorem Finds.length_le {offset : Nat} {ts : List Position} (finds : Finds tree p offset ts) :
    ts.length ≤ 2 ∧ ∀ l r, ts = [l, r] → l.span.stop = offset ∧ r.span.start = offset := by
  obtain ⟨few, seam⟩ := met_few finds.spans.symm
  rw [List.length_map] at few
  refine ⟨few, ?_⟩
  rintro l r rfl
  exact seam _ _ rfl

/-- A token that meets an offset finds itself. -/
theorem Within.finds_token (h : Within tree p) {k : Kind} {t : Text} (token : p.element = .token k t)
    {offset : Nat} (meets : p.span.meets offset = true) : Finds tree p offset (p.tokensAt offset).toList := by
  have found : (p.tokensAt offset).toList = [p] := by
    rw [tokensAt, token]
    rfl
  have span : p.span = ⟨p.offset, Text.size t⟩ := by
    rw [Position.span, size, token]
    rfl
  have spans : p.tokenSpans = [(p.path, p.span)] := by
    rw [tokenSpans, token, span]
    simp [spots, along, spansFrom]
  rw [found]
  constructor
  · rw [spans, List.filter_singleton, meets]
    rfl
  · intro t ht
    obtain rfl := List.mem_singleton.mp ht
    exact ⟨h, by rw [isToken, token]; rfl⟩

/-- An element that meets an offset finds what its children find. -/
theorem Within.finds_tokensAt (sized : tree.Sized) (h : Within tree p) {offset : Nat}
    (meets : p.span.meets offset = true) : Finds tree p offset (p.tokensAt offset).toList := by
  induction p using descent with
  | step p ih =>
    cases g : p.element with
    | token k t => exact h.finds_token g meets
    | node k n cs =>
      have node : p.isNode = true := by
        rw [isNode, g]
        rfl
      have within : ∀ c ∈ p.children, Within tree c := h.childrenFrom rfl rfl
      have below := Finds.of_children sized h node fun c hc => ih c hc (within c hc)
      have each : ∀ a ∈ (p.children.filter (·.span.meets offset)).map (·.tokensAt offset),
          a.toList ≠ [] := by
        intro a ha
        obtain ⟨c, hc, rfl⟩ := List.mem_map.mp ha
        obtain ⟨child, touched⟩ := List.mem_filter.mp hc
        exact (ih c child (within c child) touched).ne_nil sized (within c child) touched
      have few := below.length_le.1
      rw [← List.flatMap_map] at few below
      rwa [tokensAt_node node, if_pos meets, TokensAt.toList_join each few]

/-- What is found at an offset below a node are all tokens below it that are not empty and touch the offset,
in the order in which they stand. There are never more than two of them. If there are two, the first ends and
the second starts there. There are none exactly if the node is empty or the offset is outside of it. -/
theorem Within.tokensAt_touching (sized : tree.Sized) (h : Within tree p) (node : p.isNode = true)
    (offset : Nat) :
    let found := (p.tokensAt offset).toList
    found.map (fun t => (t.path, t.span)) =
      (tree.spansBelow p.path).filter (fun s => !s.2.isEmpty && s.2.touches offset) ∧
    (∀ t ∈ found, Within tree t ∧ t.isToken = true) ∧
    found.length ≤ 2 ∧
    (∀ l r, found = [l, r] → l.span.stop = offset ∧ r.span.start = offset) ∧
    (found = [] ↔ p.text = [] ∨ offset < p.span.start ∨ p.span.stop < offset) := by
  intro found
  have nothing := h.met_eq_nil_iff sized offset
  have finds : Finds tree p offset found := by
    by_cases meets : p.span.meets offset = true
    · exact h.finds_tokensAt sized meets
    · have none : found = [] := congrArg TokensAt.toList ((tokensAt_node node offset).trans (if_neg meets))
      rw [none]
      exact ⟨(nothing.mpr (by simpa using meets)).symm, by simp⟩
  obtain ⟨few, seam⟩ := finds.length_le
  refine ⟨?_, finds.tokens, few, seam, ?_⟩
  · rw [← h.tokenSpans_eq sized]
    exact finds.spans
  · have empty : found = [] ↔ p.span.meets offset = false := by
      rw [← nothing, ← finds.spans, List.map_eq_nil_iff]
    have len : p.span.len = Text.size p.text := size_of_sized p.element (h.sized sized)
    have blank : p.text = [] ↔ p.span.len = 0 := by
      rw [len]
      exact ⟨fun eq => by rw [eq]; rfl, Text.eq_nil_of_size⟩
    rw [empty, blank, Bool.eq_false_iff, ne_eq, Span.meets_iff, Span.stop]
    omega

/-- A blank in front of a node that holds a word and a name, with an empty node and an empty token around
the word. -/
def seamFile : Green :=
  .branch .sourceFile [.token .whitespace [' '], .branch .pathExpr [.branch .name [], .token .ident ['a', 'b'],
    .branch .literal [.token .ident []], .branch .nameRef [.token .ident ['c']]]]

/-- The node behind the blank, its offset left to be counted. -/
def seamNode : Position := .child (.root seamFile) 1 (seamFile.children[1]) none

theorem sized_seamFile : seamFile.Sized :=
  ⟨rfl, trivial, ⟨rfl, ⟨rfl, trivial⟩, trivial, ⟨rfl, trivial, trivial⟩, ⟨rfl, trivial, trivial⟩, trivial⟩,
    trivial⟩

theorem within_seamNode : Within seamFile seamNode := (Within.root seamFile).uncounted rfl

/-- Between the word and the name both are found, and the empty token is passed over. -/
theorem tokensAt_touching_seam : seamFile.Sized ∧ Within seamFile seamNode ∧ seamNode.isNode = true ∧
    let found := (seamNode.tokensAt 3).toList
    found.map (fun t => (t.path, t.span)) = [([1, 1], ⟨1, 2⟩), ([1, 3, 0], ⟨3, 1⟩)] ∧
    (∀ t ∈ found, Within seamFile t ∧ t.isToken = true) ∧
    found.length ≤ 2 ∧
    (∀ l r, found = [l, r] → l.span.stop = 3 ∧ r.span.start = 3) ∧
    (found = [] ↔ seamNode.text = [] ∨ 3 < seamNode.span.start ∨ seamNode.span.stop < 3) := by
  exact ⟨sized_seamFile, within_seamNode, rfl, within_seamNode.tokensAt_touching sized_seamFile rfl 3⟩

/-! ## The smallest cover -/

theorem relativeOffset_le (g : Green) (i : Nat) : relativeOffset g i ≤ totalSize g.children := by
  rw [relativeOffset]
  generalize g.children = gs
  induction gs generalizing i with
  | nil => simp
  | cons c gs ih =>
    cases i with
    | zero => exact Nat.zero_le _
    | succ i => exact Nat.add_le_add_left (ih i) c.size

/-- A position covers its children. -/
theorem Within.covers_child (sized : tree.Sized) {i : Nat} {e : Green} {known : Option Nat}
    (h : Within tree (child p i e known)) : p.span.covers (child p i e known).span = true := by
  have here : p.element.children[i]? = some e := h.valid.2.1
  have inside : relativeOffset p.element i + e.size ≤ p.size := by
    have whole : p.size = totalSize p.element.children := by
      have known := h.parent.sized sized
      rw [size]
      cases g : p.element with
      | token k t => simp [g, Green.children] at here
      | node k n cs =>
        rw [g] at known
        exact known.1
    rw [whole, ← relativeOffset_succ here]
    exact relativeOffset_le _ _
  have offset := h.valid.offset_child
  apply Span.covers_iff.mpr
  change p.offset ≤ (child p i e known).offset ∧ (child p i e known).offset + e.size ≤ p.offset + p.size
  omega

/-- Positions that stand in one place have one element and one span. -/
theorem Within.span_unique (sized : tree.Sized) {q : Position} (hp : Within tree p) (hq : Within tree q)
    (same : p.path = q.path) : p.element = q.element ∧ p.span = q.span := by
  have element : p.element = q.element :=
    Option.some.inj (hp.at?_path.symm.trans (same ▸ hq.at?_path))
  refine ⟨element, ?_⟩
  rw [Position.span, Position.span, hp.offset_eq sized, hq.offset_eq sized, same, size, size, element]

/-- Every element below a position is one of its children or below one of them, which covers it. -/
theorem Within.exists_child (sized : tree.Sized) {e : Position} (hp : Within tree p) (he : Within tree e)
    (below : p.path <+: e.path) (apart : e.path ≠ p.path) :
    ∃ c ∈ p.children, c.path <+: e.path ∧ c.span.covers e.span = true := by
  induction e with
  | root t => exact absurd (List.prefix_nil.mp below).symm apart
  | child q i g known ih =>
    rcases List.prefix_concat_iff.mp below with same | above
    · exact absurd same.symm apart
    · by_cases same : q.path = p.path
      · have place : p.element.children[i]? = some g := by
          rw [(hp.span_unique sized he.parent same.symm).1]
          exact he.valid.2.1
        have member := mem_children.mpr ⟨i, g, place, rfl⟩
        have one : p.path ++ [i] = (child q i g known).path := by rw [path, same]
        have span := ((hp.counted place rfl).span_unique sized he one).2
        refine ⟨_, member, ?_, ?_⟩
        · rw [← one]
          exact List.prefix_refl _
        · rw [span, Span.covers_iff]
          exact ⟨Nat.le_refl _, Nat.le_refl _⟩
      · obtain ⟨c, hc, way, covers⟩ := ih he.parent above same
        exact ⟨c, hc, way.trans (List.prefix_append _ _), Span.covers_trans covers (he.covers_child sized)⟩

/-- Of two children only one covers a span that is not empty. -/
theorem covers_unique {span : Span} {c d : Position} (nonempty : span.isEmpty = false) (hc : c ∈ p.children)
    (hd : d ∈ p.children) (coversC : c.span.covers span = true) (coversD : d.span.covers span = true) :
    c = d := by
  have taken : span.len ≠ 0 := by simpa [Span.isEmpty] using nonempty
  rw [Span.covers_iff] at coversC coversD
  simp only [Span.stop] at coversC coversD
  -- One child would end where the other starts, or before, and the span lies in both.
  have apart {q r : Position} (behind : Typed.isBehind q r = true) : q.span.start + q.span.len ≤ r.span.start :=
    of_decide_eq_true behind
  obtain ⟨front, back, split⟩ := List.append_of_mem hc
  rw [split, List.mem_append, List.mem_cons] at hd
  rcases hd with hd | rfl | hd
  · obtain ⟨front, between, rfl⟩ := List.append_of_mem hd
    rw [List.append_assoc] at split
    have := apart (isBehind_of_split split (List.mem_append_right between List.mem_cons_self))
    omega
  · rfl
  · have := apart (isBehind_of_split split hd)
    omega

theorem coveringOf_eq (p : Position) (span : Span) (index rel : Nat) (gs : List Green) :
    coveringOf p span index rel gs =
      ((p.childrenFrom index rel gs).find? (·.span.covers span)).map fun c => coveringIn c span c.element := by
  induction gs generalizing index rel with
  | nil => rfl
  | cons g gs ih =>
    rw [coveringOf, childrenFrom, List.find?_cons, ih]
    split
    · next covers => rw [show (child p index g _).span.covers span = true from covers]; rfl
    · next apart => rw [show (child p index g _).span.covers span = false by simpa using apart]

/-- The descent goes on from the first child that covers the span. -/
theorem coveringIn_eq (p : Position) (span : Span) : coveringIn p span p.element =
    ((p.childCovering? span).map fun c => coveringIn c span c.element).getD p := by
  rw [childCovering?, children]
  cases p.element with
  | token k t => rfl
  | node k n cs => rw [coveringIn, coveringOf_eq]; rfl

/-- What is found to cover a span within a position is the smallest element that does: it stands there or
below, it covers the span, and none of its children does. If the span is not empty, all elements there that
cover it are the one that is found or above it. -/
theorem Within.covering_smallest (sized : tree.Sized) (h : Within tree p) {span : Span}
    (inside : p.span.covers span = true) :
    let found := p.covering span
    Within tree found ∧ p ∈ found.ancestors ∧ found.span.covers span = true ∧
    (∀ c ∈ found.children, c.span.covers span = false) ∧
    (span.isEmpty = false → ∀ e, Within tree e → p.path <+: e.path → e.span.covers span = true →
      e.path ∈ found.ancestors.map path) := by
  intro found
  have start : found = coveringIn p span p.element := if_pos inside
  rw [start]
  clear start found
  induction p using descent with
  | step p ih =>
    have within : ∀ c ∈ p.children, Within tree c := h.childrenFrom rfl rfl
    rw [coveringIn_eq]
    cases first : p.childCovering? span with
    | none =>
      have apart : ∀ c ∈ p.children, c.span.covers span = false := by
        intro c hc
        simpa using List.find?_eq_none.mp first c hc
      refine ⟨h, mem_ancestors_self p, inside, apart, fun _ e he below covers => ?_⟩
      by_cases same : e.path = p.path
      · exact List.mem_map.mpr ⟨p, mem_ancestors_self p, same.symm⟩
      · obtain ⟨c, hc, -, wide⟩ := h.exists_child sized he below same
        exact absurd (Span.covers_trans wide covers) (Bool.eq_false_iff.mp (apart c hc))
    | some c =>
      have hc : c ∈ p.children := List.mem_of_find?_eq_some first
      have coversC : c.span.covers span = true := by simpa using List.find?_some first
      obtain ⟨inTree, above, covers, smallest, unique⟩ := ih c hc (within c hc) coversC
      refine ⟨inTree, mem_ancestors_trans (mem_ancestors_child hc) above, covers, smallest,
        fun nonempty e he below coversE => ?_⟩
      by_cases same : e.path = p.path
      · exact List.mem_map.mpr ⟨p, mem_ancestors_trans (mem_ancestors_child hc) above, same.symm⟩
      · obtain ⟨d, hd, way, wide⟩ := h.exists_child sized he below same
        obtain rfl := covers_unique nonempty hc hd coversC (Span.covers_trans wide coversE)
        exact unique nonempty e he way coversE

/-- The name starts where the empty token stands, which covers none of it. -/
theorem covering_smallest_seam : seamFile.Sized ∧ Within seamFile seamNode ∧
    seamNode.span.covers ⟨3, 1⟩ = true ∧
    let found := seamNode.covering ⟨3, 1⟩
    found.path = [1, 3, 0] ∧
    Within seamFile found ∧ seamNode ∈ found.ancestors ∧ found.span.covers ⟨3, 1⟩ = true ∧
    (∀ c ∈ found.children, c.span.covers ⟨3, 1⟩ = false) ∧
    (∀ e, Within seamFile e → seamNode.path <+: e.path → e.span.covers ⟨3, 1⟩ = true →
      e.path ∈ found.ancestors.map path) := by
  obtain ⟨within, above, covers, smallest, all⟩ :=
    within_seamNode.covering_smallest sized_seamFile (show seamNode.span.covers ⟨3, 1⟩ = true by decide)
  exact ⟨sized_seamFile, within_seamNode, by decide, by decide, within, above, covers, smallest, all rfl⟩

end Position

end Verbatim
