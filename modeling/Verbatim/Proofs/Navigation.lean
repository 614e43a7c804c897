import Verbatim.Position.Pass
import Verbatim.Position.Walk
import Verbatim.Proofs.Formed
import Verbatim.Proofs.Routes

/-!
# Moving through a tree

A position carries its parents and perhaps some offsets with it; a route is nothing but places. Both are
moved the same way: whatever moves are made from the root, and whenever offsets are asked for in between, a
position stands at the end of the route that the same moves make, and its offset is the number of bytes of
the tokens in front of it.
-/
namespace Verbatim

/-! ## Moves of a position -/

/-- Ways to go on from an element. A scope says whether tokens count as children and as siblings. -/
inductive Move where
  | parent
  | firstChild (scope : Scope)
  | lastChild (scope : Scope)
  | nextSibling (scope : Scope)
  | prevSibling (scope : Scope)
  | firstToken
  | lastToken
  | nextToken
  | prevToken
  deriving DecidableEq, Repr

namespace Scope

/-- Whether an element counts. -/
def keeps : Scope → Green → Bool
  | nodes, g => g.isNode
  | elements, _ => true

def lastChild? : Scope → Position → Option Position
  | nodes => Position.lastChild?
  | elements => Position.lastChildOrToken?

def prevSibling? : Scope → Position → Option Position
  | nodes => Position.prevSibling?
  | elements => Position.prevSiblingOrToken?

def next? : Scope → Pass → Option (Position × Pass)
  | nodes => Pass.nextNode?
  | elements => Pass.next?

end Scope

namespace Position

/-- Where a move leads. A node has a first and a last token, a token has a next and a previous one. -/
def move? (p : Position) : Move → Option Position
  | .parent => p.parent?
  | .firstChild scope => scope.firstChild? p
  | .lastChild scope => scope.lastChild? p
  | .nextSibling scope => scope.nextSibling? p
  | .prevSibling scope => scope.prevSibling? p
  | .firstToken => if p.isNode then p.firstToken? else none
  | .lastToken => if p.isNode then p.lastToken? else none
  | .nextToken => if p.isToken then p.nextToken? else none
  | .prevToken => if p.isToken then p.prevToken? else none

theorem element_child (p : Position) (i : Nat) (e : Green) (known : Option Nat) :
    (child p i e known).element = e := rfl

theorem path_child (p : Position) (i : Nat) (e : Green) (known : Option Nat) :
    (child p i e known).path = p.path ++ [i] := rfl

/-- What is left behind when the offsets of some elements on the way to the root have been asked for: they
are known from then on. -/
inductive Learns : Position → Position → Prop
  | root (tree : Green) : Learns (root tree) (root tree)
  | keeps {p q : Position} (i : Nat) (e : Green) (known : Option Nat) (above : Learns p q) :
    Learns (child p i e known) (child q i e known)
  | asked {p q : Position} (i : Nat) (e : Green) (known : Option Nat) (above : Learns p q) :
    Learns (child p i e known) (child q i e (some (child p i e known).offset))

/-- Asking for the offset of an element makes its own known and all those above it. -/
theorem learns_settled (p : Position) : p.Learns p.settled := by
  induction p with
  | root tree => exact .root tree
  | child p i e known ih => exact .asked i e known ih

/-- A position in a tree. -/
structure Within (tree : Green) (p : Position) : Prop where
  valid : p.Valid
  top : p.top = root tree

end Position

/-! ## Moves of a route -/

namespace Green

/-- The places of the children of an element that count. -/
def places (g : Green) (scope : Scope) (r : Route) : List Nat :=
  (List.range ((g.at? r).elim 0 (·.children.length))).filter fun i =>
    (g.at? (r ++ [i])).any scope.keeps

/-- The route to a sibling, chosen by the route to the parent and the own place. -/
def sibling? (r : Route) (choose : Route → Nat → Option Nat) : Option Route :=
  r.getLast?.bind fun i => (choose r.dropLast i).map fun j => r.dropLast ++ [j]

def isNodeAt (g : Green) (r : Route) : Bool := (g.at? r).any isNode

/-- Where a move leads from the element at the end of a route. -/
def move? (g : Green) (r : Route) : Move → Option Route
  | .parent => if r = [] then none else some r.dropLast
  | .firstChild scope => (g.places scope r).head?.map fun i => r ++ [i]
  | .lastChild scope => (g.places scope r).getLast?.map fun i => r ++ [i]
  | .nextSibling scope => sibling? r fun q i => (g.places scope q).find? (i < ·)
  | .prevSibling scope => sibling? r fun q i => ((g.places scope q).filter (· < i)).getLast?
  | .firstToken => if g.isNodeAt r then (g.tokensBelow r).head?.map (·.1) else none
  | .lastToken => if g.isNodeAt r then (g.tokensBelow r).getLast?.map (·.1) else none
  | .nextToken => if g.isNodeAt r then none else (g.tokensBehind r).head?.map (·.1)
  | .prevToken => if g.isNodeAt r then none else (g.tokensBefore r).getLast?.map (·.1)

end Green

namespace Position

open Green

variable {tree : Green}

/-! ## Positions stand at the end of their routes -/

theorem Within.root (tree : Green) : Within tree (root tree) := ⟨trivial, rfl⟩

theorem Within.parent {p : Position} {i : Nat} {e : Green} {known : Option Nat}
    (h : Within tree (child p i e known)) : Within tree p :=
  ⟨h.valid.1, h.top⟩

theorem Within.uncounted {p : Position} (h : Within tree p) {i : Nat} {e : Green}
    (he : p.element.children[i]? = some e) : Within tree (child p i e none) :=
  ⟨⟨h.valid, he, by simp⟩, h.top⟩

theorem Within.counted {p : Position} (h : Within tree p) {i rel : Nat} {e : Green}
    (he : p.element.children[i]? = some e) (hr : rel = relativeOffset p.element i) :
    Within tree (child p i e (p.known?.map (· + rel))) :=
  ⟨h.valid.counted he hr, h.top⟩

theorem Within.sized (sized : tree.Sized) {p : Position} (h : Within tree p) : p.element.Sized :=
  h.valid.sized (h.top ▸ sized)

theorem Within.at?_path {p : Position} (h : Within tree p) : tree.at? p.path = some p.element := by
  induction p with
  | root t =>
    obtain rfl : t = tree := Position.root.inj h.top
    rfl
  | child p i e known ih =>
    rw [path, at?_snoc, ih h.parent]
    exact h.valid.2.1

/-- The offset of a position is the number of bytes of the tokens in front of it. -/
theorem Within.offset_eq (sized : tree.Sized) {p : Position} (h : Within tree p) :
    p.offset = sizeOfSpots (tree.tokensBefore p.path) := by
  induction p with
  | root t => rw [path, tokensBefore_nil]; rfl
  | child p i e known ih =>
    have front : SizedOf (p.element.children.take i) :=
      sizedOf_iff.mpr fun g hg => sizedOf_iff.mp (h.parent.sized sized).children g (List.mem_of_mem_take hg)
    rw [h.valid.offset_child, ih h.parent, path, tokensBefore_snoc h.parent.at?_path h.valid.2.1,
      sizeOfSpots_append, sizeOfSpots_along, relativeOffset, totalSize_eq_spots front 0]

/-! ## Rows of children -/

/-- The places of the children from `index` on that count. -/
def placesFrom (p : Position) (scope : Scope) (index count : Nat) : List Nat :=
  (List.range' index count).filter fun i => (p.element.children[i]?).any scope.keeps

theorem Within.places_eq {p : Position} (h : Within tree p) (scope : Scope) :
    tree.places scope p.path = p.placesFrom scope 0 p.element.children.length := by
  rw [places, placesFrom, h.at?_path, List.range_eq_range']
  refine List.filter_congr fun i _ => ?_
  rw [at?_snoc, h.at?_path]
  rfl

/-- Children in order stand at the ends of the routes to their places. -/
theorem paths_childrenFrom (p : Position) (scope : Scope) (index rel : Nat) (gs : List Green)
    (h : p.element.children.drop index = gs) :
    ((p.childrenFrom index rel gs).filter (scope.keeps ·.element)).map path =
      (p.placesFrom scope index gs.length).map fun i => p.path ++ [i] := by
  induction gs generalizing index rel with
  | nil => rfl
  | cons g gs ih =>
    have here : p.element.children[index]? = some g := by
      rw [← List.head?_drop, h, List.head?_cons]
    have rest : p.element.children.drop (index + 1) = gs := by
      rw [← List.tail_drop, h, List.tail_cons]
    rw [childrenFrom, placesFrom, List.length_cons, List.range'_succ, List.filter_cons,
      List.filter_cons, here]
    have more := ih (index + 1) (rel + g.size) rest
    rw [placesFrom] at more
    cases hk : scope.keeps g <;> simp [element_child, path_child, hk, more]

theorem Within.childrenFrom {p : Position} (h : Within tree p) {index rel : Nat} {gs : List Green}
    (hd : p.element.children.drop index = gs) (hr : rel = relativeOffset p.element index) :
    ∀ c ∈ p.childrenFrom index rel gs, Within tree c := by
  induction gs generalizing index rel with
  | nil => simp [Position.childrenFrom]
  | cons g gs ih =>
    have here : p.element.children[index]? = some g := by
      rw [← List.head?_drop, hd, List.head?_cons]
    rintro c (_ | ⟨_, hc⟩)
    · exact h.counted here hr
    · exact ih (by rw [← List.tail_drop, hd, List.tail_cons]) (by rw [relativeOffset_succ here, hr]) c hc

/-- Children that are asked for by their places stand at the ends of the routes to them. -/
theorem paths_childAt? (p : Position) (scope : Scope) (is : List Nat) :
    ((is.filterMap p.childAt?).filter (scope.keeps ·.element)).map path =
      (is.filter fun i => (p.element.children[i]?).any scope.keeps).map fun i => p.path ++ [i] := by
  induction is with
  | nil => rfl
  | cons i is ih =>
    rw [List.filterMap_cons, List.filter_cons, childAt?]
    cases h : p.element.children[i]? with
    | none => exact ih
    | some g => cases hk : scope.keeps g <;> simp [element_child, path_child, hk, ih]

theorem paths_childrenBefore (p : Position) (scope : Scope) (count : Nat) :
    ((p.childrenBefore count).filter (scope.keeps ·.element)).map path =
      (p.placesFrom scope 0 count).reverse.map fun i => p.path ++ [i] := by
  rw [childrenBefore, paths_childAt?, placesFrom, ← List.range_eq_range', List.filter_reverse]

theorem Within.childrenBefore {p : Position} (h : Within tree p) (count : Nat) :
    ∀ c ∈ p.childrenBefore count, Within tree c := by
  intro c hc
  obtain ⟨i, -, hi⟩ := List.mem_filterMap.mp hc
  obtain ⟨g, hg, rfl⟩ := Option.map_eq_some_iff.mp hi
  exact h.uncounted hg

theorem mem_placesFrom {p : Position} {scope : Scope} {index count j : Nat}
    (h : j ∈ p.placesFrom scope index count) : index ≤ j ∧ j < index + count := by
  have := List.mem_range'_1.mp (List.mem_of_mem_filter h)
  omega

theorem placesFrom_append (p : Position) (scope : Scope) (index m n : Nat) :
    p.placesFrom scope index (m + n) =
      p.placesFrom scope index m ++ p.placesFrom scope (index + m) n := by
  rw [placesFrom, ← List.range'_append_1, List.filter_append]
  rfl

/-- Some places are those below a bound followed by those from it on. -/
theorem placesFrom_split (p : Position) (scope : Scope) (m n : Nat) :
    (p.placesFrom scope 0 n).filter (m ≤ ·) = p.placesFrom scope m (n - m) ∧
      (m ≤ n → (p.placesFrom scope 0 n).filter (· < m) = p.placesFrom scope 0 m) := by
  by_cases h : m ≤ n
  · obtain ⟨k, rfl⟩ := Nat.exists_eq_add_of_le h
    rw [placesFrom_append, List.filter_append, List.filter_append, Nat.zero_add, Nat.add_sub_cancel_left]
    have front : ∀ j ∈ p.placesFrom scope 0 m, j < m := fun j hj => by
      have := mem_placesFrom hj
      omega
    have back : ∀ j ∈ p.placesFrom scope m k, m ≤ j := fun j hj => (mem_placesFrom hj).1
    constructor
    · rw [List.filter_eq_nil_iff.mpr fun j hj => by simpa using front j hj,
        List.filter_eq_self.mpr fun j hj => by simpa using back j hj]
      rfl
    · intro _
      rw [List.filter_eq_self.mpr fun j hj => by simpa using front j hj,
        List.filter_eq_nil_iff.mpr fun j hj => by simpa using back j hj, List.append_nil]
  · refine ⟨?_, fun le => absurd le h⟩
    rw [Nat.sub_eq_zero_of_le (by omega)]
    refine List.filter_eq_nil_iff.mpr fun j hj => ?_
    have := mem_placesFrom hj
    simp only [decide_eq_true_eq]
    omega

/-- The next place that counts is found from the one where the search begins. -/
theorem Within.find_places {p : Position} (h : Within tree p) (scope : Scope) (m : Nat) :
    (tree.places scope p.path).find? (m ≤ ·) =
      (p.placesFrom scope m (p.element.children.length - m)).head? := by
  rw [h.places_eq, ← List.head?_filter, (placesFrom_split p scope m _).1]

/-! ## Moves among parents, children and siblings -/

/-- An answer within the tree that stands at the end of a route. -/
def Leads (tree : Green) (q? : Option Position) (r? : Option Route) : Prop :=
  q?.map path = r? ∧ ∀ q ∈ q?, Within tree q

theorem leads_none : Leads tree none none := ⟨rfl, by simp⟩

/-- The first of some positions that stand at the ends of some routes. -/
theorem leads_head {qs : List Position} {rs : List Route} (paths : qs.map path = rs)
    (within : ∀ q ∈ qs, Within tree q) : Leads tree qs.head? rs.head? :=
  ⟨by rw [← paths, List.head?_map], fun q hq => within q (List.mem_of_mem_head? hq)⟩

theorem Within.leads_parent {p : Position} (h : Within tree p) :
    Leads tree p.parent? (tree.move? p.path .parent) := by
  cases p with
  | root t => exact leads_none
  | child p i e known =>
    refine ⟨?_, fun q hq => ?_⟩
    · simp [parent?, Green.move?, path]
    · cases hq
      exact h.parent

theorem Within.leads_firstChild {p : Position} (h : Within tree p) (scope : Scope) :
    Leads tree (scope.firstChild? p) (tree.move? p.path (.firstChild scope)) := by
  have first : scope.firstChild? p = (p.children.filter (scope.keeps ·.element)).head? := by
    cases scope with
    | nodes => rfl
    | elements => exact congrArg List.head? (List.filter_eq_self.mpr fun _ _ => rfl).symm
  rw [first, Green.move?, h.places_eq, ← List.head?_map]
  exact leads_head (paths_childrenFrom p scope 0 0 _ rfl) fun q hq =>
    h.childrenFrom rfl rfl q (List.mem_of_mem_filter hq)

/-- The nearest child before a place. -/
theorem Within.leads_before {p : Position} (h : Within tree p) (scope : Scope) (count : Nat) :
    Leads tree ((p.childrenBefore count).filter (scope.keeps ·.element)).head?
      ((p.placesFrom scope 0 count).getLast?.map fun i => p.path ++ [i]) := by
  rw [← List.head?_reverse, ← List.head?_map]
  exact leads_head (paths_childrenBefore p scope count) fun q hq =>
    h.childrenBefore count q (List.mem_of_mem_filter hq)

theorem head?_elements (qs : List Position) :
    (qs.filter (Scope.elements.keeps ·.element)).head? = qs.head? :=
  congrArg List.head? (List.filter_eq_self.mpr fun _ _ => rfl)

theorem Within.leads_lastChild {p : Position} (h : Within tree p) (scope : Scope) :
    Leads tree (scope.lastChild? p) (tree.move? p.path (.lastChild scope)) := by
  have last : scope.lastChild? p =
      ((p.childrenBefore p.element.children.length).filter (scope.keeps ·.element)).head? := by
    cases scope with
    | nodes => exact (List.head?_filter ..).symm
    | elements => exact (head?_elements _).symm
  rw [last, Green.move?, h.places_eq]
  exact h.leads_before scope _

/-- A child that is asked for by its place is the next one that counts. -/
theorem Within.leads_childAt? {p : Position} (h : Within tree p) (i : Nat) :
    Leads tree (p.childAt? i)
      ((p.placesFrom .elements i (p.element.children.length - i)).head?.map fun i => p.path ++ [i]) := by
  by_cases hi : i < p.element.children.length
  · obtain ⟨k, hk⟩ := Nat.exists_eq_add_of_lt hi
    have count : p.element.children.length - i = k + 1 := by omega
    rw [childAt?, count, placesFrom, List.range'_succ, List.getElem?_eq_getElem hi]
    refine ⟨by simp [path_child, hi, Scope.keeps], fun q hq => ?_⟩
    cases hq
    exact h.uncounted (List.getElem?_eq_getElem hi)
  · rw [childAt?, List.getElem?_eq_none (by omega), Nat.sub_eq_zero_of_le (by omega)]
    exact leads_none

theorem sibling?_snoc (r : Route) (i : Nat) (choose : Route → Nat → Option Nat) :
    Green.sibling? (r ++ [i]) choose = (choose r i).map fun j => r ++ [j] := by
  simp [Green.sibling?]

theorem Within.leads_nextSibling {p : Position} (h : Within tree p) (scope : Scope) :
    Leads tree (scope.nextSibling? p) (tree.move? p.path (.nextSibling scope)) := by
  cases p with
  | root t => cases scope <;> exact leads_none
  | child p i e known =>
    rw [Green.move?, path_child, sibling?_snoc, show (fun j => decide (i < j)) =
      fun j => decide (i + 1 ≤ j) from rfl, h.parent.find_places]
    cases scope with
    | nodes =>
      have next : Scope.nodes.nextSibling? (child p i e known) =
          ((child p i e known).following.filter (Scope.nodes.keeps ·.element)).head? :=
        (List.head?_filter ..).symm
      rw [next, ← List.head?_map]
      refine leads_head ?_ fun q hq =>
        h.parent.childrenFrom rfl (relativeOffset_succ h.valid.2.1).symm q (List.mem_of_mem_filter hq)
      rw [following, paths_childrenFrom p .nodes _ _ _ rfl, List.length_drop]
    | elements => exact h.parent.leads_childAt? (i + 1)

theorem Within.leads_prevSibling {p : Position} (h : Within tree p) (scope : Scope) :
    Leads tree (scope.prevSibling? p) (tree.move? p.path (.prevSibling scope)) := by
  cases p with
  | root t => cases scope <;> exact leads_none
  | child p i e known =>
    obtain ⟨hi, -⟩ := List.getElem?_eq_some_iff.mp h.valid.2.1
    have prev : scope.prevSibling? (child p i e known) =
        ((p.childrenBefore i).filter (scope.keeps ·.element)).head? := by
      cases scope with
      | nodes => exact (List.head?_filter ..).symm
      | elements => exact (head?_elements _).symm
    rw [prev, Green.move?, path_child, sibling?_snoc, h.parent.places_eq,
      (placesFrom_split p scope i _).2 hi.le]
    exact h.parent.leads_before scope i

/-! ## Moves among tokens -/

mutual
theorem firstTokenIn_path (p : Position) : ∀ g : Green,
    (firstTokenIn p g).map path = (along p.path g.spots).head?.map (·.1)
  | .token _ _ => by simp [firstTokenIn, spots, along]
  | .node _ _ cs => firstTokenOf_path p 0 0 cs

theorem firstTokenOf_path (p : Position) (index rel : Nat) : ∀ gs : List Green,
    (firstTokenOf p index rel gs).map path = (along p.path (spotsFrom index gs)).head?.map (·.1)
  | [] => rfl
  | g :: gs => by
    have first := firstTokenIn_path (child p index g (p.known?.map (· + rel))) g
    have more := firstTokenOf_path p (index + 1) (rel + g.size) gs
    rw [firstTokenOf, spotsFrom, along_append, ← along_place, List.head?_append]
    cases hf : firstTokenIn (child p index g (p.known?.map (· + rel))) g with
    | some t =>
      rw [hf] at first
      cases hs : (along (p.path ++ [index]) g.spots).head? with
      | none => simp [path_child, hs] at first
      | some s => simpa [path_child, hs] using first
    | none =>
      rw [hf] at first
      cases hs : (along (p.path ++ [index]) g.spots).head? with
      | none => simpa using more
      | some s => simp [path_child, hs] at first
end

mutual
theorem lastTokenIn_path (p : Position) : ∀ g : Green,
    (lastTokenIn p g).map path = (along p.path g.spots).getLast?.map (·.1)
  | .token _ _ => by simp [lastTokenIn, spots, along]
  | .node _ _ cs => lastTokenOf_path p 0 cs

theorem lastTokenOf_path (p : Position) (index : Nat) : ∀ gs : List Green,
    (lastTokenOf p index gs).map path = (along p.path (spotsFrom index gs)).getLast?.map (·.1)
  | [] => rfl
  | g :: gs => by
    have last := lastTokenIn_path (child p index g none) g
    have more := lastTokenOf_path p (index + 1) gs
    rw [lastTokenOf, spotsFrom, along_append, ← along_place, List.getLast?_append]
    cases hf : lastTokenOf p (index + 1) gs with
    | some t =>
      rw [hf] at more
      cases hs : (along p.path (spotsFrom (index + 1) gs)).getLast? with
      | none => simp [hs] at more
      | some s => simpa [hs] using more
    | none =>
      rw [hf] at more
      cases hs : (along p.path (spotsFrom (index + 1) gs)).getLast? with
      | none => simpa [path_child] using last
      | some s => simp [hs] at more
end

mutual
theorem Within.firstTokenIn {p : Position} (h : Within tree p) : ∀ g : Green, p.element = g →
    ∀ t ∈ firstTokenIn p g, Within tree t
  | .token _ _, _, t, ht => by
    cases ht
    exact h
  | .node k n cs, he, t, ht => Within.firstTokenOf h cs 0 0 (by rw [he]; rfl) rfl t ht

theorem Within.firstTokenOf {p : Position} (h : Within tree p) : ∀ (gs : List Green) (index rel : Nat),
    p.element.children.drop index = gs → rel = relativeOffset p.element index →
      ∀ t ∈ firstTokenOf p index rel gs, Within tree t
  | [], _, _, _, _, t, ht => by simp [Position.firstTokenOf] at ht
  | g :: gs, index, rel, hd, hr, t, ht => by
    have here : p.element.children[index]? = some g := by
      rw [← List.head?_drop, hd, List.head?_cons]
    rw [Position.firstTokenOf] at ht
    split at ht
    · next t' hf =>
      cases ht
      exact Within.firstTokenIn (h.counted here hr) g rfl t hf
    · exact Within.firstTokenOf h gs (index + 1) (rel + g.size)
        (by rw [← List.tail_drop, hd, List.tail_cons]) (by rw [relativeOffset_succ here, hr]) t ht
end

mutual
theorem Within.lastTokenIn {p : Position} (h : Within tree p) : ∀ g : Green, p.element = g →
    ∀ t ∈ lastTokenIn p g, Within tree t
  | .token _ _, _, t, ht => by
    cases ht
    exact h
  | .node k n cs, he, t, ht => Within.lastTokenOf h cs 0 (by rw [he]; exact List.prefix_refl _) t ht

/-- The row may stop before the last child. -/
theorem Within.lastTokenOf {p : Position} (h : Within tree p) : ∀ (gs : List Green) (index : Nat),
    gs <+: p.element.children.drop index → ∀ t ∈ lastTokenOf p index gs, Within tree t
  | [], _, _, t, ht => by simp [Position.lastTokenOf] at ht
  | g :: gs, index, ⟨more, hd⟩, t, ht => by
    have here : p.element.children[index]? = some g := by
      rw [← List.head?_drop, ← hd, List.cons_append, List.head?_cons]
    rw [Position.lastTokenOf] at ht
    split at ht
    · next t' hf =>
      cases ht
      refine Within.lastTokenOf h gs (index + 1) ⟨more, ?_⟩ t hf
      rw [← List.tail_drop, ← hd, List.cons_append, List.tail_cons]
    · exact Within.lastTokenIn (h.uncounted here) g rfl t ht
end

theorem Within.isNodeAt {p : Position} (h : Within tree p) : tree.isNodeAt p.path = p.isNode := by
  rw [Green.isNodeAt, h.at?_path]
  rfl

theorem Within.leads_firstToken {p : Position} (h : Within tree p) :
    Leads tree (p.move? .firstToken) (tree.move? p.path .firstToken) := by
  rw [Position.move?, Green.move?, h.isNodeAt]
  split
  · rw [tokensBelow_eq h.at?_path]
    exact ⟨firstTokenIn_path p _, h.firstTokenIn _ rfl⟩
  · exact leads_none

theorem Within.leads_lastToken {p : Position} (h : Within tree p) :
    Leads tree (p.move? .lastToken) (tree.move? p.path .lastToken) := by
  rw [Position.move?, Green.move?, h.isNodeAt]
  split
  · rw [tokensBelow_eq h.at?_path]
    exact ⟨lastTokenIn_path p _, h.lastTokenIn _ rfl⟩
  · exact leads_none

/-- The next token is the first one behind the element, among the siblings behind it or further up. -/
theorem Within.leads_nextToken? {p : Position} (h : Within tree p) :
    Leads tree p.nextToken? ((tree.tokensBehind p.path).head?.map (·.1)) := by
  induction p with
  | root t =>
    rw [path, tokensBehind_nil]
    exact leads_none
  | child p i e known ih =>
    have up := ih h.parent
    have siblings := firstTokenOf_path p (i + 1) (relativeOffset p.element i + e.size)
      (p.element.children.drop (i + 1))
    have within := h.parent.firstTokenOf (p.element.children.drop (i + 1)) (i + 1)
      (relativeOffset p.element i + e.size) rfl (relativeOffset_succ h.valid.2.1).symm
    rw [nextToken?, path, tokensBehind_snoc h.parent.at?_path h.valid.2.1, List.head?_append]
    revert siblings within
    cases Position.firstTokenOf p (i + 1) (relativeOffset p.element i + e.size)
        (p.element.children.drop (i + 1)) with
    | some t =>
      intro siblings within
      cases hs : (along p.path (spotsFrom (i + 1) (p.element.children.drop (i + 1)))).head? with
      | none => simp [hs] at siblings
      | some s => exact ⟨by simpa [hs] using siblings, within⟩
    | none =>
      intro siblings _
      cases hs : (along p.path (spotsFrom (i + 1) (p.element.children.drop (i + 1)))).head? with
      | none => exact up
      | some s => simp [hs] at siblings

/-- The previous token is the last one in front of the element. -/
theorem Within.leads_prevToken? {p : Position} (h : Within tree p) :
    Leads tree p.prevToken? ((tree.tokensBefore p.path).getLast?.map (·.1)) := by
  induction p with
  | root t =>
    rw [path, tokensBefore_nil]
    exact leads_none
  | child p i e known ih =>
    have up := ih h.parent
    have siblings := lastTokenOf_path p 0 (p.element.children.take i)
    have within := h.parent.lastTokenOf (p.element.children.take i) 0 (List.take_prefix _ _)
    rw [prevToken?, path, tokensBefore_snoc h.parent.at?_path h.valid.2.1, List.getLast?_append]
    revert siblings within
    cases Position.lastTokenOf p 0 (p.element.children.take i) with
    | some t =>
      intro siblings within
      cases hs : (along p.path (spotsFrom 0 (p.element.children.take i))).getLast? with
      | none => simp [hs] at siblings
      | some s => exact ⟨by simpa [hs] using siblings, within⟩
    | none =>
      intro siblings _
      cases hs : (along p.path (spotsFrom 0 (p.element.children.take i))).getLast? with
      | none => exact up
      | some s => simp [hs] at siblings

/-- Every move of a position leads where the same move of its route leads. -/
theorem Within.leads {p : Position} (h : Within tree p) (m : Move) :
    Leads tree (p.move? m) (tree.move? p.path m) := by
  cases m with
  | parent => exact h.leads_parent
  | firstChild scope => exact h.leads_firstChild scope
  | lastChild scope => exact h.leads_lastChild scope
  | nextSibling scope => exact h.leads_nextSibling scope
  | prevSibling scope => exact h.leads_prevSibling scope
  | firstToken => exact h.leads_firstToken
  | lastToken => exact h.leads_lastToken
  | nextToken =>
    have tokens : p.isToken = !p.isNode := by simp [isNode, Green.isNode, isToken]
    rw [Position.move?, Green.move?, h.isNodeAt, tokens]
    cases p.isNode with
    | true => exact leads_none
    | false => exact h.leads_nextToken?
  | prevToken =>
    have tokens : p.isToken = !p.isNode := by simp [isNode, Green.isNode, isToken]
    rw [Position.move?, Green.move?, h.isNodeAt, tokens]
    cases p.isNode with
    | true => exact leads_none
    | false => exact h.leads_prevToken?

/-- Asking for offsets changes neither where a position stands nor what it says its offset is. -/
theorem Learns.same {p q : Position} (h : p.Learns q) (valid : p.Valid) :
    q.Valid ∧ q.top = p.top ∧ q.element = p.element ∧ q.path = p.path ∧ q.offset = p.offset := by
  induction h with
  | root tree => exact ⟨trivial, rfl, rfl, rfl, rfl⟩
  | @keeps p q i e known above ih =>
    obtain ⟨hv, top, element, path, offset⟩ := ih valid.1
    have hv : (child q i e known).Valid :=
      ⟨hv, element ▸ valid.2.1, fun n hn => by rw [offset, element]; exact valid.2.2 n hn⟩
    refine ⟨hv, top, rfl, congrArg (· ++ [i]) path, ?_⟩
    rw [hv.offset_child, valid.offset_child, offset, element]
  | @asked p q i e known above ih =>
    obtain ⟨hv, top, element, path, offset⟩ := ih valid.1
    refine ⟨⟨hv, element ▸ valid.2.1, fun n hn => ?_⟩, top, rfl, congrArg (· ++ [i]) path, rfl⟩
    obtain rfl := Option.some.inj hn
    rw [valid.offset_child, offset, element]

theorem Within.learns {p q : Position} (h : Within tree p) (learns : p.Learns q) : Within tree q :=
  ⟨(learns.same h.valid).1, (learns.same h.valid).2.1.trans h.top⟩

end Position

/-! ## Passes -/

namespace Pass

open Position Green

variable {tree : Green}

/-- A pass over children of a position in the tree that has counted right. -/
structure Within (tree : Green) (s : Pass) : Prop where
  parent : Position.Within tree s.parent
  rel : s.rel = relativeOffset s.parent.element s.place

theorem Within.of {p : Position} (h : Position.Within tree p) : Within tree (Pass.of p) := ⟨h, rfl⟩

theorem Within.learns {s : Pass} {q : Position} (h : s.Within tree) (learns : s.parent.Learns q) :
    Within tree { s with parent := q } :=
  ⟨h.parent.learns learns, by rw [h.rel, (learns.same h.parent.valid).2.2.1]⟩

theorem Within.give {s : Pass} {g : Green} (h : s.Within tree)
    (hg : s.parent.element.children[s.place]? = some g) :
    Position.Within tree (s.give g).1 ∧ (s.give g).2.Within tree :=
  ⟨h.parent.counted hg h.rel, h.parent, by
    change s.rel + g.size = relativeOffset s.parent.element (s.place + 1)
    rw [relativeOffset_succ hg, h.rel]⟩

/-- What a pass gives within the tree: a child that stands at the end of a route, and a pass that goes on
over the same children behind it. -/
def Leads (tree : Green) (s : Pass) (given? : Option (Position × Pass)) (place? : Option Nat) : Prop :=
  given?.map (fun c => (c.1.path, c.2.place)) = place?.map (fun i => (s.parent.path ++ [i], i + 1)) ∧
    ∀ c ∈ given?, Position.Within tree c.1 ∧ c.2.Within tree ∧ c.2.parent = s.parent

theorem Within.leads_nodeAmong? {s : Pass} (h : s.Within tree) (gs : List Green)
    (hd : s.parent.element.children.drop s.place = gs) :
    Leads tree s (s.nodeAmong? gs) (s.parent.placesFrom .nodes s.place gs.length).head? := by
  induction gs generalizing s with
  | nil => exact ⟨rfl, by simp [nodeAmong?]⟩
  | cons g gs ih =>
    have here : s.parent.element.children[s.place]? = some g := by
      rw [← List.head?_drop, hd, List.head?_cons]
    obtain ⟨child, rest⟩ := h.give here
    have more := ih rest (by
      change s.parent.element.children.drop (s.place + 1) = gs
      rw [← List.tail_drop, hd, List.tail_cons])
    rw [nodeAmong?, placesFrom, List.length_cons, List.range'_succ, List.filter_cons, here,
      Option.any_some, Scope.keeps]
    split
    · refine ⟨by simp [Pass.give, path], fun c hc => ?_⟩
      cases hc
      exact ⟨child, rest, rfl⟩
    · exact more

theorem Within.leads {s : Pass} (h : s.Within tree) (scope : Scope) :
    Leads tree s (scope.next? s) ((tree.places scope s.parent.path).find? (s.place ≤ ·)) := by
  rw [h.parent.find_places]
  cases scope with
  | nodes =>
    have := h.leads_nodeAmong? _ rfl
    rwa [List.length_drop] at this
  | elements =>
    by_cases hi : s.place < s.parent.element.children.length
    · obtain ⟨k, hk⟩ := Nat.exists_eq_add_of_lt hi
      have count : s.parent.element.children.length - s.place = k + 1 := by omega
      obtain ⟨child, rest⟩ := h.give (List.getElem?_eq_getElem hi)
      rw [Scope.next?, next?, count, placesFrom, List.range'_succ, List.getElem?_eq_getElem hi]
      refine ⟨by simp [hi, Scope.keeps, Pass.give, path], fun c hc => ?_⟩
      cases hc
      exact ⟨child, rest, rfl⟩
    · rw [Scope.next?, next?, List.getElem?_eq_none (by omega), Nat.sub_eq_zero_of_le (by omega)]
      exact ⟨rfl, by simp⟩

end Pass

/-! ## Runs -/

/-- A position, and a pass over the children of some position that was reached before. -/
structure Tour where
  here : Position
  pass : Pass

/-- The same by routes alone: the element, the one whose children are passed, and the next child's place. -/
structure Trail where
  here : Green.Route
  parent : Green.Route
  place : Nat

/-- One step: a move, the start of a pass over the children, or a step of the pass to the next child. -/
inductive Stride where
  | move (m : Move)
  | pass
  | next (scope : Scope)
  deriving DecidableEq, Repr

namespace Tour

def start (tree : Green) : Tour := ⟨.root tree, .of (.root tree)⟩

def step? (t : Tour) : Stride → Option Tour
  | .move m => (t.here.move? m).map fun p => { t with here := p }
  | .pass => some { t with pass := .of t.here }
  | .next scope => (scope.next? t.pass).map fun c => ⟨c.1, c.2⟩

/-- The tours that some steps lead to. In between, offsets may be asked for: of the position, of the one
whose children are passed, and of any above them. -/
inductive Reaches (tree : Green) : List Stride → Tour → Prop
  | start : Reaches tree [] (start tree)
  | step {ss : List Stride} {t t' : Tour} (s : Stride) (before : Reaches tree ss t)
    (step : t.step? s = some t') : Reaches tree (ss ++ [s]) t'
  | ask {ss : List Stride} {t : Tour} {p q : Position} (before : Reaches tree ss t)
    (here : t.here.Learns p) (parent : t.pass.parent.Learns q) :
    Reaches tree ss ⟨p, { t.pass with parent := q }⟩

end Tour

namespace Trail

def start : Trail := ⟨[], [], 0⟩

def step? (tree : Green) (c : Trail) : Stride → Option Trail
  | .move m => (tree.move? c.here m).map fun r => { c with here := r }
  | .pass => some { c with parent := c.here, place := 0 }
  | .next scope => ((tree.places scope c.parent).find? (c.place ≤ ·)).map fun i =>
    { here := c.parent ++ [i], parent := c.parent, place := i + 1 }

/-- The trail after some steps, if all of them can be made. -/
def run? (tree : Green) (ss : List Stride) : Option Trail := ss.foldlM (step? tree) start

end Trail

namespace Tour

variable {tree : Green}

structure Within (tree : Green) (t : Tour) : Prop where
  here : t.here.Within tree
  pass : t.pass.Within tree

def trail (t : Tour) : Trail := ⟨t.here.path, t.pass.parent.path, t.pass.place⟩

/-- One step leads from tour to tour as it leads from trail to trail. -/
theorem within_step {t : Tour} (h : t.Within tree) (s : Stride) :
    (t.step? s).map trail = t.trail.step? tree s ∧ ∀ t' ∈ t.step? s, t'.Within tree := by
  cases s with
  | move m =>
    obtain ⟨path, within⟩ := h.here.leads m
    rw [step?, Trail.step?, trail, ← path, Option.map_map, Option.map_map]
    refine ⟨rfl, fun t' ht => ?_⟩
    obtain ⟨q, hq, rfl⟩ := Option.map_eq_some_iff.mp ht
    exact ⟨within q hq, h.pass⟩
  | pass =>
    refine ⟨rfl, fun t' ht => ?_⟩
    cases ht
    exact ⟨h.here, .of h.here⟩
  | next scope =>
    obtain ⟨path, within⟩ := h.pass.leads scope
    have same : (scope.next? t.pass).map (fun c => trail ⟨c.1, c.2⟩) =
        ((scope.next? t.pass).map fun c => (c.1.path, c.2.place)).map fun c =>
          ⟨c.1, t.pass.parent.path, c.2⟩ := by
      rw [Option.map_map]
      refine Option.map_congr fun c hc => ?_
      rw [trail, (within c hc).2.2]
      rfl
    refine ⟨?_, fun t' ht => ?_⟩
    · rw [step?, Option.map_map]
      refine same.trans ?_
      rw [path, Option.map_map]
      rfl
    · obtain ⟨c, hc, rfl⟩ := Option.map_eq_some_iff.mp ht
      exact ⟨(within c hc).1, (within c hc).2.1⟩

/-- A tour is where its trail is, and within the tree. -/
theorem Reaches.trail {ss : List Stride} {t : Tour} (h : Reaches tree ss t) :
    Trail.run? tree ss = some t.trail ∧ t.Within tree := by
  induction h with
  | start => exact ⟨rfl, .root tree, .of (.root tree)⟩
  | @step ss t t' s before step ih =>
    obtain ⟨trail, within⟩ := within_step ih.2 s
    rw [step] at trail
    refine ⟨?_, within t' step⟩
    rw [Trail.run?, List.foldlM_append, show ss.foldlM (Trail.step? tree) Trail.start = some _ from ih.1]
    simpa using trail.symm
  | @ask ss t p q before here parent ih =>
    obtain ⟨-, -, -, path, -⟩ := here.same ih.2.here.valid
    obtain ⟨-, -, -, pathParent, -⟩ := parent.same ih.2.pass.parent.valid
    refine ⟨ih.1.trans ?_, ih.2.here.learns here, ih.2.pass.learns parent⟩
    rw [Tour.trail, Tour.trail, path, pathParent]

/-- Whatever steps lead from the root of a tree to a tour, and whichever offsets are asked for in between,
the same steps lead a trail that holds nothing but places to the same element: the tree has it at the end
of the route, the last place of the route is its index, and its offset is the number of bytes of all tokens
in front of it. The steps that can follow are the same too. -/
theorem reaches_follows_trail {ss : List Stride} {t : Tour} (sized : tree.Sized)
    (h : Reaches tree ss t) : ∃ c, Trail.run? tree ss = some c ∧
      t.here.path = c.here ∧ tree.at? c.here = some t.here.element ∧
      t.here.index = c.here.getLast?.getD 0 ∧
      t.here.offset = Green.sizeOfSpots (tree.tokensBefore c.here) ∧
      ∀ s, (t.step? s).isSome = (c.step? tree s).isSome := by
  obtain ⟨run, within⟩ := h.trail
  refine ⟨t.trail, run, rfl, within.here.at?_path, ?_, within.here.offset_eq sized, fun s => ?_⟩
  · cases h : t.here with
    | root tree => simp [trail, h, Position.index, Position.path]
    | child p i e known => simp [trail, h, Position.index, Position.path]
  · rw [← (within_step within s).1, Option.isSome_map]

/-- A file of an empty name, a word and a name with a word in it. -/
def hollowFile : Green :=
  .branch .sourceFile [.branch .name [], .token .ident ['a', 'b'],
    .branch .nameRef [.token .ident ['c']]]

/-- Over the empty name and, past the first word, to the second: the offset is asked for on the way, and the
pass goes on without it. -/
theorem reaches_follows_trail_hollowFile :
    hollowFile.Sized ∧ ∃ t, Reaches hollowFile
        [.pass, .next .elements, .next .nodes, .move .firstToken, .move .prevToken, .move .nextToken] t ∧
      ∃ c, Trail.run? hollowFile
          [.pass, .next .elements, .next .nodes, .move .firstToken, .move .prevToken, .move .nextToken] =
            some c ∧
        t.here.path = c.here ∧ hollowFile.at? c.here = some t.here.element ∧
        t.here.index = c.here.getLast?.getD 0 ∧
        t.here.offset = Green.sizeOfSpots (hollowFile.tokensBefore c.here) ∧
        ∀ s, (t.step? s).isSome = (c.step? hollowFile s).isSome := by
  have sized : hollowFile.Sized := ⟨rfl, ⟨rfl, trivial⟩, trivial, ⟨rfl, trivial, trivial⟩, trivial⟩
  have first : Reaches hollowFile [.pass, .next .elements] _ :=
    .step (.next .elements) (.step .pass .start rfl) rfl
  have asked := first.ask (Position.learns_settled _) (Position.learns_settled _)
  have word := (asked.step (.next .nodes) rfl).step (.move .firstToken) rfl
  have again := ((word.ask (Position.learns_settled _) (Position.learns_settled _)).step
    (.move .prevToken) rfl).step (.move .nextToken) rfl
  exact ⟨sized, _, again, reaches_follows_trail sized again⟩

end Tour

end Verbatim
