import Verbatim.Proofs.Children
import Verbatim.Proofs.Navigation

/-!
# Walking over a subtree

A walk holds one event and finds the next from it and from the tree around. A traversal recurs over the
elements instead. Both give the same events, whatever is left out and wherever the walk starts, and the walk
ends where the traversal does: every element that remains is entered and left once, in the order in which the
elements stand, and each is left before another one that is not inside of it is entered.
-/
namespace Verbatim

open Green

/-- An event of a walk, told by the route to its element. -/
inductive Visit where
  | enter (r : Route)
  | leave (r : Route)
  deriving DecidableEq, Repr

namespace Visit

def entered? : Visit → Option Route
  | enter r => some r
  | leave _ => none

def left? : Visit → Option Route
  | enter _ => none
  | leave r => some r

/-- The elements that are open after some events, the innermost first. Only children of the innermost one are
entered, and only the innermost one is left. -/
def openAfter? : List Route → List Visit → Option (List Route)
  | opened, [] => some opened
  | opened, enter r :: vs => if opened.head?.all (· == r.dropLast) then openAfter? (r :: opened) vs else none
  | r' :: opened, leave r :: vs => if r' = r then openAfter? opened vs else none
  | [], leave _ :: _ => none

/-- All that is entered is left, but for what stays open. -/
theorem perm_of_openAfter? {opened rest : List Route} {vs : List Visit} (h : openAfter? opened vs = some rest) :
    (vs.filterMap left? ++ rest).Perm (opened ++ vs.filterMap entered?) := by
  induction vs generalizing opened with
  | nil =>
    obtain rfl := Option.some.inj h
    simp
  | cons v vs ih =>
    cases v with
    | enter r =>
      rw [openAfter?] at h
      split at h
      · exact (ih h).trans List.perm_middle.symm
      · cases h
    | leave r =>
      cases opened with
      | nil => cases h
      | cons r' opened =>
        rw [openAfter?] at h
        split at h
        · next same =>
          subst same
          exact (ih h).cons r'
        · cases h

end Visit

/-- What an event tells of its element is where it stands. -/
def WalkEvent.visit : WalkEvent → Visit
  | enter p => .enter p.path
  | leave p => .leave p.path

/-! ## The traversal -/

namespace Green

mutual
/-- The events of a traversal of the element at the end of a route. What is below an element that is left out
is not traversed. -/
def visits (scope : Scope) (leftOut : Route → Bool) (r : Route) : Green → List Visit
  | token _ _ => [.enter r, .leave r]
  | node _ _ cs => .enter r :: ((if leftOut r then [] else visitsOf scope leftOut r 0 cs) ++ [.leave r])

/-- The same for children from place `index` on; those that do not count are passed over. -/
def visitsOf (scope : Scope) (leftOut : Route → Bool) (r : Route) (index : Nat) : List Green → List Visit
  | [] => []
  | g :: gs => (if scope.keeps g then visits scope leftOut (r ++ [index]) g else []) ++
      visitsOf scope leftOut r (index + 1) gs
end

/-- The elements that remain: the one where the traversal starts, and every child that counts of one that
remains and is not left out. -/
inductive Remains (g : Green) (scope : Scope) (leftOut : Route → Bool) (start : Route) : Route → Prop
  | start (there : (g.at? start).isSome = true) : Remains g scope leftOut start start
  | child {r : Route} {i : Nat} {e : Green} (above : Remains g scope leftOut start r)
    (kept : leftOut r = false) (there : g.at? (r ++ [i]) = some e) (counts : scope.keeps e = true) :
    Remains g scope leftOut start (r ++ [i])

variable {scope : Scope} {leftOut : Route → Bool}

theorem visits_eq (r : Route) (g : Green) : visits scope leftOut r g =
    .enter r :: ((if leftOut r then [] else visitsOf scope leftOut r 0 g.children) ++ [.leave r]) := by
  cases g with
  | token k t =>
    rw [visits, Green.children, visitsOf, ite_self]
    rfl
  | node k n cs => rw [visits, Green.children]

/-- Children that count are traversed. -/
theorem mem_visitsOf {r : Route} {index : Nat} {gs : List Green} {v : Visit} :
    v ∈ visitsOf scope leftOut r index gs ↔ ∃ k c, gs[k]? = some c ∧ scope.keeps c = true ∧
      v ∈ visits scope leftOut (r ++ [index + k]) c := by
  induction gs generalizing index with
  | nil => simp [visitsOf]
  | cons g gs ih =>
    rw [visitsOf, List.mem_append, ih]
    constructor
    · rintro (inside | ⟨k, c, hc, counts, inside⟩)
      · split at inside
        · next counts => exact ⟨0, g, rfl, counts, inside⟩
        · cases inside
      · exact ⟨k + 1, c, hc, counts, by rwa [Nat.add_right_comm] at inside⟩
    · rintro ⟨k, c, hc, counts, inside⟩
      cases k with
      | zero =>
        obtain rfl := Option.some.inj hc
        rw [if_pos counts]
        exact .inl inside
      | succ k =>
        exact .inr ⟨k, c, hc, counts, by rw [Nat.add_right_comm]; exact inside⟩

/-- An element is entered that is traversed itself, or one below it if it is not left out. -/
theorem mem_visits {r q : Route} {g : Green} : .enter q ∈ visits scope leftOut r g ↔ q = r ∨
    leftOut r = false ∧ ∃ i c, g.children[i]? = some c ∧ scope.keeps c = true ∧
      .enter q ∈ visits scope leftOut (r ++ [i]) c := by
  rw [visits_eq, List.mem_cons, List.mem_append]
  cases out : leftOut r with
  | true => simp
  | false => simp [mem_visitsOf]

theorem prefix_of_enter {r q : Route} {g : Green} (h : .enter q ∈ visits scope leftOut r g) : r <+: q := by
  induction g using descent generalizing r with
  | step g ih =>
    rcases mem_visits.mp h with rfl | ⟨-, i, c, hc, -, inside⟩
    · exact List.prefix_refl _
    · exact (List.prefix_append r [i]).trans (ih i c hc inside)

/-- Elements that are entered remain. -/
theorem Remains.of_enter {tree g : Green} {start r q : Route} (remains : tree.Remains scope leftOut start r)
    (there : tree.at? r = some g) (h : .enter q ∈ visits scope leftOut r g) :
    tree.Remains scope leftOut start q := by
  induction g using descent generalizing r with
  | step g ih =>
    rcases mem_visits.mp h with rfl | ⟨kept, i, c, hc, counts, inside⟩
    · exact remains
    · have child : tree.at? (r ++ [i]) = some c := by rw [at?_snoc, there]; exact hc
      exact ih i c hc (remains.child kept child counts) child inside

/-- With an element that is not left out its children are entered. -/
theorem enter_child {tree g e : Green} {r q : Route} {i : Nat} (there : tree.at? r = some g)
    (h : .enter q ∈ visits scope leftOut r g) (kept : leftOut q = false) (child : tree.at? (q ++ [i]) = some e)
    (counts : scope.keeps e = true) : .enter (q ++ [i]) ∈ visits scope leftOut r g := by
  induction g using descent generalizing r with
  | step g ih =>
    rcases mem_visits.mp h with rfl | ⟨more, j, c, hc, countsC, inside⟩
    · rw [at?_snoc, there] at child
      exact mem_visits.mpr (.inr ⟨kept, i, e, child, counts, mem_visits.mpr (.inl rfl)⟩)
    · have thereC : tree.at? (r ++ [j]) = some c := by rw [at?_snoc, there]; exact hc
      exact mem_visits.mpr (.inr ⟨more, j, c, hc, countsC, ih j c hc thereC inside⟩)

/-- Just the elements that remain are entered. -/
theorem remains_iff {tree g : Green} {start r : Route} (there : tree.at? start = some g) :
    .enter r ∈ visits scope leftOut start g ↔ tree.Remains scope leftOut start r := by
  constructor
  · exact Remains.of_enter (.start (by rw [there]; rfl)) there
  · intro remains
    induction remains with
    | start _ => exact mem_visits.mpr (.inl rfl)
    | child above kept child counts ih => exact enter_child there ih kept child counts

/-! ### Order and nesting -/

theorem lt_append {r s : Route} (ne : s ≠ []) : r < r ++ s := by
  induction r with
  | nil =>
    cases s with
    | nil => exact absurd rfl ne
    | cons i s => exact List.nil_lt_cons i s
  | cons i r ih => exact List.cons_lt_cons_iff.mpr (.inr ⟨rfl, ih⟩)

/-- What is below a child is before what is below a later one. -/
theorem lt_of_places {r q q' : Route} {i j : Nat} (less : i < j) (h : r ++ [i] <+: q) (h' : r ++ [j] <+: q') :
    q < q' := by
  obtain ⟨s, rfl⟩ := h
  obtain ⟨s', rfl⟩ := h'
  rw [List.append_assoc, List.append_assoc]
  induction r with
  | nil => exact List.cons_lt_cons_iff.mpr (.inl less)
  | cons k r ih => exact List.cons_lt_cons_iff.mpr (.inr ⟨rfl, ih⟩)

theorem mem_entered {vs : List Visit} {q : Route} : q ∈ vs.filterMap Visit.entered? ↔ .enter q ∈ vs := by
  rw [List.mem_filterMap]
  constructor
  · rintro ⟨v, hv, eq⟩
    cases v with
    | enter r => rwa [← Option.some.inj eq]
    | leave r => cases eq
  · exact fun h => ⟨_, h, rfl⟩

theorem place_of_enter {r q : Route} {index : Nat} {gs : List Green}
    (h : .enter q ∈ visitsOf scope leftOut r index gs) : ∃ j, index ≤ j ∧ r ++ [j] <+: q := by
  obtain ⟨k, c, -, -, inside⟩ := mem_visitsOf.mp h
  exact ⟨index + k, Nat.le_add_right index k, prefix_of_enter inside⟩

mutual
/-- Elements are entered in the order in which they stand, each of them once. -/
theorem visits_sorted (r : Route) : ∀ g : Green,
    ((visits scope leftOut r g).filterMap Visit.entered?).Pairwise (· < ·)
  | .token _ _ => List.pairwise_singleton _ r
  | .node k n cs => by
    rw [visits, List.filterMap_cons_some (show (Visit.enter r).entered? = some r from rfl),
      List.filterMap_append, show [Visit.leave r].filterMap Visit.entered? = [] from rfl, List.append_nil]
    split
    · exact List.pairwise_singleton _ r
    · refine List.pairwise_cons.mpr ⟨fun q hq => ?_, visitsOf_sorted r 0 cs⟩
      obtain ⟨j, -, s, rfl⟩ := place_of_enter (mem_entered.mp hq)
      rw [List.append_assoc]
      exact lt_append (by simp)

theorem visitsOf_sorted (r : Route) (index : Nat) : ∀ gs : List Green,
    ((visitsOf scope leftOut r index gs).filterMap Visit.entered?).Pairwise (· < ·)
  | [] => .nil
  | g :: gs => by
    have behind := visitsOf_sorted r (index + 1) gs
    rw [visitsOf, List.filterMap_append]
    split
    · refine List.pairwise_append.mpr ⟨visits_sorted (r ++ [index]) g, behind, fun q hq q' hq' => ?_⟩
      obtain ⟨j, later, below⟩ := place_of_enter (mem_entered.mp hq')
      exact lt_of_places later (prefix_of_enter (mem_entered.mp hq)) below
    · exact behind
end

mutual
/-- Whatever is open, a traversal enters its element on top of it and leaves all open as it was. -/
theorem openAfter?_visits (r : Route) (opened : List Route) (fits : opened.head?.all (· == r.dropLast) = true)
    (vs : List Visit) : ∀ g : Green,
    Visit.openAfter? opened (visits scope leftOut r g ++ vs) = Visit.openAfter? opened vs
  | .token _ _ => by simp [visits, Visit.openAfter?, fits]
  | .node _ _ cs => by
    have row := openAfter?_visitsOf r opened (.leave r :: vs) 0 cs
    rw [visits, List.cons_append, Visit.openAfter?, if_pos fits, List.append_assoc]
    split
    · rw [List.nil_append]
      simp [Visit.openAfter?]
    · rw [List.singleton_append, row]
      simp [Visit.openAfter?]

theorem openAfter?_visitsOf (r : Route) (opened : List Route) (vs : List Visit) (index : Nat) :
    ∀ gs : List Green, Visit.openAfter? (r :: opened) (visitsOf scope leftOut r index gs ++ vs) =
      Visit.openAfter? (r :: opened) vs
  | [] => rfl
  | g :: gs => by
    rw [visitsOf, List.append_assoc]
    split
    · rw [openAfter?_visits (r ++ [index]) (r :: opened) (by simp) _ g,
        openAfter?_visitsOf r opened vs (index + 1) gs]
    · exact openAfter?_visitsOf r opened vs (index + 1) gs
end

mutual
theorem length_visits_le (r : Route) : ∀ g : Green, (visits scope leftOut r g).length ≤ 2 * g.count
  | .token _ _ => Nat.le_refl _
  | .node _ _ cs => by
    have row := length_visitsOf_le r 0 cs
    rw [visits, count]
    split
    · simp only [List.length_cons, List.length_append, List.length_nil]
      omega
    · simp only [List.length_cons, List.length_append, List.length_nil]
      omega

theorem length_visitsOf_le (r : Route) (index : Nat) : ∀ gs : List Green,
    (visitsOf scope leftOut r index gs).length ≤ 2 * countOf gs
  | [] => Nat.le_refl _
  | g :: gs => by
    have first := length_visits_le (r ++ [index]) g
    have row := length_visitsOf_le r (index + 1) gs
    rw [visitsOf, countOf, List.length_append]
    split
    · omega
    · rw [List.length_nil]
      omega
end

end Green

/-! ## The walk -/

namespace Walk

variable {tree : Green} {scope : Scope} {start : Position} {pruned : Position → Bool} {leftOut : Route → Bool}

/-- A walk behind an event: below an element that is left out it skips. -/
def behind (pruned : Position → Bool) (w : Walk) : WalkEvent → Walk
  | .enter p => if pruned p then w.skipSubtree else w
  | .leave _ => w

/-- From one state of a walk to another, with what is visited of a tree on the way. -/
inductive Makes (tree : Green) (pruned : Position → Bool) : Walk → List Visit → Walk → Prop
  | nothing (w : Walk) : Makes tree pruned w [] w
  | event {w w' w'' : Walk} {e : WalkEvent} {vs : List Visit} (advance : w.advance = some (e, w'))
    (within : Position.Within tree e.position) (rest : Makes tree pruned (w'.behind pruned e) vs w'') :
    Makes tree pruned w (e.visit :: vs) w''

theorem take_succ (pruned : Position → Bool) (n : Nat) (w : Walk) : w.take pruned (n + 1) =
    match w.advance with
    | none => []
    | some (e, w') => e :: (w'.behind pruned e).take pruned n := by
  rw [take]
  cases w.advance with
  | none => rfl
  | some step => obtain ⟨e, w'⟩ := step; cases e <;> rfl

/-- A walk that comes to its end gives the events that it makes and no more. -/
theorem Makes.take {w w' : Walk} {vs : List Visit} (h : Makes tree pruned w vs w') (ends : w'.advance = none)
    (n : Nat) : (w.take pruned n).map WalkEvent.visit = vs.take n ∧
      ∀ e ∈ w.take pruned n, Position.Within tree e.position := by
  induction h generalizing n with
  | nothing w =>
    cases n with
    | zero => exact ⟨rfl, by simp [Walk.take]⟩
    | succ n =>
      rw [take_succ, ends]
      exact ⟨rfl, by simp⟩
  | @event w w' w'' e vs advance within _ ih =>
    cases n with
    | zero => exact ⟨rfl, by simp [Walk.take]⟩
    | succ n =>
      obtain ⟨same, inside⟩ := ih ends n
      rw [take_succ, advance, List.map_cons, same, List.take_succ_cons]
      exact ⟨rfl, List.forall_mem_cons.mpr ⟨within, inside⟩⟩

theorem Makes.append {w w' w'' : Walk} {us vs : List Visit} (h : Makes tree pruned w us w')
    (h' : Makes tree pruned w' vs w'') : Makes tree pruned w (us ++ vs) w'' := by
  induction h with
  | nothing w => exact h'
  | event advance within _ ih => exact .event advance within (ih h')

/-- The first of some children from place `index` on that counts, however it is asked for. -/
def StandsFirst (scope : Scope) (p : Position) : Nat → List Green → Option Position → Prop
  | _, [], c? => c? = none
  | index, g :: gs, c? =>
    if scope.keeps g then ∃ known, c? = some (.child p index g known) else StandsFirst scope p (index + 1) gs c?

theorem standsFirst_head (scope : Scope) (p : Position) (index rel : Nat) (gs : List Green) :
    StandsFirst scope p index gs ((p.childrenFrom index rel gs).filter (scope.keeps ·.element)).head? := by
  induction gs generalizing index rel with
  | nil => rfl
  | cons g gs ih =>
    rw [StandsFirst, Position.childrenFrom, List.filter_cons, Position.element_child]
    split
    · exact ⟨_, rfl⟩
    · exact ih _ _

theorem standsFirst_firstChild (scope : Scope) (p : Position) :
    StandsFirst scope p 0 p.element.children (scope.firstChild? p) := by
  have first := standsFirst_head scope p 0 0 p.element.children
  cases scope with
  | nodes => exact first
  | elements => rwa [Position.head?_elements] at first

theorem standsFirst_nextSibling (scope : Scope) (p : Position) (i : Nat) (e : Green) (known : Option Nat) :
    StandsFirst scope p (i + 1) (p.element.children.drop (i + 1))
      (scope.nextSibling? (.child p i e known)) := by
  cases scope with
  | nodes =>
    have next := standsFirst_head .nodes p (i + 1) (Position.relativeOffset p.element i + e.size)
      (p.element.children.drop (i + 1))
    rwa [List.head?_filter] at next
  | elements =>
    cases rest : p.element.children.drop (i + 1) with
    | nil =>
      have none : p.element.children[i + 1]? = none := by rw [← List.head?_drop, rest]; rfl
      change p.childAt? (i + 1) = _
      rw [Position.childAt?, none]
      rfl
    | cons g gs =>
      have here := (Position.next_place rest rfl).1
      refine ⟨none, ?_⟩
      change p.childAt? (i + 1) = _
      rw [Position.childAt?, here]
      rfl

theorem StandsFirst.parent {p : Position} {index : Nat} {gs : List Green} {c? : Option Position}
    (first : StandsFirst scope p index gs c?) : ∀ c ∈ c?, c.parent? = some p := by
  induction gs generalizing index with
  | nil =>
    obtain rfl : c? = none := first
    simp
  | cons g gs ih =>
    rw [StandsFirst] at first
    split at first
    · obtain ⟨known, rfl⟩ := first
      rintro c ⟨⟩
      rfl
    · exact ih first

/-- What a walk does after the children from some place on: it goes to the first of them that counts, or
leaves their parent. -/
def orLeave (p : Position) (c? : Option Position) : WalkEvent :=
  (c?.map WalkEvent.enter).getD (.leave p)

/-- A walk over children that are entered and left one by one comes back to their parent. -/
theorem makes_row {p : Position}
    (each : ∀ i e known, (Position.child p i e known).Within tree →
      Makes tree pruned ⟨scope, start, some (.enter (.child p i e known)), false⟩
        (visits scope leftOut (p.path ++ [i]) e)
        ⟨scope, start, some (orLeave p (scope.nextSibling? (.child p i e known))), false⟩)
    (gs : List Green) (index : Nat) (rest : p.element.children.drop index = gs) (c? : Option Position)
    (first : StandsFirst scope p index gs c?) (inside : ∀ c ∈ c?, c.Within tree) :
    Makes tree pruned ⟨scope, start, some (orLeave p c?), false⟩ (visitsOf scope leftOut p.path index gs)
      ⟨scope, start, some (.leave p), false⟩ := by
  induction gs generalizing index c? with
  | nil =>
    obtain rfl : c? = none := first
    exact .nothing _
  | cons g gs ih =>
    have behind := (Position.next_place rest rfl).2.1
    rw [StandsFirst] at first
    rw [visitsOf]
    split at first
    · next counts =>
      obtain ⟨known, rfl⟩ := first
      have here := inside _ rfl
      rw [if_pos counts]
      apply (each index g known here).append
      apply ih (index + 1) behind
      · rw [← behind]
        exact standsFirst_nextSibling scope p index g known
      · exact (here.leads_nextSibling scope).2
    · next passed =>
      rw [if_neg passed, List.nil_append]
      exact ih (index + 1) behind c? first inside

/-- A position below another has a smaller element. -/
theorem sizeOf_le_of_above {p q : Position} (valid : q.Valid) (above : p ∈ q.ancestors) :
    sizeOf q.element ≤ sizeOf p.element := by
  induction q with
  | root t =>
    obtain rfl := List.mem_singleton.mp above
    exact Nat.le_refl _
  | child q i e known ih =>
    rcases List.mem_cons.mp above with rfl | above
    · exact Nat.le_refl _
    · exact Nat.le_trans (Nat.le_of_lt (sizeOf_child_lt valid.2.1)) (ih valid.1 above)

/-- Below its start a walk meets no element that it could take for the start. -/
theorem not_same_of_below {p : Position} {i : Nat} {e : Green} {known : Option Nat}
    (valid : (Position.child p i e known).Valid) (above : start ∈ p.ancestors) :
    (Position.child p i e known).same start = false := by
  have smaller := sizeOf_child_lt valid.2.1
  have le := sizeOf_le_of_above valid.1 above
  have apart : (e == start.element) = false := by
    rw [beq_eq_false_iff_ne]
    rintro rfl
    omega
  rw [Position.same, Position.element_child, apart, Bool.false_and]

/-- Behind an element that is below the start a walk goes to the next sibling that counts. -/
theorem after_leave {p : Position} {i : Nat} {e : Green} {known : Option Nat} (w : Walk)
    (below : (Position.child p i e known).same w.start = false) :
    w.after (.leave (.child p i e known)) =
      some (orLeave p (w.scope.nextSibling? (.child p i e known))) := by
  rw [after, below, if_neg (by decide)]
  cases w.scope.nextSibling? (.child p i e known) <;> rfl

/-- Leaving an element is one event. -/
theorem makes_leave {w : Walk} {p : Position} (within : p.Within tree)
    (next : (if w.skip then w.next?.bind turnBack else w.next?) = some (.leave p)) :
    Makes tree pruned w [.leave p.path] { w with next? := w.after (.leave p), skip := false } := by
  have advance : w.advance = some (.leave p, { w with next? := w.after (.leave p), skip := false }) := by
    rw [Walk.advance, next]
    rfl
  exact .event advance within (.nothing _)

/-- An element is entered first, and then its first child that counts, if there is one. -/
theorem advance_enter (scope : Scope) (start p : Position) : advance ⟨scope, start, some (.enter p), false⟩ =
    some (.enter p, ⟨scope, start, some (orLeave p (scope.firstChild? p)), false⟩) := by
  change some (WalkEvent.enter p, Walk.mk scope start (after _ (.enter p)) false) = _
  rw [after]
  cases scope.firstChild? p <;> rfl

theorem behind_enter (w : Walk) (p : Position) (goes : w.skip = false) :
    w.behind pruned (.enter p) = { w with skip := pruned p } := by
  rw [behind]
  cases pruned p with
  | true => rfl
  | false => rw [if_neg (by decide), ← goes]

/-- Whether or not it would enter a child next, a walk that turns back leaves the element. -/
theorem turnBack_firstChild (scope : Scope) (p : Position) :
    turnBack (orLeave p (scope.firstChild? p)) = some (.leave p) := by
  cases child : scope.firstChild? p with
  | none => rfl
  | some c =>
    change c.parent?.map WalkEvent.leave = _
    rw [(standsFirst_firstChild scope p).parent c child]
    rfl

/-- A walk that enters an element makes the events of a traversal of it and goes on behind it. -/
theorem makes_enter (told : ∀ p, Position.Within tree p → pruned p = leftOut p.path) {p : Position}
    (within : p.Within tree) (above : start ∈ p.ancestors) :
    Makes tree pruned ⟨scope, start, some (.enter p), false⟩ (visits scope leftOut p.path p.element)
      ⟨scope, start, after ⟨scope, start, none, false⟩ (.leave p), false⟩ := by
  generalize element : p.element = g
  induction g using Green.descent generalizing p with
  | step g ih =>
    subst element
    rw [visits_eq]
    apply Makes.event (advance_enter scope start p) within
    rw [behind_enter _ _ rfl, told p within]
    cases leftOut p.path with
    | true => exact makes_leave within (turnBack_firstChild scope p)
    | false =>
      refine Makes.append (makes_row ?_ _ 0 rfl _ (standsFirst_firstChild scope p)
        (within.leads_firstChild scope).2) (makes_leave within rfl)
      intro i e known here
      have child := ih i e here.valid.2.1 here (List.mem_cons_of_mem _ above) rfl
      rwa [after_leave _ (not_same_of_below here.valid above)] at child

end Walk

namespace Position

variable {tree : Green} {start : Position}

/-- A walk makes just the events of the traversal of the element where it starts, and then ends. Elements of
the tree are visited. Those that remain when what is below others is left out are entered in the order in which
they stand, and left; while an element is open only its children are entered, and it is left when none of them
is open any more. The last one that is left is the start. -/
theorem Within.walk_traverses (h : start.Within tree) (scope : Scope) (pruned : Position → Bool)
    (leftOut : Route → Bool) (told : ∀ p, Within tree p → pruned p = leftOut p.path) :
    let events := start.element.visits scope leftOut start.path
    (∀ n, ((Walk.of scope start).take pruned n).map WalkEvent.visit = events.take n) ∧
    (start.walk scope pruned).map WalkEvent.visit = events ∧
    (∀ e ∈ start.walk scope pruned, e.position.Within tree) ∧
    (∀ r, r ∈ events.filterMap Visit.entered? ↔ tree.Remains scope leftOut start.path r) ∧
    (events.filterMap Visit.entered?).Pairwise (· < ·) ∧
    (events.filterMap Visit.left?).Perm (events.filterMap Visit.entered?) ∧
    Visit.openAfter? [] events = some [] ∧
    events.getLast? = some (.leave start.path) := by
  intro events
  have ends : (Walk.mk scope start (Walk.after ⟨scope, start, none, false⟩ (.leave start)) false).advance =
      none := by
    have same : start.same start = true := by simp [Position.same]
    rw [Walk.after, same]
    rfl
  have takes := (Walk.makes_enter told h (mem_ancestors_self start)).take ends
  have whole : events.take (2 * start.element.count + 1) = events := by
    have few : events.length ≤ 2 * start.element.count := length_visits_le _ _
    exact List.take_of_length_le (by omega)
  have nested : Visit.openAfter? [] events = some [] := by
    have closed := @openAfter?_visits scope leftOut start.path [] rfl [] start.element
    rwa [List.append_nil] at closed
  refine ⟨fun n => (takes n).1, (takes _).1.trans whole, (takes _).2, fun r => ?_, visits_sorted _ _, ?_, nested, ?_⟩
  · rw [mem_entered]
    exact remains_iff h.at?_path
  · have perm := Visit.perm_of_openAfter? nested
    rwa [List.append_nil] at perm
  · change (visits scope leftOut start.path start.element).getLast? = _
    rw [visits_eq, ← List.cons_append, List.getLast?_concat]

/-- A node between two empty ones, with a name between two more of them inside. -/
def hollowRow : Green :=
  .branch .sourceFile [.branch .literal [], .branch .pathExpr [.branch .literal [],
    .branch .nameRef [.token .ident ['a']], .branch .literal []], .branch .literal []]

/-- From the node in the middle over all below it but the token of the name. All of the empty nodes are of the
same content, and the first three have the same offset. -/
theorem walk_traverses_hollow :
    let start := child (root hollowRow) 1 (hollowRow.children[1]) none
    let leftOut := fun r => (hollowRow.at? r).any (·.kind == .nameRef)
    Within hollowRow start ∧ (∀ p, Within hollowRow p → (p.kind == .nameRef) = leftOut p.path) ∧
    let events := [.enter [1], .enter [1, 0], .leave [1, 0], .enter [1, 1], .leave [1, 1], .enter [1, 2],
      .leave [1, 2], .leave [1]]
    (∀ n, ((Walk.of .elements start).take (·.kind == .nameRef) n).map WalkEvent.visit = events.take n) ∧
    (start.walk .elements (·.kind == .nameRef)).map WalkEvent.visit = events ∧
    (∀ e ∈ start.walk .elements (·.kind == .nameRef), e.position.Within hollowRow) ∧
    (∀ r, r ∈ events.filterMap Visit.entered? ↔ hollowRow.Remains .elements leftOut start.path r) ∧
    (events.filterMap Visit.entered?).Pairwise (· < ·) ∧
    (events.filterMap Visit.left?).Perm (events.filterMap Visit.entered?) ∧
    Visit.openAfter? [] events = some [] ∧
    events.getLast? = some (.leave start.path) := by
  intro start leftOut
  have within : Within hollowRow start := (Within.root hollowRow).uncounted rfl
  have told : ∀ p, Within hollowRow p → (p.kind == .nameRef) = leftOut p.path := by
    intro p hp
    change _ = (hollowRow.at? p.path).any _
    rw [hp.at?_path]
    rfl
  exact ⟨within, told, within.walk_traverses .elements _ leftOut told⟩

end Position

end Verbatim
