import Verbatim.Position.Basic

/-!
# Passes over children

A pass gives the children of a position one after the other, all of them or the nodes alone. It counts
how far it has come and asks at every step whether the offset of the parent is known by now; if so, the
child's own is known as well.
-/
namespace Verbatim

structure Pass where
  parent : Position
  /-- Place of the child that comes next. -/
  place : Nat
  /-- How far behind the start of the parent that child starts. -/
  rel : Nat

namespace Pass

def of (p : Position) : Pass := ⟨p, 0, 0⟩

/-- The child `g` that comes next, and the pass behind it. -/
def give (s : Pass) (g : Green) : Position × Pass :=
  (.child s.parent s.place g (s.parent.known?.map (· + s.rel)),
    { s with place := s.place + 1, rel := s.rel + g.size })

def next? (s : Pass) : Option (Position × Pass) := s.parent.element.children[s.place]?.map s.give

def nodeAmong? (s : Pass) : List Green → Option (Position × Pass)
  | [] => none
  | g :: gs => if g.isNode then some (s.give g) else (s.give g).2.nodeAmong? gs

/-- The next child that is a node. -/
def nextNode? (s : Pass) : Option (Position × Pass) :=
  s.nodeAmong? (s.parent.element.children.drop s.place)

/-- The children still to come. -/
def left (s : Pass) : List Position :=
  s.parent.childrenFrom s.place s.rel (s.parent.element.children.drop s.place)

theorem left_of (p : Position) : (of p).left = p.children := rfl

/-- A pass gives what is left of it, from the front. -/
theorem left_eq (s : Pass) :
    s.left = match s.next? with
      | none => []
      | some (c, s) => c :: s.left := by
  cases h : s.parent.element.children[s.place]? with
  | none =>
    rw [left, List.drop_eq_nil_of_le (List.getElem?_eq_none_iff.mp h)]
    simp [next?, h, Position.childrenFrom]
  | some g =>
    obtain ⟨hi, rfl⟩ := List.getElem?_eq_some_iff.mp h
    rw [left, List.drop_eq_getElem_cons hi, next?, h]
    rfl

end Pass

end Verbatim
