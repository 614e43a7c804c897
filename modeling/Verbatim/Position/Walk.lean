import Verbatim.Position.Basic

/-!
# Walks

A walk enters and leaves every element below its start, parents before and after their children. It
holds only the one event that comes next and finds the event after that from the tree. Right after
entering an element its children can be left out.
-/
namespace Verbatim

inductive WalkEvent where
  | enter (p : Position)
  | leave (p : Position)

namespace WalkEvent

def position : WalkEvent → Position
  | enter p | leave p => p

def entered? : WalkEvent → Option Position
  | enter p => some p
  | leave _ => none

/-- The label of the element, behind a plus or a minus. -/
def render : WalkEvent → String
  | enter p => "+" ++ p.label
  | leave p => "-" ++ p.label

end WalkEvent

/-- Which elements a walk visits. -/
inductive Scope where
  | nodes | elements
  deriving DecidableEq, Repr

namespace Scope

def firstChild? : Scope → Position → Option Position
  | nodes => Position.firstChild?
  | elements => Position.firstChildOrToken?

def nextSibling? : Scope → Position → Option Position
  | nodes => Position.nextSibling?
  | elements => Position.nextSiblingOrToken?

end Scope

structure Walk where
  scope : Scope
  start : Position
  next? : Option WalkEvent
  skip : Bool

namespace Walk

def of (scope : Scope) (start : Position) : Walk := ⟨scope, start, some (.enter start), false⟩

/-- Leaves out what is below the element that was entered last. -/
def skipSubtree (w : Walk) : Walk := { w with skip := true }

/-- Turns back from an event that would enter the first child. -/
def turnBack : WalkEvent → Option WalkEvent
  | .enter firstChild => firstChild.parent?.map .leave
  | .leave p => some (.leave p)

/-- The event behind another. -/
def after (w : Walk) : WalkEvent → Option WalkEvent
  | .enter p =>
    match w.scope.firstChild? p with
    | some c => some (.enter c)
    | none => some (.leave p)
  | .leave p =>
    if p.same w.start then none
    else match w.scope.nextSibling? p with
      | some s => some (.enter s)
      | none => p.parent?.map .leave

def advance (w : Walk) : Option (WalkEvent × Walk) := do
  let pending := if w.skip then w.next?.bind turnBack else w.next?
  let e ← pending
  return (e, { w with next? := w.after e, skip := false })

/-- At most `fuel` events of a walk that leaves out what is below the elements with property `pruned`. -/
def take (pruned : Position → Bool) (fuel : Nat) (w : Walk) : List WalkEvent :=
  match fuel with
  | 0 => []
  | fuel + 1 =>
    match w.advance with
    | none => []
    | some (.enter p, w) =>
      .enter p :: take pruned fuel (if pruned p then w.skipSubtree else w)
    | some (.leave p, w) => .leave p :: take pruned fuel w

end Walk

mutual
/-- Number of elements of a tree. -/
def Green.count : Green → Nat
  | .token _ _ => 1
  | .node _ _ cs => Green.countOf cs + 1

def Green.countOf : List Green → Nat
  | [] => 0
  | g :: gs => Green.count g + Green.countOf gs
end

namespace Position

/-- All events of a walk from a position, which enters and leaves each element at most once. -/
def walk (p : Position) (scope : Scope) (pruned : Position → Bool) : List WalkEvent :=
  (Walk.of scope p).take pruned (2 * p.element.count + 1)

/-- The position and all below it, parents before their children. -/
def descendants (p : Position) (scope : Scope) : List Position :=
  (p.walk scope fun _ => false).filterMap WalkEvent.entered?

end Position

end Verbatim
