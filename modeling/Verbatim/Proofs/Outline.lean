import Verbatim.Parser.Closed

/-!
# Outlines

The log of a run is flat, and a start in it may point forward to the node that encloses it. The same run
is told here as a forest without any markers: what was taken and reported, with the nodes around it.
-/
namespace Verbatim

/-- What a run writes, as a forest. Rows are kept with the newest element first. -/
inductive Outline where
  | token (kind : Kind) (pieces : Nat)
  | error (cause : Cause)
  | fault (what : Fault)
  /-- A node that was given up after something had been written in it. -/
  | void
  | node (kind : Kind) (row : List Outline)
  /-- A node that was put around `inner` when that was complete already, and then went on. -/
  | around (kind : Kind) (inner : Outline) (row : List Outline)
  deriving Repr

namespace Outline

/-- The kind of a node. -/
def kind? : Outline → Option Kind
  | node k _ | around k _ _ => some k
  | _ => none

def isNode (o : Outline) : Bool := o.kind?.isSome

mutual
/-- Longest chain of nodes in an outline. -/
def height : Outline → Nat
  | node _ row => heightOf row + 1
  | around _ inner row => max (height inner) (heightOf row) + 1
  | _ => 0

def heightOf : List Outline → Nat
  | [] => 0
  | o :: older => max (heightOf older) (height o)
end

mutual
/-- Nothing is reported in an outline, and nothing goes wrong. -/
def Quiet : Outline → Prop
  | token _ _ | void => True
  | error _ | fault _ => False
  | node _ row => QuietOf row
  | around _ inner row => Quiet inner ∧ QuietOf row

def QuietOf : List Outline → Prop
  | [] => True
  | o :: older => QuietOf older ∧ Quiet o
end

theorem quietOf_append (new old : List Outline) : QuietOf (new ++ old) ↔ QuietOf old ∧ QuietOf new := by
  induction new with
  | nil => simp [QuietOf]
  | cons o new ih => simp only [List.cons_append, QuietOf, ih, and_assoc]

end Outline

namespace Parser

/-- What a run for an outline changes: the place it has reached, and the row it writes. -/
structure Frame where
  pos : Nat
  row : List Outline

namespace Frame

def write (s : Frame) (o : Outline) : Frame := { s with row := o :: s.row }

def take (s : Frame) (kind : Kind) (pieces : Nat) : Frame :=
  ⟨s.pos + pieces, .token kind pieces :: s.row⟩

/-- The same place with nothing written yet. -/
def opened (s : Frame) : Frame := ⟨s.pos, []⟩

/-- Puts a node around what `t` has written since `s` was opened. -/
def close (s t : Frame) (kind : Kind) : Frame := ⟨t.pos, .node kind t.row :: s.row⟩

/-- Leaves what `t` has written since `s` was opened in the row of `s`. -/
def spill (s t : Frame) : Frame :=
  ⟨t.pos, if t.row.isEmpty then s.row else t.row ++ .void :: s.row⟩

/-- Whether the element written last is a node. -/
def endsInNode (s : Frame) : Bool := (s.row.head?.map Outline.isNode).getD false

def openedAround (s : Frame) : Frame := ⟨s.pos, if s.endsInNode then [] else [.fault .noStart]⟩

/-- Puts a node around the element written last and what `t` has written since. -/
def closeAround (s t : Frame) (kind : Kind) : Frame :=
  match s.row with
  | inner :: older =>
    if inner.isNode then ⟨t.pos, .around kind inner t.row :: older⟩ else s.close t kind
  | [] => s.close t kind

end Frame

/-- How rules and lists that are called by name are run for outlines. -/
structure Drafters where
  rule : (r : Rule) → (depth : Nat) → Frame → r.Result × Frame
  list : (f : Fragment) → (depth : Nat) → Frame → Frame

/-- Runs a program for its outline. -/
def draft (input : Input) (c : Drafters) {α : Type} : Parser α → (depth : Nat) → Frame → α × Frame
  | done a, _, s => (a, s)
  | andThen p next, depth, s =>
    let (a, s) := p.draft input c depth s
    (next a).draft input c depth s
  | nth n, _, s => (input.kind (s.pos + n.val), s)
  | isAhead n k, _, s => (input.isAt (s.pos + n) k, s)
  | eat k, _, s =>
    if input.isAt s.pos k then (true, s.take k k.pieces.length) else (false, s)
  | bumpAny, _, s =>
    let k := input.kind s.pos
    ((), if k == .eof then s else s.take k 1)
  | error cause, _, s => ((), s.write (.error cause))
  | fault what, _, s => ((), s.write (.fault what))
  | enclose body kind, depth, s =>
    let (a, t) := body.draft input c depth s.opened
    match kind a with
    | some k => (a, s.close t k)
    | none => (a, s.spill t)
  | wrap body, depth, s =>
    let (k, t) := body.draft input c depth s.openedAround
    (k, s.closeAround t k)
  | deeper inner atLimit, depth, s =>
    if nestingLimit ≤ depth then atLimit.draft input c depth s
    else inner.draft input c (depth + 1) s
  | loop a body, depth, s =>
    iterate (fun a s => (body a).draft input c depth s) (·.write (.fault .noProgress))
      (input.length - s.pos + 1) a s
  | watch body, depth, s =>
    let (a, t) := body.draft input c depth s
    ((a, t.pos != s.pos), t)
  | call r, depth, s => c.rule r depth s
  | list f, depth, s => ((), c.list f depth s)

/-- The rules and lists with some levels of further ones below them, run for outlines. -/
def drafters (input : Input) : (levels : Nat) → Drafters
  | 0 =>
    ⟨fun r _ s => (r.noResult, s.write (.fault .noProgress)),
      fun _ _ s => s.write (.fault .noProgress)⟩
  | levels + 1 =>
    let below := drafters input levels
    ⟨fun r depth s => r.body.draft input below depth s,
      fun f depth s => ((node f.kind f.body).draft input below depth s).2⟩

/-- The outline of a program run from the first token on, and the place it reaches. -/
def outline (program : Parser Unit) (input : Input) : Frame :=
  (program.draft input (drafters input (2 * input.length + 2)) 0 ⟨0, []⟩).2

end Parser

end Verbatim
