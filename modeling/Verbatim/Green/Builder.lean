import Verbatim.Green.Basic

/-!
# Building trees from the bottom up

A builder holds one row of finished elements and, for every open node, its kind and where its children
begin in that row. Closing a node folds the end of the row into one element. A checkpoint is a place
in the row, from which a node can be opened after its first children have been built.
-/
namespace Verbatim

structure Builder (α : Type) where
  opened : List (Kind × Nat)
  row : Array α
  deriving Repr

namespace Builder

/-- Why a builder refuses a call. -/
inductive Misuse where
  | nothingOpen
  | checkpointPassed
  | checkpointOutside
  | stillOpen (count : Nat)
  | notOneRoot
  | tokenAsRoot
  deriving DecidableEq, Repr

def Misuse.message : Misuse → String
  | nothingOpen => "no opened nodes?"
  | checkpointPassed => "checkpoint no longer valid, was `finish_node` called early?"
  | checkpointOutside => "checkpoint no longer valid, was an unmatched `start_node` called?"
  | stillOpen count => "`finish` called with " ++ toString count ++ " open nodes"
  | notOneRoot => "the tree must have exactly one root"
  | tokenAsRoot => "the root must be a node"

variable {α : Type}

def empty : Builder α := ⟨[], #[]⟩

/-- Opens a node behind everything built so far. -/
def start (b : Builder α) (kind : Kind) : Builder α :=
  { b with opened := (kind, b.row.size) :: b.opened }

/-- Adds a finished element to the innermost open node. -/
def push (b : Builder α) (element : α) : Builder α := { b with row := b.row.push element }

/-- Closes the innermost open node: its kind, its children, and the builder without them. -/
def close (b : Builder α) : Except Misuse (Kind × List α × Builder α) :=
  match b.opened with
  | [] => .error .nothingOpen
  | (kind, first) :: opened =>
    .ok (kind, (b.row.extract first b.row.size).toList, ⟨opened, b.row.shrink first⟩)

def checkpoint (b : Builder α) : Nat := b.row.size

/-- Opens a node around everything built since a checkpoint. -/
def startAt (b : Builder α) (checkpoint : Nat) (kind : Kind) : Except Misuse (Builder α) :=
  if b.row.size < checkpoint then .error .checkpointPassed
  else match b.opened with
    | (_, first) :: _ =>
      if checkpoint < first then .error .checkpointOutside
      else .ok { b with opened := (kind, checkpoint) :: b.opened }
    | [] => .ok { b with opened := [(kind, checkpoint)] }

/-- The only element of a builder without open nodes. -/
def finish (b : Builder α) (isToken : α → Bool) : Except Misuse α :=
  match b.opened, b.row.toList with
  | [], [root] => if isToken root then .error .tokenAsRoot else .ok root
  | [], _ => .error .notOneRoot
  | opened, _ => .error (.stillOpen opened.length)

/-- Closes the innermost open node of a builder of green trees. -/
def finishNode (b : Builder Green) : Except Misuse (Builder Green) := do
  let (kind, children, rest) ← b.close
  return rest.push (.branch kind children)

/-! ## Calls -/

/-- A call of a builder. A checkpoint is a place in the row; it may be handed back when the row has changed
since, and more than once. -/
inductive Call where
  | start (kind : Kind)
  | token (kind : Kind) (text : Text)
  | finish
  | checkpoint
  | startAt (checkpoint : Nat) (kind : Kind)
  deriving DecidableEq, Repr

/-- How the elements of a row are made. -/
structure Maker (α : Type) where
  token : Kind → Text → α
  node : Kind → List α → α

/-- Green trees. -/
def Maker.green : Maker Green := ⟨.token, .branch⟩

/-- What a call makes of a builder. To take a checkpoint changes nothing. -/
def call (m : Maker α) (b : Builder α) : Call → Except Misuse (Builder α)
  | .start kind => .ok (b.start kind)
  | .token kind text => .ok (b.push (m.token kind text))
  | .finish => do
    let (kind, children, rest) ← b.close
    return rest.push (m.node kind children)
  | .checkpoint => .ok b
  | .startAt checkpoint kind => b.startAt checkpoint kind

/-- Makes one call after the other, up to the first that is refused. -/
def run (m : Maker α) (b : Builder α) (calls : List Call) : Except Misuse (Builder α) :=
  calls.foldlM (call m) b

end Builder

end Verbatim
