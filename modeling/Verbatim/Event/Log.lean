import Verbatim.Diagnostic
import Verbatim.Green.Builder

/-!
# The event log

What a parse decides is written down as a flat log: nodes start and finish, tokens are taken, errors
are reported. A node's kind is filled in when it is complete. A node that turns out to enclose one
already complete starts later in the log; the earlier start then points forward to it.
-/
namespace Verbatim

/-- A broken promise inside the library: a step was taken where its conditions do not hold. -/
inductive Fault where
  /-- A token was demanded that is not there. -/
  | tokenAbsent (wanted : Kind)
  /-- A marker points at something else than the start of a node. -/
  | noStart
  /-- Something stands outside of the root, or the root was never finished. -/
  | brokenRoot
  /-- More tokens were taken than the text has. -/
  | tokensExhausted
  /-- The nodes of the log do not fit together. -/
  | misbuilt (misuse : Builder.Misuse)
  /-- A rule went deeper, or a loop on for longer, than the tokens left allow. -/
  | noProgress
  deriving DecidableEq, Repr

inductive Event where
  /-- Opens a node; `enclosing` is the distance to the start of a node that wraps this one. -/
  | start (kind : Kind) (enclosing : Option Nat)
  /-- One token of the tree, glued from `pieces` tokens of the text. -/
  | token (kind : Kind) (pieces : Nat)
  | finish
  | error (cause : Cause)
  | fault (what : Fault)
  deriving DecidableEq, Repr, Inhabited

/-- A start that no node claims: it was abandoned, or it has been read already. -/
def Event.unclaimed : Event := .start .tombstone none

abbrev Log := Array Event

namespace Log

/-- The start of a node that is not complete yet. -/
structure Marker where
  place : Nat
  deriving DecidableEq, Repr

/-- The start of a complete node and its kind. -/
structure Completed where
  place : Nat
  kind : Kind
  deriving DecidableEq, Repr

def start (log : Log) : Marker × Log := (⟨log.size⟩, log.push .unclaimed)

/-- Gives a started node its kind and finishes it. -/
def complete (log : Log) (m : Marker) (kind : Kind) : Completed × Log :=
  match log[m.place]? with
  | some (.start _ enclosing) =>
    (⟨m.place, kind⟩, (log.setIfInBounds m.place (.start kind enclosing)).push .finish)
  | _ => (⟨m.place, kind⟩, log.push (.fault .noStart))

/-- Gives up a started node; what was written since belongs to the node around it. -/
def abandon (log : Log) (m : Marker) : Log :=
  if m.place + 1 == log.size then
    if log.back? == some .unclaimed then log.pop else log.push (.fault .noStart)
  else log

/-- Starts a node around a complete one. -/
def precede (log : Log) (c : Completed) : Marker × Log :=
  let (m, grown) := log.start
  match grown[c.place]? with
  | some (.start kind _) => (m, grown.setIfInBounds c.place (.start kind (some (m.place - c.place))))
  | _ => (m, grown.push (.fault .noStart))

end Log

end Verbatim
