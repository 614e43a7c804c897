import Verbatim.Event.Log
import Verbatim.Token.Basic

/-!
# From the log to the tree

The log mentions no blanks and no comments. Replaying it over the tokens of the text puts them in:
before a node opens and before a token is taken, the trivia in front of it is placed, and only the
comments that belong to an item are placed inside it. A finished node is closed late, when the next
event is known, so that the trivia at the end of the text falls to the root.
-/
namespace Verbatim

/-- Items that take along the comments directly above them. -/
def Kind.attachesComments : Kind → Bool
  | .const | .enum | .fn | .impl | .module | .recordField | .static | .struct | .trait
  | .typeAlias | .use | .variant => true
  | _ => false

namespace Token

/-- Comments that document what is around them rather than what follows. -/
def isInnerDoc (t : Token) : Bool :=
  t.kind == .comment &&
    (Text.startsWith t.text ['/', '/', '!'] || Text.startsWith t.text ['/', '*', '!'])

def hasBlankLine (t : Token) : Bool :=
  t.kind == .whitespace && Text.contains t.text ['\n', '\n']

/-- Trivia that nothing above it can be attached across. -/
def separates (t : Token) : Bool := t.hasBlankLine || t.isInnerDoc

/-- How many of the trivia in front of a node of some kind belong inside it: all from the first
comment on that no blank line and no inner documentation follows. -/
def attachedCount (kind : Kind) (trivia : List Token) : Nat :=
  if kind.attachesComments then
    let near := (trivia.reverse.takeWhile fun t => !t.separates).reverse
    (near.dropWhile fun t => t.kind != .comment).length
  else 0

end Token

/-- How far the replay is: nothing open yet, inside the innermost open node, or behind a node that is
still to be closed. -/
inductive Phase where
  | before | inside | behind
  deriving DecidableEq, Repr

structure Replay where
  /-- Tokens of the text that have no place in the tree yet. -/
  rest : List Token
  /-- End of the text. -/
  stop : Nat
  phase : Phase
  builder : Builder Green
  diagnostics : Array Diagnostic

namespace Replay

/-- End of the last token that is not the end token. -/
def textEnd (tokens : List Token) : Nat :=
  match (tokens.filter (·.kind != .eof)).getLast? with
  | some t => t.span.stop
  | none => 0

def init (tokens : List Token) : Replay := ⟨tokens, textEnd tokens, .before, .empty, #[]⟩

/-- Adds a diagnostic unless one is known that starts at the same offset. -/
def report (r : Replay) (d : Diagnostic) : Replay :=
  if r.diagnostics.any (·.span.start == d.span.start) then r
  else { r with diagnostics := r.diagnostics.push d }

def reportFault (r : Replay) (t : Token) : Replay :=
  match t.diagnostic? with
  | some d => r.report d
  | none => r

def push (r : Replay) (kind : Kind) (text : Text) : Replay :=
  { r with builder := r.builder.push (.token kind text) }

/-- Places the next `n` tokens as they are. -/
def place (r : Replay) : Nat → Replay
  | 0 => r
  | n + 1 =>
    match r.rest with
    | [] => r
    | t :: rest => place ({ r with rest }.reportFault t |>.push t.kind t.text) n

def triviaAhead (r : Replay) : List Token := r.rest.takeWhile (·.isTrivia)

def placeTrivia (r : Replay) : Replay := r.place r.triviaAhead.length

def openNode (r : Replay) (kind : Kind) : Replay :=
  { r with phase := .inside, builder := r.builder.start kind }

def close (r : Replay) : Except Fault Replay :=
  match r.builder.finishNode with
  | .ok builder => .ok { r with builder }
  | .error misuse => .error (.misbuilt misuse)

/-- Closes the node that is still to be closed. -/
def settle (r : Replay) : Except Fault Replay :=
  match r.phase with
  | .before => .error .brokenRoot
  | .inside => .ok r
  | .behind => do
    let r ← r.close
    return { r with phase := .inside }

def enter (r : Replay) (kind : Kind) : Except Fault Replay := do
  match r.phase with
  | .before => return r.openNode kind
  | _ =>
    let r ← r.settle
    let trivia := r.triviaAhead
    let attached := Token.attachedCount kind trivia
    return (((r.place (trivia.length - attached)).openNode kind).place attached)

def leave (r : Replay) : Except Fault Replay := do
  let r ← r.settle
  return { r with phase := .behind }

/-- Takes one token of the tree, made of the next `pieces` tokens of the text. -/
def take (r : Replay) (kind : Kind) (pieces : Nat) : Except Fault Replay := do
  let r := (← r.settle).placeTrivia
  let taken := r.rest.take pieces
  if taken.length < pieces then throw .tokensExhausted
  let r := { r with rest := r.rest.drop pieces }
  match taken with
  | [t] => return (r.reportFault t).push kind t.text
  | _ => return r.push kind (taken.flatMap (·.text))

/-- Anchors a cause at the next token that is not trivia, or at the end of the text. -/
def error (r : Replay) (cause : Cause) : Replay :=
  match r.rest.find? (!·.isTrivia) with
  | some t => r.report ⟨cause, t.span⟩
  | none => r.report ⟨cause, ⟨r.stop, 0⟩⟩

/-- Places the trivia at the end of the text and closes the root. -/
def finish (r : Replay) : Except Fault (Green × List Diagnostic) := do
  match r.phase with
  | .behind =>
    let r ← r.placeTrivia.close
    match r.builder.finish Green.isToken with
    | .ok root => return (root, r.diagnostics.toList)
    | .error misuse => throw (.misbuilt misuse)
  | _ => throw .brokenRoot

end Replay

namespace Log

/-- Follows the starts that enclose each other from the one at `i` on. The kinds come out with the
outermost first, and the starts are marked as read. -/
def claim (log : Log) (i : Nat) (enclosing : Option Nat) (kinds : List Kind) :
    Except Fault (List Kind × Log) :=
  match enclosing with
  | none => .ok (kinds, log)
  | some distance =>
    if h : 0 < distance ∧ i + distance < log.size then
      have := h.2
      match log[i + distance] with
      | .start kind next =>
        claim (log.setIfInBounds (i + distance) .unclaimed) (i + distance) next
          (if kind = .tombstone then kinds else kind :: kinds)
      | _ => .error .noStart
    else .error .noStart
termination_by log.size - i
decreasing_by simp only [Array.size_setIfInBounds]; omega

/-- Replays the event at `i`. -/
def step (log : Log) (r : Replay) (i : Nat) : Except Fault (Log × Replay) := do
  match log[i]? with
  | none => return (log, r)
  | some (.start .tombstone _) => return (log, r)
  | some (.start kind enclosing) =>
    let (kinds, log) ← claim (log.setIfInBounds i .unclaimed) i enclosing [kind]
    return (log, ← kinds.foldlM Replay.enter r)
  | some .finish => return (log, ← r.leave)
  | some (.token kind pieces) => return (log, ← r.take kind pieces)
  | some (.error cause) => return (log, r.error cause)
  | some (.fault what) => throw what

/-- The tree that a log describes over the tokens of a text, with the diagnostics. -/
def toTree (log : Log) (tokens : List Token) : Except Fault (Green × List Diagnostic) := do
  let (_, r) ← (List.range log.size).foldlM (fun (log, r) i => step log r i) (log, .init tokens)
  r.finish

end Log

end Verbatim
