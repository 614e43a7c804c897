import Verbatim.Event.Log
import Verbatim.Kind.Set
import Verbatim.Parser.Fragment
import Verbatim.Parser.Input

/-!
# Steps of the parser

A rule of the grammar is a program over a few steps: it reads ahead by at most three tokens, takes
tokens, reports errors, and puts nodes around what other steps take. Nodes are opened and closed by the
steps `enclose` and `wrap`, so they nest by construction, and no step tells a program where in the text
it stands. The rules that need each other are called by name, so each module of the grammar is written
on its own and the circle is closed where programs are run. A rule always succeeds: what it does not
find it reports.
-/
namespace Verbatim

/-- How deep expressions, types, patterns and lists of items are entered. -/
def nestingLimit : Nat := 128

/-- How the place of an expression restricts it. -/
structure Restrictions where
  /-- A brace behind a path opens a block, not a record: `if x {}`. -/
  forbidRecords : Bool := false
  /-- A block-like expression ends the statement: `match x {} - 1` is two statements. -/
  preferStatement : Bool := false
  deriving DecidableEq, Repr

/-- The restrictions for an operand inside of an expression. -/
def Restrictions.inner (r : Restrictions) : Restrictions := { r with preferStatement := false }

/-- A parsed expression: the kind of its node, and whether it is block-like and ended its statement. -/
structure Operand where
  kind : Kind
  blockLike : Bool
  deriving DecidableEq, Repr

/-- The rules through which the circles of the grammar run. -/
inductive Rule where
  /-- A type, which bounds may follow or not. -/
  | type (bounds : Bool)
  /-- A pattern without alternatives. -/
  | pattern
  /-- An expression whose operators bind at least as tight as `power`. -/
  | expression (r : Restrictions) (power : Nat)
  /-- An item, if one starts here. -/
  | item
  | letStatement
  | useTree (topLevel : Bool)
  | ifExpression
  deriving DecidableEq, Repr

namespace Rule

/-- What a rule tells its caller. -/
@[reducible] def Result : Rule → Type
  | type _ | pattern | letStatement => Unit
  | expression _ _ => Option Operand
  | item | useTree _ => Bool
  | ifExpression => Kind

/-- The answer of a rule that was not run. -/
def noResult : (r : Rule) → r.Result
  | type _ | pattern | letStatement => ()
  | expression _ _ => none
  | item | useTree _ => false
  | ifExpression => .ifExpr

end Rule

/-- Places ahead are numbered from zero. -/
instance fourPlaces : @NeZero Nat Zero.ofOfNat0 4 := ⟨nofun⟩

/-- A program of the parser that yields an `α`. -/
inductive Parser : Type → Type 1 where
  | done {α : Type} (a : α) : Parser α
  | andThen {α β : Type} (p : Parser β) (next : β → Parser α) : Parser α
  /-- The kind of the token `n` places ahead. -/
  | nth (n : Fin 4) : Parser Kind
  /-- Whether a token of kind `k`, simple or composite, is written `n` places ahead. -/
  | isAhead (n : Nat) (k : Kind) : Parser Bool
  /-- Takes a token of kind `k` if there is one. -/
  | eat (k : Kind) : Parser Bool
  /-- Takes the next token whatever it is; the end is left alone. -/
  | bumpAny : Parser Unit
  | error (cause : Cause) : Parser Unit
  | fault (what : Fault) : Parser Unit
  /-- A node over all that `body` takes, if its result has a kind for it; otherwise no node, and what it
  took belongs to the node around. -/
  | enclose {α : Type} (body : Parser α) (kind : α → Option Kind) : Parser α
  /-- A node around the one completed last and all that `body` takes, of the kind that it yields. -/
  | wrap (body : Parser Kind) : Parser Kind
  /-- Runs `inner` one level deeper; at the limit it runs `atLimit` instead. -/
  | deeper {α : Type} (inner atLimit : Parser α) : Parser α
  /-- Repeats `body` on what it yields until it is done. Each round but the last takes a token. -/
  | loop {σ : Type} (s : σ) (body : σ → Parser (ForInStep σ)) : Parser σ
  /-- Tells also whether `body` took a token. -/
  | watch {α : Type} (body : Parser α) : Parser (α × Bool)
  | call (r : Rule) : Parser r.Result
  /-- A list in braces, in a node of its kind. -/
  | list (f : Fragment) : Parser Unit

namespace Parser

instance : Monad Parser where
  pure := done
  bind := andThen

def expected (what : Expectation) : Parser Unit := error (.expected what)

def current : Parser Kind := nth 0

def isAt (k : Kind) : Parser Bool := isAhead 0 k

/-- Whether the token `n` places ahead has kind `k`. -/
def isNth (n : Fin 4) (k : Kind) : Parser Bool := return (← nth n) == k

def isAtAny (s : KindSet) : Parser Bool := return s.contains (← current)

/-- Runs `body` where `test` holds. -/
def when (test : Parser Bool) (body : Parser Unit) : Parser Unit := do
  if ← test then body

/-- Runs `body` where `test` does not hold. -/
def whenNot (test : Parser Bool) (body : Parser Unit) : Parser Unit := do
  if !(← test) then body

/-- Whether two tests hold; the second is only run where the first does. -/
def both (p q : Parser Bool) : Parser Bool := do
  if ← p then q else return false

/-- Takes a token of kind `k`, which must be there. -/
def bump (k : Kind) : Parser Unit := whenNot (eat k) (fault (.tokenAbsent k))

/-- Takes a token of kind `k` or reports it missing. -/
def expect (k : Kind) : Parser Bool := do
  if ← eat k then return true
  error (.missing k)
  return false

/-- A node over all that `body` takes, of the kind that it yields. -/
def nodeOf (body : Parser Kind) : Parser Kind := enclose body some

/-- A node over all that `body` takes if it yields a kind. -/
def nodeIf (body : Parser (Option Kind)) : Parser (Option Kind) := enclose body id

/-- A node of kind `k` over all that `body` takes. -/
def node (k : Kind) (body : Parser Unit) : Parser Unit := enclose body fun _ => some k

/-- Repeats `body` while it returns true. -/
def while_ (body : Parser Bool) : Parser Unit :=
  loop () fun _ => return if ← body then .yield () else .done ()

/-- Braces and the end are never skipped. -/
def isAtBraceOrEnd : Parser Bool := do
  match ← current with
  | .leftBrace | .rightBrace | .eof => return true
  | _ => return false

/-- Reports a cause and skips the token at hand into an error node, unless it is a brace, the end or
in `recovery`, where someone else goes on. -/
def recover (cause : Cause) (recovery : KindSet) : Parser Unit := do
  if (← isAtBraceOrEnd) || (← isAtAny recovery) then error cause
  else node .error do
    error cause
    bumpAny

def skipOne (cause : Cause) : Parser Unit := recover cause .empty

/-- Takes tokens up to the end, or up to a closing delimiter whose opening one was not taken. -/
def skipBalanced : Parser Unit :=
  discard <| loop 0 fun unclosed => do
    match ← current with
    | .eof => return .done unclosed
    | .leftParen | .leftBracket | .leftBrace =>
      bumpAny
      return .yield (unclosed + 1)
    | .rightParen | .rightBracket | .rightBrace =>
      if unclosed == 0 then return .done unclosed
      bumpAny
      return .yield (unclosed - 1)
    | _ =>
      bumpAny
      return .yield unclosed

def tooDeep : Parser Unit := node .error do
  error .tooDeep
  skipBalanced

/-- Runs a rule one level deeper; at the limit it skips the construct instead. -/
def nested {α : Type} (rule : Parser α) : Parser (Option α) :=
  deeper (return some (← rule)) do
    tooDeep
    return none

/-- A list `bra (element delim)* element? ket`. Stray delimiters and tokens that start no element go
into error nodes; a brace or a token of `recovery` ends the list. An element tells whether it found
anything, and is told whether it is the first that is tried. -/
def delimited (bra ket delim : Kind) (what : Expectation) (first recovery : KindSet)
    (element : (isFirst : Bool) → Parser Bool) : Parser Unit := do
  bump bra
  discard <| loop true fun isFirst => do
    if (← isAt ket) || (← isAt .eof) then return .done isFirst
    if ← isAt delim then
      node .error do
        expected what
        bump delim
      return .yield isFirst
    let (found, moved) ← watch (element isFirst)
    if !found || !moved then
      if (← isAtAny recovery) || (← isAtBraceOrEnd) then return .done false
      skipOne (.expected what)
      return .yield false
    if ← eat delim then return .yield false
    if ← isAtAny first then
      discard <| expect delim
      return .yield false
    return .done false
  discard <| expect ket

end Parser

end Verbatim
