import Verbatim.Parser.Items

/-!
# Running the grammar

A program is run on the tokens of a text, from some place and at some depth, and writes a log. The rules
called by name are tied together level by level: at each level they call those one level below. Between
a rule and the next one inside of it a token is taken, but for a list in braces, which may start where
the rule around it does. Two levels for each token are therefore enough; below the last level there is
only a fault.
-/
namespace Verbatim

namespace Rule

def body : (r : Rule) → Parser r.Result
  | type bounds => Parser.type bounds
  | pattern => Parser.pattern
  | expression r power => Parser.boundedExpression r power
  | item => Parser.item
  | letStatement => Parser.letStatement
  | useTree topLevel => Parser.useTree topLevel
  | ifExpression => Parser.ifExpression

end Rule

namespace Fragment

/-- What stands in the braces of a list, braces included. -/
def body : Fragment → Parser Unit
  | stmtList => Parser.statementList
  | recordFieldList => Parser.recordFieldList
  | itemList | assocItemList => Parser.bracedItems
  | variantList => Parser.variantList
  | matchArmList => Parser.matchArmList
  | useTreeList => Parser.useTreeList

end Fragment

namespace Parser

/-- What a run changes: the place it has reached, the log, and the node completed last, as long as
nothing else was written behind it. -/
structure Progress where
  pos : Nat
  log : Log
  last : Option Log.Completed

namespace Progress

def emit (s : Progress) (e : Event) : Progress := { s with log := s.log.push e, last := none }

/-- Takes one token of the tree, made of `pieces` tokens. -/
def take (s : Progress) (kind : Kind) (pieces : Nat) : Progress :=
  { s.emit (.token kind pieces) with pos := s.pos + pieces }

def start (s : Progress) : Log.Marker × Progress :=
  let (m, log) := s.log.start
  (m, { s with log, last := none })

def complete (s : Progress) (m : Log.Marker) (kind : Kind) : Progress :=
  let (c, log) := s.log.complete m kind
  { s with log, last := some c }

/-- Gives up a node. Where nothing was written in it, the one completed before it is the last again. -/
def abandon (s : Progress) (m : Log.Marker) (last : Option Log.Completed) : Progress :=
  { s with
    log := s.log.abandon m
    last := if m.place + 1 == s.log.size then last else s.last }

/-- Starts a node around the one completed last. -/
def precede (s : Progress) : Log.Marker × Progress :=
  match s.last with
  | some c =>
    let (m, log) := s.log.precede c
    (m, { s with log, last := none })
  | none =>
    let (m, s) := s.start
    (m, s.emit (.fault .noStart))

end Progress

/-- Repeats a step on what it yields, at most `fuel` times. -/
def iterate {σ τ : Type} (step : σ → τ → ForInStep σ × τ) (stuck : τ → τ) : (fuel : Nat) → σ → τ → σ × τ
  | 0, a, s => (a, stuck s)
  | fuel + 1, a, s =>
    match step a s with
    | (.done a, s) => (a, s)
    | (.yield a, s) => iterate step stuck fuel a s

/-- How rules and lists that are called by name are run, at some depth. -/
structure Callees where
  rule : (r : Rule) → (depth : Nat) → Progress → r.Result × Progress
  list : (f : Fragment) → (depth : Nat) → Progress → Progress

/-- Runs a program. -/
def exec (input : Input) (c : Callees) {α : Type} : Parser α → (depth : Nat) → Progress → α × Progress
  | done a, _, s => (a, s)
  | andThen p next, depth, s =>
    let (a, s) := p.exec input c depth s
    (next a).exec input c depth s
  | nth n, _, s => (input.kind (s.pos + n.val), s)
  | isAhead n k, _, s => (input.isAt (s.pos + n) k, s)
  | eat k, _, s =>
    if input.isAt s.pos k then (true, s.take k k.width) else (false, s)
  | bumpAny, _, s =>
    let k := input.kind s.pos
    ((), if k == .eof then s else s.take k 1)
  | error cause, _, s => ((), s.emit (.error cause))
  | fault what, _, s => ((), s.emit (.fault what))
  | enclose body kind, depth, s =>
    let (m, opened) := s.start
    let (a, t) := body.exec input c depth opened
    match kind a with
    | some k => (a, t.complete m k)
    | none => (a, t.abandon m s.last)
  | wrap body, depth, s =>
    let (m, s) := s.precede
    let (k, s) := body.exec input c depth s
    (k, s.complete m k)
  | deeper inner atLimit, depth, s =>
    if nestingLimit ≤ depth then atLimit.exec input c depth s
    else inner.exec input c (depth + 1) s
  | loop a body, depth, s =>
    iterate (fun a s => (body a).exec input c depth s) (·.emit (.fault .noProgress))
      (input.length - s.pos + 1) a s
  | watch body, depth, s =>
    let (a, t) := body.exec input c depth s
    ((a, t.pos != s.pos), t)
  | call r, depth, s => c.rule r depth s
  | list f, depth, s => ((), c.list f depth s)

/-- The rules and lists with some levels of further ones below them. -/
def callees (input : Input) : (levels : Nat) → Callees
  | 0 => ⟨fun r _ s => (r.noResult, s.emit (.fault .noProgress)), fun _ _ s => s.emit (.fault .noProgress)⟩
  | levels + 1 =>
    let below := callees input levels
    ⟨fun r depth s => r.body.exec input below depth s,
      fun f depth s => ((node f.kind f.body).exec input below depth s).2⟩

/-- A whole file. -/
def sourceFile : Parser Unit := node .sourceFile (contents false)

/-- Runs a program from the first token on: what it logs, and whether it took everything. -/
def run (program : Parser Unit) (input : Input) : Log × Bool :=
  let (_, s) := program.exec input (callees input (2 * input.length + 2)) 0 ⟨0, #[], none⟩
  (s.log, input.kind s.pos == .eof)

end Parser

end Verbatim
