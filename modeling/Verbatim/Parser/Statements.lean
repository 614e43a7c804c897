import Verbatim.Parser.Patterns

/-!
# Statements and blocks
-/
namespace Verbatim.Parser

/-- Wraps the token at hand into an error node where a rule has taken nothing. -/
def skipStuck (what : Expectation) : Parser Unit := node .error do
  expected what
  bumpAny

/-- Repeats `round` up to a closing brace or the end. -/
def untilBrace (round : Parser Unit) : Parser Unit := while_ do
  if (← isAt .eof) || (← isAt .rightBrace) then return false
  round
  return true

/-- Runs a rule, and skips a token if that has taken none. -/
def orSkip (what : Expectation) (rule : Parser Unit) : Parser Unit :=
  whenNot (return (← watch rule).2) (skipStuck what)

/-- An expression where nothing restricts it. -/
def expression : Parser (Option Operand) := call (.expression {} 1)

/-- An expression as a statement. The last one, before the closing brace, stays bare. -/
def expressionStatement : Parser Unit := discard <| nodeIf do
  let some e ← call (.expression { preferStatement := true } 1) | return none
  if ← isAt .rightBrace then return none
  let closed ← eat .semicolon
  when (pure (!closed && !e.blockLike)) (error (.missing .semicolon))
  return some .exprStmt

/-- One statement. A lone semicolon belongs to the list itself. -/
def statement : Parser Unit := do
  match ← current with
  | .semicolon => bump .semicolon
  | .letKw => call .letStatement
  | _ =>
    if !(← call .item) then
      if ← isAtAny expressionFirst then expressionStatement
      else skipOne (.expected .statement)

def statements : Parser Unit := untilBrace (orSkip .statement statement)

def statementList : Parser Unit := do
  bump .leftBrace
  statements
  discard <| expect .rightBrace

/-- A block, or a report that it is missing. -/
def block : Parser Unit := do
  if ← isAt .leftBrace then node .blockExpr (list .stmtList)
  else expected .block

/-- The braced list behind the head of an item or of an expression, or a report that its brace is
missing. -/
def body (f : Fragment) : Parser Unit := do
  if ← isAt .leftBrace then list f
  else error (.missing .leftBrace)

def letStatement : Parser Unit := node .letStmt do
  bump .letKw
  alternatives
  when (eat .colon) (call (.type true))
  when (eat .eq) (discard expression)
  when (isAt .elseKw) <| node .letElse do
    bump .elseKw
    block
  discard <| expect .semicolon

/-- Skips a block that has no business here as one error node, so that its closing brace does not end
the list around it. -/
def strayBlock (what : Expectation) : Parser Unit := node .error do
  expected what
  bump .leftBrace
  statements
  discard <| eat .rightBrace

end Verbatim.Parser
