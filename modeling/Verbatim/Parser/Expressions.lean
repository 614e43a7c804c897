import Verbatim.Parser.Statements

/-!
# Expressions

Operators are taken by precedence climbing: an operand, then every operator that binds tight enough,
each with a right operand that binds tighter (or, for assignments, as tight).
-/
namespace Verbatim.Parser

/-- Expressions that end a statement without a semicolon. -/
def isBlockLike : Kind → Bool
  | .blockExpr | .ifExpr | .loopExpr | .whileExpr | .forExpr | .matchExpr => true
  | _ => false

/-- An operator between two operands: how tight it binds, and whether a chain of it groups to the
right. -/
structure Operator where
  token : Kind
  power : Nat
  groupsRight : Bool
  deriving DecidableEq, Repr

private def leftOp (token : Kind) (power : Nat) : Operator := ⟨token, power, false⟩

private def assignOp (token : Kind) : Operator := ⟨token, 1, true⟩

/-- The operators that start with a token, in the order in which they are tried. An arrow `=>` is none:
it binds with no power at all. -/
def operators : Kind → List Operator
  | .pipe => [leftOp .pipe2 3, assignOp .pipeEq, leftOp .pipe 6]
  | .rightAngle => [assignOp .shrEq, leftOp .shr 9, leftOp .gtEq 5, leftOp .rightAngle 5]
  | .eq => [leftOp .fatArrow 0, leftOp .eq2 5, assignOp .eq]
  | .leftAngle => [leftOp .ltEq 5, assignOp .shlEq, leftOp .shl 9, leftOp .leftAngle 5]
  | .plus => [assignOp .plusEq, leftOp .plus 10]
  | .caret => [assignOp .caretEq, leftOp .caret 7]
  | .percent => [assignOp .percentEq, leftOp .percent 11]
  | .amp => [assignOp .ampEq, leftOp .amp2 4, leftOp .amp 8]
  | .slash => [assignOp .slashEq, leftOp .slash 11]
  | .star => [assignOp .starEq, leftOp .star 11]
  | .dot => [leftOp .dot2Eq 2, leftOp .dot2 2]
  | .bang => [leftOp .notEq 5]
  | .minus => [assignOp .minusEq, leftOp .minus 10]
  | .asKw => [leftOp .asKw 12]
  | _ => []

/-- Binds tighter than every operator. -/
def prefixPower : Nat := 255

/-- The first of some operators that is written at hand. -/
def firstAt : List Operator → Parser (Option Operator)
  | [] => return none
  | o :: os => do
    if ← isAt o.token then return some o
    firstAt os

/-- The operator at hand. -/
def operator? : Parser (Option Operator) := do
  firstAt (operators (← current))

def atExpression (r : Restrictions) : Parser Bool :=
  return (← isAtAny expressionFirst) && !(r.forbidRecords && (← isAt .leftBrace))

/-- An expression in front of a block. -/
def condition : Parser Unit := discard <| call (.expression { forbidRecords := true } 1)

/-- An optional operand of a range, a jump or a return. -/
def operand? (r : Restrictions) (power : Nat) : Parser Unit := do
  if ← atExpression r then discard <| call (.expression r.inner power)

def argumentList : Parser Unit := node .argList do
  delimited .leftParen .rightParen .comma .argument expressionFirst expressionRecovery fun _ => do
    if !(← isAtAny expressionFirst) then return false
    discard expression
    return true

/-- Whether a label follows: a name or a number with a single colon behind it. -/
def atLabel : Parser Bool := do
  match ← current with
  | .ident | .intNumber => return (← nth 1) == .colon && !(← isAhead 1 .colon2)
  | _ => return false

def fieldInit : Parser Unit := node .recordExprField do
  when atLabel do
    nameRef
    bump .colon
  discard expression

/-- The fields of a record expression. `..` with the rest of the record ends them. -/
def fieldInitList : Parser Unit := node .recordExprFieldList do
  bump .leftBrace
  while_ do
    if (← isAt .eof) || (← isAt .rightBrace) then return false
    if ← isAt .dot2 then
      bump .dot2
      when (isAtAny expressionFirst) (discard expression)
      return false
    if ← isAt .leftBrace then
      strayBlock .field
      return true
    if !(← isAtAny expressionFirst) then
      skipOne (.expected .field)
      return true
    fieldInit
    whenNot (isAt .rightBrace) (discard <| expect .comma)
    return true
  discard <| expect .rightBrace

def pathExpression (r : Restrictions) : Parser Kind := do
  expressionPath
  wrap do
    if (← isAt .leftBrace) && !r.forbidRecords then
      fieldInitList
      return .recordExpr
    return .pathExpr

/-- A single expression in parentheses is that expression; none, several, or a comma make a tuple. -/
def parenOrTuple : Parser Kind := nodeOf do
  bump .leftParen
  let (count, comma) ← loop (0, false) fun (count, comma) => do
    if (← isAt .eof) || (← isAt .rightParen) then return .done (count, comma)
    if !(← isAtAny expressionFirst) then
      recover (.expected .expression) expressionRecovery
      return .done (count, comma)
    discard expression
    if ← eat .comma then return .yield (count + 1, true)
    return .done (count + 1, comma)
  discard <| expect .rightParen
  return if count == 1 && !comma then .parenExpr else .tupleExpr

/-- What follows the first element: how many there are, or the others. -/
def arrayTail : Parser Unit := do
  if ← eat .semicolon then discard expression
  else while_ do
    if !(← eat .comma) then return false
    if ← isAt .rightBracket then return false
    discard expression
    return true

def array : Parser Kind := nodeOf do
  bump .leftBracket
  if ← eat .rightBracket then return .arrayExpr
  discard expression
  arrayTail
  discard <| expect .rightBracket
  return .arrayExpr

/-- The body of a closure. With a return type it must be a block. -/
def closureBody : Parser Unit := do
  if ← isAt .thinArrow then
    returnType? false
    block
  else if ← isAtAny expressionFirst then discard expression
  else expected .closureBody

def closure : Parser Kind := nodeOf do
  discard <| eat .moveKw
  closureParamList
  closureBody
  return .closureExpr

def ifExpression : Parser Kind := nodeOf do
  bump .ifKw
  condition
  block
  when (eat .elseKw) do
    if ← isAt .ifKw then discard <| call .ifExpression
    else block
  return .ifExpr

/-- `let` in a condition. What it takes apart binds tighter than `&&`, so conditions chain. -/
def letCondition (r : Restrictions) : Parser Kind := nodeOf do
  bump .letKw
  alternatives
  discard <| expect .eq
  discard <| call (.expression r.inner 5)
  return .letExpr

def loopExpression : Parser Kind := nodeOf do
  bump .loopKw
  block
  return .loopExpr

def whileExpression : Parser Kind := nodeOf do
  bump .whileKw
  condition
  block
  return .whileExpr

def forExpression : Parser Kind := nodeOf do
  bump .forKw
  alternatives
  when (expect .inKw) condition
  block
  return .forExpr

def matchGuard : Parser Unit := node .matchGuard do
  bump .ifKw
  discard expression

/-- One arm. The comma is optional after a block and after the last arm. -/
def matchArm : Parser Unit := do
  if (← isAtAny patternFirst) || (← isAt .pipe) then
    node .matchArm do
      alternatives
      when (isAt .ifKw) matchGuard
      discard <| expect .fatArrow
      let body ← expression
      let closed ← eat .comma
      let blockLike := body.any fun e => isBlockLike e.kind
      when (return !closed && !blockLike && !(← isAt .rightBrace)) (error (.missing .comma))
  else skipOne (.expected .matchArm)

def matchArmList : Parser Unit := do
  bump .leftBrace
  untilBrace do
    if ← isAt .leftBrace then strayBlock .matchArm
    else orSkip .matchArm matchArm
  discard <| expect .rightBrace

def matchExpression : Parser Kind := nodeOf do
  bump .matchKw
  condition
  body .matchArmList
  return .matchExpr

/-- `async`, `async move`, `unsafe` or `const`, if one of them follows. -/
def blockModifiers : Parser Unit := do
  if ← eat .asyncKw then discard <| eat .moveKw
  else whenNot (eat .unsafeKw) (discard <| eat .constKw)

def blockExpression : Parser Kind := nodeOf do
  blockModifiers
  list .stmtList
  return .blockExpr

def returnExpression (r : Restrictions) : Parser Kind := nodeOf do
  bump .returnKw
  operand? r 1
  return .returnExpr

def breakExpression (r : Restrictions) : Parser Kind := nodeOf do
  bump .breakKw
  when (isAt .lifetimeIdent) lifetime
  operand? r 1
  return .breakExpr

def continueExpression : Parser Kind := nodeOf do
  bump .continueKw
  when (isAt .lifetimeIdent) lifetime
  return .continueExpr

/-- A modifier that no block follows. -/
def lonelyModifier : Parser (Option Kind) := do
  skipOne (.expected .expression)
  return none

/-- Whether the brace of a block, or a modifier that goes before it, follows the modifier at hand. -/
def atModifiedBlock : Parser Bool := do
  match ← current with
  | .unsafeKw | .constKw => isNth 1 .leftBrace
  | .asyncKw =>
    if ← isNth 1 .leftBrace then return true
    both (isNth 1 .moveKw) (isNth 2 .leftBrace)
  | _ => return false

/-- An expression that starts with its own token. -/
def compound? (r : Restrictions) : Parser (Option Kind) := do
  match ← current with
  | .leftParen => some <$> parenOrTuple
  | .leftBracket => some <$> array
  | .pipe => some <$> closure
  | .moveKw =>
    if ← isNth 1 .pipe then some <$> closure else lonelyModifier
  | .ifKw => some <$> ifExpression
  | .letKw => some <$> letCondition r
  | .loopKw => some <$> loopExpression
  | .whileKw => some <$> whileExpression
  | .forKw => some <$> forExpression
  | .matchKw => some <$> matchExpression
  | .leftBrace => some <$> blockExpression
  | .unsafeKw | .constKw | .asyncKw =>
    if ← atModifiedBlock then some <$> blockExpression else lonelyModifier
  | .returnKw => some <$> returnExpression r
  | .breakKw => some <$> breakExpression r
  | .continueKw => some <$> continueExpression
  | _ =>
    recover (.expected .expression) expressionRecovery
    return none

/-- An expression without operators around it. -/
def atom? (r : Restrictions) : Parser (Option Operand) := do
  if let some c ← literal? then return some ⟨c, false⟩
  if ← atPath then return some ⟨← pathExpression r, false⟩
  return (← compound? r).map fun c => ⟨c, isBlockLike c⟩

def callExpression : Parser Kind := wrap do
  argumentList
  return .callExpr

def indexExpression : Parser Kind := wrap do
  bump .leftBracket
  discard expression
  discard <| expect .rightBracket
  return .indexExpr

/-- Whether the name at hand is that of a method: a parenthesis or a turbofish follows it. -/
def atMethodCall : Parser Bool := do
  if !(← isAt .ident) then return false
  if ← isNth 1 .leftParen then return true
  both (isAhead 1 .colon2) (isNth 3 .leftAngle)

def methodArguments : Parser Unit := do
  if ← isAt .leftParen then argumentList
  else expected .argList

def fieldName : Parser Unit := do
  if (← isAt .ident) || (← isAt .intNumber) then nameRef
  else expected .member

/-- The name of a method is at hand. -/
def methodCall : Parser Kind := do
  nameRef
  when (isAt .colon2) (genericArgList true)
  methodArguments
  return .methodCallExpr

/-- A call of a method, if a parenthesis or a turbofish follows the name, else a field. -/
def member : Parser Kind := wrap do
  bump .dot
  if ← atMethodCall then return ← methodCall
  fieldName
  return .fieldExpr

def tryExpression : Parser Kind := wrap do
  bump .question
  return .tryExpr

/-- Calls, indices, members and question marks behind an operand. A block that ends a statement is
neither called nor indexed. -/
def suffixes (e : Operand) (callable : Bool) : Parser Operand := do
  let (e, _) ← loop (e, callable) fun (e, callable) => do
    match ← current with
    | .leftParen =>
      if callable then return .yield (⟨← callExpression, false⟩, true)
      return .done (e, callable)
    | .leftBracket =>
      if callable then return .yield (⟨← indexExpression, false⟩, true)
      return .done (e, callable)
    | .dot =>
      if ← isAt .dot2 then return .done (e, callable)
      return .yield (⟨← member, false⟩, true)
    | .question => return .yield (⟨← tryExpression, false⟩, true)
    | _ => return .done (e, callable)
  return e

/-- A range without a left operand. -/
def openRange (r : Restrictions) : Parser Kind := nodeOf do
  whenNot (eat .dot2Eq) (bump .dot2)
  operand? r 3
  return .rangeExpr

/-- An operand behind `*`, `!` or `-`. -/
def prefixExpression (r : Restrictions) : Parser Kind := nodeOf do
  bumpAny
  discard <| call (.expression r.inner prefixPower)
  return .prefixExpr

def refExpression (r : Restrictions) : Parser Kind := nodeOf do
  bump .amp
  discard <| eat .mutKw
  discard <| call (.expression r.inner prefixPower)
  return .refExpr

/-- An operand with the operators in front of it and the suffixes behind. -/
def operand (r : Restrictions) : Parser (Option Operand) := do
  match ← current with
  | .star | .bang | .minus => return some ⟨← prefixExpression r, false⟩
  | .amp => return some ⟨← refExpression r, false⟩
  | _ =>
    if (← isAt .dot2Eq) || (← isAt .dot2) then return some ⟨← openRange r, false⟩
    let some e ← atom? r | return none
    return some (← suffixes e (!(r.preferStatement && e.blockLike)))

/-- An operator behind its left operand, with the right one. -/
def applied (r : Restrictions) (o : Operator) : Parser Kind := wrap do
  bump o.token
  match o.token with
  | .asKw =>
    call (.type false)
    return .castExpr
  | .dot2 | .dot2Eq =>
    operand? r (o.power + 1)
    return .rangeExpr
  | _ =>
    discard <| call (.expression r (if o.groupsRight then o.power else o.power + 1))
    return .binExpr

def climbing (r : Restrictions) (power : Nat) : Parser (Option Operand) := do
  let some lhs ← operand r | return none
  if r.preferStatement && lhs.blockLike then return some lhs
  let whole ← loop lhs.kind fun whole => do
    let some o ← operator? | return .done whole
    if o.power < power then return .done whole
    return .yield (← applied r.inner o)
  return some ⟨whole, false⟩

def boundedExpression (r : Restrictions) (power : Nat) : Parser (Option Operand) :=
  return (← nested (climbing r power)).join

end Verbatim.Parser
