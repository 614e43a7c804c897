import Verbatim.Parser.Types

/-!
# Patterns and parameters
-/
namespace Verbatim.Parser

def literal? : Parser (Option Kind) := do
  if ← isAtAny literalFirst then
    return some <| ← nodeOf do
      bumpAny
      return .literal
  return none

/-- A pattern with its alternatives; a bar in front of the first is allowed. -/
def alternatives : Parser Unit := discard <| nodeIf do
  let leading ← eat .pipe
  call .pattern
  if (← isAt .pipe) || leading then
    while_ do
      if !(← eat .pipe) then return false
      call .pattern
      return true
    return some .orPat
  return none

def patternList : Parser Unit :=
  delimited .leftParen .rightParen .comma .pattern patternFirst (patternRecovery.union itemFirst)
    fun _ => do
      if !(← isAtAny patternFirst) then return false
      alternatives
      return true

def identPattern : Parser Unit := node .identPat do
  discard <| eat .refKw
  discard <| eat .mutKw
  nameOr patternRecovery
  when (eat .atSign) (call .pattern)

def pathPattern : Parser Unit := do
  expressionPath
  discard <| wrap do
    if ← isAt .leftParen then
      patternList
      return .tupleStructPat
    return .pathPat

/-- A word that neither `::` nor a parenthesis follows binds a name. -/
def atBinding : Parser Bool := do
  match ← current with
  | .ident | .selfKw => return !(← isAhead 1 .colon2) && (← nth 1) != .leftParen
  | .refKw | .mutKw => return true
  | _ => return false

def singlePattern : Parser Unit := do
  match ← current with
  | .underscore => node .wildcardPat (bump .underscore)
  | .amp =>
    node .refPat do
      bump .amp
      discard <| eat .mutKw
      call .pattern
  | .leftParen => node .tuplePat patternList
  | _ =>
    if ← isAt .dot2 then node .restPat (bump .dot2)
    else if ← atBinding then identPattern
    else if (← isAt .minus) || (← isAtAny literalFirst) then
      node .literalPat do
        discard <| eat .minus
        whenNot (return (← literal?).isSome) (expected .literal)
    else if ← atPath then pathPattern
    else recover (.expected .pattern) patternRecovery

def pattern : Parser Unit := discard <| nested singlePattern

/-- How many tokens `&` and a lifetime behind it take. -/
def referenceMarks : Parser (Fin 4) := do
  if (← current) != .amp then return 0
  if (← nth 1) == .lifetimeIdent then return 2
  return 1

/-- Whether `self` follows, with `&`, a lifetime and `mut` in front as they may be, and does not start
a path. -/
def atSelfParam : Parser Bool := do
  let marks ← referenceMarks
  let n : Fin 4 := if ← isNth marks .mutKw then marks + 1 else marks
  if ← isNth n .selfKw then return !(← isAhead (n.val + 1) .colon2)
  return false

def selfParam : Parser Unit := node .selfParam do
  when (both (eat .amp) (isAt .lifetimeIdent)) lifetime
  discard <| eat .mutKw
  name
  when (eat .colon) (call (.type true))

def param : Parser Bool := do
  if !(← isAtAny patternFirst) then return false
  node .param do
    call .pattern
    when (expect .colon) (call (.type true))
  return true

def paramList : Parser Unit := node .paramList do
  delimited .leftParen .rightParen .comma .param patternFirst paramRecovery fun isFirst => do
    if ← both (pure isFirst) atSelfParam then
      selfParam
      return true
    param

/-- A parameter of a closure needs no type. -/
def closureParam (_ : Bool) : Parser Bool := do
  if !(← isAtAny patternFirst) then return false
  node .param do
    call .pattern
    when (eat .colon) (call (.type true))
  return true

/-- `|a, b|`, or `||` in one piece. -/
def closureParamList : Parser Unit := node .paramList do
  if ← isAt .pipe2 then bump .pipe2
  else delimited .pipe .pipe .comma .param patternFirst paramRecovery closureParam

end Verbatim.Parser
