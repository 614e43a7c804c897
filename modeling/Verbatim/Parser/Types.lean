import Verbatim.Parser.Rules

/-!
# Types, generics and bounds
-/
namespace Verbatim.Parser

def genericArg (_ : Bool) : Parser Bool := do
  if ← isAt .lifetimeIdent then
    node .lifetimeArg lifetime
    return true
  if ← isAtAny typeFirst then
    node .typeArg (call (.type true))
    return true
  return false

/-- Arguments in angle brackets, behind `::` in a turbofish. -/
def genericArgList (turbofish : Bool) : Parser Unit := node .genericArgList do
  when (pure turbofish) (bump .colon2)
  delimited .leftAngle .rightAngle .comma .genericArg genericArgFirst genericRecovery genericArg

def atTurbofish : Parser Bool := both (isAt .colon2) (isNth 2 .leftAngle)

/-- A path in an expression or a pattern: arguments only behind `::`. -/
def expressionPath : Parser Unit := pathWith (when atTurbofish (genericArgList true)) (pure false)

/-- A path in a type: arguments with or without `::`. -/
def typePath : Parser Unit :=
  pathWith
    (do
      if ← isAt .leftAngle then genericArgList false
      else when atTurbofish (genericArgList true))
    (pure false)

def pathType : Parser Unit := node .pathType typePath

def atTypeBound : Parser Bool :=
  return (← isAt .lifetimeIdent) || (← isAt .question) || (← atPath) || (← isAt .leftParen)

def typeBound : Parser Unit := node .typeBound do
  if ← isAt .lifetimeIdent then lifetime
  else
    discard <| eat .question
    call (.type false)

/-- Bounds with a plus between them. -/
def typeBoundList : Parser Unit := node .typeBoundList do
  while_ do
    if !(← atTypeBound) then return false
    typeBound
    eat .plus

/-- The same; no list at all where no bound follows. -/
def typeBoundList? : Parser Unit := when atTypeBound typeBoundList

def lifetimeBounds : Parser Unit := node .typeBoundList do
  while_ do
    if !(← isAt .lifetimeIdent) then return false
    node .typeBound lifetime
    eat .plus

def genericParam (_ : Bool) : Parser Bool := do
  let param ← nodeIf do
    match ← current with
    | .lifetimeIdent =>
      lifetime
      when (eat .colon) lifetimeBounds
      return some .lifetimeParam
    | .ident =>
      name
      when (eat .colon) typeBoundList?
      when (eat .eq) (call (.type true))
      return some .typeParam
    | .constKw =>
      bump .constKw
      name
      when (expect .colon) (call (.type true))
      return some .constParam
    | _ => return none
  return param.isSome

def genericParamList? : Parser Unit := when (isAt .leftAngle) <| node .genericParamList do
  delimited .leftAngle .rightAngle .comma .genericParam genericParamFirst genericRecovery genericParam

def wherePredicate : Parser Unit := node .wherePred do
  if ← isAt .lifetimeIdent then
    lifetime
    when (expect .colon) lifetimeBounds
  else
    call (.type true)
    when (expect .colon) typeBoundList?

def whereClause? : Parser Unit := when (isAt .whereKw) <| node .whereClause do
  bump .whereKw
  while_ do
    if !((← isAt .lifetimeIdent) || (← isAtAny typeFirst)) then return false
    wherePredicate
    eat .comma

/-- A single type in parentheses is that type; none, several, or a comma make a tuple. -/
def parenOrTupleType : Parser Unit := discard <| nodeOf do
  bump .leftParen
  let (count, comma) ← loop (0, false) fun (count, comma) => do
    if (← isAt .rightParen) || (← isAt .eof) then return .done (count, comma)
    if !(← isAtAny typeFirst) then
      recover (.expected .type) typeRecovery
      return .done (count, comma)
    call (.type true)
    if ← eat .comma then return .yield (count + 1, true)
    return .done (count + 1, false)
  discard <| expect .rightParen
  return if count == 1 && !comma then .parenType else .tupleType

def ptrType : Parser Unit := node .ptrType do
  bump .star
  whenNot (eat .constKw) <| whenNot (eat .mutKw) <| expected .pointee
  call (.type false)

def refType : Parser Unit := node .refType do
  bump .amp
  when (isAt .lifetimeIdent) lifetime
  discard <| eat .mutKw
  call (.type false)

def arrayOrSliceType : Parser Unit := discard <| nodeOf do
  bump .leftBracket
  call (.type true)
  let isArray ← eat .semicolon
  when (pure isArray) (discard <| call (.expression {} 1))
  discard <| expect .rightBracket
  return if isArray then .arrayType else .sliceType

def singleBound : Parser Unit := do
  if ← isAt .lifetimeIdent then lifetime
  else if ← atPath then pathType
  else recover (.expected .traitBound) typeRecovery

/-- `impl` or `dyn` with its bounds: all that follow, or exactly one where a plus would belong to what
is around. -/
def boundedType (keyword kind : Kind) (bounds : Bool) : Parser Unit := node kind do
  bump keyword
  if bounds && (← atTypeBound) then typeBoundList
  else node .typeBoundList (node .typeBound singleBound)

def singleType (bounds : Bool) : Parser Unit := do
  match ← current with
  | .leftParen => parenOrTupleType
  | .bang => node .neverType (bump .bang)
  | .star => ptrType
  | .amp => refType
  | .leftBracket => arrayOrSliceType
  | .underscore => node .inferType (bump .underscore)
  | .implKw => boundedType .implKw .implTraitType bounds
  | .dynKw => boundedType .dynKw .dynTraitType bounds
  | _ =>
    if ← atPath then pathType
    else recover (.expected .type) typeRecovery

def type (bounds : Bool) : Parser Unit := discard <| nested (singleType bounds)

/-- `->` and a type. -/
def returnType? (bounds : Bool) : Parser Unit := when (isAt .thinArrow) <| node .retType do
  bump .thinArrow
  call (.type bounds)

end Verbatim.Parser
