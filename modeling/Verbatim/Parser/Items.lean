import Verbatim.Parser.Expressions

/-!
# Items
-/
namespace Verbatim.Parser

/-- Places of the modifiers in front of `fn`, which are written in this order. -/
def modifierRank : Kind → Option Nat
  | .constKw => some 0
  | .asyncKw => some 1
  | .unsafeKw => some 2
  | _ => none

/-- Takes the modifiers in front of `fn`. A repeated or misplaced one becomes an error node. -/
def modifiers : Parser Unit :=
  discard <| loop 0 fun next => do
    match modifierRank (← current) with
    | none => return .done next
    | some rank =>
      if rank < next then
        skipOne .misplacedModifier
        return .yield next
      bumpAny
      return .yield (rank + 1)

/-- The parameters of a function, or a report that they are missing. -/
def paramListOr : Parser Unit := do
  if ← isAt .leftParen then paramList
  else expected .parameters

def function : Parser Kind := do
  modifiers
  bump .fnKw
  nameOr (itemRecovery.insert .leftParen)
  genericParamList?
  paramListOr
  returnType? true
  whereClause?
  whenNot (eat .semicolon) block
  return .fn

/-- `: Type = value;` behind the name of a constant or a static. -/
def typedValue : Parser Unit := do
  when (expect .colon) (call (.type true))
  when (eat .eq) (discard expression)
  discard <| expect .semicolon

def constant : Parser Kind := do
  bump .constKw
  whenNot (eat .underscore) (nameOr itemRecovery)
  typedValue
  return .const

def staticItem : Parser Kind := do
  bump .staticKw
  discard <| eat .mutKw
  nameOr itemRecovery
  typedValue
  return .static

def recordField (_ : Bool) : Parser Bool := do
  if !(← isAtAny fieldFirst) then return false
  node .recordField do
    discard visibility?
    nameOr (itemRecovery.insert .colon)
    when (expect .colon) (call (.type true))
  return true

def recordFieldList : Parser Unit :=
  delimited .leftBrace .rightBrace .comma .field fieldFirst itemRecovery recordField

def tupleField (_ : Bool) : Parser Bool := do
  if (← isAt .pubKw) || (← isAtAny typeFirst) then
    node .tupleField do
      discard visibility?
      call (.type true)
    return true
  return false

def tupleFieldList : Parser Unit := node .tupleFieldList do
  delimited .leftParen .rightParen .comma .field (typeFirst.insert .pubKw) itemRecovery tupleField

/-- Fields in parentheses or in braces, or none. -/
def structBody : Parser Unit := do
  if ← isAt .leftParen then
    tupleFieldList
    whereClause?
    discard <| expect .semicolon
  else
    whereClause?
    if ← isAt .leftBrace then list .recordFieldList
    else whenNot (eat .semicolon) (expected .structBody)

def structItem : Parser Kind := do
  bump .structKw
  nameOr itemRecovery
  genericParamList?
  structBody
  return .struct

def variantFields : Parser Unit := do
  match ← current with
  | .leftBrace => list .recordFieldList
  | .leftParen => tupleFieldList
  | _ => return ()

def variant (_ : Bool) : Parser Bool := do
  if !(← isAtAny fieldFirst) then return false
  node .variant do
    discard visibility?
    nameOr itemRecovery
    variantFields
    when (eat .eq) (discard expression)
  return true

def variantList : Parser Unit :=
  delimited .leftBrace .rightBrace .comma .variant fieldFirst itemRecovery variant

def enumeration : Parser Kind := do
  bump .enumKw
  nameOr itemRecovery
  genericParamList?
  whereClause?
  body .variantList
  return .enum

/-- An item, or an error node for what stands where one should. -/
def itemOrError : Parser Unit := do
  if !(← call .item) then
    match ← current with
    | .leftBrace => strayBlock .item
    | .rightBrace =>
      node .error do
        error .unmatchedBrace
        bump .rightBrace
    | _ => skipOne (.expected .item)

/-- Items up to the end; inside of braces also up to a closing one. -/
def contents (braced : Bool) : Parser Unit := while_ do
  if (← isAt .eof) || (braced && (← isAt .rightBrace)) then return false
  itemOrError
  return true

def bracedItems : Parser Unit := do
  bump .leftBrace
  discard <| nested (contents true)
  discard <| expect .rightBrace

def traitItem : Parser Kind := do
  discard <| eat .unsafeKw
  bump .traitKw
  nameOr itemRecovery
  genericParamList?
  when (eat .colon) typeBoundList?
  whereClause?
  body .assocItemList
  return .trait

def implementation : Parser Kind := do
  discard <| eat .unsafeKw
  bump .implKw
  genericParamList?
  discard <| eat .bang
  call (.type true)
  when (eat .forKw) (call (.type true))
  whereClause?
  body .assocItemList
  return .impl

/-- Items in braces, or a semicolon where they are in a file of their own. -/
def moduleBody : Parser Unit := do
  if ← isAt .leftBrace then list .itemList
  else discard <| expect .semicolon

def moduleItem : Parser Kind := do
  bump .modKw
  nameOr (itemRecovery.insert .leftBrace)
  moduleBody
  return .module

def useTreeList : Parser Unit :=
  delimited .leftBrace .rightBrace .comma .useTree useTreeFirst itemRecovery fun _ =>
    call (.useTree false)

def globOrList : Parser Unit := do
  match ← current with
  | .star => bump .star
  | .leftBrace => list .useTreeList
  | _ => expected .useGroup

def rename : Parser Unit := node .rename do
  bump .asKw
  whenNot (eat .underscore) name

/-- Whether `::` follows and, behind it, `*` or a brace. -/
def atRootGroup : Parser Bool := both (isAt .colon2) do
  match ← nth 2 with
  | .star | .leftBrace => return true
  | _ => return false

/-- What may follow the path of an import. -/
def useTail : Parser Unit := do
  if ← isAt .asKw then rename
  else when (eat .colon2) globOrList

/-- An import, if one starts here. -/
def useTree? : Parser (Option Kind) := nodeIf do
  match ← current with
  | .star =>
    bump .star
    return some .useTree
  | .leftBrace =>
    list .useTreeList
    return some .useTree
  | _ =>
    if ← atRootGroup then
      bump .colon2
      globOrList
      return some .useTree
    if ← atPath then
      usePath
      useTail
      return some .useTree
    return none

def useTree (topLevel : Bool) : Parser Bool := do
  let tree ← useTree?
  when (pure (tree.isNone && topLevel)) (recover (.expected .useTree) itemRecovery)
  return tree.isSome

def useItem : Parser Kind := do
  bump .useKw
  discard <| call (.useTree true)
  discard <| expect .semicolon
  return .use

def typeAlias : Parser Kind := do
  bump .typeKw
  nameOr itemRecovery
  genericParamList?
  when (eat .colon) typeBoundList?
  whereClause?
  when (eat .eq) (call (.type true))
  discard <| expect .semicolon
  return .typeAlias

/-- How many of the next three tokens are modifiers of a function, from the first on. -/
def modifierCount : Parser (Fin 4) := do
  if (modifierRank (← nth 0)).isNone then return 0
  if (modifierRank (← nth 1)).isNone then return 1
  if (modifierRank (← nth 2)).isNone then return 2
  return 3

/-- An item other than a function, by the token at hand and, behind `const` and `unsafe`, the next. -/
def declaration? : Parser (Option Kind) := do
  match ← current with
  | .constKw =>
    match ← nth 1 with
    | .ident | .underscore => some <$> constant
    | _ => return none
  | .unsafeKw =>
    match ← nth 1 with
    | .traitKw => some <$> traitItem
    | .implKw => some <$> implementation
    | _ => return none
  | .staticKw => some <$> staticItem
  | .structKw => some <$> structItem
  | .enumKw => some <$> enumeration
  | .traitKw => some <$> traitItem
  | .implKw => some <$> implementation
  | .modKw => some <$> moduleItem
  | .useKw => some <$> useItem
  | .typeKw => some <$> typeAlias
  | _ => return none

/-- An item if one starts here. A visibility alone is an error, and still taken. -/
def item : Parser Bool := do
  let found ← nodeIf do
    let visible ← visibility?
    if (← nth (← modifierCount)) == .fnKw then return some (← function)
    match ← declaration? with
    | some k => return some k
    | none =>
      if visible then
        expected .itemAfterVisibility
        return some .error
      return none
  return found.isSome

end Verbatim.Parser
