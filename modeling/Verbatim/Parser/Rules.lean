import Verbatim.Parser.Core
import Verbatim.Parser.Sets

/-!
# Names and paths

The leaves of the grammar: they need none of the rules that are called by name.
-/
namespace Verbatim.Parser

def nameOr (recovery : KindSet) : Parser Unit := do
  if (← isAt .ident) || (← isAt .selfKw) then node .name bumpAny
  else recover (.expected .name) recovery

def name : Parser Unit := nameOr .empty

def nameRef : Parser Unit := do
  if ← isAtAny nameRefFirst then node .nameRef bumpAny
  else skipOne (.expected .identifier)

def lifetime : Parser Unit := node .lifetime (bump .lifetimeIdent)

def atPath : Parser Bool := return (← isAtAny segmentFirst) || (← isAt .colon2)

/-- One segment of a path; `arguments` takes what may follow its name. -/
def pathSegment (arguments : Parser Unit) (isFirst : Bool) : Parser Unit := node .pathSegment do
  when (pure isFirst) (discard (eat .colon2))
  if ← isAtAny segmentFirst then
    nameRef
    arguments
  else recover (.expected .segment) itemRecovery

/-- A path, each longer one around the one before it, up to where `stops` holds. -/
def pathWith (arguments : Parser Unit) (stops : Parser Bool) : Parser Unit := do
  discard <| nodeOf do
    pathSegment arguments true
    return .path
  while_ do
    if !(← isAt .colon2) then return false
    if ← stops then return false
    discard <| wrap do
      bump .colon2
      pathSegment arguments false
      return .path
    return true

/-- A path without arguments that stops before `::*` and before `::` and a brace. -/
def usePath : Parser Unit := pathWith (pure ()) do
  match ← nth 2 with
  | .star | .leftBrace => return true
  | _ => return false

/-- Whether `(crate)`, `(super)` or `(self)` follows; any other parenthesis starts the type of a tuple
field. -/
def atScope : Parser Bool := do
  if !(← isAt .leftParen) then return false
  match ← nth 1 with
  | .crateKw | .superKw | .selfKw => isNth 2 .rightParen
  | _ => return false

def visibility? : Parser Bool := do
  if !(← isAt .pubKw) then return false
  node .visibility do
    bump .pubKw
    when atScope do
      bump .leftParen
      usePath
      bump .rightParen
  return true

end Verbatim.Parser
