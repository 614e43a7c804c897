import Verbatim.Green.Builder
import Verbatim.Green.Cache

/-!
# Building in a cache

The elements of a row can live in the cells of a cache: each token that is added and each node that is
closed is asked of the cache, so equal ones share a cell. A new cell goes behind all others. A collection
on the way spares the row and whatever is in use elsewhere.
-/
namespace Verbatim

structure Assembly where
  builder : Builder Address
  cache : Cache
  /-- The cells in use elsewhere. -/
  outside : List Address

namespace Assembly

/-- Nothing built yet, in a cache that others may use as well. -/
def of (cache : Cache) (outside : List Address) : Assembly := ⟨.empty, cache, outside⟩

def addToken (s : Assembly) (kind : Kind) (text : Text) : Assembly :=
  let (a, cache) := s.cache.token s.cache.top kind text
  { s with builder := s.builder.push a, cache }

/-- Closes the innermost open node. -/
def finishNode (s : Assembly) : Except Builder.Misuse Assembly := do
  let (kind, children, rest) ← s.builder.close
  let (a, cache) := s.cache.node s.cache.top (rest.row.toList ++ s.outside) kind children
  return { s with builder := rest.push a, cache }

def call (s : Assembly) : Builder.Call → Except Builder.Misuse Assembly
  | .start kind => .ok { s with builder := s.builder.start kind }
  | .token kind text => .ok (s.addToken kind text)
  | .finish => s.finishNode
  | .checkpoint => .ok s
  | .startAt checkpoint kind => do
    return { s with builder := ← s.builder.startAt checkpoint kind }

/-- Makes one call after the other, up to the first that is refused. -/
def run (s : Assembly) (calls : List Builder.Call) : Except Builder.Misuse Assembly := calls.foldlM call s

def isTokenAt (s : Assembly) (a : Address) : Bool := ((s.cache.element? a).map (·.isToken)).getD false

/-- The cell of the root, once every node is closed. -/
def finish (s : Assembly) : Except Builder.Misuse Address := s.builder.finish s.isTokenAt

end Assembly

end Verbatim
