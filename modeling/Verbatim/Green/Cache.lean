import Std.Data.HashMap
import Std.Data.HashSet
import Verbatim.Green.Basic

/-!
# One cell for equal elements

Elements live in cells of a store, each at an address. The cache finds the cell of a token by its kind
and text and the cell of a node by its kind and the addresses of its children, so that equal elements
made through it share one cell. Its entries keep their cells; a collection drops the entries that
nothing else refers to. Where a new cell goes is up to the caller, who may reuse the address of a cell
that nothing can reach any more.
-/
namespace Verbatim

abbrev Address := Nat

/-- A character is hashed by its number. -/
instance characterHash : Hashable Char := ⟨fun c => c.val.toUInt64⟩

/-- An element and the cells of its children. -/
structure Cell where
  element : Green
  children : List Address
  deriving Repr

structure Cache where
  cells : Std.HashMap Address Cell
  tokens : Std.HashMap (Kind × Text) Address
  nodes : Std.HashMap (Kind × List Address) Address
  /-- Number of nodes at which an insertion runs a collection. -/
  threshold : Nat
  /-- No cell was ever put at this address or above. -/
  top : Address

namespace Cache

/-- Number of nodes below which no insertion runs a collection. -/
def firstCollection : Nat := 65536

def empty : Cache := ⟨∅, ∅, ∅, firstCollection, 0⟩

/-- Number of entries. -/
def size (c : Cache) : Nat := c.nodes.size + c.tokens.size

def isEmpty (c : Cache) : Bool := c.size == 0

def cell? (c : Cache) (a : Address) : Option Cell := c.cells[a]?

def element? (c : Cache) (a : Address) : Option Green := (c.cell? a).map (·.element)

/-- Puts a cell at an address, without an entry for it. -/
def put (c : Cache) (a : Address) (cell : Cell) : Cache :=
  { c with cells := c.cells.insert a cell, top := max c.top (a + 1) }

def putToken (c : Cache) (a : Address) (kind : Kind) (text : Text) : Cache :=
  c.put a ⟨.token kind text, []⟩

/-- The node over the elements of some cells. -/
def branch (c : Cache) (kind : Kind) (children : List Address) : Green :=
  .branch kind (children.filterMap c.element?)

def putNode (c : Cache) (a : Address) (kind : Kind) (children : List Address) : Cache :=
  c.put a ⟨c.branch kind children, children⟩

/-- Puts a copy of a node with one child exchanged at an address. -/
def putWithChild? (c : Cache) (a node : Address) (index : Nat) (child : Address) : Option Cache := do
  let cell ← c.cell? node
  if index < cell.children.length then
    return c.putNode a cell.element.kind (cell.children.set index child)
  none

/-- The addresses that some cell or one of the roots refers to. -/
def referenced (c : Cache) (roots : List Address) : Std.HashSet Address :=
  c.cells.fold (fun seen _ cell => seen.insertMany cell.children) (Std.HashSet.ofList roots)

/-- Frees the cells that nothing refers to. That may leave their children without a reference in turn,
so it is done again until nothing changes. -/
def sweep (c : Cache) (roots : List Address) : (rounds : Nat) → Cache
  | 0 => c
  | rounds + 1 =>
    let used := c.referenced roots
    let kept := { c with cells := c.cells.filter fun a _ => used.contains a }
    if kept.cells.size == c.cells.size then kept else kept.sweep roots rounds

/-- Drops the entries that only the cache refers to, given the addresses in use outside of it. -/
def collect (c : Cache) (roots : List Address) : Cache :=
  let kept := c.sweep roots c.cells.size
  { kept with
    tokens := c.tokens.filter fun _ a => kept.cells.contains a
    nodes := c.nodes.filter fun _ a => kept.cells.contains a }

/-- How many entries a collection drops. -/
def collectedBy (before after : Cache) : Nat := before.size - after.size

/-- Collects once the nodes have reached the threshold; the next one comes when their number has doubled. -/
def settle (c : Cache) (roots : List Address) : Cache :=
  if c.threshold ≤ c.nodes.size then
    let kept := c.collect roots
    { kept with threshold := max (2 * kept.nodes.size) firstCollection }
  else c

/-- The cell of a token; a new one goes to `fresh`. -/
def token (c : Cache) (fresh : Address) (kind : Kind) (text : Text) : Address × Cache :=
  match c.tokens[(kind, text)]? with
  | some a => (a, c)
  | none =>
    let c := c.putToken fresh kind text
    (fresh, { c with tokens := c.tokens.insert (kind, text) fresh })

/-- The cell of a node over the cells of its children; a new one goes to `fresh`, and may lead to a
collection that spares the roots and itself. -/
def node (c : Cache) (fresh : Address) (roots : List Address) (kind : Kind)
    (children : List Address) : Address × Cache :=
  match c.nodes[(kind, children)]? with
  | some a => (a, c)
  | none =>
    let c := c.putNode fresh kind children
    let c := { c with nodes := c.nodes.insert (kind, children) fresh }
    (fresh, c.settle (fresh :: roots))

/-- How a cache is shown: by its size alone. -/
def summary (c : Cache) : String := "NodeCache \x7b len: " ++ toString c.size ++ " \x7d"

end Cache

end Verbatim
