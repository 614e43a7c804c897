import Verbatim.Position.Basic

/-!
# Cursors

Replacing an element makes a new tree. What is put in and the elements above it are made for that tree;
all others are taken over and stay the very elements that they were. A cursor is a position that knows
how its tree came about, and so can tell the same element from one that merely has the same content.
-/
namespace Verbatim

/-- Where an element was made. Elements of one origin are one if they have the same content. -/
inductive Origin where
  /-- By a parse, of a whole text or of a part: all parses share what they make. -/
  | parsed
  /-- By a builder that shares nothing with parses. -/
  | built
  /-- By the replacement with this number. -/
  | replaced (number : Nat)
  deriving DecidableEq, Repr

/-- One exchange of an element: where, counted in children from the root, and whether a parse made what
was put in. -/
structure Replacement where
  path : List Nat
  isParsed : Bool
  deriving DecidableEq, Repr

/-- The origin of a tree and the replacements made in it since, the latest first. -/
structure Lineage where
  first : Origin
  replacements : List Replacement
  deriving DecidableEq, Repr

namespace Lineage

/-- The origin of the element at the end of a path: the latest replacement at, above or below it. -/
def originIn (first : Origin) : List Replacement → List Nat → Origin
  | [], _ => first
  | r :: earlier, path =>
    if r.path.isPrefixOf path then
      if r.isParsed then .parsed else .replaced earlier.length
    else if path.isPrefixOf r.path then .replaced earlier.length
    else originIn first earlier path

def origin (l : Lineage) (path : List Nat) : Origin := originIn l.first l.replacements path

end Lineage

structure Cursor where
  position : Position
  lineage : Lineage
  deriving Repr

namespace Cursor

/-- At the root of a tree of one origin. -/
def ofTree (tree : Green) (origin : Origin) : Cursor := ⟨.root tree, ⟨origin, []⟩⟩

def origin (c : Cursor) : Origin := c.lineage.origin c.position.path

/-- Whether two cursors are at the very same element at the same offset. -/
def identical (c d : Cursor) : Bool := c.position.same d.position && c.origin == d.origin

/-- Number of different elements that some cursors are at. -/
def distinct (cs : List Cursor) : Nat :=
  (cs.foldl (fun seen c => if seen.any c.identical then seen else c :: seen) []).length

/-- Moves within the tree. -/
def moveTo (c : Cursor) (p : Position) : Cursor := { c with position := p }

/-- The root of the tree in which `replacement` stands in the place of the element. -/
def replaceWith (c : Cursor) (replacement : Green) (isParsed : Bool) : Cursor :=
  ⟨.root (c.position.replaceWith replacement),
    { c.lineage with replacements := ⟨c.position.path, isParsed⟩ :: c.lineage.replacements }⟩

end Cursor

end Verbatim
