import Verbatim.Green.Basic
import Verbatim.Span
import Verbatim.Text.Quoted

/-!
# Listings of a tree

A listing has one row per element, in the order in which they start, each with its depth and its span.
Printed, a row is indented by two spaces per level, and a token shows its text in quotes.
-/
namespace Verbatim

/-- One element of a tree: how deep it stands, what it covers, and its text if it is a token. -/
structure Row where
  depth : Nat
  kind : Kind
  span : Span
  text? : Option Text
  deriving DecidableEq, Repr

namespace Row

/-- Kind and span, as in `FN@0..9`. -/
def label (kind : Kind) (span : Span) : String := kind.label ++ "@" ++ span.render

def render (r : Row) : String :=
  match r.text? with
  | some t => label r.kind r.span ++ " " ++ Text.quoted t
  | none => label r.kind r.span

def line (r : Row) : String := String.join (List.replicate r.depth "  ") ++ r.render ++ "\n"

end Row

namespace Green

mutual
/-- The rows of an element that stands at `offset`, `depth` levels down. -/
def rowsAt (depth offset : Nat) : Green → List Row
  | token k t => [⟨depth, k, ⟨offset, Text.size t⟩, some t⟩]
  | node k n cs => ⟨depth, k, ⟨offset, n⟩, none⟩ :: rowsOf (depth + 1) offset cs

def rowsOf (depth offset : Nat) : List Green → List Row
  | [] => []
  | g :: gs => rowsAt depth offset g ++ rowsOf depth (offset + g.size) gs
end

def rows (g : Green) : List Row := rowsAt 0 0 g

/-- The tree line by line. -/
def dump (g : Green) : String := String.join (g.rows.map Row.line)

/-- A node on one line: its kind, its size and how many children it has; a token by its text. -/
def summary : Green → String
  | token k t => k.label ++ " " ++ Text.quoted t
  | node k n cs =>
    "GreenNode \x7b kind: " ++ k.label ++ ", text_len: " ++ toString n ++ ", n_children: " ++
      toString cs.length ++ " \x7d"

end Green

end Verbatim
