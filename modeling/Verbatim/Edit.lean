import Verbatim.Span
import Verbatim.Text.Basic

/-!
# Edits

A single edit takes a span out of a text and puts new text in its place. An insertion takes out an
empty span, a deletion puts in nothing.
-/
namespace Verbatim

structure Edit where
  delete : Span
  insert : Text
  deriving DecidableEq, Repr

namespace Edit

/-- Why an edit does not fit a text. -/
inductive Misfit where
  | outOfBounds (delete : Span) (length : Nat)
  | insideCharacter
  deriving DecidableEq, Repr

def Misfit.message? : Misfit → Option String
  | outOfBounds delete length =>
    some ("edit " ++ delete.render ++ " is out of bounds of a text of length " ++ toString length)
  | insideCharacter => none

/-- The edited text, unless the span leaves the text or cuts a character. -/
def applyTo? (e : Edit) (t : Text) : Option Text := do
  let (front, rest) ← Text.cut? t e.delete.start
  let (_, back) ← Text.cut? rest e.delete.len
  return front ++ e.insert ++ back

def insertLen (e : Edit) : Nat := Text.size e.insert

/-- Where the inserted text lies in the edited text. -/
def insertedSpan (e : Edit) : Span := ⟨e.delete.start, e.insertLen⟩

/-- Moves an offset behind the deleted span to where the edit puts it. -/
def shift (e : Edit) (offset : Nat) : Nat := offset - e.delete.len + e.insertLen

/-- The same, refused for an offset before the end of the deleted span. -/
def shift? (e : Edit) (offset : Nat) : Option Nat :=
  if e.delete.stop ≤ offset then some (e.shift offset) else none

/-- A span behind the deleted span, moved as a whole. -/
def shiftSpan (e : Edit) (s : Span) : Span := ⟨e.shift s.start, s.len⟩

/-- The same edit seen from a part of the text that starts at `base`. -/
def relativeTo (e : Edit) (base : Nat) : Edit :=
  ⟨⟨e.delete.start - base, e.delete.len⟩, e.insert⟩

end Edit

end Verbatim
