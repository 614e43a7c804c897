import Verbatim.Grammar.Lexeme

/-!
# Layouts

A layout is one way to write lexemes down, with a gap in front of them, between them and behind them. A gap
is a mix of blanks and of comments that end with their line, and there is at least one of them in it.
-/
namespace Verbatim.Grammar

/-- Letters, digits and underscores, all of them ASCII, and no digit in front. -/
def IsName (t : Text) : Prop :=
  t ≠ [] ∧ (∀ c ∈ t, isNamePart c = true) ∧ ∀ c ∈ t.head?, c.isDigit = false

/-- Whether a lexeme has a written form: a terminal may hold any text, a name only a word that is one. -/
def Lexeme.Writable : Lexeme → Prop
  | name t => IsName t
  | _ => True

/-- What can stand in a gap: a blank, or a comment and the line feed that ends it. -/
inductive Filler where
  | blank (c : Char) (isBlank : Text.isBlank c = true)
  | comment (line : Text) (within : '\n' ∉ line)

def Filler.text : Filler → Text
  | blank c _ => [c]
  | comment line _ => '/' :: '/' :: (line ++ ['\n'])

structure Gap where
  fillers : List Filler
  nonempty : fillers ≠ []

def Gap.text (g : Gap) : Text := g.fillers.flatMap Filler.text

/-- A lexeme that can be written, and the gap behind it. -/
structure Layout.Entry where
  lexeme : Lexeme
  writable : lexeme.Writable
  gap : Gap

def Layout.Entry.text (e : Layout.Entry) : Text := e.lexeme.written ++ e.gap.text

structure Layout where
  lead : Gap
  entries : List Layout.Entry

namespace Layout

def text (l : Layout) : Text := l.lead.text ++ l.entries.flatMap Entry.text

def lexemes (l : Layout) : List Lexeme := l.entries.map (·.lexeme)

/-- What is written of a layout before the lexeme at place `i`. -/
def upTo (l : Layout) (i : Nat) : Layout := { l with entries := l.entries.take i }

end Layout

end Verbatim.Grammar
