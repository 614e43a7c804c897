import Verbatim.Grammar.Lexeme

/-!
# How lexemes are spelled in a text

The text of a grammar is its lexemes in their written forms, one behind the other, with nothing but blanks
and comments in between.
-/
namespace Verbatim.Grammar

namespace Lexeme

/-- Whether a lexeme is all that could be read where it stands in front of some text: a name has the letters
of one and goes on as long as there are any. -/
def Whole : Lexeme → Text → Prop
  | name n, rest => (∃ c cs, n = c :: cs ∧ isNameStart c = true ∧ ∀ d ∈ cs, isNamePart d = true) ∧
      ∀ d ∈ rest.head?, isNamePart d = false
  | _, _ => True

end Lexeme

/-- The lexemes that are spelled by a text which starts at an offset. -/
inductive Spells : Nat → Text → List Placed → Prop
  | done (offset : Nat) : Spells offset [] []
  | blank {offset : Nat} {c : Char} {rest : Text} {ts : List Placed} (blank : Text.isBlank c = true)
    (more : Spells (offset + c.utf8Size) rest ts) : Spells offset (c :: rest) ts
  | comment {offset : Nat} {line rest : Text} {ts : List Placed} (within : '\n' ∉ line)
    (ends : ∀ c ∈ rest.head?, c = '\n') (more : Spells (offset + 2 + Text.size line) rest ts) :
    Spells offset ('/' :: '/' :: (line ++ rest)) ts
  | lexeme {offset : Nat} {l : Lexeme} {rest : Text} {ts : List Placed} (whole : l.Whole rest)
    (more : Spells (offset + Text.size l.written) rest ts) :
    Spells offset (l.written ++ rest) (⟨l, offset⟩ :: ts)

end Verbatim.Grammar
