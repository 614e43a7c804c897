import Verbatim.Grammar.Error
import Verbatim.Text.Letters

/-!
# Lexemes of the grammar notation

A grammar is written with names, terminals in single quotes and seven marks, with blanks and `//`
comments in between. Inside of a terminal a quote and a backslash stand behind a backslash, always and
nothing else, so a lexeme has exactly one written form.
-/
namespace Verbatim.Grammar

inductive Lexeme where
  | name (text : Text)
  | terminal (text : Text)
  | equals
  | colon
  | pipe
  | star
  | question
  | leftParen
  | rightParen
  deriving DecidableEq, Repr

/-- A lexeme and the offset it was found at. -/
structure Placed where
  lexeme : Lexeme
  offset : Nat
  deriving DecidableEq, Repr

def isNameStart (c : Char) : Bool := c.isAlpha || c == '_'

def isNamePart (c : Char) : Bool := c.isAlphanum || c == '_'

namespace Lexeme

/-- The contents of a terminal as they are written. -/
def escaped : Text → Text
  | [] => []
  | c :: rest => if c == '\'' || c == '\\' then '\\' :: c :: escaped rest else c :: escaped rest

def written : Lexeme → Text
  | name t => t
  | terminal t => '\'' :: (escaped t ++ ['\''])
  | equals => ['=']
  | colon => [':']
  | pipe => ['|']
  | star => ['*']
  | question => ['?']
  | leftParen => ['(']
  | rightParen => [')']

def mark? : Char → Option Lexeme
  | '=' => some equals
  | ':' => some colon
  | '|' => some pipe
  | '*' => some star
  | '?' => some question
  | '(' => some leftParen
  | ')' => some rightParen
  | _ => none

end Lexeme

/-- What is left of a text after something in front of it has been read, or all of it. -/
abbrev Remainder (t : Text) := { rest : Text // rest.length ≤ t.length }

namespace Remainder

def cons {t : Text} (c : Char) (r : Remainder t) : Remainder (c :: t) :=
  ⟨r.val, Nat.le_succ_of_le r.property⟩

end Remainder

/-- The contents of a terminal opened at `start`, read from `offset` on up to the closing quote. -/
def scanTerminal (start offset : Nat) : (t : Text) → Except Error (Text × Remainder t)
  | [] => .error (.unterminatedLiteral start)
  | c :: rest =>
    if c == '\'' then .ok ([], ⟨rest, Nat.le_succ _⟩)
    else if c == '\\' then
      match rest with
      | [] => .error (.unterminatedLiteral start)
      | e :: rest =>
        if e == '\'' || e == '\\' then
          (scanTerminal start (offset + 2) rest).map fun (t, r) => (e :: t, (r.cons e).cons c)
        else .error (.unexpectedCharacter e (offset + 1))
    else (scanTerminal start (offset + c.utf8Size) rest).map fun (t, r) => (c :: t, r.cons c)

/-- The lexeme that starts with the character `c` at `offset`. -/
def scanLexeme (offset : Nat) (c : Char) (rest : Text) : Except Error (Lexeme × Remainder rest) :=
  if c == '\'' then
    (scanTerminal offset (offset + 1) rest).map fun (t, r) => (.terminal t, r)
  else if isNameStart c then
    .ok (.name (c :: rest.takeWhile isNamePart),
      ⟨rest.dropWhile isNamePart, (List.dropWhile_sublist _).length_le⟩)
  else
    match Lexeme.mark? c with
    | some m => .ok (m, ⟨rest, Nat.le_refl _⟩)
    | none => .error (.unexpectedCharacter c offset)

/-- The lexemes of a text that starts at `offset`. -/
def scanFrom (offset : Nat) : Text → Except Error (List Placed)
  | [] => .ok []
  | c :: rest =>
    if Text.isBlank c then scanFrom (offset + c.utf8Size) rest
    else if c == '/' && rest.head? == some '/' then
      scanFrom (offset + 1 + Text.size (rest.takeWhile (· != '\n'))) (rest.dropWhile (· != '\n'))
    else
      match scanLexeme offset c rest with
      | .error e => .error e
      | .ok (lexeme, ⟨rest, _⟩) =>
        (scanFrom (offset + Text.size lexeme.written) rest).map (⟨lexeme, offset⟩ :: ·)
termination_by t => t.length
decreasing_by
  · simp
  · exact Nat.lt_succ_of_le (List.dropWhile_sublist _).length_le
  · simp only [List.length_cons]; omega

def scan (t : Text) : Except Error (List Placed) := scanFrom 0 t

end Verbatim.Grammar
