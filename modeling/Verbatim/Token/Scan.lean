import Verbatim.Token.Basic
import Verbatim.Token.Number

/-!
# The tokens of a text

The first character of a token, with at most two more, selects the rule that takes the whole token.
Nothing is dropped: blanks and comments are tokens, a character that no rule knows is a token of kind
`error`, and an empty end token closes the list. Punctuation is taken one character at a time.
-/
namespace Verbatim.Token

/-- Kinds of the single characters of punctuation. -/
def punctuation? : Char → Option Kind
  | ';' => some .semicolon
  | ',' => some .comma
  | '(' => some .leftParen
  | ')' => some .rightParen
  | '\x7b' => some .leftBrace
  | '\x7d' => some .rightBrace
  | '[' => some .leftBracket
  | ']' => some .rightBracket
  | '<' => some .leftAngle
  | '>' => some .rightAngle
  | '@' => some .atSign
  | '#' => some .pound
  | '~' => some .tilde
  | '?' => some .question
  | '$' => some .dollar
  | '&' => some .amp
  | '|' => some .pipe
  | '+' => some .plus
  | '*' => some .star
  | '/' => some .slash
  | '^' => some .caret
  | '%' => some .percent
  | '.' => some .dot
  | ':' => some .colon
  | '=' => some .eq
  | '!' => some .bang
  | '-' => some .minus
  | _ => none

/-- The kind of a whole word. -/
def wordKind (w : Text) : Kind :=
  if w == ['_'] then .underscore else (Kind.ofKeyword? (String.ofList w)).getD .ident

/-- A lifetime, or a character literal, behind the quote. A letter that a second quote follows is a
literal, any other word a lifetime. -/
def lifetimeOrCharacter (t : Text) : Kind × Piece :=
  match t with
  | c :: rest =>
    if Text.isWordStart c && rest.head? != some '\'' then (.lifetimeIdent, .word t)
    else (.char, .literal '\'' .character t)
  | [] => (.char, .literal '\'' .character t)

/-- A token that its first character alone selects. -/
def scanPlain (c : Char) (t : Text) : Kind × Piece :=
  if Text.isWordStart c then
    let p := Piece.word t
    (wordKind (c :: p.text), p)
  else if c.isDigit then Number.scan c t
  else if c == '\'' then lifetimeOrCharacter t
  else if c == '"' then (.string, .literal '"' .string t)
  else match punctuation? c with
    | some kind => (kind, .nothing t)
    | none => (.error, ⟨[], t, some .unknownCharacter⟩)

/-- The token that starts with `c`: its kind, and what it takes of the text behind `c`. -/
def scan (c : Char) (t : Text) : Kind × Piece :=
  if Text.isBlank c then (.whitespace, .blanks t)
  else match c, t with
    | '/', '/' :: _ => (.comment, .line t)
    | '/', '*' :: r => (.comment, (Piece.blockComment 1 r).prepend ['*'])
    | 'r', '"' :: _ => (.string, .rawString t)
    | 'r', '#' :: r =>
      if Number.startsWithWord r then (.ident, (Piece.word r).prepend ['#'])
      else (.string, .rawString t)
    | 'b', '\'' :: r => (.byte, (Piece.literal '\'' .byteLiteral r).prepend ['\''])
    | 'b', '"' :: r => (.byteString, (Piece.literal '"' .byteString r).prepend ['"'])
    | 'b', 'r' :: '"' :: r => (.byteString, (Piece.rawString ('"' :: r)).prepend ['r'])
    | 'b', 'r' :: '#' :: r => (.byteString, (Piece.rawString ('#' :: r)).prepend ['r'])
    | _, _ => scanPlain c t

theorem length_rest_lifetimeOrCharacter (t : Text) :
    (lifetimeOrCharacter t).2.rest.length ≤ t.length := by
  unfold lifetimeOrCharacter
  split
  · split
    · exact Piece.length_rest_takeWhile _ _
    · exact Piece.length_rest_literal _ _ _
  · exact Piece.length_rest_literal _ _ _

theorem length_rest_scanPlain (c : Char) (t : Text) :
    (scanPlain c t).2.rest.length ≤ t.length := by
  unfold scanPlain
  split
  · exact Piece.length_rest_takeWhile _ _
  split
  · exact Number.length_rest_scan c t
  split
  · exact length_rest_lifetimeOrCharacter t
  split
  · exact Piece.length_rest_literal _ _ _
  split <;> exact Nat.le_refl _

/-- A token never takes less than its first character. -/
theorem length_rest_scan (c : Char) (t : Text) : (scan c t).2.rest.length ≤ t.length := by
  unfold scan
  split
  · exact Piece.length_rest_takeWhile _ _
  split
  · exact Piece.length_rest_takeWhile _ _
  · exact Nat.le_succ_of_le (Piece.length_rest_blockComment _ _)
  · exact Piece.length_rest_rawString _
  · split
    · exact Nat.le_succ_of_le (Piece.length_rest_takeWhile _ _)
    · exact Piece.length_rest_rawString _
  · exact Nat.le_succ_of_le (Piece.length_rest_literal _ _ _)
  · exact Nat.le_succ_of_le (Piece.length_rest_literal _ _ _)
  · exact Nat.le_succ_of_le (Piece.length_rest_rawString _)
  · exact Nat.le_succ_of_le (Piece.length_rest_rawString _)
  · exact length_rest_scanPlain c t

/-- The tokens of a text that starts at `offset`, the end token last. -/
def listFrom (offset : Nat) : Text → List Token
  | [] => [⟨.eof, [], offset, none⟩]
  | c :: t =>
    let scanned := scan c t
    let text := c :: scanned.2.text
    ⟨scanned.1, text, offset, scanned.2.fault⟩ :: listFrom (offset + Text.size text) scanned.2.rest
termination_by t => t.length
decreasing_by exact Nat.lt_succ_of_le (length_rest_scan c t)

/-- All tokens of a text. -/
def list (t : Text) : List Token := listFrom 0 t

end Token

end Verbatim
