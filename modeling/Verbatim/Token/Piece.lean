import Verbatim.Diagnostic
import Verbatim.Text.Letters
import Verbatim.Text.Basic

/-!
# Pieces

A piece is the front of a text that a rule of the lexer takes, together with the rest and with what is
wrong with the front. The rules here take blanks, words, comments and quoted literals; whatever they
take, front and rest are the text again.
-/
namespace Verbatim

structure Piece where
  text : Text
  rest : Text
  fault : Option LexicalFault
  deriving DecidableEq, Repr

namespace Piece

/-- The longest front whose characters all satisfy `p`. -/
def takeWhile (p : Char → Bool) (t : Text) : Piece := ⟨t.takeWhile p, t.dropWhile p, none⟩

def prepend (front : Text) (p : Piece) : Piece := ⟨front ++ p.text, p.rest, p.fault⟩

/-- Goes on with the rest of a piece. -/
def andThen (p : Piece) (next : Text → Piece) : Piece := (next p.rest).prepend p.text

def nothing (t : Text) : Piece := ⟨[], t, none⟩

def word (t : Text) : Piece := takeWhile Text.isWordPart t

def blanks (t : Text) : Piece := takeWhile Text.isBlank t

def line (t : Text) : Piece := takeWhile (· != '\n') t

/-- The rest of a block comment in which `depth` openings wait for their ends. Openings and ends are
read from left to right and never share a character. -/
def blockComment : (depth : Nat) → Text → Piece
  | 0, t => nothing t
  | _ + 1, [] => ⟨[], [], some (.unterminated .blockComment)⟩
  | depth + 1, '/' :: '*' :: t => (blockComment (depth + 2) t).prepend ['/', '*']
  | depth + 1, '*' :: '/' :: t => (blockComment depth t).prepend ['*', '/']
  | depth + 1, c :: t => (blockComment (depth + 1) t).prepend [c]

/-- The rest of a literal up to its closing quote. A backslash takes the next character with it; a
literal in single quotes also ends, unterminated, with its line. -/
def literal (quote : Char) (what : Delimited) : Text → Piece
  | [] => ⟨[], [], some (.unterminated what)⟩
  | ['\\'] => ⟨['\\'], [], some (.unterminated what)⟩
  | '\\' :: c :: t => (literal quote what t).prepend ['\\', c]
  | c :: t =>
    if c == quote then ⟨[c], t, none⟩
    else if c == '\n' && quote == '\'' then ⟨[c], t, some (.unterminated what)⟩
    else (literal quote what t).prepend [c]

/-- The rest of a raw string up to the first quote that `fence` follows. -/
def rawBody (fence : Text) : Text → Piece
  | [] => ⟨[], [], some (.unterminated .rawString)⟩
  | c :: t =>
    if c == '"' && Text.startsWith t fence then ⟨c :: fence, t.drop fence.length, none⟩
    else (rawBody fence t).prepend [c]

/-- A raw string behind its `r`: any number of hashes, a quote, and all up to a quote with as many
hashes. -/
def rawString (t : Text) : Piece :=
  let fence := t.takeWhile (· == '#')
  match t.dropWhile (· == '#') with
  | '"' :: body => (rawBody fence body).prepend (fence ++ ['"'])
  | rest => ⟨fence, rest, some .missingQuote⟩

/-! Whatever a rule takes, the rest it leaves is no longer than the text it was given. -/

theorem length_rest_takeWhile (p : Char → Bool) (t : Text) :
    (takeWhile p t).rest.length ≤ t.length :=
  (List.dropWhile_suffix p).length_le

theorem length_rest_blockComment (depth : Nat) (t : Text) :
    (blockComment depth t).rest.length ≤ t.length := by
  fun_induction blockComment depth t <;> simp_all [nothing, prepend] <;> omega

theorem length_rest_literal (quote : Char) (what : Delimited) (t : Text) :
    (literal quote what t).rest.length ≤ t.length := by
  fun_induction literal quote what t <;> simp_all [prepend] <;> omega

theorem length_rest_rawBody (fence t : Text) : (rawBody fence t).rest.length ≤ t.length := by
  fun_induction rawBody fence t <;> simp_all [prepend] <;> omega

theorem length_rest_rawString (t : Text) : (rawString t).rest.length ≤ t.length := by
  have h := (List.dropWhile_suffix (l := t) (· == '#')).length_le
  unfold rawString
  split
  next body heq =>
    have hb := length_rest_rawBody (t.takeWhile (· == '#')) body
    simp only [heq, List.length_cons] at h
    simp only [prepend]
    omega
  · exact h

end Piece

end Verbatim
