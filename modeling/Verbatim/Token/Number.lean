import Verbatim.Token.Piece

/-!
# Numbers

A number starts with a digit. A radix mark makes it an integer; otherwise a point that neither a second
point nor a word follows, or an exponent with at least one digit, makes it a float. A word directly
behind the number is its type suffix.
-/
namespace Verbatim.Number

def isHexLetter (c : Char) : Bool := ('a' ≤ c && c ≤ 'f') || ('A' ≤ c && c ≤ 'F')

/-- Digits with underscores between them; hexadecimal ones include letters. -/
def isDigitPart (hex : Bool) (c : Char) : Bool := c == '_' || c.isDigit || (hex && isHexLetter c)

def digits (hex : Bool) (t : Text) : Piece := .takeWhile (isDigitPart hex) t

def startsWithDigit : Text → Bool
  | c :: _ => c.isDigit
  | [] => false

def startsWithWord : Text → Bool
  | c :: _ => Text.isWordStart c
  | [] => false

/-- An exponent at the front of a text. -/
def exponent? : Text → Option Piece
  | e :: t =>
    if e == 'e' || e == 'E' then
      match t with
      | '+' :: r => if startsWithDigit r then some ((digits false r).prepend [e, '+']) else none
      | '-' :: r => if startsWithDigit r then some ((digits false r).prepend [e, '-']) else none
      | r => if startsWithDigit r then some ((digits false r).prepend [e]) else none
    else none
  | [] => none

/-- What may follow the point of a float: nothing, or digits with an optional exponent. -/
def fraction (t : Text) : Piece :=
  if startsWithDigit t then
    (digits false t).andThen fun r => (exponent? r).getD (.nothing r)
  else .nothing t

/-- Whether a text goes on with the point of a float: `1..2` and `1.max` keep the integer apart. -/
def startsWithPoint : Text → Bool
  | '.' :: '.' :: _ => false
  | '.' :: r => !startsWithWord r
  | _ => false

/-- The kind of a number and what follows its leading digits. -/
def afterDigits (t : Text) : Kind × Piece :=
  if startsWithPoint t then
    (.floatNumber, (fraction (t.drop 1)).prepend ['.'])
  else match exponent? t with
    | some p => (.floatNumber, p)
    | none => (.intNumber, .nothing t)

def decimal (t : Text) : Kind × Piece :=
  let whole := digits false t
  let (kind, p) := afterDigits whole.rest
  (kind, p.prepend whole.text)

/-- A number behind its first digit, without the suffix. -/
def magnitude (first : Char) (t : Text) : Kind × Piece :=
  match t with
  | r :: rest =>
    if first == '0' && (r == 'b' || r == 'o') then (.intNumber, (digits false rest).prepend [r])
    else if first == '0' && r == 'x' then (.intNumber, (digits true rest).prepend [r])
    else decimal t
  | [] => decimal t

def suffix (t : Text) : Piece := if startsWithWord t then .word t else .nothing t

/-- A number behind its first digit. -/
def scan (first : Char) (t : Text) : Kind × Piece :=
  let (kind, p) := magnitude first t
  (kind, p.andThen suffix)

theorem length_rest_exponent? {t : Text} {p : Piece} (h : exponent? t = some p) :
    p.rest.length ≤ t.length := by
  have hd (r : Text) : (digits false r).rest.length ≤ r.length := Piece.length_rest_takeWhile _ _
  unfold exponent? at h
  split at h
  · split at h
    · split at h
      all_goals
        cases (Option.ite_none_right_eq_some.1 h).2
        exact Nat.le_trans (hd _) (by simp only [List.length_cons]; omega)
    · cases h
  · cases h

theorem length_rest_fraction (t : Text) : (fraction t).rest.length ≤ t.length := by
  unfold fraction
  split
  · have hd : (digits false t).rest.length ≤ t.length := Piece.length_rest_takeWhile _ _
    simp only [Piece.andThen, Piece.prepend]
    cases h : exponent? (digits false t).rest with
    | none => exact hd
    | some p => exact Nat.le_trans (length_rest_exponent? h) hd
  · exact Nat.le_refl _

theorem length_rest_afterDigits (t : Text) : (afterDigits t).2.rest.length ≤ t.length := by
  unfold afterDigits
  split
  · exact Nat.le_trans (length_rest_fraction _) (by simp)
  · split
    next h => exact length_rest_exponent? h
    · exact Nat.le_refl _

theorem length_rest_decimal (t : Text) : (decimal t).2.rest.length ≤ t.length :=
  Nat.le_trans (length_rest_afterDigits _) (Piece.length_rest_takeWhile _ _)

theorem length_rest_magnitude (first : Char) (t : Text) :
    (magnitude first t).2.rest.length ≤ t.length := by
  unfold magnitude
  split
  · split
    · exact Nat.le_succ_of_le (Piece.length_rest_takeWhile _ _)
    · split
      · exact Nat.le_succ_of_le (Piece.length_rest_takeWhile _ _)
      · exact length_rest_decimal _
  · exact length_rest_decimal _

theorem length_rest_suffix (t : Text) : (suffix t).rest.length ≤ t.length := by
  unfold suffix
  split
  · exact Piece.length_rest_takeWhile _ _
  · exact Nat.le_refl _

theorem length_rest_scan (first : Char) (t : Text) : (scan first t).2.rest.length ≤ t.length :=
  Nat.le_trans (length_rest_suffix _) (length_rest_magnitude first t)

end Verbatim.Number
