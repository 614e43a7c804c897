import Verbatim.Text.Basic

/-!
# Lines and columns

A line ends behind its line feed. Lines and columns are counted from zero, columns in bytes.
-/
namespace Verbatim.Text

structure Place where
  line : Nat
  column : Nat
  deriving DecidableEq, Repr

/-- Number of line feeds. -/
def lineFeeds (t : Text) : Nat := t.countP (· == '\n')

/-- What stands behind the last line feed. -/
def lastLine (t : Text) : Text := (t.reverse.takeWhile (· != '\n')).reverse

/-- What stands before the first line feed. -/
def firstLine (t : Text) : Text := t.takeWhile (· != '\n')

/-- The lines of a text without their ends, which are line feeds with or without a carriage return in
front. What follows the last end is a line if it is not empty. -/
def lines : Text → List Text
  | [] => []
  | '\r' :: '\n' :: t => [] :: lines t
  | '\n' :: t => [] :: lines t
  | c :: t =>
    match lines t with
    | [] => [[c]]
    | line :: rest => (c :: line) :: rest

/-- Where an offset is, unless it lies outside of the text or inside of a character. -/
def place? (t : Text) (offset : Nat) : Option Place :=
  (cut? t offset).map fun (front, _) => ⟨lineFeeds front, size (lastLine front)⟩

end Verbatim.Text
