import Verbatim.Diagnostic
import Verbatim.Report.Margin
import Verbatim.Text.Letters
import Verbatim.Text.Place
import Verbatim.Text.Width

/-!
# Reports

A report shows a message with the line that it is about: where the line stands, the line itself, and
below it marks under the reported span, one for each column and one at least, with a label behind them.
The place is counted in characters. A span is shown on the line that it starts on, and a long line is
cut to what has to be seen of it.
-/
namespace Verbatim

structure Report where
  message : String
  span : Span
  /-- Stands behind the marks. -/
  label : String
  deriving Repr

namespace Report

/-- What is said about the place of a diagnostic. -/
def labelOf : Category → String
  | .unexpectedToken => "here"
  | .unterminatedConstruct => "unterminated"

def ofDiagnostic (d : Diagnostic) : Report := ⟨d.message, d.span, labelOf d.category⟩

/-! ## Rows of cells -/

private def times (n : Nat) (c : Char) : Text := List.replicate n c

/-- Writes a text into a row of cells from a column on, over what stands there. Cells that the row does
not reach yet are blank. -/
def write (row : Text) (column : Nat) (t : Text) : Text :=
  if t.isEmpty then row
  else (row ++ times (column - row.length) ' ').take column ++ t ++ row.drop (column + t.length)

def dots : Text := ['.', '.', '.']

/-! ## The line -/

/-- The lines of a text that a report is about. -/
structure Excerpt where
  /-- Number of the first line. -/
  number : Nat
  /-- The lines that the span touches; only the first is shown. -/
  lines : List Text
  /-- What stands in the first line before the span and up to its end. -/
  before : Text
  upTo : Text
  deriving Repr

def excerpt? (r : Report) (text : Text) : Option Excerpt := do
  let (front, back) ← Text.cut? text r.span.start
  let (marked, rest) ← Text.cut? back r.span.len
  let before := Text.lastLine front
  return ⟨Text.lineFeeds front + 1, Text.lines (before ++ marked ++ Text.firstLine rest), before,
    before ++ marked⟩

/-- How far a line is indented, where a tab counts as four blanks. -/
def indent (line : Text) : Nat :=
  (line.takeWhile Text.isBlank).foldl (fun n c => n + if c == '\t' then 4 else 1) 0

/-- Characters that are left out when a line is shown: they join other characters or turn the direction
of writing, so that the marks would not stand below what they mark. -/
def isLeftOut (c : Char) : Bool :=
  c == '\u200d' || ('\u202a' ≤ c && c ≤ '\u202e') || ('\u2066' ≤ c && c ≤ '\u2069')

/-- A line as it is shown: a tab is four spaces. -/
def shown (line : Text) : Text :=
  (line.filter (!isLeftOut ·)).flatMap fun c => if c == '\t' then times 4 ' ' else [c]

/-- Columns of a row. -/
def columns : Nat := 140

/-- The columns that are marked below a line. -/
def Excerpt.marks (e : Excerpt) (line : Text) : Nat × Nat :=
  let start := Text.width 0 (e.before.take line.length)
  let stop := Text.width 0 (e.upTo.take line.length)
  (start, if start = stop then start + 1 else stop)

def extent (r : Report) (e : Excerpt) (marks : Nat × Nat) : Extent where
  blanks? := ((e.lines.filter fun l => !l.all Text.isBlank).map indent).min?
  markStart := marks.1
  markStop := marks.2
  labelStop := marks.2 + r.label.utf8ByteSize + 1
  longest := (e.lines.map Text.size).foldl max 0
  room := columns - (3 + (toString (e.number + e.lines.length)).length)

/-- The line behind its number, with dots where it is cut. -/
def sourceRow (m : Margin) (offset : Nat) (number : Text) (line : Text) : Text :=
  let size := Text.size line
  let part := Text.fitting (m.rightOf size - m.leftOf size) (line.drop (m.leftOf size))
  let row := write (number ++ [' ', '|']) offset part
  let row := if m.cutsLeft then write row offset dots else row
  if m.cutsRight size then write row (offset + Text.width 1 part - 3) dots else row

/-- The marks and the label. What would stand in front of the row is moved to its first cell. -/
def markRow (m : Margin) (offset : Nat) (bar : Text) (line : Text) (marks : Nat × Nat)
    (label : Text) : Text :=
  let cut := Text.width 1 (line.take (m.leftOf (Text.size line)))
  let start := offset + marks.1 - cut
  let stop := offset + marks.2 - cut
  write (write bar (offset + (marks.2 + 1 - cut)) label) start (times (max 1 (stop - start)) '^')

/-! ## The report -/

def title (r : Report) : Text :=
  (if r.message.isEmpty then "error" else "error: " ++ r.message).toList

/-- Where the line stands, behind as many blanks as the numbers of lines take. -/
def placeRow (gutter : Nat) (path : String) (line column : Nat) : Text :=
  write (write [] gutter "-->".toList) (gutter + 4) path.toList ++
    (":" ++ toString line ++ ":" ++ toString column).toList

/-- The rows of a report. A span behind the last line feed and one in a line that holds nothing touch no
line; then there is only the frame, and the place is the start of the text. -/
def rows? (r : Report) (path : String) (e : Excerpt) : Option (List Text) :=
  match e.lines with
  | [] => some [r.title, placeRow 0 path 1 1, [' ', '|'], [' ', '|']]
  | line :: _ => do
    let marks := e.marks line
    let m ← Margin.fit? (r.extent e marks)
    let number := (toString e.number).toList
    let offset := number.length + 3
    let bar := times (number.length + 1) ' ' ++ ['|']
    return [r.title, placeRow number.length path e.number ((e.before.take line.length).length + 1),
      bar, sourceRow m offset number (shown line), markRow m offset bar (shown line) marks r.label.toList,
      bar]

/-- The report on a text that was read from `path`, unless its span does not lie in the text or the line
cannot be cut. -/
def render? (r : Report) (path : String) (text : Text) : Option String := do
  let rows ← r.rows? path (← r.excerpt? text)
  return String.intercalate "\n" (rows.map String.ofList)

end Report

end Verbatim
