/-!
# Margins of long lines

A line that is longer than the room for it is cut at its ends. Blanks in front go first, where there are
many of them; if that is not enough, the cut follows the marked columns and their label, as far as there
is room for both.
-/
namespace Verbatim.Report

/-- What a margin is chosen by. Columns count from zero, and a stop is the first column behind. -/
structure Extent where
  /-- Blanks in front of every line that holds something else; `none` if no line does. -/
  blanks? : Option Nat
  markStart : Nat
  markStop : Nat
  labelStop : Nat
  /-- Bytes of the longest line. -/
  longest : Nat
  /-- Columns that there is room for. -/
  room : Nat
  deriving DecidableEq, Repr

structure Margin where
  /-- Columns cut in front. -/
  left : Nat
  /-- The first column cut behind. -/
  right : Nat
  /-- Where the part that has to be seen stops. -/
  seen : Nat
  room : Nat
  deriving DecidableEq, Repr

namespace Margin

/-- Columns kept free beside what is marked, for the dots that stand for what is cut. -/
def padding : Nat := 6

/-- Blanks in front are cut where there are more than this. -/
def manyBlanks : Nat := 20

/-- Blanks that are kept where some are cut. -/
def keptBlanks : Nat := 16

/-- The margin of lines that hold nothing but blanks: it starts behind all of them, also where every
blank is a tab and takes four columns. -/
def ofBlanks (x : Extent) : Margin :=
  let behind := 4 * x.longest + 1
  ⟨behind, behind, behind, x.room⟩

/-- The margin for an extent. There is none where the blanks in front of a long line reach behind the
label. -/
def fit? (x : Extent) : Option Margin :=
  match x.blanks? with
  | none => some (ofBlanks x)
  | some blanks =>
    let blanks := blanks - padding
    let markLeft := x.markStart - padding
    let markRight := x.markStop + padding
    let labelRight := x.labelStop + padding
    let within (left right : Nat) : Margin :=
      ⟨left, right, if right = markRight || right = labelRight then right - padding else right, x.room⟩
    let left := if manyBlanks < blanks then blanks - keptBlanks else 0
    let right := max x.longest left
    if right - left ≤ x.room then some (within left right)
    else if labelRight < blanks then none
    else if labelRight - blanks ≤ x.room then some (within blanks (blanks + x.room))
    else if labelRight - markLeft ≤ x.room then
      let left := markLeft - (x.room - (labelRight - markLeft)) / 2
      some (within left (left + x.room))
    else if markRight - markLeft ≤ x.room then
      let left := markLeft - (x.room - (markRight - markLeft)) / 5 * 2
      some (within left (left + x.room))
    else some (within markLeft markRight)

/-- Columns cut in front of a line of `size` bytes. -/
def leftOf (m : Margin) (size : Nat) : Nat := min m.left size

/-- The first column cut behind in a line of `size` bytes. -/
def rightOf (m : Margin) (size : Nat) : Nat :=
  if size - m.left ≤ m.room then size else min size m.right

def cutsLeft (m : Margin) : Bool := 0 < m.left

/-- Whether a line of `size` bytes neither ends in sight nor fits. -/
def cutsRight (m : Margin) (size : Nat) : Bool := m.seen < size && m.left + m.room < size

end Margin

end Verbatim.Report
