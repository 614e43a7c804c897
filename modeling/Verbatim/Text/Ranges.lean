/-!
# Sets of characters as ranges

A property of characters is given by the sorted list of the closed ranges of code points that have it.
-/
namespace Verbatim.Text

/-- Whether a code point lies in one of the ranges; the search stops at the first range above it. -/
def inRanges (n : Nat) : List (Nat × Nat) → Bool
  | [] => false
  | (lo, hi) :: rest => if n < lo then false else n ≤ hi || inRanges n rest

end Verbatim.Text
