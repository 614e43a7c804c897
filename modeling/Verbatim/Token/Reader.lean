import Verbatim.Token.Scan

/-!
# Reading a text token by token

A reader stands somewhere in a text and gives the token that starts there. At the end of the text it
stays where it is and gives the end token again and again.
-/
namespace Verbatim.Token

structure Reader where
  offset : Nat
  rest : Text
  deriving DecidableEq, Repr

namespace Reader

/-- At the start of a text. -/
def of (t : Text) : Reader := ⟨0, t⟩

/-- The next token, and the reader behind it. -/
def next : Reader → Token × Reader
  | ⟨offset, []⟩ => (⟨.eof, [], offset, none⟩, ⟨offset, []⟩)
  | ⟨offset, c :: t⟩ =>
    let scanned := scan c t
    let text := c :: scanned.2.text
    (⟨scanned.1, text, offset, scanned.2.fault⟩, ⟨offset + Text.size text, scanned.2.rest⟩)

/-- The reader after `n` tokens have been read. -/
def skip (r : Reader) : Nat → Reader
  | 0 => r
  | n + 1 => r.next.2.skip n

/-- What the reader gives when `n` tokens have been read before. -/
def token (r : Reader) (n : Nat) : Token := (r.skip n).next.1

end Reader

end Verbatim.Token
