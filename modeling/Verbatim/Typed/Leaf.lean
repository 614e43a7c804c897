import Verbatim.Text.Basic

/-!
# Inside of tokens

What the texts of comments, identifiers and integers say. Nothing is assumed about a text but that it is
one: any text has an answer.
-/
namespace Verbatim.Typed

namespace Comment

def isBlock (t : Text) : Bool := t.startsWith "/*".toList

/-- Whether `mark` stands in front and is not followed by `next`. -/
private def opensWith (mark : Text) (next : Char) (t : Text) : Bool :=
  t.startsWith mark && (t.drop mark.length).head? != some next

/-- Comments that document what they stand at. One more slash or star makes an ordinary comment of it,
and so does a star that closes the comment at once. -/
def isDoc (t : Text) : Bool :=
  opensWith "///".toList '/' t || (opensWith "/**".toList '*' t && t != "/**/".toList) ||
    t.startsWith "//!".toList || t.startsWith "/*!".toList

/-- The text without `mark` at its end, if it stands there. -/
private def withoutEnd (mark t : Text) : Text :=
  if mark.isSuffixOf t then t.take (t.length - mark.length) else t

/-- A comment without its delimiters. -/
def body (t : Text) : Text :=
  if isBlock t then withoutEnd "*/".toList (t.drop 2)
  else (t.dropWhile (· == '/')).dropWhile (· == '!')

end Comment

namespace Ident

/-- An identifier without the mark that keeps it from being a reserved word. -/
def unraw : Text → Text
  | 'r' :: '#' :: rest => rest
  | t => t

end Ident

namespace Integer

def radix : Text → Nat
  | '0' :: 'x' :: _ => 16
  | '0' :: 'o' :: _ => 8
  | '0' :: 'b' :: _ => 2
  | _ => 10

/-- What a character counts as a digit. -/
def digit? (radix : Nat) (c : Char) : Option Nat :=
  let value? :=
    if c.isDigit then some (c.toNat - '0'.toNat)
    else if 'a' ≤ c && c ≤ 'f' then some (c.toNat - 'a'.toNat + 10)
    else if 'A' ≤ c && c ≤ 'F' then some (c.toNat - 'A'.toNat + 10)
    else none
  value?.filter (· < radix)

/-- The digits in front of the suffix, without underscores. -/
def digits (t : Text) : List Nat :=
  let written := if radix t = 10 then t else t.drop 2
  (written.takeWhile fun c => c == '_' || (digit? (radix t) c).isSome).filterMap (digit? (radix t))

/-- The number that some digits write, the most significant first. -/
def ofDigits (radix : Nat) (ds : List Nat) : Nat := ds.foldl (fun n d => n * radix + d) 0

/-- The value of an integer token: it has a digit at least and stays below 2 ^ 128. -/
def value? (t : Text) : Option Nat :=
  let ds := digits t
  let n := ofDigits (radix t) ds
  if ds.isEmpty || Nat.pow 2 128 ≤ n then none else some n

end Integer

end Verbatim.Typed
