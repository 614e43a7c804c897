import Verbatim.Token.Basic

/-!
# What the parser sees

The parser sees the kinds of the tokens that are not trivia and, for each of them, whether the next one
follows it directly: one bit for each, packed in words of 64. Composite punctuation is recognised from
those two: its pieces stand in a row with nothing in between.
-/
namespace Verbatim

structure Input where
  kinds : Array Kind
  /-- A bit for each kind, and zeros behind the last. -/
  joint : Array UInt64
  deriving Repr

namespace Input

/-- The bit of place `i` in its word. -/
def bit (i : Nat) : UInt64 := 1 <<< UInt64.ofNat (i % 64)

/-- Sees one more token. Every 64th one starts a new word. -/
def push (input : Input) (k : Kind) : Input where
  kinds := input.kinds.push k
  joint := if input.kinds.size % 64 == 0 then input.joint.push 0 else input.joint

/-- Notes that the next token follows the last one directly. -/
def join (input : Input) : Input :=
  let last := input.kinds.size - 1
  { input with joint := input.joint.modify (last / 64) (· ||| bit last) }

/-- Sees tokens one after the other, up to the end. Only where the next one comes, the one before is noted
as joint: `follows` tells whether there was one, and no trivia since. -/
def see (input : Input) (follows : Bool) : List Token → Input
  | [] => input
  | t :: rest =>
    if t.kind == .eof then input
    else if t.isTrivia then input.see false rest
    else ((if follows then input.join else input).push t.kind).see true rest

def ofTokens (tokens : List Token) : Input := see ⟨#[], #[]⟩ false tokens

def length (input : Input) : Nat := input.kinds.size

/-- The kind at a place; behind the last token stands the end. -/
def kind (input : Input) (i : Nat) : Kind := input.kinds.getD i .eof

def isJoint (input : Input) (i : Nat) : Bool :=
  input.joint[i / 64]?.any fun word => word &&& bit i != 0

/-- Whether tokens of the given kinds stand in a row from `i` on, glued together. -/
def glued (input : Input) (i : Nat) : List Kind → Bool
  | [] => true
  | [k] => input.kind i == k
  | k :: ks => input.kind i == k && input.isJoint i && input.glued (i + 1) ks

/-- Whether a token of kind `k`, simple or composite, is written at `i`. -/
def isAt (input : Input) (i : Nat) (k : Kind) : Bool := input.glued i k.pieces

end Input

end Verbatim
