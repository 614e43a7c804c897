import Verbatim.Position.Basic

/-!
# Finding elements by offset
-/
namespace Verbatim

/-- The tokens that touch an offset: none outside of a tree, one inside of a token, two at a seam. -/
inductive TokensAt where
  | none
  | single (token : Position)
  | between (left right : Position)

namespace TokensAt

def toList : TokensAt → List Position
  | none => []
  | single t => [t]
  | between l r => [l, r]

def left? : TokensAt → Option Position
  | none => .none
  | single t => some t
  | between l _ => some l

def right? : TokensAt → Option Position
  | none => .none
  | single t => some t
  | between _ r => some r

/-- Joins the answers of two neighbours at their seam. -/
def join : TokensAt → TokensAt → TokensAt
  | single l, single r => between l r
  | l, _ => l

end TokensAt

namespace Position

mutual
/-- The tokens below the element `g`, which stands at `p`, that touch `offset`. -/
def tokensIn (p : Position) (offset : Nat) : Green → TokensAt
  | .token _ _ => .single p
  | .node _ _ cs =>
    if p.span.isEmpty || !p.span.touches offset then .none
    else match touchingOf p offset 0 0 cs with
      | [] => .none
      | [only] => only
      | left :: right :: _ => left.join right

/-- The answers of the children that touch `offset` and are not empty. -/
def touchingOf (p : Position) (offset index rel : Nat) : List Green → List TokensAt
  | [] => []
  | g :: gs =>
    let c := child p index g (p.known?.map (· + rel))
    let rest := touchingOf p offset (index + 1) (rel + g.size) gs
    if !c.span.isEmpty && c.span.touches offset then tokensIn c offset g :: rest else rest
end

def tokensAt (p : Position) (offset : Nat) : TokensAt := tokensIn p offset p.element

/-- The first child whose span covers `span`. -/
def childCovering? (p : Position) (span : Span) : Option Position :=
  p.children.find? (·.span.covers span)

mutual
/-- Descends from the element `g` at `p` into the first child that covers `span`, as long as there is
one. -/
def coveringIn (p : Position) (span : Span) : Green → Position
  | .token _ _ => p
  | .node _ _ cs => (coveringOf p span 0 0 cs).getD p

def coveringOf (p : Position) (span : Span) (index rel : Nat) : List Green → Option Position
  | [] => none
  | g :: gs =>
    let c := child p index g (p.known?.map (· + rel))
    if c.span.covers span then some (coveringIn c span g)
    else coveringOf p span (index + 1) (rel + g.size) gs
end

/-- The smallest element that covers `span`; the position itself if it does not cover it. -/
def covering (p : Position) (span : Span) : Position :=
  if p.span.covers span then coveringIn p span p.element else p

end Position

end Verbatim
