import Verbatim.Green.Listing

/-!
# Positions in a tree

A position is an element of a tree together with the way back to the root. Offsets are not part of the
tree: a position finds its own from its parent's, unless it knows it already because it was reached by
counting along a row of children. What is known never changes an answer.
-/
namespace Verbatim

inductive Position where
  | root (tree : Green)
  | child (parent : Position) (index : Nat) (element : Green) (known : Option Nat)
  deriving Repr, Inhabited

namespace Position

def element : Position → Green
  | root tree => tree
  | child _ _ e _ => e

def parent? : Position → Option Position
  | root _ => none
  | child p _ _ _ => some p

/-- Place among the children of the parent. -/
def index : Position → Nat
  | root _ => 0
  | child _ i _ _ => i

/-- The offset, where it is known without counting. -/
def known? : Position → Option Nat
  | root _ => some 0
  | child _ _ _ known => known

def kind (p : Position) : Kind := p.element.kind

def size (p : Position) : Nat := p.element.size

def text (p : Position) : Text := p.element.text

def isToken (p : Position) : Bool := p.element.isToken

def isNode (p : Position) : Bool := p.element.isNode

/-- How far behind the start of an element its child at `index` starts. -/
def relativeOffset (e : Green) (index : Nat) : Nat := Green.totalSize (e.children.take index)

/-- Offset of the first byte. -/
def offset : Position → Nat
  | root _ => 0
  | child p i _ known => known.getD (p.offset + relativeOffset p.element i)

/-- The same position with its offset and those above it known. -/
def settled : Position → Position
  | root tree => root tree
  | child p i e known => child p.settled i e (some (child p i e known).offset)

def span (p : Position) : Span := ⟨p.offset, p.size⟩

/-- The same content at the same offset. -/
def same (p q : Position) : Bool := p.element == q.element && p.offset == q.offset

def label (p : Position) : String := Row.label p.kind p.span

/-- The label, and the text of a token. -/
def render (p : Position) : String :=
  match p.element with
  | .token _ t => p.label ++ " " ++ Text.quoted t
  | .node _ _ _ => p.label

def dump (p : Position) : String :=
  String.join ((Green.rowsAt 0 p.offset p.element).map Row.line)

/-- The position itself and all above it, the innermost first. -/
def ancestors : Position → List Position
  | root tree => [root tree]
  | child p i e known => child p i e known :: p.ancestors

/-- The places of the children to go through from the root. -/
def path : Position → List Nat
  | root _ => []
  | child p i _ _ => p.path ++ [i]

/-- The outermost position. -/
def top : Position → Position
  | root tree => root tree
  | child p _ _ _ => p.top

/-! ## Children -/

/-- Children of `p` from place `index` on, which starts `rel` bytes behind the start of `p`. -/
def childrenFrom (p : Position) (index rel : Nat) : List Green → List Position
  | [] => []
  | g :: gs =>
    child p index g (p.known?.map (· + rel)) :: p.childrenFrom (index + 1) (rel + g.size) gs

def children (p : Position) : List Position := p.childrenFrom 0 0 p.element.children

def nodes (p : Position) : List Position := p.children.filter isNode

/-- The child at a place, its offset left to be counted. -/
def childAt? (p : Position) (index : Nat) : Option Position :=
  p.element.children[index]?.map fun g => child p index g none

/-- Children before place `count`, the nearest first, their offsets left to be counted. -/
def childrenBefore (p : Position) (count : Nat) : List Position :=
  (List.range count).reverse.filterMap p.childAt?

def firstChildOrToken? (p : Position) : Option Position := p.children.head?

def lastChildOrToken? (p : Position) : Option Position :=
  (p.childrenBefore p.element.children.length).head?

def firstChild? (p : Position) : Option Position := p.nodes.head?

def lastChild? (p : Position) : Option Position :=
  (p.childrenBefore p.element.children.length).find? isNode

/-! ## Siblings -/

/-- The siblings behind a position. -/
def following : Position → List Position
  | root _ => []
  | child p i e _ =>
    p.childrenFrom (i + 1) (relativeOffset p.element i + e.size) (p.element.children.drop (i + 1))

/-- The siblings before a position, the nearest first. -/
def preceding : Position → List Position
  | root _ => []
  | child p i _ _ => p.childrenBefore i

def nextSibling? (p : Position) : Option Position := p.following.find? isNode

def prevSibling? (p : Position) : Option Position := p.preceding.find? isNode

def nextSiblingOrToken? (p : Position) : Option Position :=
  p.parent?.bind (·.childAt? (p.index + 1))

def prevSiblingOrToken? (p : Position) : Option Position := p.preceding.head?

/-! ## Tokens -/

mutual
/-- The first token below the element `g` that stands at `p`. -/
def firstTokenIn (p : Position) : Green → Option Position
  | .token _ _ => some p
  | .node _ _ cs => firstTokenOf p 0 0 cs

def firstTokenOf (p : Position) (index rel : Nat) : List Green → Option Position
  | [] => none
  | g :: gs =>
    match firstTokenIn (child p index g (p.known?.map (· + rel))) g with
    | some t => some t
    | none => firstTokenOf p (index + 1) (rel + g.size) gs
end

mutual
/-- The last token below the element `g` that stands at `p`. -/
def lastTokenIn (p : Position) : Green → Option Position
  | .token _ _ => some p
  | .node _ _ cs => lastTokenOf p 0 cs

def lastTokenOf (p : Position) (index : Nat) : List Green → Option Position
  | [] => none
  | g :: gs =>
    match lastTokenOf p (index + 1) gs with
    | some t => some t
    | none => lastTokenIn (child p index g none) g
end

def firstToken? (p : Position) : Option Position := firstTokenIn p p.element

def lastToken? (p : Position) : Option Position := lastTokenIn p p.element

/-- The next token in the whole tree; nodes without tokens are passed over. -/
def nextToken? : Position → Option Position
  | root _ => none
  | child p i e _ =>
    match firstTokenOf p (i + 1) (relativeOffset p.element i + e.size)
        (p.element.children.drop (i + 1)) with
    | some t => some t
    | none => p.nextToken?

/-- The previous token in the whole tree. -/
def prevToken? : Position → Option Position
  | root _ => none
  | child p i _ _ =>
    match lastTokenOf p 0 (p.element.children.take i) with
    | some t => some t
    | none => p.prevToken?

/-! ## Replacing -/

/-- The tree in which `replacement` stands at this position. All that is not above the position is kept
as it is. -/
def replaceWith : Position → Green → Green
  | root _, replacement => replacement
  | child p i _ _, replacement => p.replaceWith (p.element.withChild i replacement)

end Position

end Verbatim
