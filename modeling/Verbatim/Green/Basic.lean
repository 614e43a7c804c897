import Verbatim.Kind
import Verbatim.Text.Basic

/-!
# Green trees

The tree of a text without positions: tokens hold the exact text they cover, nodes hold their children
and, so that offsets are cheap to find, the size of all the text below them. `branch` is the only way
the library makes a node, and it sets that size.
-/
namespace Verbatim

inductive Green where
  | token (kind : Kind) (text : Text)
  | node (kind : Kind) (size : Nat) (children : List Green)
  deriving Repr, Inhabited

namespace Green

def kind : Green → Kind
  | token k _ => k
  | node k _ _ => k

/-- Number of bytes covered, read off without a walk through the tree. -/
def size : Green → Nat
  | token _ t => Text.size t
  | node _ n _ => n

def children : Green → List Green
  | token _ _ => []
  | node _ _ cs => cs

def isToken : Green → Bool
  | token _ _ => true
  | node _ _ _ => false

def isNode (g : Green) : Bool := !g.isToken

/-- Number of bytes that a row of elements covers. -/
def totalSize (gs : List Green) : Nat := gs.foldr (fun g n => g.size + n) 0

/-- A node over the given children. -/
def branch (k : Kind) (cs : List Green) : Green := node k (totalSize cs) cs

mutual
/-- The text below an element: its tokens' texts in order. -/
def text : Green → Text
  | token _ t => t
  | node _ _ cs => texts cs

def texts : List Green → Text
  | [] => []
  | g :: gs => text g ++ texts gs
end

mutual
/-- The tokens below an element, in order. -/
def leaves : Green → List (Kind × Text)
  | token k t => [(k, t)]
  | node _ _ cs => leavesOf cs

def leavesOf : List Green → List (Kind × Text)
  | [] => []
  | g :: gs => leaves g ++ leavesOf gs
end

mutual
/-- Structural equality. -/
def same : Green → Green → Bool
  | token k t, token k' t' => k == k' && t == t'
  | node k n cs, node k' n' cs' => k == k' && n == n' && sameAll cs cs'
  | _, _ => false

def sameAll : List Green → List Green → Bool
  | [], [] => true
  | g :: gs, g' :: gs' => same g g' && sameAll gs gs'
  | _, _ => false
end

instance : BEq Green := ⟨same⟩

mutual
theorem same_iff : ∀ {g h : Green}, same g h = true ↔ g = h
  | token _ _, token _ _ => by simp [same]
  | token _ _, node _ _ _ => by simp [same]
  | node _ _ _, token _ _ => by simp [same]
  | node _ _ cs, node _ _ ds => by simp [same, @sameAll_iff cs ds, and_assoc]

theorem sameAll_iff : ∀ {gs hs : List Green}, sameAll gs hs = true ↔ gs = hs
  | [], [] => by simp [sameAll]
  | [], _ :: _ => by simp [sameAll]
  | _ :: _, [] => by simp [sameAll]
  | g :: gs, h :: hs => by simp [sameAll, @same_iff g h, @sameAll_iff gs hs]
end

instance : LawfulBEq Green where
  eq_of_beq := same_iff.mp
  rfl := same_iff.mpr rfl

mutual
/-- Length of the longest chain of nodes; tokens do not count. -/
def depth : Green → Nat
  | token _ _ => 0
  | node _ _ cs => depthOf cs + 1

def depthOf : List Green → Nat
  | [] => 0
  | g :: gs => max (depth g) (depthOf gs)
end

/-- The same node with the child at `index` exchanged. -/
def withChild (g : Green) (index : Nat) (child : Green) : Green :=
  branch g.kind (g.children.set index child)

end Green

end Verbatim
