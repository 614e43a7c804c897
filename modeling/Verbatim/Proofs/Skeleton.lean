import Verbatim.Proofs.Trivia

/-!
# Skeletons

The kinds of a tree, without its trivia. An outline shows the skeleton of all that grows from it: trivia are
the only thing that growing adds.
-/
namespace Verbatim

/-- The kinds of a tree. -/
inductive Skeleton where
  | leaf (kind : Kind)
  | node (kind : Kind) (children : List Skeleton)
  deriving Repr

namespace Skeleton

def kind : Skeleton → Kind
  | leaf k | node k _ => k

def children : Skeleton → List Skeleton
  | leaf _ => []
  | node _ cs => cs

def isNode : Skeleton → Bool
  | leaf _ => false
  | node _ _ => true

mutual
/-- All nodes of a skeleton are in `P`. -/
def All (P : Skeleton → Prop) : Skeleton → Prop
  | leaf _ => True
  | node k cs => P (node k cs) ∧ AllOf P cs

def AllOf (P : Skeleton → Prop) : List Skeleton → Prop
  | [] => True
  | x :: xs => All P x ∧ AllOf P xs
end

theorem allOf_append {P : Skeleton → Prop} {xs ys : List Skeleton} :
    AllOf P (xs ++ ys) ↔ AllOf P xs ∧ AllOf P ys := by
  induction xs with
  | nil => simp [AllOf]
  | cons x xs ih => simp only [List.cons_append, AllOf, ih, and_assoc]

end Skeleton

open Skeleton

namespace Green

mutual
/-- The kinds of a tree without trivia. -/
def skeleton : Green → Skeleton
  | token k _ => .leaf k
  | node k _ cs => .node k (skeletons cs)

/-- The same for some elements, of which those that are trivia go. -/
def skeletons : List Green → List Skeleton
  | [] => []
  | token k _ :: gs => if k.isTrivia then skeletons gs else .leaf k :: skeletons gs
  | node k n cs :: gs => skeleton (node k n cs) :: skeletons gs
end

theorem skeletons_append (gs hs : List Green) : skeletons (gs ++ hs) = skeletons gs ++ skeletons hs := by
  induction gs with
  | nil => rfl
  | cons g gs ih =>
    cases g with
    | token k t =>
      simp only [List.cons_append, skeletons, ih]
      split <;> rfl
    | node k n cs => simp only [List.cons_append, skeletons, ih]

theorem skeletons_of_trivia {placed : List Token} (h : ∀ t ∈ placed, t.isTrivia = true) :
    skeletons (placed.map Token.leaf) = [] := by
  induction placed with
  | nil => rfl
  | cons t placed ih =>
    have first : t.kind.isTrivia = true := h t List.mem_cons_self
    rw [List.map_cons, Token.leaf, skeletons, if_pos first]
    exact ih fun t ht => h t (List.mem_cons_of_mem _ ht)

end Green

open Green Token

namespace Outline

mutual
/-- What an outline shows of a skeleton. -/
def skeleton : Outline → List Skeleton
  | token k _ => [.leaf k]
  | error _ | fault _ | void => []
  | node k row => [.node k (skeletonOf row)]
  | around k inner row => [.node k (skeleton inner ++ skeletonOf row)]

def skeletonOf : List Outline → List Skeleton
  | [] => []
  | o :: older => skeletonOf older ++ skeleton o
end

theorem skeletonOf_append (new old : List Outline) :
    skeletonOf (new ++ old) = skeletonOf old ++ skeletonOf new := by
  induction new with
  | nil => simp [skeletonOf]
  | cons o new ih => simp only [List.cons_append, skeletonOf, ih, List.append_assoc]

/-- Only a node shows a node. -/
theorem skeleton_of_isNode {o : Outline} (h : o.isNode = true) :
    ∃ k cs, skeleton o = [.node k cs] := by
  cases o with
  | node k row => exact ⟨k, _, rfl⟩
  | around k inner row => exact ⟨k, _, rfl⟩
  | _ => exact absurd h nofun

theorem skeletons_trivia (ts : List Token) : skeletons (Sprout.trivia ts).greens = [] :=
  skeletons_of_trivia fun _ ht => List.mem_takeWhile_imp ht

theorem skeletons_outer (k : Kind) (ts : List Token) : skeletons (Sprout.outer k ts).greens = [] :=
  skeletons_of_trivia fun _ ht => List.mem_takeWhile_imp (List.mem_of_mem_take ht)

variable {input : Input}

/-- No trivia are taken. -/
theorem visible_of_fits (seen : ∀ i, (input.kind i).isTrivia = false) {k : Kind} {n i : Nat}
    (hf : Fits input (token k n) i) : k.isTrivia = false := by
  rw [← Bool.not_eq_true]
  intro trivia
  have simple : k.IsSimple := by cases k <;> first | rfl | simp [Kind.isTrivia] at trivia
  have here : input.isAt i k = (input.kind i == k) := Input.isAt_simple simple i
  rw [hf.1, eq_comm, beq_iff_eq] at here
  simp [← here, seen i] at trivia

/-- The parser sees no trivia of a text. -/
theorem seen_of_list (t : Text) (i : Nat) : ((Input.ofTokens (Token.list t)).kind i).isTrivia = false := by
  rw [Input.kind_eq_getElem?, Input.kinds_ofTokens_list]
  cases h : (((words (Token.list t)).map (·.kind)))[i]? with
  | none => rfl
  | some k =>
    obtain ⟨x, hx, rfl⟩ := List.mem_map.mp (List.mem_of_getElem? h)
    have visible : x.isTrivia = false := by simpa using (List.mem_filter.mp hx).2
    simpa [h] using show x.kind.isTrivia = false from visible

mutual
/-- What grows from an outline has its skeleton. -/
theorem skeletons_grow (seen : ∀ i, (input.kind i).isTrivia = false) (stop : Nat) :
    ∀ (o : Outline) (ts : List Token) {i : Nat}, Fits input o i →
      skeletons (o.grow stop ts).greens = skeleton o
  | .token k n, ts, i, hf => by
    have visible := visible_of_fits seen hf
    rw [grow, Sprout.andThen, skeletons_append, skeletons_trivia, Sprout.taken]
    simp only [skeletons, visible, List.nil_append]
    rfl
  | .error _, _, _, _ => rfl
  | .fault _, _, _, _ => rfl
  | .void, _, _, _ => by rw [grow]; rfl
  | .node k row, ts, i, hf => by
    have inside := skeletons_growOf seen stop row (Sprout.trivia (Sprout.outer k ts).rest).rest hf
    rw [grow, Sprout.andThen, skeletons_append, skeletons_outer]
    simp only [Sprout.under, Sprout.andThen, branch, skeletons, Green.skeleton, skeletons_append, skeletons_trivia,
      inside, List.nil_append, skeleton]
  | .around k inner row, ts, i, hf => by
    have first := skeletons_grow seen stop inner (Sprout.trivia (Sprout.outer k ts).rest).rest hf.1
    have second := skeletons_growOf seen stop row
      (inner.grow stop (Sprout.trivia (Sprout.outer k ts).rest).rest).rest hf.2
    rw [grow, Sprout.andThen, skeletons_append, skeletons_outer]
    simp only [Sprout.under, Sprout.andThen, branch, skeletons, Green.skeleton, skeletons_append, skeletons_trivia,
      first, second, List.nil_append, skeleton]

theorem skeletons_growOf (seen : ∀ i, (input.kind i).isTrivia = false) (stop : Nat) :
    ∀ (row : List Outline) (ts : List Token) {i : Nat}, FitsOf input row i →
      skeletons (growOf stop row ts).greens = skeletonOf row
  | [], _, _, _ => rfl
  | o :: older, ts, i, hf => by
    rw [growOf, Sprout.andThen, skeletons_append, skeletons_growOf seen stop older ts hf.1,
      skeletons_grow seen stop o _ hf.2, skeletonOf]
end

/-- The skeleton of the tree of a text is that of its outline. -/
theorem skeletons_whole {t : Text} {row : List Outline} (fits : FitsOf (.ofTokens (Token.list t)) row 0) :
    skeletons (whole row (Token.list t)).greens = skeletonOf row := by
  rw [whole, Sprout.andThen, skeletons_append, skeletons_trivia, List.append_nil,
    skeletons_growOf (seen_of_list t) _ row _ fits]

end Outline

end Verbatim
