import Mathlib.Tactic.Common
import Verbatim.Typed.Place
import Verbatim.Proofs.Formed

/-!
# Children of a position

The children stand behind each other in the order of their places, each of them inside of its parent. What
holds of every position whose children it holds of holds of all positions.
-/
namespace Verbatim

theorem Green.sizeOf_child_lt {g c : Green} {i : Nat} (h : g.children[i]? = some c) :
    sizeOf c < sizeOf g := by
  cases g with
  | token k t => simp [children] at h
  | node k n cs =>
    have inside := List.sizeOf_lt_of_mem (List.mem_of_getElem? (show cs[i]? = some c from h))
    rw [node.sizeOf_spec]
    omega

/-- Descent from an element to its children. -/
theorem Green.descent {P : Green → Prop}
    (step : ∀ g : Green, (∀ (i : Nat) (c : Green), g.children[i]? = some c → P c) → P g) (g : Green) : P g := by
  generalize size : sizeOf g = n
  induction n using Nat.strongRecOn generalizing g with
  | ind n ih =>
    apply step
    intro i c child
    exact ih (sizeOf c) (size ▸ sizeOf_child_lt child) c rfl

namespace Position

open Green

/-! ## The places of children -/

/-- The children from a place on are the one that stands there and those from the next place on, which is
where it ends. -/
theorem next_place {e g : Green} {gs : List Green} {index rel : Nat} (hd : e.children.drop index = g :: gs)
    (hr : rel = relativeOffset e index) : e.children[index]? = some g ∧ e.children.drop (index + 1) = gs ∧
      rel + g.size = relativeOffset e (index + 1) := by
  have here : e.children[index]? = some g := by rw [← List.head?_drop, hd, List.head?_cons]
  refine ⟨here, ?_, ?_⟩
  · rw [← List.tail_drop, hd, List.tail_cons]
  · rw [relativeOffset_succ here, hr]

theorem getElem?_childrenFrom (p : Position) (gs : List Green) {index rel : Nat}
    (hd : p.element.children.drop index = gs) (hr : rel = relativeOffset p.element index) (k : Nat) :
    (p.childrenFrom index rel gs)[k]? = gs[k]?.map fun g =>
      child p (index + k) g (p.known?.map (· + relativeOffset p.element (index + k))) := by
  induction gs generalizing index rel k with
  | nil => rfl
  | cons g gs ih =>
    obtain ⟨-, behind, next⟩ := next_place hd hr
    cases k with
    | zero =>
      rw [hr]
      rfl
    | succ k =>
      have rest := ih behind next k
      rw [Nat.add_right_comm] at rest
      exact rest

/-- The children of a position are made from the children of its element, with their offsets counted. -/
theorem mem_children {p c : Position} : c ∈ p.children ↔ ∃ i g, p.element.children[i]? = some g ∧
    c = child p i g (p.known?.map (· + relativeOffset p.element i)) := by
  have places (i : Nat) : p.children[i]? = p.element.children[i]?.map fun g =>
      child p i g (p.known?.map (· + relativeOffset p.element i)) := by
    have row := @getElem?_childrenFrom p p.element.children 0 0 rfl rfl i
    rwa [Nat.zero_add] at row
  rw [List.mem_iff_getElem?]
  constructor
  · rintro ⟨i, hc⟩
    rw [places, Option.map_eq_some_iff] at hc
    obtain ⟨g, hg, rfl⟩ := hc
    exact ⟨i, g, hg, rfl⟩
  · rintro ⟨i, g, hg, rfl⟩
    exact ⟨i, by rw [places, hg, Option.map_some]⟩

/-- Descent from a position to its children. -/
theorem descent {P : Position → Prop} (step : ∀ p, (∀ c ∈ p.children, P c) → P p) (p : Position) : P p := by
  generalize element : p.element = g
  induction g using Green.descent generalizing p with
  | step g ih =>
    apply step
    intro c hc
    obtain ⟨i, e, child, rfl⟩ := mem_children.mp hc
    exact ih i e (element ▸ child) _ rfl

/-! ## What is above a position -/

theorem mem_ancestors_self (p : Position) : p ∈ p.ancestors := by
  cases p with
  | root t => exact List.mem_cons_self
  | child p i e known => exact List.mem_cons_self

theorem mem_ancestors_trans {q r : Position} (pq : p ∈ q.ancestors) (qr : q ∈ r.ancestors) :
    p ∈ r.ancestors := by
  induction r with
  | root t =>
    obtain rfl := List.mem_singleton.mp qr
    exact pq
  | child r i e known ih =>
    rcases List.mem_cons.mp qr with rfl | qr
    · exact pq
    · exact List.mem_cons_of_mem _ (ih qr)

theorem mem_ancestors_child {c : Position} (h : c ∈ p.children) : p ∈ c.ancestors := by
  obtain ⟨i, g, -, rfl⟩ := mem_children.mp h
  exact List.mem_cons_of_mem _ (mem_ancestors_self p)

/-! ## The order of children -/

theorem offset_counted (p : Position) {g : Green} {index rel : Nat} (hr : rel = relativeOffset p.element index) :
    (child p index g (p.known?.map (· + rel))).offset = p.offset + rel := by
  rw [offset]
  cases known : p.known? with
  | none =>
    rw [hr]
    rfl
  | some n =>
    rw [offset_of_known known]
    rfl

/-- A child from place `index` on starts no earlier than that place. -/
theorem offset_childrenFrom (p : Position) (gs : List Green) {index rel : Nat}
    (hd : p.element.children.drop index = gs) (hr : rel = relativeOffset p.element index) :
    ∀ c ∈ p.childrenFrom index rel gs, p.offset + rel ≤ c.offset := by
  induction gs generalizing index rel with
  | nil => nofun
  | cons g gs ih =>
    obtain ⟨-, rest, next⟩ := next_place hd hr
    intro c hc
    rcases List.mem_cons.mp hc with rfl | hc
    · exact Nat.le_of_eq (offset_counted p hr).symm
    · have behind := ih rest next c hc
      omega

/-- Each child of a node is behind those in front of it. -/
theorem children_inOrder (p : Position) : p.children.Pairwise fun q c => Typed.isBehind q c = true := by
  have from' (gs : List Green) : ∀ (index rel : Nat), p.element.children.drop index = gs →
      rel = relativeOffset p.element index →
        (p.childrenFrom index rel gs).Pairwise fun q c => Typed.isBehind q c = true := by
    induction gs with
    | nil => exact fun _ _ _ _ => .nil
    | cons g gs ih =>
      intro index rel hd hr
      obtain ⟨-, rest, next⟩ := next_place hd hr
      refine .cons (fun c hc => ?_) (ih _ _ rest next)
      have behind := offset_childrenFrom p gs rest next c hc
      refine decide_eq_true ?_
      rw [Span.stop, span, offset_counted p hr, Nat.add_assoc]
      exact behind
  exact from' _ 0 0 rfl rfl

theorem isBehind_of_split {p q c : Position} {front back : List Position} (split : p.children = front ++ q :: back)
    (h : c ∈ back) : Typed.isBehind q c = true := by
  have order := children_inOrder p
  rw [split, List.pairwise_append, List.pairwise_cons] at order
  exact order.2.1.1 c h

end Position

end Verbatim
