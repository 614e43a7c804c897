import Verbatim.Position.Search
import Verbatim.Proofs.Lossless

/-!
# Well-formed trees and what stands at a position

A tree is well formed if every node knows its size, every leaf has a text, and every list that can be
parsed by itself starts with its brace. The leaves of a tree fall into those before a position, those
below it and those behind it; an exchange of the element there touches only the middle part.
-/
namespace Verbatim

namespace Green

/-- Number of bytes of some leaves. -/
def sizeOfLeaves (ls : List (Kind × Text)) : Nat := Text.size (ls.flatMap (·.2))

@[simp] theorem sizeOfLeaves_nil : sizeOfLeaves [] = 0 := rfl

@[simp] theorem sizeOfLeaves_cons (leaf : Kind × Text) (ls : List (Kind × Text)) :
    sizeOfLeaves (leaf :: ls) = leaf.2.size + sizeOfLeaves ls := by
  simp [sizeOfLeaves]

@[simp] theorem sizeOfLeaves_append (ls ms : List (Kind × Text)) :
    sizeOfLeaves (ls ++ ms) = sizeOfLeaves ls + sizeOfLeaves ms := by
  simp [sizeOfLeaves]

/-- The token that every list in braces starts with. -/
def openingBrace : Green := .token .leftBrace ['{']

mutual
/-- Every node knows its size, every token has a text, and lists in braces start with their brace. -/
def Formed : Green → Prop
  | token _ t => t ≠ []
  | node k n cs =>
    n = totalSize cs ∧ (Fragment.ofKind? k ≠ none → cs.head? = some openingBrace) ∧ FormedOf cs

def FormedOf : List Green → Prop
  | [] => True
  | g :: gs => Formed g ∧ FormedOf gs
end

mutual
theorem Formed.sized : ∀ {g : Green}, g.Formed → g.Sized
  | .token _ _, _ => trivial
  | .node _ _ _, h => ⟨h.1, FormedOf.sized h.2.2⟩

theorem FormedOf.sized : ∀ {gs : List Green}, FormedOf gs → SizedOf gs
  | [], _ => trivial
  | _ :: _, h => ⟨Formed.sized h.1, FormedOf.sized h.2⟩
end

theorem formedOf_iff {gs : List Green} : FormedOf gs ↔ ∀ g ∈ gs, g.Formed := by
  induction gs with
  | nil => simp [FormedOf]
  | cons g gs ih => simp [FormedOf, ih]

theorem size_eq_leaves {g : Green} (h : g.Formed) : g.size = sizeOfLeaves g.leaves := by
  rw [size_of_sized g h.sized, text_eq_leaves, sizeOfLeaves]

theorem totalSize_eq_leaves {gs : List Green} (h : SizedOf gs) :
    totalSize gs = sizeOfLeaves (leavesOf gs) := by
  rw [totalSize_of_sizedOf gs h, texts_eq_leaves, sizeOfLeaves]

mutual
/-- The leaves of a well-formed tree take up room. -/
theorem Formed.leaf_ne_nil : ∀ {g : Green}, g.Formed → ∀ leaf ∈ g.leaves, leaf.2 ≠ []
  | .token _ _, h, leaf, hl => by
    rw [leaves, List.mem_singleton] at hl
    rw [hl]
    exact h
  | .node _ _ _, h, leaf, hl => FormedOf.leaf_ne_nil h.2.2 leaf hl

theorem FormedOf.leaf_ne_nil : ∀ {gs : List Green}, FormedOf gs → ∀ leaf ∈ leavesOf gs, leaf.2 ≠ []
  | [], _, leaf, hl => by simp [leavesOf] at hl
  | _ :: _, h, leaf, hl => by
    rw [leavesOf, List.mem_append] at hl
    exact hl.elim (Formed.leaf_ne_nil h.1 leaf) (FormedOf.leaf_ne_nil h.2 leaf)
end

/-- The children of a well-formed element are well formed. -/
theorem Formed.children {g : Green} (h : g.Formed) : FormedOf g.children := by
  cases g with
  | token k t => trivial
  | node k n cs => exact h.2.2

theorem leaves_of_child {g : Green} {i : Nat} {e : Green} (h : g.children[i]? = some e) :
    g.leaves = leavesOf (g.children.take i) ++ e.leaves ++ leavesOf (g.children.drop (i + 1)) := by
  cases g with
  | token k t => simp [children] at h
  | node k n cs =>
    change cs[i]? = some e at h
    obtain ⟨hi, rfl⟩ := List.getElem?_eq_some_iff.mp h
    have parts : cs = cs.take i ++ cs[i] :: cs.drop (i + 1) := by
      rw [← List.drop_eq_getElem_cons hi, List.take_append_drop]
    rw [leaves, List.append_assoc]
    conv_lhs => rw [parts, leavesOf_append, leavesOf]
    rfl

theorem leaves_withChild {g : Green} {i : Nat} {e : Green} (h : g.children[i]? = some e)
    (new : Green) : (g.withChild i new).leaves =
      leavesOf (g.children.take i) ++ new.leaves ++ leavesOf (g.children.drop (i + 1)) := by
  obtain ⟨hi, -⟩ := List.getElem?_eq_some_iff.mp h
  rw [withChild, leaves_branch, List.set_eq_take_append_cons_drop, if_pos hi, leavesOf_append,
    leavesOf, List.append_assoc]

/-- An exchange of a child keeps a node well formed, unless it is the brace of a list. -/
theorem Formed.withChild {g : Green} (h : g.Formed) {i : Nat} {e new : Green}
    (he : g.children[i]? = some e) (no_brace : e ≠ openingBrace) (hn : new.Formed) :
    (g.withChild i new).Formed := by
  cases g with
  | token k t => simp [Green.children] at he
  | node k n cs =>
    refine ⟨rfl, fun hk => ?_, ?_⟩
    · have first := h.2.1 hk
      cases i with
      | zero =>
        have : cs.head? = some e := by rw [List.head?_eq_getElem?]; exact he
        exact absurd (Option.some.inj (this.symm.trans first)) no_brace
      | succ i =>
        cases cs with
        | nil => simp at first
        | cons c cs => exact first
    · refine formedOf_iff.mpr fun c hc => ?_
      rcases List.mem_or_eq_of_mem_set hc with hc | rfl
      · exact formedOf_iff.mp h.2.2 c hc
      · exact hn

theorem Formed.of_child {g : Green} (h : g.Formed) {i : Nat} {e : Green}
    (he : g.children[i]? = some e) : e.Formed :=
  formedOf_iff.mp h.children e (List.mem_of_getElem? he)

end Green

namespace Position

open Green

/-- A position whose elements and offsets are what its parents say. -/
def Valid : Position → Prop
  | root _ => True
  | child p i e known =>
    p.Valid ∧ p.element.children[i]? = some e ∧
      ∀ n ∈ known, n = p.offset + relativeOffset p.element i

theorem elements_childrenFrom (p : Position) (gs : List Green) (index rel : Nat) :
    (p.childrenFrom index rel gs).map element = gs := by
  induction gs generalizing index rel with
  | nil => rfl
  | cons g gs ih => exact congrArg (g :: ·) (ih _ _)

theorem elements_children (p : Position) : p.children.map element = p.element.children :=
  elements_childrenFrom p p.element.children 0 0

theorem elements_childrenBefore (p : Position) (count : Nat) :
    (p.childrenBefore count).map element = (p.element.children.take count).reverse := by
  induction count with
  | zero => rfl
  | succ count ih =>
    have before : (p.childrenBefore (count + 1)).map element =
        (p.childAt? count).toList.map element ++ (p.childrenBefore count).map element := by
      rw [childrenBefore, List.range_succ, List.reverse_append, List.reverse_singleton, List.singleton_append,
        List.filterMap_cons, childrenBefore]
      cases p.childAt? count <;> rfl
    rw [before, ih, childAt?, List.take_add_one, List.reverse_append]
    cases p.element.children[count]? <;> rfl

theorem offset_of_known {p : Position} {n : Nat} (h : p.known? = some n) : p.offset = n := by
  cases p with
  | root tree => exact Option.some.inj h
  | child p i e known => rw [offset, show known = some n from h, Option.getD_some]

theorem Valid.offset_child {p : Position} {i : Nat} {e : Green} {known : Option Nat}
    (h : (child p i e known).Valid) :
    (child p i e known).offset = p.offset + relativeOffset p.element i := by
  rw [offset]
  cases known with
  | none => rfl
  | some n => exact h.2.2 n rfl

/-- A child whose offset is counted from that of its parent. -/
theorem Valid.counted {p : Position} (h : p.Valid) {i rel : Nat} {e : Green}
    (he : p.element.children[i]? = some e) (hr : rel = relativeOffset p.element i) :
    (child p i e (p.known?.map (· + rel))).Valid := by
  refine ⟨h, he, fun n hn => ?_⟩
  obtain ⟨m, hm, rfl⟩ := Option.map_eq_some_iff.mp hn
  rw [offset_of_known hm, hr]

theorem relativeOffset_succ {e c : Green} {i : Nat} (h : e.children[i]? = some c) :
    relativeOffset e (i + 1) = relativeOffset e i + c.size := by
  obtain ⟨hi, rfl⟩ := List.getElem?_eq_some_iff.mp h
  have size (gs : List Green) (g : Green) : totalSize (gs ++ [g]) = totalSize gs + g.size := by
    induction gs with
    | nil => simp [totalSize]
    | cons c gs ih =>
      change c.size + totalSize (gs ++ [g]) = c.size + totalSize gs + g.size
      rw [ih, Nat.add_assoc]
  rw [relativeOffset, relativeOffset, List.take_succ_eq_append_getElem hi, size]

mutual
/-- Where the descent ends is a position of the same tree that covers the span. -/
theorem coveringIn_spec (p : Position) (span : Span) : ∀ g : Green, p.element = g → p.Valid →
    p.span.covers span → (coveringIn p span g).Valid ∧ (coveringIn p span g).span.covers span ∧
      (coveringIn p span g).top = p.top
  | .token _ _, _, hv, hc => ⟨hv, hc, rfl⟩
  | .node k n cs, he, hv, hc => by
    rw [coveringIn]
    cases hf : coveringOf p span 0 0 cs with
    | none => exact ⟨hv, hc, rfl⟩
    | some q => exact coveringOf_spec p span cs 0 0 (by rw [he]; rfl) rfl hv q hf

theorem coveringOf_spec (p : Position) (span : Span) : ∀ (gs : List Green) (index rel : Nat),
    p.element.children.drop index = gs → rel = relativeOffset p.element index → p.Valid →
    ∀ q, coveringOf p span index rel gs = some q →
      q.Valid ∧ q.span.covers span ∧ q.top = p.top
  | [], _, _, _, _, _, _, hq => by simp [coveringOf] at hq
  | g :: gs, index, rel, hd, hr, hv, q, hq => by
    have at_index : p.element.children[index]? = some g := by
      rw [← List.head?_drop, hd, List.head?_cons]
    rw [coveringOf] at hq
    split at hq
    · next covers =>
      cases hq
      exact coveringIn_spec (child p index g (p.known?.map (· + rel))) span g rfl
        (hv.counted at_index hr) covers
    · refine coveringOf_spec p span gs (index + 1) (rel + g.size) ?_ ?_ hv q hq
      · rw [← List.tail_drop, hd, List.tail_cons]
      · rw [relativeOffset_succ at_index, hr]
end

theorem covering_root {tree : Green} {span : Span} (h : (root tree).span.covers span) :
    ((root tree).covering span).Valid ∧ ((root tree).covering span).span.covers span ∧
      ((root tree).covering span).top = root tree := by
  rw [covering, if_pos h]
  exact coveringIn_spec (root tree) span tree rfl trivial h

theorem Valid.ancestor {p q : Position} (h : p.Valid) (hq : q ∈ p.ancestors) :
    q.Valid ∧ q.top = p.top := by
  induction p with
  | root tree =>
    rw [ancestors, List.mem_singleton] at hq
    rw [hq]
    exact ⟨trivial, rfl⟩
  | child p i e known ih =>
    rw [ancestors, List.mem_cons] at hq
    rcases hq with rfl | hq
    · exact ⟨h, rfl⟩
    · exact ih h.1 hq

/-- What is before and behind a position, and what an exchange there makes of the tree. -/
structure Frames (p : Position) (front back : List (Kind × Text)) : Prop where
  offset : p.offset = sizeOfLeaves front
  leaves : p.top.element.leaves = front ++ p.element.leaves ++ back
  replaced : ∀ g, (p.replaceWith g).leaves = front ++ g.leaves ++ back

theorem Frames.text {p : Position} {front back : List (Kind × Text)} (h : p.Frames front back) :
    p.top.element.text = front.flatMap (·.2) ++ p.text ++ back.flatMap (·.2) := by
  rw [text_eq_leaves, h.leaves, Position.text, text_eq_leaves]
  simp only [List.flatMap_append]

theorem Valid.formed {p : Position} (h : p.Valid) (hf : p.top.element.Formed) :
    p.element.Formed := by
  induction p with
  | root tree => exact hf
  | child p i e known ih => exact (ih h.1 hf).of_child h.2.1

theorem Valid.sized {p : Position} (h : p.Valid) (hs : p.top.element.Sized) : p.element.Sized := by
  induction p with
  | root tree => exact hs
  | child p i e known ih => exact sizedOf_iff.mp (ih h.1 hs).children e (List.mem_of_getElem? h.2.1)

theorem Valid.frames_of_sized {p : Position} (h : p.Valid) (hs : p.top.element.Sized) :
    ∃ front back, p.Frames front back := by
  induction p with
  | root tree => exact ⟨[], [], rfl, by simp [top], fun g => by simp [replaceWith]⟩
  | child p i e known ih =>
    obtain ⟨front, back, offset, leaves, replaced⟩ := ih h.1 hs
    have sized : p.element.Sized := h.1.sized hs
    refine ⟨front ++ leavesOf (p.element.children.take i),
      leavesOf (p.element.children.drop (i + 1)) ++ back, ?_, ?_, fun g => ?_⟩
    · have before : SizedOf (p.element.children.take i) :=
        sizedOf_iff.mpr fun c hc => sizedOf_iff.mp sized.children c (List.mem_of_mem_take hc)
      rw [h.offset_child, offset, sizeOfLeaves_append, relativeOffset, totalSize_eq_leaves before]
    · rw [show (child p i e known).top = p.top from rfl, leaves, leaves_of_child h.2.1]
      simp only [List.append_assoc, element]
    · rw [replaceWith, replaced, leaves_withChild h.2.1]
      simp only [List.append_assoc]

theorem Valid.frames {p : Position} (h : p.Valid) (hf : p.top.element.Formed) :
    ∃ front back, p.Frames front back :=
  h.frames_of_sized hf.sized

/-- An exchange of anything but the brace of a list keeps the tree well formed. -/
theorem Valid.formed_replaceWith {p : Position} (h : p.Valid) (hf : p.top.element.Formed)
    (no_brace : p.element ≠ openingBrace) {g : Green} (hg : g.Formed) :
    (p.replaceWith g).Formed := by
  induction p generalizing g with
  | root tree => exact hg
  | child p i e known ih =>
    refine ih h.1 hf (fun brace => ?_) ((h.1.formed hf).withChild h.2.1 no_brace hg)
    have inside := h.2.1
    rw [brace] at inside
    simp [openingBrace, Green.children] at inside

/-- An exchange by an element of the same kind keeps the kind of the root. -/
theorem kind_replaceWith {p : Position} {g : Green} (h : g.kind = p.kind) :
    (p.replaceWith g).kind = p.top.kind := by
  induction p generalizing g with
  | root tree => exact h
  | child p i e known ih => exact ih (by simp [Green.withChild, Green.branch, Green.kind, kind])

end Position

end Verbatim
