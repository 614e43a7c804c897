import Mathlib.Tactic.Common
import Verbatim.Proofs.Lossless

/-!
# Routes through a tree

A route names an element by the places of the children to go through from the root. The tokens of a tree,
listed in order with their routes, fall into those before an element, those below it and those behind it,
and one more place on a route only divides the tokens below it further.
-/
namespace Verbatim.Green

abbrev Route := List Nat

/-- The element at the end of a route. -/
def at? (g : Green) : Route → Option Green
  | [] => some g
  | i :: r => g.children[i]?.bind fun c => c.at? r

mutual
/-- The tokens below an element in order, each with the route to it and its text. -/
def spots : Green → List (Route × Text)
  | token _ t => [([], t)]
  | node _ _ cs => spotsFrom 0 cs

/-- The tokens below some children, the first of which has place `index`. -/
def spotsFrom (index : Nat) : List Green → List (Route × Text)
  | [] => []
  | g :: gs => (spots g).map (fun s => (index :: s.1, s.2)) ++ spotsFrom (index + 1) gs
end

/-- The tokens in front of the element at the end of a route. -/
def tokensBefore (g : Green) (r : Route) : List (Route × Text) := g.spots.filter (·.1 < r)

/-- The tokens of that element itself. -/
def tokensBelow (g : Green) (r : Route) : List (Route × Text) := g.spots.filter (r <+: ·.1)

/-- The tokens behind it. -/
def tokensBehind (g : Green) (r : Route) : List (Route × Text) :=
  g.spots.filter fun s => r < s.1 ∧ ¬ r <+: s.1

/-- The number of bytes of some tokens. -/
def sizeOfSpots (ss : List (Route × Text)) : Nat := Text.size (ss.flatMap (·.2))

/-- Some tokens as they are seen from where a route starts that leads to them. -/
def along (r : Route) (ss : List (Route × Text)) : List (Route × Text) :=
  ss.map fun s => (r ++ s.1, s.2)

theorem along_nil (ss : List (Route × Text)) : along [] ss = ss := by
  simp [along]

theorem along_append (r : Route) (ss ts : List (Route × Text)) :
    along r (ss ++ ts) = along r ss ++ along r ts :=
  List.map_append

theorem along_along (r q : Route) (ss : List (Route × Text)) :
    along r (along q ss) = along (r ++ q) ss := by
  simp [along]

theorem along_place (r : Route) (i : Nat) (ss : List (Route × Text)) :
    along (r ++ [i]) ss = along r (ss.map fun s => (i :: s.1, s.2)) := by
  simp [along]

theorem sizeOfSpots_append (ss ts : List (Route × Text)) :
    sizeOfSpots (ss ++ ts) = sizeOfSpots ss + sizeOfSpots ts := by
  rw [sizeOfSpots, List.flatMap_append, Text.size_append]
  rfl

theorem sizeOfSpots_along (r : Route) (ss : List (Route × Text)) :
    sizeOfSpots (along r ss) = sizeOfSpots ss := by
  rw [sizeOfSpots, along, List.flatMap_map]
  rfl

mutual
theorem text_spots : ∀ g : Green, g.spots.flatMap (·.2) = g.text
  | .token _ t => by simp [spots, text]
  | .node _ _ cs => texts_spotsFrom 0 cs

theorem texts_spotsFrom (index : Nat) : ∀ gs : List Green,
    (spotsFrom index gs).flatMap (·.2) = texts gs
  | [] => rfl
  | g :: gs => by
    rw [spotsFrom, List.flatMap_append, List.flatMap_map, texts_spotsFrom (index + 1) gs, texts]
    exact congrArg (· ++ texts gs) (text_spots g)
end

/-- What a row of elements covers is what its tokens cover. -/
theorem totalSize_eq_spots {gs : List Green} (h : SizedOf gs) (index : Nat) :
    totalSize gs = sizeOfSpots (spotsFrom index gs) := by
  rw [totalSize_of_sizedOf gs h, sizeOfSpots, texts_spotsFrom]

/-! ## Longer routes -/

theorem at?_append (g : Green) (r q : Route) : g.at? (r ++ q) = (g.at? r).bind (·.at? q) := by
  induction r generalizing g with
  | nil => rfl
  | cons i r ih =>
    rw [List.cons_append, at?, at?]
    cases g.children[i]? with
    | none => rfl
    | some c => exact ih c

theorem at?_snoc (g : Green) (r : Route) (i : Nat) :
    g.at? (r ++ [i]) = (g.at? r).bind (·.children[i]?) := by
  rw [at?_append]
  congr 1
  funext e
  cases h : e.children[i]? <;> simp [at?, h]

theorem spotsFrom_append (index : Nat) (gs hs : List Green) :
    spotsFrom index (gs ++ hs) = spotsFrom index gs ++ spotsFrom (index + gs.length) hs := by
  induction gs generalizing index with
  | nil => rfl
  | cons g gs ih =>
    rw [List.cons_append, spotsFrom, spotsFrom, ih, List.append_assoc, List.length_cons,
      Nat.add_right_comm, Nat.add_assoc]

/-- The tokens before, in and behind a child. -/
theorem spots_of_child {g c : Green} {i : Nat} (h : g.children[i]? = some c) :
    g.spots = spotsFrom 0 (g.children.take i) ++ along [i] c.spots ++
      spotsFrom (i + 1) (g.children.drop (i + 1)) := by
  cases g with
  | token k t => simp [children] at h
  | node k n cs =>
    change cs[i]? = some c at h
    obtain ⟨hi, rfl⟩ := List.getElem?_eq_some_iff.mp h
    have parts : cs = cs.take i ++ cs[i] :: cs.drop (i + 1) := by
      rw [← List.drop_eq_getElem_cons hi, List.take_append_drop]
    have length : (cs.take i).length = i := by
      rw [List.length_take]
      omega
    rw [spots, List.append_assoc]
    conv_lhs => rw [parts, spotsFrom_append, length, Nat.zero_add, spotsFrom]
    rfl

/-- A token below some children has the place of one of them first on its route. -/
theorem mem_spotsFrom {index : Nat} {gs : List Green} {s : Route × Text}
    (h : s ∈ spotsFrom index gs) :
    ∃ j q, s.1 = j :: q ∧ index ≤ j ∧ j < index + gs.length := by
  induction gs generalizing index with
  | nil => simp [spotsFrom] at h
  | cons g gs ih =>
    rw [spotsFrom, List.mem_append] at h
    rcases h with h | h
    · obtain ⟨t, -, rfl⟩ := List.mem_map.mp h
      exact ⟨index, t.1, rfl, Nat.le_refl _, by simp⟩
    · obtain ⟨j, q, eq, lo, hi⟩ := ih h
      exact ⟨j, q, eq, by omega, by rw [List.length_cons]; omega⟩

/-- How a test divides the tokens of an element if it passes all of those before a child or none, and all
of those behind it or none. -/
theorem filter_spots_of_child {g c : Green} {i : Nat} (h : g.children[i]? = some c)
    (p : Route × Text → Bool) (before behind : Bool)
    (front : ∀ j q t, j < i → p (j :: q, t) = before)
    (back : ∀ j q t, i < j → p (j :: q, t) = behind) :
    g.spots.filter p = (if before then spotsFrom 0 (g.children.take i) else []) ++
      along [i] (c.spots.filter fun s => p (i :: s.1, s.2)) ++
      (if behind then spotsFrom (i + 1) (g.children.drop (i + 1)) else []) := by
  have all {ss : List (Route × Text)} {b : Bool} (hs : ∀ s ∈ ss, p s = b) :
      ss.filter p = if b then ss else [] := by
    cases b with
    | true => exact List.filter_eq_self.mpr hs
    | false => exact List.filter_eq_nil_iff.mpr fun s mem => by rw [hs s mem]; decide
  rw [spots_of_child h, List.filter_append, List.filter_append]
  congr 1
  · congr 1
    · refine all fun s hs => ?_
      obtain ⟨j, q, eq, -, hi⟩ := mem_spotsFrom hs
      rw [show s = (j :: q, s.2) from Prod.ext eq rfl]
      have := List.length_take_le i g.children
      exact front j q s.2 (by omega)
    · rw [along, List.filter_map]
      rfl
  · refine all fun s hs => ?_
    obtain ⟨j, q, eq, lo, -⟩ := mem_spotsFrom hs
    rw [show s = (j :: q, s.2) from Prod.ext eq rfl]
    exact back j q s.2 lo

section Places

variable {g c : Green} {i : Nat} (h : g.children[i]? = some c) (r : Route)

include h

theorem tokensBefore_cons : g.tokensBefore (i :: r) =
    spotsFrom 0 (g.children.take i) ++ along [i] (c.tokensBefore r) := by
  rw [tokensBefore, filter_spots_of_child h _ true false
    (fun j q t hj => decide_eq_true (List.cons_lt_cons_iff.mpr (.inl hj)))
    (fun j q t hj => decide_eq_false fun lt => by
      rcases List.cons_lt_cons_iff.mp lt with lt | ⟨rfl, -⟩ <;> omega)]
  simp [tokensBefore]

theorem tokensBelow_cons : g.tokensBelow (i :: r) = along [i] (c.tokensBelow r) := by
  rw [tokensBelow, filter_spots_of_child h _ false false
    (fun j q t hj => decide_eq_false fun pre => by
      have := (List.cons_prefix_cons.mp pre).1
      omega)
    (fun j q t hj => decide_eq_false fun pre => by
      have := (List.cons_prefix_cons.mp pre).1
      omega)]
  simp [tokensBelow, List.cons_prefix_cons]

theorem tokensBehind_cons : g.tokensBehind (i :: r) =
    along [i] (c.tokensBehind r) ++ spotsFrom (i + 1) (g.children.drop (i + 1)) := by
  rw [tokensBehind, filter_spots_of_child h _ false true
    (fun j q t hj => decide_eq_false fun lt => by
      rcases List.cons_lt_cons_iff.mp lt.1 with lt | ⟨rfl, -⟩ <;> omega)
    (fun j q t hj => decide_eq_true ⟨List.cons_lt_cons_iff.mpr (.inl hj), fun pre => by
      have := (List.cons_prefix_cons.mp pre).1
      omega⟩)]
  simp [tokensBehind, List.cons_prefix_cons]

end Places

theorem tokensBefore_nil (g : Green) : g.tokensBefore [] = [] :=
  List.filter_eq_nil_iff.mpr fun s _ => by simp

theorem tokensBelow_nil (g : Green) : g.tokensBelow [] = g.spots :=
  List.filter_eq_self.mpr fun s _ => by simp

theorem tokensBehind_nil (g : Green) : g.tokensBehind [] = [] :=
  List.filter_eq_nil_iff.mpr fun s _ => by simp

/-- Below the end of a route stand the tokens of the element there. -/
theorem tokensBelow_eq {g e : Green} {r : Route} (h : g.at? r = some e) :
    g.tokensBelow r = along r e.spots := by
  induction r generalizing g with
  | nil =>
    cases h
    rw [tokensBelow_nil, along_nil]
  | cons i r ih =>
    obtain ⟨c, hc, h⟩ := Option.bind_eq_some_iff.mp h
    rw [tokensBelow_cons hc, ih h, along_along]
    rfl

/-- Before a child stand what is before its parent and the children in front of it. -/
theorem tokensBefore_snoc {g e : Green} {r : Route} (h : g.at? r = some e) {i : Nat} {c : Green}
    (hc : e.children[i]? = some c) : g.tokensBefore (r ++ [i]) =
      g.tokensBefore r ++ along r (spotsFrom 0 (e.children.take i)) := by
  induction r generalizing g with
  | nil =>
    cases h
    rw [List.nil_append, tokensBefore_cons hc, tokensBefore_nil, tokensBefore_nil, along_nil]
    simp [along]
  | cons j r ih =>
    obtain ⟨d, hd, h⟩ := Option.bind_eq_some_iff.mp h
    rw [List.cons_append, tokensBefore_cons hd, tokensBefore_cons hd, ih h, along_append, along_along,
      List.append_assoc]
    rfl

/-- Behind a child stand the children behind it and what is behind its parent. -/
theorem tokensBehind_snoc {g e : Green} {r : Route} (h : g.at? r = some e) {i : Nat} {c : Green}
    (hc : e.children[i]? = some c) : g.tokensBehind (r ++ [i]) =
      along r (spotsFrom (i + 1) (e.children.drop (i + 1))) ++ g.tokensBehind r := by
  induction r generalizing g with
  | nil =>
    cases h
    rw [List.nil_append, tokensBehind_cons hc, tokensBehind_nil, tokensBehind_nil, along_nil]
    simp [along]
  | cons j r ih =>
    obtain ⟨d, hd, h⟩ := Option.bind_eq_some_iff.mp h
    rw [List.cons_append, tokensBehind_cons hd, tokensBehind_cons hd, ih h, along_append, along_along,
      List.append_assoc]
    rfl

end Verbatim.Green
