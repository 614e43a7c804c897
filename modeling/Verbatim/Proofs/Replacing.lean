import Verbatim.Position.Cursor
import Verbatim.Proofs.Blocks

/-!
# Replacing an element

An exchange at the end of a route makes the nodes above that place anew and takes over all others. So the
text changes in the span of the element alone, every node of the new tree still knows its size, and putting
the old element back gives the old tree again.
-/
namespace Verbatim

namespace Green

variable {g e : Green} {r q : Route}

theorem children_withChild (g : Green) (i : Nat) (c : Green) :
    (g.withChild i c).children = g.children.set i c := rfl

theorem exchange_cons {i : Nat} {c : Green} (hc : g.children[i]? = some c) (r : Route) (new : Green) :
    g.exchange (i :: r) new = g.withChild i (c.exchange r new) := by
  rw [exchange, hc]

theorem child_withChild {i : Nat} {c : Green} (hc : g.children[i]? = some c) (new : Green) :
    (g.withChild i new).children[i]? = some new := by
  rw [children_withChild, List.getElem?_set_self (List.getElem?_eq_some_iff.mp hc).1]

/-- At a place on the way to the exchange, the element has the exchange inside of it. -/
theorem at?_exchange_append (h : g.at? q = some e) (r : Route) (new : Green) :
    (g.exchange (q ++ r) new).at? q = some (e.exchange r new) := by
  induction q generalizing g with
  | nil =>
    obtain rfl : g = e := Option.some.inj h
    rfl
  | cons i q ih =>
    obtain ⟨c, hc, h⟩ := Option.bind_eq_some_iff.mp h
    rw [List.cons_append, exchange_cons hc, at?, child_withChild hc, Option.bind_some, ih h]

/-- Neither above the exchange nor below it, nothing changes. -/
theorem at?_exchange_apart (new : Green) (below : ¬ r <+: q) (above : ¬ q <+: r) :
    (g.exchange r new).at? q = g.at? q := by
  induction r generalizing g q with
  | nil => exact absurd List.nil_prefix below
  | cons i r ih =>
    cases q with
    | nil => exact absurd List.nil_prefix above
    | cons j q =>
      rw [List.cons_prefix_cons] at below above
      cases hc : g.children[i]? with
      | none => rw [exchange, hc]
      | some c =>
        rw [exchange_cons hc, at?, at?]
        by_cases same : i = j
        · subst same
          rw [child_withChild hc, hc, Option.bind_some, Option.bind_some,
            ih (fun h => below ⟨rfl, h⟩) fun h => above ⟨rfl, h⟩]
        · rw [children_withChild, List.getElem?_set_ne same]

/-- An element with an exchange somewhere below it keeps its kind and its number of children. -/
theorem shape_exchange (g : Green) (ne : r ≠ []) (new : Green) : (g.exchange r new).kind = g.kind ∧
    (g.exchange r new).children.length = g.children.length := by
  cases r with
  | nil => exact absurd rfl ne
  | cons i r =>
    rw [exchange]
    split
    · exact ⟨rfl, List.length_set⟩
    · exact ⟨rfl, rfl⟩

theorem Sized.at? (h : g.Sized) (he : g.at? r = some e) : e.Sized := by
  induction r generalizing g with
  | nil =>
    obtain rfl : g = e := Option.some.inj he
    exact h
  | cons i r ih =>
    obtain ⟨c, hc, he⟩ := Option.bind_eq_some_iff.mp he
    exact ih (sizedOf_iff.mp h.children c (List.mem_of_getElem? hc)) he

theorem Sized.exchange (h : g.Sized) {new : Green} (hn : new.Sized) : (g.exchange r new).Sized := by
  induction r generalizing g with
  | nil => exact hn
  | cons i r ih =>
    rw [Green.exchange]
    split
    · next c hc =>
      have inside := ih (sizedOf_iff.mp h.children c (List.mem_of_getElem? hc))
      refine ⟨rfl, sizedOf_iff.mpr fun d hd => ?_⟩
      rcases List.mem_or_eq_of_mem_set hd with old | rfl
      · exact sizedOf_iff.mp h.children d old
      · exact inside
    · exact h

/-- A child that is put where it was leaves a node that knows its size as it is. -/
theorem Sized.withChild_self (h : g.Sized) {i : Nat} {c : Green} (hc : g.children[i]? = some c) :
    g.withChild i c = g := by
  cases g with
  | token k t => simp [Green.children] at hc
  | node k n cs =>
    change cs[i]? = some c at hc
    obtain ⟨hi, rfl⟩ := List.getElem?_eq_some_iff.mp hc
    change branch k (cs.set i cs[i]) = node k n cs
    rw [List.set_getElem_self, branch, h.1]

/-- Putting back what was there before undoes an exchange. -/
theorem Sized.exchange_exchange (h : g.Sized) (he : g.at? r = some e) (new : Green) :
    (g.exchange r new).exchange r e = g := by
  induction r generalizing g with
  | nil => exact (Option.some.inj he).symm
  | cons i r ih =>
    obtain ⟨c, hc, he⟩ := Option.bind_eq_some_iff.mp he
    have inside := ih (sizedOf_iff.mp h.children c (List.mem_of_getElem? hc)) he
    rw [exchange_cons hc, exchange_cons (child_withChild hc _), inside]
    refine Eq.trans ?_ (h.withChild_self hc)
    rw [withChild, children_withChild, List.set_set]
    rfl

end Green

namespace Lineage

/-- A replacement neither above nor below an element leaves its origin as it was. -/
theorem origin_apart (l : Lineage) {r : Replacement} {path : List Nat} (below : ¬ r.path <+: path)
    (above : ¬ path <+: r.path) :
    (Lineage.mk l.first (r :: l.replacements)).origin path = l.origin path := by
  rw [← List.isPrefixOf_iff_prefix] at below above
  rw [origin, originIn, if_neg below, if_neg above]
  rfl

end Lineage

namespace Position

open Green

variable {tree : Green}

/-- The text of the new tree is the old one with the span of the element edited. -/
theorem Within.edit_replaceWith {p : Position} (h : Within tree p) (sized : tree.Sized) (new : Green) :
    (Edit.mk p.span new.text).applyTo? tree.text = some (p.replaceWith new).text := by
  obtain ⟨front, back, frames⟩ := h.valid.frames_of_sized (h.top ▸ sized)
  have text := frames.text
  rw [h.top, Position.element] at text
  have splits : (Edit.mk p.span new.text).Splits tree.text (front.flatMap (·.2)) p.text (back.flatMap (·.2)) :=
    ⟨text, frames.offset.symm, (size_of_sized p.element (h.sized sized)).symm⟩
  rw [Edit.applyTo?_of_splits splits, text_eq_leaves (p.replaceWith new), frames.replaced, text_eq_leaves new]
  simp only [List.flatMap_append]

end Position

namespace Cursor

open Green Position

/-- Replacing an element is a local edit. In the new tree the replacement stands in its place. Every element
that is neither above nor below that place is the very same as before: of equal content and of one origin.
The nodes above keep kind and number of children, the text changes in the span of the element alone, and
every node on the way has the size of its text. Nothing of the old tree is lost: put back in its place, the
old element gives it again. -/
theorem replaceWith_local {tree : Green} (sized : tree.Sized) (c : Cursor)
    (within : Within tree c.position) (new : Green) (fits : new.Sized) (isParsed : Bool) :
    let path := c.position.path
    let made := c.replaceWith new isParsed
    let root := made.position.element
    root.at? path = some new ∧
    (∀ q, ¬ path <+: q → ¬ q <+: path →
      root.at? q = tree.at? q ∧ made.lineage.origin q = c.lineage.origin q) ∧
    (∀ q, q <+: path → q ≠ path → ∃ old above, tree.at? q = some old ∧ root.at? q = some above ∧
      above.kind = old.kind ∧ above.children.length = old.children.length) ∧
    (Edit.mk c.position.span new.text).applyTo? tree.text = some root.text ∧
    (∀ q e, q <+: path → root.at? q = some e → e.size = Text.size e.text) ∧
    root.exchange path c.position.element = tree := by
  intro path made root
  have there : tree.at? path = some c.position.element := within.at?_path
  have exchanged : root = tree.exchange path new := within.replaceWith_eq new
  rw [exchanged]
  refine ⟨?_, fun q below above => ?_, ?_, ?_, fun q e _ found => ?_, ?_⟩
  · have here := at?_exchange_append there [] new
    rwa [List.append_nil] at here
  · exact ⟨at?_exchange_apart new below above, c.lineage.origin_apart below above⟩
  · rintro q ⟨r, split⟩ ne
    have more : r ≠ [] := by
      rintro rfl
      exact ne (by simpa using split)
    rw [← split, at?_append] at there
    obtain ⟨old, found, -⟩ := Option.bind_eq_some_iff.mp there
    rw [← split]
    exact ⟨old, _, found, at?_exchange_append found r new, shape_exchange old more new⟩
  · rw [← exchanged]
    exact within.edit_replaceWith sized new
  · exact size_of_sized e ((sized.exchange fits).at? found)
  · exact sized.exchange_exchange there new

/-- Twice the same name, with an empty node in between. -/
def twins : Green :=
  .branch .binExpr [.branch .nameRef [.token .ident ['a']], .branch .literal [],
    .branch .nameRef [.token .ident ['a']]]

/-- At the second name, in a tree whose first one was replaced before. -/
def second : Cursor :=
  ⟨.child (.child (.root twins) 2 (.branch .nameRef [.token .ident ['a']]) none) 0 (.token .ident ['a']) none,
    .built, [⟨[0, 0], false⟩]⟩

/-- The second name is replaced by a longer one: the first keeps its origin, an earlier replacement. -/
theorem replaceWith_local_twins : twins.Sized ∧ Within twins second.position ∧
    (Green.token .ident ['b', 'c']).Sized ∧
    let made := second.replaceWith (.token .ident ['b', 'c']) false
    let root := made.position.element
    root.at? [2, 0] = some (.token .ident ['b', 'c']) ∧
    (∀ q, ¬ [2, 0] <+: q → ¬ q <+: [2, 0] →
      root.at? q = twins.at? q ∧ made.lineage.origin q = second.lineage.origin q) ∧
    (∀ q, q <+: [2, 0] → q ≠ [2, 0] → ∃ old above, twins.at? q = some old ∧ root.at? q = some above ∧
      above.kind = old.kind ∧ above.children.length = old.children.length) ∧
    (Edit.mk ⟨1, 1⟩ ['b', 'c']).applyTo? ['a', 'a'] = some root.text ∧
    (∀ q e, q <+: [2, 0] → root.at? q = some e → e.size = Text.size e.text) ∧
    root.exchange [2, 0] (.token .ident ['a']) = twins := by
  have sized : twins.Sized := ⟨rfl, ⟨rfl, trivial, trivial⟩, ⟨rfl, trivial⟩, ⟨rfl, trivial, trivial⟩, trivial⟩
  have within : Within twins second.position := ((Within.root twins).uncounted rfl).uncounted rfl
  have fits : (Green.token .ident ['b', 'c']).Sized := trivial
  exact ⟨sized, within, fits, replaceWith_local sized second within _ fits false⟩

end Cursor

end Verbatim
