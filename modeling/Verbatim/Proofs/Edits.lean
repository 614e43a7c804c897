import Verbatim.Proofs.Exchange

/-!
# Chains of edits

An edited text is parsed by an exchange of one token, by an exchange of one list, or afresh. Each way
leads from a sound parse to a sound parse of the edited text, and none of them fails, so all parses along
a chain of edits are sound.
-/
namespace Verbatim

open Green

/-- The texts that some edits lead to, one after the other, if each fits the text before it. -/
def Edit.texts? : Text → List Edit → Option (List Text)
  | _, [] => some []
  | t, e :: es => do
    let u ← e.applyTo? t
    return u :: (← texts? u es)

/-! ## The three ways to parse an edited text -/

namespace Parse

theorem bind_guard_eq_some {α : Type} {c : Prop} [Decidable c] {x : Unit → Option α} {a : α} :
    (guard c >>= x) = some a ↔ c ∧ x () = some a := by
  by_cases h : c <;> simp [guard, h, failure, Pure.pure, Bind.bind]

theorem patchToken?_eq_some {root : Position} {old : List Diagnostic} {e : Edit} {patch : Patch}
    (h : patchToken? root old e = some patch) : ∃ t,
      patch = ⟨(root.covering e.delete).replaceWith (.token (root.covering e.delete).kind t), [],
        (root.covering e.delete).span⟩ ∧
      isRelexable (root.covering e.delete) e = true ∧
      (∀ d ∈ old, d.span.start ≠ (root.covering e.delete).offset) ∧
      editedText? (root.covering e.delete) e = some t ∧
      singleToken? t = some (root.covering e.delete).kind := by
  unfold patchToken? at h
  obtain ⟨here, h⟩ := bind_guard_eq_some.mp h
  obtain ⟨fresh, h⟩ := bind_guard_eq_some.mp h
  obtain ⟨t, edited, h⟩ := Option.bind_eq_some_iff.mp h
  obtain ⟨single, h⟩ := bind_guard_eq_some.mp h
  obtain ⟨-, h⟩ := bind_guard_eq_some.mp h
  obtain ⟨-, h⟩ := bind_guard_eq_some.mp h
  obtain rfl := Option.some.inj h
  rw [Bool.and_eq_true] at here
  exact ⟨t, rfl, here.2, by simpa using fresh, edited, by simpa using single⟩

theorem patchList?_eq_some {p : Position} {e : Edit} {patch : Patch}
    (h : patchList? p e = .ok (some patch)) : ∃ f t list, Fragment.ofKind? p.kind = some f ∧
      p.span.covers e.delete = true ∧ p.lastChildOrToken?.map Position.kind = some .rightBrace ∧
      editedText? p e = some t ∧ f.parse? t = .ok (some list) ∧
      p.ancestors.length + list.tree.depth < nestingLimit ∧
      patch = ⟨p.replaceWith list.tree,
        list.diagnostics.map fun d => { d with span := d.span.shift p.offset }, p.span⟩ := by
  unfold patchList? at h
  split at h
  · next f hf =>
    split at h
    · cases h
    · next covers =>
      split at h
      · cases h
      · next closes =>
        split at h
        · next t edited =>
          cases parsed : f.parse? t with
          | error fault => rw [parsed] at h; cases h
          | ok r =>
            rw [parsed] at h
            cases r with
            | none => cases h
            | some list =>
              change (if nestingLimit ≤ p.ancestors.length + list.tree.depth then pure none
                else _) = _ at h
              split at h
              · cases h
              · next flat =>
                cases h
                exact ⟨f, t, list, hf, by simpa using covers, by simpa using closes, edited, parsed, by omega, rfl⟩
        · cases h
  · cases h

/-- No list is refused by a fault. -/
theorem patchList?_total (p : Position) (e : Edit) : ∃ r, patchList? p e = .ok r := by
  unfold patchList?
  split
  · next f _ =>
    split
    · exact ⟨none, rfl⟩
    · split
      · exact ⟨none, rfl⟩
      · split
        · next t _ =>
          obtain ⟨r, parsed, -⟩ := (ofText_total t).2 f
          rw [parsed]
          cases r with
          | none => exact ⟨none, rfl⟩
          | some list =>
            change ∃ r, (if nestingLimit ≤ p.ancestors.length + list.tree.depth then pure none
              else _) = _
            split <;> exact ⟨_, rfl⟩
        · exact ⟨none, rfl⟩
  · exact ⟨none, rfl⟩

theorem firstPatch?_total (e : Edit) (ps : List Position) : ∃ r, firstPatch? e ps = .ok r ∧
    ∀ patch ∈ r, ∃ p ∈ ps, patchList? p e = .ok (some patch) := by
  induction ps with
  | nil => exact ⟨none, rfl, nofun⟩
  | cons p ps ih =>
    obtain ⟨later, found, from_later⟩ := ih
    obtain ⟨r, here⟩ := patchList?_total p e
    rw [firstPatch?, here]
    cases r with
    | none =>
      refine ⟨later, found, fun patch h => ?_⟩
      obtain ⟨q, hq, patched⟩ := from_later patch h
      exact ⟨q, List.mem_cons_of_mem _ hq, patched⟩
    | some patch =>
      refine ⟨some patch, rfl, fun other h => ?_⟩
      obtain rfl := Option.some.inj h
      exact ⟨p, List.mem_cons_self, here⟩

variable {old : Parse} {t u : Text} {e : Edit} {patch : Patch}

theorem singleToken?_nil : singleToken? [] = none := by
  rw [singleToken?, Token.list, Token.listFrom_nil]

/-- What is put in the place of one token. -/
theorem exchange_token (covers : (Position.root old.tree).span.covers e.delete = true)
    (h : patchToken? (.root old.tree) old.diagnostics e = some patch) :
    ∃ p g new, patch = ⟨p.replaceWith g, new, p.span⟩ ∧ p.Valid ∧ p.top = .root old.tree ∧
      Exchange p old.diagnostics e g new := by
  obtain ⟨valid, here, top⟩ := Position.covering_root covers
  obtain ⟨t, rfl, relexable, fresh, edited, single⟩ := patchToken?_eq_some h
  have written : t ≠ [] := by
    rintro rfl
    rw [singleToken?_nil] at single
    cases single
  refine ⟨_, _, _, rfl, valid, top, here, fun brace => ?_, edited, rfl, written, ?_, nofun,
    List.nodup_nil, fun d hd start => absurd start (fresh d hd)⟩
  · have kind : ((Position.root old.tree).covering e.delete).kind = .leftBrace := by
      rw [Position.kind, brace]
      rfl
    rw [isRelexable, kind] at relexable
    cases relexable
  · exact Nat.pos_of_ne_zero fun empty => written (Text.eq_nil_of_size empty)

/-- A list starts with its brace. -/
theorem leaves_of_fragment {g : Green} (formed : g.Formed) (node : g.isNode = true) {f : Fragment}
    (fragment : Fragment.ofKind? g.kind = some f) : ∃ ls, g.leaves = (.leftBrace, ['{']) :: ls := by
  cases g with
  | token k t => cases node
  | node k n cs =>
    obtain ⟨cs, rfl⟩ := List.head?_eq_some_iff.mp
      (formed.2.1 (by rw [show Fragment.ofKind? k = _ from fragment]; nofun))
    exact ⟨_, rfl⟩

/-- A list has room for its brace. -/
theorem room_of_fragment {g : Green} (formed : g.Formed) (node : g.isNode = true) {f : Fragment}
    (fragment : Fragment.ofKind? g.kind = some f) : 0 < g.text.size := by
  obtain ⟨ls, leaves⟩ := leaves_of_fragment formed node fragment
  rw [text_eq_leaves, leaves, List.flatMap_cons, Text.size_append]
  exact Nat.lt_of_lt_of_le (by decide : 0 < Text.size ['{']) (Nat.le_add_right _ _)

/-- What is put in the place of one list. -/
theorem Sound.exchange_list (hs : old.Sound t) {p : Position} (node : p.isNode = true)
    (valid : p.Valid) (top : p.top = .root old.tree) (h : patchList? p e = .ok (some patch)) :
    ∃ g new, patch = ⟨p.replaceWith g, new, p.span⟩ ∧ Exchange p old.diagnostics e g new := by
  obtain ⟨f, t, list, fragment, covers, -, edited, parsed, flat, rfl⟩ := patchList?_eq_some h
  have kind : f.kind = p.kind := by simpa using List.find?_some fragment
  have embeds := Fragment.embeds_parse? parsed (by omega)
  have top_element : p.top.element = old.tree := by rw [top]; rfl
  have formed_top : p.top.element.Formed := by rw [top_element]; exact hs.formed
  have formed : p.element.Formed := valid.formed formed_top
  obtain ⟨olds, old_leaves⟩ := leaves_of_fragment formed node fragment
  have same : Fragment.ofKind? list.tree.kind = some f := by rw [embeds.kind, kind]; exact fragment
  obtain ⟨news, new_leaves⟩ := leaves_of_fragment embeds.formed embeds.isNode same
  obtain ⟨front, back, frames⟩ := valid.frames formed_top
  have offset : p.offset = sizeOfLeaves front := frames.offset
  refine ⟨list.tree, _, rfl, covers, fun brace => ?_, ?_, embeds.kind.trans kind, embeds.formed,
    ?_, fun d hd => ?_, ?_, fun d hd start => ?_⟩
  · rw [Position.isNode, brace] at node
    cases node
  · rw [edited, show list.tree.text = t from embeds.text]
  · rw [size_of_sized _ embeds.formed.sized]
    exact room_of_fragment embeds.formed embeds.isNode same
  · obtain ⟨inner, hi, rfl⟩ := List.mem_map.mp hd
    obtain ⟨at_leaf, lt⟩ := embeds.inside inner hi
    refine ⟨by simpa using at_leaf.shift p.offset, ?_⟩
    simp only [Span.shift]
    omega
  · have moved := embeds.distinct.map fun a b (h : a + p.offset = b + p.offset) => Nat.add_right_cancel h
    rw [List.map_map] at moved
    rwa [Diagnostic.Distinct, List.map_map]
  · -- An old diagnostic at the offset of the list is anchored at its brace.
    have filled := hs.formed.leaf_ne_nil
    have leaves := frames.leaves
    rw [top_element] at leaves
    have size := hs.size
    rw [leaves, old_leaves] at size filled
    simp only [sizeOfLeaves_append, sizeOfLeaves_cons] at size
    have brace_size : Text.size ['{'] = 1 := by decide
    have len : d.span.len ≤ 1 := by
      rcases hs.anchored d hd with at_leaf | at_end
      · rw [leaves, old_leaves] at at_leaf
        rcases at_leaf.parts with before | below | behind
        · have := before.lt_end fun leaf hl => filled leaf (by simp [hl])
          omega
        · exact below.len_le_of_start (start.trans offset) (by simp)
        · have := behind.bounds.1
          simp only [sizeOfLeaves_cons] at this
          omega
      · rw [at_end]
        exact Nat.zero_le _
    rw [new_leaves]
    exact .head _ start len

/-- The tree of a text covers what an edit of the text deletes. -/
theorem Sound.covers (hs : old.Sound t) (fits : e.applyTo? t = some u) :
    (Position.root old.tree).span.covers e.delete = true := by
  rw [Span.covers_iff]
  refine ⟨Nat.zero_le _, ?_⟩
  have stop := Edit.stop_le_of_applyTo? fits
  have size : (Position.root old.tree).size = t.size := (size_eq_leaves hs.formed).trans hs.size
  simpa [Position.span, Position.offset, Span.stop, size] using stop

/-- An edit that fits a text leads from a sound parse of it to a sound parse of the edited text, in
whichever way. -/
theorem Sound.edit (hs : old.Sound t) (fits : e.applyTo? t = some u) :
    ∃ p strategy, old.edit e = .ok (p, strategy) ∧ p.Sound u := by
  have covers := hs.covers fits
  obtain ⟨valid, here, top⟩ := Position.covering_root covers
  obtain ⟨fresh, parsed, sound⟩ := sound_ofText u
  obtain ⟨block, found, from_list⟩ := firstPatch?_total e
    (((Position.root old.tree).covering e.delete).ancestors.filter (·.isNode))
  have found : patchBlock? (Position.root old.tree) e = .ok block := found
  unfold Parse.edit
  rw [hs.text, fits]
  simp only [covers, Bool.not_true, Bool.false_eq_true, if_false]
  cases token : patchToken? (Position.root old.tree) old.diagnostics e with
  | some patch =>
    obtain ⟨p, g, new, rfl, valid, top, exchange⟩ := exchange_token covers token
    exact ⟨_, _, rfl, exchange.sound hs fits valid top⟩
  | none =>
    simp only [found]
    cases block with
    | some patch =>
      obtain ⟨p, hp, patched⟩ := from_list patch rfl
      obtain ⟨hp, node⟩ := List.mem_filter.mp hp
      obtain ⟨valid_p, top_p⟩ := valid.ancestor hp
      obtain ⟨g, new, rfl, exchange⟩ := hs.exchange_list node valid_p (top_p.trans top) patched
      exact ⟨_, _, rfl, exchange.sound hs fits valid_p (top_p.trans top)⟩
    | none =>
      simp only [parsed]
      exact ⟨_, _, rfl, sound⟩

/-! ## Chains of edits -/

/-- The parses behind each of some edits, with the ways in which they came about. -/
def editAll (old : Parse) : List Edit → Except EditError (List (Parse × Strategy))
  | [] => .ok []
  | e :: es => do
    let step ← old.edit e
    return step :: (← step.1.editAll es)

theorem Sound.editAll (hs : old.Sound t) {es : List Edit} {texts : List Text}
    (fits : Edit.texts? t es = some texts) : ∃ steps, old.editAll es = .ok steps ∧
      List.Forall₂ (fun step text => Sound step.1 text) steps texts := by
  induction es generalizing old t texts with
  | nil =>
    obtain rfl := Option.some.inj fits
    exact ⟨[], rfl, .nil⟩
  | cons e es ih =>
    obtain ⟨u, fits_first, rest⟩ := Option.bind_eq_some_iff.mp fits
    obtain ⟨later, fits_later, rest⟩ := Option.bind_eq_some_iff.mp rest
    obtain rfl := Option.some.inj rest
    obtain ⟨p, strategy, edited, sound⟩ := hs.edit fits_first
    obtain ⟨steps, run, all⟩ := ih sound fits_later
    refine ⟨(p, strategy) :: steps, ?_, .cons sound all⟩
    rw [Parse.editAll, edited]
    change (do return (p, strategy) :: (← p.editAll es)) = _
    rw [run]
    rfl

end Parse

end Verbatim
