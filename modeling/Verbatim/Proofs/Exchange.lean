import Verbatim.Parse.Incremental
import Verbatim.Proofs.Fragments

/-!
# Sound parses, and the exchange of one element

A parse of a text is sound if its tree is a well-formed source file that has that text, and every
diagnostic is anchored at a leaf of it, or at the end, with no two at the same offset. An exchange of one
element keeps all of this: what is before the element stays where it is, what is behind it moves with the
text, and what is reported for the element comes with the new one.
-/
namespace Verbatim

open Green Parse

namespace Parse

/-- What holds of a parse of a text, edited or not. -/
structure Sound (p : Parse) (t : Text) : Prop where
  kind : p.tree.kind = .sourceFile
  formed : p.tree.Formed
  text : p.text = t
  anchored : ∀ d ∈ p.diagnostics, AtLeaf 0 p.tree.leaves d.span ∨ d.span = ⟨t.size, 0⟩
  distinct : Diagnostic.Distinct p.diagnostics

namespace Sound

variable {p : Parse} {t : Text}

theorem size (h : p.Sound t) : sizeOfLeaves p.tree.leaves = t.size := by
  rw [← h.text, Parse.text, text_eq_leaves, sizeOfLeaves]

/-- Diagnostics lie within the text. -/
theorem within (h : p.Sound t) : ∀ d ∈ p.diagnostics, d.span.stop ≤ t.size := by
  intro d hd
  rcases h.anchored d hd with at_leaf | at_end
  · have := at_leaf.bounds.2
    rwa [h.size, Nat.zero_add] at this
  · rw [at_end, Span.stop, Nat.add_zero]

end Sound

/-- The parse of a whole text is sound. -/
theorem sound_ofText (t : Text) : ∃ p, ofText t = .ok p ∧ p.Sound t := by
  obtain ⟨row, outlined, -, fits, width, parsed⟩ := ofText_eq t
  obtain ⟨formed, text⟩ := (Parser.runs_sourceFile (.ofTokens (Token.list t))).1.formed outlined fits
    width (fun fragment => absurd rfl fragment)
  obtain ⟨ts, split, -, -, shows⟩ := Outline.shows_whole fits width
  have rest : (Outline.whole row (Token.list t)).rest = [⟨.eof, [], t.size, none⟩] :=
    (List.append_cancel_left (split.symm.trans shows.split)).symm
  have grown := Outline.anchored_growOf (Replay.textEnd (Token.list t)) row (Token.follow_list t)
  have anchored := grown.andThen (.trivia (Replay.textEnd (Token.list t)) grown.rest)
  obtain ⟨distinct, kept⟩ := Diagnostic.foldl_keep (Outline.whole row (Token.list t)).reports #[]
    List.nodup_nil
  refine ⟨_, ofText_of_byProgram parsed, rfl, formed, text, fun d hd => ?_, distinct⟩
  rw [leaves_branch]
  refine (anchored.reports d ((kept d hd).resolve_left List.not_mem_nil)).imp_right fun waits => ?_
  rw [waits]
  change anchor _ (Outline.whole row (Token.list t)).rest = _
  rw [rest]
  rfl

theorem sound_of_ofText {t : Text} {p : Parse} (h : ofText t = .ok p) : p.Sound t := by
  obtain ⟨p', parsed, sound⟩ := sound_ofText t
  rwa [Except.ok.inj (h.symm.trans parsed)]

end Parse

/-! ## The exchange of one element -/

/-- An edit that lies in an element of a tree is one of the text of that element. -/
theorem edited_of_covers {p : Position} {e : Edit} {front back : List (Kind × Text)} {u : Text}
    (frames : p.Frames front back) (formed : p.element.Formed) (covers : p.span.covers e.delete = true)
    (fits : e.applyTo? p.top.element.text = some u) :
    ∃ part, editedText? p e = some part ∧ u = front.flatMap (·.2) ++ part ++ back.flatMap (·.2) ∧
      part.size + e.delete.len = p.size + e.insertLen ∧ e.delete.len ≤ p.size := by
  have covers := Span.covers_iff.mp covers
  simp only [Position.span, Span.stop] at covers
  have size : p.size = p.text.size := size_of_sized _ formed.sized
  have offset : p.offset = Text.size (front.flatMap (·.2)) := frames.offset
  rw [frames.text] at fits
  obtain ⟨part, edited, rfl, sizes⟩ := Edit.applyTo?_within fits (by omega)
    (by rw [Span.stop]; omega)
  rw [← offset] at edited
  exact ⟨part, edited, rfl, by omega, by omega⟩

/-- An element and its diagnostics, to stand in the place of another one. -/
structure Exchange (p : Position) (old : List Diagnostic) (e : Edit) (g : Green)
    (new : List Diagnostic) : Prop where
  covers : p.span.covers e.delete = true
  no_brace : p.element ≠ openingBrace
  edited : editedText? p e = some g.text
  kind : g.kind = p.kind
  formed : g.Formed
  room : 0 < g.size
  inside : ∀ d ∈ new, AtLeaf p.offset g.leaves d.span ∧ p.offset < d.span.start
  distinct : Diagnostic.Distinct new
  first : ∀ d ∈ old, d.span.start = p.offset → AtLeaf p.offset g.leaves d.span

/-- Where a diagnostic of a tree stands that falls into three parts. -/
theorem AtLeaf.parts {front middle back : List (Kind × Text)} {s : Span}
    (h : AtLeaf 0 (front ++ middle ++ back) s) :
    AtLeaf 0 front s ∨ AtLeaf (sizeOfLeaves front) middle s ∨
      AtLeaf (sizeOfLeaves front + sizeOfLeaves middle) back s := by
  rcases h.of_append with h | h
  · rcases h.of_append with h | h
    · exact .inl h
    · exact .inr (.inl (by rwa [Nat.zero_add] at h))
  · exact .inr (.inr (by rwa [Nat.zero_add, sizeOfLeaves_append] at h))

namespace Exchange

variable {p : Position} {old : Parse} {t u : Text} {e : Edit} {g : Green} {new : List Diagnostic}
  {front back : List (Kind × Text)}

/-- The edited text is made by the exchange, and its size is the old one but for the edit. -/
theorem text (h : Exchange p old.diagnostics e g new) (hs : old.Sound t) (fits : e.applyTo? t = some u)
    (frames : p.Frames front back) (top : p.top.element = old.tree) (formed : p.element.Formed) :
    (p.replaceWith g).text = u ∧ g.size + e.delete.len = p.size + e.insertLen ∧
      e.delete.len ≤ p.size := by
  rw [← hs.text, Parse.text, ← top] at fits
  obtain ⟨part, edited, rfl, sizes, le⟩ := edited_of_covers frames formed h.covers fits
  obtain rfl := Option.some.inj (edited.symm.trans h.edited)
  refine ⟨?_, ?_, le⟩
  · rw [text_eq_leaves, frames.replaced, text_eq_leaves]
    simp only [List.flatMap_append]
  · rwa [size_of_sized g h.formed.sized]

/-- What was reported up to the start of the element stays where it is. -/
theorem early (h : Exchange p old.diagnostics e g new) (hs : old.Sound t)
    (frames : p.Frames front back) (top : p.top.element = old.tree) {d : Diagnostic}
    (hd : d ∈ old.diagnostics) (le : d.span.start ≤ p.offset) :
    AtLeaf 0 (p.replaceWith g).leaves d.span := by
  have offset : p.offset = sizeOfLeaves front := frames.offset
  rw [frames.replaced, List.append_assoc]
  by_cases here : d.span.start = p.offset
  · have first := h.first d hd here
    rw [offset, ← Nat.zero_add (sizeOfLeaves front)] at first
    exact .append_left (first.append_right _)
  · have size := hs.size
    have leaves := frames.leaves
    rw [top] at leaves
    rw [leaves, sizeOfLeaves_append, sizeOfLeaves_append] at size
    rcases hs.anchored d hd with at_leaf | at_end
    · rw [leaves] at at_leaf
      rcases at_leaf.parts with before | below | behind
      · exact before.append_right _
      · have := below.bounds.1
        omega
      · have := behind.bounds.1
        omega
    · have : d.span.start = t.size := by rw [at_end]
      omega

/-- What was reported behind the element moves with the text. -/
theorem late (h : Exchange p old.diagnostics e g new) (hs : old.Sound t) (fits : e.applyTo? t = some u)
    (frames : p.Frames front back) (top : p.top.element = old.tree) (formed : p.element.Formed)
    {d : Diagnostic} (hd : d ∈ old.diagnostics) (le : p.span.stop ≤ d.span.start) :
    (AtLeaf 0 (p.replaceWith g).leaves (e.shiftSpan d.span) ∨ e.shiftSpan d.span = ⟨u.size, 0⟩) ∧
      p.offset + g.size ≤ (e.shiftSpan d.span).start ∧ e.delete.len ≤ d.span.start := by
  obtain ⟨text, sizes, short⟩ := h.text hs fits frames top formed
  have offset : p.offset = sizeOfLeaves front := frames.offset
  have middle : p.size = sizeOfLeaves p.element.leaves := size_eq_leaves formed
  have g_size : g.size = sizeOfLeaves g.leaves := size_eq_leaves h.formed
  have old_size := hs.size
  have leaves := frames.leaves
  rw [top] at leaves
  rw [leaves, sizeOfLeaves_append, sizeOfLeaves_append] at old_size
  have new_size : u.size = sizeOfLeaves front + sizeOfLeaves g.leaves + sizeOfLeaves back := by
    rw [← text, text_eq_leaves, frames.replaced]
    simp only [← sizeOfLeaves_append]
    rfl
  rw [Position.span, Span.stop] at le
  simp only at le
  refine ⟨?_, by simp only [Edit.shiftSpan, Edit.shift]; omega, by omega⟩
  rcases hs.anchored d hd with at_leaf | at_end
  · left
    have filled := hs.formed.leaf_ne_nil
    rw [leaves] at at_leaf filled
    rcases at_leaf.parts with before | below | behind
    · have := before.lt_end fun leaf hl => filled leaf (by simp [hl])
      omega
    · have := below.lt_end fun leaf hl => filled leaf (by simp [hl])
      omega
    · obtain ⟨near, leaf, far, rfl, start, len⟩ := behind
      rw [frames.replaced]
      refine ⟨front ++ g.leaves ++ near, leaf, far, by simp, ?_, len⟩
      simp only [Edit.shiftSpan, Edit.shift, sizeOfLeaves_append]
      omega
  · right
    rw [at_end] at le ⊢
    simp only [Edit.shiftSpan, Edit.shift, Span.mk.injEq, and_true] at le ⊢
    omega

/-- An exchange keeps a parse sound, for the edited text. -/
theorem sound (h : Exchange p old.diagnostics e g new) (hs : old.Sound t)
    (fits : e.applyTo? t = some u) (valid : p.Valid) (top : p.top = .root old.tree) :
    (old.patched e ⟨p.replaceWith g, new, p.span⟩).Sound u := by
  have top_element : p.top.element = old.tree := by rw [top]; rfl
  have formed_top : p.top.element.Formed := by rw [top_element]; exact hs.formed
  have formed := valid.formed formed_top
  obtain ⟨front, back, frames⟩ := valid.frames formed_top
  obtain ⟨text, -, -⟩ := h.text hs fits frames top_element formed
  have offset : p.offset = sizeOfLeaves front := frames.offset
  refine ⟨?_, valid.formed_replaceWith formed_top h.no_brace h.formed, text, ?_, ?_⟩
  · change (p.replaceWith g).kind = _
    rw [Position.kind_replaceWith h.kind, top]
    exact hs.kind
  · intro d hd
    rcases List.mem_append.mp hd with hd | hd
    · rcases List.mem_append.mp hd with hd | hd
      · obtain ⟨hd, le⟩ := List.mem_filter.mp hd
        exact .inl (h.early hs frames top_element hd (of_decide_eq_true le))
      · left
        change AtLeaf 0 (p.replaceWith g).leaves d.span
        have here := (h.inside d hd).1
        rw [offset, ← Nat.zero_add (sizeOfLeaves front)] at here
        rw [frames.replaced]
        exact here.append_left.append_right _
    · obtain ⟨d', hd', rfl⟩ := List.mem_map.mp hd
      obtain ⟨hd', le⟩ := List.mem_filter.mp hd'
      exact (h.late hs fits frames top_element formed hd' (of_decide_eq_true le)).1
  · -- The starts fall into those up to the element, those inside of it and those behind it.
    have starts : ((old.patched e ⟨p.replaceWith g, new, p.span⟩).diagnostics.map (·.span.start)) =
        (old.diagnostics.filter (·.span.start ≤ p.offset)).map (·.span.start) ++
          (new.map (·.span.start) ++
          ((old.diagnostics.filter (p.span.stop ≤ ·.span.start)).map (·.span.start)).map e.shift) := by
      simp [patched, mergeDiagnostics, Edit.shiftSpan, Function.comp_def, Position.span]
      rfl
    have g_size : g.size = sizeOfLeaves g.leaves := size_eq_leaves h.formed
    have early_start : ∀ n ∈ (old.diagnostics.filter (·.span.start ≤ p.offset)).map (·.span.start),
        n ≤ p.offset := by
      intro n hn
      obtain ⟨d, hd, rfl⟩ := List.mem_map.mp hn
      exact of_decide_eq_true (List.mem_filter.mp hd).2
    have new_start : ∀ n ∈ new.map (·.span.start), p.offset < n ∧ n < p.offset + g.size := by
      intro n hn
      obtain ⟨d, hd, rfl⟩ := List.mem_map.mp hn
      obtain ⟨at_leaf, lt⟩ := h.inside d hd
      exact ⟨lt, g_size ▸ at_leaf.lt_end h.formed.leaf_ne_nil⟩
    have late_start : ∀ n ∈ ((old.diagnostics.filter (p.span.stop ≤ ·.span.start)).map (·.span.start)),
        p.offset + g.size ≤ e.shift n ∧ e.delete.len ≤ n := by
      intro n hn
      obtain ⟨d, hd, rfl⟩ := List.mem_map.mp hn
      obtain ⟨hd, le⟩ := List.mem_filter.mp hd
      exact (h.late hs fits frames top_element formed hd (of_decide_eq_true le)).2
    rw [Diagnostic.Distinct, starts]
    refine List.Nodup.append ?_ (List.Nodup.append h.distinct ?_ ?_) ?_
    · exact hs.distinct.sublist (List.filter_sublist.map _)
    · refine List.Nodup.map_on (fun a ha b hb same => ?_)
        (hs.distinct.sublist (List.filter_sublist.map _))
      have := (late_start a ha).2
      have := (late_start b hb).2
      simp only [Edit.shift] at same
      omega
    · intro n hn hl
      obtain ⟨m, hm, rfl⟩ := List.mem_map.mp hl
      have := (new_start _ hn).2
      have := (late_start m hm).1
      omega
    · intro n hn hl
      have le := early_start n hn
      rcases List.mem_append.mp hl with hl | hl
      · have := (new_start n hl).1
        omega
      · obtain ⟨m, hm, rfl⟩ := List.mem_map.mp hl
        have := (late_start m hm).1
        have := h.room
        omega

end Exchange

end Verbatim
