import Mathlib.Tactic.Common
import Verbatim.Edit

/-!
# What an edit makes of a text

A text that an edit fits falls into what is before the deleted part, that part, and what is behind it.
An edit that lies within a part of a text can be made on that part alone.
-/
namespace Verbatim

namespace Text

/-- Of two fronts of a text, the one of smaller size is a front of the other. -/
theorem split_of_size_le {a b c d : Text} (h : a ++ b = c ++ d) (hs : c.size ≤ a.size) :
    ∃ m, a = c ++ m ∧ d = m ++ b := by
  rcases List.append_eq_append_iff.mp h with ⟨m, rfl, rfl⟩ | ⟨m, rfl, rfl⟩
  · obtain rfl : m = [] := eq_nil_of_size (by simp only [size_append] at hs; omega)
    exact ⟨[], by simp, by simp⟩
  · exact ⟨m, rfl, rfl⟩

theorem cut?_append (a b : Text) : cut? (a ++ b) a.size = some (a, b) := by
  induction a with
  | nil => cases b <;> rfl
  | cons c a ih =>
    obtain ⟨n, hn⟩ : ∃ n, size (c :: a) = n + 1 :=
      ⟨size (c :: a) - 1, by have := c.utf8Size_pos; simp only [size_cons]; omega⟩
    have le : c.utf8Size ≤ n + 1 := by simp only [size_cons] at hn; omega
    have rest : n + 1 - c.utf8Size = size a := by simp only [size_cons] at hn; omega
    rw [List.cons_append, hn, cut?, if_pos le, rest, ih]
    rfl

end Text

namespace Edit

open Text

/-- The edit takes `old` out between `front` and `back`. -/
structure Splits (e : Edit) (t front old back : Text) : Prop where
  text : t = front ++ old ++ back
  start : front.size = e.delete.start
  len : old.size = e.delete.len

theorem applyTo?_of_splits {e : Edit} {t front old back : Text} (h : e.Splits t front old back) :
    e.applyTo? t = some (front ++ e.insert ++ back) := by
  rw [applyTo?, h.text, List.append_assoc, ← h.start, cut?_append, ← h.len]
  change (cut? (old ++ back) old.size >>= _) = _
  rw [cut?_append]
  rfl

theorem splits_of_applyTo? {e : Edit} {t u : Text} (h : e.applyTo? t = some u) :
    ∃ front old back, e.Splits t front old back ∧ u = front ++ e.insert ++ back := by
  obtain ⟨⟨front, rest⟩, hfront, h⟩ := Option.bind_eq_some_iff.mp h
  obtain ⟨⟨old, back⟩, hold, h⟩ := Option.bind_eq_some_iff.mp h
  obtain ⟨parts, start⟩ := append_of_cut? hfront
  obtain ⟨parts', len⟩ := append_of_cut? hold
  refine ⟨front, old, back, ⟨?_, start, len⟩, (Option.some.inj h).symm⟩
  rw [← parts, ← parts', List.append_assoc]

/-- An edit fits a text if it lies within it and cuts no character: then there is an edited text. -/
theorem stop_le_of_applyTo? {e : Edit} {t u : Text} (h : e.applyTo? t = some u) :
    e.delete.stop ≤ t.size := by
  obtain ⟨front, old, back, splits, -⟩ := splits_of_applyTo? h
  rw [splits.text, Span.stop, ← splits.start, ← splits.len]
  simp only [size_append]
  omega

/-- What an edit within a part of a text makes of that part. -/
theorem applyTo?_within {e : Edit} {front part back u : Text}
    (h : e.applyTo? (front ++ part ++ back) = some u) (hs : front.size ≤ e.delete.start)
    (ht : e.delete.stop ≤ front.size + part.size) :
    ∃ new, (e.relativeTo front.size).applyTo? part = some new ∧ u = front ++ new ++ back ∧
      new.size + e.delete.len = part.size + e.insertLen := by
  obtain ⟨before, old, behind, splits, rfl⟩ := splits_of_applyTo? h
  have text := splits.text
  have start := splits.start
  have len := splits.len
  rw [Span.stop] at ht
  rw [List.append_assoc, List.append_assoc] at text
  obtain ⟨near, rfl, rest⟩ := split_of_size_le text.symm (by omega)
  rw [← List.append_assoc] at rest
  simp only [size_append] at start
  obtain ⟨far, rfl, rfl⟩ := split_of_size_le rest (by simp only [size_append]; omega)
  refine ⟨near ++ e.insert ++ far, applyTo?_of_splits ⟨rfl, ?_, len⟩, ?_, ?_⟩
  · rw [relativeTo]
    simp only
    omega
  · simp only [List.append_assoc]
  · simp only [size_append, insertLen]
    omega

end Edit

end Verbatim
