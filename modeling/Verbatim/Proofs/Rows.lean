import Verbatim.Proofs.Outline

/-!
# Rows only grow

A run adds to the row that it finds. The only element already there that it may still change is a node
that stands last: one can be put around it. So all that is said of a row by its elements alone carries
over from the start of a run to its end, and back.
-/
namespace Verbatim.Parser

open Outline

/-- How a run may change a row. -/
inductive Grown (r : List Outline) : List Outline → Prop where
  | refl : Grown r r
  | write {r' : List Outline} (o : Outline) : Grown r r' → Grown r (o :: r')
  | around {r' : List Outline} {x : Outline} (k : Kind) (row : List Outline) :
    x.isNode = true → Grown r (x :: r') → Grown r (.around k x row :: r')

namespace Grown

variable {r r' r'' : List Outline}

theorem trans (h : Grown r r') (h' : Grown r' r'') : Grown r r'' := by
  induction h' with
  | refl => exact h
  | write o _ ih => exact ih.write o
  | around k row hx _ ih => exact ih.around k row hx

theorem append (r new : List Outline) : Grown r (new ++ r) := by
  induction new with
  | nil => exact .refl
  | cons o new ih => exact ih.write o

/-- What stands in a row before a last element that is no node stays there. -/
theorem suffix {x : Outline} (h : Grown (x :: r) r') (hx : x.isNode = false) : x :: r <:+ r' := by
  have strong : x :: r <:+ r' ∧ (r' = x :: r ∨ x :: r <:+ r'.tail) := by
    induction h with
    | refl => exact ⟨List.suffix_rfl, .inl rfl⟩
    | write o _ ih => exact ⟨ih.1.trans (List.suffix_cons _ _), .inr ih.1⟩
    | around k row node _ ih =>
      rcases ih.2 with same | behind
      · rw [(List.cons.inj same).1, hx] at node
        contradiction
      · exact ⟨List.IsSuffix.trans behind (List.suffix_cons _ _), .inr behind⟩
  exact strong.1

end Grown

/-- What was reported stays in the row. -/
theorem Grown.quiet {r r' : List Outline} (h : Grown r r') (quiet : QuietOf r') : QuietOf r := by
  induction h with
  | refl => exact quiet
  | write o _ ih => exact ih quiet.1
  | around k row _ _ ih => exact ih ⟨quiet.1, quiet.2.1⟩

/-- Called rules and lists only let the row grow. -/
structure Growing (d : Drafters) : Prop where
  rule : ∀ r depth s, Grown s.row (d.rule r depth s).2.row
  list : ∀ f depth s, Grown s.row (d.list f depth s).row

theorem grown_spill (s t : Frame) : Grown s.row (s.spill t).row := by
  rw [Frame.spill]
  dsimp only
  split
  · exact .refl
  · rw [← List.singleton_append, ← List.append_assoc]
    exact .append _ _

theorem grown_closeAround (s t : Frame) (k : Kind) : Grown s.row (s.closeAround t k).row := by
  obtain ⟨pos, row⟩ := s
  cases row with
  | nil => exact Grown.refl.write _
  | cons inner older =>
    simp only [Frame.closeAround]
    split
    · next node => exact Grown.refl.around k t.row node
    · exact Grown.refl.write _

theorem iterate_induction {σ τ : Type} {step : σ → τ → ForInStep σ × τ} {stuck : τ → τ} {P : τ → Prop}
    (round : ∀ a t, P t → P (step a t).2) (hs : ∀ t, P t → P (stuck t)) (fuel : Nat) {a : σ} {t : τ}
    (h : P t) : P (iterate step stuck fuel a t).2 := by
  induction fuel generalizing a t with
  | zero => exact hs t h
  | succ fuel ih =>
    have kept := round a t h
    rw [iterate]
    rcases hr : step a t with ⟨_ | b, u⟩ <;> rw [hr] at kept
    · exact kept
    · exact ih kept

/-- Every program only lets the row grow. -/
theorem grown_draft (input : Input) {d : Drafters} (hd : Growing d) {α : Type} (p : Parser α)
    (depth : Nat) (s : Frame) : Grown s.row (p.draft input d depth s).2.row := by
  induction p generalizing depth s with
  | done a => exact .refl
  | andThen p next ihp ihn => exact (ihp depth s).trans (ihn _ depth _)
  | nth n => exact .refl
  | isAhead n k => exact .refl
  | eat k =>
    simp only [draft]
    split
    · exact Grown.refl.write _
    · exact .refl
  | bumpAny =>
    simp only [draft]
    split
    · exact .refl
    · exact Grown.refl.write _
  | error cause => exact Grown.refl.write _
  | fault what => exact Grown.refl.write _
  | enclose body kind ih =>
    simp only [draft]
    split
    · exact Grown.refl.write _
    · exact grown_spill _ _
  | wrap body ih => exact grown_closeAround _ _ _
  | deeper inner atLimit ihi iha =>
    simp only [draft]
    split
    · exact iha depth s
    · exact ihi (depth + 1) s
  | loop a body ih =>
    exact iterate_induction (P := fun t : Frame => Grown s.row t.row)
      (fun a t ht => ht.trans (ih a depth t)) (fun t ht => ht.write _) _ .refl
  | watch body ih => exact ih depth s
  | call r => exact hd.rule r depth s
  | list f => exact hd.list f depth s

theorem growing_drafters (input : Input) (levels : Nat) : Growing (drafters input levels) := by
  induction levels with
  | zero => exact ⟨fun _ _ _ => Grown.refl.write _, fun _ _ _ => Grown.refl.write _⟩
  | succ levels ih =>
    exact ⟨fun r depth s => grown_draft input ih r.body depth s, fun _ _ _ => Grown.refl.write _⟩

end Verbatim.Parser
