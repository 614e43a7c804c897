import Verbatim.Proofs.Rows
import Verbatim.Proofs.Safe

/-!
# A flat outline comes from a run without a cut

Between a nesting step and the next one inside of it a node is opened, so the depth of a run never
exceeds the number of nodes that are open. If what a run writes stays below some height, within the limit,
none of its nesting steps comes at that depth.
-/
namespace Verbatim.Parser

open Outline

/-- A number of open nodes that allows for a depth; one more if a node was opened since the nesting step
around. -/
structure Room (depth opened : Nat) (fresh : Prop) : Prop where
  le : depth ≤ opened
  lt : fresh → depth < opened

theorem Room.inside {depth opened : Nat} {fresh fresh' : Prop} (h : Room depth opened fresh) :
    Room depth (opened + 1) fresh' :=
  ⟨Nat.le_succ_of_le h.le, fun _ => Nat.lt_succ_of_le h.le⟩

theorem Room.nested {depth opened : Nat} {fresh : Prop} (h : Room depth opened fresh) (hf : fresh) :
    Room (depth + 1) opened False :=
  ⟨h.lt hf, False.elim⟩

theorem heightOf_append (new old : List Outline) :
    heightOf (new ++ old) = max (heightOf old) (heightOf new) := by
  induction new with
  | nil => simp [heightOf]
  | cons o new ih => simp [heightOf, ih, Nat.max_assoc]

theorem Grown.heightOf_le {r r' : List Outline} (h : Grown r r') : heightOf r ≤ heightOf r' := by
  induction h with
  | refl => exact Nat.le_refl _
  | write o _ ih => exact Nat.le_trans ih (Nat.le_max_left _ _)
  | around k row _ _ ih =>
    refine Nat.le_trans ih ?_
    simp only [heightOf, height]
    omega

/-- For the rules and lists that are called, a flat outcome keeps them off a limit. -/
structure Lowering (limit : Nat) (d : Drafters) (g g' : Guards) : Prop where
  rule : ∀ r F depth s n, g.rule r F depth s → Room depth n F →
    n + heightOf (d.rule r depth s).2.row < limit → g'.rule r F depth s
  list : ∀ f F depth s n, g.list f depth s → Room depth n F →
    n + heightOf (d.list f depth s).row < limit → g'.list f depth s

theorem safeIterate_of_low {σ : Type} {step : σ → Frame → ForInStep σ × Frame}
    {stuck : Frame → Frame} {safe safe' : σ → Frame → Prop} {limit n : Nat}
    (grown : ∀ a s, Grown s.row (step a s).2.row) (stuck_grown : ∀ s, Grown s.row (stuck s).row)
    (round : ∀ a s, safe a s → n + heightOf (step a s).2.row < limit → safe' a s)
    (fuel : Nat) {a : σ} {s : Frame} (hs : SafeIterate step safe fuel a s)
    (low : n + heightOf (iterate step stuck fuel a s).2.row < limit) :
    SafeIterate step safe' fuel a s := by
  induction fuel generalizing a s with
  | zero => exact hs
  | succ fuel ih =>
    rw [iterate] at low
    have here := round a s hs.1
    have rest := hs.2
    rcases hr : step a s with ⟨_ | b, t⟩ <;> rw [hr] at low here rest
    · refine ⟨here low, fun b hb => ?_⟩
      rw [hr] at hb
      contradiction
    · have later : Grown t.row (iterate step stuck fuel b t).2.row :=
        iterate_induction (P := fun u : Frame => Grown t.row u.row)
          (fun a u hu => hu.trans (grown a u)) (fun u hu => hu.trans (stuck_grown u)) _ .refl
      have le := later.heightOf_le
      refine ⟨here (by simp only at low ⊢; omega), fun b' hb => ?_⟩
      rw [hr] at hb ⊢
      obtain rfl : b = b' := by simpa using hb
      exact ih (rest b rfl) low

theorem safe_of_low {limit : Nat} (within : limit ≤ nestingLimit) {input : Input} {d : Drafters}
    {g g' : Guards} (hd : Growing d) (hl : Lowering limit d g g') {α : Type} (p : Parser α) {F : Prop}
    {depth n : Nat} {s : Frame} (safe : p.Safe input (fun _ => True) d g F depth s) (room : Room depth n F)
    (low : n + heightOf (p.draft input d depth s).2.row < limit) :
    p.Safe input (· < limit) d g' F depth s := by
  induction p generalizing F depth n s with
  | andThen p next ihp ihn =>
    have later := (grown_draft input hd (next (p.draft input d depth s).1) depth
      (p.draft input d depth s).2).heightOf_le
    exact ⟨ihp safe.1 room (by simp only [draft] at low; omega), ihn _ safe.2 room low⟩
  | enclose body kind ih =>
    refine ⟨?_, safe.2⟩
    have inner := safe.1
    simp only [draft] at low
    cases made : kind (body.draft input d depth s.opened).1 with
    | some k =>
      simp only [made, Frame.close, heightOf, height] at low
      rw [made] at inner
      exact ih (n := n + 1) inner room.inside (by omega)
    | none =>
      simp only [made] at low inner ⊢
      refine ih (n := n) inner ⟨room.le, fun h => room.lt (by simpa using h)⟩ ?_
      simp only [Frame.spill] at low
      split at low
      · next empty =>
        rw [List.isEmpty_iff.mp empty]
        simp only [heightOf]
        omega
      · rw [heightOf_append] at low
        omega
  | wrap body ih =>
    refine ⟨safe.1, ?_, safe.2.2⟩
    obtain ⟨inner, older, -, -, closed⟩ := Frame.closeAround_of_endsInNode safe.1
      (body.draft input d depth s.opened).2 (body.draft input d depth s.opened).1
    simp only [draft, Frame.openedAround_of_endsInNode safe.1, closed, heightOf, height] at low
    exact ih (n := n + 1) safe.2.1 room.inside (by omega)
  | deeper inner atLimit ihi iha =>
    obtain ⟨fresh, -, safe⟩ := safe
    have below : depth < limit := by
      have := room.lt fresh
      omega
    have cut : ¬ nestingLimit ≤ depth := Nat.not_le.mpr (Nat.lt_of_lt_of_le below within)
    simp only [draft, if_neg cut] at low
    rw [if_neg cut] at safe
    refine ⟨fresh, below, ?_⟩
    rw [if_neg cut]
    exact ihi safe (room.nested fresh) low
  | loop a body ih =>
    exact safeIterate_of_low (fun a s => grown_draft input hd (body a) depth s)
      (fun s => Grown.refl.write _) (fun a s h low => ih a h room low) _ safe low
  | watch body ih => exact ih safe room low
  | call r => exact hl.rule r F depth s n safe room low
  | list f => exact hl.list f F depth s n safe room low
  | _ => exact safe

theorem lowering_drafters {limit : Nat} (within : limit ≤ nestingLimit) (input : Input) (levels : Nat) :
    Lowering limit (drafters input levels) (guards input (fun _ => True) levels)
      (guards input (· < limit) levels) := by
  induction levels with
  | zero => exact ⟨fun _ _ _ _ _ h => absurd h id, fun _ _ _ _ _ h => absurd h id⟩
  | succ levels ih =>
    refine ⟨fun r F depth s n h room low =>
      safe_of_low within (growing_drafters input levels) ih r.body h room low,
      fun f F depth s n h room low => ⟨h.1, ?_⟩⟩
    refine safe_of_low within (growing_drafters input levels) ih f.body h.2 room.inside (n := n + 1) ?_
    simp only [drafters, draft, node, Frame.close, heightOf, height] at low
    omega

end Verbatim.Parser
