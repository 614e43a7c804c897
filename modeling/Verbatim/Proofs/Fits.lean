import Verbatim.Proofs.Commands
import Verbatim.Proofs.Safe

/-!
# Outlines spell what was read

The tokens of an outline are the tokens of the input from the place where it starts up to the place where
it ends, in order and without gaps. The outline of a safe run shows no faults.
-/
namespace Verbatim

namespace Outline

mutual
/-- How many tokens of the input an outline takes. -/
def width : Outline → Nat
  | token _ pieces => pieces
  | node _ row => widthOf row
  | around _ inner row => width inner + widthOf row
  | _ => 0

def widthOf : List Outline → Nat
  | [] => 0
  | o :: older => widthOf older + width o
end

mutual
/-- The tokens of an outline are written in the input from place `i` on. -/
def Fits (input : Input) : Outline → (i : Nat) → Prop
  | token k pieces, i => input.isAt i k = true ∧ k ≠ .eof ∧ pieces = k.pieces.length
  | node _ row, i => FitsOf input row i
  | around _ inner row, i => Fits input inner i ∧ FitsOf input row (i + inner.width)
  | _, _ => True

def FitsOf (input : Input) : List Outline → (i : Nat) → Prop
  | [], _ => True
  | o :: older, i => FitsOf input older i ∧ Fits input o (i + widthOf older)
end

theorem widthOf_append (new old : List Outline) : widthOf (new ++ old) = widthOf old + widthOf new := by
  induction new with
  | nil => simp [widthOf]
  | cons o new ih => simp [widthOf, ih, Nat.add_assoc]

theorem fitsOf_append {input : Input} {new old : List Outline} {i : Nat} :
    FitsOf input (new ++ old) i ↔ FitsOf input old i ∧ FitsOf input new (i + widthOf old) := by
  induction new with
  | nil => simp [FitsOf]
  | cons o new ih => simp [FitsOf, ih, widthOf_append, and_assoc, Nat.add_assoc]

end Outline

namespace Parser

open Outline

/-- The row of a frame spells the input from a place up to where the frame stands, and nothing went
wrong in it. -/
structure Frame.Spells (s : Frame) (input : Input) (start : Nat) : Prop where
  clean : CleanOf s.row
  fits : FitsOf input s.row start
  pos : s.pos = start + widthOf s.row

namespace Frame.Spells

variable {s t : Frame} {input : Input} {start : Nat}

theorem opened (s : Frame) : s.opened.Spells input s.pos :=
  ⟨trivial, trivial, rfl⟩

theorem error (h : s.Spells input start) (cause : Cause) : (s.write (.error cause)).Spells input start :=
  ⟨⟨trivial, h.clean⟩, ⟨h.fits, trivial⟩, h.pos⟩

theorem take {k : Kind} (h : s.Spells input start) (hk : k ≠ .eof) (at_pos : input.isAt s.pos k = true) :
    (s.take k k.pieces.length).Spells input start := by
  have pos := h.pos
  refine ⟨⟨trivial, h.clean⟩, ⟨h.fits, ?_, hk, rfl⟩, ?_⟩
  · rwa [← pos]
  · simp [Frame.take, widthOf, width, pos, Nat.add_assoc]

theorem close {k : Kind} (h : s.Spells input start) (ht : t.Spells input s.pos) (hk : k ≠ .tombstone) :
    (s.close t k).Spells input start := by
  have pos := h.pos
  refine ⟨⟨⟨hk, ht.clean⟩, h.clean⟩, ⟨h.fits, ?_⟩, ?_⟩
  · rw [← pos]
    exact ht.fits
  · simp [Frame.close, widthOf, width, ht.pos, pos, Nat.add_assoc]

theorem spill (h : s.Spells input start) (ht : t.Spells input s.pos) :
    (s.spill t).Spells input start := by
  have pos := h.pos
  unfold Frame.spill
  split
  · next empty =>
    have none_taken : t.row = [] := by simpa using empty
    refine ⟨h.clean, h.fits, ?_⟩
    simpa [none_taken, widthOf, pos] using ht.pos
  · refine ⟨cleanOf_append.mpr ⟨ht.clean, trivial, h.clean⟩,
      fitsOf_append.mpr ⟨⟨h.fits, trivial⟩, ?_⟩, ?_⟩
    · simpa [widthOf, width, ← pos] using ht.fits
    · simp [widthOf_append, widthOf, width, ht.pos, pos, Nat.add_assoc]

theorem closeAround {k : Kind} (h : s.Spells input start) (ht : t.Spells input s.pos)
    (hs : s.endsInNode) (hk : k ≠ .tombstone) : (s.closeAround t k).Spells input start := by
  obtain ⟨inner, older, hrow, node, closed⟩ := closeAround_of_endsInNode hs t k
  have clean := h.clean
  have fits := h.fits
  have pos := h.pos
  rw [hrow] at clean fits pos
  rw [closed]
  simp only [widthOf] at pos
  refine ⟨⟨⟨hk, node, clean.1, ht.clean⟩, clean.2⟩, ⟨fits.1, fits.2, ?_⟩, ?_⟩
  · rw [Nat.add_assoc, ← pos]
    exact ht.fits
  · simp only [widthOf, width, ht.pos]
    omega

end Frame.Spells

/-- What is repeated safely ends in `R`, if each round goes from `I` to `I` and the last one to `R`. -/
theorem SafeIterate.ends {σ : Type} {step : σ → Frame → ForInStep σ × Frame} {safe I R : σ → Frame → Prop}
    {stuck : Frame → Frame}
    (round : ∀ a s, safe a s → I a s →
      match (step a s).1 with
      | .done b => R b (step a s).2
      | .yield b => I b (step a s).2)
    {fuel : Nat} {a : σ} {s : Frame} (safety : SafeIterate step safe fuel a s) (h : I a s) :
    R (iterate step stuck fuel a s).1 (iterate step stuck fuel a s).2 := by
  induction fuel generalizing a s with
  | zero => exact absurd safety id
  | succ fuel ih =>
    have goes := round a s safety.1 h
    have rest := safety.2
    rw [iterate]
    rcases hr : step a s with ⟨b | b, t⟩ <;> rw [hr] at goes rest
    · exact goes
    · exact ih (rest b rfl) goes

/-- What is repeated safely ends in `P`, if each round does so from what the rounds before lead to. -/
theorem SafeIterate.invariant {σ : Type} {step : σ → Frame → ForInStep σ × Frame}
    {safe I : σ → Frame → Prop} {P : Frame → Prop} {stuck : Frame → Frame}
    (round : ∀ a s, safe a s → I a s →
      P (step a s).2 ∧ ∀ b, (step a s).1 = .yield b → I b (step a s).2)
    {fuel : Nat} {a : σ} {s : Frame} (safety : SafeIterate step safe fuel a s) (h : I a s) :
    P (iterate step stuck fuel a s).2 := by
  refine SafeIterate.ends (R := fun _ t => P t) (fun a s safe ha => ?_) safety h
  obtain ⟨ends, goes⟩ := round a s safe ha
  split
  · exact ends
  · next b hb => exact goes b hb

/-- What is repeated safely keeps what each round keeps. -/
theorem SafeIterate.keeps {σ : Type} {step : σ → Frame → ForInStep σ × Frame}
    {safe : σ → Frame → Prop} {stuck : Frame → Frame} {P : Frame → Prop}
    (hstep : ∀ a s, safe a s → P s → P (step a s).2) {fuel : Nat} {a : σ} {s : Frame}
    (safety : SafeIterate step safe fuel a s) (h : P s) : P (iterate step stuck fuel a s).2 :=
  SafeIterate.invariant (I := fun _ s => P s)
    (fun a s safe h => ⟨hstep a s safe h, fun _ _ => hstep a s safe h⟩) safety h

/-- Called rules and lists write what they read. -/
structure Spelling (input : Input) (d : Drafters) (g : Guards) : Prop where
  rule : ∀ r F depth s start, g.rule r F depth s → s.Spells input start →
    (d.rule r depth s).2.Spells input start
  list : ∀ f depth s start, g.list f depth s → s.Spells input start →
    (d.list f depth s).Spells input start

/-- A safe run writes what it reads. -/
theorem spells_of_safe {input : Input} {d : Drafters} {g : Guards} {allowed : Nat → Prop}
    (simple : ∀ i, (input.kind i).IsSimple) (hd : Spelling input d g) {α : Type} (p : Parser α)
    {F : Prop} {depth : Nat} {s : Frame} {start : Nat} (safe : p.Safe input allowed d g F depth s)
    (h : s.Spells input start) : (p.draft input d depth s).2.Spells input start := by
  induction p generalizing F depth s start with
  | done a => exact h
  | andThen p next ihp ihn => exact ihn _ safe.2 (ihp safe.1 h)
  | nth n => exact h
  | isAhead n k => exact h
  | eat k =>
    by_cases hk : input.isAt s.pos k = true
    · simpa [draft, hk] using h.take safe hk
    · simpa [draft, hk] using h
  | bumpAny =>
    by_cases hk : input.kind s.pos = .eof
    · simpa [draft, hk] using h
    · have single : (input.kind s.pos).pieces.length = 1 := by
        rw [show (input.kind s.pos).pieces = [input.kind s.pos] from simple s.pos]
        rfl
      have taken := h.take hk (Input.isAt_of_kind rfl (simple s.pos))
      rw [single] at taken
      simpa [draft, hk] using taken
  | error cause => exact h.error cause
  | fault what => exact absurd safe id
  | enclose body kind ih =>
    have inner := ih safe.1 (Frame.Spells.opened s)
    have plain := safe.2
    simp only [draft]
    split
    · next k hk => exact h.close inner (plain k hk).ne_tombstone
    · exact h.spill inner
  | wrap body ih =>
    simp only [draft, Frame.openedAround_of_endsInNode safe.1]
    exact h.closeAround (ih safe.2.1 (Frame.Spells.opened s)) safe.1 safe.2.2.1
  | deeper inner atLimit ihi iha =>
    have safe := safe.2.2
    simp only [draft]
    split
    · next limit =>
      rw [if_pos limit] at safe
      exact iha safe h
    · next limit =>
      rw [if_neg limit] at safe
      exact ihi safe h
  | loop a body ih =>
    exact SafeIterate.keeps (P := fun t => t.Spells input start) (fun a s hs => ih a hs) safe h
  | watch body ih => exact ih safe h
  | call r => exact hd.rule r F depth s start safe h
  | list f => exact hd.list f depth s start safe h

theorem kind_ne_tombstone (f : Fragment) : f.kind ≠ .tombstone := by
  cases f <;> decide

theorem spelling_drafters {input : Input} {allowed : Nat → Prop}
    (simple : ∀ i, (input.kind i).IsSimple) (levels : Nat) :
    Spelling input (drafters input levels) (guards input allowed levels) := by
  induction levels with
  | zero => exact ⟨fun _ _ _ _ _ safe => absurd safe id, fun _ _ _ _ safe => absurd safe id⟩
  | succ levels ih =>
    refine ⟨fun r F depth s start safe h => spells_of_safe simple ih r.body safe h,
      fun f depth s start safe h => ?_⟩
    exact h.close (spells_of_safe simple ih f.body safe.2 (Frame.Spells.opened s)) (kind_ne_tombstone f)

/-- The outline of a safe run of a whole program. -/
theorem spells_outline {input : Input} {allowed : Nat → Prop} {F : Prop}
    (simple : ∀ i, (input.kind i).IsSimple) {program : Parser Unit}
    (safe : program.Safe input allowed (drafters input (2 * input.length + 2))
      (guards input allowed (2 * input.length + 2)) F 0 ⟨0, []⟩) :
    (outline program input).Spells input 0 :=
  spells_of_safe simple (spelling_drafters simple _) program safe ⟨trivial, trivial, rfl⟩

end Parser

/-! ## Nodes that hold a token -/

namespace Outline

mutual
/-- Nodes that take along the comments above them take a token. -/
def Stocked : Outline → Prop
  | node k row => (k.attachesComments = true → 0 < widthOf row) ∧ StockedOf row
  | around _ inner row => Stocked inner ∧ StockedOf row
  | _ => True

def StockedOf : List Outline → Prop
  | [] => True
  | o :: older => StockedOf older ∧ Stocked o
end

theorem stockedOf_append {new old : List Outline} : StockedOf (new ++ old) ↔ StockedOf old ∧ StockedOf new := by
  induction new with
  | nil => simp [StockedOf]
  | cons o new ih => simp [StockedOf, ih, and_assoc]

end Outline

namespace Parser

open Outline

theorem stockedOf_spill {s t : Frame} (hs : StockedOf s.row) (ht : StockedOf t.row) :
    StockedOf (s.spill t).row := by
  unfold Frame.spill
  split
  · exact hs
  · exact stockedOf_append.mpr ⟨⟨hs, trivial⟩, ht⟩

/-- Called rules and lists keep nodes stocked. -/
structure Stocking (d : Drafters) (g : Guards) : Prop where
  rule : ∀ r F depth s, g.rule r F depth s → StockedOf s.row → StockedOf (d.rule r depth s).2.row
  list : ∀ f depth s, g.list f depth s → StockedOf s.row → StockedOf (d.list f depth s).row

/-- In a safe run, the nodes that take along comments take a token. -/
theorem stocked_of_safe {input : Input} {d : Drafters} {g : Guards} {allowed : Nat → Prop}
    (simple : ∀ i, (input.kind i).IsSimple) (hd : Spelling input d g) (hf : Stocking d g) {α : Type}
    (p : Parser α) {F : Prop} {depth : Nat} {s : Frame} (safe : p.Safe input allowed d g F depth s)
    (h : StockedOf s.row) : StockedOf (p.draft input d depth s).2.row := by
  induction p generalizing F depth s with
  | done a => exact h
  | andThen p next ihp ihn => exact ihn _ safe.2 (ihp safe.1 h)
  | nth n => exact h
  | isAhead n k => exact h
  | eat k =>
    simp only [draft]
    split
    · exact ⟨h, trivial⟩
    · exact h
  | bumpAny =>
    simp only [draft]
    split
    · exact h
    · exact ⟨h, trivial⟩
  | error cause => exact ⟨h, trivial⟩
  | fault what => exact absurd safe id
  | enclose body kind ih =>
    have inner := ih safe.1 (s := s.opened) trivial
    have spells := spells_of_safe simple hd body safe.1 (Frame.Spells.opened s)
    have plain := safe.2
    simp only [draft]
    split
    · next k hk =>
      refine ⟨h, fun attaches => ?_, inner⟩
      have lt := (plain k hk).holds attaches
      rw [spells.pos] at lt
      omega
    · exact stockedOf_spill h inner
  | wrap body ih =>
    have inner := ih safe.2.1 (s := s.opened) trivial
    simp only [draft, Frame.openedAround_of_endsInNode safe.1]
    obtain ⟨first, older, row, -, closed⟩ := Frame.closeAround_of_endsInNode safe.1
      (body.draft input d depth s.opened).2 (body.draft input d depth s.opened).1
    rw [row] at h
    rw [closed]
    exact ⟨h.1, h.2, inner⟩
  | deeper inner atLimit ihi iha =>
    have safe := safe.2.2
    simp only [draft]
    split
    · next limit =>
      rw [if_pos limit] at safe
      exact iha safe h
    · next limit =>
      rw [if_neg limit] at safe
      exact ihi safe h
  | loop a body ih => exact SafeIterate.keeps (P := fun t => StockedOf t.row) (fun a s hs => ih a hs) safe h
  | watch body ih => exact ih safe h
  | call r => exact hf.rule r F depth s safe h
  | list f => exact hf.list f depth s safe h

theorem kind_attaches_nothing (f : Fragment) : f.kind.attachesComments = false := by
  cases f <;> rfl

theorem stocking_drafters {input : Input} {allowed : Nat → Prop}
    (simple : ∀ i, (input.kind i).IsSimple) (levels : Nat) :
    Stocking (drafters input levels) (guards input allowed levels) := by
  induction levels with
  | zero => exact ⟨fun _ _ _ _ safe => absurd safe id, fun _ _ _ safe => absurd safe id⟩
  | succ levels ih =>
    have spelling : Spelling input (drafters input levels) (guards input allowed levels) :=
      spelling_drafters simple levels
    refine ⟨fun r F depth s safe h => stocked_of_safe simple spelling ih r.body safe h,
      fun f depth s safe h => ⟨h, fun attaches => ?_, stocked_of_safe simple spelling ih f.body safe.2 trivial⟩⟩
    simp [kind_attaches_nothing f] at attaches

/-- The nodes that take along comments are stocked in the outline of a safe run. -/
theorem stocked_outline {input : Input} {allowed : Nat → Prop} {F : Prop}
    (simple : ∀ i, (input.kind i).IsSimple) {program : Parser Unit}
    (safe : program.Safe input allowed (drafters input (2 * input.length + 2))
      (guards input allowed (2 * input.length + 2)) F 0 ⟨0, []⟩) :
    StockedOf (outline program input).row :=
  stocked_of_safe simple (spelling_drafters simple _) (stocking_drafters simple _) program safe trivial

end Parser

end Verbatim
