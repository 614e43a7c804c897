import Verbatim.Proofs.Needs
import Verbatim.Proofs.Writing

/-!
# What a program fills a row with

For a run that reports nothing: what the program has to find so that every node it makes is whole, and what it
leaves in the row. This is read off the steps of the program; of a rule called by name only `Rule.Fills` is
known. What has been reported is of no interest, so a program may do anything behind a report.
-/
namespace Verbatim

open Outline Skeleton

namespace Rule

/-- How a rule may be called. The arrow `=>` binds with no power and is no operator. -/
def Admits : Rule → Prop
  | expression _ power => 0 < power
  | _ => True

/-- What a rule adds to a row where it reports nothing. -/
def Fills : (r : Rule) → r.Result → List Mark → Prop
  | type _, _, new => ∃ k ∈ Kind.types, new = [.node k]
  | pattern, _, new => ∃ k ∈ Kind.patterns, new = [.node k]
  | expression _ _, found, new => found.isSome ∧ ∃ k ∈ Kind.expressions, new = [.node k]
  | useTree true, _, new => new = [.node .useTree]
  | ifExpression, k, new => k = .ifExpr ∧ new = [.node .ifExpr]
  | _, _, _ => True

end Rule

namespace Parser

variable {input : Input} {α β σ : Type}

/-- From place `i` on, behind `row`, the program makes whole nodes only and ends in `Q`, if it reports
nothing. -/
def Fills (input : Input) {α : Type} : Parser α → (i : Nat) → (row : List Mark) →
    (Q : α → Nat → List Mark → Prop) → Prop
  | done a, i, row, Q => Q a i row
  | andThen p next, i, row, Q => p.Fills input i row fun b j row => (next b).Fills input j row Q
  | nth n, i, row, Q => Q (input.kind (i + n.val)) i row
  | isAhead n k, i, row, Q => Q (input.isAt (i + n) k) i row
  | eat k, i, row, Q =>
    (input.isAt i k = true → Q true (i + k.pieces.length) (.token k :: row)) ∧
      (input.isAt i k = false → Q false i row)
  | bumpAny, i, row, Q =>
    (input.kind i ≠ .eof → Q () (i + 1) (.token (input.kind i) :: row)) ∧ (input.kind i = .eof → Q () i row)
  | error _, _, _, _ => True
  | fault _, _, _, _ => True
  | enclose body kind, i, row, Q => body.Fills input i [] fun a j inner =>
      match kind a with
      | some k => k.Whole inner ∧ Q a j (.node k :: row)
      | none => Q a j (inner ++ row)
  | wrap body, i, row, Q => ∀ x older, row = .node x :: older →
      body.Fills input i [] fun k j inner => k.Whole (inner ++ [.node x]) ∧ Q k j (.node k :: older)
  | deeper inner atLimit, i, row, Q => inner.Fills input i row Q ∧ atLimit.Fills input i row Q
  | loop a body, i, row, Q =>
    ∃ I : _ → Nat → List Mark → Prop, I a i row ∧ ∀ b j row, I b j row →
      (body b).Fills input j row fun r k row =>
        match r with
        | .done b => Q b k row
        | .yield b => I b k row
  | watch body, i, row, Q => body.Fills input i row fun a j row => Q (a, j != i) j row
  | call r, _, row, Q => r.Admits ∧ ∀ a j new, r.Fills a new → Q a j (new ++ row)
  | list f, _, row, Q => ∀ j, Q () j (.node f.kind :: row)

theorem Fills.imp {p : Parser α} {i : Nat} {row : List Mark} {Q Q' : α → Nat → List Mark → Prop}
    (h : p.Fills input i row Q) (hQ : ∀ a j row, Q a j row → Q' a j row) : p.Fills input i row Q' := by
  induction p generalizing i row with
  | done a => exact hQ _ _ _ h
  | andThen p next ihp ihn => exact ihp h fun b j row hb => ihn b hb hQ
  | nth n => exact hQ _ _ _ h
  | isAhead n k => exact hQ _ _ _ h
  | eat k => exact ⟨fun hk => hQ _ _ _ (h.1 hk), fun hk => hQ _ _ _ (h.2 hk)⟩
  | bumpAny => exact ⟨fun hk => hQ _ _ _ (h.1 hk), fun hk => hQ _ _ _ (h.2 hk)⟩
  | error cause => trivial
  | fault what => trivial
  | enclose body kind ih =>
    refine ih h fun a j inner ha => ?_
    cases hk : kind a with
    | some k =>
      rw [hk] at ha
      exact ⟨ha.1, hQ _ _ _ ha.2⟩
    | none =>
      rw [hk] at ha
      exact hQ _ _ _ ha
  | wrap body ih => exact fun x older eq => ih (h x older eq) fun k j inner hk => ⟨hk.1, hQ _ _ _ hk.2⟩
  | deeper inner atLimit ihi iha => exact ⟨ihi h.1 hQ, iha h.2 hQ⟩
  | loop a body ih =>
    obtain ⟨I, start, round⟩ := h
    refine ⟨I, start, fun b j row hb => ih b (round b j row hb) fun r k row hr => ?_⟩
    cases r with
    | done b => exact hQ _ _ _ hr
    | yield b => exact hr
  | watch body ih => exact ih h fun a j row => hQ _ _ _
  | call r => exact ⟨h.1, fun a j new ha => hQ _ _ _ (h.2 a j new ha)⟩
  | list f => exact fun j => hQ _ _ _ (h j)

theorem Fills.bind {p : Parser β} {next : β → Parser α} {i : Nat} {row : List Mark}
    {Q : α → Nat → List Mark → Prop}
    (h : p.Fills input i row fun b j row => (next b).Fills input j row Q) : (p >>= next).Fills input i row Q := h

/-! ## Runs -/

/-- What a row shows, the newest first. -/
def marksOf (row : List Outline) : List Mark := marks (skeletonOf row)

theorem marksOf_cons (o : Outline) (row : List Outline) : marksOf (o :: row) = marks (skeleton o) ++ marksOf row := by
  rw [marksOf, skeletonOf, marks_append]
  rfl

theorem marksOf_token (k : Kind) (n : Nat) (row : List Outline) :
    marksOf (.token k n :: row) = .token k :: marksOf row :=
  marksOf_cons _ row

theorem marksOf_node (k : Kind) (inner row : List Outline) :
    marksOf (.node k inner :: row) = .node k :: marksOf row :=
  marksOf_cons _ row

theorem marksOf_around (k : Kind) (x : Outline) (inner row : List Outline) :
    marksOf (.around k x inner :: row) = .node k :: marksOf row :=
  marksOf_cons _ row

theorem marksOf_append (new old : List Outline) : marksOf (new ++ old) = marksOf new ++ marksOf old := by
  rw [marksOf, skeletonOf_append, marks_append]
  rfl

/-- Called rules and lists fill rows as they are said to. -/
structure Filling (d : Drafters) : Prop where
  rule : ∀ r depth s, r.Admits → WholeOf s.row → QuietOf (d.rule r depth s).2.row →
    WholeOf (d.rule r depth s).2.row ∧ ∃ new, r.Fills (d.rule r depth s).1 new ∧
      marksOf (d.rule r depth s).2.row = new ++ marksOf s.row
  list : ∀ f depth s, WholeOf s.row → QuietOf (d.list f depth s).row →
    WholeOf (d.list f depth s).row ∧ marksOf (d.list f depth s).row = .node f.kind :: marksOf s.row

theorem allOf_write {P : Skeleton → Prop} {row : List Outline} {x : Outline} (h : AllOf P (skeletonOf row))
    (hx : AllOf P x.skeleton) : AllOf P (skeletonOf (x :: row)) := by
  rw [skeletonOf]
  exact allOf_append.mpr ⟨h, hx⟩

theorem marksOf_spill (s t : Frame) : marksOf (s.spill t).row = marksOf t.row ++ marksOf s.row := by
  rw [Frame.spill]
  dsimp only
  split
  · next none =>
    rw [List.isEmpty_iff.mp none]
    rfl
  · rw [marksOf_append, marksOf_cons]
    rfl

theorem allOf_spill {P : Skeleton → Prop} {s t : Frame} (hs : AllOf P (skeletonOf s.row))
    (ht : AllOf P (skeletonOf t.row)) : AllOf P (skeletonOf (s.spill t).row) := by
  rw [Frame.spill]
  dsimp only
  split
  · exact hs
  · rw [skeletonOf_append]
    exact allOf_append.mpr ⟨allOf_write hs trivial, ht⟩

/-- A program fills the row as is read off its steps, if it reports nothing. -/
theorem fills_draft {d : Drafters} (hg : Growing d) (hf : Filling d) (p : Parser α)
    {Q : α → Nat → List Mark → Prop} (depth : Nat) (s : Frame) (hs : WholeOf s.row)
    (h : p.Fills input s.pos (marksOf s.row) Q) (quiet : QuietOf (p.draft input d depth s).2.row) :
    WholeOf (p.draft input d depth s).2.row ∧
      Q (p.draft input d depth s).1 (p.draft input d depth s).2.pos
        (marksOf (p.draft input d depth s).2.row) := by
  induction p generalizing depth s with
  | done a => exact ⟨hs, h⟩
  | andThen p next ihp ihn =>
    have later := grown_draft input hg (next (p.draft input d depth s).1) depth (p.draft input d depth s).2
    obtain ⟨whole, rest⟩ := ihp depth s hs h (later.quiet quiet)
    exact ihn _ depth _ whole rest quiet
  | nth n => exact ⟨hs, h⟩
  | isAhead n k => exact ⟨hs, h⟩
  | eat k =>
    simp only [draft]
    split
    · next here =>
      refine ⟨allOf_write hs ⟨trivial, trivial⟩, ?_⟩
      simp only [Frame.take, marksOf_token]
      exact h.1 here
    · next absent => exact ⟨hs, h.2 (by simpa using absent)⟩
  | bumpAny =>
    simp only [draft]
    split
    · next stop => exact ⟨hs, h.2 (by simpa using stop)⟩
    · next more =>
      refine ⟨allOf_write hs ⟨trivial, trivial⟩, ?_⟩
      simp only [Frame.take, marksOf_token]
      exact h.1 (by simpa using more)
  | error cause => exact absurd quiet.2 id
  | fault what => exact absurd quiet.2 id
  | enclose body kind ih =>
    simp only [draft] at quiet ⊢
    cases hk : kind (body.draft input d depth s.opened).1 with
    | some k =>
      rw [hk] at quiet
      obtain ⟨inside, result⟩ := ih depth s.opened trivial h quiet.2
      rw [hk] at result
      refine ⟨allOf_write hs ⟨⟨result.1, inside⟩, trivial⟩, ?_⟩
      simp only [Frame.close, marksOf_node]
      exact result.2
    | none =>
      rw [hk] at quiet
      obtain ⟨inside, result⟩ := ih depth s.opened trivial h (quiet_spill quiet).2
      rw [hk] at result
      refine ⟨allOf_spill hs inside, ?_⟩
      rw [marksOf_spill]
      exact result
  | wrap body ih =>
    obtain ⟨inner, older, split, node, quiet, ran⟩ := draft_wrap_quiet hg body quiet
    obtain ⟨k, cs, shown⟩ := skeleton_of_isNode node
    have row : marksOf s.row = .node k :: marksOf older := by
      rw [split, marksOf_cons, shown]
      rfl
    obtain ⟨inside, result⟩ := ih depth ⟨s.pos, []⟩ trivial (h k _ row) quiet
    rw [split, WholeOf, skeletonOf, allOf_append] at hs
    rw [ran]
    refine ⟨allOf_write hs.1 ⟨⟨?_, allOf_append.mpr ⟨hs.2, inside⟩⟩, trivial⟩, ?_⟩
    · change Kind.Whole _ (marks (skeleton inner ++ skeletonOf _))
      rw [marks_append, shown]
      exact result.1
    · rw [marksOf_around]
      exact result.2
  | deeper inner atLimit ihi iha =>
    simp only [draft] at quiet ⊢
    split at quiet
    · next deep =>
      rw [if_pos deep]
      exact iha depth s hs h.2 quiet
    · next shallow =>
      rw [if_neg shallow]
      exact ihi (depth + 1) s hs h.1 quiet
  | loop a body ih =>
    obtain ⟨I, start, round⟩ := h
    refine quiet_iterate (I := fun b t => WholeOf t.row ∧ I b t.pos (marksOf t.row))
      (R := fun b t => WholeOf t.row ∧ Q b t.pos (marksOf t.row))
      (fun a s => grown_draft input hg (body a) depth s) (fun b t ht quiet => ?_) ⟨hs, start⟩ quiet
    obtain ⟨whole, result⟩ := ih b depth t ht.1 (round b t.pos _ ht.2) quiet
    cases hr : ((body b).draft input d depth t).1 with
    | done c =>
      rw [hr] at result
      exact ⟨whole, result⟩
    | yield c =>
      rw [hr] at result
      exact ⟨whole, result⟩
  | watch body ih => exact ih depth s hs h quiet
  | call r =>
    obtain ⟨whole, new, fills, row⟩ := hf.rule r depth s h.1 hs quiet
    refine ⟨whole, ?_⟩
    change Q _ _ (marksOf (d.rule r depth s).2.row)
    rw [row]
    exact h.2 _ _ new fills
  | list f =>
    obtain ⟨whole, row⟩ := hf.list f depth s hs quiet
    refine ⟨whole, ?_⟩
    change Q _ _ (marksOf (d.list f depth s).row)
    rw [row]
    exact h _

end Parser

end Verbatim
