import Verbatim.Proofs.Input
import Verbatim.Proofs.Outline

/-!
# The log of a run is its outline

Both ways to run a program agree: the log of a run is its outline written out event by event, where a
node that encloses a complete one starts behind it and is pointed to from there.
-/
namespace Verbatim

namespace Log

theorem complete_start {front : List Event} {place : Nat} (h : place = front.length)
    (back : List Event) (k k' : Kind) (e : Option Nat) :
    complete (front ++ Event.start k' e :: back).toArray ⟨place⟩ k =
      (⟨place, k⟩, (front ++ Event.start k e :: (back ++ [Event.finish])).toArray) := by
  subst h
  simp [complete]

theorem precede_start {front : List Event} {c : Completed} (h : c.place = front.length)
    (back : List Event) (k : Kind) (e : Option Nat) :
    precede (front ++ Event.start k e :: back).toArray c =
      (⟨front.length + (back.length + 1)⟩,
        (front ++ Event.start k (some (back.length + 1)) :: (back ++ [.unclaimed])).toArray) := by
  simp [precede, start, h]

end Log

namespace Outline

mutual
/-- The events of an outline. Its own start points `enclosing` events forward. -/
def events (enclosing : Option Nat) : Outline → List Event
  | token k pieces => [.token k pieces]
  | error cause => [.error cause]
  | fault what => [.fault what]
  | void => [.unclaimed]
  | node k row => .start k enclosing :: (eventsOf row ++ [.finish])
  | around k inner row =>
    events (some inner.ownLength) inner ++ .start k enclosing :: (eventsOf row ++ [.finish])

def eventsOf : List Outline → List Event
  | [] => []
  | o :: older => eventsOf older ++ events none o

/-- How many events there are from the start of a node to its end, both included. -/
def ownLength : Outline → Nat
  | node _ row | around _ _ row => (eventsOf row).length + 2
  | _ => 1
end

/-- How many events stand in front of an outline's own start. -/
def lead : Outline → Nat
  | around _ inner _ => (events (some inner.ownLength) inner).length
  | _ => 0

@[simp] theorem kind?_node (k : Kind) (row : List Outline) : (node k row).kind? = some k := rfl

@[simp] theorem kind?_around (k : Kind) (inner : Outline) (row : List Outline) :
    (around k inner row).kind? = some k := rfl

@[simp] theorem lead_node (k : Kind) (row : List Outline) : (node k row).lead = 0 := rfl

@[simp] theorem lead_around (k : Kind) (inner : Outline) (row : List Outline) :
    (around k inner row).lead = (events (some inner.ownLength) inner).length := rfl

theorem events_ne_nil (e : Option Nat) (o : Outline) : o.events e ≠ [] := by
  cases o <;> simp [events]

theorem eventsOf_append (new old : List Outline) : eventsOf (new ++ old) = eventsOf old ++ eventsOf new := by
  induction new with
  | nil => simp [eventsOf]
  | cons o new ih => simp [eventsOf, ih]

theorem eventsOf_eq_nil {row : List Outline} : eventsOf row = [] ↔ row = [] := by
  cases row with
  | nil => simp [eventsOf]
  | cons o row => simp [eventsOf, events_ne_nil]

/-- The events of a node around its own start, which alone depends on what encloses it. -/
theorem events_eq_of_kind {o : Outline} {k : Kind} (h : o.kind? = some k) :
    ∃ front back : List Event, front.length = o.lead ∧ back.length + 1 = o.ownLength ∧
      ∀ e, o.events e = front ++ .start k e :: back := by
  cases o with
  | node k' row =>
    obtain rfl : k' = k := by simpa [kind?] using h
    exact ⟨[], eventsOf row ++ [.finish], by simp [lead], by simp [ownLength], by simp [events]⟩
  | around k' inner row =>
    obtain rfl : k' = k := by simpa [kind?] using h
    exact ⟨inner.events (some inner.ownLength), eventsOf row ++ [.finish], by simp [lead],
      by simp [ownLength], by simp [events]⟩
  | _ => simp [kind?] at h

end Outline
namespace Parser
open Outline

/-- The node that a row ends in, if it does, with events numbered from `first` on. -/
def completed? (first : Nat) : List Outline → Option Log.Completed
  | o :: older => o.kind?.map fun k => ⟨first + (eventsOf older).length + o.lead, k⟩
  | [] => none

/-- A frame as the log holds it, behind the events of the rows around. -/
def Frame.progress (s : Frame) (base : List Event) : Progress :=
  ⟨s.pos, (base ++ eventsOf s.row).toArray, completed? base.length s.row⟩

namespace Frame

@[simp] theorem progress_pos (s : Frame) (base : List Event) : (s.progress base).pos = s.pos := rfl

theorem progress_error (s : Frame) (base : List Event) (cause : Cause) :
    (s.progress base).emit (.error cause) = (s.write (.error cause)).progress base := by
  simp [progress, Progress.emit, write, eventsOf, events, completed?, kind?]

theorem progress_fault (s : Frame) (base : List Event) (what : Fault) :
    (s.progress base).emit (.fault what) = (s.write (.fault what)).progress base := by
  simp [progress, Progress.emit, write, eventsOf, events, completed?, kind?]

theorem progress_take (s : Frame) (base : List Event) (k : Kind) (n : Nat) :
    (s.progress base).take k n = (s.take k n).progress base := by
  simp [progress, Progress.take, Progress.emit, take, eventsOf, events, completed?, kind?]

/-- Opening a node: what is written from then on stands behind its start. -/
theorem progress_start (s : Frame) (base : List Event) :
    (s.progress base).start =
      (⟨(base ++ eventsOf s.row).length⟩,
        s.opened.progress (base ++ eventsOf s.row ++ [.unclaimed])) := by
  simp [progress, Progress.start, Log.start, opened, eventsOf, completed?]

theorem progress_complete (s t : Frame) (base : List Event) (k : Kind) :
    (t.progress (base ++ eventsOf s.row ++ [.unclaimed])).complete
        ⟨(base ++ eventsOf s.row).length⟩ k = (s.close t k).progress base := by
  simp [progress, Progress.complete, Log.complete, close, eventsOf, events, completed?, Event.unclaimed]

theorem completed?_append (base : List Event) (row older : List Outline) (h : row ≠ []) :
    completed? (base ++ eventsOf older).length row = completed? base.length (row ++ older) := by
  cases row with
  | nil => contradiction
  | cons o row => simp [completed?, eventsOf_append, Nat.add_assoc]

theorem progress_abandon (s t : Frame) (base : List Event) :
    (t.progress (base ++ eventsOf s.row ++ [.unclaimed])).abandon
        ⟨(base ++ eventsOf s.row).length⟩ (s.progress base).last = (s.spill t).progress base := by
  by_cases h : t.row = []
  · simp [progress, Progress.abandon, Log.abandon, spill, h, eventsOf, Nat.add_assoc]
  · have written : 0 < (eventsOf t.row).length :=
      List.length_pos_iff.mpr (by simpa [eventsOf_eq_nil] using h)
    have last := completed?_append base t.row (.void :: s.row) h
    simp only [eventsOf, events, ← List.append_assoc] at last
    have apart : ¬ base.length + (eventsOf s.row).length + 1 =
        base.length + ((eventsOf s.row).length + ((eventsOf t.row).length + 1)) := by omega
    simp [progress, Progress.abandon, Log.abandon, spill, h, eventsOf_append, eventsOf, events,
      ← last, apart]

/-- Opening a node around the one completed last makes its start point to the new one. -/
theorem progress_precede (s : Frame) (base : List Event) :
    ∃ base' m, (s.progress base).precede = (m, s.openedAround.progress base') ∧
      ∀ (t : Frame) (k : Kind), (t.progress base').complete m k = (s.closeAround t k).progress base := by
  by_cases h : s.endsInNode
  · obtain ⟨pos, row⟩ := s
    obtain _ | ⟨inner, older⟩ := row
    · simp [endsInNode] at h
    obtain ⟨k₀, hk⟩ : ∃ k, inner.kind? = some k :=
      Option.isSome_iff_exists.mp (by simpa [endsInNode, isNode] using h)
    obtain ⟨front, back, hfront, hback, hevents⟩ := events_eq_of_kind hk
    have place : base.length + (eventsOf older).length + inner.lead =
        (base ++ eventsOf older ++ front).length := by simp [hfront, Nat.add_assoc]
    refine ⟨base ++ eventsOf older ++ inner.events (some inner.ownLength) ++ [.unclaimed],
      ⟨(base ++ eventsOf older ++ inner.events (some inner.ownLength)).length⟩, ?_, ?_⟩
    · have opening := Log.precede_start (c := ⟨_, k₀⟩) place back k₀ none
      simp only [List.append_assoc, Nat.add_assoc, ← hfront] at opening
      simp [progress, Progress.precede, completed?, hk, eventsOf, openedAround, h, hevents, opening,
        ← hback, ← hfront, Nat.add_assoc]
    · intro t k
      have closing := Log.complete_start
        (show _ = (base ++ eventsOf older ++ inner.events (some inner.ownLength)).length from rfl)
        (eventsOf t.row) k .tombstone none
      simp only [List.append_assoc, List.length_append] at closing
      simp [progress, Progress.complete, closeAround, isNode, hk, Event.unclaimed, closing, eventsOf,
        events, completed?, Nat.add_assoc]
  · refine ⟨base ++ eventsOf s.row ++ [.unclaimed], ⟨(base ++ eventsOf s.row).length⟩, ?_, ?_⟩
    · have none_last : completed? base.length s.row = none := by
        cases hrow : s.row with
        | nil => rfl
        | cons o older => simpa [completed?, endsInNode, hrow, isNode] using h
      simp only [progress, Progress.precede, none_last]
      simp [Progress.start, Log.start, Progress.emit, openedAround, h, eventsOf, events, completed?,
        kind?]
    · intro t k
      rw [progress_complete, closeAround]
      split
      · next inner older hrow =>
        rw [if_neg (by simpa [endsInNode, hrow] using h)]
      · rfl
end Frame

/-- Two ways of repeating a step agree if the steps do. -/
theorem iterate_map {σ τ τ' : Type} (f : τ' → τ) {step : σ → τ → ForInStep σ × τ}
    {step' : σ → τ' → ForInStep σ × τ'} {stuck : τ → τ} {stuck' : τ' → τ'}
    (hstep : ∀ a s, step a (f s) = ((step' a s).1, f (step' a s).2))
    (hstuck : ∀ s, stuck (f s) = f (stuck' s)) (fuel : Nat) (a : σ) (s : τ') :
    iterate step stuck fuel a (f s) =
      ((iterate step' stuck' fuel a s).1, f (iterate step' stuck' fuel a s).2) := by
  induction fuel generalizing a s with
  | zero => simp [iterate, hstuck]
  | succ fuel ih =>
    simp only [iterate, hstep]
    cases h : step' a s with
    | mk r t =>
      cases r with
      | done b => simp
      | yield b => simp [ih]

/-- The log of a called rule or list is its outline written out. -/
structure Agree (c : Callees) (d : Drafters) : Prop where
  rule : ∀ r depth s base, c.rule r depth (s.progress base) =
    ((d.rule r depth s).1, (d.rule r depth s).2.progress base)
  list : ∀ f depth s base, c.list f depth (s.progress base) = (d.list f depth s).progress base

theorem exec_progress (input : Input) {c : Callees} {d : Drafters} (agree : Agree c d) {α : Type}
    (p : Parser α) (depth : Nat) (s : Frame) (base : List Event) :
    p.exec input c depth (s.progress base) =
      ((p.draft input d depth s).1, (p.draft input d depth s).2.progress base) := by
  induction p generalizing depth s base with
  | done a => rfl
  | andThen p next ihp ihn => simp only [exec, draft, ihp, ihn]
  | nth n => rfl
  | isAhead n k => rfl
  | eat k =>
    by_cases h : input.isAt s.pos k
    · simp [exec, draft, h, Frame.progress_take, Kind.width_eq]
    · simp [exec, draft, h]
  | bumpAny =>
    by_cases h : input.kind s.pos = .eof
    · simp [exec, draft, h]
    · simp [exec, draft, h, Frame.progress_take]
  | error cause => simp only [exec, draft, Frame.progress_error]
  | fault what => simp only [exec, draft, Frame.progress_fault]
  | enclose body kind ih =>
    simp only [exec, draft, Frame.progress_start, ih]
    cases h : kind (body.draft input d depth s.opened).1 with
    | none => simp only [Frame.progress_abandon]
    | some k => simp only [Frame.progress_complete]
  | wrap body ih =>
    obtain ⟨base', m, opening, closing⟩ := s.progress_precede base
    simp only [exec, draft, opening, ih, closing]
  | deeper inner atLimit ihi iha =>
    simp only [exec, draft]
    split
    · exact iha depth s base
    · exact ihi (depth + 1) s base
  | loop a body ih =>
    simp only [exec, draft]
    exact iterate_map (fun t => Frame.progress t base) (fun a s => ih a depth s base)
      (fun s => s.progress_fault base .noProgress) _ a s
  | watch body ih => simp only [exec, draft, ih]; rfl
  | call r => exact agree.rule r depth s base
  | list f => simp only [exec, draft, agree.list]

theorem agree_callees (input : Input) (levels : Nat) :
    Agree (callees input levels) (drafters input levels) := by
  induction levels with
  | zero =>
    constructor
    · intro r depth s base
      simp only [callees, drafters, Frame.progress_fault]
    · intro f depth s base
      simp only [callees, drafters, Frame.progress_fault]
  | succ levels ih =>
    constructor
    · intro r depth s base
      exact exec_progress input ih r.body depth s base
    · intro f depth s base
      simp only [callees, drafters, exec_progress input ih]

/-- The log of a run is its outline written out. -/
theorem run_eq_outline (program : Parser Unit) (input : Input) :
    run program input =
      ((Outline.eventsOf (outline program input).row).toArray,
        input.kind (outline program input).pos == .eof) := by
  have agrees := exec_progress input (agree_callees input (2 * input.length + 2)) program 0 ⟨0, []⟩ []
  have begin : Frame.progress ⟨0, []⟩ [] = ⟨0, #[], none⟩ := by
    simp [Frame.progress, Outline.eventsOf, completed?]
  simp only [begin] at agrees
  simp [run, outline, agrees, Frame.progress]

end Parser

end Verbatim
