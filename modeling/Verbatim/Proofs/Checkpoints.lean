import Verbatim.Proofs.Building

/-!
# What a checkpoint adopts

A checkpoint is a place in the row, and the row gets shorter each time a node is closed. To tell what has
been built since a checkpoint was taken, the elements of a second builder are marked: it is given the same
calls and marks everything that it makes. What is left of the row from before then stands unmarked in front.

A node that is closed folds the place away if it begins before the place. Such a checkpoint is not always
refused, since the row may have grown back past the place by the time it is handed in.
-/
namespace Verbatim.Builder

variable {α β : Type}

/-! ## The same calls with other elements -/

/-- The same open nodes over other elements. -/
def map (f : α → β) (b : Builder α) : Builder β := ⟨b.opened, b.row.map f⟩

/-- What one maker makes are the images of what another one makes. -/
structure Maker.Follows (n : Maker β) (f : α → β) (m : Maker α) : Prop where
  token : ∀ kind text, n.token kind text = f (m.token kind text)
  node : ∀ kind children, n.node kind (children.map f) = f (m.node kind children)

section Map

variable {m : Maker α} {n : Maker β} {f : α → β} (follows : n.Follows f m) (b : Builder α)

@[simp] theorem map_first? : (b.map f).first? = b.first? := rfl

@[simp] theorem map_size : (b.map f).row.size = b.row.size := Array.size_map

@[simp] theorem map_row : (b.map f).row.toList = b.row.toList.map f := Array.toList_map

theorem close_map : (b.map f).close =
    b.close.map fun (kind, children, rest) => (kind, children.map f, rest.map f) := by
  unfold close
  cases innermost : b.opened with
  | nil => simp [map, innermost, Except.map]
  | cons o opened =>
    simp [map, innermost, Except.map]

theorem startAt_map (checkpoint : Nat) (kind : Kind) :
    (b.map f).startAt checkpoint kind = (b.startAt checkpoint kind).map (·.map f) := by
  rw [startAt, startAt, map_size]
  by_cases beyond : b.row.size < checkpoint
  · rw [if_pos beyond, if_pos beyond]
    rfl
  · rw [if_neg beyond, if_neg beyond]
    cases innermost : b.opened with
    | nil => simp [map, innermost, Except.map]
    | cons o opened =>
      simp only [map, innermost]
      split <;> rfl

include follows

theorem call_map (c : Call) : (b.map f).call n c = (b.call m c).map (·.map f) := by
  cases c with
  | start kind => simp [call, start, map, Except.map]
  | token kind text => simp [call, push, map, Except.map, follows.token]
  | finish =>
    cases closed : b.close with
    | error e =>
      rw [finish_of_not_closed m closed, finish_of_not_closed n (by rw [close_map, closed]; rfl)]
      rfl
    | ok parts =>
      obtain ⟨kind, children, rest⟩ := parts
      rw [finish_of_closed m closed, finish_of_closed n (by rw [close_map, closed]; rfl), follows.node]
      simp [push, map, Except.map]
  | checkpoint => rfl
  | startAt checkpoint kind => exact b.startAt_map checkpoint kind

theorem run_map (calls : List Call) : (b.map f).run n calls = (b.run m calls).map (·.map f) := by
  induction calls generalizing b with
  | nil => rfl
  | cons c cs ih =>
    rw [run_cons, run_cons, call_map follows]
    cases b.call m c with
    | error e => rfl
    | ok next => exact ih next

end Map

/-! ## Closing a node that begins before a place -/

/-- Whether some node that begins before a place is closed on the way. -/
def folds (m : Maker α) (place : Nat) (b : Builder α) : List Call → Bool
  | [] => false
  | c :: cs => (c == .finish && b.first?.any (· < place)) ||
    match b.call m c with
    | .ok next => next.folds m place cs
    | .error _ => false

theorem folds_map {m : Maker α} {n : Maker β} {f : α → β} (follows : n.Follows f m) (b : Builder α)
    (place : Nat) (calls : List Call) : (b.map f).folds n place calls = b.folds m place calls := by
  induction calls generalizing b with
  | nil => rfl
  | cons c cs ih =>
    rw [folds, folds, call_map follows, map_first?]
    cases b.call m c with
    | error e => rfl
    | ok next => exact congrArg _ (ih next)

/-! ## Marking what is made -/

/-- An element, and whether it was made since some moment. -/
structure Marked (α : Type) where
  element : α
  since : Bool

/-- Marks all it makes. -/
def Maker.marking (m : Maker α) : Maker (Marked α) :=
  ⟨fun kind text => ⟨m.token kind text, true⟩,
    fun kind children => ⟨m.node kind (children.map (·.element)), true⟩⟩

theorem follows_marking (m : Maker α) : m.Follows Marked.element m.marking :=
  ⟨fun _ _ => rfl, fun _ _ => rfl⟩

/-- The moment in which nothing is marked yet. -/
def unmarked (b : Builder α) : Builder (Marked α) := b.map (⟨·, false⟩)

theorem map_unmarked (b : Builder α) : b.unmarked.map Marked.element = b := by
  simp [unmarked, map, Function.comp_def]

/-- A row has kept some elements of before, and behind them are those made since. Where one of before is
gone, one has been made since. -/
structure Keeps (place : Nat) (row kept made : List (Marked α)) : Prop where
  row_eq : row = kept ++ made
  le : kept.length ≤ place
  older : ∀ x ∈ kept, x.since = false
  newer : ∀ x ∈ made, x.since = true
  more : kept.length < place → made ≠ []

theorem keeps_unmarked (b : Builder α) :
    Keeps b.checkpoint b.unmarked.row.toList b.unmarked.row.toList [] := by
  have length : b.unmarked.row.toList.length = b.checkpoint := by simp [unmarked, checkpoint]
  refine ⟨(List.append_nil _).symm, Nat.le_of_eq length, fun x mem => ?_, (by simp),
    fun lt => absurd length (Nat.ne_of_lt lt)⟩
  rw [unmarked, map_row] at mem
  obtain ⟨a, -, rfl⟩ := List.mem_map.mp mem
  rfl

namespace Keeps

variable {place : Nat} {m : Maker α} {b b' : Builder (Marked α)} {c : Call} {row kept made : List (Marked α)}

theorem push (h : Keeps place row kept made) (a : α) :
    Keeps place (row ++ [⟨a, true⟩]) kept (made ++ [⟨a, true⟩]) :=
  ⟨by rw [h.row_eq, List.append_assoc], h.le, h.older, by simpa [or_imp, forall_and] using h.newer,
    fun _ => by simp⟩

/-- The end of a row gives way to an element that is made now. -/
theorem cut (h : Keeps place row kept made) (first : Nat) (a : α) :
    Keeps place (row.take first ++ [⟨a, true⟩]) (kept.take first)
      (made.take (first - kept.length) ++ [⟨a, true⟩]) := by
  refine ⟨?_, ?_, fun x mem => h.older x (List.mem_of_mem_take mem), fun x mem => ?_, fun _ => by simp⟩
  · rw [h.row_eq, List.take_append, List.append_assoc]
  · exact Nat.le_trans (List.length_take_le' _ _) h.le
  · rcases List.mem_append.mp mem with mem | mem
    · exact h.newer x (List.mem_of_mem_take mem)
    · rw [List.mem_singleton.mp mem]

/-- A call takes away elements of before only where it closes a node that begins before them. -/
theorem turns (h : Keeps place b.row.toList kept made) (turns : Turns m.marking b c b') :
    ∃ kept' made', Keeps place b'.row.toList kept' made' ∧ (kept'.length < place ↔
      kept.length < place ∨ (c == .finish && b.first?.any (· < place)) = true) := by
  cases turns with
  | start kind => exact ⟨kept, made, h, by simp⟩
  | token kind text =>
    refine ⟨kept, made ++ [m.marking.token kind text], ?_, by simp⟩
    rw [Builder.push, Array.toList_push]
    exact h.push _
  | @finish kind first opened row innermost split =>
    refine ⟨_, _, split ▸ h.cut first _, ?_⟩
    rw [List.length_take, first?_of_opened innermost]
    simp only [beq_self_eq_true, Bool.true_and, Option.any_some, decide_eq_true_iff]
    omega
  | checkpoint => exact ⟨kept, made, h, by simp⟩
  | startAt kind inside behind => exact ⟨kept, made, h, by simp⟩

theorem run (h : Keeps place b.row.toList kept made) {calls : List Call} (ran : b.run m.marking calls = .ok b') :
    ∃ kept' made', Keeps place b'.row.toList kept' made' ∧ (kept'.length < place ↔
      kept.length < place ∨ b.folds m.marking place calls = true) := by
  induction calls generalizing b kept made with
  | nil =>
    cases ran
    exact ⟨kept, made, h, by simp [folds]⟩
  | cons c cs ih =>
    obtain ⟨next, called, ran⟩ := run_cons_eq_ok ran
    obtain ⟨kept₁, made₁, keeps, now⟩ := h.turns (turns_of_call called)
    obtain ⟨kept₂, made₂, keeps, later⟩ := ih keeps ran
    refine ⟨kept₂, made₂, keeps, ?_⟩
    rw [later, now, folds, called, Bool.or_eq_true, or_assoc]

theorem filter_since (h : Keeps place row kept made) : row.filter (·.since) = made := by
  have none : kept.filter (·.since) = [] :=
    List.filter_eq_nil_iff.mpr fun x mem => by rw [h.older x mem]; exact Bool.false_ne_true
  rw [h.row_eq, List.filter_append, none, List.filter_eq_self.mpr h.newer]
  rfl

theorem drop (h : Keeps place row kept made) : row.drop place = made.drop (place - kept.length) := by
  rw [h.row_eq, List.drop_append, List.drop_of_length_le h.le]
  rfl

/-- Where none of before is gone, all that was made since stands behind them, else less than that. -/
theorem drop_eq_filter (h : Keeps place row kept made) :
    row.drop place = row.filter (·.since) ↔ ¬ kept.length < place := by
  rw [h.filter_since, h.drop]
  refine ⟨fun same gone => ?_, fun all => ?_⟩
  · have length := congrArg List.length same
    rw [List.length_drop] at length
    have := List.length_pos_iff.mpr (h.more gone)
    omega
  · rw [Nat.sub_eq_zero_of_le (Nat.le_of_not_lt all)]
    rfl

end Keeps

/-- Whatever is called after a checkpoint was taken: if a node can be opened there, it adopts elements that
were made since only, and it adopts all of those that no other node has taken exactly if no node that begins
before the checkpoint has been closed. If the row does not reach up to the checkpoint, such a node has been
closed. -/
theorem startAt_adopts (m : Maker α) {b b' : Builder α} {calls : List Call} (ran : b.run m calls = .ok b')
    (kind : Kind) :
    ∃ marked : Builder (Marked α),
      b.unmarked.run m.marking calls = .ok marked ∧ marked.map (·.element) = b' ∧
      (∀ started, b'.startAt b.checkpoint kind = .ok started → ∃ rest adopted,
        started.close = .ok (kind, adopted.map (·.element), rest) ∧
        (∀ x ∈ adopted, x.since = true) ∧
        (adopted = marked.row.toList.filter (·.since) ↔ b.folds m b.checkpoint calls = false)) ∧
      ∀ e, b'.startAt b.checkpoint kind = .error e → b'.Refuses (.startAt b.checkpoint kind) e ∧
        (e = .checkpointPassed → b.folds m b.checkpoint calls = true) := by
  obtain ⟨marked, ran', rfl⟩ : ∃ marked, b.unmarked.run m.marking calls = .ok marked ∧
      marked.map (·.element) = b' := by
    have same := run_map (follows_marking m) b.unmarked calls
    rw [map_unmarked, ran] at same
    cases ran' : b.unmarked.run m.marking calls with
    | error e => simp [ran', Except.map] at same
    | ok marked => exact ⟨marked, rfl, by simpa [ran', Except.map] using same.symm⟩
  obtain ⟨kept, made, keeps, gone⟩ := (keeps_unmarked b).run ran'
  have folds : kept.length < b.checkpoint ↔ b.folds m b.checkpoint calls = true := by
    have whole : ¬ b.unmarked.row.toList.length < b.checkpoint := by simp [unmarked, checkpoint]
    rw [gone, or_iff_right whole, ← folds_map (follows_marking m), map_unmarked]
  refine ⟨marked, ran', rfl, fun started accepted => ?_, fun e refused => ⟨startAt_eq_error refused, ?_⟩⟩
  · obtain ⟨-, -, rfl⟩ := startAt_eq_ok accepted
    obtain ⟨rest, closed, -, -⟩ := close_of_opened
      (b := ⟨(kind, b.checkpoint) :: (marked.map (·.element)).opened, (marked.map (·.element)).row⟩) rfl
    refine ⟨rest, marked.row.toList.drop b.checkpoint, ?_, fun x mem => ?_, ?_⟩
    · rw [closed, map_row, List.map_drop]
    · rw [keeps.drop] at mem
      exact keeps.newer x (List.mem_of_mem_drop mem)
    · rw [keeps.drop_eq_filter, folds, Bool.not_eq_true]
  · rintro rfl
    cases startAt_eq_error refused with
    | passed beyond =>
      refine folds.mp ?_
      rw [map_size, ← Array.length_toList, keeps.row_eq, List.length_append] at beyond
      omega

/-- Two numbers stand in the row when the checkpoint is taken, and a literal and an operator when it is handed
in: the node that is opened there adopts neither. -/
example : ∃ b started,
    Builder.empty.run .green [.start .sourceFile, .start .literal, .token .intNumber "1".toList,
      .token .intNumber "2".toList] = .ok b ∧
    (b.run .green [.finish, .token .plus "+".toList]).bind (·.startAt b.checkpoint .binExpr) = .ok started ∧
    b.folds .green b.checkpoint [.finish, .token .plus "+".toList] = true ∧ started.row.size = b.checkpoint :=
  ⟨_, _, rfl, rfl, rfl, rfl⟩

end Verbatim.Builder
