import Mathlib.Data.List.Basic
import Mathlib.Tactic.Common
import Verbatim.Green.Builder

/-!
# Calls of a builder

What one call makes of the row and of the open nodes, and when it is refused. The open nodes begin within
the row and in the order in which they were opened, so that closing one always splits the row inside of it.
What the elements are does not matter to any of this.
-/
namespace Verbatim.Builder

variable {α β : Type} {m : Maker α} {b b' : Builder α} {c : Call}

/-- Where the innermost open node begins. -/
def first? (b : Builder α) : Option Nat := b.opened.head?.map (·.2)

theorem first?_of_opened {kind : Kind} {first : Nat} {opened : List (Kind × Nat)}
    (innermost : b.opened = (kind, first) :: opened) : b.first? = some first := by
  rw [first?, innermost]
  rfl

/-! ## One call -/

/-- What a call makes of a builder. -/
inductive Turns (m : Maker α) (b : Builder α) : Call → Builder α → Prop
  | start (kind : Kind) : Turns m b (.start kind) (b.start kind)
  | token (kind : Kind) (text : Text) : Turns m b (.token kind text) (b.push (m.token kind text))
  | finish {kind : Kind} {first : Nat} {opened : List (Kind × Nat)} {row : Array α}
    (innermost : b.opened = (kind, first) :: opened)
    (split : row.toList = b.row.toList.take first ++ [m.node kind (b.row.toList.drop first)]) :
    Turns m b .finish ⟨opened, row⟩
  | checkpoint : Turns m b .checkpoint b
  | startAt {checkpoint : Nat} (kind : Kind) (inside : checkpoint ≤ b.row.size)
    (behind : ∀ first ∈ b.first?, first ≤ checkpoint) :
    Turns m b (.startAt checkpoint kind) ⟨(kind, checkpoint) :: b.opened, b.row⟩

/-- Why a call is refused. -/
inductive Refuses (b : Builder α) : Call → Misuse → Prop
  | nothingOpen (none : b.opened = []) : Refuses b .finish .nothingOpen
  | passed {checkpoint : Nat} {kind : Kind} (beyond : b.row.size < checkpoint) :
    Refuses b (.startAt checkpoint kind) .checkpointPassed
  | outside {checkpoint first : Nat} {kind : Kind} (inside : checkpoint ≤ b.row.size)
    (innermost : b.first? = some first) (before : checkpoint < first) :
    Refuses b (.startAt checkpoint kind) .checkpointOutside

theorem close_of_opened {kind : Kind} {first : Nat} {opened : List (Kind × Nat)}
    (innermost : b.opened = (kind, first) :: opened) :
    ∃ rest : Builder α, b.close = .ok (kind, b.row.toList.drop first, rest) ∧ rest.opened = opened ∧
      rest.row.toList = b.row.toList.take first := by
  refine ⟨⟨opened, b.row.shrink first⟩, ?_, rfl, by simp⟩
  rw [close, innermost]
  simp [List.take_of_length_le]

theorem close_eq_ok {kind : Kind} {children : List α} {rest : Builder α}
    (h : b.close = .ok (kind, children, rest)) : ∃ first, b.opened = (kind, first) :: rest.opened ∧
      children = b.row.toList.drop first ∧ rest.row.toList = b.row.toList.take first := by
  cases innermost : b.opened with
  | nil => simp [close, innermost] at h
  | cons o opened =>
    obtain ⟨rest', closed, same, row⟩ := close_of_opened innermost
    rw [closed] at h
    cases h
    exact ⟨o.2, by rw [same], rfl, row⟩

theorem close_eq_error {e : Misuse} (h : b.close = .error e) : b.Refuses .finish e := by
  unfold close at h
  split at h
  · next none =>
    cases h
    exact .nothingOpen none
  · cases h

theorem startAt_eq_ok {checkpoint : Nat} {kind : Kind} (h : b.startAt checkpoint kind = .ok b') :
    checkpoint ≤ b.row.size ∧ (∀ first ∈ b.first?, first ≤ checkpoint) ∧
      b' = ⟨(kind, checkpoint) :: b.opened, b.row⟩ := by
  unfold startAt at h
  split at h
  · cases h
  · next inside =>
    refine ⟨Nat.le_of_not_lt inside, ?_⟩
    cases innermost : b.opened with
    | nil =>
      rw [innermost] at h
      cases h
      exact ⟨by simp [first?, innermost], rfl⟩
    | cons o opened =>
      rw [innermost] at h
      simp only at h
      split at h
      · cases h
      · next behind =>
        cases h
        refine ⟨?_, rfl⟩
        simpa [first?, innermost] using behind

theorem startAt_eq_error {checkpoint : Nat} {kind : Kind} {e : Misuse}
    (h : b.startAt checkpoint kind = .error e) : b.Refuses (.startAt checkpoint kind) e := by
  unfold startAt at h
  split at h
  · next beyond =>
    cases h
    exact .passed beyond
  · next inside =>
    split at h
    · next innermost =>
      split at h
      · next before =>
        cases h
        exact .outside (Nat.le_of_not_lt inside) (first?_of_opened innermost) before
      · cases h
    · cases h

theorem finish_of_closed (m : Maker α) {kind : Kind} {children : List α} {rest : Builder α}
    (closed : b.close = .ok (kind, children, rest)) :
    b.call m .finish = .ok (rest.push (m.node kind children)) := by
  rw [call, closed]
  rfl

theorem finish_of_not_closed (m : Maker α) {e : Misuse} (closed : b.close = .error e) :
    b.call m .finish = .error e := by
  rw [call, closed]
  rfl

theorem turns_of_call (h : b.call m c = .ok b') : Turns m b c b' := by
  cases c with
  | start kind =>
    cases h
    exact .start kind
  | token kind text =>
    cases h
    exact .token kind text
  | finish =>
    cases closed : b.close with
    | error e =>
      rw [finish_of_not_closed m closed] at h
      cases h
    | ok parts =>
      obtain ⟨kind, children, rest⟩ := parts
      rw [finish_of_closed m closed] at h
      obtain ⟨first, innermost, rfl, row⟩ := close_eq_ok closed
      cases h
      exact .finish innermost (by rw [Array.toList_push, row])
  | checkpoint =>
    cases h
    exact .checkpoint
  | startAt checkpoint kind =>
    obtain ⟨inside, behind, rfl⟩ := startAt_eq_ok h
    exact .startAt kind inside behind

theorem refuses_of_call {e : Misuse} (h : b.call m c = .error e) : b.Refuses c e := by
  cases c with
  | finish =>
    cases closed : b.close with
    | error e' =>
      rw [finish_of_not_closed m closed] at h
      cases h
      exact close_eq_error closed
    | ok parts =>
      rw [finish_of_closed m closed] at h
      cases h
  | startAt checkpoint kind => exact startAt_eq_error h
  | start kind => cases h
  | token kind text => cases h
  | checkpoint => cases h

/-! ## The end -/

/-- Why there is no root. -/
inductive Unfinished (b : Builder α) (isToken : α → Bool) : Misuse → Prop
  | stillOpen (some_open : b.opened ≠ []) : Unfinished b isToken (.stillOpen b.opened.length)
  | notOneRoot (closed : b.opened = []) (row : b.row.size ≠ 1) : Unfinished b isToken .notOneRoot
  | tokenAsRoot {a : α} (closed : b.opened = []) (row : b.row.toList = [a]) (token : isToken a = true) :
    Unfinished b isToken .tokenAsRoot

theorem finish_of_root {isToken : α → Bool} {a : α} (closed : b.opened = []) (row : b.row.toList = [a])
    (node : isToken a = false) : b.finish isToken = .ok a := by
  rw [finish, closed, row]
  exact if_neg (by rw [node]; decide)

theorem finish_eq_ok {isToken : α → Bool} {a : α} (h : b.finish isToken = .ok a) :
    b.opened = [] ∧ b.row.toList = [a] ∧ isToken a = false := by
  unfold finish at h
  split at h
  · next root closed row =>
    split at h
    · cases h
    · next node =>
      cases h
      exact ⟨closed, row, Bool.eq_false_iff.mpr node⟩
  · cases h
  · cases h

theorem finish_eq_error {isToken : α → Bool} {e : Misuse} (h : b.finish isToken = .error e) :
    b.Unfinished isToken e := by
  unfold finish at h
  split at h
  · next root closed row =>
    split at h
    · next token =>
      cases h
      exact .tokenAsRoot closed row token
    · cases h
  · next closed other =>
    cases h
    refine .notOneRoot closed fun one => ?_
    rw [← Array.length_toList, List.length_eq_one_iff] at one
    obtain ⟨a, row⟩ := one
    exact other a row
  · next some_open _ =>
    cases h
    exact .stillOpen some_open

/-! ## Open nodes begin within the row -/

/-- Open nodes begin within the row, later opened ones not before earlier ones. -/
def Ordered (b : Builder α) : Prop := (b.row.size :: b.opened.map (·.2)).Pairwise (· ≥ ·)

theorem ordered_empty : (empty : Builder α).Ordered := List.pairwise_singleton _ _

theorem Ordered.le_size (h : b.Ordered) : ∀ o ∈ b.opened, o.2 ≤ b.row.size :=
  fun _ mem => (List.pairwise_cons.mp h).1 _ (List.mem_map_of_mem mem)

theorem descending_cons {places : List Nat} {n k : Nat} (h : (n :: places).Pairwise (· ≥ ·)) (le : n ≤ k) :
    (k :: n :: places).Pairwise (· ≥ ·) :=
  List.pairwise_cons.mpr ⟨List.forall_mem_cons.mpr
    ⟨le, fun i hi => Nat.le_trans ((List.pairwise_cons.mp h).1 i hi) le⟩, h⟩

theorem descending_of_le {places : List Nat} {n k : Nat} (h : (n :: places).Pairwise (· ≥ ·)) (le : n ≤ k) :
    (k :: places).Pairwise (· ≥ ·) :=
  (descending_cons h le).sublist (.cons_cons k (List.sublist_cons_self n places))

/-- No call brings the open nodes out of order. -/
theorem Ordered.turns (h : b.Ordered) (turns : Turns m b c b') : b'.Ordered := by
  cases turns with
  | start kind => exact descending_cons h (Nat.le_refl _)
  | token kind text =>
    rw [Ordered, push, Array.size_push]
    exact descending_of_le h (Nat.le_succ _)
  | @finish kind first opened row innermost split =>
    rw [Ordered, innermost, List.map_cons] at h
    obtain ⟨above, rest⟩ := List.pairwise_cons.mp h
    have size : row.size = first + 1 := by
      have within := above first List.mem_cons_self
      rw [← Array.length_toList, split, List.length_append, List.length_take, Array.length_toList,
        Nat.min_eq_left within, List.length_singleton]
    rw [Ordered, size]
    exact descending_of_le rest (Nat.le_succ _)
  | checkpoint => exact h
  | startAt kind inside behind =>
    refine descending_cons ?_ inside
    cases innermost : b.opened with
    | nil => exact List.pairwise_singleton _ _
    | cons o opened =>
      have sorted := (List.pairwise_cons.mp h).2
      rw [innermost] at sorted
      exact descending_cons sorted (behind o.2 (first?_of_opened innermost))

/-! ## Runs -/

theorem run_nil (m : Maker α) (b : Builder α) : b.run m [] = .ok b := rfl

theorem run_cons (m : Maker α) (b : Builder α) (c : Call) (cs : List Call) :
    b.run m (c :: cs) = (b.call m c).bind (·.run m cs) := rfl

theorem run_cons_eq_ok {c : Call} {cs : List Call} (h : b.run m (c :: cs) = .ok b') :
    ∃ next, b.call m c = .ok next ∧ next.run m cs = .ok b' := by
  rw [run_cons] at h
  cases called : b.call m c with
  | error e =>
    rw [called] at h
    cases h
  | ok next =>
    rw [called] at h
    exact ⟨next, rfl, h⟩

/-- What holds at first and is kept by every call holds behind any calls. -/
theorem run_induction {motive : Builder α → Prop}
    (keeps : ∀ {b c b'}, Turns m b c b' → motive b → motive b') {calls : List Call} (h : b.run m calls = .ok b') (start : motive b) : motive b' := by
  induction calls generalizing b with
  | nil =>
    cases h
    exact start
  | cons c cs ih =>
    obtain ⟨next, called, h⟩ := run_cons_eq_ok h
    exact ih h (keeps (turns_of_call called) start)

theorem Ordered.run (h : b.Ordered) {calls : List Call} (ran : b.run m calls = .ok b') : b'.Ordered :=
  run_induction (fun turns ordered => ordered.turns turns) ran h

end Verbatim.Builder
