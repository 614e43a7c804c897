import Verbatim.Proofs.Growth

/-!
# What calls write is what they say

A log is written by calls that start, complete, abandon and precede nodes, take tokens and report errors.
Where nodes are closed in the reverse order of their opening, the calls can be read directly, without a log:
each open node holds what was emitted in it, and closing it makes a node over that. Replaying the log of such
calls builds the tree of this reading.
-/
namespace Verbatim

namespace Log

/-- A call that writes into a log. -/
inductive Call where
  | start
  | complete (m : Marker) (kind : Kind)
  | abandon (m : Marker)
  | precede (c : Completed)
  | token (kind : Kind) (pieces : Nat)
  | error (cause : Cause)
  deriving DecidableEq, Repr

def write (log : Log) : Call → Log
  | .start => log.start.2
  | .complete m kind => (log.complete m kind).2
  | .abandon m => log.abandon m
  | .precede c => (log.precede c).2
  | .token kind pieces => log.push (.token kind pieces)
  | .error cause => log.push (.error cause)

def ofCalls (calls : List Call) : Log := calls.foldl write #[]

end Log

open Log (Call Marker Completed)

/-- What calls say. Rows are kept in the order of the calls. -/
inductive Reading where
  | token (kind : Kind) (pieces : Nat)
  | error (cause : Cause)
  | node (name : Completed) (row : List Reading)
  deriving Repr

namespace Reading

def isNamed (c : Completed) : Reading → Bool
  | node name _ => name == c
  | _ => false

/-- A node that is not closed yet. -/
structure Opened where
  marker : Marker
  /-- What it took over when it was opened in front of a complete node: this node and what followed. -/
  adopted : List Reading
  /-- What was emitted in it since. -/
  own : List Reading
  deriving Repr

def Opened.emit (o : Opened) (xs : List Reading) : Opened := { o with own := o.own ++ xs }

/-- How far a reading is: the open nodes with the innermost first, and the root once it is closed. -/
structure State where
  opened : List Opened
  root : Option (Kind × List Reading)
  deriving Repr

def State.empty : State := ⟨[], none⟩

/-- Emits elements in the innermost open node. -/
def State.emit (s : State) (xs : List Reading) : Option State :=
  match s.opened with
  | o :: around => some { s with opened := o.emit xs :: around }
  | [] => none

/-- Reads a call on a log. Nodes are closed in the reverse order of their opening, never as the filler of a
log, and all is inside of the root. A node can be preceded while it lies directly in the innermost open node.
From then on it lies in the wrapper, so it is not preceded again, and this must be completed. -/
def step (log : Log) (s : State) : Call → Option State
  | .start =>
    if s.root.isNone then some { s with opened := ⟨log.start.1, [], []⟩ :: s.opened } else none
  | .complete m kind =>
    match s.opened with
    | o :: around =>
      if o.marker = m ∧ kind ≠ .tombstone then
        match around with
        | [] => some ⟨[], some (kind, o.adopted ++ o.own)⟩
        | p :: around => some
          { s with opened := p.emit [.node (log.complete m kind).1 (o.adopted ++ o.own)] :: around }
      else none
    | [] => none
  | .abandon m =>
    match s.opened with
    | o :: p :: around =>
      if o.marker = m ∧ o.adopted.isEmpty then some { s with opened := p.emit o.own :: around } else none
    | _ => none
  | .precede c =>
    match s.opened with
    | o :: around =>
      match o.own.dropWhile (!·.isNamed c) with
      | [] => none
      | x :: later => some
        { s with
          opened := ⟨(log.precede c).1, x :: later, []⟩ ::
            { o with own := o.own.takeWhile (!·.isNamed c) } :: around }
    | [] => none
  | .token kind pieces => s.emit [.token kind pieces]
  | .error cause => s.emit [.error cause]

def run (log : Log) (s : State) : List Call → Option State
  | [] => some s
  | call :: calls => (step log s call).bind fun s' => run (log.write call) s' calls

/-- The kind of the root that some calls say, and what is in it. -/
def ofCalls (calls : List Call) : Option (Kind × List Reading) :=
  (run #[] .empty calls).bind (·.root)

mutual
/-- How many tokens of a text a reading takes. -/
def width : Reading → Nat
  | token _ pieces => pieces
  | error _ => 0
  | node _ row => widthOf row

def widthOf : List Reading → Nat
  | [] => 0
  | x :: later => width x + widthOf later
end

mutual
/-- What grows from a reading over tokens of a text that ends at `stop` and has no trivia. -/
def grow (stop : Nat) : Reading → List Token → Sprout
  | token k pieces, ts => .taken k pieces ts
  | error cause, ts => ⟨[], [⟨cause, anchor stop ts⟩], ts⟩
  | node name row, ts => (growOf stop row ts).under name.kind

def growOf (stop : Nat) : List Reading → List Token → Sprout
  | [], ts => ⟨[], [], ts⟩
  | x :: later, ts => (grow stop x ts).andThen fun ts => growOf stop later ts
end

end Reading

/-! ## The log of a reading -/

namespace Passage

/-- What an event outside of all nodes says. -/
def readEvent : Event → List Reading
  | .token k pieces => [.token k pieces]
  | .error cause => [.error cause]
  | _ => []

mutual
/-- What a passage says that begins with event `first` of a log. -/
def read (first : Nat) : Passage → List Reading
  | event e => readEvent e
  | node k adopted own =>
    [.node ⟨first + (leadOf adopted).length, k⟩
      (readOf first adopted ++ readOf (first + (leadOf adopted).length + 1) own)]

def readOf (first : Nat) : List Passage → List Reading
  | [] => []
  | p :: later => read first p ++ readOf (first + (p.events none).length) later
end

@[simp] theorem readOf_nil (first : Nat) : readOf first [] = [] := rfl

theorem readOf_append (first : Nat) (ps qs : List Passage) :
    readOf first (ps ++ qs) = readOf first ps ++ readOf (first + (eventsOf ps).length) qs := by
  induction ps generalizing first with
  | nil => simp [readOf, eventsOf]
  | cons p ps ih => simp [readOf, eventsOf, ih, Nat.add_assoc]

theorem readEvent_isNamed (c : Completed) (e : Event) : ∀ x ∈ readEvent e, (!x.isNamed c) = true := by
  cases e <;> simp [readEvent, Reading.isNamed]

/-- What is read as the node named `c` is a node, which starts where `c` says. -/
theorem readOf_named {c : Completed} {first : Nat} {row : List Passage} {x : Reading}
    {later : List Reading} (h : (readOf first row).dropWhile (!·.isNamed c) = x :: later) :
    ∃ ps p qs, row = ps ++ p :: qs ∧ p.isNode = true ∧
      c.place = first + (eventsOf ps).length + p.lead ∧
      readOf first ps = (readOf first row).takeWhile (!·.isNamed c) ∧
      readOf (first + (eventsOf ps).length) (p :: qs) = x :: later := by
  induction row generalizing first with
  | nil => simp [readOf] at h
  | cons p row ih =>
    by_cases other : ∀ y ∈ read first p, (!y.isNamed c) = true
    · rw [readOf, List.dropWhile_append_of_pos other] at h
      obtain ⟨ps, q, qs, rfl, node, place, before, behind⟩ := ih h
      refine ⟨p :: ps, q, qs, rfl, node, by simp [place, eventsOf, Nat.add_assoc], ?_, ?_⟩
      · rw [readOf, readOf, before, List.takeWhile_append_of_pos other]
      · simpa [eventsOf, Nat.add_assoc] using behind
    · cases p with
      | event e => exact absurd (readEvent_isNamed c e) other
      | node k adopted own =>
        have name : Completed.mk (first + (leadOf adopted).length) k = c := by
          simpa [read, Reading.isNamed] using other
        refine ⟨[], .node k adopted own, row, rfl, rfl, by simp [← name, eventsOf, lead], ?_, ?_⟩
        · simp [readOf, read, Reading.isNamed, name]
        · simpa [readOf, read, Reading.isNamed, name, eventsOf] using h

end Passage

/-- What the log holds of an open node: what it adopted, its start, and the passages since. -/
structure Sheet where
  adopted : List Passage
  own : List Passage

namespace Sheet

open Passage Reading

def events (s : Sheet) : List Event := leadOf s.adopted ++ .unclaimed :: eventsOf s.own

structure Clean (s : Sheet) : Prop where
  starts : ∀ p ∈ s.adopted.head?, p.isNode
  adopted : CleanOf s.adopted
  own : CleanOf s.own

def write (s : Sheet) (ps : List Passage) : Sheet := { s with own := s.own ++ ps }

/-- The open node that a sheet is behind `first` events. -/
def opened (s : Sheet) (first : Nat) : Opened :=
  ⟨⟨first + (leadOf s.adopted).length⟩, readOf first s.adopted,
    readOf (first + (leadOf s.adopted).length + 1) s.own⟩

theorem events_write (s : Sheet) (ps : List Passage) : (s.write ps).events = s.events ++ eventsOf ps := by
  simp [events, write, eventsOf_append]

theorem Clean.write {s : Sheet} (h : s.Clean) {ps : List Passage} (hp : CleanOf ps) :
    (s.write ps).Clean :=
  ⟨h.starts, h.adopted, cleanOf_append.mpr ⟨h.own, hp⟩⟩

theorem opened_write (s : Sheet) (ps : List Passage) (first : Nat) :
    (s.write ps).opened first = (s.opened first).emit (readOf (first + s.events.length) ps) := by
  simp [opened, write, Opened.emit, readOf_append, events, Nat.add_assoc, Nat.add_comm 1]

/-- The node that a sheet becomes once it is closed. -/
def closed (s : Sheet) (kind : Kind) : Passage := .node kind s.adopted s.own

/-- Events of sheets, the last one first. -/
def eventsOf : List Sheet → List Event
  | [] => []
  | s :: around => eventsOf around ++ s.events

def openedOf : List Sheet → List Opened
  | [] => []
  | s :: around => s.opened (eventsOf around).length :: openedOf around

/-- A log holds what a reading has come to. -/
inductive Holds : Log → State → Prop
  | inside (sheets : List Sheet) (clean : ∀ s ∈ sheets, s.Clean) :
    Holds (eventsOf sheets).toArray ⟨openedOf sheets, none⟩
  | closed (s : Sheet) (clean : s.Clean) {kind : Kind} (plain : kind ≠ .tombstone) :
    Holds ((s.closed kind).events none).toArray
      ⟨[], some (kind, (s.opened 0).adopted ++ (s.opened 0).own)⟩

/-! ### Each call -/

variable {log : Log} {s : Sheet} {around : List Sheet} {state : State}

/-- Passages that are written behind an open node are emitted in it. -/
theorem holds_write (clean : ∀ t ∈ s :: around, t.Clean) {ps : List Passage} (hp : CleanOf ps) :
    Holds (eventsOf (s :: around) ++ Passage.eventsOf ps).toArray
      ⟨(s.opened (eventsOf around).length).emit (readOf (eventsOf (s :: around)).length ps) ::
        openedOf around, none⟩ := by
  obtain ⟨first, others⟩ := List.forall_mem_cons.mp clean
  have holds := Holds.inside (s.write ps :: around) (List.forall_mem_cons.mpr ⟨first.write hp, others⟩)
  rw [eventsOf, events_write, openedOf, opened_write, ← List.length_append, ← List.append_assoc] at holds
  exact holds

/-- A token or an error is emitted in the innermost open node. -/
theorem holds_event (clean : ∀ t ∈ s :: around, t.Clean) {e : Event} (plain : e.command?.isSome) :
    Holds ((eventsOf (s :: around)).toArray.push e)
      ⟨(s.opened (eventsOf around).length).emit (readEvent e) :: openedOf around, none⟩ := by
  have written := holds_write clean (show CleanOf [.event e] from ⟨.inr plain, trivial⟩)
  simpa [Passage.eventsOf, Passage.events, readOf, Passage.read] using written

theorem holds_start (clean : ∀ t ∈ around, t.Clean) :
    Holds (Log.start (eventsOf around).toArray).2
      ⟨⟨(Log.start (eventsOf around).toArray).1, [], []⟩ :: openedOf around, none⟩ := by
  have fresh : (⟨[], []⟩ : Sheet).Clean := ⟨by simp, trivial, trivial⟩
  have holds := Holds.inside (⟨[], []⟩ :: around) (List.forall_mem_cons.mpr ⟨fresh, clean⟩)
  simpa [eventsOf, events, openedOf, opened, leadOf, Passage.eventsOf, readOf, Log.start] using holds

/-- Completing the innermost node closes its sheet. -/
theorem complete_eq (kind : Kind) :
    Log.complete (eventsOf (s :: around)).toArray (s.opened (eventsOf around).length).marker kind =
      (⟨(s.opened (eventsOf around).length).marker.place, kind⟩,
        (eventsOf around ++ (s.closed kind).events none).toArray) := by
  have place : (s.opened (eventsOf around).length).marker.place =
      (eventsOf around ++ leadOf s.adopted).length := by simp [opened]
  have completed := Log.complete_start place (Passage.eventsOf s.own) kind .tombstone none
  simpa [eventsOf, events, closed, Passage.events, Event.unclaimed] using completed

theorem clean_closed (clean : s.Clean) {kind : Kind} (plain : kind ≠ .tombstone) :
    (s.closed kind).Clean :=
  ⟨plain, clean.starts, clean.adopted, clean.own⟩

theorem read_closed (s : Sheet) (kind : Kind) (first : Nat) :
    (s.closed kind).read first =
      [.node ⟨(s.opened first).marker.place, kind⟩ ((s.opened first).adopted ++ (s.opened first).own)] :=
  rfl

theorem holds_complete {m : Marker} {kind : Kind} {t : State} (clean : ∀ t ∈ s :: around, t.Clean)
    (h : Reading.step (eventsOf (s :: around)).toArray ⟨openedOf (s :: around), none⟩
      (.complete m kind) = some t) :
    Holds (Log.complete (eventsOf (s :: around)).toArray m kind).2 t := by
  obtain ⟨first, others⟩ := List.forall_mem_cons.mp clean
  simp only [Reading.step, openedOf] at h
  split at h
  case isFalse => simp at h
  case isTrue last =>
    obtain ⟨rfl, plain⟩ := last
    rw [complete_eq]
    cases around with
    | nil =>
      obtain rfl : _ = t := by simpa [openedOf] using h
      simpa [eventsOf] using Holds.closed s first plain
    | cons outer around =>
      have closed := holds_write others (show CleanOf [s.closed kind] from ⟨clean_closed first plain, trivial⟩)
      obtain rfl : _ = t := by simpa [openedOf, complete_eq] using h
      simpa [Passage.eventsOf, readOf, read_closed] using closed

/-- Only a sheet that adopted nothing is read so. -/
theorem adopted_eq_nil (clean : s.Clean) {first : Nat} (h : (s.opened first).adopted = []) :
    s.adopted = [] := by
  cases hs : s.adopted with
  | nil => rfl
  | cons p later =>
    have node : p.isNode = true := clean.starts p (by simp [hs])
    cases p with
    | event e => simp [isNode] at node
    | node k adopted own => simp [opened, hs, readOf, Passage.read] at h

/-- Abandoning a node removes its start where that stands last. Otherwise it stays, claimed by no node. -/
theorem abandon_eq {s : Sheet} (alone : s.adopted = []) :
    Log.abandon (eventsOf (s :: around)).toArray (s.opened (eventsOf around).length).marker =
      (eventsOf around ++
        Passage.eventsOf (if s.own.isEmpty then [] else .event .unclaimed :: s.own)).toArray := by
  cases hs : s.own with
  | nil => simp [Log.abandon, eventsOf, events, opened, alone, hs, leadOf, Passage.eventsOf]
  | cons p own =>
    simp [Log.abandon, eventsOf, events, opened, alone, hs, leadOf, Passage.eventsOf, Passage.events,
      events_ne_nil]

/-- Abandoning the innermost node leaves what was emitted in it in the node around. -/
theorem holds_abandon {m : Marker} {t : State} (clean : ∀ t ∈ s :: around, t.Clean)
    (h : Reading.step (eventsOf (s :: around)).toArray ⟨openedOf (s :: around), none⟩
      (.abandon m) = some t) :
    Holds (Log.abandon (eventsOf (s :: around)).toArray m) t := by
  obtain ⟨first, others⟩ := List.forall_mem_cons.mp clean
  cases around with
  | nil => simp [Reading.step, openedOf] at h
  | cons outer around =>
    simp only [Reading.step, openedOf] at h
    split at h
    case isFalse => simp at h
    case isTrue last =>
      obtain ⟨rfl, empty⟩ := last
      have alone := adopted_eq_nil first (List.isEmpty_iff.mp empty)
      rw [abandon_eq alone]
      obtain rfl : _ = t := by simpa using h
      have kept : CleanOf (if s.own.isEmpty then [] else .event .unclaimed :: s.own) := by
        split
        · trivial
        · exact ⟨.inl rfl, first.own⟩
      have left := holds_write others kept
      cases hs : s.own with
      | nil => simpa [hs, opened, readOf] using left
      | cons p own =>
        simpa [hs, opened, alone, leadOf, readOf, Passage.read, readEvent, Event.unclaimed, Passage.events]
          using left

/-- Preceding a node makes its start point to a new one behind it. -/
theorem precede_eq {adopted ps qs : List Passage} {p : Passage} (node : p.isNode = true) {c : Completed}
    (place : c.place = (eventsOf around).length + (leadOf adopted).length + 1 +
      (Passage.eventsOf ps).length + p.lead) :
    Log.precede (eventsOf (⟨adopted, ps ++ p :: qs⟩ :: around)).toArray c =
      (⟨(eventsOf (⟨adopted, ps⟩ :: around)).length + (leadOf (p :: qs)).length⟩,
        (eventsOf (⟨p :: qs, []⟩ :: ⟨adopted, ps⟩ :: around)).toArray) := by
  obtain ⟨k, front, back, hfront, hback, hevents⟩ := events_of_isNode node
  have here : c.place = (eventsOf (⟨adopted, ps⟩ :: around) ++ front).length := by
    simp [place, eventsOf, events, hfront, Nat.add_assoc, Nat.add_comm 1]
  have preceded := Log.precede_start here (back ++ Passage.eventsOf qs) k none
  simp [eventsOf, events, Passage.eventsOf, eventsOf_append, leadOf, hevents, ← hback] at preceded ⊢
  rw [preceded, Nat.add_right_comm back.length, Prod.mk.injEq, Marker.mk.injEq]
  exact ⟨by omega, rfl⟩

/-- Preceding a node moves it, and what followed it, to a sheet of its own. -/
theorem holds_precede {c : Completed} {t : State} (clean : ∀ t ∈ s :: around, t.Clean)
    (h : Reading.step (eventsOf (s :: around)).toArray ⟨openedOf (s :: around), none⟩
      (.precede c) = some t) :
    Holds (Log.precede (eventsOf (s :: around)).toArray c).2 t := by
  obtain ⟨⟨starts, kept, rows⟩, others⟩ := List.forall_mem_cons.mp clean
  obtain ⟨adopted, own⟩ := s
  simp only [Reading.step, openedOf] at h
  split at h
  · simp at h
  next x later found =>
    obtain ⟨ps, p, qs, rfl, node, place, before, behind⟩ := readOf_named found
    obtain ⟨rest, moved⟩ := cleanOf_append.mp rows
    have wrapper : (⟨p :: qs, []⟩ : Sheet).Clean := ⟨by simpa using node, moved, trivial⟩
    have holds := Holds.inside (⟨p :: qs, []⟩ :: ⟨adopted, ps⟩ :: around)
      (List.forall_mem_cons.mpr ⟨wrapper, List.forall_mem_cons.mpr ⟨⟨starts, kept, rest⟩, others⟩⟩)
    have preceded : Log.precede (eventsOf (⟨adopted, ps ++ p :: qs⟩ :: around)).toArray c = _ :=
      precede_eq node place
    rw [preceded] at h ⊢
    obtain rfl : _ = t := by simpa using h
    have adopts : readOf (eventsOf (⟨adopted, ps⟩ :: around)).length (p :: qs) = x :: later := by
      rw [← behind]
      congr 1
      simp only [eventsOf, events, List.length_append, List.length_cons]
      omega
    simpa [openedOf, opened, before, adopts] using holds

/-! ### All calls -/

/-- Each call that can be read writes what it is read as. -/
theorem Holds.step {state' : State} {call : Call} (h : Holds log state)
    (read : Reading.step log state call = some state') : Holds (log.write call) state' := by
  cases h with
  | closed s clean plain =>
    cases call <;> simp [Reading.step, State.emit] at read
  | inside sheets clean =>
    cases sheets with
    | nil =>
      cases call with
      | start =>
        obtain rfl : _ = state' := by simpa [Reading.step] using read
        exact holds_start clean
      | _ => simp [Reading.step, State.emit, openedOf] at read
    | cons s around =>
      cases call with
      | start =>
        obtain rfl : _ = state' := by simpa [Reading.step] using read
        exact holds_start clean
      | complete m kind => exact holds_complete clean read
      | abandon m => exact holds_abandon clean read
      | precede c => exact holds_precede clean read
      | token kind pieces =>
        obtain rfl : _ = state' := by simpa [Reading.step, State.emit, openedOf] using read
        exact holds_event clean rfl
      | error cause =>
        obtain rfl : _ = state' := by simpa [Reading.step, State.emit, openedOf] using read
        exact holds_event clean rfl

theorem Holds.run {calls : List Call} {state' : State} (h : Holds log state)
    (read : Reading.run log state calls = some state') : Holds (calls.foldl Log.write log) state' := by
  induction calls generalizing log state with
  | nil =>
    obtain rfl : state = state' := by simpa [Reading.run] using read
    exact h
  | cons call calls ih =>
    obtain ⟨next, stepped, rest⟩ := Option.bind_eq_some_iff.mp read
    exact ih (h.step stepped) rest

/-- Behind the root, the log is that of a single node. -/
theorem Holds.of_root {kind : Kind} {row : List Reading} (h : Holds log state)
    (root : state.root = some (kind, row)) :
    ∃ s : Sheet, s.Clean ∧ kind ≠ .tombstone ∧ log = ((s.closed kind).events none).toArray ∧
      (s.opened 0).adopted ++ (s.opened 0).own = row := by
  cases h with
  | inside sheets clean => simp at root
  | closed s clean plain =>
    obtain ⟨rfl, same⟩ := Prod.mk.inj (Option.some.inj root)
    exact ⟨s, clean, plain, rfl, same⟩

end Sheet

/-! ## The replay of a reading -/

namespace Reading

mutual
/-- The steps of the replay of a reading. -/
def commands : Reading → List Replay.Command
  | token k pieces => [.take k pieces]
  | error cause => [.error cause]
  | node name row => .enter name.kind :: (commandsOf row ++ [.leave])

def commandsOf : List Reading → List Replay.Command
  | [] => []
  | x :: later => commands x ++ commandsOf later
end

theorem commandsOf_append (xs ys : List Reading) :
    commandsOf (xs ++ ys) = commandsOf xs ++ commandsOf ys := by
  induction xs with
  | nil => rfl
  | cons x xs ih => simp [commandsOf, ih]

end Reading

namespace Passage

theorem commandsOf_readEvent (e : Event) : Reading.commandsOf (readEvent e) = e.command?.toList := by
  cases e <;> rfl

mutual
/-- A passage is replayed as what it says. -/
theorem commandsOf_read (first : Nat) : ∀ p : Passage, Reading.commandsOf (p.read first) = p.commands
  | .event e => commandsOf_readEvent e
  | .node k adopted own => by
    simp [read, commands, Reading.commandsOf, Reading.commands, Reading.commandsOf_append,
      commandsOf_readOf _ adopted, commandsOf_readOf _ own]

theorem commandsOf_readOf (first : Nat) : ∀ row : List Passage,
    Reading.commandsOf (readOf first row) = commandsOf row
  | [] => rfl
  | p :: later => by
    rw [readOf, Reading.commandsOf_append, commandsOf_read first p, commandsOf_readOf _ later, commandsOf]
end

end Passage

namespace Replay

/-- No token is a blank or a comment. -/
def Plain (ts : List Token) : Prop := ∀ t ∈ ts, t.isTrivia = false

theorem Plain.none {ts : List Token} (h : Plain ts) : ts.takeWhile (·.isTrivia) = [] := by
  cases ts with
  | nil => rfl
  | cons t ts => simp [h t List.mem_cons_self]

theorem trivia_of_plain {ts : List Token} (h : Plain ts) : Sprout.trivia ts = ⟨[], [], ts⟩ :=
  Sprout.trivia_of_none h.none

theorem outer_of_plain {k : Kind} {ts : List Token} (h : Plain ts) : Sprout.outer k ts = ⟨[], [], ts⟩ :=
  Sprout.outer_of_none h.none

theorem andThen_trivia_of_plain {a : Sprout} (h : Plain a.rest) : a.andThen Sprout.trivia = a := by
  simp [Sprout.andThen, trivia_of_plain h]

theorem Plain.drop {ts : List Token} (h : Plain ts) (n : Nat) : Plain (ts.drop n) :=
  fun t ht => h t (List.mem_of_mem_drop ht)

/-- Steps that take `width` tokens add what grows from tokens without trivia if there are enough. -/
structure Yields (cs : List Command) (width : Nat) (next : Nat → List Token → Sprout) : Prop where
  rest : ∀ stop ts, (next stop ts).rest = ts.drop width
  grows : ∀ {r s : Replay}, r.Settles s → Plain s.rest → width ≤ s.rest.length →
    ∃ r', r.run cs = .ok r' ∧ r'.Settles (s.extended (next s.stop s.rest))
  fails : ∀ {r s : Replay}, r.Settles s → Plain s.rest → s.rest.length < width →
    r.run cs = .error .tokensExhausted

namespace Yields

theorem nil : Yields [] 0 fun _ ts => ⟨[], [], ts⟩ where
  rest _ _ := rfl
  grows h _ _ := ⟨_, rfl, by simpa [extended] using h⟩
  fails _ _ few := absurd few (Nat.not_lt_zero _)

theorem error (cause : Cause) : Yields [.error cause] 0 fun stop ts => ⟨[], [⟨cause, anchor stop ts⟩], ts⟩ where
  rest _ _ := rfl
  grows h _ _ := ⟨_, rfl, error_settled h cause⟩
  fails _ _ few := absurd few (Nat.not_lt_zero _)

theorem take (k : Kind) (pieces : Nat) : Yields [.take k pieces] pieces fun _ ts => .taken k pieces ts where
  rest _ _ := rfl
  grows {r s} h plain enough := by
    have none := trivia_of_plain plain
    have room : pieces ≤ (Sprout.trivia s.rest).rest.length := by rwa [none]
    obtain ⟨r', taken, settles⟩ := take_settled h k room
    refine ⟨r', by simp [run, obey, taken], ?_⟩
    simpa [none, Sprout.andThen] using settles
  fails {r s} h plain few := by
    have settled : r.settle = _ := h
    have short : min pieces s.rest.length < pieces := by omega
    simp [run, obey, Replay.take, settled, placeTrivia_eq, extended, trivia_of_plain plain, short,
      Bind.bind, Except.bind, throw, throwThe, MonadExceptOf.throw]

/-- Steps behind one another. -/
theorem append {cs ds : List Command} {m n : Nat} {first second : Nat → List Token → Sprout}
    (h : Yields cs m first) (h' : Yields ds n second) :
    Yields (cs ++ ds) (m + n) fun stop ts => (first stop ts).andThen (second stop) where
  rest stop ts := by simp [Sprout.andThen, h.rest, h'.rest, List.drop_drop]
  grows {r s} settles plain enough := by
    obtain ⟨r₁, ran, settles₁⟩ := h.grows settles plain (by omega)
    have left : (s.extended (first s.stop s.rest)).rest = s.rest.drop m := h.rest _ _
    obtain ⟨r₂, ran₂, settles₂⟩ := h'.grows settles₁ (left ▸ plain.drop m) (by
      rw [left, List.length_drop]
      omega)
    exact ⟨r₂, by rw [run_append, ran]; exact ran₂, by rwa [extended_andThen]⟩
  fails {r s} settles plain few := by
    rw [run_append]
    by_cases enough : m ≤ s.rest.length
    · obtain ⟨r₁, ran, settles₁⟩ := h.grows settles plain enough
      have left : (s.extended (first s.stop s.rest)).rest = s.rest.drop m := h.rest _ _
      rw [ran]
      exact h'.fails settles₁ (left ▸ plain.drop m) (by
        rw [left, List.length_drop]
        omega)
    · rw [h.fails settles plain (by omega)]
      rfl

/-- Steps between entering a node and leaving it. -/
theorem node (k : Kind) {cs : List Command} {width : Nat} {next : Nat → List Token → Sprout}
    (h : Yields cs width next) :
    Yields (.enter k :: (cs ++ [.leave])) width fun stop ts => (next stop ts).under k where
  rest := h.rest
  grows {r s} settles plain enough := by
    have none := trivia_of_plain plain
    have outer := outer_of_plain (k := k) plain
    have body : ∀ q : Replay, q.stop = s.stop → q.rest = (Sprout.trivia (Sprout.outer k s.rest).rest).rest →
        q.Settles q → ∃ r', q.run cs = .ok r' ∧ r'.Settles (q.extended (next s.stop q.rest)) := by
      intro q stop rest hq
      rw [outer, none] at rest
      obtain ⟨r', ran, settles'⟩ := h.grows hq (by rwa [rest]) (by rwa [rest])
      exact ⟨r', ran, by rwa [← stop]⟩
    have ran := run_node settles k body
    simpa [outer, none, Sprout.andThen, Sprout.under] using ran
  fails {r s} settles plain few := by
    have entered := enter_settled settles k
    simp only [outer_of_plain plain, trivia_of_plain plain] at entered
    have body := h.fails (r := ((s.extended ⟨[], [], s.rest⟩).openNode k).extended ⟨[], [], s.rest⟩)
      (settles_inside rfl) plain few
    rw [run_cons, obey, entered]
    change run _ (cs ++ [.leave]) = _
    rw [run_append, body]
    rfl

end Yields

end Replay

namespace Reading

open Replay

mutual
/-- The replay of a reading adds what grows from it. -/
theorem yields : ∀ x : Reading, Yields x.commands x.width fun stop ts => x.grow stop ts
  | .token k pieces => .take k pieces
  | .error cause => .error cause
  | .node name row => .node name.kind (yieldsOf row)

theorem yieldsOf : ∀ row : List Reading,
    Yields (commandsOf row) (widthOf row) fun stop ts => growOf stop row ts
  | [] => .nil
  | x :: later => (yields x).append (yieldsOf later)
end

end Reading

namespace Log

/-- Replaying the log of calls that can be read is replaying the steps of their reading. -/
theorem toTree_of_reading {calls : List Call} {kind : Kind} {row : List Reading}
    (read : Reading.ofCalls calls = some (kind, row)) (tokens : List Token) :
    toTree (ofCalls calls) tokens =
      (Replay.init tokens).run (.enter kind :: (Reading.commandsOf row ++ [.leave])) >>= Replay.finish := by
  obtain ⟨state, ran, root⟩ := Option.bind_eq_some_iff.mp read
  obtain ⟨s, clean, named, log, rfl⟩ := ((Sheet.Holds.inside [] (by simp)).run ran).of_root root
  have whole : Passage.CleanOf [s.closed kind] := ⟨Sheet.clean_closed clean named, trivial⟩
  have replayed := toTree_passages whole tokens
  have steps : Passage.commandsOf [s.closed kind] =
      .enter kind :: (Reading.commandsOf ((s.opened 0).adopted ++ (s.opened 0).own) ++ [.leave]) := by
    simp [Passage.commandsOf, Passage.commands, Sheet.closed, Sheet.opened, Reading.commandsOf_append,
      Passage.commandsOf_readOf]
  rw [steps, Passage.eventsOf, Passage.eventsOf, List.append_nil] at replayed
  exact (congrArg (toTree · tokens) log).trans replayed

/-- Replaying the log of calls that can be read builds the tree of their reading, over any tokens without
trivia. The replay fails only where the calls take more tokens than there are. -/
theorem toTree_ofCalls {calls : List Call} {kind : Kind} {row : List Reading}
    (read : Reading.ofCalls calls = some (kind, row)) {tokens : List Token}
    (plain : ∀ t ∈ tokens, t.isTrivia = false) :
    toTree (ofCalls calls) tokens =
      let grown := Reading.growOf (Replay.textEnd tokens) row tokens
      if Reading.widthOf row ≤ tokens.length then
        .ok (.branch kind grown.greens, (grown.reports.foldl Diagnostic.keep #[]).toList)
      else .error .tokensExhausted := by
  have yields := Reading.yieldsOf row
  have start : ((Replay.init tokens).openNode kind).Settles _ := Replay.settles_inside rfl
  rw [toTree_of_reading read]
  dsimp only
  split
  next enough =>
    obtain ⟨r, ran, settled⟩ := yields.grows start plain enough
    have grown : (Reading.growOf (Replay.textEnd tokens) row tokens).andThen Sprout.trivia = _ :=
      Replay.andThen_trivia_of_plain (by rw [yields.rest]; exact Replay.Plain.drop plain _)
    have whole := Replay.run_root (a := Reading.growOf (Replay.textEnd tokens) row tokens) ran settled
    rwa [grown] at whole
  next few =>
    have failed := yields.fails start plain (Nat.lt_of_not_le few)
    rw [Replay.run_cons, show (Replay.init tokens).obey (.enter kind) = .ok _ from rfl]
    change Replay.run _ (_ ++ [.leave]) >>= Replay.finish = _
    rw [Replay.run_append, failed]
    rfl

/-- A node is put around what follows it too, a wrapper in a wrapper and around one; what was abandoned is
left in the root. -/
theorem toTree_ofCalls_wrapped :
    toTree
        (ofCalls [.start, .start, .token .ident 1, .complete ⟨1⟩ .pathExpr, .error (.expected .expression),
          .precede ⟨1, .pathExpr⟩, .token .plus 1, .start, .token .ident 1, .complete ⟨7⟩ .pathExpr,
          .precede ⟨7, .pathExpr⟩, .token .question 1, .complete ⟨10⟩ .tryExpr, .complete ⟨5⟩ .binExpr,
          .precede ⟨5, .binExpr⟩, .complete ⟨14⟩ .exprStmt, .start, .token .ident 1, .abandon ⟨16⟩, .start,
          .abandon ⟨18⟩, .complete ⟨0⟩ .sourceFile])
        [⟨.ident, ['a'], 0, none⟩, ⟨.plus, ['+'], 1, none⟩, ⟨.ident, ['b'], 2, none⟩,
          ⟨.question, ['?'], 3, none⟩, ⟨.ident, ['c'], 4, none⟩, ⟨.eof, [], 5, none⟩] =
      .ok (.branch .sourceFile
        [.branch .exprStmt
          [.branch .binExpr
            [.branch .pathExpr [.token .ident ['a']], .token .plus ['+'],
              .branch .tryExpr [.branch .pathExpr [.token .ident ['b']], .token .question ['?']]]],
          .token .ident ['c']],
        [⟨.expected .expression, ⟨1, 1⟩⟩]) :=
  (toTree_ofCalls
    (show Reading.ofCalls _ = some (.sourceFile, [.node ⟨14, .exprStmt⟩
      [.node ⟨5, .binExpr⟩
        [.node ⟨1, .pathExpr⟩ [.token .ident 1], .error (.expected .expression), .token .plus 1,
          .node ⟨10, .tryExpr⟩ [.node ⟨7, .pathExpr⟩ [.token .ident 1], .token .question 1]]],
      .token .ident 1]) from rfl)
    (by decide)).trans (by
      simp +decide [Reading.growOf, Reading.grow, Sprout.andThen, Sprout.taken, Sprout.under, anchor,
        Token.isTrivia, Diagnostic.keep, Token.span, Token.diagnostic?, Text.size])

end Log

end Verbatim
