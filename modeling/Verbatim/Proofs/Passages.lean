import Verbatim.Event.Replay

/-!
# Passages of a log

A log is flat, and a start in it may point forward to the start of a node that encloses it. A stretch of
a log is told here by the nodes in it: a node stands around its own start, with what it adopted in front
of that and all else behind. Replaying a passage opens and closes its nodes in the order in which they
enclose each other: the starts that point forward are read in one go, with the outermost first.
-/
namespace Verbatim

namespace Replay

/-- A step of the replay. -/
inductive Command where
  | enter (kind : Kind)
  | leave
  | take (kind : Kind) (pieces : Nat)
  | error (cause : Cause)

def obey (r : Replay) : Command → Except Fault Replay
  | .enter kind => r.enter kind
  | .leave => r.leave
  | .take kind pieces => r.take kind pieces
  | .error cause => .ok (r.error cause)

def run (r : Replay) (commands : List Command) : Except Fault Replay := commands.foldlM obey r

@[simp] theorem run_nil (r : Replay) : r.run [] = .ok r := rfl

theorem run_cons (r : Replay) (c : Command) (cs : List Command) :
    r.run (c :: cs) = r.obey c >>= fun r' => r'.run cs := by
  simp [run]

theorem run_append (r : Replay) (cs ds : List Command) :
    r.run (cs ++ ds) = r.run cs >>= fun r' => r'.run ds := by
  simp [run]

theorem run_spine (r : Replay) (kinds : List Kind) :
    kinds.foldlM Replay.enter r = r.run (kinds.map .enter) := by
  simp [Replay.run, List.foldlM_map, Replay.obey]

end Replay

/-- The step of the replay that an event by itself stands for. -/
def Event.command? : Event → Option Replay.Command
  | .token kind pieces => some (.take kind pieces)
  | .error cause => some (.error cause)
  | _ => none

/-- A stretch of a log. Rows are kept in the order of the log. -/
inductive Passage where
  /-- An event outside of all nodes of the stretch. -/
  | event (e : Event)
  /-- A node that was put around `adopted` when that was complete already, and then went on. -/
  | node (kind : Kind) (adopted own : List Passage)

namespace Passage

def isNode : Passage → Bool
  | event _ => false
  | node _ _ _ => true

mutual
/-- The events of a passage. Its own start points `enclosing` events forward. -/
def events (enclosing : Option Nat) : Passage → List Event
  | event e => [e]
  | node k adopted own => leadOf adopted ++ .start k enclosing :: (eventsOf own ++ [.finish])

def eventsOf : List Passage → List Event
  | [] => []
  | p :: later => events none p ++ eventsOf later

/-- The events of a row that a node behind it adopts: its first node points there. -/
def leadOf : List Passage → List Event
  | [] => []
  | p :: later => events (some (ownLength p + (eventsOf later).length)) p ++ eventsOf later

/-- How many events there are from the start of a node to its end, both included. -/
def ownLength : Passage → Nat
  | event _ => 1
  | node _ _ own => (eventsOf own).length + 2
end

mutual
/-- What a node has adopted starts with a node, and outside of nodes nothing goes wrong. -/
def Clean : Passage → Prop
  | event e => e = .unclaimed ∨ e.command?.isSome
  | node k adopted own => k ≠ .tombstone ∧ (∀ p ∈ adopted.head?, p.isNode) ∧ CleanOf adopted ∧ CleanOf own

def CleanOf : List Passage → Prop
  | [] => True
  | p :: later => Clean p ∧ CleanOf later
end

mutual
/-- The steps of the replay of a passage. -/
def commands : Passage → List Replay.Command
  | event e => e.command?.toList
  | node k adopted own => .enter k :: (commandsOf adopted ++ (commandsOf own ++ [.leave]))

def commandsOf : List Passage → List Replay.Command
  | [] => []
  | p :: later => commands p ++ commandsOf later
end

/-! ## Rows put behind one another -/

theorem eventsOf_append (ps qs : List Passage) : eventsOf (ps ++ qs) = eventsOf ps ++ eventsOf qs := by
  induction ps with
  | nil => rfl
  | cons p ps ih => simp [eventsOf, ih]

theorem cleanOf_append {ps qs : List Passage} : CleanOf (ps ++ qs) ↔ CleanOf ps ∧ CleanOf qs := by
  induction ps with
  | nil => simp [CleanOf]
  | cons p ps ih => simp [CleanOf, ih, and_assoc]

theorem commandsOf_append (ps qs : List Passage) :
    commandsOf (ps ++ qs) = commandsOf ps ++ commandsOf qs := by
  induction ps with
  | nil => rfl
  | cons p ps ih => simp [commandsOf, ih]

theorem events_ne_nil (e : Option Nat) (p : Passage) : p.events e ≠ [] := by
  cases p <;> simp [events]

theorem ownLength_pos (p : Passage) : 0 < p.ownLength := by
  cases p <;> simp [ownLength]

/-! ## Where a node starts -/

mutual
/-- The kinds of the nodes that start where a passage does, the outermost first. -/
def spine : Passage → List Kind
  | event _ => []
  | node k adopted _ => k :: spineOf adopted

def spineOf : List Passage → List Kind
  | [] => []
  | p :: _ => spine p
end

mutual
/-- The events behind the first one, once all starts that this points to have been read. -/
def pending : Passage → List Event
  | event _ => []
  | node _ adopted own => pendingOf adopted ++ (eventsOf own ++ [.finish])

/-- The same for what a node has adopted and its start. -/
def pendingOf : List Passage → List Event
  | [] => []
  | p :: later => pending p ++ (eventsOf later ++ [.unclaimed])
end

mutual
/-- The steps behind the opening of the nodes that start where a passage does. -/
def inside : Passage → List Replay.Command
  | event _ => []
  | node _ adopted own => insideOf adopted ++ (commandsOf own ++ [.leave])

def insideOf : List Passage → List Replay.Command
  | [] => []
  | p :: later => inside p ++ commandsOf later
end

mutual
theorem commands_eq_spine : ∀ {p : Passage}, p.isNode = true → p.Clean →
    p.commands = p.spine.map .enter ++ p.inside
  | .node k adopted own, _, h => by
    simp [commands, spine, inside, commandsOf_eq_spine h.2.1 h.2.2.1]

theorem commandsOf_eq_spine : ∀ {row : List Passage}, (∀ p ∈ row.head?, p.isNode) → CleanOf row →
    commandsOf row = (spineOf row).map .enter ++ insideOf row
  | [], _, _ => rfl
  | p :: later, hn, h => by
    simp [commandsOf, spineOf, insideOf, commands_eq_spine (hn p rfl) h.1]
end

/-- How many events stand in front of a passage's own start. -/
def lead : Passage → Nat
  | event _ => 0
  | node _ adopted _ => (leadOf adopted).length

/-- Where a node ends, seen from its own start. -/
theorem length_events {p : Passage} (h : p.isNode = true) (e : Option Nat) :
    (p.events e).length = p.lead + p.ownLength := by
  cases p with
  | event e => simp [isNode] at h
  | node k adopted own => simp [events, lead, ownLength]

/-- The events of a node around its own start, which alone depends on what encloses it. -/
theorem events_of_isNode {p : Passage} (h : p.isNode = true) :
    ∃ (k : Kind) (front back : List Event), front.length = p.lead ∧ back.length + 1 = p.ownLength ∧
      ∀ e, p.events e = front ++ .start k e :: back := by
  cases p with
  | event e => simp [isNode] at h
  | node k adopted own =>
    exact ⟨k, leadOf adopted, eventsOf own ++ [.finish], rfl, by simp [ownLength], fun e => rfl⟩

end Passage

namespace Log

open Passage

/-- Replays `count` events from `first` on. -/
def follow (log : Log) (r : Replay) (first count : Nat) : Except Fault (Log × Replay) :=
  (List.range' first count).foldlM (fun (log, r) i => step log r i) (log, r)

theorem follow_one (log : Log) (r : Replay) (first : Nat) : log.follow r first 1 = log.step r first := by
  simp [follow]

theorem follow_add (log : Log) (r : Replay) (first m n : Nat) :
    log.follow r first (m + n) =
      log.follow r first m >>= fun (log, r) => follow log r (first + m) n := by
  simp [follow, ← List.range'_append_1]

/-- Events that are replayed by some steps, wherever they stand. -/
def Follows (events : List Event) (commands : List Replay.Command) : Prop :=
  ∃ read : List Event, read.length = events.length ∧ ∀ (front back : List Event) (r : Replay),
    follow (front ++ events ++ back).toArray r front.length events.length =
      (r.run commands).map fun r' => ((front ++ read ++ back).toArray, r')

theorem Follows.nil : Follows [] [] :=
  ⟨[], rfl, fun _ _ _ => rfl⟩

theorem Follows.append {es es' : List Event} {cs cs' : List Replay.Command} (h : Follows es cs)
    (h' : Follows es' cs') : Follows (es ++ es') (cs ++ cs') := by
  obtain ⟨read, length, steps⟩ := h
  obtain ⟨read', length', steps'⟩ := h'
  refine ⟨read ++ read', by simp [length, length'], fun front back r => ?_⟩
  have first := steps front (es' ++ back) r
  rw [← List.append_assoc, List.append_assoc front] at first
  rw [List.length_append, follow_add, first, Replay.run_append]
  cases r.run cs with
  | error f => rfl
  | ok r' =>
    have second := steps' (front ++ read) back r'
    rw [List.length_append, length] at second
    simpa [Except.map, Bind.bind, Except.bind] using second

theorem follows_one {e : Event} {cs : List Replay.Command} (read : Event)
    (h : ∀ (front back : List Event) (r : Replay),
      step (front ++ e :: back).toArray r front.length =
        (r.run cs).map fun r' => ((front ++ read :: back).toArray, r')) : Follows [e] cs :=
  ⟨[read], rfl, fun front back r => by simpa [follow_one] using h front back r⟩

theorem follows_token (k : Kind) (pieces : Nat) : Follows [.token k pieces] [.take k pieces] :=
  follows_one (.token k pieces) fun front back r => by
    simp [step, Replay.run, Replay.obey]
    cases r.take k pieces <;> rfl

theorem follows_error (cause : Cause) : Follows [.error cause] [.error cause] :=
  follows_one (.error cause) fun front back r => by
    simp [step, Replay.run, Replay.obey, Except.map, Pure.pure, Except.pure, Bind.bind, Except.bind]

theorem follows_finish : Follows [.finish] [.leave] :=
  follows_one .finish fun front back r => by
    simp [step, Replay.run, Replay.obey]
    cases r.leave <;> rfl

theorem follows_unclaimed : Follows [.unclaimed] [] :=
  follows_one .unclaimed fun front back r => by
    simp [step, Event.unclaimed, Except.map, Pure.pure, Except.pure]

theorem follows_event {e : Event} (h : (Passage.event e).Clean) : Follows [e] e.command?.toList := by
  obtain rfl | h := h
  · exact follows_unclaimed
  · cases e with
    | token k pieces => exact follows_token k pieces
    | error cause => exact follows_error cause
    | _ => simp [Event.command?] at h

/-! ## Starts that point forward -/

theorem claim_none (log : Log) (i : Nat) (kinds : List Kind) : claim log i none kinds = .ok (kinds, log) := by
  simp [claim]

/-- One start further. -/
theorem claim_some {front : List Event} {i distance : Nat} {k : Kind} (hd : 0 < distance)
    (hi : i + distance = front.length) (hk : k ≠ .tombstone) (back : List Event) (next : Option Nat)
    (kinds : List Kind) :
    claim (front ++ .start k next :: back).toArray i (some distance) kinds =
      claim (front ++ .unclaimed :: back).toArray (i + distance) next (k :: kinds) := by
  rw [claim]
  simp [hd, hi, hk]

/-- The first event of a node points to all the starts of the nodes that start there. -/
theorem claim_spine : ∀ {p : Passage}, p.isNode = true → p.Clean → ∀ e : Option Nat,
    ∃ k fp tail, p.events e = .start k fp :: tail ∧ k ≠ .tombstone ∧ tail.length = p.pending.length ∧
      ∀ front back : List Event,
        claim (front ++ .unclaimed :: (tail ++ back)).toArray front.length fp [k] =
          claim (front ++ .unclaimed :: (p.pending ++ back)).toArray (front.length + p.lead) e p.spine
  | .node k [] own, _, hc, e =>
    ⟨k, e, eventsOf own ++ [.finish], by simp [events, leadOf], hc.1, by simp [pending, pendingOf],
      fun front back => by simp [pending, pendingOf, spine, spineOf, lead, leadOf]⟩
  | .node k (p :: later) own, _, hc, e => by
    obtain ⟨plain, starts, ⟨clean, -⟩, -⟩ := hc
    have hn : p.isNode = true := starts p rfl
    obtain ⟨k₀, fp, tail, first, plain₀, length, chain⟩ :=
      claim_spine hn clean (some (p.ownLength + (eventsOf later).length))
    have whole := length_events hn (some (p.ownLength + (eventsOf later).length))
    have here : (Passage.node k (p :: later) own).lead =
        p.lead + (p.ownLength + (eventsOf later).length) := by
      simp [lead, leadOf, whole, Nat.add_assoc]
    rw [first, List.length_cons, length] at whole
    refine ⟨k₀, fp, tail ++ (eventsOf later ++ .start k e :: (eventsOf own ++ [.finish])),
      by simp [events, leadOf, first], plain₀, by simp [pending, pendingOf, length], fun front back => ?_⟩
    have step := chain front (eventsOf later ++ .start k e :: (eventsOf own ++ [.finish] ++ back))
    have behind : front.length + p.lead + (p.ownLength + (eventsOf later).length) =
        (front ++ .unclaimed :: (p.pending ++ eventsOf later)).length := by
      simp
      omega
    have next := claim_some (Nat.add_pos_left (ownLength_pos p) _) behind plain
      (eventsOf own ++ [.finish] ++ back) e p.spine
    rw [Nat.add_assoc front.length, ← here] at next
    simpa [pending, pendingOf, spine, spineOf] using step.trans (by simpa using next)

/-- A node is replayed: the nodes that start with it are entered, and then follows what is inside. -/
theorem follows_node {p : Passage} (hn : p.isNode = true) (hc : p.Clean)
    (inside : Follows p.pending p.inside) : Follows (p.events none) p.commands := by
  obtain ⟨k, fp, tail, first, plain, length, chain⟩ := claim_spine hn hc none
  obtain ⟨read, read_length, steps⟩ := inside
  refine ⟨.unclaimed :: read, by simp [first, read_length, length], fun front back r => ?_⟩
  have claimed : claim (front ++ .unclaimed :: (tail ++ back)).toArray front.length fp [k] =
      .ok (p.spine, (front ++ .unclaimed :: (p.pending ++ back)).toArray) := by
    rw [chain, claim_none]
  have entered : step (front ++ .start k fp :: (tail ++ back)).toArray r front.length =
      (r.run (p.spine.map .enter)).map fun r' =>
        ((front ++ .unclaimed :: (p.pending ++ back)).toArray, r') := by
    simp [step, claimed, Replay.run_spine, Bind.bind, Except.bind, Pure.pure, Except.pure]
    cases r.run (p.spine.map .enter) <;> rfl
  rw [commands_eq_spine hn hc, Replay.run_append, first, List.length_cons, Nat.add_comm, follow_add,
    follow_one]
  simp only [List.append_assoc, List.cons_append, entered]
  cases r.run (p.spine.map .enter) with
  | error f => rfl
  | ok r' =>
    have behind := steps (front ++ [.unclaimed]) back r'
    rw [← length] at behind
    simpa [Except.map, Bind.bind, Except.bind] using behind

mutual
/-- A passage is replayed by its steps. -/
theorem follows_events : ∀ p : Passage, p.Clean → Follows (p.events none) p.commands
  | .event _, h => follows_event h
  | .node k adopted own, h => follows_node rfl h (follows_pending (.node k adopted own) h)

theorem follows_pending : ∀ p : Passage, p.Clean → Follows p.pending p.inside
  | .event _, _ => .nil
  | .node _ adopted own, h => (follows_pendingOf adopted h.2.2.1).append
      ((follows_eventsOf own h.2.2.2).append follows_finish)

theorem follows_pendingOf : ∀ row : List Passage, CleanOf row → Follows (pendingOf row) (insideOf row)
  | [], _ => .nil
  | p :: later, h => by
    have behind := (follows_eventsOf later h.2).append follows_unclaimed
    rw [List.append_nil] at behind
    exact (follows_pending p h.1).append behind

theorem follows_eventsOf : ∀ row : List Passage, CleanOf row → Follows (eventsOf row) (commandsOf row)
  | [], _ => .nil
  | p :: later, h => (follows_events p h.1).append (follows_eventsOf later h.2)
end

/-- Replaying the log of some passages is replaying their steps. -/
theorem toTree_passages {row : List Passage} (h : CleanOf row) (tokens : List Token) :
    toTree (Passage.eventsOf row).toArray tokens =
      (Replay.init tokens).run (Passage.commandsOf row) >>= Replay.finish := by
  obtain ⟨read, -, steps⟩ := follows_eventsOf row h
  have all := steps [] [] (.init tokens)
  simp only [List.nil_append, List.append_nil, List.length_nil, follow] at all
  simp only [toTree, List.range_eq_range', List.size_toArray, all]
  cases (Replay.init tokens).run (Passage.commandsOf row) <;> rfl

end Log

end Verbatim
