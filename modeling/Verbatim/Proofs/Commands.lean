import Verbatim.Proofs.OutlineLog
import Verbatim.Proofs.Passages

/-!
# The replay of a log follows its outline

Replaying the log of an outline opens and closes its nodes in the order in which the outline shows them.
As a passage of the log, a node that was put around another has adopted that one alone.
-/
namespace Verbatim

namespace Outline

/-! ## Outlines without faults -/

mutual
/-- Nothing went wrong, and nodes stand only around nodes. -/
def Clean : Outline → Prop
  | fault _ => False
  | node k row => k ≠ .tombstone ∧ CleanOf row
  | around k inner row => k ≠ .tombstone ∧ inner.isNode = true ∧ Clean inner ∧ CleanOf row
  | _ => True

def CleanOf : List Outline → Prop
  | [] => True
  | o :: older => Clean o ∧ CleanOf older
end

theorem cleanOf_append {new old : List Outline} : CleanOf (new ++ old) ↔ CleanOf new ∧ CleanOf old := by
  induction new with
  | nil => simp [CleanOf]
  | cons o new ih => simp [CleanOf, ih, and_assoc]

mutual
/-- The steps of the replay of an outline. -/
def commands : Outline → List Replay.Command
  | token k pieces => [.take k pieces]
  | error cause => [.error cause]
  | fault _ | void => []
  | node k row => .enter k :: (commandsOf row ++ [.leave])
  | around k inner row => .enter k :: (commands inner ++ (commandsOf row ++ [.leave]))

def commandsOf : List Outline → List Replay.Command
  | [] => []
  | o :: older => commandsOf older ++ commands o
end

/-! ## Outlines as passages -/

mutual
/-- Where an outline stands in the log. -/
def passage : Outline → Passage
  | token k pieces => .event (.token k pieces)
  | error cause => .event (.error cause)
  | fault what => .event (.fault what)
  | void => .event .unclaimed
  | node k row => .node k [] (passagesOf row)
  | around k inner row => .node k [passage inner] (passagesOf row)

def passagesOf : List Outline → List Passage
  | [] => []
  | o :: older => passagesOf older ++ [passage o]
end

mutual
theorem events_passage (e : Option Nat) : ∀ o : Outline, o.passage.events e = o.events e
  | token _ _ | error _ | fault _ | void => rfl
  | node k row => by simp [passage, events, Passage.events, Passage.leadOf, eventsOf_passagesOf row]
  | around k inner row => by
    simp [passage, events, Passage.events, Passage.leadOf, Passage.eventsOf, eventsOf_passagesOf row,
      ownLength_passage inner, events_passage _ inner]

theorem ownLength_passage : ∀ o : Outline, o.passage.ownLength = o.ownLength
  | token _ _ | error _ | fault _ | void => rfl
  | node k row => by simp [passage, ownLength, Passage.ownLength, eventsOf_passagesOf row]
  | around k inner row => by simp [passage, ownLength, Passage.ownLength, eventsOf_passagesOf row]

theorem eventsOf_passagesOf : ∀ row : List Outline, Passage.eventsOf (passagesOf row) = eventsOf row
  | [] => rfl
  | o :: older => by
    simp [passagesOf, Passage.eventsOf_append, Passage.eventsOf, eventsOf, eventsOf_passagesOf older,
      events_passage none o]
end

mutual
theorem commands_passage : ∀ o : Outline, o.passage.commands = o.commands
  | token _ _ | error _ | fault _ | void => rfl
  | node k row => by
    simp [passage, commands, Passage.commands, Passage.commandsOf, commandsOf_passagesOf row]
  | around k inner row => by
    simp [passage, commands, Passage.commands, Passage.commandsOf, commandsOf_passagesOf row,
      commands_passage inner]

theorem commandsOf_passagesOf : ∀ row : List Outline, Passage.commandsOf (passagesOf row) = commandsOf row
  | [] => rfl
  | o :: older => by
    simp [passagesOf, Passage.commandsOf_append, Passage.commandsOf, commandsOf,
      commandsOf_passagesOf older, commands_passage o]
end

theorem isNode_passage {o : Outline} (h : o.isNode = true) : o.passage.isNode = true := by
  cases o <;> first | rfl | simp [isNode, kind?] at h

mutual
theorem clean_passage : ∀ {o : Outline}, o.Clean → o.passage.Clean
  | token _ _, _ | error _, _ => .inr rfl
  | void, _ => .inl rfl
  | node k row, h => ⟨h.1, by simp, trivial, cleanOf_passagesOf h.2⟩
  | around k inner row, h =>
    ⟨h.1, by simpa using isNode_passage h.2.1, ⟨clean_passage h.2.2.1, trivial⟩, cleanOf_passagesOf h.2.2.2⟩

theorem cleanOf_passagesOf : ∀ {row : List Outline}, CleanOf row → Passage.CleanOf (passagesOf row)
  | [], _ => trivial
  | _ :: _, h => Passage.cleanOf_append.mpr ⟨cleanOf_passagesOf h.2, clean_passage h.1, trivial⟩
end

end Outline

namespace Log

open Outline

/-- Replaying the log of a row of outlines is replaying their steps. -/
theorem toTree_eventsOf (row : List Outline) (h : CleanOf row) (tokens : List Token) :
    toTree (eventsOf row).toArray tokens =
      (Replay.init tokens).run (commandsOf row) >>= Replay.finish := by
  rw [← eventsOf_passagesOf, toTree_passages (cleanOf_passagesOf h), commandsOf_passagesOf]

end Log

end Verbatim
