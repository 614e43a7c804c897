import Verbatim.Event.Replay
import Verbatim.Proofs.Input
import Verbatim.Proofs.Outline

/-!
# Safe runs

A run is safe if it keeps to the terms under which the steps of the parser are meant: nothing is
demanded that is not there, nothing is read past a brace or the end, nodes are put only around nodes,
loops and calls end before they are cut off, and between a nesting step and the next one inside of it a
node is opened. Nodes that take along the comments above them hold a token, and nodes of the kinds that can
be parsed by themselves are made by `list` alone.
-/
namespace Verbatim

/-- Kinds of the nodes that the steps `enclose` and `wrap` may make. -/
structure Kind.IsProper (k : Kind) : Prop where
  ne_tombstone : k ≠ .tombstone
  ne_brace : k ≠ .rightBrace
  no_fragment : Fragment.ofKind? k = none

instance (k : Kind) : Decidable k.IsProper :=
  decidable_of_iff (k ≠ .tombstone ∧ k ≠ .rightBrace ∧ Fragment.ofKind? k = none)
    ⟨fun h => ⟨h.1, h.2.1, h.2.2⟩, fun h => ⟨h.1, h.2, h.3⟩⟩

/-- Kinds of nodes that may hold no token at all: they take along no comments. -/
structure Kind.IsPlain (k : Kind) : Prop extends k.IsProper where
  plain : k.attachesComments = false

instance (k : Kind) : Decidable k.IsPlain :=
  decidable_of_iff (k.IsProper ∧ k.attachesComments = false) ⟨fun h => ⟨h.1, h.2⟩, fun h => ⟨h.1, h.2⟩⟩

/-- A node of kind `k` may be put around the tokens from place `i` to place `j`. -/
structure Kind.Spans (k : Kind) (i j : Nat) : Prop extends k.IsProper where
  holds : k.attachesComments = true → i < j

theorem Kind.Spans.of_plain {k : Kind} (h : k.IsPlain) {i j : Nat} : k.Spans i j :=
  ⟨h.toIsProper, fun attaches => by simp [h.plain] at attaches⟩

theorem Kind.IsProper.spans {k : Kind} (h : k.IsProper) {i j : Nat} (lt : i < j) : k.Spans i j :=
  ⟨h, fun _ => lt⟩

namespace Parser

/-- When a called rule or list is safe. -/
structure Guards where
  rule : (r : Rule) → (fresh : Prop) → (depth : Nat) → Frame → Prop
  list : (f : Fragment) → (depth : Nat) → Frame → Prop

/-- Whether a step can be repeated on what it yields without ever running out of fuel. -/
def SafeIterate {σ : Type} (step : σ → Frame → ForInStep σ × Frame) (safe : σ → Frame → Prop) :
    (fuel : Nat) → σ → Frame → Prop
  | 0, _, _ => False
  | fuel + 1, a, s =>
    safe a s ∧ ∀ b, (step a s).1 = .yield b → SafeIterate step safe fuel b (step a s).2

/-- Whether the run of a program is safe. `fresh` says that a node was opened since the nesting step
around, and nesting steps are taken at `allowed` depths only. -/
def Safe (input : Input) (allowed : Nat → Prop) (d : Drafters) (g : Guards) {α : Type} :
    Parser α → (fresh : Prop) → (depth : Nat) → Frame → Prop
  | done _, _, _, _ => True
  | andThen p next, fresh, depth, s =>
    p.Safe input allowed d g fresh depth s ∧
      (next (p.draft input d depth s).1).Safe input allowed d g fresh depth
        (p.draft input d depth s).2
  | nth n, _, _, s => input.Open s.pos n.val
  | isAhead n _, _, _, s => input.Open s.pos n
  | eat k, _, _, _ => k ≠ .eof
  | bumpAny, _, _, _ => True
  | error _, _, _, _ => True
  | fault _, _, _, _ => False
  | enclose body kind, fresh, depth, s =>
    let made := kind (body.draft input d depth s.opened).1
    body.Safe input allowed d g (fresh ∨ made.isSome) depth s.opened ∧
      ∀ k ∈ made, k.Spans s.pos (body.draft input d depth s.opened).2.pos
  | wrap body, _, depth, s =>
    s.endsInNode ∧ body.Safe input allowed d g True depth s.opened ∧
      (body.draft input d depth s.opened).1.IsProper
  | deeper inner atLimit, fresh, depth, s =>
    fresh ∧ allowed depth ∧
      if nestingLimit ≤ depth then atLimit.Safe input allowed d g False depth s
      else inner.Safe input allowed d g False (depth + 1) s
  | loop a body, fresh, depth, s =>
    SafeIterate (fun a s => (body a).draft input d depth s)
      (fun a s => (body a).Safe input allowed d g fresh depth s) (input.length - s.pos + 1) a s
  | watch body, fresh, depth, s => body.Safe input allowed d g fresh depth s
  | call r, fresh, depth, s => g.rule r fresh depth s
  | list f, _, depth, s => g.list f depth s

/-- When rules and lists are safe with some levels of further ones below them. -/
def guards (input : Input) (allowed : Nat → Prop) : (levels : Nat) → Guards
  | 0 => ⟨fun _ _ _ _ => False, fun _ _ _ => False⟩
  | levels + 1 =>
    let below := guards input allowed levels
    ⟨fun r fresh depth s =>
        r.body.Safe input allowed (drafters input levels) below fresh depth s,
      fun f depth s =>
        input.kind s.pos = .leftBrace ∧
          f.body.Safe input allowed (drafters input levels) below True depth s.opened⟩

theorem Frame.openedAround_of_endsInNode {s : Frame} (h : s.endsInNode) :
    s.openedAround = s.opened := by
  simp [Frame.openedAround, Frame.opened, h]

theorem Frame.closeAround_of_endsInNode {s : Frame} (h : s.endsInNode) (t : Frame) (k : Kind) :
    ∃ inner older, s.row = inner :: older ∧ inner.isNode = true ∧
      s.closeAround t k = ⟨t.pos, .around k inner t.row :: older⟩ := by
  obtain ⟨pos, row⟩ := s
  cases row with
  | nil => simp [endsInNode] at h
  | cons inner older =>
    have node : inner.isNode = true := by simpa [endsInNode] using h
    exact ⟨inner, older, rfl, node, by simp [closeAround, node]⟩

theorem SafeIterate.imp {σ : Type} {step : σ → Frame → ForInStep σ × Frame}
    {safe safe' : σ → Frame → Prop} (h : ∀ a s, safe a s → safe' a s) {fuel : Nat} {a : σ} {s : Frame}
    (hs : SafeIterate step safe fuel a s) : SafeIterate step safe' fuel a s := by
  induction fuel generalizing a s with
  | zero => exact hs
  | succ fuel ih => exact ⟨h _ _ hs.1, fun b hb => ih (hs.2 b hb)⟩

/-- Safety needs no node around where it needs none. -/
theorem Safe.imp_fresh {input : Input} {allowed : Nat → Prop} {d : Drafters} {g : Guards}
    (hg : ∀ r F F' depth s, (F → F') → g.rule r F depth s → g.rule r F' depth s)
    {α : Type} (p : Parser α) {F F' : Prop} (hF : F → F') {depth : Nat} {s : Frame}
    (h : p.Safe input allowed d g F depth s) : p.Safe input allowed d g F' depth s := by
  induction p generalizing F F' depth s with
  | andThen p next ihp ihn => exact ⟨ihp hF h.1, ihn _ hF h.2⟩
  | enclose body kind ih => exact ⟨ih (Or.imp_left hF) h.1, h.2⟩
  | deeper inner atLimit => exact ⟨hF h.1, h.2⟩
  | loop a body ih => exact SafeIterate.imp (fun a s => ih a hF) h
  | watch body ih => exact ih hF h
  | call r => exact hg r F F' depth s hF h
  | _ => exact h

theorem guards_imp_fresh (input : Input) (allowed : Nat → Prop) (levels : Nat) (r : Rule)
    (F F' : Prop) (depth : Nat) (s : Frame) (hF : F → F')
    (h : (guards input allowed levels).rule r F depth s) :
    (guards input allowed levels).rule r F' depth s := by
  induction levels generalizing r F F' depth s with
  | zero => exact h
  | succ levels ih => exact Safe.imp_fresh ih r.body hF h

end Parser

end Verbatim
