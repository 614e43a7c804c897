import Verbatim.Proofs.Safe

/-!
# What a program needs, and where it ends

The weakest precondition of a program, read off its steps, for the place where it starts: that its run
is safe, and that it ends in a given condition. A rule called by name is taken to do what is asked of it
by `Rule.Ensures`; that it does is shown once for each rule, and the circle is closed by counting down
the tokens in front of it.
-/
namespace Verbatim

namespace Rule

/-- Rules that start with a nesting step. -/
def startsNested : Rule → Prop
  | type _ | pattern | expression _ _ => True
  | _ => False

/-- The token that a rule must stand at. -/
def Requires (input : Input) : (r : Rule) → (i : Nat) → Prop
  | letStatement, i => input.kind i = .letKw
  | ifExpression, i => input.kind i = .ifKw
  | _, _ => True

/-- What is asked of a rule from place `i` to place `j`: types and expressions take a token where one
starts, an item says whether it took one. -/
def Ensures (input : Input) : (r : Rule) → (i : Nat) → r.Result → (j : Nat) → Prop
  | type _, i, _, j => Parser.typeFirst.contains (input.kind i) → i < j
  | expression _ _, i, _, j => Parser.expressionFirst.contains (input.kind i) → i < j
  | item, i, found, j => if found then i < j else j = i
  | _, _, _, _ => True

end Rule

namespace Parser

/-- Programs only go forward. But for what is skipped at the limit, they close no brace that they did not
open. -/
structure Steady (input : Input) (shallow : Prop) (i j : Nat) : Prop where
  le : i ≤ j
  keeps : shallow → input.KeepsOpen i j

theorem Steady.refl (input : Input) (shallow : Prop) (i : Nat) : Steady input shallow i i :=
  ⟨Nat.le_refl i, fun _ => .refl input i⟩

theorem Steady.trans {input : Input} {shallow : Prop} {i j k : Nat}
    (h : Steady input shallow i j) (h' : Steady input shallow j k) : Steady input shallow i k :=
  ⟨Nat.le_trans h.le h'.le, fun hs => (h.keeps hs).trans h.le (h'.keeps hs)⟩

/-- Where a program stands: the place, and whether a node was completed there last. -/
structure Spot where
  pos : Nat
  ready : Bool

/-- What a program stands in. -/
structure Site where
  input : Input
  /-- No nesting step of the run comes at the limit. -/
  shallow : Prop
  /-- Twice the first place from which on rules may be called, which counts the place and the two levels
  of callees that a token pays for. -/
  floor : Nat
  /-- A node was opened since the nesting step around. -/
  fresh : Prop

namespace Site

/-- The same inside of a node. -/
def opened (c : Site) : Site := { c with fresh := True }

/-- The same behind a nesting step. -/
def nested (c : Site) : Site := { c with fresh := False }

@[simp] theorem opened_input (c : Site) : c.opened.input = c.input := rfl

@[simp] theorem nested_input (c : Site) : c.nested.input = c.input := rfl

abbrev Steady (c : Site) (i j : Nat) : Prop := Parser.Steady c.input c.shallow i j

end Site

/-- The weakest precondition under which `p` runs safely from `s` and ends in `Q`. -/
def wp (c : Site) {α : Type} : Parser α → (s : Spot) → (Q : α → Spot → Prop) → Prop
  | done a, s, Q => Q a s
  | andThen p next, s, Q => p.wp c s fun a t => (next a).wp c t Q
  | nth n, s, Q => c.input.Open s.pos n.val ∧ Q (c.input.kind (s.pos + n.val)) s
  | isAhead n k, s, Q => c.input.Open s.pos n ∧ Q (c.input.isAt (s.pos + n) k) s
  | eat k, s, Q =>
    k ≠ .eof ∧ (c.input.isAt s.pos k = true → Q true ⟨s.pos + k.pieces.length, false⟩) ∧
      (c.input.isAt s.pos k = false → Q false s)
  | bumpAny, s, Q =>
    (c.input.kind s.pos ≠ .eof → Q () ⟨s.pos + 1, false⟩) ∧ (c.input.kind s.pos = .eof → Q () s)
  | error _, s, Q => Q () ⟨s.pos, false⟩
  | fault _, _, _ => False
  | enclose body kind, s, Q =>
    ∃ kept : Prop, body.wp { c with fresh := c.fresh ∨ kept } ⟨s.pos, false⟩ fun a t =>
      match kind a with
      | some k => k.Spans s.pos t.pos ∧ c.Steady s.pos t.pos ∧ Q a ⟨t.pos, true⟩
      | none => ¬ kept ∧ Q a ⟨t.pos, false⟩
  | wrap body, s, Q =>
    s.ready = true ∧ body.wp c.opened ⟨s.pos, false⟩ fun k t =>
      k.IsProper ∧ c.Steady s.pos t.pos ∧ Q k ⟨t.pos, true⟩
  | deeper inner atLimit, s, Q =>
    c.fresh ∧ inner.wp c.nested s Q ∧ (¬ c.shallow → atLimit.wp c.nested s Q)
  | loop a body, s, Q =>
    ∃ I : _ → Spot → Prop, I a s ∧ ∀ b t, I b t → (body b).wp c t fun r u =>
      match r with
      | .done b => Q b u
      | .yield b => t.pos < u.pos ∧ I b u
  | watch body, s, Q => body.wp c s fun a t => Q (a, t.pos != s.pos) t
  | call r, s, Q =>
    c.floor ≤ 2 * s.pos ∧ (r.startsNested → c.fresh) ∧ r.Requires c.input s.pos ∧
      ∀ a j, c.Steady s.pos j → r.Ensures c.input s.pos a j → Q a ⟨j, false⟩
  | list _, s, Q =>
    c.floor ≤ 2 * s.pos + 1 ∧ c.input.kind s.pos = .leftBrace ∧
      ∀ j, c.Steady s.pos j → s.pos < j → Q () ⟨j, true⟩

theorem wp_mono {c : Site} {α : Type} {p : Parser α} {s : Spot} {Q Q' : α → Spot → Prop}
    (hQ : ∀ a t, Q a t → Q' a t) (h : p.wp c s Q) : p.wp c s Q' := by
  induction p generalizing c s with
  | done a => exact hQ _ _ h
  | andThen p next ihp ihn => exact ihp (fun a t => ihn a hQ) h
  | nth n => exact ⟨h.1, hQ _ _ h.2⟩
  | isAhead n k => exact ⟨h.1, hQ _ _ h.2⟩
  | eat k => exact ⟨h.1, fun hk => hQ _ _ (h.2.1 hk), fun hk => hQ _ _ (h.2.2 hk)⟩
  | bumpAny => exact ⟨fun hk => hQ _ _ (h.1 hk), fun hk => hQ _ _ (h.2 hk)⟩
  | error cause => exact hQ _ _ h
  | fault what => exact h
  | enclose body kind ih =>
    obtain ⟨kept, h⟩ := h
    refine ⟨kept, ih (fun a t ht => ?_) h⟩
    cases hk : kind a with
    | none =>
      simp only [hk] at ht ⊢
      exact ⟨ht.1, hQ _ _ ht.2⟩
    | some k =>
      simp only [hk] at ht ⊢
      exact ⟨ht.1, ht.2.1, hQ _ _ ht.2.2⟩
  | wrap body ih => exact ⟨h.1, ih (fun k t ht => ⟨ht.1, ht.2.1, hQ _ _ ht.2.2⟩) h.2⟩
  | deeper inner atLimit ihi iha => exact ⟨h.1, ihi hQ h.2.1, fun hs => iha hQ (h.2.2 hs)⟩
  | loop a body ih =>
    obtain ⟨I, start, round⟩ := h
    refine ⟨I, start, fun b t hb => ih b (fun r u hr => ?_) (round b t hb)⟩
    cases r with
    | done b => exact hQ _ _ hr
    | yield b => exact hr
  | watch body ih => exact ih (fun a t => hQ _ _) h
  | call r => exact ⟨h.1, h.2.1, h.2.2.1, fun a j hj he => hQ _ _ (h.2.2.2 a j hj he)⟩
  | list f => exact ⟨h.1, h.2.1, fun j hj hlt => hQ _ _ (h.2.2 j hj hlt)⟩

theorem wp_bind {c : Site} {α β : Type} {p : Parser α} {next : α → Parser β} {s : Spot}
    {M : α → Spot → Prop} {Q : β → Spot → Prop} (hp : p.wp c s M)
    (hn : ∀ a t, M a t → (next a).wp c t Q) : (p >>= next).wp c s Q :=
  wp_mono (p := p) hn hp

/-! ## Judgements -/

namespace Site

variable {c : Site} {α β σ : Type}

/-- From `s` on the program runs safely and steadily, and ends in `R`. -/
def From (c : Site) (p : Parser α) (s : Spot) (R : α → Spot → Prop) : Prop :=
  c.floor ≤ 2 * s.pos + 2 → p.wp c s fun a t => c.Steady s.pos t.pos ∧ R a t

/-- The program only reads: from `s` on it yields `a` and leaves everything as it is. -/
def Tells (c : Site) (p : Parser α) (s : Spot) (a : α) : Prop := ∀ Q, Q a s → p.wp c s Q

/-- The program runs from anywhere. -/
def Calm (c : Site) (p : Parser α) : Prop := ∀ s, c.From p s fun _ _ => True

/-- The program runs from wherever rules may be called. -/
def Fine (c : Site) (p : Parser α) : Prop :=
  ∀ s : Spot, c.floor ≤ 2 * s.pos → c.From p s fun _ _ => True

/-- The program runs wherever a token of kind `k` is, and takes it. -/
def Takes (c : Site) (k : Kind) (p : Parser α) : Prop :=
  ∀ s : Spot, c.input.isAt s.pos k = true → c.From p s fun _ t => s.pos < t.pos

theorem Calm.from {p : Parser α} (h : c.Calm p) (s : Spot) : c.From p s fun _ _ => True := h s

theorem Fine.from {p : Parser α} (h : c.Fine p) {s : Spot} (hs : c.floor ≤ 2 * s.pos) :
    c.From p s fun _ _ => True := h s hs

theorem Takes.from {k : Kind} {p : Parser α} (h : c.Takes k p) {s : Spot}
    (hs : c.input.isAt s.pos k = true) : c.From p s fun _ t => s.pos < t.pos := h s hs

theorem Calm.fine {p : Parser α} (h : c.Calm p) : c.Fine p := fun s _ => h s

theorem From.imp {p : Parser α} {s : Spot} {R R' : α → Spot → Prop} (h : c.From p s R)
    (hR : ∀ a t, c.Steady s.pos t.pos → R a t → R' a t) : c.From p s R' :=
  fun hf => wp_mono (fun a t ht => ⟨ht.1, hR a t ht.1 ht.2⟩) (h hf)

theorem From.pure {a : α} {s : Spot} {R : α → Spot → Prop} (h : R a s) :
    c.From (Pure.pure a) s R :=
  fun _ => ⟨Steady.refl _ _ s.pos, h⟩

theorem From.bind {p : Parser α} {next : α → Parser β} {s : Spot} {M : α → Spot → Prop}
    {R : β → Spot → Prop} (hp : c.From p s M)
    (hn : ∀ a t, c.Steady s.pos t.pos → M a t → c.From (next a) t R) : c.From (p >>= next) s R := by
  intro hf
  refine wp_bind (hp hf) fun a t ht => ?_
  have step := hn a t ht.1 ht.2 (by have := ht.1.le; omega)
  exact wp_mono (fun b u hu => ⟨ht.1.trans hu.1, hu.2⟩) step

theorem From.discard {p : Parser α} {s : Spot} {R : Unit → Spot → Prop}
    (h : c.From p s fun _ t => R () t) : c.From (Functor.discard p) s R :=
  h.bind fun _ _ _ ht => .pure ht

theorem From.map {p : Parser α} {f : α → β} {s : Spot} {R : β → Spot → Prop}
    (h : c.From p s fun a t => R (f a) t) : c.From (f <$> p) s R :=
  h.bind fun _ _ _ ht => .pure ht

theorem Tells.from {p : Parser α} {s : Spot} {a : α} (h : c.Tells p s a) :
    c.From p s fun b t => b = a ∧ t = s :=
  fun _ => h _ ⟨Steady.refl _ _ s.pos, rfl, rfl⟩

theorem Tells.bind {p : Parser α} {next : α → Parser β} {s : Spot} {a : α} {R : β → Spot → Prop}
    (hp : c.Tells p s a) (hn : c.From (next a) s R) : c.From (p >>= next) s R :=
  fun hf => hp _ (hn hf)

theorem Tells.andThen {p : Parser α} {next : α → Parser β} {s : Spot} {a : α} {b : β}
    (hp : c.Tells p s a) (hn : c.Tells (next a) s b) : c.Tells (p >>= next) s b :=
  fun Q hQ => hp _ (hn Q hQ)

theorem Tells.pure (a : α) (s : Spot) : c.Tells (Pure.pure a) s a := fun _ hQ => hQ

theorem Tells.nth {n : Fin 4} {s : Spot} (h : c.input.Open s.pos n.val) :
    c.Tells (nth n) s (c.input.kind (s.pos + n.val)) := fun _ hQ => ⟨h, hQ⟩

theorem Tells.current (s : Spot) : c.Tells current s (c.input.kind s.pos) :=
  fun _ hQ => ⟨Input.open_zero _, hQ⟩

theorem Tells.isAhead {n : Nat} {k : Kind} {s : Spot} (h : c.input.Open s.pos n) :
    c.Tells (isAhead n k) s (c.input.isAt (s.pos + n) k) := fun _ hQ => ⟨h, hQ⟩

theorem Tells.isAt (k : Kind) (s : Spot) : c.Tells (isAt k) s (c.input.isAt s.pos k) :=
  fun _ hQ => ⟨Input.open_zero _, hQ⟩

theorem Tells.isNth {n : Fin 4} {k : Kind} {s : Spot} (h : c.input.Open s.pos n.val) :
    c.Tells (isNth n k) s (c.input.kind (s.pos + n.val) == k) :=
  (Tells.nth h).andThen (.pure _ s)

theorem Tells.isAtAny (ks : KindSet) (s : Spot) :
    c.Tells (isAtAny ks) s (ks.contains (c.input.kind s.pos)) :=
  (Tells.current s).andThen (.pure _ s)

theorem Tells.isAtBraceOrEnd (s : Spot) :
    c.Tells isAtBraceOrEnd s (c.input.kind s.pos).isBarrier := by
  refine (Tells.current s).andThen ?_
  generalize c.input.kind s.pos = k
  cases k <;> exact .pure _ s

/-- The second test may rely on the first. -/
theorem Tells.both {p q : Parser Bool} {s : Spot} {a b : Bool} (hp : c.Tells p s a)
    (hq : a = true → c.Tells q s b) : c.Tells (both p q) s (a && b) := by
  refine hp.andThen ?_
  cases a with
  | false => exact .pure false s
  | true => exact hq rfl

theorem Calm.bind {p : Parser α} {next : α → Parser β} (hp : c.Calm p)
    (hn : ∀ a, c.Calm (next a)) : c.Calm (p >>= next) :=
  fun s => (hp s).bind fun a t _ _ => hn a t

theorem Fine.bind {p : Parser α} {next : α → Parser β} (hp : c.Fine p)
    (hn : ∀ a, c.Fine (next a)) : c.Fine (p >>= next) :=
  fun s hs => (hp s hs).bind fun a t ht _ => hn a t (by have := ht.le; omega)

/-- Behind the token rules may be called. -/
theorem Takes.bind {k : Kind} {p : Parser α} {next : α → Parser β} (hp : c.Takes k p)
    (hn : ∀ a, c.Fine (next a)) : c.Takes k (p >>= next) := by
  intro s hk hf
  refine From.bind (hp s hk) (fun a t ht hlt => ?_) hf
  have moved : c.floor ≤ 2 * t.pos := by omega
  exact (hn a t moved).imp fun b u hu _ => Nat.lt_of_lt_of_le hlt hu.le

theorem Calm.pure (a : α) : c.Calm (Pure.pure a) := fun _ => .pure trivial

theorem Calm.discard {p : Parser α} (h : c.Calm p) : c.Calm (Functor.discard p) :=
  fun s => .discard (h s)

theorem Fine.discard {p : Parser α} (h : c.Fine p) : c.Fine (Functor.discard p) :=
  fun s hs => .discard (h s hs)

theorem Takes.discard {k : Kind} {p : Parser α} (h : c.Takes k p) : c.Takes k (Functor.discard p) :=
  fun s hs => .discard (h s hs)

end Site

end Parser

end Verbatim
