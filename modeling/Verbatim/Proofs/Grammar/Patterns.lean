import Verbatim.Parser.Patterns
import Verbatim.Proofs.Grammar.Types

/-!
# Patterns and parameters run safely
-/
namespace Verbatim.Parser.Site

variable {c : Site}

/-- A literal, if one is there; else nothing is touched. -/
theorem From.literal? (s : Spot) : c.From literal? s fun a t =>
    if literalFirst.contains (c.input.kind s.pos) = true
    then a = some .literal ∧ t.ready = true ∧ s.pos < t.pos else a = none ∧ t = s := by
  refine (Tells.isAtAny literalFirst s).bind ?_
  split
  · next h =>
    have apart : (c.input.kind s.pos).isBarrier = false := by
      generalize c.input.kind s.pos = k at h
      revert h
      cases k <;> decide
    refine From.bind (M := fun k t => k = .literal ∧ t.ready = true ∧ s.pos < t.pos)
      (.nodeOf (From.bind (M := fun _ t => s.pos < t.pos) (.bumpAny ?_ ?_ (Nat.lt_succ_self _))
        fun _ _ _ lt => .pure ⟨.of_plain (by decide), rfl, rfl, lt⟩)) fun _ _ _ ht => .pure ⟨by rw [ht.1], ht.2⟩
    · intro _ hk
      rw [show c.input.kind s.pos = .rightBrace from hk] at apart
      contradiction
    · intro hk
      rw [show c.input.kind s.pos = .eof from hk] at apart
      contradiction
  · exact .pure ⟨rfl, rfl⟩

theorem fine_alternatives (hf : c.fresh) : c.Fine alternatives := by
  intro s hs
  refine .discard (.nodeIf False ?_)
  let inside : Site := { c with fresh := c.fresh ∨ False }
  have pattern : inside.Fine (call .pattern) := fine_pattern (.inl hf)
  refine ((calm_eat (c := inside) (by decide)).from _).bind fun leading t ht _ => ?_
  have moved : inside.floor ≤ 2 * t.pos := by
    have := ht.le
    change c.floor ≤ _
    simp only at this
    omega
  refine (pattern.from moved).bind fun _ u hu _ => ?_
  refine (Tells.isAt .pipe u).bind ?_
  split
  · refine From.bind ((fine_while fun v hv => ?_ : inside.Fine (while_ do
        if !(← eat .pipe) then return false
        call .pattern
        return true)).from (by have := hu.le; omega)) fun _ _ _ _ => .pure ⟨.of_plain (by decide), trivial⟩
    refine From.bind (M := fun more w => more = true → v.pos < w.pos) (.eat (by decide) (by decide)
      (fun _ _ => Nat.lt_succ_self _) nofun) fun more w hw taken => ?_
    split
    · exact .pure nofun
    · next h =>
      have lt := taken (by simpa using h)
      refine (pattern.from (by omega)).bind fun _ x hx _ => .pure fun _ => ?_
      exact Nat.lt_of_lt_of_le lt hx.le
  · exact .pure ⟨id, trivial⟩

theorem takes_patternList (hf : c.fresh) : c.Takes .leftParen patternList := by
  refine takes_delimited (by decide) (by decide) fun _ => (calm_isAtAny _).fine.bind fun b => ?_
  cases b with
  | false => exact (Calm.pure false).fine
  | true => exact (fine_alternatives hf).bind fun _ => (Calm.pure true).fine

theorem calm_identPattern : c.Calm identPattern := by
  refine Calm.node (by decide) ((calm_eat (by decide)).discard.bind fun _ => (calm_eat (by decide)).discard.bind fun _ => ?_)
  exact (calm_nameOr _).bind fun _ => (fine_pattern trivial).whenEat (by decide)

theorem calm_pathPattern : c.Calm pathPattern := by
  intro s
  refine (From.expressionPath s).bind fun _ t _ ht => .discard (.wrap ht.1 ?_)
  refine (Tells.isAt .leftParen _).bind ?_
  split
  · next h =>
    refine ((takes_patternList (c := c.opened) trivial).from h).bind fun _ _ _ _ => ?_
    exact .pure ⟨by decide, trivial⟩
  · exact .pure ⟨by decide, trivial⟩

theorem open_one {i : Nat} (h : (c.input.kind i).isStop = false) : c.input.Open i 1 := by
  intro m hm
  obtain rfl : m = 0 := by omega
  exact h

theorem Tells.atBinding (s : Spot) : ∃ b, c.Tells atBinding s b := by
  have word (k : Kind) (h : c.input.kind s.pos = k) (hk : k.isStop = false) :
      c.Tells (do return !(← Parser.isAhead 1 .colon2) && (← Parser.nth 1) != .leftParen) s
        (!c.input.isAt (s.pos + 1) .colon2 && c.input.kind (s.pos + 1) != .leftParen) := by
    have ahead := open_one (c := c) (i := s.pos) (by rw [h]; exact hk)
    exact (Tells.isAhead ahead).andThen ((Tells.nth (n := 1) ahead).andThen (.pure _ s))
  generalize hk : c.input.kind s.pos = k
  have tells := Tells.current (c := c) s
  rw [hk] at tells
  by_cases h : k = .ident ∨ k = .selfKw
  · rcases h with rfl | rfl <;> exact ⟨_, tells.andThen (word _ hk rfl)⟩
  · refine ⟨_, tells.andThen (b := k == .refKw || k == .mutKw) ?_⟩
    split
    · simp at h
    · simp at h
    · exact .pure true s
    · exact .pure true s
    · next h h' =>
      rw [beq_eq_false_iff_ne.mpr h, beq_eq_false_iff_ne.mpr h']
      exact .pure false s

theorem calm_singlePattern : c.Calm singlePattern := by
  intro s
  refine (Tells.current s).bind ?_
  split
  · next h => exact ((takes_bump (by decide)).node (by decide) |>.from (Input.isAt_of_kind h rfl)).imp fun _ _ _ _ => trivial
  · next h =>
    refine (Takes.from (.node (by decide) ((takes_bump (by decide)).bind fun _ => ?_)) (Input.isAt_of_kind h rfl)).imp
      fun _ _ _ _ => trivial
    exact (calm_eat (by decide)).discard.fine.bind fun _ => fine_pattern trivial
  · next h =>
    refine (Takes.from (.node (by decide) (takes_patternList trivial)) (Input.isAt_of_kind h rfl)).imp
      fun _ _ _ _ => trivial
  · refine Takes.ifAt (Takes.node (by decide) (takes_bump (by decide))) (fun t => ?_) s
    obtain ⟨b, binding⟩ := Tells.atBinding (c := c) t
    refine binding.bind ?_
    split
    · exact calm_identPattern t
    refine (Tells.isAt _ t).bind ((Tells.isAtAny _ t).bind ?_)
    split
    · refine Calm.node (by decide) ((calm_eat (by decide)).discard.bind fun _ => ?_) t
      refine Calm.whenNot (fun u => ?_) (calm_expected _)
      exact (From.literal? u).bind fun _ _ _ _ => .pure trivial
    refine (Tells.atPath t).bind ?_
    split
    · exact calm_pathPattern t
    · exact calm_recover _ _ t

/-- The rule for patterns. -/
theorem From.pattern (hf : c.fresh) (s : Spot) : c.From pattern s fun _ _ => True :=
  .discard (.nested hf ((calm_singlePattern (c := c.nested)).from s) fun _ _ => trivial)

/-! ## Parameters -/

theorem Tells.referenceMarks (s : Spot) : ∃ marks : Fin 4, c.Tells referenceMarks s marks ∧
    marks.val ≤ 2 ∧ c.input.Open s.pos marks.val := by
  by_cases ha : c.input.kind s.pos = .amp
  · have ahead : c.input.Open s.pos 1 := open_one (by rw [ha]; rfl)
    have next := Tells.nth (n := 1) ahead
    refine ⟨if c.input.kind (s.pos + 1) == .lifetimeIdent then 2 else 1,
      (Tells.current s).andThen ?_, ?_, ?_⟩
    · rw [ha]
      refine next.andThen ?_
      change c.Tells (if (c.input.kind (s.pos + 1) == .lifetimeIdent) = true then Pure.pure 2
        else Pure.pure 1) s _
      split <;> exact .pure _ s
    · split <;> decide
    · split
      · next hl =>
        intro m hm
        obtain rfl | rfl : m = 0 ∨ m = 1 := by
          simp at hm
          omega
        · exact ahead 0 Nat.one_pos
        · rw [beq_iff_eq.mp hl]
          rfl
      · exact ahead
  · refine ⟨0, (Tells.current s).andThen ?_, by decide, Input.open_zero _⟩
    rw [if_pos (by simpa using ha)]
    exact .pure 0 s

theorem Tells.atSelfParam (s : Spot) : ∃ b, c.Tells atSelfParam s b := by
  obtain ⟨marks, tells, le, ahead⟩ := Tells.referenceMarks (c := c) s
  have word {n : Fin 4} {k : Kind} (h : c.input.Open s.pos n.val)
      (hk : c.input.kind (s.pos + n.val) = k) (apart : k.isStop = false) :
      c.input.Open s.pos (n.val + 1) := by
    intro m hm
    rcases Nat.lt_succ_iff_lt_or_eq.mp hm with lt | rfl
    · exact h m lt
    · rw [hk]
      exact apart
  have last (n : Fin 4) (h : c.input.Open s.pos n.val) : ∃ b, c.Tells (do
      if ← Parser.isNth n .selfKw then return !(← Parser.isAhead (n.val + 1) .colon2)
      return false) s b := by
    by_cases hk : c.input.kind (s.pos + n.val) = .selfKw
    · refine ⟨!c.input.isAt (s.pos + (n.val + 1)) .colon2, (Tells.isNth h).andThen ?_⟩
      rw [hk]
      exact (Tells.isAhead (word h hk rfl)).andThen (.pure _ s)
    · refine ⟨false, (Tells.isNth h).andThen ?_⟩
      rw [beq_eq_false_iff_ne.mpr hk]
      exact .pure false s
  by_cases hm : c.input.kind (s.pos + marks.val) = .mutKw
  · have next : (marks + 1).val = marks.val + 1 := Fin.val_add_one_of_lt (by
      rw [Fin.lt_def]
      exact Nat.lt_succ_of_le le)
    obtain ⟨b, rest⟩ := last (marks + 1) (next ▸ word ahead hm rfl)
    refine ⟨b, tells.andThen ((Tells.isNth ahead).andThen ?_)⟩
    rw [hm]
    exact rest
  · obtain ⟨b, rest⟩ := last marks ahead
    refine ⟨b, tells.andThen ((Tells.isNth ahead).andThen ?_)⟩
    rw [beq_eq_false_iff_ne.mpr hm]
    exact rest

theorem calm_selfParam : c.Calm selfParam := by
  refine Calm.node (by decide) (Calm.bind (fun s => ?_) fun _ => (calm_eat (by decide)).discard.bind fun _ =>
    calm_name.bind fun _ => (fine_type trivial).whenEat (by decide))
  refine .when (M := fun b t => b = true → c.input.isAt t.pos .lifetimeIdent = true) ?_
    (fun t _ h => (takes_lifetime.from (h rfl)).imp fun _ _ _ _ => trivial) fun _ _ => trivial
  refine ((calm_eat (by decide)).from s).bind fun taken t _ _ => ?_
  cases taken with
  | false => exact .pure nofun
  | true =>
    refine (Tells.isAt _ t).from.imp fun _ _ _ ⟨hb, ht⟩ h => ?_
    subst ht hb
    exact h

theorem fine_param : c.Fine param := by
  refine (calm_isAtAny _).fine.bind fun b => ?_
  cases b with
  | false => exact (Calm.pure false).fine
  | true =>
    refine Fine.bind (.node (by decide) ((fine_pattern trivial).bind fun _ => ?_)) fun _ => (Calm.pure true).fine
    exact (calm_expect (by decide)).fine.when (fine_type trivial)

theorem takes_paramList : c.Takes .leftParen paramList := by
  refine Takes.node (by decide) (takes_delimited (by decide) (by decide) fun isFirst s hs => ?_)
  obtain ⟨b, tells⟩ := Tells.atSelfParam (c := c.opened) s
  refine ((Tells.pure isFirst s).both fun _ => tells).bind ?_
  split
  · exact (calm_selfParam.bind fun _ => .pure true).from s
  · exact fine_param.from hs

theorem fine_closureParam (isFirst : Bool) : c.Fine (closureParam isFirst) := by
  refine (calm_isAtAny _).fine.bind fun b => ?_
  cases b with
  | false => exact (Calm.pure false).fine
  | true =>
    refine Fine.bind (.node (by decide) ((fine_pattern trivial).bind fun _ => ?_)) fun _ => (Calm.pure true).fine
    exact ((fine_type trivial).whenEat (by decide)).fine

theorem takes_closureParamList : c.Takes .pipe closureParamList := by
  refine Takes.node (by decide) fun s hs => (Tells.isAt .pipe2 s).bind ?_
  split
  · next h => exact (takes_bump (by decide)).from h
  · exact (takes_delimited (by decide) (by decide) fine_closureParam).from hs

end Verbatim.Parser.Site
