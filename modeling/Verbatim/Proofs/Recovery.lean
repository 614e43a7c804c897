import Verbatim.Proofs.Steps

/-!
# Recovery and lists

What is skipped where something is missing, and the lists that many constructs share.
-/
namespace Verbatim.Parser.Site

variable {c : Site} {α : Type}

/-- A token that is neither a barrier nor in the recovery set is skipped. -/
theorem From.recover (cause : Cause) (recovery : KindSet) (s : Spot) :
    c.From (recover cause recovery) s fun _ t =>
      (c.input.kind s.pos).isBarrier = false → recovery.contains (c.input.kind s.pos) = false →
        t.pos = s.pos + 1 := by
  refine (Tells.isAtBraceOrEnd s).bind ((Tells.isAtAny recovery s).bind ?_)
  split
  · next h =>
    refine .error fun hb hr => ?_
    simp [hb, hr] at h
  · next h =>
    have apart : (c.input.kind s.pos).isBarrier = false := by
      rw [Bool.or_eq_true, not_or] at h
      simpa using h.1
    refine .node (by decide) (From.bind (.error (R := fun _ t => t.pos = s.pos) rfl) fun _ t _ ht => ?_)
    refine .bumpAny (fun _ hk => ?_) (fun hk => ?_) fun _ _ => by simp [ht]
    all_goals
      rw [show t.pos = s.pos from ht] at hk
      have input : c.opened.input = c.input := rfl
      rw [input] at hk
      simp [hk, Kind.isBarrier] at apart

theorem calm_recover (cause : Cause) (recovery : KindSet) : c.Calm (recover cause recovery) :=
  fun s => (From.recover cause recovery s).imp fun _ _ _ _ => trivial

theorem calm_skipOne (cause : Cause) : c.Calm (skipOne cause) := calm_recover cause .empty

theorem From.skipOne (cause : Cause) {s : Spot} (h : (c.input.kind s.pos).isBarrier = false) :
    c.From (skipOne cause) s fun _ t => t.pos = s.pos + 1 :=
  (From.recover cause .empty s).imp fun _ _ _ ht => ht h (by simp [KindSet.contains, KindSet.empty])

/-! ## Too deep -/

/-- Where nothing is skipped: at the end, or at a closing delimiter. -/
def endsSkipping : Kind → Bool
  | .eof | .rightParen | .rightBracket | .rightBrace => true
  | _ => false

/-- Where something is to be skipped, it is. -/
theorem moves_of_skips {input : Input} {i n : Nat} (h : input.Skips i n)
    (inside : endsSkipping (input.kind i) = false) : 0 < n := by
  by_contra none
  obtain rfl : n = 0 := by omega
  have stop := h.stop
  rw [Input.unclosed_succ, Nat.add_zero, show input.unclosed i 0 = 0 from rfl] at stop
  generalize input.kind i = k at inside stop
  revert inside stop
  cases k <;> decide

/-- Skipping takes braces as they come, so it is steady only where it does not matter. -/
theorem From.skipBalanced (hd : ¬ c.shallow) (s : Spot) :
    c.From skipBalanced s fun _ t => ∃ n, t.pos = s.pos + n ∧ c.input.Skips s.pos n := by
  -- The counter of the loop is the number of delimiters that were opened and not closed so far.
  let I : Nat → Spot → Prop := fun unclosed t =>
    ∃ n, t.pos = s.pos + n ∧ c.input.Passes s.pos n ∧ c.input.unclosed s.pos n = unclosed
  let R : Nat → Spot → Prop := fun _ t => ∃ n, t.pos = s.pos + n ∧ c.input.Skips s.pos n
  refine .discard (.loop (R := R) I ⟨0, rfl, c.input.passes_zero s.pos, rfl⟩ fun unclosed t _ inv =>
    (Tells.current t).bind ?_)
  obtain ⟨n, pos, passes, count⟩ := inv
  rw [pos]
  have taken (next : Nat) (more : c.input.kind (s.pos + n) ≠ .eof)
      (step : (unclosed : Int) + Input.nesting (c.input.kind (s.pos + n)) = next) :
      c.From (do Parser.bumpAny; return ForInStep.yield next) t (Round I R t) := by
    have counted : c.input.unclosed s.pos (n + 1) = next := by rw [Input.unclosed_succ, count, step]
    refine From.bind (.bumpAny (fun hs => absurd hs hd) (by rwa [pos]) (R := fun _ u => u.pos = t.pos + 1) rfl)
      fun _ u _ hu => .pure ⟨by omega, n + 1, by omega, passes.succ more (by omega), counted⟩
  have stop (ends : c.input.kind (s.pos + n) = .eof ∨
      (unclosed : Int) + Input.nesting (c.input.kind (s.pos + n)) < 0) :
      c.From (Pure.pure (ForInStep.done unclosed)) t (Round I R t) :=
    .pure ⟨n, pos, passes, by rwa [Input.unclosed_succ, count]⟩
  have closing (closes : Input.nesting (c.input.kind (s.pos + n)) = -1) :
      c.From (if (unclosed == 0) = true then Pure.pure (ForInStep.done unclosed) else do
        Parser.bumpAny
        return ForInStep.yield (unclosed - 1)) t (Round I R t) := by
    split
    · next none =>
      rw [beq_iff_eq] at none
      exact stop (.inr (by omega))
    · next some =>
      rw [beq_iff_eq] at some
      refine taken (unclosed - 1) (fun ends => ?_) (by omega)
      rw [ends] at closes
      exact absurd closes (by decide)
  have opening (opens : Input.nesting (c.input.kind (s.pos + n)) = 1) :
      c.From (do Parser.bumpAny; return ForInStep.yield (unclosed + 1)) t (Round I R t) := by
    refine taken (unclosed + 1) (fun ends => ?_) (by omega)
    rw [ends] at opens
    exact absurd opens (by decide)
  split
  · next hk => exact stop (.inl hk)
  · next hk => exact opening (by rw [hk]; rfl)
  · next hk => exact opening (by rw [hk]; rfl)
  · next hk => exact opening (by rw [hk]; rfl)
  · next hk => exact closing (by rw [hk]; rfl)
  · next hk => exact closing (by rw [hk]; rfl)
  · next hk => exact closing (by rw [hk]; rfl)
  · next hk _ _ _ _ _ _ =>
    refine taken unclosed hk ?_
    generalize c.input.kind (s.pos + n) = k at *
    cases k <;> first | contradiction | exact Int.add_zero _

theorem From.tooDeep (hd : ¬ c.shallow) (s : Spot) :
    c.From tooDeep s fun _ t => ∃ n, t.pos = s.pos + n ∧ c.input.Skips s.pos n := by
  refine .node (by decide) (From.bind (.error (R := fun _ t => t.pos = s.pos) rfl) fun _ t _ ht => ?_)
  refine (From.skipBalanced (c := c.opened) hd t).imp fun _ u _ hu => ?_
  rw [show t.pos = s.pos from ht] at hu
  exact hu

/-- A nesting step: the rule behind it starts without a node around, and at the limit something is
skipped instead. -/
theorem From.nested {rule : Parser α} {s : Spot} {R : Option α → Spot → Prop} (hf : c.fresh)
    (inner : c.nested.From rule s fun a t => R (some a) t)
    (skipped : ∀ t, (endsSkipping (c.input.kind s.pos) = false → s.pos < t.pos) → R none t) :
    c.From (Parser.nested rule) s R := by
  intro room
  refine ⟨hf, ?_, fun hd => ?_⟩
  · exact wp_bind (inner room) fun a t ht => ⟨ht.1, ht.2⟩
  · refine wp_bind (From.tooDeep (c := c.nested) hd s room) fun _ t ⟨steady, n, pos, skips⟩ =>
      ⟨steady, skipped t fun inside => ?_⟩
    have moved := moves_of_skips skips inside
    omega

/-! ## Lists -/

/-- How a construct is closed: by taking a token of kind `ket` if there is one. -/
def Closes (c : Site) (ket : Kind) (last : Parser Bool) : Prop :=
  ∀ (s : Spot) (Q : Bool → Spot → Prop), (∀ b t, t.pos = s.pos ∨
      c.input.isAt s.pos ket = true ∧ t.pos = s.pos + ket.pieces.length → Q b t) → last.wp c s Q

theorem closes_eat {ket : Kind} (he : ket ≠ .eof) : c.Closes ket (eat ket) :=
  fun s _ hQ => ⟨he, fun h => hQ true ⟨_, false⟩ (.inr ⟨h, rfl⟩), fun _ => hQ false s (.inl rfl)⟩

theorem closes_expect {ket : Kind} (he : ket ≠ .eof) : c.Closes ket (expect ket) :=
  fun s _ hQ =>
    ⟨he, fun h => hQ true ⟨_, false⟩ (.inr ⟨h, rfl⟩), fun _ => hQ false ⟨s.pos, false⟩ (.inl rfl)⟩

/-- A closing brace is taken only behind an opening one. -/
theorem takes_enclosed {bra ket : Kind} {body : Parser Unit} {last : Parser Bool}
    (hp : bra.Pairs ket) (hl : c.Closes ket last) (hb : c.Fine body) :
    c.Takes bra (do bump bra; body; discard last) := by
  intro s hs room
  have opening := From.bump (R := fun _ t => t.pos = s.pos + bra.pieces.length) hp.bra_ne hp.bra_ne_eof hs rfl
  refine wp_bind (opening room) fun _ t ⟨ht, hpos⟩ => ?_
  have length := bra.length_pieces_pos
  refine wp_bind (hb t (by omega) (by omega)) fun _ u ⟨hu, _⟩ => hl u _ fun b v hv => ?_
  have le := hu.le
  rcases hv with hv | ⟨hat, hv⟩
  · exact ⟨hv ▸ ht.trans hu, by omega⟩
  · refine ⟨?_, by omega⟩
    by_cases hr : ket = .rightBrace
    · -- The brace that is closed here is the one that was opened first.
      obtain rfl := hp.brace hr
      subst hr
      rw [Input.isAt_simple (k := .leftBrace) rfl, beq_iff_eq] at hs
      rw [Input.isAt_simple (k := .rightBrace) rfl, beq_iff_eq] at hat
      simp only [Kind.pieces, List.length_singleton] at hpos hv
      refine ⟨by omega, fun hsh m hi hj => ?_⟩
      rcases Nat.lt_or_ge u.pos m with last | before
      · obtain rfl : m = u.pos + 1 := by omega
        have between := hu.keeps hsh u.pos le (Nat.le_refl _)
        rw [hpos, Input.balance_succ, hs] at between
        rw [Input.balance_succ, hat]
        simp only [Input.weight] at between ⊢
        omega
      · exact (ht.trans hu).keeps hsh m hi before
    · rw [hv]
      exact (ht.trans hu).trans (steady_take hr hp.ket_ne_eof hat)

/-- The program takes an opening token, runs on in between, and asks for a closing token at its end. -/
def Encloses (c : Site) (bra ket : Kind) (p : Parser Unit) : Prop :=
  ∃ body : Parser Unit, p = (do bump bra; body; discard (expect ket)) ∧ c.Fine body

theorem Encloses.takes {bra ket : Kind} {p : Parser Unit} (h : c.Encloses bra ket p)
    (hp : bra.Pairs ket) : c.Takes bra p := by
  obtain ⟨body, rfl, hb⟩ := h
  exact takes_enclosed hp (closes_expect hp.ket_ne_eof) hb

/-- A list whose elements may call rules. -/
theorem encloses_delimited {bra ket delim : Kind} {what : Expectation} {first recovery : KindSet}
    {element : Bool → Parser Bool} (hd : delim.IsOrdinary)
    (he : ∀ isFirst, c.Fine (element isFirst)) :
    c.Encloses bra ket (delimited bra ket delim what first recovery element) := by
  refine ⟨_, rfl, .discard fun s hs => ?_⟩
  refine .loop (fun _ _ => True) trivial fun isFirst t ht _ => ?_
  have moved : c.floor ≤ 2 * t.pos := by have := ht.le; omega
  refine (Tells.isAt ket t).bind ((Tells.isAt .eof t).bind ?_)
  split
  · exact .pure trivial
  refine (Tells.isAt delim t).bind ?_
  split
  · next at_delim =>
    have stray : c.Takes delim (node .error do expected what; bump delim) :=
      .node (by decide) fun u hu => (From.error rfl (R := fun _ v => v.pos = u.pos)).bind fun _ v _ hv => by
        refine (takes_bump hd v (by rw [hv]; exact hu)).imp fun _ w _ hw => ?_
        rw [← show v.pos = u.pos from hv]
        exact hw
    exact (stray t at_delim).bind fun _ u _ hu => .pure ⟨hu, trivial⟩
  refine (From.watch (he isFirst t moved)).bind fun (found, took) u hu hmove => ?_
  dsimp only
  split
  · refine (Tells.isAtAny recovery u).bind ((Tells.isAtBraceOrEnd u).bind ?_)
    split
    · exact .pure trivial
    · next hskip =>
      have apart : (c.input.kind u.pos).isBarrier = false := by
        rw [Bool.or_eq_true, not_or] at hskip
        simpa using hskip.2
      refine (From.skipOne _ apart).bind fun _ v _ hv => .pure ⟨?_, trivial⟩
      have := hu.le
      have : v.pos = u.pos + 1 := hv
      omega
  · next hfound =>
    have took_some : t.pos < u.pos := hmove.2.1 (by
      rw [Bool.or_eq_true, not_or] at hfound
      simpa using hfound.2)
    refine (calm_eat hd u).bind fun more v hv _ => ?_
    have le := hv.le
    split
    · exact .pure ⟨by omega, trivial⟩
    refine (Tells.isAtAny first v).bind ?_
    split
    · refine ((calm_expect hd).discard v).bind fun _ w hw _ => .pure ⟨?_, trivial⟩
      have := hw.le
      omega
    · exact .pure trivial

theorem takes_delimited {bra ket delim : Kind} {what : Expectation} {first recovery : KindSet}
    {element : Bool → Parser Bool} (hp : bra.Pairs ket) (hd : delim.IsOrdinary)
    (he : ∀ isFirst, c.Fine (element isFirst)) :
    c.Takes bra (delimited bra ket delim what first recovery element) :=
  (encloses_delimited hd he).takes hp

end Verbatim.Parser.Site
