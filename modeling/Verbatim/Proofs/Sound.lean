import Verbatim.Proofs.Wp

/-!
# Preconditions are sound

A program whose weakest precondition holds runs safely and ends as it says, whatever the depth, if the
callees keep to what is asked of them. Where no nesting step of the run comes at the limit this is known
before: safety is then shown a second time for what it says about braces.
-/
namespace Verbatim.Parser

/-- A frame at a spot. -/
structure Stands (input : Input) (s : Spot) (fr : Frame) : Prop where
  pos : fr.pos = s.pos
  ready : s.ready = true → fr.endsInNode = true
  le : fr.pos ≤ input.length

theorem Stands.opened {input : Input} {s : Spot} {fr : Frame} (h : Stands input s fr) :
    Stands input ⟨s.pos, false⟩ fr.opened :=
  ⟨h.pos, nofun, h.le⟩

/-- The callees of a program do what is asked of them, from where they may be called. `g` is what is to
be shown, `g'` what is known of a run that never comes at the limit. -/
structure Keeps (c : Site) (d : Drafters) (g g' : Guards) : Prop where
  fresh : ∀ r F F' depth fr, (F → F') → g.rule r F depth fr → g.rule r F' depth fr
  rule : ∀ r F depth fr, c.floor ≤ 2 * fr.pos → r.Requires c.input fr.pos →
    fr.pos ≤ c.input.length → (c.shallow → g'.rule r F depth fr) →
      g.rule r r.startsNested depth fr ∧ c.Steady fr.pos (d.rule r depth fr).2.pos ∧
        r.Ensures c.input fr.pos (d.rule r depth fr).1 (d.rule r depth fr).2.pos ∧
          (d.rule r depth fr).2.pos ≤ c.input.length
  list : ∀ f depth fr, c.floor ≤ 2 * fr.pos + 1 → c.input.kind fr.pos = .leftBrace →
    fr.pos ≤ c.input.length → (c.shallow → g'.list f depth fr) →
      g.list f depth fr ∧ c.Steady fr.pos (d.list f depth fr).pos ∧
        fr.pos < (d.list f depth fr).pos ∧
          Stands c.input ⟨(d.list f depth fr).pos, true⟩ (d.list f depth fr)

/-- A loop whose rounds take tokens ends before its fuel does. -/
theorem sound_iterate {input : Input} {σ : Type} {step : σ → Frame → ForInStep σ × Frame}
    {safe known : σ → Frame → Prop} {shallow : Prop} {I Q : σ → Spot → Prop}
    (round : ∀ b t fr, I b t → Stands input t fr → (shallow → known b fr) →
      safe b fr ∧ ∃ u, (match (step b fr).1 with
        | .done b => Q b u
        | .yield b => t.pos < u.pos ∧ I b u) ∧ Stands input u (step b fr).2)
    {stuck : Frame → Frame} {fuel : Nat} {a : σ} {s : Spot} {fr : Frame}
    (hfuel : input.length - fr.pos < fuel) (start : I a s) (hfr : Stands input s fr)
    (hs : shallow → SafeIterate step known fuel a fr) :
    SafeIterate step safe fuel a fr ∧
      ∃ t, Q (iterate step stuck fuel a fr).1 t ∧ Stands input t (iterate step stuck fuel a fr).2 := by
  induction fuel generalizing a s fr with
  | zero => omega
  | succ fuel ih =>
    obtain ⟨safe_round, u, hu, stands⟩ := round a s fr start hfr fun h => (hs h).1
    simp only [SafeIterate, iterate]
    rcases hstep : step a fr with ⟨r, fr'⟩
    cases r with
    | done b =>
      simp only [hstep] at hu stands ⊢
      exact ⟨⟨safe_round, nofun⟩, u, hu, stands⟩
    | yield b =>
      simp only [hstep] at hu stands ⊢
      have forward : input.length - fr'.pos < fuel := by
        have := hfr.pos
        have := stands.pos
        have := stands.le
        omega
      obtain ⟨safe_rest, rest⟩ := ih forward hu.2 stands fun h => by
        have := (hs h).2 b (by rw [hstep])
        rwa [hstep] at this
      refine ⟨⟨safe_round, ?_⟩, rest⟩
      rintro b' ⟨⟩
      exact safe_rest

theorem sound {d : Drafters} {g g' : Guards} {α : Type} (p : Parser α) {c : Site}
    (keeps : Keeps c d g g') {s : Spot} {Q : α → Spot → Prop} (hp : p.wp c s Q) {F : Prop}
    {depth : Nat} {fr : Frame} (hfr : Stands c.input s fr)
    (known : c.shallow → p.Safe c.input (· < nestingLimit) d g' F depth fr) :
    p.Safe c.input (fun _ => True) d g c.fresh depth fr ∧
      ∃ t, Q (p.draft c.input d depth fr).1 t ∧ Stands c.input t (p.draft c.input d depth fr).2 := by
  induction p generalizing c s F depth fr with
  | done a => exact ⟨trivial, s, hp, hfr⟩
  | andThen p next ihp ihn =>
    obtain ⟨safe, t, ht, stands⟩ := ihp keeps hp hfr fun hs => (known hs).1
    obtain ⟨safe', u, hu, stands'⟩ := ihn _ keeps ht stands fun hs => (known hs).2
    exact ⟨⟨safe, safe'⟩, u, hu, stands'⟩
  | nth n =>
    simp only [draft, Safe, hfr.pos]
    exact ⟨hp.1, s, hp.2, hfr⟩
  | isAhead n k =>
    simp only [draft, Safe, hfr.pos]
    exact ⟨hp.1, s, hp.2, hfr⟩
  | eat k =>
    refine ⟨hp.1, ?_⟩
    by_cases h : c.input.isAt s.pos k = true
    · have le := Input.end_le_of_isAt hp.1 h
      simp only [draft, hfr.pos, h, if_true]
      exact ⟨_, hp.2.1 h, ⟨by simp [Frame.take, hfr.pos], nofun, by simpa [Frame.take, hfr.pos]⟩⟩
    · rw [Bool.not_eq_true] at h
      refine ⟨s, ?_, ?_⟩
      · simpa [draft, hfr.pos, h] using hp.2.2 h
      · simpa [draft, hfr.pos, h] using hfr
  | bumpAny =>
    refine ⟨trivial, ?_⟩
    by_cases h : c.input.kind s.pos = .eof
    · refine ⟨s, hp.2 h, ?_⟩
      simpa [draft, hfr.pos, h] using hfr
    · refine ⟨⟨s.pos + 1, false⟩, hp.1 h, ?_⟩
      have := Input.lt_length_of_kind_ne h
      have pos := hfr.pos
      refine ⟨by simp [draft, pos, h, Frame.take], nofun, ?_⟩
      simp only [draft, pos, beq_iff_eq, h, if_false, Frame.take]
      omega
  | error cause => exact ⟨trivial, ⟨s.pos, false⟩, hp, ⟨hfr.pos, nofun, hfr.le⟩⟩
  | fault what => exact absurd hp id
  | enclose body kind ih =>
    obtain ⟨kept, hp⟩ := hp
    obtain ⟨safe, t, ht, stands⟩ :=
      ih (c := { c with fresh := c.fresh ∨ kept }) ⟨keeps.fresh, keeps.rule, keeps.list⟩ hp hfr.opened
        fun hs => (known hs).1
    simp only [draft, Safe]
    cases hk : kind (body.draft c.input d depth fr.opened).1 with
    | none =>
      simp only [hk] at ht ⊢
      refine ⟨⟨Safe.imp_fresh keeps.fresh body ?_ safe, by simp⟩, _, ht.2, ?_⟩
      · rintro (h | h)
        · exact .inl h
        · exact absurd h ht.1
      · exact ⟨stands.pos, nofun, stands.le⟩
    | some k =>
      simp only [hk] at ht ⊢
      refine ⟨⟨Safe.imp_fresh keeps.fresh body (fun _ => .inr rfl) safe, ?_⟩, _, ht.2.2, ?_⟩
      · rintro k' ⟨⟩
        rw [hfr.pos, stands.pos]
        exact ht.1
      · exact ⟨stands.pos, fun _ => rfl, stands.le⟩
  | wrap body ih =>
    have ends := hfr.ready hp.1
    obtain ⟨safe, t, ht, stands⟩ :=
      ih (c := c.opened) ⟨keeps.fresh, keeps.rule, keeps.list⟩ hp.2 hfr.opened
        fun hs => (known hs).2.1
    simp only [draft, Safe, Frame.openedAround_of_endsInNode ends]
    obtain ⟨inner, older, -, -, closed⟩ := Frame.closeAround_of_endsInNode ends
      (body.draft c.input d depth fr.opened).2 (body.draft c.input d depth fr.opened).1
    exact ⟨⟨ends, safe, ht.1⟩, _, ht.2.2, by rw [closed]; exact ⟨stands.pos, fun _ => rfl, stands.le⟩⟩
  | deeper inner atLimit ihi iha =>
    simp only [draft, Safe]
    split
    · next h =>
      have deep : ¬ c.shallow := fun hs => absurd (known hs).2.1 (Nat.not_lt.mpr h)
      obtain ⟨safe, rest⟩ :=
        iha (c := c.nested) (F := False) ⟨keeps.fresh, keeps.rule, keeps.list⟩ (hp.2.2 deep) hfr
          fun hs => absurd hs deep
      exact ⟨⟨hp.1, trivial, safe⟩, rest⟩
    · next h =>
      obtain ⟨safe, rest⟩ :=
        ihi (c := c.nested) (F := False) ⟨keeps.fresh, keeps.rule, keeps.list⟩ hp.2.1 hfr fun hs => by
          have := (known hs).2.2
          rwa [if_neg h] at this
      exact ⟨⟨hp.1, trivial, safe⟩, rest⟩
  | loop a body ih =>
    obtain ⟨I, start, round⟩ := hp
    exact sound_iterate (fun b t fr hb hfr hs => ih b keeps (round b t hb) hfr hs)
      (Nat.lt_succ_self _) start hfr known
  | watch body ih =>
    obtain ⟨safe, t, ht, stands⟩ := ih keeps hp hfr known
    refine ⟨safe, t, ?_, stands⟩
    simpa only [draft, stands.pos, hfr.pos] using ht
  | call r =>
    obtain ⟨floor, nested, requires, hQ⟩ := hp
    obtain ⟨safe, steady, ensures, le⟩ :=
      keeps.rule r F depth fr (hfr.pos ▸ floor) (hfr.pos ▸ requires) hfr.le known
    refine ⟨keeps.fresh r _ _ depth fr nested safe, _, hQ _ _ ?_ ?_, ⟨rfl, nofun, le⟩⟩
    · exact hfr.pos ▸ steady
    · exact hfr.pos ▸ ensures
  | list f =>
    obtain ⟨floor, brace, hQ⟩ := hp
    obtain ⟨safe, steady, lt, stands⟩ :=
      keeps.list f depth fr (hfr.pos ▸ floor) (hfr.pos ▸ brace) hfr.le known
    exact ⟨safe, _, hQ _ (hfr.pos ▸ steady) (hfr.pos ▸ lt), stands⟩

end Verbatim.Parser
