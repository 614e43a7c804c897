import Verbatim.Parser.Types
import Verbatim.Proofs.Grammar.Rules

/-!
# Types, generics and bounds run safely
-/
namespace Verbatim.Parser.Site

variable {c : Site}

theorem typeFirst_of_atPath {i : Nat} (h : c.input.atPath i = true) :
    typeFirst.contains (c.input.kind i) = true := by
  rw [Input.atPath, Bool.or_eq_true] at h
  rcases h with h | h
  · generalize c.input.kind i = k at h
    revert h
    cases k <;> decide
  · rw [Input.head_of_isAt h]
    decide

/-! ## Arguments -/

theorem fine_genericArg (isFirst : Bool) : c.Fine (genericArg isFirst) := by
  refine Takes.ifAtFine ((takes_lifetime.node (by decide)).bind fun _ => (Calm.pure true).fine) ?_
  refine (calm_isAtAny typeFirst).fine.bind fun _ => .ite (.bind ?_ fun _ => (Calm.pure true).fine)
    (Calm.pure false).fine
  exact (fine_type trivial).node (by decide)

theorem takes_genericArgs : c.Takes .leftAngle (delimited .leftAngle .rightAngle .comma .genericArg
    genericArgFirst genericRecovery genericArg) :=
  takes_delimited (by decide) (by decide) fine_genericArg

theorem takes_genericArgList : c.Takes .leftAngle (genericArgList false) := by
  refine Takes.node (by decide) fun s hs => From.bind (M := fun _ t => t = s) ?_ fun _ t _ ht => ?_
  · exact .when (Tells.pure false s).from (fun t _ ht => by simp at ht) fun t ht => ht.2
  · subst ht
    exact takes_genericArgs.from hs

theorem Tells.atTurbofish (s : Spot) : c.Tells atTurbofish s
    (c.input.isAt s.pos .colon2 && c.input.kind (s.pos + 2) == .leftAngle) :=
  .both (.isAt _ s) fun h => .isNth (Input.open_of_isAt (k := .colon2) rfl h)

/-- The brackets of a turbofish stand behind its `::`. -/
theorem From.turbofish {s : Spot} (hc : c.input.isAt s.pos .colon2 = true)
    (ha : c.input.kind (s.pos + 2) = .leftAngle) :
    c.From (genericArgList true) s fun _ t => s.pos < t.pos := by
  refine .node (by decide) (From.bind (M := fun _ t => t.pos = s.pos + 2) ?_ fun _ t _ ht => ?_)
  · refine .when (Tells.pure true _).from (fun t _ ht => ?_) fun t ht => by simp at ht
    obtain ⟨-, rfl⟩ := ht
    exact .bump (by decide) (by decide) hc rfl
  have ht : t.pos = s.pos + 2 := ht
  refine (takes_genericArgs (c := c.opened) t (Input.isAt_of_kind (ht ▸ ha) rfl)).imp fun _ u _ hu => ?_
  show s.pos < u.pos
  omega

theorem calm_turbofish : c.Calm (when atTurbofish (genericArgList true)) := by
  intro s
  refine .when (Tells.atTurbofish s).from (fun t _ ht => ?_) fun _ _ => trivial
  obtain ⟨hb, rfl⟩ := ht
  obtain ⟨hc, ha⟩ := Bool.and_eq_true_iff.mp hb.symm
  exact (From.turbofish hc (by simpa using ha)).imp fun _ _ _ _ => trivial

theorem From.expressionPath (s : Spot) : c.From expressionPath s fun _ t =>
    t.ready = true ∧ (c.input.atPath s.pos = true → s.pos < t.pos) :=
  .pathWith calm_turbofish.fine (fun t _ => ⟨false, .pure false t⟩) s

theorem From.typePath (s : Spot) : c.From typePath s fun _ t =>
    t.ready = true ∧ (c.input.atPath s.pos = true → s.pos < t.pos) :=
  .pathWith (takes_genericArgList.ifAt calm_turbofish).fine (fun t _ => ⟨false, .pure false t⟩) s

theorem From.pathType (s : Spot) : c.From pathType s fun _ t =>
    c.input.atPath s.pos = true → s.pos < t.pos :=
  .node (by decide) ((From.typePath _).imp fun _ _ _ ht => ht.2)

/-! ## Bounds -/

/-- Whether a bound starts at a place. -/
def atBound (input : Input) (i : Nat) : Bool :=
  input.isAt i .lifetimeIdent || input.isAt i .question || input.atPath i || input.isAt i .leftParen

theorem Tells.atTypeBound (s : Spot) : c.Tells atTypeBound s (atBound c.input s.pos) :=
  (Tells.isAt _ s).andThen ((Tells.isAt _ s).andThen ((Tells.atPath s).andThen
    ((Tells.isAt _ s).andThen (.pure _ s))))

theorem From.typeBound {s : Spot} (hs : c.floor ≤ 2 * s.pos) : c.From typeBound s fun _ t =>
    atBound c.input s.pos = true → s.pos < t.pos := by
  refine .node (by decide) ((Tells.isAt .lifetimeIdent _).bind ?_)
  split
  · next h => exact (takes_lifetime (c := c.opened) _ h).imp fun _ _ _ ht _ => ht
  · next h =>
    refine From.bind (M := fun _ t =>
        s.pos < t.pos ∨ t = ⟨s.pos, false⟩ ∧ c.input.isAt s.pos .question = false)
      (.discard (.eat (by decide) (by decide) (fun _ => .inl (Nat.lt_succ_self _))
        fun no => .inr ⟨rfl, no⟩)) fun _ t ht hq => ?_
    have le := ht.le
    refine (From.call (c := c.opened) (r := .type false)
      (show c.floor ≤ 2 * t.pos by simp only at le; omega)
      (fun _ => trivial) trivial).imp fun _ u hu progress bound => ?_
    have le' := hu.le
    rcases hq with lt | ⟨rfl, hq⟩
    · exact Nat.lt_of_lt_of_le lt le'
    · refine progress ?_
      have no : c.input.isAt s.pos .lifetimeIdent = false := by simpa using h
      rw [atBound, no, hq, Bool.false_or, Bool.false_or, Bool.or_eq_true] at bound
      rcases bound with path | paren
      · exact typeFirst_of_atPath path
      · rw [opened_input, show c.input.kind s.pos = .leftParen from Input.head_of_isAt paren]
        decide

theorem fine_typeBoundList : c.Fine typeBoundList := by
  refine Fine.node (by decide) (fine_while fun t ht => (Tells.atTypeBound t).bind ?_)
  split
  · exact .pure nofun
  · next h =>
    refine (From.typeBound (c := c.opened) ht).bind fun _ u _ progress => ?_
    refine ((calm_eat (by decide)).from u).imp fun _ v hv _ _ => Nat.lt_of_lt_of_le (progress (by simpa using h)) hv.le

theorem fine_typeBoundList? : c.Fine typeBoundList? :=
  fun s hs => .when (Tells.atTypeBound s).from (fun t ht _ => fine_typeBoundList t (by have := ht.le; omega))
    fun _ _ => trivial

theorem calm_lifetimeBounds : c.Calm lifetimeBounds := by
  refine Calm.node (by decide) (calm_while fun t => (Tells.isAt .lifetimeIdent t).bind ?_)
  split
  · exact .pure nofun
  · next h =>
    refine From.bind ((takes_lifetime.node (by decide)).from (s := t) (by simpa using h)) fun _ u _ progress => ?_
    exact ((calm_eat (by decide)).from u).imp fun _ v hv _ _ => Nat.lt_of_lt_of_le progress hv.le

/-! ## Parameters and predicates -/

theorem fine_genericParam (hf : c.fresh) (isFirst : Bool) : c.Fine (genericParam isFirst) := by
  intro s hs
  refine From.bind (M := fun _ _ => True) (.nodeIf False ((Tells.current _).bind ?_))
    fun _ _ _ _ => .pure trivial
  let inside : Site := { c with fresh := c.fresh ∨ False }
  have type : inside.Fine (call (.type true)) := fine_type (.inl hf)
  split
  · next h =>
    refine ((takes_lifetime (c := inside)).from (Input.isAt_of_kind h rfl)).bind fun _ t _ _ => ?_
    refine ((calm_lifetimeBounds.fine.whenEat (by decide)).from t).bind fun _ _ _ _ => ?_
    exact .pure ⟨.of_plain (by decide), trivial⟩
  · refine ((calm_name (c := inside)).from _).bind fun _ t ht _ => ?_
    refine ((fine_typeBoundList?.whenEat (by decide)).from t).bind fun _ u hu _ => ?_
    refine ((type.whenEat (by decide)).from u).bind fun _ _ _ _ => ?_
    exact .pure ⟨.of_plain (by decide), trivial⟩
  · next h =>
    refine ((takes_bump (c := inside) (by decide)).from (Input.isAt_of_kind h rfl)).bind fun _ t ht _ => ?_
    refine (calm_name.from t).bind fun _ u hu _ => ?_
    have moved : c.floor ≤ 2 * u.pos := by
      have := ht.le
      have := hu.le
      simp only at *
      omega
    refine (((calm_expect (by decide)).fine.when type).from moved).bind fun _ _ _ _ => ?_
    exact .pure ⟨.of_plain (by decide), trivial⟩
  · exact .pure ⟨id, trivial⟩

theorem calm_genericParamList? : c.Calm genericParamList? :=
  ((takes_delimited (by decide) (by decide) (fine_genericParam (c := c.opened) trivial)).node (by decide)).whenAt

/-- Whether a predicate of a `where` starts at a place. -/
def atPredicate (input : Input) (i : Nat) : Bool :=
  input.isAt i .lifetimeIdent || typeFirst.contains (input.kind i)

theorem From.wherePredicate {s : Spot} (hs : c.floor ≤ 2 * s.pos) :
    c.From wherePredicate s fun _ t => atPredicate c.input s.pos = true → s.pos < t.pos := by
  refine .node (by decide) ((Tells.isAt .lifetimeIdent _).bind ?_)
  split
  · next h =>
    refine ((takes_lifetime (c := c.opened)).from h).bind fun _ t _ lt => ?_
    exact (((calm_expect (by decide)).when calm_lifetimeBounds).from t).imp fun _ u hu _ _ =>
      Nat.lt_of_lt_of_le lt hu.le
  · next h =>
    refine (From.call (c := c.opened) (r := .type true) (s := ⟨s.pos, false⟩) hs (fun _ => trivial) trivial).bind
      fun _ t ht progress => ?_
    have moved : c.floor ≤ 2 * t.pos := by
      have := ht.le
      simp only at this
      omega
    have bounds : c.opened.Fine (Parser.when (expect .colon) typeBoundList?) :=
      (calm_expect (by decide)).fine.when fine_typeBoundList?
    refine (bounds.from moved).imp fun _ u hu _ pred => ?_
    have no : c.input.isAt s.pos .lifetimeIdent = false := by simpa using h
    rw [atPredicate, no, Bool.false_or] at pred
    exact Nat.lt_of_lt_of_le (progress pred) hu.le

theorem calm_whereClause? : c.Calm whereClause? := by
  refine ((Takes.bind (takes_bump (by decide)) fun _ => ?_).node (by decide)).whenAt
  refine fine_while fun t ht => (Tells.isAt _ t).bind ((Tells.isAtAny typeFirst t).bind ?_)
  split
  · exact .pure nofun
  · next h =>
    refine (From.wherePredicate (c := c.opened) ht).bind fun _ u _ progress => ?_
    refine ((calm_eat (by decide)).from u).imp fun _ v hv _ _ => Nat.lt_of_lt_of_le (progress ?_) hv.le
    rwa [Bool.not_eq_true', Bool.not_eq_false] at h

/-! ## Types -/

/-- Elements between parentheses: how many there are, and whether a comma ends them. -/
theorem fine_typeElements : c.opened.Fine (loop (0, false) fun (count, comma) => do
    if (← isAt .rightParen) || (← isAt .eof) then return .done (count, comma)
    if !(← isAtAny typeFirst) then
      recover (.expected .type) typeRecovery
      return .done (count, comma)
    call (.type true)
    if ← eat .comma then return .yield (count + 1, true)
    return .done (count + 1, false)) := by
  intro s hs
  refine .loop (fun _ _ => True) trivial fun (count, comma) t ht _ => ?_
  have moved : c.opened.floor ≤ 2 * t.pos := by
    have := ht.le
    omega
  refine (Tells.isAt _ t).bind ((Tells.isAt _ t).bind ?_)
  split
  · exact .pure trivial
  refine (Tells.isAtAny typeFirst t).bind ?_
  split
  · exact ((calm_recover _ _).from t).bind fun _ _ _ _ => .pure trivial
  · refine ((fine_type trivial).from moved).bind fun _ u hu _ => ?_
    refine From.bind (M := fun more v => more = true → u.pos < v.pos) (.eat (by decide) (by decide)
      (fun _ _ => Nat.lt_succ_self _) nofun) fun more v _ taken => ?_
    have := hu.le
    split
    · next h => exact .pure ⟨by have := taken h; omega, trivial⟩
    · exact .pure trivial

theorem takes_parenOrTupleType : c.Takes .leftParen parenOrTupleType := by
  refine (Opens.nodeOf ((takes_bump (by decide)).opens fun _ => ?_)).takes.discard
  refine fine_typeElements.forms fun (count, comma) => (calm_expect (by decide)).discard.fine.forms fun _ => ?_
  exact forms_pure (by split <;> decide)

theorem takes_ptrType : c.Takes .star ptrType := by
  refine Takes.node (by decide) ((takes_bump (by decide)).bind fun _ => Fine.bind ?_ fun _ =>
    fine_type trivial)
  exact (Calm.whenNot (calm_eat (by decide)) (Calm.whenNot (calm_eat (by decide)) (calm_expected _))).fine

theorem takes_refType : c.Takes .amp refType := by
  refine Takes.node (by decide) ((takes_bump (by decide)).bind fun _ => (takes_lifetime.whenAt).fine.bind fun _ => ?_)
  exact (calm_eat (by decide)).discard.fine.bind fun _ => fine_type trivial

theorem takes_arrayOrSliceType : c.Takes .leftBracket arrayOrSliceType := by
  refine (Opens.nodeOf ((takes_bump (by decide)).opens fun _ => ?_)).takes.discard
  refine (fine_type trivial).forms fun _ => ?_
  refine (calm_eat (by decide)).fine.forms fun isArray => ?_
  refine ((Calm.pure isArray).fine.when
    (fine_operand trivial).discard).forms fun _ => ?_
  exact (calm_expect (by decide)).discard.fine.forms fun _ => forms_pure (by split <;> decide)

theorem calm_singleBound : c.Calm singleBound := by
  refine Takes.ifAt takes_lifetime fun s => (Tells.atPath s).bind ?_
  split
  · exact (From.pathType s).imp fun _ _ _ _ => trivial
  · exact (calm_recover _ _).from s

theorem takes_boundedType {keyword kind : Kind} (bounds : Bool) (hk : keyword.IsOrdinary)
    (hp : kind.IsPlain) :
    c.Takes keyword (boundedType keyword kind bounds) := by
  refine Takes.node hp ((takes_bump hk).bind fun _ s hs => ?_)
  refine (Tells.atTypeBound s).bind ?_
  split
  · exact fine_typeBoundList.from hs
  · exact (Calm.node (by decide) (Calm.node (by decide) calm_singleBound)).from s

/-- A type takes a token where one starts. -/
theorem From.singleType (bounds : Bool) (s : Spot) : c.From (singleType bounds) s fun _ t =>
    typeFirst.contains (c.input.kind s.pos) = true → s.pos < t.pos := by
  refine (Tells.current s).bind ?_
  have taken {k : Kind} {p : Parser Unit} (hp : c.Takes k p) (hk : c.input.kind s.pos = k)
      (simple : k.IsSimple) : c.From p s fun _ t =>
        typeFirst.contains (c.input.kind s.pos) = true → s.pos < t.pos :=
    (hp.from (Input.isAt_of_kind hk simple)).imp fun _ _ _ lt _ => lt
  split
  · next h => exact taken takes_parenOrTupleType h rfl
  · next h => exact taken ((takes_bump (by decide)).node (by decide)) h rfl
  · next h => exact taken takes_ptrType h rfl
  · next h => exact taken takes_refType h rfl
  · next h => exact taken takes_arrayOrSliceType h rfl
  · next h => exact taken ((takes_bump (by decide)).node (by decide)) h rfl
  · next h => exact taken (takes_boundedType bounds (by decide) (by decide)) h rfl
  · next h => exact taken (takes_boundedType bounds (by decide) (by decide)) h rfl
  · next paren bang star amp bracket score impl dyn =>
    refine (Tells.atPath s).bind ?_
    split
    · next path => exact (From.pathType s).imp fun _ _ _ lt _ => lt path
    · next path =>
      refine (From.recover _ _ s).imp fun _ t _ skipped first => ?_
      have no_path : segmentFirst.contains (c.input.kind s.pos) = false := by
        rw [Input.atPath, Bool.or_eq_true, not_or, Bool.not_eq_true] at path
        exact path.1
      generalize c.input.kind s.pos = k at *
      refine skipped ?_ ?_ ▸ Nat.lt_succ_self _
      all_goals
        clear skipped path
        revert first
        cases k <;> first | decide | simp_all

/-- The rule for types. -/
theorem From.type (bounds : Bool) (hf : c.fresh) (s : Spot) : c.From (type bounds) s fun a t =>
    (Rule.type bounds).Ensures c.input s.pos a t.pos := by
  refine .discard (.nested hf ?_ fun t skipped first => skipped ?_)
  · exact From.singleType (c := c.nested) bounds s
  · generalize c.input.kind s.pos = k at first
    revert first
    cases k <;> decide

theorem calm_returnType? (bounds : Bool) : c.Calm (returnType? bounds) :=
  (Takes.node (by decide) ((takes_bump (by decide)).bind fun _ =>
    fine_type trivial)).whenAt

end Verbatim.Parser.Site
