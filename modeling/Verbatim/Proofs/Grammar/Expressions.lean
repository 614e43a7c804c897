import Verbatim.Parser.Expressions
import Verbatim.Proofs.Grammar.Statements

/-!
# Expressions run safely
-/
namespace Verbatim.Parser.Site

variable {c : Site}

/-! ## Operators -/

theorem Tells.firstAt (os : List Operator) (s : Spot) : ∃ a, c.Tells (firstAt os) s a ∧
    ∀ o, a = some o → o ∈ os ∧ c.input.isAt s.pos o.token = true := by
  induction os with
  | nil => exact ⟨none, .pure none s, nofun⟩
  | cons o os ih =>
    by_cases h : c.input.isAt s.pos o.token = true
    · refine ⟨some o, (Tells.isAt _ s).andThen ?_, ?_⟩
      · rw [h]
        exact .pure _ s
      · rintro _ ⟨⟩
        exact ⟨List.mem_cons_self, h⟩
    · obtain ⟨a, tells, found⟩ := ih
      refine ⟨a, (Tells.isAt _ s).andThen ?_, fun o ho => ?_⟩
      · rw [Bool.not_eq_true] at h
        rw [h]
        exact tells
      · exact ⟨List.mem_cons_of_mem _ (found o ho).1, (found o ho).2⟩

/-- No operator is a barrier. -/
theorem operator_not_barrier (k : Kind) : ∀ o ∈ operators k, o.token.isBarrier = false := by
  cases k <;> decide

theorem Tells.operator? (s : Spot) : ∃ a, c.Tells operator? s a ∧
    ∀ o, a = some o → o.token.isBarrier = false ∧ c.input.isAt s.pos o.token = true := by
  obtain ⟨a, tells, found⟩ := Tells.firstAt (c := c) (operators (c.input.kind s.pos)) s
  exact ⟨a, (Tells.current s).andThen tells, fun o ho =>
    ⟨operator_not_barrier _ o (found o ho).1, (found o ho).2⟩⟩

/-! ## Operands of many kinds -/

theorem fine_condition (hf : c.fresh) : c.Fine condition := (fine_operand hf).discard

theorem fine_operand? (hf : c.fresh) (r : Restrictions) (power : Nat) :
    c.Fine (operand? r power) := by
  refine Fine.bind ?_ fun b => ?_
  · exact (calm_isAtAny _).fine.bind fun _ => (calm_isAt _).fine.bind fun _ => (Calm.pure _).fine
  · cases b with
    | false => exact (Calm.pure ()).fine
    | true => exact (fine_operand hf).discard

theorem takes_argumentList : c.Takes .leftParen argumentList := by
  refine Takes.node (by decide) (takes_delimited (by decide) (by decide) fun _ => (calm_isAtAny _).fine.bind fun b => ?_)
  cases b with
  | false => exact (Calm.pure false).fine
  | true => exact (fine_expression trivial).discard.bind fun _ => (Calm.pure true).fine

/-- A label is a word or a number with a colon behind it. -/
theorem Tells.atLabel (s : Spot) : ∃ b, c.Tells atLabel s b ∧
    (b = true → nameRefFirst.contains (c.input.kind s.pos) = true ∧
      c.input.kind (s.pos + 1) = .colon) := by
  have label {k : Kind} (hk : c.input.kind s.pos = k) (apart : k.isStop = false) :
      c.Tells (do return (← Parser.nth 1) == .colon && !(← Parser.isAhead 1 .colon2)) s
        (c.input.kind (s.pos + 1) == .colon && !c.input.isAt (s.pos + 1) .colon2) := by
    have ahead := open_one (c := c) (i := s.pos) (by rw [hk]; exact apart)
    exact (Tells.nth (n := 1) ahead).andThen ((Tells.isAhead ahead).andThen (.pure _ s))
  have colon (h : (c.input.kind (s.pos + 1) == .colon && !c.input.isAt (s.pos + 1) .colon2) = true) :
      c.input.kind (s.pos + 1) = .colon := beq_iff_eq.mp (Bool.and_eq_true_iff.mp h).1
  have tells := Tells.current (c := c) s
  generalize hk : c.input.kind s.pos = k at tells
  by_cases h : k = .ident ∨ k = .intNumber
  · rcases h with rfl | rfl
    · exact ⟨_, tells.andThen (label hk rfl), fun h => ⟨by decide, colon h⟩⟩
    · exact ⟨_, tells.andThen (label hk rfl), fun h => ⟨by decide, colon h⟩⟩
  · refine ⟨false, tells.andThen ?_, nofun⟩
    split
    · simp at h
    · simp at h
    · exact .pure false s

theorem From.fieldInit {s : Spot} (hs : c.floor ≤ 2 * s.pos) : c.From fieldInit s fun _ t =>
    expressionFirst.contains (c.input.kind s.pos) = true → s.pos < t.pos := by
  refine .node (by decide) (From.bind (M := fun _ t => t = ⟨s.pos, false⟩ ∨ s.pos < t.pos) ?_
    fun _ t ht label => ?_)
  · obtain ⟨b, tells, label⟩ := Tells.atLabel (c := c.opened) ⟨s.pos, false⟩
    refine .when tells.from (fun t _ ht => ?_) fun t ht => .inl ht.2
    obtain ⟨hb, rfl⟩ := ht
    obtain ⟨word, colon⟩ := label hb.symm
    refine (From.nameRef _).bind fun _ u _ next => ?_
    have next : u.pos = s.pos + 1 := next word
    have at_colon : c.opened.input.isAt u.pos .colon = true :=
      Input.isAt_of_kind (by rw [next]; exact colon) rfl
    refine ((takes_bump (by decide)).from at_colon).imp fun _ v _ lt => .inr ?_
    omega
  · have moved : c.opened.floor ≤ 2 * t.pos := by
      have := ht.le
      change c.floor ≤ _
      simp only at this
      omega
    refine .discard ((From.call (r := .expression {} 1) moved (fun _ => trivial) trivial).imp
      fun _ u hu progress first => ?_)
    rcases label with rfl | lt
    · exact progress first
    · exact Nat.lt_of_lt_of_le lt hu.le

theorem takes_fieldInitList : c.Takes .leftBrace fieldInitList := by
  refine Takes.node (by decide) (takes_enclosed (by decide) (closes_expect (by decide)) (fine_while fun t ht => ?_))
  refine (Tells.isAt .eof t).bind ((Tells.isAt .rightBrace t).bind ?_)
  split
  · exact .pure nofun
  next inside =>
  refine (Tells.isAt .dot2 t).bind ?_
  split
  · next h =>
    refine ((takes_bump (by decide)).from h).bind fun _ u hu _ => ?_
    have moved : c.opened.floor ≤ 2 * u.pos := by
      have := hu.le
      omega
    refine (((calm_isAtAny _).fine.when (fine_expression trivial).discard).from moved).bind
      fun _ _ _ _ => .pure nofun
  refine (Tells.isAt .leftBrace t).bind ?_
  split
  · next h => exact ((takes_strayBlock _).from h).bind fun _ _ _ lt => .pure fun _ => lt
  next no_brace =>
  refine (Tells.isAtAny _ t).bind ?_
  split
  · have apart : (c.input.kind t.pos).isBarrier = false := by
      simp only [opened_input, Input.isAt_simple (k := .eof) rfl,
        Input.isAt_simple (k := .rightBrace) rfl, Input.isAt_simple (k := .leftBrace) rfl] at *
      generalize c.input.kind t.pos = k at *
      cases k <;> simp_all [Kind.isBarrier]
    exact (From.skipOne (c := c.opened) _ apart).bind fun _ _ _ next => .pure fun _ => next ▸ Nat.lt_succ_self _
  · next first =>
    refine (From.fieldInit ht).bind fun _ u _ progress => ?_
    have lt := progress (by simpa using first)
    refine (((calm_isAt _).whenNot (calm_expect (by decide)).discard).from u).bind fun _ v hv _ => .pure fun _ => ?_
    exact Nat.lt_of_lt_of_le lt hv.le

/-- A path is wrapped whether or not fields follow it. -/
theorem From.pathExpression {s : Spot} (r : Restrictions) (hp : c.input.atPath s.pos = true) :
    c.From (pathExpression r) s fun _ t => t.ready = true ∧ s.pos < t.pos := by
  refine (From.expressionPath s).bind fun _ t _ ht => .wrap ht.1 ?_
  refine (Tells.isAt .leftBrace _).bind ?_
  have lt := ht.2 hp
  split
  · next h =>
    refine (takes_fieldInitList.from (Bool.and_eq_true_iff.mp h).1).bind fun _ u _ lt' => ?_
    exact .pure ⟨by decide, rfl, Nat.lt_trans lt lt'⟩
  · exact .pure ⟨by decide, rfl, lt⟩

/-- Elements between parentheses: how many there are, and whether a comma ends them. -/
theorem fine_elements : c.opened.Fine (loop (0, false) fun (count, comma) => do
    if (← isAt .eof) || (← isAt .rightParen) then return .done (count, comma)
    if !(← isAtAny expressionFirst) then
      recover (.expected .expression) expressionRecovery
      return .done (count, comma)
    discard expression
    if ← eat .comma then return .yield (count + 1, true)
    return .done (count + 1, comma)) := by
  intro s hs
  refine .loop (fun _ _ => True) trivial fun (count, comma) t ht _ => ?_
  have moved : c.opened.floor ≤ 2 * t.pos := by
    have := ht.le
    omega
  refine (Tells.isAt _ t).bind ((Tells.isAt _ t).bind ?_)
  split
  · exact .pure trivial
  refine (Tells.isAtAny expressionFirst t).bind ?_
  split
  · exact ((calm_recover _ _).from t).bind fun _ _ _ _ => .pure trivial
  · refine ((fine_expression trivial).discard.from moved).bind fun _ u hu _ => ?_
    refine From.bind (M := fun more v => more = true → u.pos < v.pos) (.eat (by decide) (by decide)
      (fun _ _ => Nat.lt_succ_self _) nofun) fun more v _ taken => ?_
    have := hu.le
    split
    · next h => exact .pure ⟨by have := taken h; omega, trivial⟩
    · exact .pure trivial

theorem makes_parenOrTuple : c.Makes .leftParen parenOrTuple := by
  refine Opens.nodeOf ((takes_bump (by decide)).opens fun _ => ?_)
  refine fine_elements.forms fun (count, comma) => (calm_expect (by decide)).discard.fine.forms fun _ => ?_
  exact forms_pure (by split <;> decide)

theorem fine_arrayTail (hf : c.fresh) : c.Fine arrayTail := by
  refine (calm_eat (by decide)).fine.bind fun _ => .ite (fine_expression hf).discard ?_
  refine fine_while fun t ht => ?_
  refine From.bind (M := fun more u => more = true → t.pos < u.pos) (.eat (by decide) (by decide)
    (fun _ _ => Nat.lt_succ_self _) nofun) fun more u hu taken => ?_
  split
  · exact .pure nofun
  · next h =>
    have lt := taken (by simpa using h)
    refine (Tells.isAt _ u).bind ?_
    split
    · exact .pure nofun
    · refine ((fine_expression hf).discard.from (by omega)).bind fun _ v hv _ => .pure fun _ => ?_
      exact Nat.lt_of_lt_of_le lt hv.le

theorem makes_array : c.Makes .leftBracket array := by
  refine Opens.nodeOf ((takes_bump (by decide)).opens fun _ => (calm_eat (by decide)).fine.forms fun b => ?_)
  cases b with
  | true => exact (forms_pure (by decide))
  | false =>
    refine (fine_expression trivial).discard.forms fun _ => (fine_arrayTail trivial).forms fun _ => ?_
    exact (calm_expect (by decide)).discard.fine.forms fun _ => (forms_pure (by decide))

theorem fine_closureBody (hf : c.fresh) : c.Fine closureBody := by
  refine (calm_isAt _).fine.bind fun _ => .ite ?_ ((calm_isAtAny _).fine.bind fun _ => .ite ?_ ?_)
  · exact (calm_returnType? false).fine.bind fun _ => fine_block
  · exact (fine_expression hf).discard
  · exact (calm_expected _).fine

/-- A closure starts with its parameters or with `move` in front of them. -/
theorem From.closure {s : Spot} (h : c.input.kind s.pos = .pipe ∨
    c.input.kind s.pos = .moveKw ∧ c.input.kind (s.pos + 1) = .pipe) :
    c.From closure s fun _ t => t.ready = true ∧ s.pos < t.pos := by
  refine .nodeOf (From.bind (M := fun _ t => c.input.kind t.pos = .pipe) (.discard ?_)
    fun _ t ht pipe => ?_)
  · refine .eat (by decide) (by decide) (fun hm => ?_) fun no => ?_
    · have move : c.input.kind s.pos = .moveKw := Input.head_of_isAt hm
      rcases h with h | h
      · rw [h] at move
        contradiction
      · exact h.2
    · rcases h with h | h
      · exact h
      · have : c.opened.input.isAt s.pos .moveKw = true := Input.isAt_of_kind h.1 rfl
        rw [this] at no
        contradiction
  · have rest : c.opened.Opens .pipe (do
        closureParamList
        closureBody
        return .closureExpr) :=
      takes_closureParamList.opens fun _ => (fine_closureBody trivial).forms fun _ => (forms_pure (by decide))
    refine (rest t (Input.isAt_of_kind pipe rfl)).imp fun _ u _ hu => ?_
    have lt : s.pos < u.pos := Nat.lt_of_le_of_lt ht.le hu.2
    exact ⟨hu.1.spans lt, rfl, lt⟩

theorem makes_ifExpression : c.Makes .ifKw ifExpression := by
  refine Opens.nodeOf ((takes_bump (by decide)).opens fun _ => (fine_condition trivial).forms fun _ => ?_)
  refine fine_block.forms fun _ => Fine.forms ?_ fun _ => (forms_pure (by decide))
  refine (calm_eat (by decide)).fine.when fun s hs => (Tells.isAt .ifKw s).bind ?_
  split
  · next h =>
    refine .discard ((From.call (r := .ifExpression) hs False.elim ?_).imp fun _ _ _ _ => trivial)
    exact beq_iff_eq.mp (Input.isAt_simple (k := .ifKw) rfl _ ▸ h)
  · exact fine_block.from hs

theorem makes_letCondition (r : Restrictions) : c.Makes .letKw (letCondition r) := by
  refine Opens.nodeOf ((takes_bump (by decide)).opens fun _ => (fine_alternatives trivial).forms fun _ => ?_)
  refine (calm_expect (by decide)).discard.fine.forms fun _ => (fine_operand trivial).discard.forms fun _ => ?_
  exact (forms_pure (by decide))

theorem makes_loopExpression : c.Makes .loopKw loopExpression :=
  Opens.nodeOf ((takes_bump (by decide)).opens fun _ => fine_block.forms fun _ => (forms_pure (by decide)))

theorem makes_whileExpression : c.Makes .whileKw whileExpression :=
  Opens.nodeOf ((takes_bump (by decide)).opens fun _ => (fine_condition trivial).forms fun _ =>
    fine_block.forms fun _ => (forms_pure (by decide)))

theorem makes_forExpression : c.Makes .forKw forExpression := by
  refine Opens.nodeOf ((takes_bump (by decide)).opens fun _ => (fine_alternatives trivial).forms fun _ => ?_)
  refine ((calm_expect (by decide)).fine.when (fine_condition trivial)).forms fun _ => fine_block.forms fun _ => ?_
  exact (forms_pure (by decide))

/-! ## Matches and blocks -/

theorem takes_matchGuard : c.Takes .ifKw matchGuard :=
  Takes.node (by decide) ((takes_bump (by decide)).bind fun _ => (fine_expression trivial).discard)

theorem fine_matchArm : c.Fine matchArm := by
  refine (calm_isAtAny _).fine.bind fun _ => (calm_isAt _).fine.bind fun _ => .ite ?_
    (calm_skipOne _).fine
  refine Fine.node (by decide) ((fine_alternatives trivial).bind fun _ => (takes_matchGuard.whenAt).fine.bind
    fun _ => (calm_expect (by decide)).discard.fine.bind fun _ => (fine_expression trivial).bind fun body => ?_)
  refine (calm_eat (by decide)).fine.bind fun closed => (Calm.when ?_ (calm_error _)).fine
  exact (calm_isAt _).bind fun _ => .pure _

theorem encloses_matchArmList : c.Encloses .leftBrace .rightBrace matchArmList := by
  refine ⟨_, rfl, fine_untilBrace fun t ht inside => ?_⟩
  refine (Tells.isAt .leftBrace t).bind ?_
  split
  · next h => exact (takes_strayBlock _).from h
  · exact .orSkip (fine_matchArm.from ht) inside

theorem makes_matchExpression : c.Makes .matchKw matchExpression := by
  refine Opens.nodeOf ((takes_bump (by decide)).opens fun _ => (fine_condition trivial).forms fun _ => ?_)
  exact (fine_body _).forms fun _ => (forms_pure (by decide))

/-- Whether a block stands behind the modifiers at a place, of which there may be none. -/
def atBlock (input : Input) (i : Nat) : Prop :=
  input.kind i = .leftBrace ∨
    (input.kind i = .unsafeKw ∨ input.kind i = .constKw ∨ input.kind i = .asyncKw) ∧
      input.kind (i + 1) = .leftBrace ∨
    input.kind i = .asyncKw ∧ input.kind (i + 1) = .moveKw ∧ input.kind (i + 2) = .leftBrace

theorem From.eatKind {k : Kind} {s : Spot} (hk : k.IsOrdinary) (simple : k.IsSimple) :
    c.From (Parser.eat k) s fun taken t =>
      if c.input.kind s.pos = k then taken = true ∧ t.pos = s.pos + 1 else taken = false ∧ t = s := by
  have length : k.pieces.length = 1 := by rw [show k.pieces = [k] from simple]; rfl
  refine .eat hk.1 hk.2 (fun yes => ?_) fun no => ?_
  · rw [Input.isAt_simple simple, beq_iff_eq] at yes
    rw [if_pos yes]
    exact ⟨rfl, by rw [length]⟩
  · rw [Input.isAt_simple simple, beq_eq_false_iff_ne] at no
    rw [if_neg no]
    exact ⟨rfl, rfl⟩

theorem From.blockModifiers {s : Spot} (h : atBlock c.input s.pos) :
    c.From blockModifiers s fun _ t => c.input.kind t.pos = .leftBrace := by
  refine (From.eatKind (k := .asyncKw) (by decide) rfl).bind fun async t _ ht => ?_
  by_cases ha : c.input.kind s.pos = .asyncKw
  · rw [if_pos ha] at ht
    rw [ht.1, if_pos rfl]
    refine .discard (From.imp (From.eatKind (k := .moveKw) (by decide) rfl) fun _ u _ hu => ?_)
    rw [atBlock, ha] at h
    rcases h with h | h | h
    · contradiction
    · rw [ht.2, h.2, if_neg (by decide)] at hu
      rw [hu.2, ht.2, h.2]
    · rw [ht.2, h.2.1, if_pos rfl] at hu
      rw [hu.2, h.2.2]
  · rw [if_neg ha] at ht
    obtain ⟨rfl, rfl⟩ := ht
    refine .whenNot (From.eatKind (k := .unsafeKw) (by decide) rfl) (fun u _ hu => ?_) fun u hu => ?_
    · split at hu
      · simp at hu
      · next hn =>
        obtain ⟨-, rfl⟩ := hu
        refine .discard (From.imp (From.eatKind (k := .constKw) (by decide) rfl) fun _ v _ hv => ?_)
        rcases h with h | ⟨h | h | h, brace⟩ | h
        · rw [h, if_neg (by decide)] at hv
          rw [hv.2, h]
        · exact absurd h hn
        · rw [h, if_pos rfl] at hv
          rw [hv.2, brace]
        · exact absurd h ha
        · exact absurd h.1 ha
    · split at hu
      · next hn =>
        rw [atBlock, hn] at h
        simpa [hu.2] using h
      · simp at hu

/-- A block may start where the rule around it does. -/
theorem From.blockExpression {s : Spot} (hs : c.floor ≤ 2 * s.pos + 1) (h : atBlock c.input s.pos) :
    c.From blockExpression s fun _ t => t.ready = true ∧ s.pos < t.pos := by
  refine .nodeOf ((From.blockModifiers (c := c.opened) (s := ⟨s.pos, false⟩) h).bind
    fun _ t ht brace => ?_)
  have le := ht.le
  have room : c.opened.floor ≤ 2 * t.pos + 1 := by
    change c.floor ≤ _
    simp only at le
    omega
  exact (From.list room brace).bind fun _ u _ lt =>
    .pure ⟨.of_plain (by decide), rfl, Nat.lt_of_le_of_lt le lt.1⟩

/-! ## Jumps -/

theorem makes_returnExpression (r : Restrictions) : c.Makes .returnKw (returnExpression r) :=
  Opens.nodeOf ((takes_bump (by decide)).opens fun _ => (fine_operand? trivial r 1).forms fun _ => (forms_pure (by decide)))

theorem makes_breakExpression (r : Restrictions) : c.Makes .breakKw (breakExpression r) :=
  Opens.nodeOf ((takes_bump (by decide)).opens fun _ => (takes_lifetime.whenAt).fine.forms fun _ =>
    (fine_operand? trivial r 1).forms fun _ => (forms_pure (by decide)))

theorem makes_continueExpression : c.Makes .continueKw continueExpression :=
  Opens.nodeOf ((takes_bump (by decide)).opens fun _ => (takes_lifetime.whenAt).fine.forms fun _ => (forms_pure (by decide)))

theorem Tells.atModifiedBlock (s : Spot) : ∃ b, c.Tells atModifiedBlock s b ∧
    (b = true → atBlock c.input s.pos) := by
  have tells := Tells.current (c := c) s
  generalize hk : c.input.kind s.pos = k at tells
  have next (apart : k.isStop = false) (k' : Kind) :
      c.Tells (Parser.isNth 1 k') s (c.input.kind (s.pos + 1) == k') :=
    .isNth (open_one (by rw [hk]; exact apart))
  by_cases hm : k = .unsafeKw ∨ k = .constKw
  · refine ⟨c.input.kind (s.pos + 1) == .leftBrace, tells.andThen ?_, fun hb =>
      .inr (.inl ⟨by rcases hm with h | h <;> simp [hk, h], beq_iff_eq.mp hb⟩)⟩
    rcases hm with rfl | rfl <;> exact next rfl _
  by_cases ha : k = .asyncKw
  · subst ha
    by_cases hb : c.input.kind (s.pos + 1) = .leftBrace
    · refine ⟨true, tells.andThen ((next rfl _).andThen ?_), fun _ => .inr (.inl ⟨by simp [hk], hb⟩)⟩
      rw [hb]
      exact .pure true s
    · refine ⟨c.input.kind (s.pos + 1) == .moveKw && c.input.kind (s.pos + 2) == .leftBrace,
        tells.andThen ((next rfl _).andThen ?_), fun h => ?_⟩
      · rw [beq_eq_false_iff_ne.mpr hb]
        refine .both (next rfl _) fun hmove => .isNth fun m hm => ?_
        obtain rfl | rfl : m = 0 ∨ m = 1 := by
          simp at hm
          omega
        · rw [Nat.add_zero, hk]
          rfl
        · rw [beq_iff_eq.mp hmove]
          rfl
      · rw [Bool.and_eq_true, beq_iff_eq, beq_iff_eq] at h
        exact .inr (.inr ⟨hk, h⟩)
  · refine ⟨false, tells.andThen ?_, nofun⟩
    split
    · simp at hm
    · simp at hm
    · simp at ha
    · exact .pure false s

/-! ## Atoms and suffixes -/

/-- What an operand is asked for: if it is found it ends in a node, and where an expression starts it
takes a token. -/
@[reducible] def Operates {α : Type} (input : Input) (s : Spot) (a : Option α) (t : Spot) : Prop :=
  (a.isSome = true → t.ready = true) ∧
    (expressionFirst.contains (input.kind s.pos) = true → s.pos < t.pos)

theorem From.compound? {s : Spot} (hs : c.floor ≤ 2 * s.pos + 1) (r : Restrictions)
    (no_literal : literalFirst.contains (c.input.kind s.pos) = false)
    (no_path : segmentFirst.contains (c.input.kind s.pos) = false) :
    c.From (compound? r) s (Operates c.input s) := by
  have made {k : Kind} {p : Parser Kind} (hp : c.Makes k p) (hk : c.input.kind s.pos = k)
      (simple : k.IsSimple) : c.From (some <$> p) s (Operates c.input s) :=
    .map ((hp.from (Input.isAt_of_kind hk simple)).imp fun _ _ _ ht => ⟨fun _ => ht.1, fun _ => ht.2⟩)
  have lonely {k : Kind} (hk : c.input.kind s.pos = k) (apart : k.isBarrier = false) :
      c.From lonelyModifier s (Operates c.input s) :=
    (From.skipOne _ (by rw [hk]; exact apart)).bind fun _ _ _ next =>
      .pure ⟨nofun, fun _ => next ▸ Nat.lt_succ_self _⟩
  have closure (h : c.input.kind s.pos = .pipe ∨
      c.input.kind s.pos = .moveKw ∧ c.input.kind (s.pos + 1) = .pipe) :
      c.From (some <$> Parser.closure) s (Operates c.input s) :=
    .map ((From.closure h).imp fun _ _ _ ht => ⟨fun _ => ht.1, fun _ => ht.2⟩)
  have block (h : atBlock c.input s.pos) :
      c.From (some <$> Parser.blockExpression) s (Operates c.input s) :=
    .map ((From.blockExpression hs h).imp fun _ _ _ ht => ⟨fun _ => ht.1, fun _ => ht.2⟩)
  have modified {k : Kind} (hk : c.input.kind s.pos = k) (apart : k.isBarrier = false) :
      c.From (Parser.atModifiedBlock >>= fun b =>
        if b = true then some <$> Parser.blockExpression else lonelyModifier) s
        (Operates c.input s) := by
    obtain ⟨b, tells, at_block⟩ := Tells.atModifiedBlock (c := c) s
    refine tells.bind ?_
    split
    · next h => exact block (at_block h)
    · exact lonely hk apart
  refine (Tells.current s).bind ?_
  split
  · next h => exact made makes_parenOrTuple h rfl
  · next h => exact made makes_array h rfl
  · next h => exact closure (.inl h)
  · next h =>
    refine (Tells.isNth (n := 1) (open_one (by rw [h]; rfl))).bind ?_
    split
    · next hp => exact closure (.inr ⟨h, by simpa using hp⟩)
    · exact lonely h rfl
  · next h => exact made makes_ifExpression h rfl
  · next h => exact made (makes_letCondition r) h rfl
  · next h => exact made makes_loopExpression h rfl
  · next h => exact made makes_whileExpression h rfl
  · next h => exact made makes_forExpression h rfl
  · next h => exact made makes_matchExpression h rfl
  · next h => exact block (.inl h)
  · next h => exact modified h rfl
  · next h => exact modified h rfl
  · next h => exact modified h rfl
  · next h => exact made (makes_returnExpression r) h rfl
  · next h => exact made (makes_breakExpression r) h rfl
  · next h => exact made makes_continueExpression h rfl
  · refine (From.recover _ _ s).bind fun _ t _ skipped => .pure ⟨nofun, fun first => ?_⟩
    generalize c.input.kind s.pos = k at *
    refine skipped ?_ ?_ ▸ Nat.lt_succ_self _
    all_goals
      clear skipped made lonely closure block modified
      revert first no_literal no_path
      cases k <;> first | decide | simp_all

theorem From.atom? {s : Spot} (hs : c.floor ≤ 2 * s.pos + 1) (r : Restrictions) :
    c.From (atom? r) s (Operates c.input s) := by
  refine (From.literal? s).bind fun a t _ ht => ?_
  split at ht
  · obtain ⟨rfl, ready, lt⟩ := ht
    exact .pure ⟨fun _ => ready, fun _ => lt⟩
  · next no_literal =>
    obtain ⟨rfl, rfl⟩ := ht
    refine (Tells.atPath t).bind ?_
    split
    · next hp =>
      exact (From.pathExpression r hp).bind fun _ _ _ hu => .pure ⟨fun _ => hu.1, fun _ => hu.2⟩
    · next hp =>
      rw [Input.atPath, Bool.or_eq_true, not_or, Bool.not_eq_true] at hp
      refine (From.compound? hs r (by simpa using no_literal) hp.1).bind fun a u _ hu =>
        .pure ⟨fun h => hu.1 (by simpa using h), hu.2⟩

theorem From.callExpression {s : Spot} (hs : s.ready = true)
    (hk : c.input.isAt s.pos .leftParen = true) :
    c.From callExpression s fun _ t => t.ready = true ∧ s.pos < t.pos :=
  .wrapOpens (takes_argumentList.opens fun _ => (forms_pure (by decide))) hs hk

theorem From.indexExpression {s : Spot} (hs : s.ready = true)
    (hk : c.input.isAt s.pos .leftBracket = true) :
    c.From indexExpression s fun _ t => t.ready = true ∧ s.pos < t.pos :=
  .wrapOpens ((takes_bump (by decide)).opens fun _ => (fine_expression trivial).discard.forms fun _ =>
    (calm_expect (by decide)).discard.fine.forms fun _ => (forms_pure (by decide))) hs hk

theorem From.tryExpression {s : Spot} (hs : s.ready = true)
    (hk : c.input.isAt s.pos .question = true) :
    c.From tryExpression s fun _ t => t.ready = true ∧ s.pos < t.pos :=
  .wrapOpens ((takes_bump (by decide)).opens fun _ => (forms_pure (by decide))) hs hk

/-- The name of a method has a parenthesis or a turbofish behind it. -/
theorem Tells.atMethodCall (s : Spot) : ∃ b, c.Tells atMethodCall s b ∧ (b = true →
    c.input.kind s.pos = .ident ∧ (c.input.isAt (s.pos + 1) .colon2 = true →
      c.input.kind (s.pos + 3) = .leftAngle)) := by
  by_cases hi : c.input.kind s.pos = .ident
  · have ahead : c.input.Open s.pos 1 := open_one (by rw [hi]; rfl)
    have start : c.Tells (Parser.isAt .ident) s true := by
      have := Tells.isAt (c := c) .ident s
      rwa [Input.isAt_simple (k := .ident) rfl, beq_iff_eq.mpr hi] at this
    by_cases hp : c.input.kind (s.pos + 1) = .leftParen
    · refine ⟨true, start.andThen ((Tells.isNth (n := 1) ahead).andThen ?_), fun _ => ⟨hi, fun h => ?_⟩⟩
      · rw [show c.input.kind (s.pos + (1 : Fin 4).val) = .leftParen from hp]
        exact .pure true s
      · have colon : c.input.kind (s.pos + 1) = .colon := Input.head_of_isAt h
        rw [hp] at colon
        contradiction
    · refine ⟨c.input.isAt (s.pos + 1) .colon2 && c.input.kind (s.pos + 3) == .leftAngle,
        start.andThen ((Tells.isNth (n := 1) ahead).andThen ?_), fun h => ⟨hi, fun _ => ?_⟩⟩
      · rw [beq_eq_false_iff_ne.mpr (show c.input.kind (s.pos + (1 : Fin 4).val) ≠ .leftParen from hp)]
        refine .both (.isAhead ahead) fun hc => .isNth fun m hm => ?_
        rcases m with _ | m
        · exact ahead 0 Nat.one_pos
        · have := Input.open_of_isAt (k := .colon2) rfl hc m (by
            change m + 1 < 3 at hm
            change m < 2
            omega)
          rwa [Nat.add_assoc, Nat.add_comm 1] at this
      · exact beq_iff_eq.mp (Bool.and_eq_true_iff.mp h).2
  · refine ⟨false, (Tells.isAt .ident s).andThen ?_, nofun⟩
    rw [Input.isAt_simple (k := .ident) rfl, beq_eq_false_iff_ne.mpr hi]
    exact .pure false s

theorem calm_methodArguments : c.Calm methodArguments :=
  takes_argumentList.ifAt (calm_expected _)

theorem calm_fieldName : c.Calm fieldName :=
  (calm_isAt _).bind fun _ => (calm_isAt _).bind fun _ => .ite calm_nameRef (calm_expected _)

theorem From.methodCall {s : Spot} (word : c.input.kind s.pos = .ident)
    (turbofish : c.input.isAt (s.pos + 1) .colon2 = true → c.input.kind (s.pos + 3) = .leftAngle) :
    c.From methodCall s fun k _ => k.IsProper := by
  refine (From.nameRef s).bind fun _ t _ ht => ?_
  have next : t.pos = s.pos + 1 := ht (by rw [word]; decide)
  refine From.bind (M := fun _ _ => True) (.when (Tells.isAt .colon2 t).from (fun u _ hu => ?_)
    fun _ _ => trivial) fun _ u _ _ => ?_
  · obtain ⟨hc, rfl⟩ := hu
    rw [next] at hc
    refine (From.turbofish ?_ ?_).imp fun _ _ _ _ => trivial
    · rw [next]
      exact hc.symm
    · rw [next]
      exact turbofish hc.symm
  · exact (calm_methodArguments u).bind fun _ _ _ _ => .pure (by decide)

theorem From.member {s : Spot} (hs : s.ready = true) (hk : c.input.isAt s.pos .dot = true) :
    c.From member s fun _ t => t.ready = true ∧ s.pos < t.pos := by
  refine .wrapOpens (fun s hk => ?_) hs hk
  refine ((takes_bump (by decide)).from hk).bind fun _ t _ lt => ?_
  obtain ⟨b, tells, call⟩ := Tells.atMethodCall (c := c.opened) t
  refine tells.bind ?_
  split
  · next h =>
    obtain ⟨word, turbofish⟩ := call h
    exact (From.methodCall word turbofish).imp fun _ _ hu plain => ⟨plain, Nat.lt_of_lt_of_le lt hu.le⟩
  · exact (calm_fieldName t).bind fun _ _ hu _ => .pure ⟨by decide, Nat.lt_of_lt_of_le lt hu.le⟩

/-- Suffixes are put around the operand, which ends in a node again. -/
theorem From.suffixes (e : Operand) (callable : Bool) {s : Spot} (hs : s.ready = true) :
    c.From (Parser.suffixes e callable) s fun _ t => t.ready = true := by
  refine From.bind (M := fun _ t => t.ready = true) ?_ fun a t _ ht => .pure ht
  refine .loop (fun _ t => t.ready = true) hs fun b t _ ready => ?_
  have grows {p : Parser Kind} {next : Kind → Operand × Bool}
      (h : c.From p t fun _ u => u.ready = true ∧ t.pos < u.pos) :
      c.From (do return .yield (next (← p))) t
        (Round (fun (_ : Operand × Bool) u => u.ready = true) (fun _ u => u.ready = true) t) :=
    h.bind fun _ u _ hu => .pure ⟨hu.2, hu.1⟩
  refine (Tells.current t).bind ?_
  split
  · next h =>
    split
    · exact grows (.callExpression ready (Input.isAt_of_kind h rfl))
    · exact .pure ready
  · next h =>
    split
    · exact grows (.indexExpression ready (Input.isAt_of_kind h rfl))
    · exact .pure ready
  · next h =>
    refine (Tells.isAt .dot2 t).bind ?_
    split
    · exact .pure ready
    · exact grows (.member ready (Input.isAt_of_kind h rfl))
  · next h => exact grows (.tryExpression ready (Input.isAt_of_kind h rfl))
  · exact .pure ready

/-! ## Operands and operators -/

/-- What ends an expression, from where the token that starts it was taken. -/
theorem From.endsBehind {p : Parser Unit} {k : Kind} {s t : Spot} (hk : k.IsProper) (lt : s.pos < t.pos)
    (hp : c.From p t fun _ _ => True) : c.From (do p; return k) t fun k u =>
      k.Spans s.pos u.pos ∧ true = true ∧ s.pos < u.pos :=
  hp.bind fun _ _ hu _ =>
    have lt := Nat.lt_of_lt_of_le lt hu.le
    .pure ⟨hk.spans lt, rfl, lt⟩

theorem From.openRange (r : Restrictions) {s : Spot}
    (h : c.input.isAt s.pos .dot2Eq = true ∨ c.input.isAt s.pos .dot2 = true) :
    c.From (openRange r) s fun _ t => t.ready = true ∧ s.pos < t.pos := by
  refine .nodeOf (.behind (M := fun _ _ => True) ?_ fun _ t moved lt _ =>
    .endsBehind (by decide) lt ((fine_operand? trivial r 3).from moved))
  refine .whenNot (M := fun a t => if a = true then s.pos < t.pos else
      t.pos = s.pos ∧ c.input.isAt s.pos .dot2 = true) (.eat (by decide) (by decide)
    (fun _ => ?_) fun no => ?_) (fun t _ ht => ?_) fun t ht => ⟨by simpa using ht, trivial⟩
  · simp [Kind.pieces]
  · exact ⟨rfl, h.resolve_left (by simpa using no)⟩
  · obtain ⟨pos, dots⟩ := ht
    refine ((takes_bump (by decide)).from (by rwa [pos])).imp fun _ u _ lt => ⟨?_, trivial⟩
    rwa [pos] at lt

theorem From.prefixExpression (r : Restrictions) {s : Spot}
    (h : (c.input.kind s.pos).isBarrier = false) :
    c.From (prefixExpression r) s fun _ t => t.ready = true ∧ s.pos < t.pos := by
  refine .nodeOf (.behind (M := fun _ _ => True) ?_ fun _ t moved lt _ =>
    .endsBehind (by decide) lt ((fine_operand trivial).discard.from moved))
  refine .bumpAny (fun _ hk => ?_) (fun hk => ?_) ⟨Nat.lt_succ_self _, trivial⟩
  all_goals
    change c.input.kind s.pos = _ at hk
    rw [hk] at h
    contradiction

theorem makes_refExpression (r : Restrictions) : c.Makes .amp (refExpression r) :=
  Opens.nodeOf ((takes_bump (by decide)).opens fun _ => (calm_eat (by decide)).discard.fine.forms fun _ =>
    (fine_operand trivial).discard.forms fun _ => (forms_pure (by decide)))

/-- An operand takes a token where an expression starts. It needs no room for calls in front of it. -/
theorem From.operand {s : Spot} (hs : c.floor ≤ 2 * s.pos + 1) (r : Restrictions) :
    c.From (Parser.operand r) s (Operates c.input s) := by
  have made {p : Parser Kind} (h : c.From p s fun _ t => t.ready = true ∧ s.pos < t.pos) :
      c.From (do return some (Operand.mk (← p) false)) s (Operates c.input s) :=
    h.bind fun _ _ _ ht => .pure ⟨fun _ => ht.1, fun _ => ht.2⟩
  refine (Tells.current s).bind ?_
  split
  · next h => exact made (.prefixExpression r (by rw [h]; rfl))
  · next h => exact made (.prefixExpression r (by rw [h]; rfl))
  · next h => exact made (.prefixExpression r (by rw [h]; rfl))
  · next h => exact made ((makes_refExpression r).from (Input.isAt_of_kind h rfl))
  refine (Tells.isAt _ s).bind ((Tells.isAt _ s).bind ?_)
  split
  · next h => exact made (.openRange r (by simpa using h))
  refine (From.atom? hs r).bind fun e t _ ht => ?_
  cases e with
  | none => exact .pure ht
  | some e =>
    exact (From.suffixes e _ (ht.1 rfl)).bind fun _ u hu ready => .pure
      ⟨fun _ => ready, fun first => Nat.lt_of_lt_of_le (ht.2 first) hu.le⟩

theorem From.applied (r : Restrictions) {o : Operator} {s : Spot} (hs : s.ready = true)
    (apart : o.token.isBarrier = false) (ho : c.input.isAt s.pos o.token = true) :
    c.From (applied r o) s fun _ t => t.ready = true ∧ s.pos < t.pos := by
  have not_brace : o.token ≠ .rightBrace := fun h => by simp [h, Kind.isBarrier] at apart
  have not_end : o.token ≠ .eof := fun h => by simp [h, Kind.isBarrier] at apart
  refine .wrapOpens ((takes_bump ⟨not_brace, not_end⟩).opens fun _ => ?_) hs ho
  split
  · exact (fine_type trivial).forms fun _ => (forms_pure (by decide))
  · exact (fine_operand? trivial r _).forms fun _ => (forms_pure (by decide))
  · exact (fine_operand? trivial r _).forms fun _ => (forms_pure (by decide))
  · exact (fine_operand trivial).discard.forms fun _ => (forms_pure (by decide))

theorem From.climbing {s : Spot} (hs : c.floor ≤ 2 * s.pos + 1) (r : Restrictions) (power : Nat) :
    c.From (climbing r power) s fun _ t =>
      expressionFirst.contains (c.input.kind s.pos) = true → s.pos < t.pos := by
  refine (From.operand hs r).bind fun e t _ ht => ?_
  cases e with
  | none => exact .pure ht.2
  | some lhs =>
    dsimp only
    split
    · exact .pure ht.2
    refine From.bind (M := fun _ u => True) (.loop (fun _ u => u.ready = true) (ht.1 rfl)
      fun whole u _ ready => ?_) fun _ u hu _ =>
        .pure fun first => Nat.lt_of_lt_of_le (ht.2 first) hu.le
    obtain ⟨o, tells, found⟩ := Tells.operator? (c := c) u
    refine tells.bind ?_
    cases o with
    | none => exact .pure trivial
    | some o =>
      dsimp only
      split
      · exact .pure trivial
      · obtain ⟨apart, ho⟩ := found o rfl
        exact (From.applied r.inner ready apart ho).bind fun _ _ _ hv => .pure ⟨hv.2, hv.1⟩

/-- The rule for expressions. -/
theorem From.expression {s : Spot} (hs : c.floor ≤ 2 * s.pos + 1) (r : Restrictions) (power : Nat)
    (hf : c.fresh) : c.From (boundedExpression r power) s fun a t =>
      (Rule.expression r power).Ensures c.input s.pos a t.pos := by
  refine From.bind (M := fun _ t => expressionFirst.contains (c.input.kind s.pos) = true →
    s.pos < t.pos) (.nested hf (From.climbing (c := c.nested) hs r power) fun t skipped first =>
      skipped ?_) fun _ _ _ ht => .pure ht
  generalize c.input.kind s.pos = k at first
  revert first
  cases k <;> decide

end Verbatim.Parser.Site
