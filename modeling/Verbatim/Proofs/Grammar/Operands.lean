import Verbatim.Parser.Expressions
import Verbatim.Proofs.Grammar.Supplies

/-!
# What expressions supply

An expression is written as one node of its family. Operators, suffixes and conditions count on where their
operands stand, so for these the rows are known in full.
-/
namespace Verbatim.Parser

open Skeleton

variable {input : Input}

/-- A program that writes one expression. -/
abbrev LeavesExpression (input : Input) {α : Type} (p : Parser α) : Prop :=
  Leaves input p fun _ new => ∃ k ∈ Kind.expressions, new = [.node k]

/-! ## Operands in lists -/

/-- A node of an expression that only needs some children wherever they stand. -/
theorem Supplies.expression {body : Parser Kind} {k : Kind} {ns : List Need} (h : Supplies input body (· = k) ns)
    (hk : k ∈ Kind.expressions) (sub : k.needs ⊆ ns) (free : ∀ row, k.Places row) :
    LeavesExpression input (nodeOf body) :=
  .nodeOf <| Leaves.imp h fun _ _ ⟨eq, hn⟩ => by
    subst eq
    exact ⟨hn.whole sub free, _, hk, rfl⟩

theorem leavesExpression_condition : LeavesExpression input condition :=
  (leaves_expression _ Nat.one_pos).bind fun _ _ h => .pure h

theorem grows_operand? (r : Restrictions) {power : Nat} (h : 0 < power) : Grows input (operand? r power) := by
  have start : Looks input (atExpression r) :=
    (looks_isAtAny _).bind fun _ => (looks_isAt _).bind fun _ => looks_pure _
  exact start.supplies fun _ => .ite (supplies_expression _ h).discard.grows (grows_pure _)

theorem leaves_argumentList : Leaves input argumentList fun _ new => new = [.node .argList] :=
  Supplies.node (.delimited fun _ => (looks_isAtAny _).supplies fun _ => .ite (grows_pure _)
    (supplies_expr.discard.andThen fun _ => grows_pure _).grows) (by decide) fun _ => trivial

theorem grows_fieldInit : Grows input fieldInit := by
  have start : Looks input atLabel := looks_current.bind fun k => by
    split
    iterate 2 exact (looks_nth _).bind fun _ => (looks_isAhead _ _).bind fun _ => looks_pure _
    exact looks_pure _
  exact ((Supplies.when start.grows (supplies_nameRef.andThen fun _ => supplies_bump _).grows).andThen fun _ =>
    supplies_expr.discard).grown (by decide) fun _ => trivial

theorem leaves_fieldInitList : Leaves input fieldInitList fun _ new => new = [.node .recordExprFieldList] := by
  refine Supplies.node ((supplies_bump _).andThen fun _ => (Supplies.while ?_).andThen fun _ =>
    (supplies_expect _).discard) (by decide) fun _ => trivial
  refine (looks_isAt _).supplies fun _ => (looks_isAt _).supplies fun _ => .ite (grows_pure _) ?_
  refine (looks_isAt _).supplies fun _ => .ite ((supplies_bump _).andThen fun _ =>
    (Supplies.when (looks_isAtAny _).grows supplies_expr.discard.grows).andThen fun _ => grows_pure _).grows ?_
  refine (looks_isAt _).supplies fun _ => .ite ((reports_strayBlock _).bind _).supplies ?_
  refine (looks_isAtAny _).supplies fun _ => .ite ((reports_skipOne _).bind _).supplies ?_
  exact grows_fieldInit.andThen fun _ => (Supplies.whenNot (looks_isAt _).grows
    (supplies_expect _).discard.grows).andThen fun _ => grows_pure _

theorem leavesExpression_pathExpression (r : Restrictions) : LeavesExpression input (pathExpression r) := by
  have path : Leaves input expressionPath fun _ new => ∃ k, new = [.node k] ∧ k = .path :=
    leaves_expressionPath.imp fun _ _ eq => ⟨_, eq, rfl⟩
  refine (Leaves.turns (K := fun _ k => k = .path) (N := fun _ k => k ∈ Kind.expressions) path fun _ =>
    .wrap ?_).imp fun _ _ ⟨k, eq, hk⟩ => ⟨k, hk, eq⟩
  rintro _ rfl
  have front : Meets [.node Kind.path] [.node [.path]] := meets_node (by decide)
  refine (looks_isAt _).leaves fun _ => .ite (fun _ => ?_) fun _ => .pure ?_
  · exact .bind leaves_fieldInitList.node fun _ new ⟨_, hnew⟩ => .pure
      ⟨(meets_append hnew front).whole (k := .recordExpr) (by decide) fun _ => trivial, by decide⟩
  · exact ⟨front.whole (k := .pathExpr) (by decide) fun _ => trivial, by decide⟩

theorem leavesExpression_parenOrTuple : LeavesExpression input parenOrTuple := by
  refine Leaves.imp (N := fun k new => (k = .parenExpr ∨ k = .tupleExpr) ∧ new = [.node k])
    (leaves_parenthesized (n := .expression) (fun (count, comma) => ?_) (by decide) (fun _ => trivial) (by decide)
      fun _ => trivial) fun k _ ⟨kind, eq⟩ => ⟨k, by rcases kind with rfl | rfl <;> decide, eq⟩
  refine (looks_isAt _).leaves fun _ => (looks_isAt _).leaves fun _ => .ite (fun _ => .pure (.inl rfl)) fun _ => ?_
  refine (looks_isAtAny _).leaves fun _ => .ite (fun _ => ((reports_recover _ _).bind _).leaves) fun _ => ?_
  refine .bind supplies_expr.discard fun _ new ⟨_, hnew⟩ => .bind (grows_eat _) fun more late _ => ?_
  have met : Meets (late ++ new) [.expression] := meets_append (meets_nil late) hnew
  exact .ite (fun _ => .pure met) fun _ => .pure (.inr met)

theorem leavesExpression_array : LeavesExpression input array := by
  refine .nodeOf (.bind (supplies_bump .leftBracket) fun _ bra ⟨_, hbra⟩ => .bind (leaves_eat _) fun empty ket hket =>
    .ite (fun yes => .pure ?_) fun _ => ?_)
  · obtain rfl : ket = [.token .rightBracket] := by simpa [yes] using hket
    exact ⟨(meets_append (meets_token _) hbra).whole (k := .arrayExpr) (by decide) fun _ => trivial, _, by decide, rfl⟩
  · have tail : Grows input arrayTail :=
      (grows_eat _).andThen fun _ => .ite supplies_expr.discard.grows <| .while <| (grows_eat _).andThen fun _ =>
        .ite (grows_pure _) <| (looks_isAt _).supplies fun _ => .ite (grows_pure _)
          (supplies_expr.discard.andThen fun _ => grows_pure _).grows
    refine .bind supplies_expr.discard.grows fun _ _ _ => .bind tail fun _ _ _ =>
      .bind (supplies_expect .rightBracket).discard fun _ end_ ⟨_, hend⟩ => .pure ?_
    exact ⟨(meets_append hend.behind.behind.behind hbra).whole (k := .arrayExpr) (by decide) fun _ => trivial, _,
      by decide, rfl⟩

/-! ## Expressions with blocks -/

theorem leavesExpression_closure : LeavesExpression input closure := by
  have body : Supplies input closureBody (fun _ => True) [.expression] := by
    refine (looks_isAt _).supplies fun _ => .ite ?_ <| (looks_isAtAny _).supplies fun _ => .ite
      supplies_expr.discard (reports_expected _).supplies
    have block : Supplies input block (fun _ => True) [.expression] :=
      leaves_block.imp fun _ _ eq => ⟨trivial, eq ▸ meets_node (by decide)⟩
    exact (grows_returnType? false).andThen fun _ => block
  exact Supplies.expression (k := .closureExpr) ((grows_eat _).discard.andThen fun _ =>
    leaves_closureParamList.node.andThen fun _ => body.andThen fun _ => .pure rfl) (by decide) (by decide)
    fun _ => trivial

/-- The block behind the condition comes before any `else`. -/
theorem leaves_ifExpression :
    Leaves input ifExpression fun k new => k = .ifExpr ∧ new = [.node .ifExpr] := by
  have otherwise : Grows input (when (eat .elseKw) do
      if ← isAt .ifKw then discard <| call .ifExpression
      else block) :=
    .when (grows_eat _) <| (looks_isAt _).supplies fun _ => .ite (grows_call .ifExpression trivial).discard
      leaves_block.node.grows
  refine .nodeOf (.bind (leaves_bump .ifKw) fun _ word hw => .bind leavesExpression_condition fun _ test ⟨k, hk, ht⟩ =>
    .bind leaves_block fun _ then_ hb => .bind otherwise fun _ more _ => .pure ?_)
  subst hw ht hb
  rw [List.append_assoc, List.append_assoc]
  have needs : Meets [.node .blockExpr, .node k, .token .ifKw] [.token .ifKw, .expression] :=
    .token (by simp) (.node (by simp) hk (meets_nil _))
  exact ⟨needs.ahead.placed (k := .ifExpr) (by decide) ⟨more, k, rfl, hk⟩, rfl, rfl⟩

theorem leavesExpression_letCondition (r : Restrictions) : LeavesExpression input (letCondition r) :=
  Supplies.expression (k := .letExpr) ((supplies_bump _).andThen fun _ =>
    leavesPattern_alternatives.supplies.andThen fun _ => (supplies_expect _).discard.andThen fun _ =>
    (supplies_expression _ (by decide)).discard.andThen fun _ => .pure rfl) (by decide) (by decide) fun _ => trivial

theorem leavesExpression_loopExpression : LeavesExpression input loopExpression :=
  Supplies.expression (k := .loopExpr) ((supplies_bump _).andThen fun _ => leaves_block.node.andThen fun _ =>
    .pure rfl) (by decide) (by decide) fun _ => trivial

theorem leavesExpression_whileExpression : LeavesExpression input whileExpression := by
  refine .nodeOf (.bind (leaves_bump .whileKw) fun _ word hw => .bind leavesExpression_condition
    fun _ test ⟨k, hk, ht⟩ => .bind leaves_block fun _ body hb => .pure ?_)
  subst hw ht hb
  have needs : Meets [.node .blockExpr, .node k, .token .whileKw] [.token .whileKw, .expression] :=
    .token (by simp) (.node (by simp) hk (meets_nil _))
  exact ⟨needs.placed (k := .whileExpr) (by decide) ⟨k, rfl, hk⟩, _, by decide, rfl⟩

theorem leavesExpression_forExpression : LeavesExpression input forExpression := by
  have range : Leaves input (when (expect .inKw) condition) fun _ new =>
      ∃ k ∈ Kind.expressions, new = [.node k, .token .inKw] :=
    .bind (leaves_expect .inKw) fun b word ⟨hb, hw⟩ => by
      subst hb hw
      exact leavesExpression_condition.imp fun _ _ ⟨k, hk, eq⟩ => ⟨k, hk, by rw [eq]; rfl⟩
  refine .nodeOf (.bind (leaves_bump .forKw) fun _ word hw => .bind leavesPattern_alternatives fun _ pat ⟨p, hp, ha⟩ =>
    .bind range fun _ test ⟨k, hk, ht⟩ => .bind leaves_block fun _ body hb => .pure ?_)
  subst hw ha ht hb
  have needs : Meets [.node .blockExpr, .node k, .token .inKw, .node p, .token .forKw]
      [.token .forKw, .pattern, .token .inKw, .expression] :=
    .token (by simp) (.node (by simp) hp (.token (by simp) (.node (by simp) hk (meets_nil _))))
  exact ⟨needs.placed (k := .forExpr) (by decide) ⟨k, p, rfl, hk, hp⟩, _, by decide, rfl⟩

theorem grows_matchArm : Grows input matchArm := by
  refine (looks_isAtAny _).supplies fun _ => (looks_isAt _).supplies fun _ => .ite ?_ (reports_skipOne _).supplies
  have guard : Grows input matchGuard :=
    ((supplies_bump _).andThen fun _ => supplies_expr.discard).grown (by decide) fun _ => trivial
  exact (leavesPattern_alternatives.supplies.andThen fun _ =>
    (Supplies.when (looks_isAt _).grows guard).andThen fun _ => (supplies_expect _).discard.andThen fun _ =>
    supplies_expr.andThen fun _ => (grows_eat _).andThen fun _ => Supplies.when
      ((looks_isAt _).grows.andThen fun _ => grows_pure _) (reports_error _).supplies).grown (by decide)
    fun _ => trivial

theorem supplies_matchArmList :
    Supplies input matchArmList (fun _ => True) [.token .leftBrace, .token .rightBrace] :=
  (supplies_bump _).andThen fun _ => (Supplies.untilBrace <| (looks_isAt _).supplies fun _ =>
    .ite (reports_strayBlock _).supplies (.orSkip _ grows_matchArm)).andThen fun _ => (supplies_expect _).discard

theorem leavesExpression_matchExpression : LeavesExpression input matchExpression := by
  have subject : Supplies input condition (fun _ => True) [.expression] :=
    (supplies_expression _ Nat.one_pos).discard
  exact Supplies.expression (k := .matchExpr) ((supplies_bump _).andThen fun _ => subject.andThen fun _ =>
    (leaves_body _).node.andThen fun _ => .pure rfl) (by decide) (by decide) fun _ => trivial

theorem leavesExpression_blockExpression : LeavesExpression input blockExpression := by
  have modifiers : Grows input blockModifiers :=
    (grows_eat _).andThen fun _ => .ite (grows_eat _).discard (.whenNot (grows_eat _) (grows_eat _).discard)
  exact Supplies.expression (k := .blockExpr) (modifiers.andThen fun _ => (supplies_list .stmtList).andThen fun _ =>
    .pure rfl) (by decide) (by decide) fun _ => trivial

theorem leavesExpression_returnExpression (r : Restrictions) : LeavesExpression input (returnExpression r) :=
  Supplies.expression (k := .returnExpr) ((supplies_bump _).andThen fun _ =>
    (grows_operand? r Nat.one_pos).andThen fun _ => .pure rfl) (by decide) (by decide) fun _ => trivial

theorem leavesExpression_breakExpression (r : Restrictions) : LeavesExpression input (breakExpression r) :=
  Supplies.expression (k := .breakExpr) ((supplies_bump _).andThen fun _ =>
    (Supplies.when (looks_isAt _).grows supplies_lifetime.grows).andThen fun _ =>
    (grows_operand? r Nat.one_pos).andThen fun _ => .pure rfl) (by decide) (by decide) fun _ => trivial

theorem leavesExpression_continueExpression : LeavesExpression input continueExpression :=
  Supplies.expression (k := .continueExpr) ((supplies_bump _).andThen fun _ =>
    (Supplies.when (looks_isAt _).grows supplies_lifetime.grows).andThen fun _ => .pure rfl) (by decide) (by decide)
    fun _ => trivial

/-! ## Operands -/

/-- A program that yields what it has found, and writes one expression. -/
abbrev FindsExpression (input : Input) {α : Type} (p : Parser (Option α)) : Prop :=
  Leaves input p fun found new => found.isSome = true ∧ ∃ k ∈ Kind.expressions, new = [.node k]

theorem LeavesExpression.finds {α β : Type} {p : Parser α} (h : LeavesExpression input p) (f : α → β) :
    FindsExpression input (do return some (f (← p))) :=
  .bind h fun _ _ hn => .pure ⟨rfl, hn⟩

theorem looks_atModifiedBlock : Looks input atModifiedBlock := looks_current.bind fun k => by
  split
  iterate 2 exact looks_isNth _ _
  · exact (looks_isNth _ _).bind fun _ => .ite (looks_pure _) ((looks_isNth _ _).both (looks_isNth _ _))
  · exact looks_pure _

theorem finds_compound? (r : Restrictions) : FindsExpression input (compound? r) := by
  have found {p : Parser Kind} (h : LeavesExpression input p) : FindsExpression input (some <$> p) :=
    h.finds id
  have lonely : FindsExpression input lonelyModifier := ((reports_skipOne _).bind _).leaves
  refine looks_current.leaves fun k => ?_
  split
  · exact found leavesExpression_parenOrTuple
  · exact found leavesExpression_array
  · exact found leavesExpression_closure
  · exact (looks_isNth _ _).leaves fun _ => .ite (fun _ => found leavesExpression_closure) fun _ => lonely
  · exact found (leaves_ifExpression.imp fun _ _ h => ⟨_, by decide, h.2⟩)
  · exact found (leavesExpression_letCondition r)
  · exact found leavesExpression_loopExpression
  · exact found leavesExpression_whileExpression
  · exact found leavesExpression_forExpression
  · exact found leavesExpression_matchExpression
  · exact found leavesExpression_blockExpression
  iterate 3
    · exact looks_atModifiedBlock.leaves fun _ =>
        .ite (fun _ => found leavesExpression_blockExpression) fun _ => lonely
  · exact found (leavesExpression_returnExpression r)
  · exact found (leavesExpression_breakExpression r)
  · exact found leavesExpression_continueExpression
  · exact ((reports_recover _ _).bind _).leaves

theorem finds_atom? (r : Restrictions) : FindsExpression input (atom? r) := by
  refine .bind leaves_literal? fun found new h => ?_
  rcases h with ⟨rfl, rfl⟩ | ⟨rfl, rfl⟩
  · exact .pure ⟨rfl, _, by decide, rfl⟩
  · refine looks_atPath.leaves fun _ => .ite (fun _ => ?_) fun _ => ?_
    · exact .bind (leavesExpression_pathExpression r) fun _ _ ⟨k, hk, eq⟩ => .pure ⟨rfl, k, hk, by simp [eq]⟩
    · exact .bind (finds_compound? r) fun c _ ⟨found, k, hk, eq⟩ => .pure ⟨by simpa using found, k, hk, by simp [eq]⟩

/-! ## Suffixes -/

/-- The kind of a node that is an expression. -/
abbrev IsExpression (k : Kind) : Prop := k ∈ Kind.expressions

theorem meets_expression {k : Kind} (h : IsExpression k) : Meets [.node k] [.expression] := meets_node h

/-- A node around an expression that only needs some children wherever they stand. -/
theorem Supplies.behind {body : Parser Kind} {k : Kind} {ns : List Need} (h : Supplies input body (· = k) ns)
    (hk : IsExpression k) (sub : k.needs ⊆ .expression :: ns) (free : ∀ row, k.Places row) :
    Turns input (Parser.wrap body) IsExpression fun _ => IsExpression :=
  (Turns.supplied h (fun _ => meets_expression) sub free).imp fun _ _ eq => eq ▸ hk

theorem turns_callExpression : Turns input callExpression IsExpression fun _ => IsExpression :=
  Supplies.behind (k := .callExpr) (leaves_argumentList.node.andThen fun _ => .pure rfl) (by decide) (by decide)
    fun _ => trivial

theorem turns_indexExpression : Turns input indexExpression IsExpression fun _ => IsExpression := by
  refine .wrap fun x hx => .bind (leaves_bump .leftBracket) fun _ bra hbra => .bind
    (M := fun _ new => ∃ k ∈ Kind.expressions, new = [.node k])
    ((leaves_expression _ Nat.one_pos).bind fun _ _ h => .pure h) fun _ index ⟨k, hk, hi⟩ => .bind
    (M := fun _ new => new = [.token .rightBracket]) ((leaves_expect .rightBracket).bind fun _ _ h => .pure h.2)
    fun _ ket hket => .pure ?_
  subst hbra hi hket
  exact ⟨⟨rfl, x, k, rfl, hx, hk⟩, by decide⟩

theorem looks_atMethodCall : Looks input atMethodCall :=
  (looks_isAt _).bind fun _ => .ite (looks_pure _) <| (looks_isNth _ _).bind fun _ => .ite (looks_pure _)
    ((looks_isAhead _ _).both (looks_isNth _ _))

theorem turns_member : Turns input member IsExpression fun _ => IsExpression := by
  have arguments : Supplies input methodArguments (fun _ => True) [.node [.argList]] :=
    (looks_isAt _).supplies fun _ => .ite leaves_argumentList.node (reports_expected _).supplies
  have method : Supplies input methodCall (· = .methodCallExpr)
      ([.node [.nameRef]] ++ ([] ++ ([.node [.argList]] ++ []))) :=
    supplies_nameRef.andThen fun _ => (Supplies.when (looks_isAt _).grows (grows_genericArgList true)).andThen fun _ =>
      arguments.andThen fun _ => .pure rfl
  have field : Supplies input fieldName (fun _ => True) [.node [.nameRef]] :=
    (looks_isAt _).supplies fun _ => (looks_isAt _).supplies fun _ => .ite supplies_nameRef
      (reports_expected _).supplies
  refine .wrap fun x hx => .bind (supplies_bump .dot) fun _ dot ⟨_, hdot⟩ => looks_atMethodCall.leaves fun _ =>
    .ite (fun _ => ?_) fun _ => ?_
  · refine Leaves.imp method fun k new ⟨hk, hnew⟩ => ?_
    subst hk
    exact ⟨(meets_append (meets_append hnew hdot) (meets_expression hx)).whole (by decide) fun _ => trivial,
      by decide⟩
  · refine .bind field fun _ new ⟨_, hnew⟩ => .pure ?_
    exact ⟨(meets_append (meets_append hnew hdot) (meets_expression hx)).whole (k := .fieldExpr) (by decide)
      fun _ => trivial, by decide⟩

theorem turns_tryExpression : Turns input tryExpression IsExpression fun _ => IsExpression :=
  Supplies.behind (k := .tryExpr) ((supplies_bump _).andThen fun _ => .pure rfl) (by decide) (by decide)
    fun _ => trivial

theorem turns_suffixes (e : Operand) (callable : Bool) :
    Turns input (suffixes e callable) IsExpression fun _ => IsExpression := by
  have again {p : Parser Kind} (h : Turns input p IsExpression fun _ => IsExpression) :
      Turns input (do return ForInStep.yield (Operand.mk (← p) false, true)) IsExpression fun _ => IsExpression :=
    .bind h fun _ => .pure fun _ hk => hk
  have stop (a : Operand × Bool) : Turns input (pure (ForInStep.done a)) IsExpression fun _ => IsExpression :=
    .pure fun _ hk => hk
  refine .bind (N := fun _ => IsExpression) (.loop fun (e, callable) => Turns.imp (N := fun _ => IsExpression) ?_
    fun r _ hl => by cases r <;> exact hl) fun _ => .pure fun _ hk => hk
  refine looks_current.turns fun k => ?_
  split
  · exact .ite (fun _ => again turns_callExpression) fun _ => stop _
  · exact .ite (fun _ => again turns_indexExpression) fun _ => stop _
  · exact (looks_isAt _).turns fun _ => .ite (fun _ => stop _) fun _ => again turns_member
  · exact again turns_tryExpression
  · exact stop _

/-! ## Operators -/

theorem leavesExpression_openRange (r : Restrictions) : LeavesExpression input (openRange r) := by
  have dots : Leaves input (whenNot (eat .dot2Eq) (bump .dot2)) fun _ new =>
      new = [.token .dot2Eq] ∨ new = [.token .dot2] := by
    refine .bind (leaves_eat .dot2Eq) fun b mark hm => ?_
    cases b with
    | true => exact .pure (.inl hm)
    | false => exact (leaves_bump .dot2).imp fun _ new eq => .inr (by rw [eq, hm]; rfl)
  refine .nodeOf (.bind dots fun _ mark hm => .bind (grows_operand? r (by decide)) fun _ more _ => .pure
    ⟨⟨rfl, ?_⟩, _, by decide, rfl⟩)
  rcases hm with rfl | rfl
  · exact .inr (by simp)
  · exact .inl (by simp)

/-- The token of a prefix is the one at hand. -/
theorem fills_prefixExpression (r : Restrictions) {i : Nat} (h : (UnaryOperator.ofKind? (input.kind i)).isSome)
    (row : List Mark) : (prefixExpression r).Fills input i row fun _ _ row' => row' = .node .prefixExpr :: row := by
  refine ⟨fun _ => ?_, fun stop => ?_⟩
  · have rest : Leaves input (do
        discard <| call (.expression r.inner prefixPower)
        return Kind.prefixExpr) fun k new => k = Kind.prefixExpr ∧ ∃ a ∈ Kind.expressions, new = [.node a] :=
      .bind (leaves_expression _ (by decide)) fun _ _ ha => .pure ⟨rfl, ha⟩
    refine rest.fills fun k _ new ⟨hk, a, ha, eq⟩ => ?_
    subst hk eq
    have needs : Meets ([.node a] ++ [.token (input.kind i)]) [.expression] := (meets_expression ha).behind
    exact ⟨needs.placed (k := .prefixExpr) (by decide) ⟨_, a, rfl, h⟩, rfl⟩
  · rw [stop] at h
    cases h

theorem leavesExpression_refExpression (r : Restrictions) : LeavesExpression input (refExpression r) :=
  Supplies.expression (k := .refExpr) ((supplies_bump _).andThen fun _ => (grows_eat _).discard.andThen fun _ =>
    (supplies_expression _ (by decide)).discard.andThen fun _ => .pure rfl) (by decide) (by decide) fun _ => trivial

theorem finds_operand (r : Restrictions) : FindsExpression input (operand r) := by
  have prefixed {k : Kind} (h : (UnaryOperator.ofKind? k).isSome) {i : Nat} (here : input.kind i = k)
      (row : List Mark) : Fills input (do return some ⟨← prefixExpression r, false⟩) i row
        fun (found : Option Operand) _ row' => ∃ new, row' = new ++ row ∧ found.isSome = true ∧
          ∃ k ∈ Kind.expressions, new = [.node k] :=
    Fills.bind <| (fills_prefixExpression r (here ▸ h) row).imp fun _ _ _ eq => ⟨[_], eq, rfl, _, by decide, rfl⟩
  refine fun i row => Fills.bind ?_
  dsimp only [current, Fills]
  split
  · next here => exact prefixed rfl here row
  · next here => exact prefixed rfl here row
  · next here => exact prefixed rfl here row
  · exact (leavesExpression_refExpression r).finds (fun k => Operand.mk k false) i row
  · refine (?_ : FindsExpression input _) i row
    refine (looks_isAt _).leaves fun _ => (looks_isAt _).leaves fun _ => .ite
      (fun _ => (leavesExpression_openRange r).finds fun k => Operand.mk k false) fun _ => ?_
    have atom : Leaves input (atom? r) fun found new =>
        ∃ k, new = [.node k] ∧ (found.isSome = true ∧ IsExpression k) :=
      (finds_atom? r).imp fun _ _ ⟨found, k, hk, eq⟩ => ⟨k, eq, found, hk⟩
    refine (Leaves.turns (K := fun found k => found.isSome = true ∧ IsExpression k)
      (N := fun found k => found.isSome = true ∧ IsExpression k) atom fun e => ?_).imp
      fun _ _ ⟨k, eq, found, hk⟩ => ⟨found, k, hk, eq⟩
    cases e with
    | none => exact fun _ _ _ hk => absurd hk.1 nofun
    | some e =>
      refine .bind (N := fun _ => IsExpression) ?_ fun _ => .pure fun _ hk => ⟨rfl, hk⟩
      exact fun i k row hk => turns_suffixes e _ i k row hk.2

theorem binary_of_operator {k : Kind} : ∀ o ∈ operators k, 0 < o.power → o.token ≠ .asKw → o.token ≠ .dot2 →
    o.token ≠ .dot2Eq → (BinaryOperator.ofKind? o.token).isSome := by
  cases k <;> decide

/-- Where an operator is taken, the next of its operands stand around it. -/
theorem turns_applied (r : Restrictions) {k : Kind} {o : Operator} (ho : o ∈ operators k) (power : 0 < o.power) :
    Turns input (applied r o) IsExpression fun _ => IsExpression := by
  refine .wrap fun x hx => .bind (leaves_bump o.token) fun _ sign hs => ?_
  subst hs
  split
  · next cast =>
    rw [cast]
    refine .bind (supplies_type false) fun _ new ⟨_, hnew⟩ => .pure ⟨?_, by decide⟩
    exact (meets_append (meets_append hnew (meets_token .asKw)) (meets_expression hx)).whole (k := .castExpr)
      (by decide) fun _ => trivial
  · next dots =>
    rw [dots]
    exact .bind (grows_operand? r (Nat.succ_pos _)) fun _ new _ => .pure ⟨⟨rfl, .inl (by simp)⟩, by decide⟩
  · next dots =>
    rw [dots]
    exact .bind (grows_operand? r (Nat.succ_pos _)) fun _ new _ => .pure ⟨⟨rfl, .inr (by simp)⟩, by decide⟩
  · next cast dots dots' =>
    have tight : 0 < if o.groupsRight then o.power else o.power + 1 := by split <;> omega
    refine .bind (M := fun _ new => ∃ k ∈ Kind.expressions, new = [.node k])
      ((leaves_expression _ tight).bind fun _ _ h => .pure h) fun _ new ⟨b, hb, eq⟩ => .pure ⟨⟨rfl, ?_⟩, by decide⟩
    subst eq
    exact ⟨x, o.token, b, rfl, hx, hb, binary_of_operator o ho power cast dots dots'⟩

theorem leaves_operator? : Leaves input operator? fun found new => new = [] ∧
    ∀ o, found = some o → ∃ k, o ∈ operators k := by
  have first (os : List Operator) : Leaves input (firstAt os) fun found new => new = [] ∧
      ∀ o, found = some o → o ∈ os := by
    induction os with
    | nil => exact .pure ⟨rfl, nofun⟩
    | cons o os ih =>
      refine (looks_isAt _).leaves fun _ => .ite (fun _ => .pure ⟨rfl, ?_⟩) fun _ =>
        ih.imp fun _ _ ⟨same, found⟩ => ⟨same, fun o' h => List.mem_cons_of_mem _ (found o' h)⟩
      rintro _ ⟨⟩
      exact List.mem_cons_self ..
  exact looks_current.leaves fun k => (first _).imp fun _ _ ⟨same, found⟩ => ⟨same, fun o h => ⟨k, found o h⟩⟩

theorem finds_climbing (r : Restrictions) {power : Nat} (hp : 0 < power) :
    FindsExpression input (climbing r power) := by
  have lhs : Leaves input (operand r) fun found new =>
      ∃ k, new = [.node k] ∧ (found.isSome = true ∧ IsExpression k) :=
    (finds_operand r).imp fun _ _ ⟨found, k, hk, eq⟩ => ⟨k, eq, found, hk⟩
  refine (Leaves.turns (K := fun found k => found.isSome = true ∧ IsExpression k)
    (N := fun found k => found.isSome = true ∧ IsExpression k) lhs fun e => ?_).imp
    fun _ _ ⟨k, eq, found, hk⟩ => ⟨found, k, hk, eq⟩
  cases e with
  | none => exact fun _ _ _ hk => absurd hk.1 nofun
  | some e =>
    refine .ite (fun _ => .pure fun _ hk => ⟨rfl, hk.2⟩) fun _ => .bind (N := fun _ => IsExpression) ?_
      fun _ => .pure fun _ hk => ⟨rfl, hk⟩
    refine fun i k row hk => Turns.loop (K := IsExpression) (N := fun _ => IsExpression) (fun whole => ?_) i k row hk.2
    refine Turns.imp (N := fun _ => IsExpression) (fun i k row hk => leaves_operator?.fills
      fun found j new ⟨same, known⟩ => ?_) fun r _ hl => by cases r <;> exact hl
    subst same
    cases found with
    | none => exact ⟨k, rfl, hk⟩
    | some o =>
      obtain ⟨start, ho⟩ := known o rfl
      have step : Turns input (do
          if o.power < power then return .done whole
          return .yield (← applied r.inner o)) IsExpression fun (_ : ForInStep Kind) => IsExpression :=
        .ite (fun _ => .pure fun _ hk => hk) fun tight =>
          .bind (turns_applied r.inner ho (by omega)) fun _ => .pure fun _ hk => hk
      exact step j k row hk

theorem finds_boundedExpression (r : Restrictions) {power : Nat} (hp : 0 < power) :
    FindsExpression input (boundedExpression r power) :=
  (finds_climbing r hp).nested.bind fun found _ ⟨e, eq, h⟩ => .pure (by subst eq; exact h)

end Verbatim.Parser
