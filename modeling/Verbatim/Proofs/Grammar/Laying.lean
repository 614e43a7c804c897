import Verbatim.Proofs.Grammar.Closed
import Verbatim.Proofs.Laying

/-!
# What expressions, items and statements lay down

An expression, an item and a statement each leave one node, or error nodes where there is none. A list of
statements may end in an expression without a semicolon, and only in front of its closing brace.
-/
namespace Verbatim.Parser

open Mark

variable {input : Input} {α : Type} {i : Nat} {row : List Mark}

/-! ## Expressions -/

/-- A program that puts an expression in front of a row. -/
def LaysExpression (input : Input) (p : Parser α) : Prop :=
  ∀ i row, p.Lays input i row fun _ _ row' => ∃ k ∈ Kind.expressions, row' = .node k :: row

/-- A program that goes on from a node and leaves an expression in its place. -/
def LaysAround (input : Input) (p : Parser α) : Prop :=
  ∀ i x row, p.Lays input i (.node x :: row) fun _ _ row' => ∃ k ∈ Kind.expressions, row' = .node k :: row

/-- A program that puts an expression in front of a row, if it finds one. -/
def LaysOperand (input : Input) (p : Parser (Option α)) : Prop :=
  ∀ i row, p.Lays input i row fun found _ row' => IsFound row found.isSome row'

theorem Returns.expression {body : Parser Kind} (h : Returns input body (· ∈ Kind.expressions)) :
    LaysExpression input (nodeOf body) := fun _ _ => h.lays_node fun k _ hk => ⟨k, hk, rfl⟩

theorem Returns.around {body : Parser Kind} (h : Returns input body (· ∈ Kind.expressions)) :
    LaysAround input (wrap body) := fun _ _ _ => h.lays_wrap fun k _ hk => ⟨k, hk, rfl⟩

theorem LaysExpression.operand {β : Type} {p : Parser α} (h : LaysExpression input p) (f : α → β) :
    LaysOperand input (do return some (f (← p))) := h

theorem lays_literal? {Q : Option Kind → Nat → List Mark → Prop}
    (found : ∀ j, Q (some .literal) j (.node .literal :: row)) (absent : Q none i row) :
    literal?.Lays input i row Q := by
  have node : Returns input (do bumpAny; return Kind.literal) (· = .literal) := .after fun _ => .pure rfl
  refine (Peeks.isAtAny _).lays fun _ => .ite (fun _ => node.lays_node fun k j hk => ?_) fun _ => absent
  subst hk
  exact found j

/-- A path is one node, however long it is. -/
theorem lays_expressionPath {Q : Unit → Nat → List Mark → Prop} (h : ∀ j, Q () j (.node .path :: row)) :
    expressionPath.Lays input i row Q := by
  have first : Returns input (do
      pathSegment (when atTurbofish (genericArgList true)) true
      return Kind.path) (· = .path) := .after fun _ => .pure rfl
  have further : Returns input (do
      bump .colon2
      pathSegment (when atTurbofish (genericArgList true)) false
      return Kind.path) (· = .path) := .after fun _ => .after fun _ => .pure rfl
  refine Lays.bind (.discard (first.lays_node fun k j hk => ?_))
  subst hk
  refine Lays.while (fun _ row' => row' = .node .path :: row) rfl fun j _ eq => ?_
  subst eq
  refine (Peeks.isAt _).lays fun _ => .ite (fun _ => h j) fun _ => 
    Lays.bind (.discard (further.lays_wrap fun k j hk => ?_))
  subst hk
  rfl

theorem laysExpression_pathExpression (r : Restrictions) : LaysExpression input (pathExpression r) := by
  have around : Returns input (do
      if (← isAt .leftBrace) && !r.forbidRecords then
        fieldInitList
        return Kind.recordExpr
      return Kind.pathExpr) (· ∈ Kind.expressions) :=
    .after fun _ => .ite (.after fun _ => .pure (by decide)) (.pure (by decide))
  exact fun i row => lays_expressionPath fun j => around.around j .path row

theorem laysOperand_lonelyModifier : LaysOperand input lonelyModifier :=
  fun _ _ => lays_skipOne _ fun _ new h => ⟨new, rfl, h⟩

theorem laysExpression_parenOrTuple : LaysExpression input parenOrTuple :=
  Returns.expression <| .after fun _ => .after fun (count, comma) => .after fun _ => .pure (by split <;> decide)

theorem laysExpression_array : LaysExpression input array :=
  Returns.expression <| .after fun _ => .after fun _ => .ite (.pure (by decide)) <| .after fun _ =>
    .after fun _ => .after fun _ => .pure (by decide)

theorem laysExpression_closure : LaysExpression input closure :=
  Returns.expression <| .after fun _ => .after fun _ => .after fun _ => .pure (by decide)

theorem laysExpression_ifExpression : LaysExpression input ifExpression :=
  Returns.expression <| .after fun _ => .after fun _ => .after fun _ => .after fun _ => .pure (by decide)

theorem laysExpression_letCondition (r : Restrictions) : LaysExpression input (letCondition r) :=
  Returns.expression <| .after fun _ => .after fun _ => .after fun _ => .after fun _ => .pure (by decide)

theorem laysExpression_loopExpression : LaysExpression input loopExpression :=
  Returns.expression <| .after fun _ => .after fun _ => .pure (by decide)

theorem laysExpression_whileExpression : LaysExpression input whileExpression :=
  Returns.expression <| .after fun _ => .after fun _ => .after fun _ => .pure (by decide)

theorem laysExpression_forExpression : LaysExpression input forExpression :=
  Returns.expression <| .after fun _ => .after fun _ => .after fun _ => .after fun _ => .pure (by decide)

theorem laysExpression_matchExpression : LaysExpression input matchExpression :=
  Returns.expression <| .after fun _ => .after fun _ => .after fun _ => .pure (by decide)

theorem laysExpression_blockExpression : LaysExpression input blockExpression :=
  Returns.expression <| .after fun _ => .after fun _ => .pure (by decide)

theorem laysExpression_returnExpression (r : Restrictions) : LaysExpression input (returnExpression r) :=
  Returns.expression <| .after fun _ => .after fun _ => .pure (by decide)

theorem laysExpression_breakExpression (r : Restrictions) : LaysExpression input (breakExpression r) :=
  Returns.expression <| .after fun _ => .after fun _ => .after fun _ => .pure (by decide)

theorem laysExpression_continueExpression : LaysExpression input continueExpression :=
  Returns.expression <| .after fun _ => .after fun _ => .pure (by decide)

theorem peeks_atModifiedBlock : Peeks input atModifiedBlock := Peeks.current.bind fun k => by
  split
  iterate 2 exact .isNth _ _
  · exact (Peeks.isNth _ _).bind fun _ => .ite (.pure _) (.both (.isNth _ _) (.isNth _ _))
  · exact .pure _

theorem laysOperand_compound? (r : Restrictions) : LaysOperand input (compound? r) := by
  refine fun i row => Peeks.current.lays fun k => ?_
  split
  · exact laysExpression_parenOrTuple.operand id i row
  · exact laysExpression_array.operand id i row
  · exact laysExpression_closure.operand id i row
  · exact (Peeks.isNth _ _).lays fun _ => .ite (fun _ => laysExpression_closure.operand id i row) fun _ =>
      laysOperand_lonelyModifier i row
  · exact laysExpression_ifExpression.operand id i row
  · exact (laysExpression_letCondition r).operand id i row
  · exact laysExpression_loopExpression.operand id i row
  · exact laysExpression_whileExpression.operand id i row
  · exact laysExpression_forExpression.operand id i row
  · exact laysExpression_matchExpression.operand id i row
  · exact laysExpression_blockExpression.operand id i row
  iterate 3
    · exact peeks_atModifiedBlock.lays fun _ => .ite (fun _ => laysExpression_blockExpression.operand id i row)
        fun _ => laysOperand_lonelyModifier i row
  · exact (laysExpression_returnExpression r).operand id i row
  · exact (laysExpression_breakExpression r).operand id i row
  · exact laysExpression_continueExpression.operand id i row
  · exact lays_recover _ _ fun _ new h => ⟨new, rfl, h⟩

theorem peeks_atPath : Peeks input atPath :=
  (Peeks.isAtAny _).bind fun _ => (Peeks.isAt _).bind fun _ => .pure _

theorem laysOperand_atom? (r : Restrictions) : LaysOperand input (atom? r) := by
  refine fun i row => lays_literal? (fun j => ⟨.literal, by decide, rfl⟩) ?_
  refine peeks_atPath.lays fun _ => .ite (fun _ => (laysExpression_pathExpression r).operand _ i row) fun _ => ?_
  exact (laysOperand_compound? r i row).imp fun found _ _ h => by cases found <;> exact h

/-! ## Suffixes and operators -/

theorem laysAround_callExpression : LaysAround input callExpression :=
  Returns.around <| .after fun _ => .pure (by decide)

theorem laysAround_indexExpression : LaysAround input indexExpression :=
  Returns.around <| .after fun _ => .after fun _ => .after fun _ => .pure (by decide)

theorem laysAround_member : LaysAround input member := by
  have called : Returns input methodCall (· ∈ Kind.expressions) :=
    .after fun _ => .after fun _ => .after fun _ => .pure (by decide)
  exact Returns.around <| .after fun _ => .after fun _ => .ite called <| .after fun _ => .pure (by decide)

theorem laysAround_tryExpression : LaysAround input tryExpression :=
  Returns.around <| .after fun _ => .pure (by decide)

theorem laysAround_suffixes (e : Operand) (callable : Bool) {x : Kind} (hx : x ∈ Kind.expressions) (i : Nat)
    (row : List Mark) : (suffixes e callable).Lays input i (.node x :: row) fun _ _ row' =>
      ∃ k ∈ Kind.expressions, row' = .node k :: row := by
  refine Lays.bind (Lays.loop (fun _ row' => ∃ k ∈ Kind.expressions, row' = .node k :: row) ⟨x, hx, rfl⟩ ?_)
  rintro ⟨e, callable⟩ j _ ⟨l, hl, rfl⟩
  refine Peeks.current.lays fun t => ?_
  split
  · exact .ite (fun _ => laysAround_callExpression j l row) fun _ => ⟨l, hl, rfl⟩
  · exact .ite (fun _ => laysAround_indexExpression j l row) fun _ => ⟨l, hl, rfl⟩
  · exact (Peeks.isAt _).lays fun _ => .ite (fun _ => ⟨l, hl, rfl⟩) fun _ => laysAround_member j l row
  · exact laysAround_tryExpression j l row
  · exact ⟨l, hl, rfl⟩

theorem laysExpression_openRange (r : Restrictions) : LaysExpression input (openRange r) :=
  Returns.expression <| .after fun _ => .after fun _ => .pure (by decide)

theorem laysExpression_prefixExpression (r : Restrictions) : LaysExpression input (prefixExpression r) :=
  Returns.expression <| .after fun _ => .after fun _ => .pure (by decide)

theorem laysExpression_refExpression (r : Restrictions) : LaysExpression input (refExpression r) :=
  Returns.expression <| .after fun _ => .after fun _ => .after fun _ => .pure (by decide)

theorem laysOperand_operand (r : Restrictions) : LaysOperand input (operand r) := by
  refine fun i row => Peeks.current.lays fun k => ?_
  split
  iterate 3 exact (laysExpression_prefixExpression r).operand _ i row
  · exact (laysExpression_refExpression r).operand _ i row
  · refine (Peeks.isAt _).lays fun _ => (Peeks.isAt _).lays fun _ => .ite
      (fun _ => (laysExpression_openRange r).operand _ i row) fun _ => ?_
    refine Lays.bind ((laysOperand_atom? r i row).imp fun found j row' h => ?_)
    cases found with
    | none => exact h
    | some e =>
      obtain ⟨k, hk, rfl⟩ := h
      exact laysAround_suffixes e _ hk j row

theorem laysAround_applied (r : Restrictions) (o : Operator) : LaysAround input (applied r o) :=
  Returns.around <| .after fun _ => by
    split
    · exact .after fun _ => .pure (by decide)
    · exact .after fun _ => .pure (by decide)
    · exact .after fun _ => .pure (by decide)
    · exact .after fun _ => .pure (by decide)

theorem peeks_operator? : Peeks input operator? := by
  have first (os : List Operator) : Peeks input (firstAt os) := by
    induction os with
    | nil => exact .pure _
    | cons o os ih => exact (Peeks.isAt _).bind fun _ => .ite (.pure _) ih
  exact Peeks.current.bind fun k => first _

theorem laysOperand_climbing (r : Restrictions) (power : Nat) : LaysOperand input (climbing r power) := by
  refine fun i row => Lays.bind ((laysOperand_operand r i row).imp fun found j row' h => ?_)
  cases found with
  | none => exact h
  | some lhs =>
    obtain ⟨k, hk, rfl⟩ := h
    refine .ite (fun _ => ⟨k, hk, rfl⟩) fun _ => ?_
    refine Lays.bind (Lays.loop (fun _ row' => ∃ k ∈ Kind.expressions, row' = .node k :: row) ⟨k, hk, rfl⟩ ?_)
    rintro whole j _ ⟨l, hl, rfl⟩
    refine peeks_operator?.lays fun found => ?_
    cases found with
    | none => exact ⟨l, hl, rfl⟩
    | some o => exact .ite (fun _ => ⟨l, hl, rfl⟩) fun _ => laysAround_applied r.inner o j l row

theorem laysOperand_boundedExpression (r : Restrictions) (power : Nat) :
    LaysOperand input (boundedExpression r power) := fun i row =>
  ⟨laysOperand_climbing r power i row, lays_node .error _ fun _ => ⟨[_], rfl, by simp⟩⟩

/-! ## Items -/

/-- A visibility is left only where one is told. -/
theorem lays_visibility? : visibility?.Lays input i row fun visible _ row' => visible = false → row' = row :=
  (Peeks.isAt _).lays fun _ => .ite (fun _ _ => rfl) fun _ => lays_node _ _ fun _ => nofun

theorem peeks_modifierCount : Peeks input modifierCount :=
  (Peeks.nth _).bind fun _ => .ite (.pure _) <| (Peeks.nth _).bind fun _ => .ite (.pure _) <|
    (Peeks.nth _).bind fun _ => .ite (.pure _) (.pure _)

theorem returns_function : Returns input function (· ∈ Kind.items) :=
  .after fun _ => .after fun _ => .after fun _ => .after fun _ => .after fun _ => .after fun _ => .after fun _ =>
    .after fun _ => .pure (by decide)

/-- A declaration tells the kind of an item; where there is none, nothing is taken. -/
theorem lays_declaration? : declaration?.Lays input i row fun found _ row' =>
    (∀ k ∈ found, k ∈ Kind.items) ∧ (found = none → row' = row) := by
  have some_ {p : Parser Kind} (h : Returns input p (· ∈ Kind.items)) : (some <$> p).Lays input i row
      fun found _ row' => (∀ k ∈ found, k ∈ Kind.items) ∧ (found = none → row' = row) :=
    (h i row).imp fun k _ _ hk => ⟨fun l hl => Option.some.inj hl ▸ hk, nofun⟩
  have none_ : (pure none : Parser (Option Kind)).Lays input i row
      fun found _ row' => (∀ k ∈ found, k ∈ Kind.items) ∧ (found = none → row' = row) :=
    ⟨nofun, fun _ => rfl⟩
  have trait_ : Returns input traitItem (· ∈ Kind.items) :=
    .after fun _ => .after fun _ => .after fun _ => .after fun _ => .after fun _ => .after fun _ => .after fun _ =>
      .pure (by decide)
  have impl_ : Returns input implementation (· ∈ Kind.items) :=
    .after fun _ => .after fun _ => .after fun _ => .after fun _ => .after fun _ => .after fun _ => .after fun _ =>
      .after fun _ => .pure (by decide)
  refine Peeks.current.lays fun k => ?_
  split
  · refine (Peeks.nth _).lays fun k => ?_
    split
    iterate 2 exact some_ <| .after fun _ => .after fun _ => .after fun _ => .pure (by decide)
    · exact none_
  · refine (Peeks.nth _).lays fun k => ?_
    split
    · exact some_ trait_
    · exact some_ impl_
    · exact none_
  · exact some_ <| .after fun _ => .after fun _ => .after fun _ => .after fun _ => .pure (by decide)
  · exact some_ <| .after fun _ => .after fun _ => .after fun _ => .after fun _ => .pure (by decide)
  · exact some_ <| .after fun _ => .after fun _ => .after fun _ => .after fun _ => .after fun _ => .pure (by decide)
  · exact some_ trait_
  · exact some_ impl_
  · exact some_ <| .after fun _ => .after fun _ => .after fun _ => .pure (by decide)
  · exact some_ <| .after fun _ => .after fun _ => .after fun _ => .pure (by decide)
  · exact some_ <| .after fun _ => .after fun _ => .after fun _ => .after fun _ => .after fun _ => .after fun _ =>
      .after fun _ => .pure (by decide)
  · exact none_

theorem lays_item : item.Lays input i row fun found _ row' => Rule.item.Lays row found row' := by
  refine Lays.bind (Lays.bind (lays_visibility?.imp fun visible j inner seen => ?_))
  refine peeks_modifierCount.lays fun n => (Peeks.nth n).lays fun k => .ite (fun _ => ?_) fun _ => ?_
  · exact (returns_function j inner).imp fun k _ _ hk => ⟨k, List.mem_cons_of_mem _ hk, rfl⟩
  · refine Lays.bind (lays_declaration?.imp fun found j inner' ⟨known, absent⟩ => ?_)
    cases found with
    | some k => exact ⟨k, List.mem_cons_of_mem _ (known k rfl), rfl⟩
    | none =>
      cases visible with
      | true => exact ⟨.error, List.mem_cons_self, rfl⟩
      | false =>
        obtain rfl : inner' = [] := (absent rfl).trans (seen rfl)
        exact List.nil_append row

/-! ## Statements -/

theorem lays_letStatement {Q : Unit → Nat → List Mark → Prop} (h : ∀ j, Q () j (.node .letStmt :: row)) :
    letStatement.Lays input i row Q := lays_node _ _ h

/-- What a list of statements has laid on its brace: entries, and in front of a closing brace maybe an
expression. -/
def Entered (input : Input) (front : List Mark) (i : Nat) (row : List Mark) : Prop :=
  ∃ mid, (∀ m ∈ mid, IsEntry m) ∧ (row = mid ++ front ∨
    input.kind i = .rightBrace ∧ ∃ k ∈ Kind.expressions, row = .node k :: mid ++ front)

theorem Entered.inner {front : List Mark} (h : Entered input front i row) (open_ : input.kind i ≠ .rightBrace) :
    ∃ mid, (∀ m ∈ mid, IsEntry m) ∧ row = mid ++ front := by
  obtain ⟨mid, entries, eq | ⟨close, -⟩⟩ := h
  · exact ⟨mid, entries, eq⟩
  · exact absurd close open_

section

variable {front mid : List Mark} (entries : ∀ m ∈ mid, IsEntry m)
include entries

theorem entered_append {new : List Mark} (h : ∀ m ∈ new, IsEntry m) (i : Nat) :
    Entered input front i (new ++ (mid ++ front)) := by
  refine ⟨new ++ mid, fun m hm => ?_, .inl (List.append_assoc ..).symm⟩
  exact (List.mem_append.mp hm).elim (h m) (entries m)

theorem entered_errors {new : List Mark} (h : ∀ m ∈ new, m = .node .error) (i : Nat) :
    Entered input front i (new ++ (mid ++ front)) :=
  entered_append entries (fun m hm => h m hm ▸ isEntry_error) i

theorem entered_cons {m : Mark} (h : IsEntry m) (i : Nat) : Entered input front i (m :: (mid ++ front)) :=
  entered_append entries (show ∀ n ∈ [m], IsEntry n by simpa using h) i

/-- An expression stays bare only where the brace is at hand. -/
theorem lays_expressionStatement : expressionStatement.Lays input i (mid ++ front) fun _ => Entered input front := by
  refine Lays.discard (Lays.bind (p := call _) fun found j inner laid => ?_)
  cases found with
  | none =>
    obtain ⟨new, rfl, errors⟩ := laid
    have errors : ∀ m ∈ new ++ [], m = .node .error := by simpa using errors
    exact entered_errors entries errors j
  | some e =>
    obtain ⟨k, hk, rfl⟩ := laid
    change Lays input (isAt .rightBrace >>= _) _ _ _
    refine Lays.ite (fun close => ?_) fun _ => ?_
    · have brace : input.kind j = .rightBrace := by simpa [Input.isAt_simple (k := .rightBrace) rfl] using close
      exact ⟨mid, entries, .inr ⟨brace, k, hk, rfl⟩⟩
    · have returns : Returns input (do
          let closed ← eat .semicolon
          when (pure (!closed && !e.blockLike)) (error (.missing .semicolon))
          return some Kind.exprStmt) (· = some .exprStmt) := .after fun _ => .after fun _ => .pure rfl
      refine (returns j [.node k]).imp fun made t _ hm => ?_
      subst hm
      exact entered_cons entries (isEntry_statement (by decide)) t

theorem lays_statement : statement.Lays input i (mid ++ front) fun _ => Entered input front := by
  refine Peeks.current.lays fun k => ?_
  split
  · exact ⟨fun _ => entered_cons (m := .token .semicolon) entries rfl _, fun _ => trivial⟩
  · rintro ⟨⟩ j _ rfl
    exact entered_cons entries (isEntry_statement (by decide)) j
  · refine Lays.bind (p := call .item) fun found j row' laid => ?_
    cases found with
    | true =>
      obtain ⟨k, hk, rfl⟩ := laid
      refine entered_cons entries ?_ j
      rcases List.mem_cons.mp hk with rfl | item
      · exact isEntry_error
      · exact isEntry_statement (.tail _ (.tail _ item))
    | false =>
      obtain rfl : row' = mid ++ front := laid
      refine (Peeks.isAtAny _).lays fun _ => .ite (fun _ => lays_expressionStatement entries) fun _ => ?_
      exact lays_skipOne _ fun t new errors => entered_errors entries errors t

end

/-- A statement that has taken nothing stands in front of no closing brace, so it has left no bare expression
and a token may be skipped behind it. -/
theorem lays_statements {front : List Mark} (h : Entered input front i row) :
    statements.Lays input i row fun _ => Entered input front := by
  refine Lays.while (Entered input front) h fun j row' entered => ?_
  refine Lays.bind (p := isAt .eof) (Lays.bind (p := isAt .rightBrace) (.ite (fun _ => entered) fun inside => ?_))
  have open_ : input.kind j ≠ .rightBrace := by
    intro close
    simp [Input.isAt_simple (k := .rightBrace) rfl, close] at inside
  obtain ⟨mid, entries, rfl⟩ := entered.inner open_
  refine Lays.bind (Lays.bind (Lays.bind (p := watch statement) ?_))
  refine (lays_statement entries).imp fun _ t row'' after => ?_
  refine Lays.ite (fun stuck => ?_) fun _ => after
  obtain rfl : t = j := by simpa using stuck
  obtain ⟨mid, entries, rfl⟩ := after.inner open_
  exact lays_node _ _ fun u => entered_cons entries isEntry_error u

/-- A list of statements that stands where its brace is. -/
theorem lays_statementList (h : input.kind i = .leftBrace) :
    statementList.Lays input i [] fun _ _ => IsStatements := by
  have brace : input.isAt i .leftBrace = true := Input.isAt_of_kind h rfl
  refine Lays.bind ⟨fun _ => ?_, fun absent => absurd brace (by simp [absent])⟩
  have start : Entered input [.token .leftBrace] (i + Kind.leftBrace.pieces.length) [.token .leftBrace] :=
    ⟨[], nofun, .inl rfl⟩
  refine Lays.bind ((lays_statements start).imp fun _ j row entered => ?_)
  refine Lays.discard (Lays.bind ⟨fun _ => ?_, fun no_brace => ?_⟩)
  · obtain ⟨mid, entries, rfl | ⟨-, k, hk, rfl⟩⟩ := entered
    · exact ⟨_, mid, rfl, .brace, entries⟩
    · exact ⟨_, mid, rfl, .tail hk, entries⟩
  · have open_ : input.kind j ≠ .rightBrace := by simpa [Input.isAt_simple (k := .rightBrace) rfl] using no_brace
    obtain ⟨mid, entries, rfl⟩ := entered.inner open_
    exact ⟨[], mid, rfl, .missing, entries⟩

/-! ## Called rules and lists -/

theorem lays_rule (r : Rule) (i : Nat) (row : List Mark) :
    r.body.Lays input i row fun a _ row' => r.Lays row a row' := by
  cases r with
  | expression r power => exact laysOperand_boundedExpression r power i row
  | item => exact lays_item.imp fun found _ _ laid => by cases found <;> exact laid
  | letStatement => exact lays_letStatement fun _ => rfl
  | _ => exact lays_any _ _ _

theorem lays_fragment (f : Fragment) (h : input.kind i = .leftBrace) :
    f.body.Lays input i [] fun _ _ row => f.kind = .stmtList → IsStatements row := by
  cases f with
  | stmtList => exact (lays_statementList h).imp fun _ _ _ made _ => made
  | _ => exact (lays_any _ _ _).imp fun _ _ _ _ => nofun

theorem laying_drafters {allowed : Nat → Prop} (levels : Nat) :
    Laying (drafters input levels) (guards input allowed levels) := by
  induction levels with
  | zero => exact ⟨fun _ _ _ _ safe => absurd safe id, fun _ _ _ safe => absurd safe id⟩
  | succ levels ih =>
    refine ⟨fun r F depth s safe h => lays_draft ih r.body safe h (lays_rule r _ _), fun f depth s safe h => ?_⟩
    obtain ⟨brace, safe⟩ := safe
    obtain ⟨inside, made⟩ := lays_draft ih f.body safe (s := s.opened) trivial (lays_fragment f brace)
    exact ⟨allOf_write h ⟨⟨made, inside⟩, trivial⟩, marksOf_node ..⟩

/-- In the outline of a text every list of statements is made up as one. -/
theorem listed_sourceFile (input : Input) : ListedOf (outline sourceFile input).row :=
  (lays_draft (laying_drafters _) sourceFile (runs_sourceFile input).1.safe trivial (lays_any _ _ _)).1

end Verbatim.Parser
