import Verbatim.Proofs.Grouping

/-!
# Where operations come from

All of the grammar but the rule for expressions leaves operations to others: the nodes that it makes are of
other kinds.
-/
namespace Verbatim.Parser

/-! ## Steps -/

@[simp] theorem isOperation_ite (c : Prop) [Decidable c] (a b : Kind) :
    (if c then a else b).isOperation = if c then a.isOperation else b.isOperation :=
  apply_ite Kind.isOperation c a b

@[simp] theorem avoids_ite {α : Type} {R : α → Prop} (b : Prop) [Decidable b] (p q : Parser α) :
    (if b then p else q).Avoids R ↔ (b → p.Avoids R) ∧ (¬ b → q.Avoids R) := by
  split <;> simp_all

@[simp] theorem avoids_when (test : Parser Bool) (body : Parser Unit) {R : Unit → Prop} :
    (when test body).Avoids R ↔
      test.Avoids fun b => (b = true → body.Avoids R) ∧ (¬ b = true → R ()) := by
  simp [when]

@[simp] theorem avoids_whenNot (test : Parser Bool) (body : Parser Unit) {R : Unit → Prop} :
    (whenNot test body).Avoids R ↔
      test.Avoids fun b => (b = false → body.Avoids R) ∧ (¬ b = false → R ()) := by
  simp [whenNot]

@[simp] theorem avoids_both (p q : Parser Bool) {R : Bool → Prop} :
    (both p q).Avoids R ↔ p.Avoids fun b => (b = true → q.Avoids R) ∧ (¬ b = true → R false) := by
  simp [both]

@[simp] theorem avoids_isNth (n : Fin 4) (k : Kind) : (isNth n k).Avoids fun _ => True := by
  simp [isNth]

@[simp] theorem avoids_isAtAny (s : KindSet) : (isAtAny s).Avoids fun _ => True := by
  simp [isAtAny]

@[simp] theorem avoids_bump (k : Kind) : (bump k).Avoids fun _ => True := by
  simp [bump]

@[simp] theorem avoids_expect (k : Kind) : (expect k).Avoids fun _ => True := by
  simp [expect]

@[simp] theorem avoids_while (body : Parser Bool) :
    (while_ body).Avoids (fun _ => True) ↔ body.Avoids fun _ => True := by
  simp [while_]

@[simp] theorem avoids_isAtBraceOrEnd : isAtBraceOrEnd.Avoids fun _ => True := by
  simp only [isAtBraceOrEnd, avoids_bind, avoids_current]
  intro k
  split <;> simp

/-- What cannot be parsed is reported. -/
@[simp] theorem avoids_recover (cause : Cause) (recovery : KindSet) {R : Unit → Prop} :
    (recover cause recovery).Avoids R := by
  simp only [recover, avoids_bind]
  refine avoids_isAtBraceOrEnd.imp fun b _ => (avoids_isAtAny recovery).imp fun c _ => ?_
  simp

@[simp] theorem avoids_skipOne (cause : Cause) {R : Unit → Prop} : (skipOne cause).Avoids R :=
  avoids_recover cause .empty

@[simp] theorem avoids_nested {α : Type} (rule : Parser α) :
    (nested rule).Avoids (fun _ => True) ↔ rule.Avoids fun _ => True := by
  simp [nested, Avoids, tooDeep]

@[simp] theorem avoids_delimited (bra ket delim : Kind) (what : Expectation) (first recovery : KindSet)
    {element : Bool → Parser Bool} (h : ∀ isFirst, (element isFirst).Avoids fun _ => True) :
    (delimited bra ket delim what first recovery element).Avoids fun _ => True := by
  simp +decide [delimited, h]

/-! ## Names, paths and types -/

@[simp] theorem avoids_nameOr (recovery : KindSet) : (nameOr recovery).Avoids fun _ => True := by
  simp +decide [nameOr]

@[simp] theorem avoids_name : name.Avoids fun _ => True := avoids_nameOr .empty

@[simp] theorem avoids_nameRef : nameRef.Avoids fun _ => True := by
  simp +decide [nameRef]

@[simp] theorem avoids_lifetime : lifetime.Avoids fun _ => True := by
  simp +decide [lifetime]

@[simp] theorem avoids_atPath : atPath.Avoids fun _ => True := by
  simp [atPath]

@[simp] theorem avoids_pathWith {arguments : Parser Unit} {stops : Parser Bool}
    (ha : arguments.Avoids fun _ => True) (hs : stops.Avoids fun _ => True) :
    (pathWith arguments stops).Avoids fun _ => True := by
  simp +decide [pathWith, pathSegment, ha, hs]

@[simp] theorem avoids_usePath : usePath.Avoids fun _ => True := by
  refine avoids_pathWith (by simp) ?_
  simp only [avoids_bind, avoids_nth]
  intro k
  split <;> simp

@[simp] theorem avoids_visibility? : visibility?.Avoids fun _ => True := by
  have test : atScope.Avoids fun _ => True := by
    simp only [atScope, avoids_bind, avoids_isAt, avoids_ite]
    refine fun b => ⟨fun _ => trivial, fun _ k => ?_⟩
    dsimp only
    split <;> simp
  simp +decide [visibility?, test]

@[simp] theorem avoids_genericArgList (turbofish : Bool) :
    (genericArgList turbofish).Avoids fun _ => True := by
  have element (b : Bool) : (genericArg b).Avoids fun _ => True := by
    simp +decide [genericArg]
  simp +decide [genericArgList, element]

@[simp] theorem avoids_expressionPath : expressionPath.Avoids fun _ => True := by
  simp [expressionPath, atTurbofish]

@[simp] theorem avoids_typePath : typePath.Avoids fun _ => True := by
  simp [typePath, atTurbofish]

@[simp] theorem avoids_typeBoundList : typeBoundList.Avoids fun _ => True := by
  simp +decide [typeBoundList, typeBound, atTypeBound]

@[simp] theorem avoids_typeBoundList? : typeBoundList?.Avoids fun _ => True := by
  simp [typeBoundList?, atTypeBound]

@[simp] theorem avoids_lifetimeBounds : lifetimeBounds.Avoids fun _ => True := by
  simp +decide [lifetimeBounds]

@[simp] theorem avoids_genericParamList? : genericParamList?.Avoids fun _ => True := by
  have param (b : Bool) : (genericParam b).Avoids fun _ => True := by
    simp only [genericParam, avoids_bind, avoids_nodeIf, avoids_current]
    intro k
    split <;> simp +decide
  simp +decide [genericParamList?, param]

@[simp] theorem avoids_whereClause? : whereClause?.Avoids fun _ => True := by
  simp +decide [whereClause?, wherePredicate]

theorem avoids_boundedType (keyword : Kind) {kind : Kind} (bounds : Bool)
    (h : kind.isOperation = false) : (boundedType keyword kind bounds).Avoids fun _ => True := by
  simp +decide [boundedType, singleBound, pathType, atTypeBound, h]

@[simp] theorem avoids_parenOrTupleType : parenOrTupleType.Avoids fun _ => True := by
  simp +decide [parenOrTupleType]

@[simp] theorem avoids_singleType (bounds : Bool) : (singleType bounds).Avoids fun _ => True := by
  simp only [singleType, avoids_bind, avoids_current]
  intro k
  split
  · simp
  all_goals try exact avoids_boundedType _ _ (by decide)
  all_goals simp +decide [ptrType, refType, arrayOrSliceType, pathType]

@[simp] theorem avoids_returnType? (bounds : Bool) : (returnType? bounds).Avoids fun _ => True := by
  simp +decide [returnType?]

/-! ## Patterns and statements -/

@[simp] theorem avoids_literal? : literal?.Avoids fun _ => True := by
  simp +decide [literal?]

@[simp] theorem avoids_alternatives : alternatives.Avoids fun _ => True := by
  simp +decide [alternatives]

@[simp] theorem avoids_singlePattern : singlePattern.Avoids fun _ => True := by
  have test : atBinding.Avoids fun _ => True := by
    simp only [atBinding, avoids_bind, avoids_current]
    intro k
    split <;> simp
  simp only [singlePattern, avoids_bind, avoids_current]
  intro k
  split <;> simp +decide [test, identPattern, pathPattern, patternList]

@[simp] theorem avoids_paramList : paramList.Avoids fun _ => True := by
  simp +decide [paramList, atSelfParam, referenceMarks, selfParam, param]

@[simp] theorem avoids_closureParamList : closureParamList.Avoids fun _ => True := by
  simp +decide [closureParamList, closureParam]

@[simp] theorem avoids_statements : statements.Avoids fun _ => True := by
  have bare : expressionStatement.Avoids fun _ => True := by
    simp only [expressionStatement, avoids_discard, avoids_nodeIf, avoids_bind, avoids_call]
    intro e
    split <;> simp +decide
  have one : statement.Avoids fun _ => True := by
    simp only [statement, avoids_bind, avoids_current]
    intro k
    split <;> simp [bare]
  simp +decide [statements, untilBrace, orSkip, skipStuck, one]

@[simp] theorem avoids_statementList : statementList.Avoids fun _ => True := by
  simp [statementList]

@[simp] theorem avoids_block : block.Avoids fun _ => True := by
  simp +decide [block]

@[simp] theorem avoids_body (f : Fragment) : (body f).Avoids fun _ => True := by
  simp [body]

@[simp] theorem avoids_letStatement : letStatement.Avoids fun _ => True := by
  simp +decide [letStatement, expression]

@[simp] theorem avoids_strayBlock (what : Expectation) : (strayBlock what).Avoids fun _ => True := by
  simp +decide [strayBlock]

/-! ## Expressions that are no operations -/

@[simp] theorem avoids_expression : expression.Avoids fun _ => True := by
  simp [expression]

@[simp] theorem avoids_condition : condition.Avoids fun _ => True := by
  simp [condition]

@[simp] theorem avoids_operand? (r : Restrictions) (power : Nat) :
    (operand? r power).Avoids fun _ => True := by
  simp [operand?, atExpression]

@[simp] theorem avoids_argumentList : argumentList.Avoids fun _ => True := by
  simp +decide [argumentList]

@[simp] theorem avoids_fieldInitList : fieldInitList.Avoids fun _ => True := by
  have test : atLabel.Avoids fun _ => True := by
    simp only [atLabel, avoids_bind, avoids_current]
    intro k
    split <;> simp
  simp +decide [fieldInitList, fieldInit, test]

@[simp] theorem avoids_parenOrTuple : parenOrTuple.Avoids fun k => k.isOperation = false := by
  simp +decide [parenOrTuple]

@[simp] theorem avoids_array : array.Avoids fun k => k.isOperation = false := by
  simp +decide [array, arrayTail]

@[simp] theorem avoids_closure : closure.Avoids fun k => k.isOperation = false := by
  simp +decide [closure, closureBody]

@[simp] theorem avoids_ifExpression : ifExpression.Avoids fun k => k.isOperation = false := by
  simp +decide [ifExpression]

@[simp] theorem avoids_letCondition (r : Restrictions) :
    (letCondition r).Avoids fun k => k.isOperation = false := by
  simp +decide [letCondition]

@[simp] theorem avoids_loopExpression : loopExpression.Avoids fun k => k.isOperation = false := by
  simp +decide [loopExpression]

@[simp] theorem avoids_whileExpression : whileExpression.Avoids fun k => k.isOperation = false := by
  simp +decide [whileExpression]

@[simp] theorem avoids_forExpression : forExpression.Avoids fun k => k.isOperation = false := by
  simp +decide [forExpression]

@[simp] theorem avoids_matchExpression : matchExpression.Avoids fun k => k.isOperation = false := by
  simp +decide [matchExpression]

@[simp] theorem avoids_matchArmList : matchArmList.Avoids fun _ => True := by
  simp +decide [matchArmList, untilBrace, orSkip, skipStuck, matchArm, matchGuard]

@[simp] theorem avoids_blockExpression : blockExpression.Avoids fun k => k.isOperation = false := by
  simp +decide [blockExpression, blockModifiers]

@[simp] theorem avoids_returnExpression (r : Restrictions) :
    (returnExpression r).Avoids fun k => k.isOperation = false := by
  simp +decide [returnExpression]

@[simp] theorem avoids_breakExpression (r : Restrictions) :
    (breakExpression r).Avoids fun k => k.isOperation = false := by
  simp +decide [breakExpression]

@[simp] theorem avoids_continueExpression :
    continueExpression.Avoids fun k => k.isOperation = false := by
  simp +decide [continueExpression]

@[simp] theorem avoids_callExpression : callExpression.Avoids fun k => k.isOperation = false := by
  simp +decide [callExpression]

@[simp] theorem avoids_indexExpression : indexExpression.Avoids fun k => k.isOperation = false := by
  simp +decide [indexExpression]

@[simp] theorem avoids_tryExpression : tryExpression.Avoids fun k => k.isOperation = false := by
  simp +decide [tryExpression]

@[simp] theorem avoids_member : member.Avoids fun k => k.isOperation = false := by
  simp +decide [member, atMethodCall, methodCall, methodArguments, fieldName]

/-! ## Items -/

@[simp] theorem avoids_typedValue : typedValue.Avoids fun _ => True := by
  simp [typedValue]

@[simp] theorem avoids_function : function.Avoids fun k => k.isOperation = false := by
  have marks : modifiers.Avoids fun _ => True := by
    simp only [modifiers, avoids_discard, avoids_loop, avoids_bind, avoids_current]
    intro next k
    split <;> simp
  simp +decide [function, marks, paramListOr]

@[simp] theorem avoids_recordFieldList : recordFieldList.Avoids fun _ => True := by
  simp +decide [recordFieldList, recordField]

@[simp] theorem avoids_tupleFieldList : tupleFieldList.Avoids fun _ => True := by
  simp +decide [tupleFieldList, tupleField]

@[simp] theorem avoids_variantList : variantList.Avoids fun _ => True := by
  have fields : variantFields.Avoids fun _ => True := by
    simp only [variantFields, avoids_bind, avoids_current]
    intro k
    split <;> simp
  simp +decide [variantList, variant, fields]

@[simp] theorem avoids_contents (braced : Bool) : (contents braced).Avoids fun _ => True := by
  have one : itemOrError.Avoids fun _ => True := by
    simp only [itemOrError, avoids_bind, avoids_call, avoids_ite, avoids_current]
    refine fun b => ⟨fun _ k => ?_, fun _ => trivial⟩
    split <;> simp +decide
  simp [contents, one]

@[simp] theorem avoids_bracedItems : bracedItems.Avoids fun _ => True := by
  simp [bracedItems]

@[simp] theorem avoids_useTreeList : useTreeList.Avoids fun _ => True := by
  simp [useTreeList]

@[simp] theorem avoids_globOrList : globOrList.Avoids fun _ => True := by
  simp only [globOrList, avoids_bind, avoids_current]
  intro k
  split <;> simp

@[simp] theorem avoids_useTree (topLevel : Bool) : (useTree topLevel).Avoids fun _ => True := by
  have test : atRootGroup.Avoids fun _ => True := by
    simp only [atRootGroup, avoids_both, avoids_isAt, avoids_bind, avoids_nth]
    refine fun b => ⟨fun _ k => ?_, fun _ => trivial⟩
    split <;> simp
  have tree : useTree?.Avoids fun _ => True := by
    simp only [useTree?, avoids_nodeIf, avoids_bind, avoids_current]
    intro k
    split <;> simp +decide [test, useTail, rename]
  simp [useTree, tree]

theorem avoids_declaration? :
    declaration?.Avoids fun a => ∀ k, a = some k → k.isOperation = false := by
  have trait : traitItem.Avoids fun k => k.isOperation = false := by
    simp +decide [traitItem]
  have implementation : implementation.Avoids fun k => k.isOperation = false := by
    simp +decide [Parser.implementation]
  simp only [declaration?, avoids_bind, avoids_current]
  intro k
  split <;> try simp only [avoids_bind, avoids_nth]
  · intro k
    split <;> simp +decide [constant]
  · intro k
    split <;> simp [trait, implementation]
  all_goals simp +decide [trait, implementation, staticItem, structItem, structBody, enumeration, moduleItem,
    moduleBody, useItem, typeAlias]

@[simp] theorem avoids_item : item.Avoids fun _ => True := by
  have count : modifierCount.Avoids fun _ => True := by
    simp [modifierCount]
  simp only [item, avoids_bind, avoids_nodeIf, avoids_nth, avoids_pure, avoids_ite]
  refine avoids_visibility?.imp fun visible _ => count.imp fun n _ k => ⟨fun _ => ?_, fun _ => ?_⟩
  · simp
  · refine avoids_declaration?.imp fun a ha => ?_
    cases a with
    | some k => exact ⟨trivial, ha⟩
    | none => simp

end Verbatim.Parser
