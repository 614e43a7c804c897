import Verbatim.Parser.Closed
import Verbatim.Proofs.Grammar.Operands

/-!
# What items supply

An item is written as one node that has all it needs. With it the circle of rules is closed: whatever the parser
writes where it reports nothing is whole.
-/
namespace Verbatim.Parser

open Outline Skeleton

variable {input : Input}

/-! ## Fields and bodies -/

theorem grows_modifiers : Grows input modifiers :=
  Supplies.discard <| .growing fun next => looks_current.supplies fun k => by
    split
    · exact grows_pure _
    · exact .ite ((reports_skipOne _).bind _).supplies (grows_bumpAny.andThen fun _ => grows_pure _)

theorem supplies_paramListOr : Supplies input paramListOr (fun _ => True) [.node [.paramList]] :=
  (looks_isAt _).supplies fun _ => .ite leaves_paramList.node (reports_expected _).supplies

theorem supplies_typedValue :
    Supplies input typedValue (fun _ => True) [.token .colon, .type, .token .semicolon] :=
  (Supplies.whenExpect (supplies_type true)).andThen fun _ =>
    (Supplies.when (grows_eat _) supplies_expr.discard.grows).andThen fun _ => (supplies_expect _).discard

theorem grows_recordField (isFirst : Bool) : Grows input (recordField isFirst) :=
  (looks_isAtAny _).supplies fun _ => .ite (grows_pure _) <|
    (grows_visibility?.discard.andThen fun _ => (supplies_nameOr _).andThen fun _ =>
      .whenExpect (supplies_type true)).found (by decide) fun _ => trivial

theorem supplies_recordFieldList :
    Supplies input recordFieldList (fun _ => True) [.token .leftBrace, .token .rightBrace] :=
  .delimited grows_recordField

theorem grows_tupleField (isFirst : Bool) : Grows input (tupleField isFirst) :=
  (looks_isAt _).supplies fun _ => (looks_isAtAny _).supplies fun _ => .ite
    ((grows_visibility?.discard.andThen fun _ => supplies_type true).found (by decide) fun _ => trivial) (grows_pure _)

theorem leaves_tupleFieldList : Leaves input tupleFieldList fun _ new => new = [.node .tupleFieldList] :=
  (Supplies.delimited grows_tupleField).node (by decide) fun _ => trivial

theorem grows_structBody : Grows input structBody := by
  refine (looks_isAt _).supplies fun _ => .ite ?_ ?_
  · exact (leaves_tupleFieldList.node.andThen fun _ => grows_whereClause?.andThen fun _ =>
      (supplies_expect _).discard).grows
  · exact grows_whereClause?.andThen fun _ => (looks_isAt _).supplies fun _ => .ite (supplies_list _).grows
      (.whenNot (grows_eat _) (reports_expected _).supplies)

theorem grows_variant (isFirst : Bool) : Grows input (variant isFirst) := by
  have fields : Grows input variantFields := looks_current.supplies fun k => by
    split
    · exact (supplies_list _).grows
    · exact leaves_tupleFieldList.node.grows
    · exact grows_pure _
  exact (looks_isAtAny _).supplies fun _ => .ite (grows_pure _) <|
    (grows_visibility?.discard.andThen fun _ => (supplies_nameOr _).andThen fun _ => fields.andThen fun _ =>
      .when (grows_eat _) supplies_expr.discard.grows).found (by decide) fun _ => trivial

theorem supplies_variantList :
    Supplies input variantList (fun _ => True) [.token .leftBrace, .token .rightBrace] :=
  .delimited grows_variant

theorem grows_contents (braced : Bool) : Grows input (contents braced) := by
  have one : Grows input itemOrError := (grows_call .item trivial).andThen fun _ => .ite
    (looks_current.supplies fun k => by
      split
      · exact (reports_strayBlock _).supplies
      · exact (((reports_error _).bind _).node .error).supplies
      · exact (reports_skipOne _).supplies) (grows_pure _)
  exact .while <| (looks_isAt _).supplies fun _ => (looks_isAt _).supplies fun _ => .ite (grows_pure _)
    (one.andThen fun _ => grows_pure _)

theorem supplies_bracedItems :
    Supplies input bracedItems (fun _ => True) [.token .leftBrace, .token .rightBrace] := by
  have inside : Grows input (discard <| nested (contents true)) :=
    Leaves.bind (grows_contents true).nested fun _ _ _ => .pure ⟨trivial, meets_nil _⟩
  exact (supplies_bump _).andThen fun _ => inside.andThen fun _ => (supplies_expect _).discard

/-! ## Imports -/

theorem supplies_useTreeList :
    Supplies input useTreeList (fun _ => True) [.token .leftBrace, .token .rightBrace] :=
  .delimited fun _ => grows_call (.useTree false) trivial

theorem grows_globOrList : Grows input globOrList := looks_current.supplies fun k => by
  split
  · exact (supplies_bump _).grows
  · exact (supplies_list _).grows
  · exact (reports_expected _).supplies

theorem grows_useTail : Grows input useTail := by
  exact (looks_isAt _).supplies fun _ => .ite
    (((supplies_bump _).andThen fun _ => Supplies.whenNot (grows_eat _) supplies_name.grows).grown (by decide)
      fun _ => trivial) (.when (grows_eat _) grows_globOrList)

/-- An import that is found is a node. -/
theorem leaves_useTree? :
    Leaves input useTree? fun found new => found.isSome = true → new = [.node .useTree] := by
  have tree {k : Kind} (h : some Kind.useTree = some k) : k = .useTree := (Option.some.inj h).symm
  have group : Looks input atRootGroup := (looks_isAt _).both <| (looks_nth _).bind fun k => by
    split <;> exact looks_pure _
  refine .nodeIf (Leaves.imp (N := fun found _ => ∀ k, found = some k → k = .useTree) ?_
    fun found new h => ⟨fun k hk => ?_, fun none some => ?_⟩)
  · refine looks_current.leaves fun k => ?_
    split
    · exact .bind (supplies_bump _) fun _ _ _ => .pure fun _ => tree
    · exact .bind (supplies_list _) fun _ _ _ => .pure fun _ => tree
    · refine group.leaves fun _ => .ite (fun _ => ?_) fun _ => looks_atPath.leaves fun _ =>
        .ite (fun _ => ?_) fun _ => .pure nofun
      · exact .bind (supplies_bump _) fun _ _ _ => .bind grows_globOrList fun _ _ _ => .pure fun _ => tree
      · exact .bind leaves_usePath fun _ _ _ => .bind grows_useTail fun _ _ _ => .pure fun _ => tree
  · obtain rfl := h k hk
    exact ⟨⟨rfl, trivial⟩, fun _ => rfl⟩
  · rw [none] at some
    cases some

theorem leaves_useTree (topLevel : Bool) :
    Leaves input (useTree topLevel) (Rule.useTree topLevel).Fills := by
  refine .bind leaves_useTree? fun found new h => ?_
  cases topLevel with
  | false =>
    exact .bind (Supplies.when (grows_pure _) (reports_recover _ _).supplies) fun _ _ _ =>
      .pure (N := fun _ _ => True) trivial
  | true =>
    cases found with
    | none => exact .bind (M := fun _ _ => False) (fun i row => reports_recover _ _ i row _) fun _ _ h => h.elim
    | some k =>
      refine .bind (M := fun _ more => more = []) (fun _ _ => ⟨[], rfl, rfl⟩) fun _ more eq => ?_
      subst eq
      exact .pure (h rfl)

/-! ## Items -/

theorem forms_function : Forms input function some :=
  Supplies.forms (k := .fn) (grows_modifiers.andThen fun _ => (supplies_bump _).andThen fun _ =>
    (supplies_nameOr _).andThen fun _ => grows_genericParamList?.andThen fun _ => supplies_paramListOr.andThen fun _ =>
    (grows_returnType? true).andThen fun _ => grows_whereClause?.andThen fun _ =>
    (Supplies.whenNot (grows_eat _) leaves_block.node.grows).andThen fun _ => .pure rfl) (by decide) fun _ => trivial

theorem forms_constant : Forms input constant some :=
  Supplies.forms (k := .const) ((supplies_bump _).andThen fun _ =>
    (Supplies.whenNot (grows_eat _) (supplies_nameOr _).grows).andThen fun _ => supplies_typedValue.andThen fun _ =>
    .pure rfl) (by decide) fun _ => trivial

theorem forms_staticItem : Forms input staticItem some :=
  Supplies.forms (k := .static) ((supplies_bump _).andThen fun _ => (grows_eat _).discard.andThen fun _ =>
    (supplies_nameOr _).andThen fun _ => supplies_typedValue.andThen fun _ => .pure rfl) (by decide) fun _ => trivial

theorem forms_structItem : Forms input structItem some :=
  Supplies.forms (k := .struct) ((supplies_bump _).andThen fun _ => (supplies_nameOr _).andThen fun _ =>
    grows_genericParamList?.andThen fun _ => grows_structBody.andThen fun _ => .pure rfl) (by decide) fun _ => trivial

theorem forms_enumeration : Forms input enumeration some :=
  Supplies.forms (k := .enum) ((supplies_bump _).andThen fun _ => (supplies_nameOr _).andThen fun _ =>
    grows_genericParamList?.andThen fun _ => grows_whereClause?.andThen fun _ => (leaves_body _).node.andThen fun _ =>
    .pure rfl) (by decide) fun _ => trivial

theorem forms_traitItem : Forms input traitItem some :=
  Supplies.forms (k := .trait) ((grows_eat _).discard.andThen fun _ => (supplies_bump _).andThen fun _ =>
    (supplies_nameOr _).andThen fun _ => grows_genericParamList?.andThen fun _ =>
    (Supplies.when (grows_eat _) grows_typeBoundList?).andThen fun _ => grows_whereClause?.andThen fun _ =>
    (leaves_body _).node.andThen fun _ => .pure rfl) (by decide) fun _ => trivial

theorem forms_moduleItem : Forms input moduleItem some := by
  have body : Grows input moduleBody := (looks_isAt _).supplies fun _ => .ite (supplies_list _).grows
    (supplies_expect _).discard.grows
  exact Supplies.forms (k := .module) ((supplies_bump _).andThen fun _ => (supplies_nameOr _).andThen fun _ =>
    body.andThen fun _ => .pure rfl) (by decide) fun _ => trivial

theorem forms_useItem : Forms input useItem some := by
  have tree : Supplies input (discard <| call (.useTree true)) (fun _ => True) [.node [.useTree]] :=
    Supplies.discard (R := fun _ => True) fun _ _ =>
      ⟨trivial, fun _ _ new eq => ⟨new, rfl, trivial, eq ▸ meets_node (List.mem_singleton_self _)⟩⟩
  exact Supplies.forms (k := .use) ((supplies_bump _).andThen fun _ => tree.andThen fun _ =>
    (supplies_expect _).discard.andThen fun _ => .pure rfl) (by decide) fun _ => trivial

theorem forms_typeAlias : Forms input typeAlias some :=
  Supplies.forms (k := .typeAlias) ((supplies_bump _).andThen fun _ => (supplies_nameOr _).andThen fun _ =>
    grows_genericParamList?.andThen fun _ => (Supplies.when (grows_eat _) grows_typeBoundList?).andThen fun _ =>
    grows_whereClause?.andThen fun _ => (Supplies.when (grows_eat _) (supplies_type true).grows).andThen fun _ =>
    (supplies_expect _).discard.andThen fun _ => .pure rfl) (by decide) fun _ => trivial

/-- The type that is implemented stands behind `for`, which is no other child of the item. -/
theorem forms_implementation : Forms input implementation some := by
  have type : Leaves input (call (.type true)) fun _ new => ∃ k ∈ Kind.types, new = [.node k] :=
    fun _ _ => ⟨trivial, fun _ _ new h => ⟨new, rfl, h⟩⟩
  have target : Leaves input (when (eat .forKw) (call (.type true))) fun _ new =>
      new = [] ∨ ∃ k ∈ Kind.types, new = [.node k, .token .forKw] := by
    refine .bind (leaves_eat .forKw) fun b word hw => ?_
    cases b with
    | true => exact type.imp fun _ _ ⟨k, hk, eq⟩ => .inr ⟨k, hk, by rw [eq, hw]; rfl⟩
    | false => exact .pure (.inl hw)
  have mark (k : Kind) (hk : k ≠ .forKw) : Leaves input (discard <| eat k) fun _ new => .token .forKw ∉ new :=
    .bind (leaves_eat k) fun b _ h => .pure (by cases b <;> simp [h, Ne.symm hk])
  have optional {p : Parser Unit} {k : Kind} (h : Leaves input p fun _ new => new = [] ∨ new = [.node k]) :
      Leaves input p fun _ new => .token .forKw ∉ new :=
    h.imp fun _ _ h => by rcases h with rfl | rfl <;> simp
  refine .bind (mark .unsafeKw (by decide)) fun _ a ha => .bind (leaves_bump .implKw) fun _ b hb =>
    .bind (optional leaves_genericParamList?) fun _ c hc => .bind (mark .bang (by decide)) fun _ d hd =>
    .bind type fun _ e ⟨k, hk, he⟩ => .bind target fun _ f hf => .bind (optional leaves_whereClause?) fun _ g hg =>
    .bind (leaves_body _) fun _ h hh => .pure ?_
  rintro _ ⟨⟩ old none
  subst hb he hh
  refine ⟨?_, fun word => ?_⟩
  · refine List.all_eq_true.mpr ?_
    change Meets _ [.token .implKw, .type, .node [Fragment.assocItemList.kind]]
    exact .token (by simp) (.node (by simp) hk (.node (by simp) (List.mem_singleton_self _) (meets_nil _)))
  · rcases hf with rfl | ⟨k', hk', rfl⟩
    · simp [ha, hc, hd, hg, none] at word
    · exact ⟨[.node Fragment.assocItemList.kind] ++ g ++ [.node k'],
        [.node k] ++ d ++ c ++ [.token .implKw] ++ a ++ old, k', by simp, hk', by simp⟩

/-- A declaration that is found is whole, whatever visibility stands in front. -/
theorem forms_declaration? : Forms input declaration? id := by
  have found {p : Parser Kind} (h : Forms input p some) : Forms input (some <$> p) id :=
    Leaves.bind h fun _ _ h => .pure h
  refine looks_current.leaves fun k => ?_
  split
  · refine (looks_nth _).leaves fun k => ?_
    split
    · exact found forms_constant
    · exact found forms_constant
    · exact forms_none rfl
  · refine (looks_nth _).leaves fun k => ?_
    split
    · exact found forms_traitItem
    · exact found forms_implementation
    · exact forms_none rfl
  · exact found forms_staticItem
  · exact found forms_structItem
  · exact found forms_enumeration
  · exact found forms_traitItem
  · exact found forms_implementation
  · exact found forms_moduleItem
  · exact found forms_useItem
  · exact found forms_typeAlias
  · exact forms_none rfl

theorem grows_item : Grows input item := by
  have count : Looks input modifierCount :=
    (looks_nth _).bind fun _ => .ite (looks_pure _) <| (looks_nth _).bind fun _ => .ite (looks_pure _) <|
      (looks_nth _).bind fun _ => .ite (looks_pure _) (looks_pure _)
  refine Leaves.bind (Forms.nodeIf (.bind leaves_visibility? fun visible front hf => count.leaves fun n =>
    (looks_nth n).leaves fun k => ?_)) fun _ _ _ => .pure ⟨trivial, meets_nil _⟩
  have apart (old : List Mark) (h : .token .forKw ∉ old) : .token .forKw ∉ front ++ old := by
    subst hf
    split <;> simp [h]
  refine .ite (fun _ => ?_) fun _ => ?_
  · refine .bind forms_function fun k new h => .pure fun l hl old none => ?_
    simpa using h l hl (front ++ old) (apart old none)
  · refine .bind forms_declaration? fun found new h => ?_
    cases found with
    | some k =>
      refine .pure fun l hl old none => ?_
      simpa using h l hl (front ++ old) (apart old none)
    | none => exact .ite (fun _ => ((reports_expected _).bind _).leaves) fun _ => .pure nofun

/-! ## The circle of rules -/

/-- Every rule adds to a row what is known of it. -/
theorem leaves_rule (r : Rule) (h : r.Admits) : Leaves input r.body r.Fills := by
  cases r with
  | type bounds => exact leavesType_type bounds
  | pattern => exact leavesPattern_pattern
  | expression r power => exact finds_boundedExpression r h
  | item => exact Leaves.imp grows_item fun _ _ _ => trivial
  | letStatement => exact Leaves.imp grows_letStatement fun _ _ _ => trivial
  | useTree topLevel => exact leaves_useTree topLevel
  | ifExpression => exact leaves_ifExpression

theorem leaves_fragment (f : Fragment) : Leaves input (node f.kind f.body) fun _ new => new = [.node f.kind] := by
  cases f with
  | stmtList => exact supplies_statementList.node (by decide) fun _ => trivial
  | recordFieldList => exact supplies_recordFieldList.node (by decide) fun _ => trivial
  | itemList => exact supplies_bracedItems.node (by decide) fun _ => trivial
  | assocItemList => exact supplies_bracedItems.node (by decide) fun _ => trivial
  | variantList => exact supplies_variantList.node (by decide) fun _ => trivial
  | matchArmList => exact supplies_matchArmList.node (by decide) fun _ => trivial
  | useTreeList => exact supplies_useTreeList.node (by decide) fun _ => trivial

theorem filling_drafters (input : Input) (levels : Nat) : Filling (drafters input levels) := by
  induction levels with
  | zero => exact ⟨fun _ _ _ _ _ quiet => absurd quiet.2 id, fun _ _ _ _ quiet => absurd quiet.2 id⟩
  | succ levels ih =>
    have hg := growing_drafters input levels
    refine ⟨fun r depth s admits hs quiet => ?_, fun f depth s hs quiet => ?_⟩
    · obtain ⟨whole, new, eq, fills⟩ := fills_draft hg ih r.body depth s hs (leaves_rule r admits s.pos _) quiet
      exact ⟨whole, new, fills, eq⟩
    · obtain ⟨whole, new, eq, rfl⟩ :=
        fills_draft hg ih (node f.kind f.body) depth s hs (leaves_fragment f s.pos _) quiet
      exact ⟨whole, eq⟩

/-- The outline of a file in which nothing is reported is whole. -/
theorem whole_sourceFile (input : Input) (quiet : QuietOf (outline sourceFile input).row) :
    WholeOf (outline sourceFile input).row := by
  have file : Leaves input sourceFile fun _ new => new = [.node .sourceFile] :=
    (grows_contents false).node (by decide) fun _ => trivial
  exact (fills_draft (growing_drafters _ _) (filling_drafters input _) sourceFile 0 ⟨0, []⟩ trivial
    (file 0 _) quiet).1

end Verbatim.Parser
