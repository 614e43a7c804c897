import Verbatim.Parser.Statements
import Verbatim.Proofs.Supplies

/-!
# What names, types, patterns and statements supply

Each of these is written as one node that has all it needs, where nothing is reported.
-/
namespace Verbatim.Parser

open Skeleton

variable {input : Input}

/-! ## Names and paths -/

theorem leaves_nameOr (recovery : KindSet) : Leaves input (nameOr recovery) fun _ new => new = [.node .name] :=
  (looks_isAt _).leaves fun _ => (looks_isAt _).leaves fun _ =>
    .ite (fun _ => grows_bumpAny.node (by decide) fun _ => trivial) fun _ => (reports_recover _ _).leaves

theorem supplies_nameOr (recovery : KindSet) :
    Supplies input (nameOr recovery) (fun _ => True) [.node [.name]] := (leaves_nameOr recovery).node

theorem supplies_name : Supplies input name (fun _ => True) [.node [.name]] := supplies_nameOr .empty

theorem supplies_nameRef : Supplies input nameRef (fun _ => True) [.node [.nameRef]] :=
  Leaves.node <| (looks_isAtAny _).leaves fun _ =>
    .ite (fun _ => grows_bumpAny.node (by decide) fun _ => trivial) fun _ => (reports_skipOne _).leaves

theorem supplies_lifetime : Supplies input lifetime (fun _ => True) [.node [.lifetime]] :=
  Leaves.node <| (supplies_bump _).node (by decide) fun _ => trivial

theorem looks_atPath : Looks input atPath :=
  (looks_isAtAny _).bind fun _ => (looks_isAt _).bind fun _ => looks_pure _

theorem leaves_pathSegment {arguments : Parser Unit} (ha : Grows input arguments) (isFirst : Bool) :
    Leaves input (pathSegment arguments isFirst) fun _ new => new = [.node .pathSegment] := by
  have named : Supplies input (do nameRef; arguments) (fun _ => True) [.node [.nameRef]] :=
    supplies_nameRef.andThen fun _ => ha
  exact Supplies.node (.andThen (.when (grows_pure _) (grows_eat _).discard) fun _ =>
    (looks_isAtAny _).supplies fun _ => .ite named (reports_recover _ _).supplies) (by decide) fun _ => trivial

/-- A path is one node, however many segments it has. -/
theorem leaves_pathWith {arguments : Parser Unit} {stops : Parser Bool} (ha : Grows input arguments)
    (hs : Looks input stops) : Leaves input (pathWith arguments stops) fun _ new => new = [.node .path] := by
  have first : Leaves input (discard <| nodeOf do
      pathSegment arguments true
      return .path) fun _ new => ∃ k, new = [.node k] ∧ k = .path := by
    refine Leaves.nodeOf (N := fun _ new => ∃ k, new = [.node k] ∧ k = .path) ?_
    refine (leaves_pathSegment ha true).bind fun _ _ eq => .pure ?_
    subst eq
    exact ⟨⟨rfl, trivial⟩, _, rfl, rfl⟩
  refine (Leaves.turns (K := fun _ k => k = .path) (N := fun _ k => k = .path) first fun _ => ?_).imp
    fun _ _ ⟨k, eq, hk⟩ => hk ▸ eq
  refine .loop fun _ => .bind (N := fun _ k => k = .path) ?_ fun b => .pure fun k hk => by
    cases b <;> exact hk
  refine (looks_isAt _).turns fun _ => .ite (fun _ => .pure fun _ hk => hk) fun _ =>
    hs.turns fun _ => .ite (fun _ => .pure fun _ hk => hk) fun _ => ?_
  have further : Supplies input (do
      bump .colon2
      pathSegment arguments false
      return Kind.path) (· = .path) [.node [.pathSegment]] :=
    (supplies_bump _).grows.andThen fun _ => (leaves_pathSegment ha false).node.andThen fun _ => .pure rfl
  exact .bind (N := fun _ k => k = .path) (.discard (.supplied further (fun _ _ => meets_nil _) (by decide)
    fun _ => trivial)) fun _ => .pure fun _ hk => hk

theorem leaves_usePath : Leaves input usePath fun _ new => new = [.node .path] :=
  leaves_pathWith (grows_pure _) <| (looks_nth _).bind fun k => by split <;> exact looks_pure _

theorem looks_atScope : Looks input atScope :=
  (looks_isAt _).bind fun _ => .ite (looks_pure _) <| (looks_nth _).bind fun k => by
    split
    iterate 3 exact looks_isNth _ _
    exact looks_pure _

/-- A visibility is a node; else nothing is written. -/
theorem leaves_visibility? :
    Leaves input visibility? fun b new => new = if b = true then [.node .visibility] else [] := by
  refine (looks_isAt _).leaves fun _ => .ite (fun _ => .pure rfl) fun _ => ?_
  have scope : Grows input (do
      bump .leftParen
      usePath
      bump .rightParen) :=
    ((supplies_bump _).andThen fun _ => leaves_usePath.node.andThen fun _ => supplies_bump _).grows
  have written : Leaves input (node .visibility do
      bump .pubKw
      when atScope do
        bump .leftParen
        usePath
        bump .rightParen) fun _ new => new = [.node .visibility] :=
    ((supplies_bump _).andThen fun _ => .when looks_atScope.grows scope).node (by decide) fun _ => trivial
  exact written.bind fun _ _ eq => .pure eq

theorem grows_visibility? : Grows input visibility? :=
  leaves_visibility?.imp fun _ _ _ => ⟨trivial, meets_nil _⟩

/-! ## Generic arguments and types -/

theorem grows_genericArg (isFirst : Bool) : Grows input (genericArg isFirst) := by
  refine (looks_isAt _).supplies fun _ => .ite ?_ <| (looks_isAtAny _).supplies fun _ => .ite ?_ (grows_pure _)
  · exact supplies_lifetime.found (by decide) fun _ => trivial
  · exact (supplies_type true).found (by decide) fun _ => trivial

theorem grows_genericArgList (turbofish : Bool) : Grows input (genericArgList turbofish) :=
  ((Supplies.when (grows_pure _) (supplies_bump _).grows).andThen fun _ => .delimited grows_genericArg).grown
    (by decide) fun _ => trivial

theorem looks_atTurbofish : Looks input atTurbofish := (looks_isAt _).both (looks_isNth _ _)

theorem leaves_expressionPath : Leaves input expressionPath fun _ new => new = [.node .path] :=
  leaves_pathWith (.when looks_atTurbofish.grows (grows_genericArgList true)) (looks_pure _)

theorem leaves_typePath : Leaves input typePath fun _ new => new = [.node .path] :=
  leaves_pathWith ((looks_isAt _).supplies fun _ => .ite (grows_genericArgList false)
    (.when looks_atTurbofish.grows (grows_genericArgList true))) (looks_pure _)

theorem leaves_pathType : Leaves input pathType fun _ new => new = [.node .pathType] :=
  leaves_typePath.node.node (by decide) fun _ => trivial

theorem looks_atTypeBound : Looks input atTypeBound :=
  (looks_isAt _).bind fun _ => (looks_isAt _).bind fun _ => looks_atPath.bind fun _ =>
    (looks_isAt _).bind fun _ => looks_pure _

theorem grows_typeBound : Grows input typeBound := by
  have bare : Grows input (do
      discard <| eat .question
      call (.type false)) :=
    ((grows_eat _).discard.andThen fun _ => supplies_type false).grows
  exact Supplies.grown ((looks_isAt _).supplies fun _ => .ite supplies_lifetime.grows bare) (by decide)
    fun _ => trivial

theorem leaves_typeBoundList : Leaves input typeBoundList fun _ new => new = [.node .typeBoundList] :=
  Supplies.node (.while <| looks_atTypeBound.supplies fun _ => .ite (grows_pure _) <|
    grows_typeBound.andThen fun _ => grows_eat _) (by decide) fun _ => trivial

theorem grows_typeBoundList? : Grows input typeBoundList? :=
  .when looks_atTypeBound.grows leaves_typeBoundList.node.grows

theorem grows_lifetimeBounds : Grows input lifetimeBounds :=
  Supplies.grown (.while <| (looks_isAt _).supplies fun _ => .ite (grows_pure _) <|
    (supplies_lifetime.grown (k := .typeBound) (by decide) fun _ => trivial).andThen fun _ => grows_eat _) (by decide)
    fun _ => trivial

theorem grows_genericParam (isFirst : Bool) : Grows input (genericParam isFirst) := by
  refine Leaves.bind (Forms.nodeIf (looks_current.leaves fun k => ?_)) fun _ _ _ => .pure ⟨trivial, meets_nil _⟩
  split
  · exact Supplies.forms (k := .lifetimeParam) (supplies_lifetime.andThen fun _ =>
      (Supplies.when (grows_eat _) grows_lifetimeBounds).andThen fun _ => .pure rfl) (by decide) fun _ => trivial
  · exact Supplies.forms (k := .typeParam) (supplies_name.andThen fun _ =>
      (Supplies.when (grows_eat _) grows_typeBoundList?).andThen fun _ =>
      (Supplies.when (grows_eat _) (supplies_type true).grows).andThen fun _ => .pure rfl) (by decide) fun _ => trivial
  · exact Supplies.forms (k := .constParam) ((supplies_bump _).andThen fun _ => supplies_name.andThen fun _ =>
      (Supplies.whenExpect (supplies_type true)).andThen fun _ => .pure rfl) (by decide) fun _ => trivial
  · exact forms_none rfl

/-- An optional list of parameters is a node or nothing. -/
theorem leaves_genericParamList? :
    Leaves input genericParamList? fun _ new => new = [] ∨ new = [.node .genericParamList] :=
  (looks_isAt _).leaves fun _ => .ite
    (fun _ => ((Supplies.delimited grows_genericParam).node (k := .genericParamList) (by decide)
      fun _ => trivial).imp fun _ _ => .inr)
    fun _ => .pure (.inl rfl)

theorem grows_genericParamList? : Grows input genericParamList? :=
  leaves_genericParamList?.imp fun _ _ _ => ⟨trivial, meets_nil _⟩

theorem grows_wherePredicate : Grows input wherePredicate := by
  have lifetimes : Supplies input (do
      lifetime
      when (expect .colon) lifetimeBounds) (fun _ => True) [.token .colon] :=
    (supplies_lifetime.grows.andThen fun _ => .whenExpect grows_lifetimeBounds)
  have types : Supplies input (do
      call (.type true)
      when (expect .colon) typeBoundList?) (fun _ => True) [.token .colon] :=
    ((supplies_type true).grows.andThen fun _ => .whenExpect grows_typeBoundList?)
  exact Supplies.grown ((looks_isAt _).supplies fun _ => .ite lifetimes types) (by decide) fun _ => trivial

/-- An optional clause is a node or nothing. -/
theorem leaves_whereClause? :
    Leaves input whereClause? fun _ new => new = [] ∨ new = [.node .whereClause] := by
  refine (looks_isAt _).leaves fun _ => .ite (fun _ => ?_) fun _ => .pure (.inl rfl)
  refine Leaves.imp (Supplies.node ((supplies_bump _).andThen fun _ => .while ?_) (by decide) fun _ => trivial)
    fun _ _ => .inr
  exact (looks_isAt _).supplies fun _ => (looks_isAtAny _).supplies fun _ => .ite (grows_pure _) <|
    grows_wherePredicate.andThen fun _ => grows_eat _

theorem grows_whereClause? : Grows input whereClause? :=
  leaves_whereClause?.imp fun _ _ _ => ⟨trivial, meets_nil _⟩

/-! ## Types -/

/-- A program that writes one type. -/
abbrev LeavesType (input : Input) {α : Type} (p : Parser α) : Prop :=
  Leaves input p fun _ new => ∃ k ∈ Kind.types, new = [.node k]

theorem leavesType_of_eq {α : Type} {p : Parser α} {k : Kind} (h : Leaves input p fun _ new => new = [.node k])
    (hk : k ∈ Kind.types) : LeavesType input p := h.imp fun _ _ eq => ⟨k, hk, eq⟩

theorem leavesType_parenOrTupleType : LeavesType input parenOrTupleType := by
  refine Leaves.bind (M := fun k new => (k = .parenType ∨ k = .tupleType) ∧ new = [.node k])
    (leaves_parenthesized (n := .type) (fun (count, comma) => ?_) (by decide) (fun _ => trivial) (by decide)
      fun _ => trivial) fun k _ ⟨kind, eq⟩ => .pure ⟨k, by rcases kind with rfl | rfl <;> decide, eq⟩
  refine (looks_isAt _).leaves fun _ => (looks_isAt _).leaves fun _ => .ite (fun _ => .pure (.inl rfl)) fun _ => ?_
  refine (looks_isAtAny _).leaves fun _ => .ite (fun _ => ((reports_recover _ _).bind _).leaves) fun _ => ?_
  refine .bind (supplies_type true) fun _ new ⟨_, hnew⟩ => .bind (grows_eat _) fun more late _ => ?_
  have met : Meets (late ++ new) [.type] := meets_append (meets_nil late) hnew
  exact .ite (fun _ => .pure met) fun _ => .pure (.inr met)

theorem leavesType_ptrType : LeavesType input ptrType := by
  have mark : Grows input (whenNot (eat .constKw) <| whenNot (eat .mutKw) <| expected .pointee) :=
    .whenNot (grows_eat _) (.whenNot (grows_eat _) (reports_expected _).supplies)
  exact leavesType_of_eq (((supplies_bump _).andThen fun _ => mark.andThen fun _ => supplies_type false).node
    (by decide) fun _ => trivial) (by decide)

theorem leavesType_refType : LeavesType input refType :=
  leavesType_of_eq (((supplies_bump _).andThen fun _ =>
    (Supplies.when (looks_isAt _).grows supplies_lifetime.grows).andThen fun _ =>
    (grows_eat _).discard.andThen fun _ => supplies_type false).node (by decide) fun _ => trivial) (by decide)

theorem leavesType_arrayOrSliceType : LeavesType input arrayOrSliceType := by
  refine Leaves.bind (M := fun _ new => ∃ k ∈ Kind.types, new = [.node k]) (.nodeOf ?_) fun _ _ h => .pure h
  refine .bind (supplies_bump .leftBracket) fun _ bra ⟨_, hbra⟩ => .bind (supplies_type true) fun _ type ⟨_, htype⟩ =>
    .bind (leaves_eat .semicolon) fun isArray mark hmark => ?_
  have ket : Supplies input (discard <| expect .rightBracket) (fun _ => True) [.token .rightBracket] :=
    (supplies_expect _).discard
  cases isArray with
  | true =>
    obtain rfl : mark = [.token .semicolon] := hmark
    refine .bind (supplies_expression {} Nat.one_pos).discard fun _ size ⟨_, hsize⟩ =>
      .bind ket fun _ new ⟨_, hnew⟩ => ?_
    have sized := meets_append (meets_append hnew hsize) (meets_token .semicolon)
    have meets := meets_append (meets_append sized htype) hbra
    exact .pure ⟨meets.whole (k := .arrayType) (by decide) fun _ => trivial, _, by decide, rfl⟩
  | false =>
    obtain rfl : mark = [] := hmark
    refine .bind (M := fun _ size => size = []) (fun _ _ => ⟨[], rfl, rfl⟩) fun _ size none =>
      .bind ket fun _ new ⟨_, hnew⟩ => ?_
    subst none
    have meets := meets_append (meets_append hnew htype) hbra
    refine .pure ⟨?_, _, by decide, rfl⟩
    simpa using meets.whole (k := .sliceType) (by decide) fun _ => trivial

theorem leavesType_boundedType (keyword : Kind) {kind : Kind} (bounds : Bool) (hk : kind ∈ Kind.types)
    (needs : kind.needs ⊆ [.token keyword, .node [.typeBoundList]]) (free : ∀ row, kind.Places row) :
    LeavesType input (boundedType keyword kind bounds) := by
  have single : Grows input singleBound :=
    (looks_isAt _).supplies fun _ => .ite supplies_lifetime.grows <| looks_atPath.supplies fun _ =>
      .ite leaves_pathType.node.grows (reports_recover _ _).supplies
  have one : Leaves input (node .typeBoundList (node .typeBound singleBound)) fun _ new =>
      new = [.node .typeBoundList] :=
    (single.node (k := .typeBound) (by decide) fun _ => trivial).node.node (by decide) fun _ => trivial
  have list : Supplies input (do
      if bounds && (← atTypeBound) then typeBoundList
      else node .typeBoundList (node .typeBound singleBound)) (fun _ => True) [.node [.typeBoundList]] :=
    looks_atTypeBound.supplies fun _ => .ite leaves_typeBoundList.node one.node
  exact leavesType_of_eq (((supplies_bump _).andThen fun _ => list).node needs free) hk

theorem leavesType_singleType (bounds : Bool) : LeavesType input (singleType bounds) := by
  have mark {k t : Kind} (ht : t ∈ Kind.types) (needs : t.needs ⊆ [.token k]) (free : ∀ row, t.Places row) :
      LeavesType input (node t (bump k)) := leavesType_of_eq ((supplies_bump k).node needs free) ht
  refine looks_current.leaves fun k => ?_
  split
  · exact leavesType_parenOrTupleType
  · exact mark (by decide) (by decide) fun _ => trivial
  · exact leavesType_ptrType
  · exact leavesType_refType
  · exact leavesType_arrayOrSliceType
  · exact mark (by decide) (by decide) fun _ => trivial
  · exact leavesType_boundedType _ _ (by decide) (by decide) fun _ => trivial
  · exact leavesType_boundedType _ _ (by decide) (by decide) fun _ => trivial
  · exact looks_atPath.leaves fun _ => .ite (fun _ => leavesType_of_eq leaves_pathType (by decide)) fun _ =>
      (reports_recover _ _).leaves

theorem leavesType_type (bounds : Bool) : LeavesType input (type bounds) :=
  (leavesType_singleType bounds).nested.bind fun _ _ ⟨_, _, written⟩ => .pure written

/-- The type that a function returns, if there is one. -/
theorem grows_returnType? (bounds : Bool) : Grows input (returnType? bounds) :=
  .when (looks_isAt _).grows <|
    ((supplies_bump _).andThen fun _ => supplies_type bounds).grown (by decide) fun _ => trivial

/-! ## Patterns and parameters -/

theorem literal_of_first {k : Kind} (h : literalFirst.contains k = true) : (LiteralKind.ofKind? k).isSome := by
  revert h
  cases k <;> decide

/-- A literal is a node with the token of the literal; else nothing is written. -/
theorem leaves_literal? : Leaves input literal? fun found new =>
    found = some .literal ∧ new = [.node .literal] ∨ found = none ∧ new = [] := by
  intro i row
  change Fills input (if literalFirst.contains (input.kind i) = true then _ else _) i row _
  split
  · next first =>
    refine ⟨fun _ => ⟨⟨rfl, _, rfl, literal_of_first first⟩, [.node .literal], rfl, .inl ⟨rfl, rfl⟩⟩, fun stop => ?_⟩
    rw [stop] at first
    exact absurd first (by decide)
  · exact ⟨[], rfl, .inr ⟨rfl, rfl⟩⟩

/-- A program that writes one pattern. -/
abbrev LeavesPattern (input : Input) {α : Type} (p : Parser α) : Prop :=
  Leaves input p fun _ new => ∃ k ∈ Kind.patterns, new = [.node k]

theorem leavesPattern_of_eq {α : Type} {p : Parser α} {k : Kind}
    (h : Leaves input p fun _ new => new = [.node k]) (hk : k ∈ Kind.patterns) : LeavesPattern input p :=
  h.imp fun _ _ eq => ⟨k, hk, eq⟩

theorem LeavesPattern.supplies {α : Type} {p : Parser α} (h : LeavesPattern input p) :
    Supplies input p (fun _ => True) [.pattern] :=
  h.imp fun _ _ ⟨_, hk, eq⟩ => ⟨trivial, eq ▸ meets_node hk⟩

theorem leavesPattern_alternatives : LeavesPattern input alternatives := by
  refine Leaves.bind (M := fun _ new => ∃ k ∈ Kind.patterns, new = [.node k]) (.nodeIf ?_) fun _ _ h => .pure h
  refine .bind (leaves_eat .pipe) fun leading bar hbar => .bind leaves_pattern fun _ new hnew =>
    (looks_isAt _).leaves fun more => .ite (fun _ => ?_) fun alone => .pure ⟨nofun, fun _ => ?_⟩
  · have rest : Grows input (while_ do
        if !(← eat .pipe) then return false
        call .pattern
        return true) :=
      .while <| (grows_eat _).andThen fun _ => .ite (grows_pure _)
        (supplies_pattern.andThen fun _ => grows_pure _).grows
    refine .bind rest fun _ _ _ => .pure ⟨?_, nofun⟩
    rintro _ ⟨⟩
    exact ⟨⟨rfl, trivial⟩, _, by decide, rfl⟩
  · -- Without a bar in front there is only the pattern.
    have none : leading = false := by
      cases leading
      · rfl
      · simp at alone
    subst none
    obtain rfl : bar = [] := hbar
    simpa using hnew

theorem supplies_patternList :
    Supplies input patternList (fun _ => True) [.token .leftParen, .token .rightParen] :=
  .delimited fun _ => (looks_isAtAny _).supplies fun _ => .ite (grows_pure _)
    (leavesPattern_alternatives.supplies.andThen fun _ => grows_pure _).grows

theorem leavesPattern_identPattern : LeavesPattern input identPattern :=
  leavesPattern_of_eq (((grows_eat _).discard.andThen fun _ => (grows_eat _).discard.andThen fun _ =>
    (supplies_nameOr _).andThen fun _ => .when (grows_eat _) supplies_pattern.grows).node (by decide)
    fun _ => trivial) (by decide)

theorem leavesPattern_pathPattern : LeavesPattern input pathPattern := by
  have path : Leaves input expressionPath fun _ new => ∃ k, new = [.node k] ∧ k = .path :=
    leaves_expressionPath.imp fun _ _ eq => ⟨_, eq, rfl⟩
  refine (Leaves.turns (K := fun _ k => k = .path) (N := fun _ k => k ∈ Kind.patterns) path fun _ =>
    .discard (.wrap ?_)).imp fun _ _ ⟨k, eq, hk⟩ => ⟨k, hk, eq⟩
  rintro _ rfl
  have front : Meets [.node Kind.path] [.node [.path]] := meets_node (by decide)
  refine (looks_isAt _).leaves fun _ => .ite (fun _ => ?_) fun _ => .pure ?_
  · exact .bind supplies_patternList fun _ new ⟨_, hnew⟩ => .pure
      ⟨(meets_append hnew front).whole (k := .tupleStructPat) (by decide) fun _ => trivial, by decide⟩
  · exact ⟨front.whole (k := .pathPat) (by decide) fun _ => trivial, by decide⟩

theorem looks_atBinding : Looks input atBinding :=
  looks_current.bind fun k => by
    split
    iterate 2 exact (looks_isAhead _ _).bind fun _ => (looks_nth _).bind fun _ => looks_pure _
    all_goals exact looks_pure _

theorem leavesPattern_singlePattern : LeavesPattern input singlePattern := by
  have written {k : Kind} {body : Parser Unit} {ns : List Need} (h : Supplies input body (fun _ => True) ns)
      (hk : k ∈ Kind.patterns) (sub : k.needs ⊆ ns) (free : ∀ row, k.Places row) :
      LeavesPattern input (node k body) := leavesPattern_of_eq (h.node sub free) hk
  refine looks_current.leaves fun k => ?_
  split
  · exact written (supplies_bump _) (by decide) (by decide) fun _ => trivial
  · exact written ((supplies_bump _).andThen fun _ => (grows_eat _).discard.andThen fun _ => supplies_pattern)
      (by decide) (by decide) fun _ => trivial
  · exact written supplies_patternList (by decide) (by decide) fun _ => trivial
  · refine (looks_isAt _).leaves fun _ => .ite
      (fun _ => written (supplies_bump _) (by decide) (by decide) fun _ => trivial) fun _ => ?_
    refine looks_atBinding.leaves fun _ => .ite (fun _ => leavesPattern_identPattern) fun _ => ?_
    refine (looks_isAt _).leaves fun _ => (looks_isAtAny _).leaves fun _ => .ite (fun _ => ?_) fun _ => ?_
    · have value : Supplies input (whenNot (return (← literal?).isSome) (expected .literal)) (fun _ => True)
          [.node [.literal]] := by
        refine Leaves.bind (M := fun b new => b = true → new = [.node .literal])
          (leaves_literal?.bind fun _ _ h => .pure fun some => ?_) fun b new h => ?_
        · rcases h with ⟨-, eq⟩ | ⟨rfl, -⟩
          · simpa using eq
          · cases some
        · cases b with
          | true => exact .pure ⟨trivial, by simpa [h rfl] using meets_node (List.mem_singleton_self _)⟩
          | false => exact (reports_expected _).leaves
      exact written ((grows_eat _).discard.andThen fun _ => value) (by decide) (by decide) fun _ => trivial
    · exact looks_atPath.leaves fun _ => .ite (fun _ => leavesPattern_pathPattern) fun _ =>
        (reports_recover _ _).leaves

theorem leavesPattern_pattern : LeavesPattern input pattern :=
  leavesPattern_singlePattern.nested.bind fun _ _ ⟨_, _, written⟩ => .pure written

theorem grows_selfParam : Grows input selfParam := by
  have mark : Grows input (when (both (eat .amp) (isAt .lifetimeIdent)) lifetime) :=
    .when ((grows_eat _).andThen fun _ => .ite (looks_isAt _).grows (grows_pure _)) supplies_lifetime.grows
  exact (mark.andThen fun _ => (grows_eat _).discard.andThen fun _ => supplies_name.andThen fun _ =>
    .when (grows_eat _) (supplies_type true).grows).grown (by decide) fun _ => trivial

theorem grows_param : Grows input param :=
  (looks_isAtAny _).supplies fun _ => .ite (grows_pure _) <|
    (supplies_pattern.andThen fun _ => .whenExpect (supplies_type true)).found (by decide) fun _ => trivial

theorem looks_atSelfParam : Looks input atSelfParam := by
  have marks : Looks input referenceMarks :=
    looks_current.bind fun _ => .ite (looks_pure _) <| (looks_nth _).bind fun _ => .ite (looks_pure _) (looks_pure _)
  refine marks.bind fun _ => (looks_isNth _ _).bind fun _ => (looks_isNth _ _).bind fun _ => .ite ?_ (looks_pure _)
  exact (looks_isAhead _ _).bind fun _ => looks_pure _

theorem leaves_paramList : Leaves input paramList fun _ new => new = [.node .paramList] :=
  Supplies.node (.delimited fun _ => ((looks_pure _).both looks_atSelfParam).supplies fun _ => .ite
    (grows_selfParam.andThen fun _ => grows_pure _) grows_param) (by decide) fun _ => trivial

theorem grows_closureParam (isFirst : Bool) : Grows input (closureParam isFirst) :=
  (looks_isAtAny _).supplies fun _ => .ite (grows_pure _) <|
    (supplies_pattern.andThen fun _ => .when (grows_eat _) (supplies_type true).grows).found (by decide)
      fun _ => trivial

theorem leaves_closureParamList : Leaves input closureParamList fun _ new => new = [.node .paramList] :=
  Supplies.node ((looks_isAt _).supplies fun _ => .ite (supplies_bump _).grows
    (Supplies.delimited grows_closureParam).grows) (by decide) fun _ => trivial

/-! ## Statements -/

theorem supplies_expr : Supplies input expression (fun found => found.isSome = true) [.expression] :=
  supplies_expression {} Nat.one_pos

theorem Supplies.untilBrace {round : Parser Unit} (h : Grows input round) : Grows input (untilBrace round) :=
  .while <| (looks_isAt _).supplies fun _ => (looks_isAt _).supplies fun _ => .ite (grows_pure _)
    (h.andThen fun _ => grows_pure _)

theorem Supplies.orSkip (what : Expectation) {rule : Parser Unit} (h : Grows input rule) :
    Grows input (orSkip what rule) :=
  .whenNot (h.watch.andThen fun _ => grows_pure _)
    (((reports_expected what).bind _).node .error).supplies

theorem grows_expressionStatement : Grows input expressionStatement := by
  refine Leaves.bind (Forms.nodeIf (Leaves.bind (supplies_expression _ Nat.one_pos) fun e new ⟨found, hnew⟩ => ?_))
    fun _ _ _ => .pure ⟨trivial, meets_nil _⟩
  cases e with
  | none => cases found
  | some e =>
    refine (looks_isAt _).leaves fun _ => .ite (fun _ => .pure nofun) fun _ => ?_
    refine .bind (grows_eat _) fun _ _ _ => .bind (Supplies.when (grows_pure _) (reports_error _).supplies)
      fun _ _ _ => .pure fun k hk old _ => ?_
    obtain rfl : Kind.exprStmt = k := Option.some.inj hk
    exact (meets_append (meets_nil _) hnew).behind.whole (by decide) fun _ => trivial

theorem grows_statement : Grows input statement :=
  looks_current.supplies fun k => by
    split
    · exact (supplies_bump _).grows
    · exact grows_call .letStatement trivial
    · exact (grows_call .item trivial).andThen fun _ => .ite ((looks_isAtAny _).supplies fun _ => .ite
        grows_expressionStatement (reports_skipOne _).supplies) (grows_pure _)

theorem grows_statements : Grows input statements := .untilBrace (.orSkip _ grows_statement)

theorem supplies_statementList :
    Supplies input statementList (fun _ => True) [.token .leftBrace, .token .rightBrace] :=
  (supplies_bump _).andThen fun _ => grows_statements.andThen fun _ => (supplies_expect _).discard

theorem leaves_block : Leaves input block fun _ new => new = [.node .blockExpr] :=
  (looks_isAt _).leaves fun _ => .ite (fun _ => (supplies_list _).node (by decide) fun _ => trivial) fun _ =>
    (reports_expected _).leaves

theorem leaves_body (f : Fragment) : Leaves input (body f) fun _ new => new = [.node f.kind] :=
  (looks_isAt _).leaves fun _ => .ite (fun _ => fun _ _ _ => ⟨[_], rfl, rfl⟩) fun _ => (reports_error _).leaves

theorem grows_letStatement : Grows input letStatement := by
  have otherwise : Grows input (node .letElse do
      bump .elseKw
      block) :=
    ((supplies_bump _).andThen fun _ => leaves_block.node).grown (by decide) fun _ => trivial
  exact ((supplies_bump _).andThen fun _ => leavesPattern_alternatives.supplies.andThen fun _ =>
    (Supplies.when (grows_eat _) (supplies_type true).grows).andThen fun _ =>
    (Supplies.when (grows_eat _) supplies_expr.discard.grows).andThen fun _ =>
    (Supplies.when (looks_isAt _).grows otherwise).andThen fun _ =>
    (supplies_expect _).discard).grown (by decide) fun _ => trivial

theorem reports_strayBlock (what : Expectation) : Reports input (strayBlock what) :=
  ((reports_expected what).bind _).node .error

end Verbatim.Parser
