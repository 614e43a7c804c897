import Verbatim.Proofs.Skeleton
import Verbatim.Typed.Operator

/-!
# What a node needs

A node shows of its children their kinds, and which of them are tokens. For each kind of node some children
have to be there, and in a few nodes they have to stand in certain places; a node that has them all is whole.
Rows are kept with the newest element first, as they are written.
-/
namespace Verbatim

/-- What a node shows of a child. -/
inductive Mark where
  | token (kind : Kind)
  | node (kind : Kind)
  deriving DecidableEq, Repr

namespace Skeleton

def mark : Skeleton → Mark
  | leaf k => .token k
  | node k _ => .node k

/-- What some elements show, the newest first. -/
def marks (xs : List Skeleton) : List Mark := (xs.map mark).reverse

theorem marks_append (xs ys : List Skeleton) : marks (xs ++ ys) = marks ys ++ marks xs := by
  simp [marks]

end Skeleton

/-! ## Families of kinds -/

namespace Kind

def expressions : List Kind :=
  [.arrayExpr, .binExpr, .blockExpr, .breakExpr, .callExpr, .castExpr, .closureExpr, .continueExpr, .fieldExpr,
    .forExpr, .ifExpr, .indexExpr, .letExpr, .literal, .loopExpr, .matchExpr, .methodCallExpr, .parenExpr,
    .pathExpr, .prefixExpr, .rangeExpr, .recordExpr, .refExpr, .returnExpr, .tryExpr, .tupleExpr, .whileExpr]

def types : List Kind :=
  [.arrayType, .dynTraitType, .implTraitType, .inferType, .neverType, .parenType, .pathType, .ptrType, .refType,
    .sliceType, .tupleType]

def patterns : List Kind :=
  [.identPat, .literalPat, .orPat, .pathPat, .refPat, .restPat, .tuplePat, .tupleStructPat, .wildcardPat]

def items : List Kind :=
  [.const, .enum, .fn, .impl, .module, .static, .struct, .trait, .typeAlias, .use]

def statements : List Kind := .exprStmt :: .letStmt :: items

end Kind

/-! ## Needs -/

/-- A child that has to be there: a token of a kind, or a node of one of some kinds. -/
inductive Need where
  | token (kind : Kind)
  | node (kinds : List Kind)
  deriving DecidableEq, Repr

namespace Need

def isMetBy : Need → Mark → Bool
  | token k, .token l => k == l
  | node ks, .node l => ks.contains l
  | _, _ => false

def expression : Need := node Kind.expressions

def type : Need := node Kind.types

def pattern : Need := node Kind.patterns

end Need

open Need in
/-- The children that a node of a kind has to have. -/
def Kind.needs : Kind → List Need
  | .lifetime => [token .lifetimeIdent]
  | .path => [node [.pathSegment]]
  | .pathSegment => [node [.nameRef]]
  | .genericArgList | .genericParamList => [token .leftAngle, token .rightAngle]
  | .typeArg | .tupleField => [type]
  | .lifetimeArg | .lifetimeParam => [node [.lifetime]]
  | .visibility => [token .pubKw]
  | .module => [token .modKw, node [.name]]
  | .itemList | .useTreeList | .recordFieldList | .variantList | .assocItemList | .stmtList
  | .recordExprFieldList | .matchArmList => [token .leftBrace, token .rightBrace]
  | .use => [token .useKw, node [.useTree], token .semicolon]
  | .rename => [token .asKw]
  | .fn => [token .fnKw, node [.name], node [.paramList]]
  | .selfParam | .variant | .typeParam | .identPat => [node [.name]]
  | .param => [pattern]
  | .retType => [token .thinArrow, type]
  | .typeAlias => [token .typeKw, node [.name], token .semicolon]
  | .struct => [token .structKw, node [.name]]
  | .recordField => [node [.name], token .colon, type]
  | .tupleFieldList | .tupleExpr | .argList | .tupleType | .tuplePat => [token .leftParen, token .rightParen]
  | .enum => [token .enumKw, node [.name], node [.variantList]]
  | .const => [token .constKw, token .colon, type, token .semicolon]
  | .static => [token .staticKw, node [.name], token .colon, type, token .semicolon]
  | .trait => [token .traitKw, node [.name], node [.assocItemList]]
  | .impl => [token .implKw, type, node [.assocItemList]]
  | .constParam => [token .constKw, node [.name], token .colon, type]
  | .whereClause => [token .whereKw]
  | .wherePred => [token .colon]
  | .letStmt => [token .letKw, pattern, token .semicolon]
  | .letElse => [token .elseKw, node [.blockExpr]]
  | .exprStmt | .recordExprField | .prefixExpr => [expression]
  | .pathExpr | .pathType | .pathPat => [node [.path]]
  | .blockExpr => [node [.stmtList]]
  | .refExpr => [token .amp, expression]
  | .tryExpr => [expression, token .question]
  | .castExpr => [expression, token .asKw, type]
  | .parenExpr => [token .leftParen, expression, token .rightParen]
  | .arrayExpr | .indexExpr => [token .leftBracket, token .rightBracket]
  | .recordExpr => [node [.path], node [.recordExprFieldList]]
  | .callExpr => [expression, node [.argList]]
  | .methodCallExpr => [expression, token .dot, node [.nameRef], node [.argList]]
  | .fieldExpr => [expression, token .dot, node [.nameRef]]
  | .closureExpr => [node [.paramList], expression]
  | .ifExpr | .matchGuard => [token .ifKw, expression]
  | .letExpr => [token .letKw, pattern, token .eq, expression]
  | .loopExpr => [token .loopKw, node [.blockExpr]]
  | .forExpr => [token .forKw, pattern, token .inKw, expression]
  | .whileExpr => [token .whileKw, expression]
  | .breakExpr => [token .breakKw]
  | .continueExpr => [token .continueKw]
  | .matchExpr => [token .matchKw, expression, node [.matchArmList]]
  | .matchArm => [pattern, token .fatArrow, expression]
  | .returnExpr => [token .returnKw]
  | .parenType => [token .leftParen, type, token .rightParen]
  | .neverType => [token .bang]
  | .ptrType => [token .star, type]
  | .refType => [token .amp, type]
  | .arrayType => [token .leftBracket, type, token .semicolon, expression, token .rightBracket]
  | .sliceType => [token .leftBracket, type, token .rightBracket]
  | .inferType | .wildcardPat => [token .underscore]
  | .implTraitType => [token .implKw, node [.typeBoundList]]
  | .dynTraitType => [token .dynKw, node [.typeBoundList]]
  | .literalPat => [node [.literal]]
  | .refPat => [token .amp, pattern]
  | .tupleStructPat => [node [.path], token .leftParen, token .rightParen]
  | .restPat => [token .dot2]
  | _ => []

/-- What has to stand in a certain place of a node: operands around their operator, a block behind a condition,
the type that is implemented behind `for`. Nothing makes a node of skipped tokens whole. -/
def Kind.Places : Kind → List Mark → Prop
  | .binExpr, row => ∃ a o b, row = [.node b, .token o, .node a] ∧ a ∈ expressions ∧ b ∈ expressions ∧
      (BinaryOperator.ofKind? o).isSome
  | .prefixExpr, row => ∃ o a, row = [.node a, .token o] ∧ (UnaryOperator.ofKind? o).isSome
  | .rangeExpr, row => .token .dot2 ∈ row ∨ .token .dot2Eq ∈ row
  | .indexExpr, row => ∃ a b, row = [.token .rightBracket, .node b, .token .leftBracket, .node a] ∧
      a ∈ expressions ∧ b ∈ expressions
  | .ifExpr, row => ∃ more a, row = more ++ [.node .blockExpr, .node a, .token .ifKw] ∧ a ∈ expressions
  | .whileExpr, row => ∃ a, row = [.node .blockExpr, .node a, .token .whileKw] ∧ a ∈ expressions
  | .forExpr, row => ∃ a p, row = [.node .blockExpr, .node a, .token .inKw, .node p, .token .forKw] ∧
      a ∈ expressions ∧ p ∈ patterns
  | .impl, row => .token .forKw ∈ row → ∃ new old t, row = new ++ .token .forKw :: old ∧ t ∈ types ∧ .node t ∈ new
  | .literal, row => ∃ k, row = [.token k] ∧ (LiteralKind.ofKind? k).isSome
  | .error, _ => False
  | _, _ => True

/-- A node of a kind with these children has all that it needs. -/
structure Kind.Whole (k : Kind) (row : List Mark) : Prop where
  needs : k.needs.all (fun n => row.any n.isMetBy) = true
  places : k.Places row

namespace Kind.Whole

variable {k : Kind} {row : List Mark}

theorem mark_of_need (h : k.Whole row) {n : Need} (need : n ∈ k.needs) : ∃ m ∈ row, n.isMetBy m = true :=
  List.any_eq_true.mp (List.all_eq_true.mp h.needs n need)

theorem token_mem (h : k.Whole row) {l : Kind} (need : .token l ∈ k.needs) : .token l ∈ row := by
  obtain ⟨m, hm, met⟩ := h.mark_of_need need
  cases m with
  | token l' => rwa [beq_iff_eq.mp met]
  | node l' => cases met

theorem node_mem (h : k.Whole row) {ks : List Kind} (need : .node ks ∈ k.needs) : ∃ l ∈ ks, .node l ∈ row := by
  obtain ⟨m, hm, met⟩ := h.mark_of_need need
  cases m with
  | token l' => cases met
  | node l => exact ⟨l, List.contains_iff_mem.mp met, hm⟩

end Kind.Whole

namespace Skeleton

/-- All that a node needs is there. -/
def Whole (x : Skeleton) : Prop := x.kind.Whole (marks x.children)

/-- All nodes of a row are whole. -/
abbrev WholeOf (row : List Outline) : Prop := AllOf Whole (Outline.skeletonOf row)

end Skeleton

end Verbatim
