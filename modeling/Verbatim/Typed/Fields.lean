import Verbatim.Typed.Place

/-!
# All fields of a node

The answers of every accessor of a node under their names: those that follow from the grammar, and those
that go by places.
-/
namespace Verbatim.Typed

inductive Answer where
  | one (found : Position)
  | many (found : List Position)
  | text (t : Text)
  | word (w : String)

/-- What an accessor finds below a node; a repetition always has an answer. -/
def Accessor.read? (a : Accessor) (p : Position) : Option Answer :=
  match a.access with
  | .token => (p.children.find? fun c => c.isToken && a.kinds.contains c.kind).map .one
  | .child => (p.nodes.find? fun c => a.kinds.contains c.kind).map .one
  | .children => some (.many (p.nodes.filter fun c => a.kinds.contains c.kind))

def named (name : String) (p? : Option Position) : List (String × Answer) :=
  p?.toList.map fun p => (name, .one p)

def spelled (name : String) (w? : Option String) : List (String × Answer) :=
  w?.toList.map fun w => (name, .word w)

private def elseField (p : Position) : List (String × Answer) :=
  match IfExpr.elseBranch? p with
  | some (.block q) => [("else_block", .one q)]
  | some (.ifExpr q) => [("else_if", .one q)]
  | none => []

/-- The fields that go by places. -/
def placedFields (p : Position) : List (String × Answer) :=
  match p.kind with
  | .name | .nameRef | .lifetime => [("text", .text p.text)]
  | .binExpr =>
    named "lhs" (BinExpr.lhs? p) ++ named "rhs" (BinExpr.rhs? p) ++
      named "op_token" (BinExpr.opToken? p) ++
      spelled "op_kind" ((BinExpr.operator? p).map (·.label))
  | .prefixExpr =>
    named "op_token" (PrefixExpr.opToken? p) ++
      spelled "op_kind" ((PrefixExpr.operator? p).map (·.label))
  | .rangeExpr =>
    named "start" (RangeExpr.start? p) ++ named "end" (RangeExpr.stop? p) ++
      named "op_token" (RangeExpr.opToken? p) ++
      spelled "op_kind" ((RangeExpr.operator? p).map (·.label))
  | .indexExpr => named "base" (IndexExpr.base? p) ++ named "index" (IndexExpr.index? p)
  | .ifExpr => named "then_branch" (IfExpr.thenBranch? p) ++ elseField p
  | .whileExpr => named "loop_body" (WhileExpr.loopBody? p)
  | .forExpr => named "loop_body" (ForExpr.loopBody? p)
  | .impl => named "trait" (Impl.trait? p) ++ named "self_ty" (Impl.selfType? p)
  | .literal =>
    named "token" (Literal.token? p) ++ spelled "kind" ((Literal.kind? p).map (·.label))
  | _ => []

def NodeType.fields (t : NodeType) (p : Position) : List (String × Answer) :=
  (t.accessors.filterMap fun a => (a.read? p).map fun answer => (a.name, answer)) ++ placedFields p

end Verbatim.Typed
