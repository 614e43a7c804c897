import Verbatim.Position.Basic
import Verbatim.Typed.Catalog
import Verbatim.Typed.Operator

/-!
# Children told apart by their places

Where a node holds several children of one type, or an operator, the place among the children decides
which is which. An operand stands before or behind its operator, and a body behind its condition. What
is missing in a malformed text is missing here, and nothing else takes its place.
-/
namespace Verbatim.Typed

def expressions (p : Position) : List Position := p.nodes.filter fun c => expr.contains c.kind

def types (p : Position) : List Position := p.nodes.filter fun c => type.contains c.kind

/-- The first token of a kind directly below a node. -/
def token? (k : Kind) (p : Position) : Option Position :=
  p.children.find? fun c => c.isToken && c.kind == k

/-- The first token directly below a node, blanks and comments aside. -/
def leadingToken? (p : Position) : Option Position :=
  p.children.find? fun c => c.isToken && !c.kind.isTrivia

/-- Whether `p` starts at the end of `q` or later. -/
def isBehind (q p : Position) : Bool := q.span.stop ≤ p.span.start

/-- The expression at a place among the expressions of a node, if it is a block. -/
def blockAt? (place : Nat) (p : Position) : Option Position :=
  ((expressions p)[place]?).filter (·.kind == .blockExpr)

namespace BinExpr

def lhs? (p : Position) : Option Position := (expressions p).head?

def opToken? (p : Position) : Option Position := leadingToken? p

def rhs? (p : Position) : Option Position := do
  let op ← opToken? p
  (expressions p).find? (isBehind op)

def operator? (p : Position) : Option BinaryOperator :=
  (opToken? p).bind fun op => BinaryOperator.ofKind? op.kind

end BinExpr

namespace PrefixExpr

def opToken? (p : Position) : Option Position := leadingToken? p

def operator? (p : Position) : Option UnaryOperator :=
  (opToken? p).bind fun op => UnaryOperator.ofKind? op.kind

end PrefixExpr

namespace RangeExpr

def opToken? (p : Position) : Option Position := (token? .dot2 p).or (token? .dot2Eq p)

def operator? (p : Position) : Option RangeOperator :=
  (opToken? p).bind fun op => RangeOperator.ofKind? op.kind

def start? (p : Position) : Option Position := do
  let op ← opToken? p
  (expressions p).head?.filter fun e => isBehind e op

def stop? (p : Position) : Option Position := do
  let op ← opToken? p
  (expressions p).find? (isBehind op)

end RangeExpr

namespace IndexExpr

def base? (p : Position) : Option Position := (expressions p).head?

def index? (p : Position) : Option Position := (expressions p)[1]?

end IndexExpr

/-- What follows an `else`. -/
inductive ElseBranch where
  | block (p : Position)
  | ifExpr (p : Position)

namespace IfExpr

/-- The block behind the condition, also if the condition is a block. -/
def thenBranch? (p : Position) : Option Position := blockAt? 1 p

def elseBranch? (p : Position) : Option ElseBranch := do
  let behind ← token? .elseKw p
  let branch ← p.nodes.find? (isBehind behind)
  match branch.kind with
  | .blockExpr => some (.block branch)
  | .ifExpr => some (.ifExpr branch)
  | _ => none

end IfExpr

namespace WhileExpr

def loopBody? (p : Position) : Option Position := blockAt? 1 p

end WhileExpr

namespace ForExpr

/-- The block behind the iterable, which stands there only if there is an `in`. -/
def loopBody? (p : Position) : Option Position :=
  blockAt? (if (token? .inKw p).isSome then 1 else 0) p

end ForExpr

namespace Impl

/-- The trait that is implemented for a type. -/
def trait? (p : Position) : Option Position := do
  let _ ← token? .forKw p
  (types p).head?

def selfType? (p : Position) : Option Position :=
  match token? .forKw p with
  | some f => (types p).find? (isBehind f)
  | none => (types p).head?

end Impl

namespace Literal

def token? (p : Position) : Option Position := leadingToken? p

def kind? (p : Position) : Option LiteralKind :=
  (Literal.token? p).bind fun t => LiteralKind.ofKind? t.kind

end Literal

end Verbatim.Typed
