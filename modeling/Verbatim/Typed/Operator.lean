import Verbatim.Kind

/-!
# Operators and literals

What a token means as an operator or as a literal, apart from how it is spelled.
-/
namespace Verbatim

inductive Arithmetic where
  | add | sub | mul | div | rem | shl | shr | bitXor | bitOr | bitAnd
  deriving DecidableEq, Repr

def Arithmetic.label : Arithmetic → String
  | add => "Add"
  | sub => "Sub"
  | mul => "Mul"
  | div => "Div"
  | rem => "Rem"
  | shl => "Shl"
  | shr => "Shr"
  | bitXor => "BitXor"
  | bitOr => "BitOr"
  | bitAnd => "BitAnd"

/-- Operators between two operands. An assignment can carry out an operation on the way. -/
inductive BinaryOperator where
  | or | and | eq | notEq | less | lessEq | greater | greaterEq
  | arithmetic (operation : Arithmetic)
  | assign (operation : Option Arithmetic)
  deriving DecidableEq, Repr

namespace BinaryOperator

def ofKind? : Kind → Option BinaryOperator
  | .pipe2 => some or
  | .amp2 => some and
  | .eq2 => some eq
  | .notEq => some notEq
  | .leftAngle => some less
  | .ltEq => some lessEq
  | .rightAngle => some greater
  | .gtEq => some greaterEq
  | .plus => some (arithmetic .add)
  | .minus => some (arithmetic .sub)
  | .star => some (arithmetic .mul)
  | .slash => some (arithmetic .div)
  | .percent => some (arithmetic .rem)
  | .shl => some (arithmetic .shl)
  | .shr => some (arithmetic .shr)
  | .caret => some (arithmetic .bitXor)
  | .pipe => some (arithmetic .bitOr)
  | .amp => some (arithmetic .bitAnd)
  | .eq => some (assign none)
  | .plusEq => some (assign (some .add))
  | .minusEq => some (assign (some .sub))
  | .starEq => some (assign (some .mul))
  | .slashEq => some (assign (some .div))
  | .percentEq => some (assign (some .rem))
  | .shlEq => some (assign (some .shl))
  | .shrEq => some (assign (some .shr))
  | .caretEq => some (assign (some .bitXor))
  | .pipeEq => some (assign (some .bitOr))
  | .ampEq => some (assign (some .bitAnd))
  | _ => none

def label : BinaryOperator → String
  | or => "Or"
  | and => "And"
  | eq => "Eq"
  | notEq => "NotEq"
  | less => "Less"
  | lessEq => "LessEq"
  | greater => "Greater"
  | greaterEq => "GreaterEq"
  | arithmetic operation => operation.label
  | assign none => "Assign(None)"
  | assign (some operation) => "Assign(Some(" ++ operation.label ++ "))"

end BinaryOperator

/-- Operators in front of their operand. -/
inductive UnaryOperator where
  | deref | not | neg
  deriving DecidableEq, Repr

namespace UnaryOperator

def ofKind? : Kind → Option UnaryOperator
  | .star => some deref
  | .bang => some not
  | .minus => some neg
  | _ => none

def label : UnaryOperator → String
  | deref => "Deref"
  | not => "Not"
  | neg => "Neg"

end UnaryOperator

/-- Whether a range contains its end. -/
inductive RangeOperator where
  | exclusive | inclusive
  deriving DecidableEq, Repr

namespace RangeOperator

def ofKind? : Kind → Option RangeOperator
  | .dot2 => some exclusive
  | .dot2Eq => some inclusive
  | _ => none

def label : RangeOperator → String
  | exclusive => "Exclusive"
  | inclusive => "Inclusive"

end RangeOperator

inductive LiteralKind where
  | int | float | string | byteString | char | byte
  | bool (value : Bool)
  deriving DecidableEq, Repr

namespace LiteralKind

def ofKind? : Kind → Option LiteralKind
  | .intNumber => some int
  | .floatNumber => some float
  | .string => some string
  | .byteString => some byteString
  | .char => some char
  | .byte => some byte
  | .trueKw => some (bool true)
  | .falseKw => some (bool false)
  | _ => none

def label : LiteralKind → String
  | int => "Int"
  | float => "Float"
  | string => "String"
  | byteString => "ByteString"
  | char => "Char"
  | byte => "Byte"
  | bool value => "Bool(" ++ toString value ++ ")"

end LiteralKind

end Verbatim
