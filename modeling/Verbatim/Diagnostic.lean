import Verbatim.Kind
import Verbatim.Span

/-!
# Diagnostics

A diagnostic is a cause and the span it is anchored at. The cause decides the category and the wording;
nothing else in the library writes a message.
-/
namespace Verbatim

/-- Tokens that run on until a terminator. -/
inductive Delimited where
  | byteLiteral | byteString | string | character | blockComment | rawString
  deriving DecidableEq, Repr

def Delimited.describe : Delimited → String
  | byteLiteral => "byte literal"
  | byteString => "byte string literal"
  | string => "string literal"
  | character => "character literal"
  | blockComment => "block comment"
  | rawString => "raw string literal"

/-- What can be wrong with a single token. -/
inductive LexicalFault where
  | unknownCharacter
  | missingQuote
  | unterminated (what : Delimited)
  deriving DecidableEq, Repr

/-- What the grammar asks for where something else stands. -/
inductive Expectation where
  | name | identifier | block | item | itemAfterVisibility | parameters | structBody | field
  | variant | useTree | useGroup | genericParam | genericArg | param | segment | literal | pattern
  | type | pointee | traitBound | statement | matchArm | member | argList | argument | expression
  | closureBody
  deriving DecidableEq, Repr

def Expectation.describe : Expectation → String
  | name => "a name"
  | identifier => "an identifier"
  | block => "a block"
  | item => "an item"
  | itemAfterVisibility => "an item after visibility"
  | parameters => "function parameters"
  | structBody => "`\x7b`, `(` or `;`"
  | field => "a field"
  | variant => "a variant"
  | useTree => "a use tree"
  | useGroup => "`\x7b` or `*`"
  | genericParam => "a generic parameter"
  | genericArg => "a generic argument"
  | param => "a parameter"
  | segment => "a path segment"
  | literal => "a literal"
  | pattern => "a pattern"
  | type => "a type"
  | pointee => "`mut` or `const`"
  | traitBound => "a trait bound"
  | statement => "a statement"
  | matchArm => "a match arm"
  | member => "a field name or number"
  | argList => "an argument list"
  | argument => "an argument"
  | expression => "an expression"
  | closureBody => "a closure body"

inductive Cause where
  | lexical (fault : LexicalFault)
  | missing (kind : Kind)
  | expected (what : Expectation)
  | unmatchedBrace
  | misplacedModifier
  | tooDeep
  deriving DecidableEq, Repr

/-- Either a token cannot go on with the construct at hand, or the end of a construct never came. -/
inductive Category where
  | unexpectedToken | unterminatedConstruct
  deriving DecidableEq, Repr

def LexicalFault.message : LexicalFault → String
  | unknownCharacter => "unknown character"
  | missingQuote => "expected `\"` in raw string literal"
  | unterminated what => "unterminated " ++ what.describe

def LexicalFault.category : LexicalFault → Category
  | unterminated _ => .unterminatedConstruct
  | _ => .unexpectedToken

namespace Cause

def message : Cause → String
  | lexical fault => fault.message
  | missing kind => "expected `" ++ kind.display ++ "`"
  | expected what => "expected " ++ what.describe
  | unmatchedBrace => "unmatched `\x7d`"
  | misplacedModifier => "modifiers must be written as `const async unsafe fn`"
  | tooDeep => "nesting is too deep"

/-- A missing closing delimiter means that the construct around it is unterminated. -/
def category : Cause → Category
  | lexical fault => fault.category
  | missing .rightParen | missing .rightBracket | missing .rightBrace | missing .rightAngle =>
    .unterminatedConstruct
  | _ => .unexpectedToken

end Cause

structure Diagnostic where
  cause : Cause
  span : Span
  deriving DecidableEq, Repr

namespace Diagnostic

def message (d : Diagnostic) : String := d.cause.message

def category (d : Diagnostic) : Category := d.cause.category

def render (d : Diagnostic) : String := d.message ++ " at " ++ d.span.render

end Diagnostic

end Verbatim
