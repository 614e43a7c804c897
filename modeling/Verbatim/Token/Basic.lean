import Verbatim.Diagnostic
import Verbatim.Text.Basic

/-!
# Tokens

A token is a kind and the exact text it covers, at its offset. A malformed token keeps its kind and
text and carries the fault besides.
-/
namespace Verbatim

structure Token where
  kind : Kind
  text : Text
  offset : Nat
  fault : Option LexicalFault
  deriving DecidableEq, Repr

namespace Token

def span (t : Token) : Span := ⟨t.offset, t.text.size⟩

def isTrivia (t : Token) : Bool := t.kind.isTrivia

def diagnostic? (t : Token) : Option Diagnostic :=
  t.fault.map fun fault => ⟨.lexical fault, t.span⟩

end Token

end Verbatim
