import Verbatim.Text.Basic

/-!
# What can be wrong with a grammar
-/
namespace Verbatim.Grammar

/-- What the notation asks for where something else stands. -/
inductive Wanted where
  | ruleName | equals | rule | closingParen | definition
  deriving DecidableEq, Repr

def Wanted.describe : Wanted → String
  | ruleName => "rule name"
  | equals => "`=`"
  | rule => "rule"
  | closingParen => "`)`"
  | definition => "rule definition"

inductive Error where
  | unexpectedCharacter (c : Char) (offset : Nat)
  | unterminatedLiteral (offset : Nat)
  | expected (what : Wanted) (offset : Nat)
  | missingBody (rule : Text) (offset : Nat)
  | duplicateRule (name : Text) (first offset : Nat)
  | undefinedRule (name referrer : Text) (offset : Nat)
  deriving DecidableEq, Repr

namespace Error

private def ticked (t : Text) : String := "`" ++ String.ofList t ++ "`"

private def place (offset : Nat) : String := " at offset " ++ toString offset

def message : Error → String
  | unexpectedCharacter c offset => "unexpected character " ++ ticked [c] ++ place offset
  | unterminatedLiteral offset =>
    "unterminated token literal starting" ++ place offset
  | expected what offset => "expected " ++ what.describe ++ place offset
  | missingBody rule offset => "rule " ++ ticked rule ++ place offset ++ " has no body"
  | duplicateRule name first offset =>
    "rule " ++ ticked name ++ place offset ++ " is already defined" ++ place first
  | undefinedRule name referrer offset =>
    "undefined rule " ++ ticked name ++ " referenced from " ++ ticked referrer ++ place offset

end Error

end Verbatim.Grammar
