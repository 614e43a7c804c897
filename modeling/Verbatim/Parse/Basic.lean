import Verbatim.Event.Replay
import Verbatim.Parser.Closed
import Verbatim.Token.Scan

/-!
# Parsing

A text becomes a tree that spells it, with diagnostics for what is wrong in it. A fragment is a list in
braces that can be parsed apart from the file around it.
-/
namespace Verbatim

structure Parse where
  tree : Green
  diagnostics : List Diagnostic
  deriving Repr

namespace Parse

def ok (p : Parse) : Bool := p.diagnostics.isEmpty

def text (p : Parse) : Text := p.tree.text

/-- The same tree and the same diagnostics. -/
def same (p q : Parse) : Bool := p.tree == q.tree && p.diagnostics == q.diagnostics

/-- Parses a text by some program; tells also whether that took everything. -/
def byProgram (program : Parser Unit) (tokens : List Token) : Except Fault (Parse × Bool) := do
  let (log, all) := Parser.run program (.ofTokens tokens)
  let (tree, diagnostics) ← log.toTree tokens
  return (⟨tree, diagnostics⟩, all)

/-- Parses a whole file. -/
def ofText (t : Text) : Except Fault Parse := return (← byProgram Parser.sourceFile (Token.list t)).1

end Parse

namespace Fragment

/-- Whether the rest of a list, inside of `depth` braces, closes the outermost one with its very last
token. -/
def closesLast : (depth : Nat) → List Kind → Bool
  | _, [] => false
  | depth, .leftBrace :: rest => closesLast (depth + 1) rest
  | 0, .rightBrace :: _ => false
  | 1, .rightBrace :: rest => rest.isEmpty
  | depth + 2, .rightBrace :: rest => closesLast (depth + 1) rest
  | depth, _ :: rest => closesLast depth rest

/-- An opening brace, anything with its braces paired, and the brace that closes the first: no more, and
no trivia at either end. -/
def isBraced : List Kind → Bool
  | .leftBrace :: rest => closesLast 1 rest
  | _ => false

/-- Parses a text as one list of its kind, if it is braced and the list spans all of it. -/
def parse? (f : Fragment) (t : Text) : Except Fault (Option Parse) := do
  let tokens := Token.list t
  if !isBraced ((tokens.map (·.kind)).filter (· != .eof)) then return none
  let (p, all) ← Parse.byProgram (.list f) tokens
  return if all && p.tree.kind == f.kind then some p else none

end Fragment

end Verbatim
