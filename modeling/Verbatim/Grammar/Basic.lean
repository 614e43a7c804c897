import Verbatim.Kind
import Verbatim.Text.Basic

/-!
# Grammars

A grammar describes the shape of syntax trees: each rule has a name and a body over other rules and
terminals, both given by their number. Rules are numbered as they are defined, terminals as they are
first used.
-/
namespace Verbatim

namespace Grammar

inductive Rule where
  | ref (rule : Nat)
  | terminal (index : Nat)
  | label (name : Text) (rule : Rule)
  | seq (rules : List Rule)
  | alt (rules : List Rule)
  | opt (rule : Rule)
  | rep (rule : Rule)
  deriving Repr, Inhabited

namespace Rule

/-- Rules one after the other; a single one stands for itself. -/
def sequence : List Rule → Rule
  | [r] => r
  | rules => seq rules

/-- A choice of rules; a single one stands for itself. -/
def choice : List Rule → Rule
  | [r] => r
  | rules => alt rules

def ref? : Rule → Option Nat
  | ref i => some i
  | _ => none

end Rule

structure Definition where
  name : Text
  body : Rule
  /-- Where the text of the grammar defines the rule. -/
  offset : Nat
  deriving Repr

/-- The rules of a choice between plain references. -/
def Definition.choices? (d : Definition) : Option (List Nat) :=
  match d.body with
  | .alt rules => rules.mapM Rule.ref?
  | _ => none

end Grammar

structure Grammar where
  rules : List Grammar.Definition
  terminals : List Text
  deriving Repr

namespace Grammar

def empty : Grammar := ⟨[], []⟩

def names (g : Grammar) : List Text := g.rules.map (·.name)

def ruleName (g : Grammar) (rule : Nat) : Text := (g.names[rule]?).getD []

def terminal (g : Grammar) (index : Nat) : Text := (g.terminals[index]?).getD []

/-- The number of the rule of some name. -/
def find? (g : Grammar) (name : Text) : Option Nat := g.names.idxOf? name

/-- A name of a grammar that has no kind. -/
inductive Missing where
  | rule (name : Text)
  | terminal (spelling : Text)
  deriving DecidableEq, Repr

/-- The rules and terminals without a kind, rules first. Choices between plain references are families
of kinds and need none of their own. -/
def missing (g : Grammar) (hasRule hasTerminal : Text → Bool) : List Missing :=
  ((g.rules.filter fun d => d.choices?.isNone && !hasRule d.name).map fun d => .rule d.name) ++
    ((g.terminals.filter fun t => !hasTerminal t).map .terminal)

/-- What a grammar has over the kinds of the library. -/
def missingKinds (g : Grammar) : List Missing :=
  g.missing (fun name => (Kind.ofRuleName? (String.ofList name)).isSome)
    fun spelling => (Kind.ofSpelling? (String.ofList spelling)).isSome

end Grammar

end Verbatim
