import Verbatim.Grammar.Lexeme
import Verbatim.Grammar.Shape
import Verbatim.Grammar.Source

/-!
# References by number

A body refers to rules and terminals by their numbers. The functions of this module look every number up
and have no answer where one is out of range, where those of `Verbatim.Grammar.Basic` and
`Verbatim.Grammar.Shape` go on with a default.
-/
namespace Verbatim.Grammar

/-- A rule or a terminal by its number. -/
inductive Leaf where
  | rule (number : Nat)
  | terminal (number : Nat)
  deriving DecidableEq, Repr

/-- A rule or a terminal as it is written. -/
inductive Mention where
  | rule (name : Text)
  | terminal (spelling : Text)
  deriving DecidableEq, Repr

namespace Rule

mutual
/-- What a rule refers to, from left to right. -/
def leaves : Rule → List Leaf
  | ref i => [.rule i]
  | terminal i => [.terminal i]
  | label _ r => leaves r
  | seq rs => leavesOf rs
  | alt rs => leavesOf rs
  | opt r => leaves r
  | rep r => leaves r

def leavesOf : List Rule → List Leaf
  | [] => []
  | r :: rs => leaves r ++ leavesOf rs
end

end Rule

namespace Leaf

def Within (g : Grammar) : Leaf → Prop
  | rule i => i < g.rules.length
  | terminal i => i < g.terminals.length

/-- What a number stands for. -/
def mention? (g : Grammar) : Leaf → Option Mention
  | rule i => (g.names[i]?).map .rule
  | terminal i => (g.terminals[i]?).map .terminal

end Leaf

/-- What lexemes mention: names, other than labels, and terminals. -/
def mentions : List Lexeme → List Mention
  | .name n :: ls =>
    match ls with
    | .colon :: _ => mentions ls
    | _ => .rule n :: mentions ls
  | .terminal s :: ls => .terminal s :: mentions ls
  | _ :: ls => mentions ls
  | [] => []

/-! ## Lookups that can fail -/

/-- The numbers of the rules. -/
def numbers (g : Grammar) : List Nat := List.range g.rules.length

/-- The rules by their numbers. -/
def listed? (g : Grammar) : Option (List Definition) := g.numbers.mapM fun i => g.rules[i]?

/-- The rules and terminals without a kind. -/
def missing? (g : Grammar) (hasRule hasTerminal : Text → Bool) : Option (List Missing) := do
  let rules ← g.listed?
  return ((rules.filter fun d => d.choices?.isNone && !hasRule d.name).map fun d => .rule d.name) ++
    ((g.terminals.filter fun t => !hasTerminal t).map .terminal)

namespace Field

def one? (g : Grammar) (label? : Option Text) (rule : Nat) : Option Field := do
  let name ← g.names[rule]?
  return ⟨label?.getD (accessorName name), .child, name⟩

def many? (g : Grammar) (label? : Option Text) (rule : Nat) : Option Field := do
  let name ← g.names[rule]?
  return ⟨label?.getD (plural (accessorName name)), .children, name⟩

/-- The field for a terminal, or none if there is no kind for its spelling. -/
def ofTerminal? (g : Grammar) (terminal : Nat) : Option (List Field) := do
  let spelling ← g.terminals[terminal]?
  return ((terminalName? spelling).map fun (kind, stem) =>
    (⟨stem ++ "_token".toList, .token, kind⟩ : Field)).toList

end Field

mutual
def fieldsOf? (g : Grammar) (label? : Option Text) : Rule → Option (List Field)
  | .ref i => (Field.one? g label? i).map ([·])
  | .terminal i => Field.ofTerminal? g i
  | .label _ (.alt _) => some []
  | .label name r => fieldsOf? g (some name) r
  | .seq rs =>
    match Rule.separated? rs with
    | some i => (Field.many? g label? i).map ([·])
    | none => fieldsOfAll? g label? rs
  | .alt rs => fieldsOfAll? g label? rs
  | .opt r => fieldsOf? g label? r
  | .rep (.ref i) => (Field.many? g label? i).map ([·])
  | .rep r => fieldsOf? g label? r

def fieldsOfAll? (g : Grammar) (label? : Option Text) : List Rule → Option (List Field)
  | [] => some []
  | r :: rs => do return (← fieldsOf? g label? r) ++ (← fieldsOfAll? g label? rs)
end

/-- The family of a choice between plain references. -/
def familyOf? (g : Grammar) (name : Text) (rules : List Nat) : Option Family := do
  return ⟨name, ← rules.mapM fun i => g.names[i]?⟩

def families? (g : Grammar) : Option (List Family) := do
  let rules ← g.listed?
  (rules.filterMap fun d => d.choices?.map fun is => (d.name, is)).mapM fun (name, is) => familyOf? g name is

def nodeShape? (g : Grammar) (families : List Family) (d : Definition) : Option NodeShape := do
  let fields ← fieldsOf? g none d.body
  return ⟨d.name, upperSnake d.name, withoutVariants families (withoutTwins (firstOfName fields))⟩

def shape? (g : Grammar) : Option Shape := do
  let rules ← g.listed?
  let families ← families? g
  return ⟨← (rules.filter (·.choices?.isNone)).mapM (nodeShape? g families), families⟩

def source? (g : Grammar) : Option String := do return (← shape? g).source

end Verbatim.Grammar
