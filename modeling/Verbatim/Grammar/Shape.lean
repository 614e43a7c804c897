import Verbatim.Grammar.Basic
import Verbatim.Grammar.Naming

/-!
# Shapes of typed nodes

The body of a rule says which accessors a node of its kind has: one for each terminal, one for each rule
that it refers to, and one for all nodes of a repeated rule. A choice between plain references has no
node of its own and makes a family. Where two accessors for a single child could answer with the same
node, neither is kept: such children are told apart by their places, not by their types.
-/
namespace Verbatim.Grammar

/-- How an accessor finds its answer among the children of a node. -/
inductive Access where
  /-- The first token of a kind. -/
  | token
  /-- The first node that fits a rule. -/
  | child
  /-- All nodes that fit a rule. -/
  | children
  deriving DecidableEq, Repr

structure Field where
  name : Text
  access : Access
  /-- The kind of a token, or the rule that a node fits. -/
  target : Text
  deriving DecidableEq, Repr

structure NodeShape where
  name : Text
  kind : Text
  fields : List Field
  deriving DecidableEq, Repr

/-- Several rules under one name. -/
structure Family where
  name : Text
  variants : List Text
  deriving DecidableEq, Repr

structure Shape where
  nodes : List NodeShape
  families : List Family
  deriving DecidableEq, Repr

/-! ## The fields of a rule -/

/-- The rule `x` of a list `x (t x)*` or `x (t x)* t?` with separators. -/
def Rule.separated? : List Rule → Option Nat
  | [.ref x, .rep (.seq [.terminal _, .ref y])] => if x = y then some x else none
  | [.ref x, .rep (.seq [.terminal s, .ref y]), .opt (.terminal t)] =>
    if x = y ∧ s = t then some x else none
  | _ => none

namespace Field

def one (g : Grammar) (label? : Option Text) (rule : Nat) : Field :=
  ⟨label?.getD (accessorName (g.ruleName rule)), .child, g.ruleName rule⟩

def many (g : Grammar) (label? : Option Text) (rule : Nat) : Field :=
  ⟨label?.getD (plural (accessorName (g.ruleName rule))), .children, g.ruleName rule⟩

/-- The field for a terminal, if its spelling is one that a kind could have. -/
def token? (g : Grammar) (terminal : Nat) : Option Field :=
  (terminalName? (g.terminal terminal)).map fun (kind, stem) =>
    ⟨stem ++ "_token".toList, .token, kind⟩

/-- The rule of a field for a single child. -/
def single? (f : Field) : Option Text := if f.access = .child then some f.target else none

end Field

mutual
/-- The fields that a rule gives rise to, under the label that stands in front of it. A choice behind a
label has none. -/
def fieldsOf (g : Grammar) (label? : Option Text) : Rule → List Field
  | .ref i => [Field.one g label? i]
  | .terminal i => (Field.token? g i).toList
  | .label _ (.alt _) => []
  | .label name r => fieldsOf g (some name) r
  | .seq rs =>
    match Rule.separated? rs with
    | some i => [Field.many g label? i]
    | none => fieldsOfAll g label? rs
  | .alt rs => fieldsOfAll g label? rs
  | .opt r => fieldsOf g label? r
  | .rep (.ref i) => [Field.many g label? i]
  | .rep r => fieldsOf g label? r

def fieldsOfAll (g : Grammar) (label? : Option Text) : List Rule → List Field
  | [] => []
  | r :: rs => fieldsOf g label? r ++ fieldsOfAll g label? rs
end

/-! ## Fields that can be told apart -/

/-- Keeps the first field of each name. -/
def firstOfName (fs : List Field) : List Field :=
  fs.foldl (fun kept f => if kept.any (·.name == f.name) then kept else kept ++ [f]) []

/-- Drops single children that share their rule with another one. -/
def withoutTwins (fs : List Field) : List Field :=
  fs.filter fun f =>
    match f.single? with
    | none => true
    | some rule => fs.countP (·.single? == some rule) ≤ 1

/-- Drops single children whose rule is a variant of the family of another one. -/
def withoutVariants (families : List Family) (fs : List Field) : List Field :=
  let present := (fs.filterMap Field.single?).filterMap fun rule => families.find? (·.name == rule)
  fs.filter fun f =>
    match f.single? with
    | none => true
    | some rule => !present.any (·.variants.contains rule)

/-! ## The shape of a grammar -/

def families (g : Grammar) : List Family :=
  g.rules.filterMap fun d => d.choices?.map fun rules => ⟨d.name, rules.map g.ruleName⟩

def nodeShape (g : Grammar) (d : Definition) : NodeShape :=
  ⟨d.name, upperSnake d.name,
    withoutVariants (families g) (withoutTwins (firstOfName (fieldsOf g none d.body)))⟩

def shape (g : Grammar) : Shape :=
  ⟨(g.rules.filter (·.choices?.isNone)).map (nodeShape g), families g⟩

end Verbatim.Grammar
