import Verbatim.Typed.Fields

/-!
# Mandatory fields

What a rule names outside of options, repetitions and choices is part of each of its nodes, and the accessors
for it are mandatory. The token of a labeled choice is one such part, whichever of its spellings it has: it
goes by its place, and there is one accessor for the token itself and one for what it means.
-/
namespace Verbatim

namespace Grammar

/-- What the accessors for the token of a labeled choice are called. -/
def choiceNames (label : Text) : List Text :=
  if label = "value".toList then ["token".toList, "kind".toList]
  else [label ++ "_token".toList, label ++ "_kind".toList]

mutual
/-- The names of the mandatory accessors of a rule, under the label that stands in front of it. -/
def mandatoryOf (g : Grammar) (label? : Option Text) : Rule → List Text
  | .ref i => [(Field.one g label? i).name]
  | .terminal i => ((Field.token? g i).map (·.name)).toList
  | .label name (.alt _) => choiceNames name
  | .label name r => mandatoryOf g (some name) r
  | .seq rs =>
    match Rule.separated? rs with
    | some i => [(Field.many g label? i).name]
    | none => mandatoryOfAll g label? rs
  | .alt _ | .opt _ | .rep _ => []

def mandatoryOfAll (g : Grammar) (label? : Option Text) : List Rule → List Text
  | [] => []
  | r :: rs => mandatoryOf g label? r ++ mandatoryOfAll g label? rs
end

end Grammar

namespace Typed

/-- The names of the mandatory accessors that a grammar gives to a type of node. -/
def NodeType.mandatoryIn (g : Grammar) (t : NodeType) : List String :=
  match g.rules.find? (·.name == t.name.toList) with
  | some d => (Grammar.mandatoryOf g none d.body).map String.ofList
  | none => []

def NodeType.mandatory (t : NodeType) : List String := t.mandatoryIn Grammar.bundled

end Typed

end Verbatim
