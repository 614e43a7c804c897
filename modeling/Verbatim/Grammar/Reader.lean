import Verbatim.Grammar.Basic
import Verbatim.Grammar.Lexeme

/-!
# Reading a grammar

The names that a text defines and the terminals that it uses are collected first, so a body may refer to
rules that are defined behind it. A name before an equals sign always starts a definition and so ends the
one before. Each step returns what it leaves with the proof that it took something.
-/
namespace Verbatim.Grammar

/-- The names that a name and an equals sign define, with their offsets. -/
def definitions : List Placed → List (Text × Nat)
  | ⟨.name n, offset⟩ :: rest =>
    match rest with
    | ⟨.equals, _⟩ :: _ => (n, offset) :: definitions rest
    | _ => definitions rest
  | _ :: rest => definitions rest
  | [] => []

/-- Refuses a name that is already among those seen. -/
def checkDistinct (seen : List (Text × Nat)) : List (Text × Nat) → Except Error Unit
  | [] => .ok ()
  | (name, offset) :: rest =>
    match seen.lookup name with
    | some first => .error (.duplicateRule name first offset)
    | none => checkDistinct (seen ++ [(name, offset)]) rest

/-- The terminals in the order of their first use. -/
def terminalsOf (ts : List Placed) : List Text :=
  ts.foldl (fun seen t =>
    match t.lexeme with
    | .terminal s => if seen.contains s then seen else seen ++ [s]
    | _ => seen) []

/-- What the bodies of a grammar are read against. -/
structure Scope where
  rules : List Text
  terminals : List Text
  /-- Offset of the end of the text. -/
  stop : Nat

/-- Fewer lexemes than there were. -/
abbrev Fewer (ts : List Placed) := { rest : List Placed // rest.length < ts.length }

namespace Fewer

def weaken {ts us : List Placed} (h : us.length < ts.length) (r : Fewer us) : Fewer ts :=
  ⟨r.val, Nat.lt_trans r.property h⟩

/-- What follows a mark, if the mark stands first. -/
def behind? {ts : List Placed} (mark : Lexeme) : Fewer ts → Option (Fewer ts)
  | ⟨t :: rest, h⟩ =>
    if t.lexeme = mark then some ⟨rest, Nat.lt_trans (Nat.lt_succ_self _) h⟩ else none
  | ⟨[], _⟩ => none

end Fewer

namespace Scope

def offset (s : Scope) : List Placed → Nat
  | [] => s.stop
  | t :: _ => t.offset

def expected (s : Scope) (what : Wanted) (ts : List Placed) : Except Error α :=
  .error (.expected what (s.offset ts))

end Scope

/-- Whether a definition starts here. -/
def startsDefinition : List Placed → Bool
  | ⟨.name _, _⟩ :: ⟨.equals, _⟩ :: _ => true
  | _ => false

/-- Whether a definition ends here. -/
def endsDefinition (ts : List Placed) : Bool := ts.isEmpty || startsDefinition ts

/-- Whether a sequence ends here. -/
def endsSequence : List Placed → Bool
  | ⟨.pipe, _⟩ :: _ => true
  | ⟨.rightParen, _⟩ :: _ => true
  | ts => endsDefinition ts

/-- Wraps a rule into the repetitions and options written behind it. -/
def suffixed (r : Rule) : (ts : List Placed) → Rule × { rest : List Placed // rest.length ≤ ts.length }
  | ⟨.star, _⟩ :: rest =>
    let (r, ⟨rest, h⟩) := suffixed (.rep r) rest
    (r, ⟨rest, Nat.le_succ_of_le h⟩)
  | ⟨.question, _⟩ :: rest =>
    let (r, ⟨rest, h⟩) := suffixed (.opt r) rest
    (r, ⟨rest, Nat.le_succ_of_le h⟩)
  | ts => (r, ⟨ts, Nat.le_refl _⟩)

mutual
def alternatives (s : Scope) (owner : Text) (ts : List Placed) :
    Except Error (List Rule × Fewer ts) :=
  match sequenceOf s owner ts with
  | .error e => .error e
  | .ok (first, left) =>
    match left.behind? .pipe with
    | none => .ok ([.sequence first], left)
    | some ⟨rest, h⟩ =>
      match alternatives s owner rest with
      | .error e => .error e
      | .ok (more, left) => .ok (.sequence first :: more, left.weaken h)
termination_by 4 * ts.length + 3

def sequenceOf (s : Scope) (owner : Text) (ts : List Placed) :
    Except Error (List Rule × Fewer ts) :=
  if endsSequence ts then s.expected .rule ts
  else
    match suffixedAtom s owner ts with
    | .error e => .error e
    | .ok (first, ⟨rest, h⟩) =>
      if endsSequence rest then .ok ([first], ⟨rest, h⟩)
      else
        match sequenceOf s owner rest with
        | .error e => .error e
        | .ok (more, left) => .ok (first :: more, left.weaken h)
termination_by 4 * ts.length + 2

def suffixedAtom (s : Scope) (owner : Text) (ts : List Placed) : Except Error (Rule × Fewer ts) :=
  match atom s owner ts with
  | .error e => .error e
  | .ok (r, ⟨rest, h⟩) =>
    let (r, ⟨rest, h'⟩) := suffixed r rest
    .ok (r, ⟨rest, Nat.lt_of_le_of_lt h' h⟩)
termination_by 4 * ts.length + 1

def atom (s : Scope) (owner : Text) (ts : List Placed) : Except Error (Rule × Fewer ts) :=
  match ts with
  | ⟨.name n, _⟩ :: ⟨.colon, _⟩ :: rest =>
    match suffixedAtom s owner rest with
    | .error e => .error e
    | .ok (r, left) => .ok (.label n r, left.weaken (by simp only [List.length_cons]; omega))
  | ⟨.name n, offset⟩ :: rest =>
    match s.rules.idxOf? n with
    | some i => .ok (.ref i, ⟨rest, Nat.lt_succ_self _⟩)
    | none => .error (.undefinedRule n owner offset)
  | ⟨.terminal t, _⟩ :: rest => .ok (.terminal (s.terminals.idxOf t), ⟨rest, Nat.lt_succ_self _⟩)
  | ⟨.leftParen, _⟩ :: rest =>
    match alternatives s owner rest with
    | .error e => .error e
    | .ok (rules, left) =>
      match left.behind? .rightParen with
      | some left => .ok (.choice rules, left.weaken (Nat.lt_succ_self _))
      | none => s.expected .closingParen left.val
  | ts => s.expected .rule ts
termination_by 4 * ts.length
end

/-- One definition: a name, an equals sign and a body. -/
def definition (s : Scope) : (ts : List Placed) → Except Error (Definition × Fewer ts)
  | ⟨.name n, offset⟩ :: ⟨.equals, _⟩ :: rest =>
    if endsDefinition rest then .error (.missingBody n offset)
    else
      match alternatives s n rest with
      | .error e => .error e
      | .ok (rules, left) =>
        if endsDefinition left.val then
          .ok (⟨n, .choice rules, offset⟩, left.weaken (by simp only [List.length_cons]; omega))
        else s.expected .definition left.val
  | ⟨.name _, _⟩ :: rest => s.expected .equals rest
  | ts => s.expected .ruleName ts

def definitionsOf (s : Scope) (ts : List Placed) : Except Error (List Definition) :=
  if ts.isEmpty then .ok []
  else
    match definition s ts with
    | .error e => .error e
    | .ok (d, ⟨rest, _⟩) => (definitionsOf s rest).map (d :: ·)
termination_by ts.length

/-- The grammar that some lexemes of a text of `stop` bytes define. -/
def ofLexemes (ts : List Placed) (stop : Nat) : Except Error Grammar := do
  let defined := definitions ts
  checkDistinct [] defined
  let terminals := terminalsOf ts
  return ⟨← definitionsOf ⟨defined.map (·.1), terminals, stop⟩ ts, terminals⟩

def ofText (t : Text) : Except Error Grammar := do
  ofLexemes (← scan t) (Text.size t)

end Verbatim.Grammar
