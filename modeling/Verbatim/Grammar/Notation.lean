import Verbatim.Grammar.Reader

/-!
# The notation of grammars

The notation of grammars has rules of its own: a definition is a name, an equals sign and a choice; a choice
is sequences with bars in between; a sequence is one or more elements with stars and question marks behind
them; an element is a labeled one, a name, a terminal or a choice in parentheses.
-/
namespace Verbatim.Grammar

/-- What can stand behind an element. -/
inductive Suffix where
  | star | question
  deriving DecidableEq, Repr

namespace Suffix

def lexeme : Suffix → Lexeme
  | star => .star
  | question => .question

def rule : Suffix → Rule → Rule
  | star => .rep
  | question => .opt

end Suffix

/-- What the notation derives, with every sequence and every choice kept. -/
inductive Tree where
  | ref (name : Text)
  | terminal (text : Text)
  | label (name : Text) (tree : Tree)
  | seq (trees : List Tree)
  | alt (trees : List Tree)
  | marked (suffix : Suffix) (tree : Tree)

namespace Tree

mutual
/-- The rule that a tree stands for: names and terminals by their numbers, and no sequence or choice of one
alone. -/
def rule (s : Scope) : Tree → Rule
  | ref name => .ref (s.rules.idxOf name)
  | terminal text => .terminal (s.terminals.idxOf text)
  | label name t => .label name (rule s t)
  | seq ts => .sequence (rules s ts)
  | alt ts => .choice (rules s ts)
  | marked suffix t => suffix.rule (rule s t)

def rules (s : Scope) : List Tree → List Rule
  | [] => []
  | t :: ts => rule s t :: rules s ts
end

mutual
/-- The names that stand for rules. -/
def references : Tree → List Text
  | ref name => [name]
  | terminal _ => []
  | label _ t => references t
  | seq ts => referencesOf ts
  | alt ts => referencesOf ts
  | marked _ t => references t

def referencesOf : List Tree → List Text
  | [] => []
  | t :: ts => references t ++ referencesOf ts
end

def isLabel : Tree → Bool
  | label _ _ => true
  | _ => false

mutual
/-- Whether every suffix behind a labeled element is part of what is labeled. -/
def tight : Tree → Bool
  | ref _ => true
  | terminal _ => true
  | label _ t => tight t
  | seq ts => tightAll ts
  | alt ts => tightAll ts
  | marked _ t => !t.isLabel && tight t

def tightAll : List Tree → Bool
  | [] => true
  | t :: ts => tight t && tightAll ts
end

end Tree

/-- What a row of lexemes is derived as. -/
inductive Form where
  | choice | sequence | suffixed | element
  deriving DecidableEq, Repr

/-- The rules of the notation. -/
inductive Derives : Form → List Lexeme → Tree → Prop
  | ref (name : Text) : Derives .element [.name name] (.ref name)
  | terminal (text : Text) : Derives .element [.terminal text] (.terminal text)
  | label (name : Text) {ls : List Lexeme} {t : Tree} (h : Derives .suffixed ls t) :
    Derives .element (.name name :: .colon :: ls) (.label name t)
  | group {ls : List Lexeme} {t : Tree} (h : Derives .choice ls t) :
    Derives .element (.leftParen :: (ls ++ [.rightParen])) t
  | bare {ls : List Lexeme} {t : Tree} (h : Derives .element ls t) : Derives .suffixed ls t
  | marked (suffix : Suffix) {ls : List Lexeme} {t : Tree} (h : Derives .suffixed ls t) :
    Derives .suffixed (ls ++ [suffix.lexeme]) (.marked suffix t)
  | seqOne {ls : List Lexeme} {t : Tree} (h : Derives .suffixed ls t) : Derives .sequence ls (.seq [t])
  | seqMore {ls ms : List Lexeme} {t : Tree} {ts : List Tree} (h : Derives .suffixed ls t)
    (more : Derives .sequence ms (.seq ts)) : Derives .sequence (ls ++ ms) (.seq (t :: ts))
  | altOne {ls : List Lexeme} {t : Tree} (h : Derives .sequence ls t) : Derives .choice ls (.alt [t])
  | altMore {ls ms : List Lexeme} {t : Tree} {ts : List Tree} (h : Derives .sequence ls t)
    (more : Derives .choice ms (.alt ts)) : Derives .choice (ls ++ .pipe :: ms) (.alt (t :: ts))

/-- A definition as it is written. -/
structure Entry where
  name : Text
  offset : Nat
  tree : Tree

def lexemes (ts : List Placed) : List Lexeme := ts.map (·.lexeme)

/-- Definitions one after the other. -/
inductive Reads : List Placed → List Entry → Prop
  | nil : Reads [] []
  | cons {name : Text} {offset behind : Nat} {body rest : List Placed} {t : Tree} {es : List Entry}
    (derives : Derives .choice (lexemes body) t) (more : Reads rest es) :
    Reads (⟨.name name, offset⟩ :: ⟨.equals, behind⟩ :: (body ++ rest)) (⟨name, offset, t⟩ :: es)

def Entry.definition (s : Scope) (e : Entry) : Definition := ⟨e.name, e.tree.rule s, e.offset⟩

/-- No name is defined twice, and every name that stands for a rule is defined. -/
structure Consistent (es : List Entry) : Prop where
  distinct : (es.map (·.name)).Nodup
  defined : ∀ e ∈ es, ∀ n ∈ e.tree.references, n ∈ es.map (·.name)

/-- What the definitions in a row of lexemes are read against. -/
def scopeOf (ts : List Placed) (es : List Entry) (stop : Nat) : Scope :=
  ⟨es.map (·.name), terminalsOf ts, stop⟩

/-- The grammar that some definitions make. -/
def ofEntries (ts : List Placed) (es : List Entry) (stop : Nat) : Grammar :=
  ⟨es.map (·.definition (scopeOf ts es stop)), terminalsOf ts⟩

end Verbatim.Grammar
