import Verbatim.Grammar.Bundled
import Verbatim.Grammar.Shape
import Verbatim.Kind.Set

/-!
# The catalog of typed nodes

The typed view of a tree is read off the grammar of the trees: one type of node for each rule with its
accessors, and one family for each choice. Rules and families are resolved to the kinds of the nodes that
fit them, so that an accessor only compares kinds.
-/
namespace Verbatim.Typed

structure Accessor where
  name : String
  access : Grammar.Access
  /-- Kinds that the accessor answers with. -/
  kinds : KindSet
  deriving DecidableEq, Repr

structure NodeType where
  name : String
  kind : Kind
  accessors : List Accessor
  deriving Repr

structure Family where
  name : String
  /-- The variants with the kinds that fit each. -/
  variants : List (String × KindSet)
  deriving Repr

/-- The kinds that fit a rule or a family, through at most `depth` families. -/
def kindsWithin (s : Grammar.Shape) (depth : Nat) (name : Text) : List Kind :=
  match s.nodes.find? (·.name == name) with
  | some n => (Kind.ofLabel? (String.ofList n.kind)).toList
  | none =>
    match depth with
    | 0 => []
    | depth + 1 =>
      match s.families.find? (·.name == name) with
      | some f => f.variants.flatMap (kindsWithin s depth)
      | none => []

/-- The kinds that fit a rule or a family. No family holds itself through more families than there are. -/
def kindsOf (s : Grammar.Shape) (name : Text) : KindSet :=
  .ofList (kindsWithin s s.families.length name)

namespace Accessor

def ofField? (s : Grammar.Shape) (f : Grammar.Field) : Option Accessor :=
  match f.access with
  | .token =>
    (Kind.ofLabel? (String.ofList f.target)).map fun kind =>
      ⟨String.ofList f.name, f.access, .ofList [kind]⟩
  | _ => some ⟨String.ofList f.name, f.access, kindsOf s f.target⟩

end Accessor

def NodeType.ofShape? (s : Grammar.Shape) (n : Grammar.NodeShape) : Option NodeType :=
  (Kind.ofLabel? (String.ofList n.kind)).map fun kind =>
    ⟨String.ofList n.name, kind, n.fields.filterMap (Accessor.ofField? s)⟩

def Family.ofShape (s : Grammar.Shape) (f : Grammar.Family) : Family :=
  ⟨String.ofList f.name, f.variants.map fun v => (String.ofList v, kindsOf s v)⟩

/-- The shape of the typed nodes. -/
def shape : Grammar.Shape := Grammar.bundled.shape

def nodeTypes : List NodeType := shape.nodes.filterMap (NodeType.ofShape? shape)

def families : List Family := shape.families.map (Family.ofShape shape)

/-- The kinds of expressions. -/
def expr : KindSet := kindsOf shape "Expr".toList

/-- The kinds of types. -/
def type : KindSet := kindsOf shape "Type".toList

/-- The kinds of statements. -/
def stmt : KindSet := kindsOf shape "Stmt".toList

def nodeType? (k : Kind) : Option NodeType := nodeTypes.find? (·.kind == k)

/-- The families that a kind belongs to, each with the variant that holds it. -/
def variantsOf (k : Kind) : List (String × String) :=
  families.filterMap fun f =>
    (f.variants.find? fun (_, kinds) => kinds.contains k).map fun (variant, _) => (f.name, variant)

end Verbatim.Typed
