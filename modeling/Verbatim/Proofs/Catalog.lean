import Verbatim.Typed.Mandatory
import Verbatim.Proofs.Needs

/-!
# What the catalog asks for

The catalog of typed nodes follows from the grammar of the trees, the needs of a node from what the parser writes.
The two agree: a mandatory accessor asks for a child that each node of its type needs, or goes by places.
-/
namespace Verbatim

/-! ## Sets of kinds -/

theorem Kind.index_inj {k l : Kind} : k.index = l.index ↔ k = l := by
  refine ⟨fun h => ?_, fun h => h ▸ rfl⟩
  have same := congrArg Kind.ofNat h
  rwa [index, index, Kind.ofNat_ctorIdx, Kind.ofNat_ctorIdx] at same

namespace KindSet

theorem contains_insert (s : KindSet) (k l : Kind) :
    (s.insert k).contains l = true ↔ s.contains l = true ∨ l = k := by
  rw [insert, contains, contains, Nat.testBit_or, Nat.one_shiftLeft, Nat.testBit_two_pow, Bool.or_eq_true,
    decide_eq_true_iff, Kind.index_inj, eq_comm (a := k)]

theorem contains_ofList (ks : List Kind) (k : Kind) : (ofList ks).contains k = true ↔ k ∈ ks := by
  have onto (s : KindSet) : (ks.foldl insert s).contains k = true ↔ s.contains k = true ∨ k ∈ ks := by
    induction ks generalizing s with
    | nil => simp
    | cons l ks ih => rw [List.foldl_cons, ih, contains_insert, List.mem_cons, or_assoc]
  rw [ofList, onto empty, contains, empty, Nat.zero_testBit]
  simp

theorem contains_singleton (k l : Kind) : (ofList [k]).contains l = (l == k) := by
  rw [Bool.eq_iff_iff, contains_ofList, List.mem_singleton, beq_iff_eq]

end KindSet

namespace Typed

/-! ## The grammar and the needs -/

/-- Whether a child that meets a need answers an accessor, whichever of its kinds it has. -/
def Accessor.isAnsweredBy (a : Accessor) : Need → Bool
  | .token k => a.access == .token && a.kinds.contains k
  | .node ks => a.access == .child && ks.all a.kinds.contains

/-- Whether an accessor has an answer wherever some needs are met; a repetition always has one. -/
def Accessor.isSure (a : Accessor) (ns : List Need) : Bool := a.access == .children || ns.any a.isAnsweredBy

/-- The mandatory accessors that go by places. -/
def placed : Kind → List String
  | .binExpr => ["lhs", "op_token", "op_kind", "rhs"]
  | .prefixExpr | .rangeExpr => ["op_token", "op_kind"]
  | .indexExpr => ["base", "index"]
  | .ifExpr => ["then_branch"]
  | .whileExpr | .forExpr => ["loop_body"]
  | .impl => ["self_ty"]
  | .literal => ["token", "kind"]
  | _ => []

/-- Whether a mandatory accessor of a type of node goes by places, or has an answer wherever the needs of the node
are met. -/
def NodeType.isServed (t : NodeType) (name : String) : Bool :=
  (placed t.kind).contains name || t.accessors.any fun a => a.name == name && a.isSure t.kind.needs

/-- Whether the accessors that a grammar gives rise to ask for nothing that a whole node may lack. -/
def isServedBy (g : Grammar) : Bool :=
  kindsOf g.shape "Expr".toList == .ofList Kind.expressions && kindsOf g.shape "Type".toList == .ofList Kind.types &&
    (g.shape.nodes.filterMap (NodeType.ofShape? g.shape)).all fun t => (t.mandatoryIn g).all t.isServed

/-- Whether a grammar gives a kind of node an accessor of some name that is mandatory. -/
def isMandatoryIn (g : Grammar) (k : Kind) (name : String) : Bool :=
  ((g.shape.nodes.filterMap (NodeType.ofShape? g.shape)).find? (·.kind == k)).any fun t =>
    (t.mandatoryIn g).contains name

/-- The accessors of a list of statements: its braces, all that is of the first kinds, and one of the others. -/
def listAccessors (statement expression : KindSet) : List Accessor :=
  [⟨"l_curly_token", .token, .ofList [.leftBrace]⟩, ⟨"statements", .children, statement⟩,
    ⟨"tail_expr", .child, expression⟩, ⟨"r_curly_token", .token, .ofList [.rightBrace]⟩]

/-- Whether a grammar knows the statements that the parser makes, and reads lists of them. -/
def isListedBy (g : Grammar) : Bool :=
  kindsOf g.shape "Stmt".toList == .ofList Kind.statements &&
    ((g.shape.nodes.filterMap (NodeType.ofShape? g.shape)).find? (·.kind == .stmtList)).any fun t =>
      t.accessors == listAccessors (kindsOf g.shape "Stmt".toList) (kindsOf g.shape "Expr".toList)

/-- The grammar of the trees is read off its text only once, for all that is asked of it. -/
theorem bundled_checked : (isServedBy Grammar.bundled && isListedBy Grammar.bundled &&
    isMandatoryIn Grammar.bundled .use "use_tree") = true := by
  unfold Grammar.bundled Grammar.bundledText
  rw [String.toList_ofList]
  decide +kernel

theorem served : isServedBy Grammar.bundled = true :=
  (Bool.and_eq_true_iff.mp (Bool.and_eq_true_iff.mp bundled_checked).1).1

theorem listed : isListedBy Grammar.bundled = true :=
  (Bool.and_eq_true_iff.mp (Bool.and_eq_true_iff.mp bundled_checked).1).2

/-- An import always has a tree. -/
theorem mandatory_useTree : ∃ type, nodeType? .use = some type ∧ "use_tree" ∈ type.mandatory := by
  have checked := (Bool.and_eq_true_iff.mp bundled_checked).2
  rw [isMandatoryIn] at checked
  rw [nodeType?, nodeTypes, shape]
  generalize List.find? _ _ = found at checked ⊢
  cases found with
  | none => cases checked
  | some type =>
    rw [Option.any_some] at checked
    exact ⟨type, rfl, List.contains_iff_mem.mp checked⟩

theorem expr_contains (k : Kind) : expr.contains k = true ↔ k ∈ Kind.expressions := by
  have agree := served
  rw [isServedBy, Bool.and_eq_true, Bool.and_eq_true, beq_iff_eq] at agree
  rw [← KindSet.contains_ofList, ← agree.1.1]
  rfl

theorem type_contains (k : Kind) : type.contains k = true ↔ k ∈ Kind.types := by
  have agree := served
  rw [isServedBy, Bool.and_eq_true, Bool.and_eq_true, beq_iff_eq, beq_iff_eq] at agree
  rw [← KindSet.contains_ofList, ← agree.1.2]
  rfl

theorem stmt_contains (k : Kind) : stmt.contains k = true ↔ k ∈ Kind.statements := by
  have agree := listed
  rw [isListedBy, Bool.and_eq_true, beq_iff_eq] at agree
  rw [← KindSet.contains_ofList, ← agree.1]
  rfl

theorem accessors_stmtList : ∃ type, nodeType? .stmtList = some type ∧ type.accessors = listAccessors stmt expr := by
  have checked := listed
  rw [isListedBy, Bool.and_eq_true] at checked
  replace checked := checked.2
  rw [nodeType?, nodeTypes, shape]
  generalize List.find? _ _ = found at checked ⊢
  cases found with
  | none => cases checked
  | some type =>
    rw [Option.any_some, beq_iff_eq] at checked
    exact ⟨type, rfl, checked⟩

theorem isServed_of_mandatory {t : NodeType} (h : t ∈ nodeTypes) {name : String} (mandatory : name ∈ t.mandatory) :
    t.isServed name = true := by
  have agree := served
  rw [isServedBy, Bool.and_eq_true] at agree
  exact List.all_eq_true.mp (List.all_eq_true.mp agree.2 t h) name mandatory

end Typed

end Verbatim
