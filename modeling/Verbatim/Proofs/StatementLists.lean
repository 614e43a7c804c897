import Verbatim.Proofs.Grammar.Laying
import Verbatim.Proofs.Holes

/-!
# Lists of statements

How the typed view reads a list of statements. In the tree of any text such a list is made up of a brace, then
statements, error nodes and semicolons, then maybe a bare expression, and maybe a closing brace. So the statements
and the tail that are read are, in order, all its nodes but the error nodes.
-/
namespace Verbatim

open Outline Skeleton Typed

/-! ## Children without trivia -/

namespace Position

/-- The children of a node, blanks and comments aside. -/
def parts (p : Position) : List Position := p.children.filter fun c => !(c.isToken && c.kind.isTrivia)

theorem isSome_mark? (p : Position) : p.mark?.isSome = !(p.isToken && p.kind.isTrivia) := by
  rw [mark?, isToken, kind]
  cases p.element with
  | token k t =>
    rw [Green.mark?]
    cases h : k.isTrivia <;> simp [Green.isToken, Green.kind, h]
  | node k n cs => rfl

theorem map_mark?_parts (p : Position) : p.parts.map mark? = (marks p.children).reverse.map some := by
  rw [marks, List.reverse_reverse, List.map_filterMap_some_eq_filter_map_isSome, List.filter_map, parts]
  exact congrArg (List.map mark?) (List.filter_congr fun c _ => (isSome_mark? c).symm)

theorem isToken_of_isNode {p : Position} (h : p.isNode = true) : p.isToken = false := by
  simpa [isNode, Green.isNode, isToken] using h

theorem nodes_eq_filter_parts (p : Position) : p.nodes = p.parts.filter isNode := by
  rw [nodes, parts, List.filter_filter]
  refine List.filter_congr fun c _ => ?_
  change (!c.isToken) = (!c.isToken && !(c.isToken && c.kind.isTrivia))
  cases c.isToken <;> rfl

theorem token?_eq_find?_parts {k : Kind} (seen : k.isTrivia = false) (p : Position) :
    token? k p = p.parts.find? fun c => c.isToken && c.kind == k := by
  rw [token?, parts, List.find?_filter]
  refine congrArg (List.find? · p.children) (funext fun c => ?_)
  by_cases same : c.kind = k
  · simp [same, seen]
  · simp [same]

end Position

namespace Typed

/-! ## The parts of a list of statements -/

/-- What stands between the braces of a list of statements, but for its tail. -/
inductive IsEntry (c : Position) : Prop where
  | statement (node : c.isNode = true) (fits : stmt.contains c.kind = true)
  | skipped (node : c.isNode = true) (error : c.kind = .error)
  | empty (token : c.isToken = true) (semicolon : c.kind = .semicolon)

/-- The parts of a list of statements. The tail is an expression that only the closing brace follows. -/
structure StatementList (q : Position) where
  opening : Position
  entries : List Position
  tail? : Option Position
  closing? : Option Position
  parts_eq : q.parts = opening :: (entries ++ (tail?.toList ++ closing?.toList))
  opens : opening.isToken = true ∧ opening.kind = .leftBrace
  entry : ∀ c ∈ entries, IsEntry c
  tail : ∀ c ∈ tail?, c.isNode = true ∧ expr.contains c.kind = true
  closes : ∀ c ∈ closing?, c.isToken = true ∧ c.kind = .rightBrace
  closed : tail?.isSome = true → closing?.isSome = true

theorem IsEntry.of_mark {c : Position} {m : Mark} (h : m.IsEntry) (shown : c.mark? = some m) : IsEntry c := by
  cases m with
  | token k =>
    obtain ⟨token, same, -⟩ := Green.mark?_token shown
    exact .empty token (same.trans h)
  | node k =>
    obtain ⟨node, rfl⟩ := Green.mark?_node shown
    exact h.elim (fun fits => .statement node ((stmt_contains _).mpr fits)) (.skipped node)

/-- What shows as a list of statements is one. -/
theorem exists_statementList {q : Position} (h : Mark.IsStatements (Position.marks q.children)) :
    Nonempty (StatementList q) := by
  obtain ⟨ending, mid, row, ends, entries⟩ := h
  have shown := q.map_mark?_parts
  rw [row, List.reverse_append, List.reverse_append, List.reverse_singleton, List.singleton_append, List.map_cons,
    List.map_append] at shown
  obtain ⟨opening, rest, split, brace, shown⟩ := List.map_eq_cons_iff.mp shown
  obtain ⟨inner, last, rfl, inside, behind⟩ := List.map_eq_append_iff.mp shown
  obtain ⟨isOpening, opens, -⟩ := Green.mark?_token brace
  have entry (c : Position) (hc : c ∈ inner) : IsEntry c := by
    have mem : c.mark? ∈ mid.reverse.map some := inside ▸ List.mem_map_of_mem hc
    obtain ⟨m, hm, same⟩ := List.mem_map.mp mem
    exact .of_mark (entries m (List.mem_reverse.mp hm)) same.symm
  cases ends with
  | missing =>
    obtain rfl : last = [] := List.map_eq_nil_iff.mp behind
    exact ⟨opening, inner, none, none, split, ⟨isOpening, opens⟩, entry, nofun, nofun, nofun⟩
  | brace =>
    obtain ⟨closing, _, rfl, close, nothing⟩ := List.map_eq_cons_iff.mp behind
    obtain rfl := List.map_eq_nil_iff.mp nothing
    obtain ⟨isClosing, closes, -⟩ := Green.mark?_token close
    refine ⟨opening, inner, none, some closing, split, ⟨isOpening, opens⟩, entry, nofun, ?_, nofun⟩
    rintro _ ⟨⟩
    exact ⟨isClosing, closes⟩
  | tail hk =>
    obtain ⟨tail, _, rfl, bare, behind⟩ := List.map_eq_cons_iff.mp behind
    obtain ⟨closing, _, rfl, close, nothing⟩ := List.map_eq_cons_iff.mp behind
    obtain rfl := List.map_eq_nil_iff.mp nothing
    obtain ⟨node, rfl⟩ := Green.mark?_node bare
    obtain ⟨isClosing, closes, -⟩ := Green.mark?_token close
    refine ⟨opening, inner, some tail, some closing, split, ⟨isOpening, opens⟩, entry, ?_, ?_, fun _ => rfl⟩
    · rintro _ ⟨⟩
      exact ⟨node, (expr_contains _).mpr hk⟩
    · rintro _ ⟨⟩
      exact ⟨isClosing, closes⟩

/-! ## Reading a list of statements -/

theorem apart_of_expression {k : Kind} (h : k ∈ Kind.expressions) : k ∉ Kind.statements ∧ k ≠ .error := by
  revert k
  decide

namespace StatementList

variable {q : Position} (l : StatementList q)

/-- The entries that are statements. -/
def statements : List Position := l.entries.filter fun c => c.isNode && stmt.contains c.kind

/-- The braces, the statements and the tail under their names. -/
def fields : List (String × Answer) :=
  named "l_curly_token" (some l.opening) ++ [("statements", .many l.statements)] ++ named "tail_expr" l.tail? ++
    named "r_curly_token" l.closing?

theorem tail_expression {c : Position} (hc : c ∈ l.tail?.toList) : c.kind ∈ Kind.expressions :=
  (expr_contains _).mp (l.tail c (Option.mem_toList.mp hc)).2

/-- No entry that is a node is an expression, and those that are no statements are error nodes. -/
theorem entry_node {c : Position} (hc : c ∈ l.entries) (node : c.isNode = true) :
    expr.contains c.kind = false ∧ (c.kind != .error) = stmt.contains c.kind := by
  rw [← Bool.not_eq_true, expr_contains]
  cases l.entry c hc with
  | statement _ fits =>
    have known := (stmt_contains _).mp fits
    have sound : c.kind ≠ .error := fun error => absurd (error ▸ known) (by decide)
    exact ⟨fun other => (apart_of_expression other).1 known, by rw [fits, bne_iff_ne]; exact sound⟩
  | skipped _ error =>
    have none : stmt.contains c.kind = false := by
      rw [error, ← Bool.not_eq_true, stmt_contains]
      decide
    exact ⟨fun other => (apart_of_expression other).2 error, by rw [none, error]; rfl⟩
  | empty token _ => exact absurd token (Bool.eq_false_iff.mp (Position.isToken_of_isNode node))

theorem nodes_eq : q.nodes = l.entries.filter Position.isNode ++ l.tail?.toList := by
  have no_node {c : Position} (token : c.isToken = true) : ¬ c.isNode = true := fun node =>
    Bool.eq_false_iff.mp (Position.isToken_of_isNode node) token
  rw [Position.nodes_eq_filter_parts, l.parts_eq, List.filter_cons_of_neg (no_node l.opens.1), List.filter_append,
    List.filter_append]
  have tail : l.tail?.toList.filter Position.isNode = l.tail?.toList :=
    List.filter_eq_self.mpr fun c hc => (l.tail c (Option.mem_toList.mp hc)).1
  have closing : l.closing?.toList.filter Position.isNode = [] :=
    List.filter_eq_nil_iff.mpr fun c hc => no_node (l.closes c (Option.mem_toList.mp hc)).1
  rw [tail, closing, List.append_nil]

theorem nodes_stmt : (q.nodes.filter fun c => stmt.contains c.kind) = l.statements := by
  have tail : (l.tail?.toList.filter fun c => stmt.contains c.kind) = [] :=
    List.filter_eq_nil_iff.mpr fun c hc fits =>
      (apart_of_expression (l.tail_expression hc)).1 ((stmt_contains _).mp fits)
  rw [l.nodes_eq, List.filter_append, tail, List.append_nil, List.filter_filter, statements]
  exact List.filter_congr fun c _ => Bool.and_comm ..

/-- The statements and the tail are all nodes that are no error nodes, in order. -/
theorem nodes_noError : (q.nodes.filter fun c => c.kind != .error) = l.statements ++ l.tail?.toList := by
  have tail : (l.tail?.toList.filter fun c => c.kind != .error) = l.tail?.toList :=
    List.filter_eq_self.mpr fun c hc => bne_iff_ne.mpr (apart_of_expression (l.tail_expression hc)).2
  rw [l.nodes_eq, List.filter_append, tail, List.filter_filter, statements]
  refine congrArg (· ++ _) (List.filter_congr fun c hc => ?_)
  cases node : c.isNode with
  | false => rw [Bool.and_false, Bool.false_and]
  | true => rw [Bool.and_true, Bool.true_and, (l.entry_node hc node).2]

theorem find?_expr : (q.nodes.find? fun c => expr.contains c.kind) = l.tail? := by
  have entries : (l.entries.filter Position.isNode).find? (fun c => expr.contains c.kind) = none := by
    refine List.find?_eq_none.mpr fun c hc => Bool.not_eq_true _ ▸ ?_
    obtain ⟨mem, node⟩ := List.mem_filter.mp hc
    exact (l.entry_node mem node).1
  rw [l.nodes_eq, List.find?_append, entries, Option.none_or]
  cases tail : l.tail? with
  | none => rfl
  | some c => exact List.find?_cons_of_pos (l.tail c tail).2

theorem token?_leftBrace : token? .leftBrace q = some l.opening := by
  rw [Position.token?_eq_find?_parts rfl, l.parts_eq]
  exact List.find?_cons_of_pos (by simp [l.opens])

/-- Of the tokens only the last one is a closing brace. -/
theorem token?_rightBrace : token? .rightBrace q = l.closing? := by
  have opening : (l.opening.isToken && l.opening.kind == .rightBrace) = false := by simp [l.opens]
  have entries : l.entries.find? (fun c => c.isToken && c.kind == .rightBrace) = none := by
    refine List.find?_eq_none.mpr fun c hc => ?_
    cases l.entry c hc with
    | statement node _ => simp [Position.isToken_of_isNode node]
    | skipped node _ => simp [Position.isToken_of_isNode node]
    | empty _ semicolon => simp [semicolon]
  have tail : l.tail?.toList.find? (fun c => c.isToken && c.kind == .rightBrace) = none := by
    refine List.find?_eq_none.mpr fun c hc => ?_
    simp [Position.isToken_of_isNode (l.tail c (Option.mem_toList.mp hc)).1]
  rw [Position.token?_eq_find?_parts rfl, l.parts_eq, List.find?_cons, opening]
  rw [List.find?_append, entries, Option.none_or, List.find?_append, tail, Option.none_or]
  cases closing : l.closing? with
  | none => rfl
  | some c => exact List.find?_cons_of_pos (by simp [l.closes c closing])

/-- What the accessors of a list of statements answer. -/
theorem fields_eq {type : NodeType} (kind : q.kind = .stmtList)
    (accessors : type.accessors = listAccessors stmt expr) : type.fields q = l.fields := by
  rw [NodeType.fields, accessors, placedFields, kind, listAccessors, fields, ← l.token?_leftBrace, ← l.nodes_stmt,
    ← l.find?_expr, ← l.token?_rightBrace]
  have token (name : String) (k : Kind) :
      (Accessor.mk name .token (.ofList [k])).read? q = (token? k q).map .one := by
    rw [Accessor.read?, token?]
    simp only [KindSet.contains_singleton]
  simp only [List.filterMap_cons, token]
  simp only [Accessor.read?, Option.map_some]
  generalize token? .leftBrace q = opening
  generalize token? .rightBrace q = closing
  generalize q.nodes.find? _ = tail
  cases opening <;> cases tail <;> cases closing <;> rfl

end StatementList

end Typed

namespace Parse

/-- In the tree of a text every list of statements is made up as one. -/
theorem listed_tree {t : Text} {p : Parse} (parsed : ofText t = .ok p) : p.tree.skeleton.All Listed := by
  obtain ⟨row, outlined, -, fits, -, run⟩ := ofText_eq t
  obtain rfl := Except.ok.inj ((ofText_of_byProgram run).symm.trans parsed)
  have listed := Parser.listed_sourceFile (.ofTokens (Token.list t))
  rw [outlined] at listed
  change (Skeleton.node .sourceFile (Green.skeletons (Outline.whole row (Token.list t)).greens)).All Listed
  rw [Outline.skeletons_whole fits]
  exact listed.1

/-- Every text has a parse, in whose tree the typed view reads every list of statements completely: behind the opening
brace stand statements, error nodes and semicolons, then at most one expression, which the closing brace follows. The
accessors answer with just these braces, these statements and this expression, and the statements and the expression
are, in order, all nodes below the list but the error nodes. -/
theorem ofText_statementLists (t : Text) : ∃ p, ofText t = .ok p ∧ ∃ type, nodeType? .stmtList = some type ∧
    ∀ q : Position, q.Valid → q.top = .root p.tree → q.isNode = true → q.kind = .stmtList →
      ∃ l : StatementList q, type.fields q = l.fields ∧
        (q.nodes.filter fun c => c.kind != .error) = l.statements ++ l.tail?.toList := by
  obtain ⟨row, -, -, -, -, run⟩ := ofText_eq t
  obtain ⟨type, found, accessors⟩ := accessors_stmtList
  refine ⟨_, ofText_of_byProgram run, type, found, fun q valid top node kind => ?_⟩
  have listed : Listed (.node q.kind _) :=
    Position.holds_of_valid valid node (by rw [top]; exact listed_tree (ofText_of_byProgram run))
  obtain ⟨l⟩ := exists_statementList (by rw [Position.marks_children]; exact listed kind)
  exact ⟨l, l.fields_eq kind accessors, l.nodes_noError⟩

/-- A stray parenthesis is no statement, and the tail behind it is read. -/
theorem ofText_statementLists_stray : ∃ p q, ofText "fn f() \x7b a; ) b \x7d".toList = .ok p ∧ q.Valid ∧
    q.top = .root p.tree ∧ ∃ l : StatementList q,
      (l.statements ++ l.tail?.toList).map Position.kind = [.exprStmt, .pathExpr] := by
  obtain ⟨p, parsed, _, _, reads⟩ := ofText_statementLists "fn f() \x7b a; ) b \x7d".toList
  have inside : (ofText "fn f() \x7b a; ) b \x7d".toList).toOption.bind (fun p => do
      let f ← p.tree.children[0]?
      let b ← f.children[5]?
      let e ← b.children[0]?
      let q := Position.child (.child (.child (.root p.tree) 0 f none) 5 b none) 0 e none
      return (q.isNode, q.kind, (q.nodes.filter fun c => c.kind != .error).map Position.kind)) =
        some (true, .stmtList, [.exprStmt, .pathExpr]) := by decide +kernel
  rw [parsed] at inside
  obtain ⟨_, ⟨⟩, inside⟩ := Option.bind_eq_some_iff.mp inside
  obtain ⟨f, hf, inside⟩ := Option.bind_eq_some_iff.mp inside
  obtain ⟨b, hb, inside⟩ := Option.bind_eq_some_iff.mp inside
  obtain ⟨e, he, shown⟩ := Option.bind_eq_some_iff.mp inside
  obtain ⟨node, shown⟩ := Prod.mk.inj (Option.some.inj shown)
  obtain ⟨kind, kinds⟩ := Prod.mk.inj shown
  have valid : (Position.child (.child (.child (.root p.tree) 0 f none) 5 b none) 0 e none).Valid :=
    ⟨⟨⟨trivial, hf, nofun⟩, hb, nofun⟩, he, nofun⟩
  obtain ⟨l, -, nodes⟩ := reads _ valid rfl node kind
  exact ⟨p, _, parsed, valid, rfl, l, nodes ▸ kinds⟩

end Parse

end Verbatim
