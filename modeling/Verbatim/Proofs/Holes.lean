import Verbatim.Proofs.Catalog
import Verbatim.Proofs.Children
import Verbatim.Proofs.Precedence
import Verbatim.Proofs.Grammar.Declarations

/-!
# No holes

In the tree of a text that is parsed without diagnostics every node is whole. What is there is found, too: a
mandatory accessor has an answer, whether it asks for the first child of some kinds or goes by places.
-/
namespace Verbatim

/-! ## What the children of a node show -/

namespace Green

/-- What an element shows; trivia show nothing. -/
def mark? : Green → Option Mark
  | token k _ => if k.isTrivia then none else some (.token k)
  | node k _ _ => some (.node k)

theorem marks_skeletons (cs : List Green) : Skeleton.marks (skeletons cs) = (cs.filterMap mark?).reverse := by
  rw [Skeleton.marks, List.reverse_inj]
  induction cs with
  | nil => rfl
  | cons g cs ih =>
    cases g with
    | token k t =>
      rw [skeletons, List.filterMap_cons, mark?]
      split
      · exact ih
      · exact congrArg (.token k :: ·) ih
    | node k n cs' => exact congrArg (.node k :: ·) ih

theorem mark?_token {g : Green} {k : Kind} (h : g.mark? = some (.token k)) :
    g.isToken = true ∧ g.kind = k ∧ k.isTrivia = false := by
  cases g with
  | token l t =>
    rw [mark?] at h
    split at h
    · cases h
    · next seen =>
      cases h
      exact ⟨rfl, rfl, Bool.eq_false_iff.mpr seen⟩
  | node l n cs => cases h

theorem mark?_node {g : Green} {k : Kind} (h : g.mark? = some (.node k)) : g.isNode = true ∧ g.kind = k := by
  cases g with
  | token l t =>
    rw [mark?] at h
    split at h <;> cases h
  | node l n cs =>
    cases h
    exact ⟨rfl, rfl⟩

end Green

namespace Position

open Green Skeleton

/-- What a position shows. -/
def mark? (p : Position) : Option Mark := p.element.mark?

/-- What some positions show, the newest first. -/
def marks (ps : List Position) : List Mark := (ps.filterMap mark?).reverse

theorem marks_split (front back : List Position) {p : Position} {m : Mark} (h : p.mark? = some m) :
    marks (front ++ p :: back) = marks back ++ m :: marks front := by
  rw [marks, List.filterMap_append, List.filterMap_cons_some h, List.reverse_append, List.reverse_cons,
    List.append_assoc]
  rfl

theorem mem_marks {ps : List Position} {m : Mark} : m ∈ marks ps ↔ ∃ p ∈ ps, p.mark? = some m := by
  rw [marks, List.mem_reverse, List.mem_filterMap]

/-- A token that is no trivia shows its kind. -/
theorem mark?_of_token {p : Position} (token : p.isToken = true) (seen : p.kind.isTrivia = false) :
    p.mark? = some (.token p.kind) := by
  change p.element.isToken = true at token
  change p.element.kind.isTrivia = false at seen
  change p.element.mark? = some (.token p.element.kind)
  cases h : p.element with
  | token k t =>
    rw [h] at seen
    exact if_neg (Bool.eq_false_iff.mp seen)
  | node k n cs =>
    rw [h] at token
    cases token

theorem marks_children (p : Position) : marks p.children = Skeleton.marks (skeletons p.element.children) := by
  rw [marks_skeletons, marks, ← elements_children, List.filterMap_map]
  rfl

/-! ## Children of some kinds -/

/-- A child of a kind is there where its kind shows. -/
theorem child_of_mark {p : Position} {m : Mark} (h : m ∈ marks p.children) :
    ∃ c ∈ p.children, c.mark? = some m := mem_marks.mp h

theorem find_token {p : Position} {k : Kind} (h : .token k ∈ marks p.children) (test : Kind → Bool)
    (fits : test k = true) : (p.children.find? fun c => c.isToken && test c.kind).isSome = true := by
  obtain ⟨c, hc, shown⟩ := child_of_mark h
  obtain ⟨token, rfl, -⟩ := mark?_token shown
  exact List.find?_isSome.mpr ⟨c, hc, Bool.and_eq_true_iff.mpr ⟨token, fits⟩⟩

theorem mem_nodes {p c : Position} {k : Kind} (hc : c ∈ p.children) (shown : c.mark? = some (.node k)) :
    c ∈ p.nodes ∧ c.kind = k := by
  obtain ⟨node, same⟩ := mark?_node shown
  exact ⟨List.mem_filter.mpr ⟨hc, node⟩, same⟩

theorem find_node {p : Position} {k : Kind} (h : .node k ∈ marks p.children) (test : Kind → Bool)
    (fits : test k = true) : (p.nodes.find? fun c => test c.kind).isSome = true := by
  obtain ⟨c, hc, shown⟩ := child_of_mark h
  obtain ⟨node, rfl⟩ := mem_nodes hc shown
  exact List.find?_isSome.mpr ⟨c, node, fits⟩

end Position

namespace Typed

open Position

/-! ## Children told apart by their places -/

variable {p : Position}

/-- The first token of a node, if only one kind of token shows. -/
theorem leadingToken?_of_marks {o : Kind} (shown : .token o ∈ marks p.children)
    (only : ∀ k, .token k ∈ marks p.children → k = o) : ∃ op front back, leadingToken? p = some op ∧
      p.children = front ++ op :: back ∧ op.kind = o ∧ op.mark? = some (.token o) := by
  obtain ⟨c, hc, mark⟩ := child_of_mark shown
  obtain ⟨token, rfl, seen⟩ := Green.mark?_token mark
  have found : (leadingToken? p).isSome = true :=
    List.find?_isSome.mpr ⟨c, hc, by rw [Bool.and_eq_true, Bool.not_eq_true']; exact ⟨token, seen⟩⟩
  obtain ⟨op, hop⟩ := Option.isSome_iff_exists.mp found
  obtain ⟨fits, front, back, split, -⟩ := List.find?_eq_some_iff_append.mp hop
  rw [Bool.and_eq_true, Bool.not_eq_true'] at fits
  have here : op.mark? = some (.token op.kind) := mark?_of_token fits.1 fits.2
  have same := only op.kind (mem_marks.mpr ⟨op, by simp [split], here⟩)
  rw [same] at here
  exact ⟨op, front, back, hop, split, same, here⟩

/-- The kind of an expression. -/
def expressionKind? : Mark → Option Kind
  | .token _ => none
  | .node k => if k ∈ Kind.expressions then some k else none

theorem expressionKind?_mark? (c : Position) : c.mark?.bind expressionKind? =
    if expr.contains c.kind = true ∧ c.isNode = true then some c.kind else none := by
  simp only [expr_contains]
  rw [mark?, kind, isNode]
  cases c.element with
  | token k t =>
    rw [if_neg fun h => absurd h.2 Bool.false_ne_true, Green.mark?]
    split <;> rfl
  | node k n cs => exact if_congr (and_iff_left rfl).symm rfl rfl

/-- The expressions below a node are those that show. -/
theorem kinds_expressions (p : Position) :
    (expressions p).map kind = (marks p.children).reverse.filterMap expressionKind? := by
  rw [marks, List.reverse_reverse, List.filterMap_filterMap, funext expressionKind?_mark?, expressions, nodes,
    List.filter_filter]
  induction p.children with
  | nil => rfl
  | cons c cs ih =>
    by_cases h : expr.contains c.kind = true ∧ c.isNode = true
    · simpa [List.filter_cons, List.filterMap_cons, h] using ih
    · simpa [List.filter_cons, List.filterMap_cons, h] using ih

theorem expressionKind?_node {k : Kind} (h : k ∈ Kind.expressions) : expressionKind? (.node k) = some k := if_pos h

/-- A block behind an expression is found where no other expression shows before. -/
theorem blockAt?_of_marks (front back : List Mark) {a : Kind} (ha : a ∈ Kind.expressions)
    (none : front.filterMap expressionKind? = [])
    (row : (marks p.children).reverse = front ++ .node a :: .node .blockExpr :: back) :
    (blockAt? 1 p).isSome = true := by
  have operands := kinds_expressions p
  rw [row, List.filterMap_append, none, List.nil_append, List.filterMap_cons_some (expressionKind?_node ha),
    List.filterMap_cons_some (expressionKind?_node (by decide))] at operands
  have second := congrArg (·[1]?) operands
  simp only [List.getElem?_map, List.getElem?_cons_succ, List.getElem?_cons_zero, Option.map_eq_some_iff] at second
  obtain ⟨c, there, block⟩ := second
  rw [blockAt?, there, Option.filter_some, if_pos (beq_iff_eq.mpr block)]
  rfl

/-- Both operands and the operator of an operation are found. -/
theorem binExpr_of_places (places : Kind.Places .binExpr (marks p.children)) :
    (BinExpr.lhs? p).isSome = true ∧ (BinExpr.opToken? p).isSome = true ∧
      (BinExpr.operator? p).isSome = true ∧ (BinExpr.rhs? p).isSome = true := by
  obtain ⟨a, o, b, row, ha, hb, sign⟩ := places
  obtain ⟨op, front, back, found, split, same, shown⟩ :=
    leadingToken?_of_marks (p := p) (o := o) (by simp [row]) (by simp [row])
  have token : BinExpr.opToken? p = some op := found
  have operands := kinds_expressions p
  rw [row] at operands
  have left : (BinExpr.lhs? p).isSome = true := by
    rw [BinExpr.lhs?]
    cases h : expressions p with
    | nil => simp [h, expressionKind?_node ha] at operands
    | cons e es => rfl
  refine ⟨left, token ▸ rfl, ?_, ?_⟩
  · rw [BinExpr.operator?, token, Option.bind_some, same]
    exact sign
  · have behind : .node b ∈ marks back := by
      rw [split, marks_split front back shown] at row
      cases h : marks back with
      | nil => simp [h] at row
      | cons m ms =>
        rw [h, List.cons_append] at row
        obtain ⟨rfl, -⟩ := List.cons.inj row
        exact List.mem_cons_self ..
    obtain ⟨c, hc, mark⟩ := mem_marks.mp behind
    obtain ⟨inside, kind⟩ := mem_nodes (p := p) (by simp [split, hc]) mark
    have operand : c ∈ expressions p := List.mem_filter.mpr ⟨inside, (expr_contains _).mpr (kind ▸ hb)⟩
    rw [BinExpr.rhs?, token]
    exact List.find?_isSome.mpr ⟨c, operand, isBehind_of_split split hc⟩

theorem prefixExpr_of_places (places : Kind.Places .prefixExpr (marks p.children)) :
    (PrefixExpr.opToken? p).isSome = true ∧ (PrefixExpr.operator? p).isSome = true := by
  obtain ⟨o, a, row, sign⟩ := places
  obtain ⟨op, -, -, found, -, same, -⟩ :=
    leadingToken?_of_marks (p := p) (o := o) (by simp [row]) (by simp [row])
  have token : PrefixExpr.opToken? p = some op := found
  refine ⟨token ▸ rfl, ?_⟩
  rw [PrefixExpr.operator?, token, Option.bind_some, same]
  exact sign

theorem literal_of_places (places : Kind.Places .literal (marks p.children)) :
    (Literal.token? p).isSome = true ∧ (Literal.kind? p).isSome = true := by
  obtain ⟨k, row, known⟩ := places
  obtain ⟨t, -, -, found, -, same, -⟩ :=
    leadingToken?_of_marks (p := p) (o := k) (by simp [row]) (by simp [row])
  have token : Literal.token? p = some t := found
  refine ⟨token ▸ rfl, ?_⟩
  rw [Literal.kind?, token, Option.bind_some, same]
  exact known

theorem rangeExpr_of_places (places : Kind.Places .rangeExpr (marks p.children)) :
    (RangeExpr.opToken? p).isSome = true ∧ (RangeExpr.operator? p).isSome = true := by
  have known (k : Kind) {op : Position} (h : token? k p = some op) : op.kind = k := by
    have fits := List.find?_some h
    rw [Bool.and_eq_true, beq_iff_eq] at fits
    exact fits.2
  rw [RangeExpr.operator?, RangeExpr.opToken?]
  cases exclusive : token? .dot2 p with
  | some op =>
    rw [Option.some_or, Option.bind_some, known _ exclusive]
    exact ⟨rfl, rfl⟩
  | none =>
    rcases places with here | here
    · have found := find_token here (· == .dot2) rfl
      rw [← token?, exclusive] at found
      cases found
    · obtain ⟨op, inclusive⟩ := Option.isSome_iff_exists.mp (find_token here (· == .dot2Eq) rfl)
      rw [← token?] at inclusive
      rw [Option.none_or, inclusive, Option.bind_some, known _ inclusive]
      exact ⟨rfl, rfl⟩

theorem indexExpr_of_places (places : Kind.Places .indexExpr (marks p.children)) :
    (IndexExpr.base? p).isSome = true ∧ (IndexExpr.index? p).isSome = true := by
  obtain ⟨a, b, row, ha, hb⟩ := places
  have operands := kinds_expressions p
  rw [row] at operands
  rw [IndexExpr.base?, IndexExpr.index?]
  match h : expressions p with
  | [] => simp [h, expressionKind?_node ha] at operands
  | [e] => simp [h, expressionKind?_node ha, expressionKind?_node hb] at operands
  | e :: f :: es => exact ⟨rfl, rfl⟩

theorem ifExpr_of_places (places : Kind.Places .ifExpr (marks p.children)) :
    (IfExpr.thenBranch? p).isSome = true := by
  obtain ⟨more, a, row, ha⟩ := places
  exact blockAt?_of_marks [.token .ifKw] more.reverse ha rfl (by simp [row])

theorem whileExpr_of_places (places : Kind.Places .whileExpr (marks p.children)) :
    (WhileExpr.loopBody? p).isSome = true := by
  obtain ⟨a, row, ha⟩ := places
  exact blockAt?_of_marks [.token .whileKw] [] ha rfl (by simp [row])

theorem forExpr_of_places (places : Kind.Places .forExpr (marks p.children)) :
    (ForExpr.loopBody? p).isSome = true := by
  obtain ⟨a, pat, row, ha, hp⟩ := places
  have apart : ∀ k ∈ Kind.patterns, k ∉ Kind.expressions := by decide
  have preposition : (token? .inKw p).isSome = true := find_token (k := .inKw) (by simp [row]) (· == .inKw) rfl
  rw [ForExpr.loopBody?, if_pos preposition]
  refine blockAt?_of_marks [.token .forKw, .node pat, .token .inKw] [] ha ?_ (by simp [row])
  have skipped : expressionKind? (.node pat) = none := if_neg (apart pat hp)
  rw [List.filterMap_cons_none rfl, List.filterMap_cons_none skipped]
  rfl

/-- The first of some marks in a list is not behind any other. -/
theorem subset_of_first {new old later earlier : List Mark} {m : Mark} (first : m ∉ earlier)
    (h : later ++ m :: earlier = new ++ m :: old) : new ⊆ later := by
  rcases List.append_eq_append_iff.mp h with ⟨more, rfl, rest⟩ | ⟨more, rfl, rest⟩
  · cases more with
    | nil => simp
    | cons n more =>
      rw [List.cons_append] at rest
      obtain ⟨-, rfl⟩ := List.cons.inj rest
      simp at first
  · exact List.subset_append_left ..

theorem mem_types {c : Position} {k : Kind} (hk : k ∈ Kind.types) (hc : c ∈ p.children)
    (shown : c.mark? = some (.node k)) : c ∈ types p := by
  obtain ⟨node, rfl⟩ := mem_nodes hc shown
  exact List.mem_filter.mpr ⟨node, (type_contains _).mpr hk⟩

/-- The type that is implemented is found, whether it is the only one or stands behind `for`. -/
theorem impl_of_whole (whole : Kind.Whole .impl (marks p.children)) : (Impl.selfType? p).isSome = true := by
  rw [Impl.selfType?]
  cases found : token? .forKw p with
  | none =>
    have need : .node Kind.types ∈ Kind.needs .impl := by decide
    obtain ⟨k, hk, shown⟩ := whole.node_mem need
    obtain ⟨c, hc, mark⟩ := child_of_mark shown
    rw [List.isSome_head?]
    exact List.ne_nil_of_mem (mem_types hk hc mark)
  | some f =>
    obtain ⟨fits, front, back, split, before⟩ := List.find?_eq_some_iff_append.mp found
    rw [Bool.and_eq_true, beq_iff_eq] at fits
    have here : f.mark? = some (.token .forKw) := fits.2 ▸ mark?_of_token fits.1 (by rw [fits.2]; rfl)
    have row := marks_split front back here
    rw [← split] at row
    have first : .token .forKw ∉ marks front := by
      intro shown
      obtain ⟨c, hc, mark⟩ := mem_marks.mp shown
      obtain ⟨token, same, -⟩ := Green.mark?_token mark
      have other := before c hc
      rw [Bool.not_eq_true', Bool.and_eq_false_iff] at other
      rcases other with h | h
      · exact Bool.eq_false_iff.mp h token
      · exact (beq_eq_false_iff_ne.mp h) same
    obtain ⟨new, old, t, eq, ht, behind⟩ := whole.places (by rw [row]; simp)
    obtain ⟨c, hc, mark⟩ := mem_marks.mp (subset_of_first first (row.symm.trans eq) behind)
    refine List.find?_isSome.mpr ⟨c, mem_types ht ?_ mark, isBehind_of_split split hc⟩
    rw [split]
    exact List.mem_append_right _ (List.mem_cons_of_mem _ hc)

/-! ## Answers -/

/-- Some fields hold an answer under a name. -/
def IsAnswered (name : String) (fields : List (String × Answer)) : Prop := ∃ answer, (name, answer) ∈ fields

namespace IsAnswered

variable {name : String} {xs ys : List (String × Answer)}

theorem left (h : IsAnswered name xs) : IsAnswered name (xs ++ ys) :=
  h.imp fun _ mem => List.mem_append_left _ mem

theorem right (h : IsAnswered name ys) : IsAnswered name (xs ++ ys) :=
  h.imp fun _ mem => List.mem_append_right _ mem

theorem named {p? : Option Position} (h : p?.isSome = true) : IsAnswered name (named name p?) := by
  obtain ⟨q, rfl⟩ := Option.isSome_iff_exists.mp h
  exact ⟨.one q, List.mem_singleton_self _⟩

theorem spelled {α : Type} {a? : Option α} {label : α → String} (h : a?.isSome = true) :
    IsAnswered name (spelled name (a?.map label)) := by
  obtain ⟨a, rfl⟩ := Option.isSome_iff_exists.mp h
  exact ⟨.word (label a), List.mem_singleton_self _⟩

end IsAnswered

/-- The accessors of a whole node that go by places have answers. -/
theorem placedFields_of_whole (whole : p.kind.Whole (marks p.children)) {name : String}
    (h : name ∈ placed p.kind) : IsAnswered name (placedFields p) := by
  rw [placedFields]
  generalize p.kind = k at whole h
  cases k <;> simp only [placed, List.mem_cons, List.not_mem_nil, or_false] at h
  case binExpr =>
    obtain ⟨lhs, token, operator, rhs⟩ := binExpr_of_places whole.places
    rcases h with rfl | rfl | rfl | rfl
    · exact .left (.left (.left (.named lhs)))
    · exact .left (.right (.named token))
    · exact .right (.spelled operator)
    · exact .left (.left (.right (.named rhs)))
  case prefixExpr =>
    obtain ⟨token, operator⟩ := prefixExpr_of_places whole.places
    rcases h with rfl | rfl
    · exact .left (.named token)
    · exact .right (.spelled operator)
  case rangeExpr =>
    obtain ⟨token, operator⟩ := rangeExpr_of_places whole.places
    rcases h with rfl | rfl
    · exact .left (.right (.named token))
    · exact .right (.spelled operator)
  case indexExpr =>
    obtain ⟨base, index⟩ := indexExpr_of_places whole.places
    rcases h with rfl | rfl
    · exact .left (.named base)
    · exact .right (.named index)
  case ifExpr =>
    subst h
    exact .left (.named (ifExpr_of_places whole.places))
  case whileExpr =>
    subst h
    exact .named (whileExpr_of_places whole.places)
  case forExpr =>
    subst h
    exact .named (forExpr_of_places whole.places)
  case impl =>
    subst h
    exact .right (.named (impl_of_whole whole))
  case literal =>
    obtain ⟨token, kind⟩ := literal_of_places whole.places
    rcases h with rfl | rfl
    · exact .left (.named token)
    · exact .right (.spelled kind)

/-- An accessor that asks for what a whole node needs has an answer. -/
theorem read?_of_whole {k : Kind} (whole : k.Whole (marks p.children)) {a : Accessor}
    (sure : a.isSure k.needs = true) : (a.read? p).isSome = true := by
  rw [Accessor.isSure, Bool.or_eq_true, List.any_eq_true] at sure
  rw [Accessor.read?]
  rcases sure with all | ⟨n, need, answered⟩
  · rw [eq_of_beq all]
    rfl
  · cases n with
    | token l =>
      rw [Accessor.isAnsweredBy, Bool.and_eq_true] at answered
      rw [eq_of_beq answered.1, Option.isSome_map]
      exact find_token (whole.token_mem need) a.kinds.contains answered.2
    | node ks =>
      rw [Accessor.isAnsweredBy, Bool.and_eq_true] at answered
      obtain ⟨l, hl, shown⟩ := whole.node_mem need
      rw [eq_of_beq answered.1, Option.isSome_map]
      exact find_node shown a.kinds.contains (List.all_eq_true.mp answered.2 l hl)

/-- Every mandatory accessor of a whole node has an answer. -/
theorem fields_of_whole (whole : p.kind.Whole (marks p.children)) {t : NodeType} (found : nodeType? p.kind = some t)
    {name : String} (mandatory : name ∈ t.mandatory) : IsAnswered name (t.fields p) := by
  have kind : t.kind = p.kind := eq_of_beq (List.find?_some (p := fun t : NodeType => t.kind == p.kind) found)
  have served := isServed_of_mandatory (List.mem_of_find?_eq_some found) mandatory
  rw [NodeType.isServed, Bool.or_eq_true, List.contains_iff_mem, List.any_eq_true, kind] at served
  rcases served with goes | ⟨a, ha, asks⟩
  · exact .right (placedFields_of_whole whole goes)
  · rw [Bool.and_eq_true] at asks
    obtain ⟨answer, read⟩ := Option.isSome_iff_exists.mp (read?_of_whole whole asks.2)
    refine .left ⟨answer, List.mem_filterMap.mpr ⟨a, ha, ?_⟩⟩
    rw [read, Option.map_some, eq_of_beq asks.1]

end Typed

/-! ## All nodes of a tree -/

namespace Skeleton

variable {P : Skeleton → Prop}

theorem all_of_mem {cs : List Green} {g : Green} (h : AllOf P (Green.skeletons cs)) (hg : g ∈ cs) :
    g.skeleton.All P := by
  induction cs with
  | nil => cases hg
  | cons c cs ih =>
    cases c with
    | token k t =>
      have rest : AllOf P (Green.skeletons cs) := by
        rw [Green.skeletons] at h
        split at h
        · exact h
        · exact h.2
      rcases List.mem_cons.mp hg with rfl | hg
      · exact trivial
      · exact ih rest hg
    | node k n below =>
      rcases List.mem_cons.mp hg with rfl | hg
      · exact h.1
      · exact ih h.2 hg

/-- What holds of all nodes of a tree holds of all nodes below a position in it. -/
theorem all_of_valid {q : Position} (valid : q.Valid) (h : q.top.element.skeleton.All P) :
    q.element.skeleton.All P := by
  induction q with
  | root tree => exact h
  | child p i e known ih =>
    have above := ih valid.1 h
    have inside : e ∈ p.element.children := List.mem_of_getElem? valid.2.1
    change e.skeleton.All P
    cases hp : p.element with
    | token k t =>
      rw [hp] at inside
      cases inside
    | node k n cs =>
      rw [hp] at inside above
      exact all_of_mem above.2 inside

end Skeleton

open Outline Skeleton Typed

/-- What holds of all nodes of a tree holds of the one at a position in it. -/
theorem Position.holds_of_valid {P : Skeleton → Prop} {q : Position} (valid : q.Valid) (node : q.isNode = true)
    (h : q.top.element.skeleton.All P) : P (.node q.kind (Green.skeletons q.element.children)) := by
  have all := all_of_valid valid h
  rw [kind]
  rw [isNode] at node
  cases hq : q.element with
  | token k t =>
    rw [hq] at node
    cases node
  | node k n cs =>
    rw [hq] at all
    exact all.1

/-- A node of a tree of whole nodes is whole. -/
theorem Position.whole_of_valid {q : Position} (valid : q.Valid) (node : q.isNode = true)
    (h : q.top.element.skeleton.All Whole) : q.kind.Whole (marks q.children) := by
  rw [marks_children]
  exact holds_of_valid valid node h

namespace Parse

/-- The tree of a text that is parsed without diagnostics is made of whole nodes. -/
theorem whole_of_clean {t : Text} {p : Parse} (parsed : ofText t = .ok p) (clean : p.diagnostics = []) :
    p.tree.skeleton.All Whole := by
  obtain ⟨row, outlined, made, fits, all, run⟩ := ofText_eq t
  obtain rfl := Except.ok.inj ((ofText_of_byProgram run).symm.trans parsed)
  obtain ⟨quiet, -⟩ := sound_of_clean ⟨fits, all⟩ made.2 (Diagnostic.eq_nil_of_foldl_keep clean)
  have written := Parser.whole_sourceFile (.ofTokens (Token.list t))
  rw [outlined] at written
  obtain ⟨⟨needs, whole⟩, -⟩ := written ⟨trivial, quiet⟩
  change (Skeleton.node .sourceFile (Green.skeletons (Outline.whole row (Token.list t)).greens)).All Whole
  rw [Outline.skeletons_whole fits]
  exact ⟨needs, whole⟩

/-- A parse without diagnostics has no holes: at every node of the tree, each accessor that the grammar makes
mandatory has an answer. -/
theorem ofText_answers (t : Text) {p : Parse} (parsed : ofText t = .ok p) (clean : p.diagnostics = [])
    {q : Position} (valid : q.Valid) (top : q.top = .root p.tree) (node : q.isNode = true) {type : NodeType}
    (found : nodeType? q.kind = some type) {name : String} (mandatory : name ∈ type.mandatory) :
    ∃ answer, (name, answer) ∈ type.fields q := by
  have whole := whole_of_clean parsed clean
  exact fields_of_whole (q.whole_of_valid valid node (by rw [top]; exact whole)) found mandatory

/-- An import and its tree. -/
theorem ofText_answers_import : ∃ p e, ofText "use a;".toList = .ok p ∧ p.diagnostics = [] ∧
    p.tree.children[0]? = some e ∧ e.kind = .use ∧ ∃ type, nodeType? .use = some type ∧
      ∃ answer, ("use_tree", answer) ∈ type.fields (.child (.root p.tree) 0 e none) := by
  have first : (ofText "use a;".toList).toOption.map (fun p =>
      (p.diagnostics, p.tree.children[0]?.map fun e => (e.kind, e.isNode))) = some ([], some (.use, true)) := by
    decide +kernel
  cases parsed : ofText "use a;".toList with
  | error fault =>
    rw [parsed] at first
    contradiction
  | ok p =>
    rw [parsed] at first
    obtain ⟨clean, below⟩ := Prod.mk.inj (Option.some.inj first)
    obtain ⟨e, inside, shown⟩ := Option.map_eq_some_iff.mp below
    obtain ⟨kind, node⟩ := Prod.mk.inj shown
    obtain ⟨type, found, mandatory⟩ := mandatory_useTree
    refine ⟨p, e, rfl, clean, inside, kind, type, found, ?_⟩
    exact ofText_answers _ parsed clean (q := .child (.root p.tree) 0 e none) ⟨trivial, inside, nofun⟩ rfl node
      (by rw [← found, ← kind]; rfl) mandatory

end Parse

end Verbatim
