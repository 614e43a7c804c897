import Verbatim.Proofs.Composition
import Verbatim.Proofs.Grammar.Operations
import Verbatim.Proofs.Writing

/-!
# Precedence climbing

What an expression is made of when nothing is reported: an operand, and around it one operator after the
other. Each operator that is taken binds tight enough for its place, its right operand ends in front of an
operator that does not, and so whatever comes next may have all of it as its left operand.
-/
namespace Verbatim

open Outline Skeleton Verbatim.Parser

namespace Parser

/-- The operator that is written at a place. -/
def operatorAt (input : Input) (i : Nat) : Option Operator :=
  (operators (input.kind i)).find? fun o => input.isAt i o.token

namespace Operator

/-- An operator of the table is spelled by its token, binds less tight than a prefix, and groups to the
right if it is an assignment. -/
theorem operators_spec (k : Kind) : ∀ o ∈ operators k, ofToken? o.token = some o ∧ o.power ≤ 12 ∧
    (o.groupsRight = true ↔ o.power = 1) := by
  cases k <;> decide

theorem spec_of_operatorAt {input : Input} {i : Nat} {o : Operator} (h : operatorAt input i = some o) :
    ofToken? o.token = some o ∧ o.power ≤ 12 ∧ (o.groupsRight = true ↔ o.power = 1) :=
  operators_spec _ o (List.mem_of_find?_eq_some h)

theorem spec_of_ofToken {k : Kind} {o : Operator} (h : ofToken? k = some o) :
    o.power ≤ 12 ∧ (o.groupsRight = true ↔ o.power = 1) :=
  (operators_spec _ o (List.mem_of_find?_eq_some h)).2

/-- How tight the right operand of an operator binds. -/
def inner (o : Operator) : Nat := if o.groupsRight then o.power else o.power + 1

/-- What ends the right operand of `m` may have all of it on the left. -/
theorem mayFollow_of_lt {o m : Operator} (ho : o.groupsRight = true ↔ o.power = 1)
    (hm : m.groupsRight = true ↔ m.power = 1) (h : o.power < m.inner) : o.MayFollow m := by
  rw [inner] at h
  split at h
  · exact ⟨Nat.le_of_lt h, fun _ => h⟩
  · next left =>
    refine ⟨Nat.le_of_lt_succ h, fun right => ?_⟩
    have := ho.mp right
    have : m.power ≠ 1 := fun one => left (hm.mpr one)
    omega

theorem mayPrecede_of_le {o m : Operator} (h : o.inner ≤ m.power) : o.MayPrecede m := by
  rw [inner] at h
  split at h
  · next right => exact ⟨h, fun left => by simp [right] at left⟩
  · exact ⟨by omega, fun _ => by omega⟩

end Operator

/-- Looking for an operator changes nothing. -/
theorem draft_operator? (input : Input) (d : Drafters) (depth : Nat) (s : Frame) :
    operator?.draft input d depth s = (operatorAt input s.pos, s) := by
  have first (os : List Operator) :
      (firstAt os).draft input d depth s = (os.find? fun o => input.isAt s.pos o.token, s) := by
    induction os with
    | nil => rfl
    | cons o os ih =>
      rw [firstAt, List.find?_cons]
      change (if input.isAt s.pos o.token = true then _ else _ : Parser _).draft input d depth s = _
      cases h : input.isAt s.pos o.token
      · exact ih
      · rfl
  exact first _

end Parser

namespace Skeleton

/-- An expression that has an operator outside binds at least as tight as `power`. -/
def Binds (x : Skeleton) (power : Nat) : Prop :=
  x.IsApplied → ∃ m, x.operator? = some m ∧ power ≤ m.power

/-- An operator that is written at `i` may have the expression as its left operand. -/
def Complete (input : Input) (i : Nat) (x : Skeleton) : Prop :=
  ∀ o, operatorAt input i = some o → x.IsSaturated → ∃ m, x.operator? = some m ∧ o.MayFollow m

/-! An operator in front of what it applies to, and one between its operands. -/

theorem operator?_node_leaf (k t : Kind) (rest : List Skeleton) :
    (node k (leaf t :: rest)).operator? = Operator.ofToken? t := rfl

theorem left?_node_leaf (k t : Kind) (rest : List Skeleton) : (node k (leaf t :: rest)).left? = none := rfl

theorem right?_node_leaf (k t : Kind) (rest : List Skeleton) :
    (node k (leaf t :: rest)).right? = rest.find? isNode := rfl

section

variable {x : Skeleton} (hx : x.isNode = true) (k t : Kind) (rest : List Skeleton)

include hx

theorem operator?_node_node : (node k (x :: leaf t :: rest)).operator? = Operator.ofToken? t := by
  rw [operator?, children, List.find?_cons_of_neg (by simp [hx])]
  rfl

theorem left?_node_node : (node k (x :: leaf t :: rest)).left? = some x := by
  rw [left?, children, List.head?_cons, Option.filter_some, if_pos hx]

theorem right?_node_node : (node k (x :: leaf t :: rest)).right? = rest.find? isNode := by
  rw [right?, children, List.dropWhile_cons_of_pos hx]
  rfl

end

theorem not_isApplied_of_kind {x : Skeleton} (h : x.kind.isOperation = false) : ¬ x.IsApplied :=
  fun applied => by simp [isOperation_of_isApplied applied] at h

theorem complete_of_kind {input : Input} {i : Nat} {x : Skeleton} (h : x.kind.isOperation = false) :
    x.Complete input i := fun _ _ saturated => by simp [isOperation_of_isSaturated saturated] at h

end Skeleton

namespace Parser

variable {input : Input} {d : Drafters} {α β : Type}

/-- Where an operator is looked for, it is one of the table that is written there. -/
theorem Covers.operator? {P : Nat → Skeleton → Prop} {Q : α → Nat → Skeleton → Prop}
    {next : Option Operator → Parser α}
    (hn : Covers input d (fun i x => P i x ∧ operatorAt input i = none) (next none) Q)
    (hs : ∀ o, Operator.ofToken? o.token = some o →
      Covers input d (fun i x => P i x ∧ operatorAt input i = some o) (next (some o)) Q) :
    Covers input d P (Parser.operator? >>= next) Q := by
  intro depth s older ho hx quiet
  have split : (Parser.operator? >>= next).draft input d depth s =
      (next (operatorAt input s.pos)).draft input d depth s := by
    change (next (Parser.operator?.draft input d depth s).1).draft input d depth
      (Parser.operator?.draft input d depth s).2 = _
    rw [draft_operator?]
  rw [split] at quiet ⊢
  cases h : operatorAt input s.pos with
  | none =>
    rw [h] at quiet
    exact hn depth s older ho (hx.imp fun _ hx => ⟨hx, h⟩) quiet
  | some o =>
    rw [h] at quiet
    exact hs o (Operator.spec_of_operatorAt h).1 depth s older ho (hx.imp fun _ hx => ⟨hx, h⟩) quiet

/-! ## Operands -/

section

variable (hg : Growing d) (hc : Careful d)

/-- A node of another kind than operations have. -/
abbrev Other (_ : Nat) (x : Skeleton) : Prop := x.kind.isOperation = false

include hg hc

/-- A path ends in one node, whatever stands behind its segments. -/
theorem adds_pathWith {arguments : Parser Unit} {stops : Parser Bool}
    (ha : arguments.Avoids fun _ => True) (hs : Reads input d stops) :
    Adds input d (pathWith arguments stops) fun _ => Other := by
  refine .bind (Q := fun _ => Other) hg (.discard (.other hg hc ?_)) fun _ => .loop hg fun _ => ?_
  · simp +decide [pathSegment, ha]
  refine Covers.bind (M := fun _ => Other) hg ?_ fun more => ?_
  · refine (reads_isAt _).covers fun b => .ite (.pure fun _ _ h => h) (hs.covers fun b => .ite
      (.pure fun _ _ h => h) ?_)
    refine .bind (M := fun _ => Other) hg (.discard (.other hg hc ?_)) fun _ => .pure fun _ _ h => h
    simp +decide [pathSegment, ha]
  · cases more <;> exact .pure fun _ _ h => h

theorem adds_expressionPath : Adds input d expressionPath fun _ => Other :=
  adds_pathWith hg hc (by simp [atTurbofish]) (reads_pure _)

theorem adds_pathExpression (r : Restrictions) :
    Adds input d (pathExpression r) fun _ => Other :=
  .bind hg (adds_expressionPath hg hc) fun _ => .other hg hc (by simp +decide)

/-- What suffixes are put around stays a node of another kind. -/
theorem covers_suffixes (e : Operand) (callable : Bool) :
    Covers input d Other (suffixes e callable) fun _ => Other := by
  have grows {p : Parser Kind} (h : Covers input d Other p fun _ => Other) :
      Covers input d Other (do return .yield (⟨← p, false⟩, true)) fun r i x =>
        match (r : ForInStep (Operand × Bool)) with
        | .done _ => Other i x
        | .yield _ => Other i x := .bind hg h fun _ => .pure fun _ _ h => h
  refine .bind (M := fun _ => Other) hg (.loop hg fun (e, callable) => ?_) fun _ => .pure fun _ _ h => h
  refine reads_current.covers fun k => ?_
  split
  · refine .ite (grows ?_) (.pure fun _ _ h => h)
    exact .other hg hc avoids_callExpression
  · refine .ite (grows ?_) (.pure fun _ _ h => h)
    exact .other hg hc avoids_indexExpression
  · refine (reads_isAt _).covers fun b => .ite (.pure fun _ _ h => h) (grows ?_)
    exact .other hg hc avoids_member
  · exact grows (.other hg hc avoids_tryExpression)
  · exact .pure fun _ _ h => h

/-- An expression that starts with its own token. -/
theorem adds_compound? (r : Restrictions) :
    Adds input d (compound? r) fun a i x => a.isSome = true ∧ Other i x := by
  have found {p : Parser Kind} (h : Adds input d p fun _ => Other) :
      Adds input d (some <$> p) fun a i x => a.isSome = true ∧ Other i x :=
    .map (h.imp fun _ _ _ hx => ⟨rfl, hx⟩)
  have lonely : Adds input d lonelyModifier fun a i x => a.isSome = true ∧ Other i x :=
    .reported hg hc (by simp [lonelyModifier])
  refine reads_current.adds fun k => ?_
  split
  · exact found (.other hg hc avoids_parenOrTuple)
  · exact found (.other hg hc avoids_array)
  · exact found (.other hg hc avoids_closure)
  · exact (reads_isNth _ _).adds fun b => .ite (found (.other hg hc avoids_closure)) lonely
  · exact found (.other hg hc avoids_ifExpression)
  · exact found (.other hg hc (avoids_letCondition r))
  · exact found (.other hg hc avoids_loopExpression)
  · exact found (.other hg hc avoids_whileExpression)
  · exact found (.other hg hc avoids_forExpression)
  · exact found (.other hg hc avoids_matchExpression)
  · exact found (.other hg hc avoids_blockExpression)
  iterate 3
    · exact reads_atModifiedBlock.adds fun b => .ite (found (.other hg hc avoids_blockExpression)) lonely
  · exact found (.other hg hc (avoids_returnExpression r))
  · exact found (.other hg hc (avoids_breakExpression r))
  · exact found (.other hg hc avoids_continueExpression)
  · exact .reported hg hc (by simp)

/-- An expression without operators around it. -/
theorem adds_atom? (r : Restrictions) :
    Adds input d (atom? r) fun a i x => a.isSome = true ∧ Other i x := by
  refine .assoc ((reads_isAtAny _).adds fun b => ?_)
  cases b with
  | true =>
    refine .assoc (.bind (Q := fun _ => Other) hg (.other hg hc ?_) fun k => .pureBind ?_)
    · simp +decide
    · exact .pure fun _ _ h => ⟨rfl, h⟩
  | false =>
    refine .pureBind (reads_atPath.adds fun b => .ite ?_ ?_)
    · exact .bind hg (adds_pathExpression hg hc r) fun _ => .pure fun _ _ h => ⟨rfl, h⟩
    · refine .bind hg (adds_compound? hg hc r) fun a => .pure fun _ _ h => ⟨?_, h.2⟩
      rw [Option.isSome_map]
      exact h.1

end

/-! ## Operators -/

/-- An expression that was asked for with some power: what it applies binds as tight, and it ends in front
of an operator that does not. -/
structure Climbed (input : Input) (r : Restrictions) (power : Nat) (i : Nat) (x : Skeleton) : Prop where
  binds : x.Binds power
  ends : r.preferStatement = false → ∀ o, operatorAt input i = some o → o.power < power

/-- Callees that read types and expressions as they are asked for. -/
structure Tight (input : Input) (d : Drafters) : Prop extends Careful d where
  type : ∀ bounds, Adds input d (call (.type bounds)) fun _ => Other
  expression : ∀ r power, Adds input d (call (.expression r power)) fun _ => Climbed input r power

/-- None of the nodes in a row has an operator outside. -/
abbrev Unapplied (new : List Skeleton) : Prop := ∀ x ∈ new, x.isNode = true → ¬ x.IsApplied

theorem unapplied_nil : Unapplied [] := fun _ h => absurd h List.not_mem_nil

/-- An operand, which any operator at `i` may have on its left. -/
abbrev Sealed (input : Input) (i : Nat) (x : Skeleton) : Prop := ¬ x.IsApplied ∧ x.Complete input i

theorem Sealed.of_other {i : Nat} {x : Skeleton} (h : Other i x) : Sealed input i x :=
  ⟨not_isApplied_of_kind h, complete_of_kind h⟩

section

variable (ht : Tight input d)

include ht

/-- An operand that may be left out. -/
theorem writes_operand? (r : Restrictions) (power : Nat) :
    Writes input d (operand? r power) fun _ i new =>
      new = [] ∨ ∃ x, new = [x] ∧ x.isNode = true ∧ Climbed input r.inner power i x := by
  refine (reads_atExpression r).writes fun b => ?_
  split
  · exact .discard ((ht.expression r.inner power).writes.imp fun _ _ _ h => .inr h)
  · exact .pure fun _ => .inl rfl

/-- Nothing binds as tight as a prefix. -/
theorem writes_prefixed (r : Restrictions) :
    Writes input d (call (.expression r prefixPower)) fun _ _ => Unapplied := by
  refine (ht.expression r prefixPower).writes.imp fun _ i new h => ?_
  obtain ⟨x, rfl, -, climbed⟩ := h
  intro y hy _ applied
  rw [List.mem_singleton.mp hy] at applied
  obtain ⟨m, named, tight⟩ := climbed.binds applied
  obtain ⟨sign, -, spelled⟩ := Option.bind_eq_some_iff.mp named
  have loose := (Operator.spec_of_ofToken spelled).1
  have : prefixPower = 255 := rfl
  omega

end

/-- Programs that write no operation, one after the other. -/
theorem Writes.unapplied (hg : Growing d) {B : β → Prop} {p : Parser α} {next : α → Parser β}
    (hp : Writes input d p fun _ _ => Unapplied)
    (hn : ∀ a, Writes input d (next a) fun b _ new => B b ∧ Unapplied new) :
    Writes input d (p >>= next) fun b _ new => B b ∧ Unapplied new := by
  refine .bind hg hp fun a _ new front => (hn a).imp fun b _ more behind => ⟨behind.1, fun x hx => ?_⟩
  rcases List.mem_append.mp hx with hx | hx
  · exact front x hx
  · exact behind.2 x hx

/-- An operator in front of an operand that is no operation. -/
theorem adds_prefix {k : Kind} {body : Parser Kind} (hk : k = .prefixExpr ∨ k = .refExpr)
    (hb : Writes input d body fun a _ new => a = k ∧ Unapplied new) :
    Adds input d (Parser.nodeOf body) fun _ => Sealed input := by
  refine Writes.nodeOf hb fun a i new h => ?_
  obtain ⟨rfl, unapplied⟩ := h
  have applied : ¬ (Skeleton.node a new).IsApplied := by
    rcases hk with rfl | rfl <;> simp [IsApplied, Skeleton.kind]
  refine ⟨⟨fun h => absurd h applied, fun _ => unapplied⟩, applied, fun o _ h => ?_⟩
  rcases hk with rfl | rfl <;> simp [IsSaturated, Skeleton.kind] at h

/-- What was asked for behind an operator ends in front of one that may have all of it on its left. -/
theorem Climbed.mayFollow {r : Restrictions} {m : Operator} {i : Nat} {x : Skeleton}
    (h : Climbed input r m.inner i x) (hm : m.groupsRight = true ↔ m.power = 1)
    (plain : r.preferStatement = false) {o : Operator} (ho : operatorAt input i = some o) :
    o.MayFollow m :=
  Operator.mayFollow_of_lt (Operator.spec_of_operatorAt ho).2.2 hm (h.ends plain o ho)

theorem Climbed.mayPrecede {r : Restrictions} {o : Operator} {i : Nat} {x : Skeleton}
    (h : Climbed input r o.inner i x) (applied : x.IsApplied) :
    ∃ m, x.operator? = some m ∧ o.MayPrecede m := by
  obtain ⟨m, named, tight⟩ := h.binds applied
  exact ⟨m, named, Operator.mayPrecede_of_le tight⟩

/-- What may stand behind the operator `o` of an operation of kind `k` that ends at `i`. -/
structure Behind (input : Input) (o : Operator) (k : Kind) (i : Nat) (rest : List Skeleton) : Prop where
  kind : k = .binExpr ∨ k = .castExpr ∨ k = .rangeExpr
  precedes : ∀ x ∈ rest, x.isNode = true → x.IsApplied → ∃ m, x.operator? = some m ∧ o.MayPrecede m
  follows : k ≠ .rangeExpr ∨ rest ≠ [] → ∀ o', operatorAt input i = some o' → o'.MayFollow o

section

variable (ht : Tight input d)

include ht

/-- The right operand of a range, which may be left out. -/
theorem writes_end (r : Restrictions) {o : Operator} (dots : o.token = .dot2 ∨ o.token = .dot2Eq)
    (spelled : Operator.ofToken? o.token = some o) :
    Writes input d (operand? r (o.power + 1) >>= fun _ => pure .rangeExpr) fun k i rest =>
      k = .rangeExpr ∧ Behind input o k i rest := by
  have left : o.groupsRight = false := by
    rcases dots with h | h <;> rw [h] at spelled <;> cases spelled <;> rfl
  have inner : o.inner = o.power + 1 := by simp [Operator.inner, left]
  have spec := (Operator.spec_of_ofToken spelled).2
  rw [← inner]
  refine .yield ((writes_operand? ht r _).imp fun _ i rest operand =>
    ⟨rfl, .inr (.inr rfl), ?_, fun some => ?_⟩)
  · rcases operand with rfl | ⟨x, rfl, -, climbed⟩
    · exact fun x hx => absurd hx List.not_mem_nil
    · intro y hy _ applied
      rw [List.mem_singleton] at hy
      subst hy
      exact climbed.mayPrecede applied
  · rcases operand with rfl | ⟨x, rfl, -, climbed⟩
    · simp at some
    · exact fun o' => climbed.mayFollow spec rfl

/-- A cast binds tighter than all other operators. -/
theorem writes_castType {o : Operator} (cast : o.token = .asKw)
    (spelled : Operator.ofToken? o.token = some o) :
    Writes input d (call (.type false) >>= fun _ => pure .castExpr) (Behind input o) := by
  obtain rfl : o = ⟨.asKw, 12, false⟩ := by
    rw [cast] at spelled
    exact (Option.some.inj spelled).symm
  refine .yield ((ht.type false).writes.imp fun _ i rest h => ?_)
  obtain ⟨x, rfl, -, other⟩ := h
  refine ⟨.inr (.inl rfl), fun y hy _ applied => ?_, fun _ o' ho' => ?_⟩
  · rw [List.mem_singleton.mp hy] at applied
    exact absurd applied (not_isApplied_of_kind other)
  · obtain ⟨-, loose, right⟩ := Operator.spec_of_operatorAt ho'
    exact ⟨loose, fun h => by simp [right.mp h]⟩

/-- The right operand of any other operator. -/
theorem writes_right {r : Restrictions} (plain : r.preferStatement = false) {o : Operator}
    (spelled : Operator.ofToken? o.token = some o) :
    Writes input d (discard (call (.expression r o.inner)) >>= fun _ => pure .binExpr) (Behind input o) := by
  have spec := (Operator.spec_of_ofToken spelled).2
  refine .yield (.discard ((ht.expression r o.inner).writes.imp fun _ i rest h => ?_))
  obtain ⟨x, rfl, -, climbed⟩ := h
  refine ⟨.inl rfl, fun y hy _ applied => ?_, fun _ o' => climbed.mayFollow spec plain⟩
  rw [List.mem_singleton] at hy
  subst hy
  exact climbed.mayPrecede applied

end

section

variable (hg : Growing d) (ht : Tight input d)

include hg ht

theorem adds_prefixExpression (r : Restrictions) :
    Adds input d (prefixExpression r) fun _ => Sealed input := by
  refine adds_prefix (.inl rfl) (.unapplied hg ?_ fun _ => .unapplied hg ?_ fun _ => ?_)
  · refine writes_bumpAny.imp fun _ _ new tokens x hx node => ?_
    simp [tokens x hx] at node
  · exact .discard (writes_prefixed ht _)
  · exact .pure fun _ => ⟨rfl, unapplied_nil⟩

theorem adds_refExpression (r : Restrictions) :
    Adds input d (refExpression r) fun _ => Sealed input := by
  have sign (k : Kind) : Unapplied [.leaf k] := by simp [Unapplied, Skeleton.isNode]
  refine adds_prefix (.inr rfl) (.unapplied hg ?_ fun _ => .unapplied hg ?_ fun _ =>
    .unapplied hg ?_ fun _ => ?_)
  · exact (writes_bump hg .amp).imp fun _ _ _ h => h ▸ sign .amp
  · refine .discard ((writes_eat .mutKw).imp fun b _ _ h => ?_)
    subst h
    cases b
    · exact unapplied_nil
    · exact sign .mutKw
  · exact .discard (writes_prefixed ht _)
  · exact .pure fun _ => ⟨rfl, unapplied_nil⟩

/-- An operation without a left operand. -/
theorem adds_openRange (r : Restrictions) : Adds input d (openRange r) fun _ => Sealed input := by
  refine Writes.nodeOf (W := fun k i new => k = .rangeExpr ∧ ∃ o rest, new = .leaf o.token :: rest ∧
    Operator.ofToken? o.token = some o ∧ Behind input o k i rest) ?_ fun k i new h => ?_
  · refine .bind (W := fun _ _ new => ∃ token, new = [.leaf token] ∧ (token = .dot2 ∨ token = .dot2Eq)) hg ?_
      fun _ _ new h => ?_
    · refine .bind hg (writes_eat .dot2Eq) fun b _ _ h => ?_
      subst h
      cases b
      · exact (writes_bump hg .dot2).imp fun _ _ _ h => ⟨.dot2, h, .inl rfl⟩
      · exact .pure fun _ => ⟨.dot2Eq, rfl, .inr rfl⟩
    · obtain ⟨token, rfl, dots⟩ := h
      have spelled : Operator.ofToken? token = some ⟨token, 2, false⟩ := by
        rcases dots with rfl | rfl <;> rfl
      exact (writes_end (o := ⟨token, 2, false⟩) ht r dots spelled).imp fun k i rest h =>
        ⟨h.1, _, rest, rfl, spelled, h.2⟩
  · obtain ⟨rfl, o, rest, rfl, spelled, behind⟩ := h
    have applied : ¬ (Skeleton.node .rangeExpr (.leaf o.token :: rest)).IsApplied := by
      simp [IsApplied, Skeleton.kind, left?_node_leaf]
    refine ⟨⟨fun h => absurd h applied, by simp [Skeleton.kind]⟩, applied, fun o' ho' h => ⟨o, spelled, ?_⟩⟩
    refine behind.follows (.inr ?_) o' ho'
    rintro rfl
    simp [IsSaturated, Skeleton.kind, right?_node_leaf] at h

/-- An operand with its prefixes and suffixes, if it is any. -/
theorem adds_operand (r : Restrictions) :
    Adds input d (operand r) fun a i x => a.isSome = true ∧ Sealed input i x := by
  refine reads_current.adds fun k => ?_
  have found {p : Parser Kind} (h : Adds input d p fun _ => Sealed input) :
      Adds input d (do return some ⟨← p, false⟩) fun (a : Option Operand) i x =>
        a.isSome = true ∧ Sealed input i x :=
    .bind hg h fun _ => .pure fun _ _ h => ⟨rfl, h⟩
  split
  iterate 3 exact found (adds_prefixExpression hg ht r)
  · exact found (adds_refExpression hg ht r)
  · refine (reads_isAt _).adds fun _ => (reads_isAt _).adds fun _ => .ite (found (adds_openRange hg ht r)) ?_
    refine .bind hg (adds_atom? hg ht.toCareful r) fun e => ?_
    cases e with
    | some e =>
      refine .bind (M := fun _ => Other) hg ?_ fun _ => .pure fun _ _ h => ⟨rfl, .of_other h⟩
      exact (covers_suffixes hg ht.toCareful e _).weaken fun _ _ h => h.2
    | none => exact .pure fun _ _ h => by simp at h

/-- An operator that is taken stands around what it may have on its left. -/
theorem covers_applied {r : Restrictions} (plain : r.preferStatement = false) {o : Operator}
    (spelled : Operator.ofToken? o.token = some o) :
    Covers input d (fun i x => x.Complete input i ∧ operatorAt input i = some o) (applied r o)
      fun _ i x => x.operator? = some o ∧ x.Complete input i := by
  refine Writes.wrap (W := fun k i new => ∃ rest, new = .leaf o.token :: rest ∧ Behind input o k i rest) hg
    ?_ fun i x k j new hx node h => ?_
  · refine .bind hg (writes_bump hg o.token) fun _ _ _ h => ?_
    subst h
    split
    · next cast => exact (writes_castType ht cast spelled).imp fun _ _ rest h => ⟨rest, rfl, h⟩
    · next dots => exact (writes_end ht r (.inl dots) spelled).imp fun _ _ rest h => ⟨rest, rfl, h.2⟩
    · next dots => exact (writes_end ht r (.inr dots) spelled).imp fun _ _ rest h => ⟨rest, rfl, h.2⟩
    · exact (writes_right ht plain spelled).imp fun _ _ rest h => ⟨rest, rfl, h⟩
  · obtain ⟨rest, rfl, behind⟩ := h
    obtain ⟨complete, here⟩ := hx
    have named := (operator?_node_node node k o.token rest).trans spelled
    refine ⟨⟨fun _ => ⟨o, named, fun l hl saturated => ?_, fun y hy => ?_⟩, fun prefixed => ?_⟩, named,
      fun o' ho' saturated => ⟨o, named, behind.follows ?_ o' ho'⟩⟩
    · obtain rfl := Option.some.inj ((left?_node_node node k o.token rest).symm.trans hl)
      exact complete o here saturated
    · rw [right?_node_node node] at hy
      exact behind.precedes y (List.mem_of_find?_eq_some hy) (List.find?_some hy)
    · rcases behind.kind with rfl | rfl | rfl <;> simp [Skeleton.kind] at prefixed
    · rcases saturated with h | h | ⟨-, h⟩
      · exact .inl fun h' => by simp [h', Skeleton.kind] at h
      · exact .inl fun h' => by simp [h', Skeleton.kind] at h
      · refine .inr ?_
        rintro rfl
        simp [right?_node_node node] at h

/-- Each operator that is taken binds as tight as was asked for; where none is taken, none is there that
does. -/
theorem adds_climbing (r : Restrictions) (power : Nat) :
    Adds input d (climbing r power) fun a i x => a.isSome = true ∧ Climbed input r power i x := by
  refine .bind hg (adds_operand hg ht r) fun lhs => ?_
  cases lhs with
  | none => exact .pure fun _ _ h => by simp at h
  | some lhs =>
    dsimp only
    split
    · next ends =>
      refine .pure fun i x h => ⟨rfl, fun applied => absurd applied h.2.1, fun plain => ?_⟩
      simp [plain] at ends
    · refine .bind (M := fun _ => Climbed input r power) hg ?_ fun _ => .pure fun _ _ h => ⟨rfl, h⟩
      refine Covers.weaken (P := fun i x => x.Binds power ∧ x.Complete input i)
        (.loop hg fun whole => .operator? ?_ fun o spelled => ?_)
        fun i x h => ⟨fun applied => absurd applied h.2.1, h.2.2⟩
      · exact .pure fun i x h => ⟨h.1.1, fun _ o ho => by simp [h.2] at ho⟩
      · dsimp only
        split
        · next loose =>
          refine .pure fun i x h => ⟨h.1.1, fun _ o' ho' => ?_⟩
          obtain rfl := Option.some.inj (h.2.symm.trans ho')
          exact loose
        · next tight =>
          refine .bind hg ((covers_applied hg ht rfl spelled).weaken fun _ _ h => ⟨h.1.2, h.2⟩) fun _ => ?_
          exact .pure fun i x h => ⟨fun _ => ⟨o, h.1, Nat.le_of_not_lt tight⟩, h.2⟩

/-- The rule for expressions keeps what is asked of it. -/
theorem adds_boundedExpression (r : Restrictions) (power : Nat) :
    Adds input d (boundedExpression r power) fun _ => Climbed input r power := by
  refine .bind (Q := fun a i x => Climbed input r power i x) hg (.deeper ?_ ?_) fun _ => .pure fun _ _ h => h
  · exact .bind hg (adds_climbing hg ht r power) fun _ => .pure fun _ _ h => h.2
  · exact .reported hg ht.toCareful (by simp [tooDeep])

end

/-! ## The circle of rules -/

/-- A type is written as one node. -/
theorem adds_type (hg : Growing d) (hc : Careful d) (bounds : Bool) :
    Adds input d (type bounds) fun _ => Other := by
  refine .discard (.deeper (.bind (Q := fun _ => Other) hg ?_ fun _ => .pure fun _ _ h => h)
    (.reported hg hc (by simp [tooDeep])))
  have bounded (keyword : Kind) {kind : Kind} (h : kind.isOperation = false) :
      Adds input d (boundedType keyword kind bounds) fun _ => Other :=
    .otherNode hg hc h (by simp +decide [singleBound, pathType, atTypeBound])
  have path : Adds input d pathType fun _ => Other := .otherNode hg hc rfl avoids_typePath
  refine reads_current.adds fun k => ?_
  split
  · exact .discard (.other hg hc (by simp +decide))
  · exact .otherNode hg hc rfl (by simp)
  · exact .otherNode hg hc rfl (by simp)
  · exact .otherNode hg hc rfl (by simp)
  · exact .discard (.other hg hc (by simp +decide))
  · exact .otherNode hg hc rfl (by simp)
  · exact bounded _ rfl
  · exact bounded _ rfl
  · exact reads_atPath.adds fun _ => .ite path (.reported hg hc (by simp))

theorem avoids_fragment (f : Fragment) : f.body.Avoids fun _ => True := by
  cases f <;> simp [Fragment.body]

/-- Whatever the rules and lists write where they report nothing is grouped. -/
theorem tight_drafters (input : Input) (levels : Nat) : Tight input (drafters input levels) := by
  induction levels with
  | zero =>
    exact ⟨⟨fun _ _ _ _ quiet => absurd quiet.2 id, fun _ _ _ _ quiet => absurd quiet.2 id⟩,
      fun _ _ _ _ quiet => absurd quiet.2 id, fun _ _ _ _ _ quiet => absurd quiet.2 id⟩
  | succ levels ih =>
    have hg := growing_drafters input levels
    have plain (r : Rule) (h : r.body.Avoids fun _ => True) (depth : Nat) (s : Frame) (hs : GroupedOf s.row)
        (quiet : QuietOf (r.body.draft input (drafters input levels) depth s).2.row) :
        GroupedOf (r.body.draft input (drafters input levels) depth s).2.row :=
      (grouped_draft input hg ih.toCareful r.body h depth s hs quiet).1
    refine ⟨⟨fun r depth s hs quiet => ?_, fun f depth s hs quiet => ?_⟩, fun bounds => ?_, fun r power => ?_⟩
    · cases r with
      | expression r power =>
        exact (adds_boundedExpression hg ih r power depth s hs quiet).grouped hs
      | type bounds => exact plain _ (by simp [Rule.body, Parser.type]) depth s hs quiet
      | pattern => exact plain .pattern (by simp [Rule.body, Parser.pattern]) depth s hs quiet
      | item => exact plain .item avoids_item depth s hs quiet
      | letStatement => exact plain .letStatement avoids_letStatement depth s hs quiet
      | useTree topLevel => exact plain (.useTree topLevel) (avoids_useTree topLevel) depth s hs quiet
      | ifExpression =>
        exact plain .ifExpression (avoids_ifExpression.imp fun _ _ => trivial) depth s hs quiet
    · refine (grouped_draft input (R := fun _ => True) hg ih.toCareful (node f.kind f.body) ?_ depth s hs quiet).1
      rw [avoids_node]
      refine (avoids_fragment f).imp fun _ _ => ⟨trivial, ?_⟩
      cases f <;> rfl
    · exact adds_type hg ih.toCareful bounds
    · exact adds_boundedExpression hg ih r power

/-- The outline of a file in which nothing is reported is grouped. -/
theorem grouped_sourceFile (input : Input) (quiet : QuietOf (outline sourceFile input).row) :
    GroupedOf (outline sourceFile input).row :=
  (grouped_draft input (R := fun _ => True) (growing_drafters _ _) (tight_drafters input _).toCareful sourceFile
    (by simp +decide [sourceFile]) 0 ⟨0, []⟩ trivial quiet).1

end Parser

open Green

namespace Parse

/-- Operators group as their table says: in a text that is parsed without diagnostics, the left operand of
each operator binds as tight as the operator, and tighter than an assignment; the right one binds tighter,
and as tight as an assignment; and behind a prefix there is no operation that binds looser. -/
theorem ofText_grouped (t : Text) {p : Parse} (parsed : ofText t = .ok p) (clean : p.diagnostics = []) :
    p.tree.skeleton.All Grouped := by
  obtain ⟨row, outlined, made, fits, all, run⟩ := ofText_eq t
  obtain rfl := Except.ok.inj ((ofText_of_byProgram run).symm.trans parsed)
  obtain ⟨quiet, -⟩ := sound_of_clean ⟨fits, all⟩ made.2 (Diagnostic.eq_nil_of_foldl_keep clean)
  have written := grouped_sourceFile (.ofTokens (Token.list t))
  rw [outlined] at written
  obtain ⟨⟨-, grouped⟩, -⟩ := written ⟨trivial, quiet⟩
  change (Skeleton.node .sourceFile (skeletons (whole row (Token.list t)).greens)).All Grouped
  rw [skeletons_whole fits]
  exact ⟨grouped_of_kind rfl, grouped⟩

/-- A statement with operators of four powers. -/
theorem ofText_grouped_assignment : ∃ p,
    ofText "fn f() \x7b a = b + -c * d as u8 \x7d".toList = .ok p ∧ p.diagnostics = [] ∧
      p.tree.skeleton.All Grouped := by
  have first : (ofText "fn f() \x7b a = b + -c * d as u8 \x7d".toList).toOption.map (·.diagnostics) =
      some [] := by
    decide +kernel
  cases parsed : ofText "fn f() \x7b a = b + -c * d as u8 \x7d".toList with
  | error fault =>
    rw [parsed] at first
    contradiction
  | ok p =>
    rw [parsed] at first
    have clean : p.diagnostics = [] := Option.some.inj first
    exact ⟨p, rfl, clean, ofText_grouped _ parsed clean⟩

end Parse

end Verbatim
