import Verbatim.Proofs.Rows
import Verbatim.Proofs.Skeleton

/-!
# How operators group their operands

What it means for the operands of an expression that they bind tighter than its operator, for a skeleton
alone. Nodes of other kinds say nothing about it, so a program that makes no others keeps it.
-/
namespace Verbatim

open Outline

namespace Kind

/-- Expressions that are an operator with its operands. -/
def isOperation : Kind → Bool
  | .binExpr | .castExpr | .rangeExpr | .prefixExpr | .refExpr => true
  | _ => false

end Kind

namespace Parser.Operator

/-- The operator that is spelled by a token of kind `k`. -/
def ofToken? (k : Kind) : Option Operator :=
  (operators (k.pieces.head k.pieces_ne_nil)).find? (·.token == k)

/-- The operator with power `p` may have `m` in its left operand: `m` binds as tight, and tighter than an
assignment. -/
def MayFollow (o m : Operator) : Prop := o.power ≤ m.power ∧ (o.groupsRight = true → o.power < m.power)

/-- An operator may have `m` in its right operand: `m` binds tighter, or as tight as an assignment. -/
def MayPrecede (o m : Operator) : Prop := o.power ≤ m.power ∧ (o.groupsRight = false → o.power < m.power)

end Parser.Operator

open Verbatim.Parser

namespace Skeleton

/-- The operand in front of the operator. -/
def left? (x : Skeleton) : Option Skeleton := x.children.head?.filter isNode

/-- The operand behind the operator. -/
def right? (x : Skeleton) : Option Skeleton := (x.children.dropWhile isNode).find? isNode

/-- The operator: the first token of a node. -/
def operator? (x : Skeleton) : Option Operator :=
  (x.children.find? (!·.isNode)).bind fun sign => Operator.ofToken? sign.kind

/-- A binary expression, a cast, or a range with a left operand. -/
def IsApplied (x : Skeleton) : Prop :=
  x.kind = .binExpr ∨ x.kind = .castExpr ∨ x.kind = .rangeExpr ∧ x.left?.isSome

/-- A binary expression, a cast, or a range with a right operand. -/
def IsSaturated (x : Skeleton) : Prop :=
  x.kind = .binExpr ∨ x.kind = .castExpr ∨ x.kind = .rangeExpr ∧ x.right?.isSome

/-- The operands of a node fit to its operator: the left one binds as tight as the operator, and tighter
than an assignment; the right one binds tighter, and as tight as an assignment. A prefix binds tighter than
every operator. -/
structure Grouped (x : Skeleton) : Prop where
  applied : x.IsApplied → ∃ o, x.operator? = some o ∧
    (∀ l, x.left? = some l → l.IsSaturated → ∃ m, l.operator? = some m ∧ o.MayFollow m) ∧
    ∀ r, x.right? = some r → r.IsApplied → ∃ m, r.operator? = some m ∧ o.MayPrecede m
  operand : x.kind = .prefixExpr ∨ x.kind = .refExpr → ∀ r ∈ x.children, r.isNode = true → ¬ r.IsApplied

theorem isOperation_of_isApplied {x : Skeleton} (h : x.IsApplied) : x.kind.isOperation = true := by
  rcases h with h | h | ⟨h, -⟩ <;> rw [h] <;> rfl

theorem isOperation_of_isSaturated {x : Skeleton} (h : x.IsSaturated) : x.kind.isOperation = true := by
  rcases h with h | h | ⟨h, -⟩ <;> rw [h] <;> rfl

/-- Nodes of other kinds have no operands. -/
theorem grouped_of_kind {x : Skeleton} (h : x.kind.isOperation = false) : x.Grouped := by
  refine ⟨fun applied => ?_, fun kind => ?_⟩
  · simp [isOperation_of_isApplied applied] at h
  · rcases kind with kind | kind <;> rw [kind] at h <;> contradiction

end Skeleton

open Skeleton

namespace Parser

/-- All nodes of a row are grouped. -/
abbrev GroupedOf (row : List Outline) : Prop := AllOf Grouped (skeletonOf row)

/-- A loop that is done ends in `R`. -/
def Ends {σ : Type} (R : σ → Prop) : ForInStep σ → Prop
  | .done a => R a
  | .yield _ => True

@[simp] theorem ends_true {σ : Type} (r : ForInStep σ) : Ends (fun _ => True) r := by
  cases r <;> trivial

/-- A program makes no operations itself, and where it reports nothing it yields a result in `R`. -/
def Avoids {α : Type} : Parser α → (R : α → Prop) → Prop
  | done a, R => R a
  | andThen p next, R => p.Avoids fun a => (next a).Avoids R
  | nth _, R => ∀ k, R k
  | isAhead _ _, R => ∀ b, R b
  | eat _, R => ∀ b, R b
  | bumpAny, R => R ()
  | error _, _ => True
  | fault _, _ => True
  | enclose body kind, R => body.Avoids fun a => R a ∧ ∀ k, kind a = some k → k.isOperation = false
  | wrap body, R => body.Avoids fun k => R k ∧ k.isOperation = false
  | deeper inner atLimit, R => inner.Avoids R ∧ atLimit.Avoids R
  | loop _ body, R => ∀ a, (body a).Avoids (Ends R)
  | watch body, R => body.Avoids fun a => ∀ b, R (a, b)
  | call _, R => ∀ a, R a
  | list _, R => R ()

theorem Avoids.imp {α : Type} {p : Parser α} {R R' : α → Prop} (h : p.Avoids R) (hR : ∀ a, R a → R' a) :
    p.Avoids R' := by
  induction p with
  | done a => exact hR _ h
  | andThen p next ihp ihn => exact ihp h fun b hb => ihn b hb hR
  | nth n => exact fun k => hR _ (h k)
  | isAhead n k => exact fun b => hR _ (h b)
  | eat k => exact fun b => hR _ (h b)
  | bumpAny => exact hR _ h
  | error cause => trivial
  | fault what => trivial
  | enclose body kind ih => exact ih h fun a ha => ⟨hR a ha.1, ha.2⟩
  | wrap body ih => exact ih h fun k hk => ⟨hR k hk.1, hk.2⟩
  | deeper inner atLimit ihi iha => exact ⟨ihi h.1 hR, iha h.2 hR⟩
  | loop a body ih =>
    refine fun a => ih a (h a) fun r hr => ?_
    cases r with
    | done b => exact hR b hr
    | yield b => trivial
  | watch body ih => exact ih h fun a ha b => hR _ (ha b)
  | call r => exact fun a => hR a (h a)
  | list f => exact hR _ h

section Steps

variable {α β σ : Type} {R : α → Prop}

@[simp] theorem avoids_pure (a : α) : (Pure.pure a : Parser α).Avoids R ↔ R a := Iff.rfl

@[simp] theorem avoids_bind (p : Parser β) (next : β → Parser α) :
    (p >>= next).Avoids R ↔ p.Avoids fun b => (next b).Avoids R := Iff.rfl

@[simp] theorem avoids_map (f : β → α) (p : Parser β) :
    (f <$> p).Avoids R ↔ p.Avoids fun b => R (f b) := Iff.rfl

@[simp] theorem avoids_discard (p : Parser β) {R : Unit → Prop} :
    (discard p).Avoids R ↔ p.Avoids fun _ => R () := Iff.rfl

@[simp] theorem avoids_nth (n : Fin 4) {R : Kind → Prop} : (nth n).Avoids R ↔ ∀ k, R k := Iff.rfl

@[simp] theorem avoids_current {R : Kind → Prop} : current.Avoids R ↔ ∀ k, R k := Iff.rfl

@[simp] theorem avoids_isAhead (n : Nat) (k : Kind) {R : Bool → Prop} :
    (isAhead n k).Avoids R ↔ ∀ b, R b := Iff.rfl

@[simp] theorem avoids_isAt (k : Kind) {R : Bool → Prop} : (isAt k).Avoids R ↔ ∀ b, R b := Iff.rfl

@[simp] theorem avoids_eat (k : Kind) {R : Bool → Prop} : (eat k).Avoids R ↔ ∀ b, R b := Iff.rfl

@[simp] theorem avoids_bumpAny {R : Unit → Prop} : bumpAny.Avoids R ↔ R () := Iff.rfl

@[simp] theorem avoids_error (cause : Cause) {R : Unit → Prop} : (error cause).Avoids R := trivial

@[simp] theorem avoids_expected (what : Expectation) {R : Unit → Prop} : (expected what).Avoids R :=
  trivial

@[simp] theorem avoids_fault (what : Fault) {R : Unit → Prop} : (fault what).Avoids R := trivial

@[simp] theorem avoids_nodeOf (body : Parser Kind) {R : Kind → Prop} :
    (nodeOf body).Avoids R ↔ body.Avoids fun k => R k ∧ k.isOperation = false := by
  simp [nodeOf, Avoids]

@[simp] theorem avoids_node (k : Kind) (body : Parser Unit) {R : Unit → Prop} :
    (node k body).Avoids R ↔ body.Avoids fun _ => R () ∧ k.isOperation = false := by
  simp [node, Avoids]

@[simp] theorem avoids_nodeIf (body : Parser (Option Kind)) {R : Option Kind → Prop} :
    (nodeIf body).Avoids R ↔ body.Avoids fun a => R a ∧ ∀ k, a = some k → k.isOperation = false :=
  Iff.rfl

@[simp] theorem avoids_wrap (body : Parser Kind) {R : Kind → Prop} :
    (wrap body).Avoids R ↔ body.Avoids fun k => R k ∧ k.isOperation = false := Iff.rfl

@[simp] theorem avoids_loop (a : σ) (body : σ → Parser (ForInStep σ)) {R : σ → Prop} :
    (loop a body).Avoids R ↔ ∀ a, (body a).Avoids (Ends R) := Iff.rfl

@[simp] theorem avoids_watch (body : Parser α) {R : α × Bool → Prop} :
    (watch body).Avoids R ↔ body.Avoids fun a => ∀ b, R (a, b) := Iff.rfl

@[simp] theorem avoids_call (r : Rule) {R : r.Result → Prop} :
    @Avoids no_index(r.Result) (call r) R ↔ ∀ a, R a := Iff.rfl

@[simp] theorem avoids_list (f : Fragment) {R : Unit → Prop} : (list f).Avoids R ↔ R () := Iff.rfl

end Steps

/-! ## Runs that report nothing -/

/-- Called rules and lists keep rows grouped where they report nothing. -/
structure Careful (d : Drafters) : Prop where
  rule : ∀ r depth s, GroupedOf s.row → QuietOf (d.rule r depth s).2.row →
    GroupedOf (d.rule r depth s).2.row
  list : ∀ f depth s, GroupedOf s.row → QuietOf (d.list f depth s).row →
    GroupedOf (d.list f depth s).row

theorem groupedOf_write {row : List Outline} {x : Outline} (h : GroupedOf row)
    (hx : AllOf Grouped x.skeleton) : GroupedOf (x :: row) := by
  rw [GroupedOf, skeletonOf]
  exact allOf_append.mpr ⟨h, hx⟩

theorem groupedOf_node {k : Kind} {row inner : List Outline} (hk : k.isOperation = false)
    (h : GroupedOf row) (hi : GroupedOf inner) : GroupedOf (.node k inner :: row) :=
  groupedOf_write h ⟨⟨grouped_of_kind hk, hi⟩, trivial⟩

theorem groupedOf_closeAround {s t : Frame} {k : Kind} (hk : k.isOperation = false)
    (hs : GroupedOf s.row) (ht : GroupedOf t.row) : GroupedOf (s.closeAround t k).row := by
  obtain ⟨pos, row⟩ := s
  cases row with
  | nil => exact groupedOf_node hk hs ht
  | cons x older =>
    rw [Frame.closeAround]
    dsimp only
    split
    · obtain ⟨old, first⟩ := allOf_append.mp hs
      exact groupedOf_write old ⟨⟨grouped_of_kind hk, allOf_append.mpr ⟨first, ht⟩⟩, trivial⟩
    · exact groupedOf_node hk hs ht

theorem groupedOf_spill {s t : Frame} (hs : GroupedOf s.row) (ht : GroupedOf t.row) :
    GroupedOf (s.spill t).row := by
  rw [Frame.spill]
  dsimp only
  split
  · exact hs
  · rw [GroupedOf, skeletonOf_append]
    exact allOf_append.mpr ⟨groupedOf_write hs trivial, ht⟩

theorem quiet_closeAround {s t : Frame} {k : Kind} (h : QuietOf (s.closeAround t k).row) :
    QuietOf s.row ∧ QuietOf t.row := by
  obtain ⟨pos, row⟩ := s
  cases row with
  | nil => exact h
  | cons x older =>
    rw [Frame.closeAround] at h
    dsimp only at h
    split at h
    · exact ⟨⟨h.1, h.2.1⟩, h.2.2⟩
    · exact h

theorem quiet_spill {s t : Frame} (h : QuietOf (s.spill t).row) : QuietOf s.row ∧ QuietOf t.row := by
  rw [Frame.spill] at h
  dsimp only at h
  split at h
  · next none => exact ⟨h, by rw [List.isEmpty_iff.mp none]; trivial⟩
  · obtain ⟨old, new⟩ := (quietOf_append _ _).mp h
    exact ⟨old.1, new⟩

/-- A loop that reports nothing ends in what its last round ends in, if the other rounds keep an
invariant. -/
theorem quiet_iterate {σ : Type} {step : σ → Frame → ForInStep σ × Frame} {I R : σ → Frame → Prop}
    (grown : ∀ a s, Grown s.row (step a s).2.row)
    (round : ∀ a s, I a s → QuietOf (step a s).2.row →
      match (step a s).1 with
      | .done b => R b (step a s).2
      | .yield b => I b (step a s).2)
    {fuel : Nat} {a : σ} {s : Frame} (start : I a s)
    (quiet : QuietOf (iterate step (·.write (.fault .noProgress)) fuel a s).2.row) :
    R (iterate step (·.write (.fault .noProgress)) fuel a s).1
      (iterate step (·.write (.fault .noProgress)) fuel a s).2 := by
  induction fuel generalizing a s with
  | zero => exact absurd quiet.2 id
  | succ fuel ih =>
    have kept := round a s start
    rw [iterate] at quiet ⊢
    rcases hr : step a s with ⟨b | b, t⟩ <;> simp only [hr] at kept quiet ⊢
    · exact kept quiet
    · have later : Grown t.row (iterate step (·.write (.fault .noProgress)) fuel b t).2.row :=
        iterate_induction (P := fun u : Frame => Grown t.row u.row) (fun a u h => h.trans (grown a u))
          (fun u h => h.write _) fuel .refl
      exact ih (kept (later.quiet quiet)) quiet

section Runs

variable (input : Input) {d : Drafters}

/-- A program that makes no operations keeps rows grouped where it reports nothing. -/
theorem grouped_draft (hg : Growing d) (hc : Careful d) {α : Type} (p : Parser α) {R : α → Prop}
    (h : p.Avoids R) (depth : Nat) (s : Frame) (hs : GroupedOf s.row)
    (quiet : QuietOf (p.draft input d depth s).2.row) :
    GroupedOf (p.draft input d depth s).2.row ∧ R (p.draft input d depth s).1 := by
  induction p generalizing depth s with
  | done a => exact ⟨hs, h⟩
  | andThen p next ihp ihn =>
    have later := grown_draft input hg (next (p.draft input d depth s).1) depth (p.draft input d depth s).2
    obtain ⟨grouped, rest⟩ := ihp h depth s hs (later.quiet quiet)
    exact ihn _ rest depth _ grouped quiet
  | nth n => exact ⟨hs, h _⟩
  | isAhead n k => exact ⟨hs, h _⟩
  | eat k =>
    simp only [draft]
    split
    · exact ⟨groupedOf_write hs ⟨trivial, trivial⟩, h _⟩
    · exact ⟨hs, h _⟩
  | bumpAny =>
    simp only [draft]
    split
    · exact ⟨hs, h⟩
    · exact ⟨groupedOf_write hs ⟨trivial, trivial⟩, h⟩
  | error cause => exact absurd quiet.2 id
  | fault what => exact absurd quiet.2 id
  | enclose body kind ih =>
    simp only [draft] at quiet ⊢
    cases hk : kind (body.draft input d depth s.opened).1 with
    | some k =>
      rw [hk] at quiet
      obtain ⟨grouped, result, plain⟩ := ih h depth s.opened trivial quiet.2
      exact ⟨groupedOf_node (plain k hk) hs grouped, result⟩
    | none =>
      rw [hk] at quiet
      obtain ⟨grouped, result, -⟩ := ih h depth s.opened trivial (quiet_spill quiet).2
      exact ⟨groupedOf_spill hs grouped, result⟩
  | wrap body ih =>
    simp only [draft] at quiet ⊢
    have start : GroupedOf s.openedAround.row := by
      rw [Frame.openedAround]
      dsimp only
      split <;> trivial
    obtain ⟨grouped, result, plain⟩ := ih h depth s.openedAround start (quiet_closeAround quiet).2
    exact ⟨groupedOf_closeAround plain hs grouped, result⟩
  | deeper inner atLimit ihi iha =>
    simp only [draft] at quiet ⊢
    split at quiet
    · next deep =>
      rw [if_pos deep]
      exact iha h.2 depth s hs quiet
    · next shallow =>
      rw [if_neg shallow]
      exact ihi h.1 (depth + 1) s hs quiet
  | loop a body ih =>
    refine quiet_iterate (I := fun _ t => GroupedOf t.row) (R := fun b t => GroupedOf t.row ∧ R b)
      (fun a s => grown_draft input hg (body a) depth s) (fun a t ht quiet => ?_) hs quiet
    obtain ⟨grouped, ends⟩ := ih a (h a) depth t ht quiet
    cases hr : ((body a).draft input d depth t).1 with
    | done b =>
      rw [hr] at ends
      exact ⟨grouped, ends⟩
    | yield b => exact grouped
  | watch body ih =>
    obtain ⟨grouped, result⟩ := ih h depth s hs quiet
    exact ⟨grouped, result _⟩
  | call r => exact ⟨hc.rule r depth s hs quiet, h _⟩
  | list f => exact ⟨hc.list f depth s hs quiet, h⟩

end Runs

end Parser

end Verbatim
