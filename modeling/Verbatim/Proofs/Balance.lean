import Verbatim.Proofs.Endings
import Verbatim.Proofs.Fragments
import Verbatim.Proofs.Holes

/-!
# No brace is taken from around

Within a node every closing brace follows an opening one of its own, provided that nothing was skipped for
being too deep. Only among the items of a file, where no brace is open, a closing one is set aside.
-/
namespace Verbatim

namespace Input

/-- Nowhere among some tokens more braces are closed than opened. -/
def Sheltered (ks : List Kind) : Prop := ∀ front, front <+: ks → 0 ≤ surplus front

theorem Sheltered.append {ks ls : List Kind} (h : Sheltered ks) (h' : Sheltered ls) : Sheltered (ks ++ ls) := by
  rintro front ⟨back, split⟩
  rcases List.append_eq_append_iff.mp split with ⟨rest, rfl, -⟩ | ⟨more, rfl, rfl⟩
  · exact h front (List.prefix_append _ _)
  · have first := h ks (List.prefix_rfl)
    have later := h' more (List.prefix_append _ _)
    rw [surplus_append]
    omega

end Input

/-! ## The tokens of a skeleton -/

namespace Skeleton

mutual
/-- The tokens below an element, in order. -/
def leaves : Skeleton → List Kind
  | leaf k => [k]
  | node _ cs => leavesOf cs

def leavesOf : List Skeleton → List Kind
  | [] => []
  | x :: xs => leaves x ++ leavesOf xs
end

theorem leavesOf_append (xs ys : List Skeleton) : leavesOf (xs ++ ys) = leavesOf xs ++ leavesOf ys := by
  induction xs with
  | nil => rfl
  | cons x xs ih => rw [List.cons_append, leavesOf, leavesOf, ih, List.append_assoc]

@[simp] theorem leavesOf_singleton (x : Skeleton) : leavesOf [x] = x.leaves := List.append_nil _

theorem allOf_iff {P : Skeleton → Prop} {xs : List Skeleton} : AllOf P xs ↔ ∀ x ∈ xs, All P x := by
  induction xs with
  | nil => simp [AllOf]
  | cons x xs ih => simp [AllOf, ih]

/-- Nowhere in an element more braces are closed than opened. -/
def Sheltered (x : Skeleton) : Prop := Input.Sheltered x.leaves

/-- A closing brace that was set aside. -/
def strayBrace : Skeleton := node .error [leaf .rightBrace]

end Skeleton

namespace Outline

open Skeleton Input

variable {input : Input}

theorem balance_of_token {k : Kind} {i : Nat} (h : input.isAt i k = true) :
    input.balance (i + k.pieces.length) = input.balance i + weight k := by
  cases hb : k.isBarrier with
  | false =>
    rw [balance_add fun m hm => not_barrier_of_isAt hb h hm, weight_eq_zero hb, Int.add_zero]
  | true =>
    have simple : k.IsSimple := Kind.simple_of_stop (Kind.isStop_of_isBarrier hb)
    rw [isAt_simple simple, beq_iff_eq] at h
    rw [show k.pieces = [k] from simple, List.length_singleton, balance_succ, h]

/-- Tokens that take `n` places of the input from place `i` on: wherever they are cut, they come to a place
that has the balance that they make. -/
structure Stepwise (input : Input) (ks : List Kind) (i n : Nat) : Prop where
  whole : input.balance (i + n) = input.balance i + surplus ks
  cut : ∀ front, front <+: ks → ∃ m ≤ n, input.balance (i + m) = input.balance i + surplus front

theorem stepwise_nil (input : Input) (i : Nat) : Stepwise input [] i 0 := by
  refine ⟨(Int.add_zero _).symm, fun front h => ⟨0, Nat.le_refl 0, ?_⟩⟩
  rw [List.prefix_nil.mp h]
  exact (Int.add_zero _).symm

theorem stepwise_token {k : Kind} {i : Nat} (h : input.isAt i k = true) :
    Stepwise input [k] i k.pieces.length := by
  have whole : input.balance (i + k.pieces.length) = input.balance i + surplus [k] := by
    rw [balance_of_token h, surplus, surplus, Int.add_zero]
  refine ⟨whole, fun front before => ?_⟩
  rcases List.prefix_cons_iff.mp before with rfl | ⟨rest, rfl, none⟩
  · exact ⟨0, Nat.zero_le _, (Int.add_zero _).symm⟩
  · rw [List.prefix_nil.mp none]
    exact ⟨_, Nat.le_refl _, whole⟩

theorem Stepwise.append {ks ls : List Kind} {i n n' : Nat} (h : Stepwise input ks i n)
    (h' : Stepwise input ls (i + n) n') : Stepwise input (ks ++ ls) i (n + n') := by
  refine ⟨?_, ?_⟩
  · rw [← Nat.add_assoc, h'.whole, h.whole, surplus_append, Int.add_assoc]
  · rintro front ⟨back, split⟩
    rcases List.append_eq_append_iff.mp split with ⟨rest, rfl, -⟩ | ⟨more, rfl, rfl⟩
    · obtain ⟨m, le, here⟩ := h.cut front (List.prefix_append _ _)
      exact ⟨m, by omega, here⟩
    · obtain ⟨m, le, here⟩ := h'.cut more (List.prefix_append _ _)
      refine ⟨n + m, by omega, ?_⟩
      rw [← Nat.add_assoc, here, h.whole, surplus_append, Int.add_assoc]

mutual
theorem stepwise_leaves : ∀ (o : Outline) {i : Nat}, Fits input o i →
    Stepwise input (leavesOf (skeleton o)) i o.width
  | .token k n, i, hf => by
    rw [skeleton, leavesOf_singleton, width, hf.2.2]
    exact stepwise_token hf.1
  | .error _, i, _ | .fault _, i, _ | .void, i, _ => stepwise_nil input i
  | .node k row, i, hf => by
    rw [skeleton, leavesOf_singleton]
    exact stepwise_leavesOf row hf
  | .around k inner row, i, hf => by
    rw [skeleton, leavesOf_singleton, leaves, leavesOf_append]
    exact (stepwise_leaves inner hf.1).append (stepwise_leavesOf row hf.2)

theorem stepwise_leavesOf : ∀ (row : List Outline) {i : Nat}, FitsOf input row i →
    Stepwise input (leavesOf (skeletonOf row)) i (widthOf row)
  | [], i, _ => stepwise_nil input i
  | o :: older, i, hf => by
    rw [skeletonOf, leavesOf_append]
    exact (stepwise_leavesOf older hf.1).append (stepwise_leaves o hf.2)
end

/-- What is taken from one place to another one without closing a brace around it. -/
theorem sheltered_of_fits {row : List Outline} {i : Nat} (fits : FitsOf input row i)
    (keeps : input.KeepsOpen i (i + widthOf row)) : Input.Sheltered (leavesOf (skeletonOf row)) := by
  intro front h
  obtain ⟨m, le, here⟩ := (stepwise_leavesOf row fits).cut front h
  have kept := keeps (i + m) (Nat.le_add_right _ _) (by omega)
  omega

end Outline

/-! ## Runs that skip nothing -/

namespace Parser

open Outline Skeleton

/-- All nodes in a frame are sheltered. -/
def Frame.Sheltered (s : Frame) : Prop := AllOf Skeleton.Sheltered (skeletonOf s.row)

namespace Frame.Sheltered

variable {s t : Frame} {input : Input}

theorem opened (s : Frame) : s.opened.Sheltered := trivial

theorem take (h : s.Sheltered) (k : Kind) (n : Nat) : (s.take k n).Sheltered :=
  allOf_append.mpr ⟨h, trivial, trivial⟩

theorem close {k : Kind} (h : s.Sheltered) (ht : t.Sheltered) (spells : t.Spells input s.pos)
    (keeps : input.KeepsOpen s.pos t.pos) : (s.close t k).Sheltered := by
  rw [spells.pos] at keeps
  exact allOf_append.mpr ⟨h, ⟨sheltered_of_fits spells.fits keeps, ht⟩, trivial⟩

theorem spill (h : s.Sheltered) (ht : t.Sheltered) : (s.spill t).Sheltered := by
  simp only [Frame.spill, Frame.Sheltered]
  split
  · exact h
  · rw [skeletonOf_append, skeletonOf]
    exact allOf_append.mpr ⟨allOf_append.mpr ⟨h, trivial⟩, ht⟩

theorem closeAround {k : Kind} (h : s.Sheltered) (ht : t.Sheltered) (ends : s.endsInNode)
    (spells : t.Spells input s.pos) (keeps : input.KeepsOpen s.pos t.pos) : (s.closeAround t k).Sheltered := by
  obtain ⟨inner, older, row, node, closed⟩ := closeAround_of_endsInNode ends t k
  rw [spells.pos] at keeps
  rw [Frame.Sheltered, row, skeletonOf, allOf_append] at h
  have behind := sheltered_of_fits spells.fits keeps
  obtain ⟨k', cs, single⟩ := skeleton_of_isNode node
  have first : Input.Sheltered (leavesOf (skeleton inner)) := by
    have whole := h.2
    rw [single] at whole ⊢
    rw [leavesOf_singleton]
    exact whole.1.1
  have around : Skeleton.Sheltered (.node k (skeleton inner ++ skeletonOf t.row)) := by
    rw [Skeleton.Sheltered, leaves, leavesOf_append]
    exact first.append behind
  rw [Frame.Sheltered, closed]
  exact allOf_append.mpr ⟨h.1, ⟨around, allOf_append.mpr ⟨h.2, ht⟩⟩, trivial⟩

end Frame.Sheltered

/-- Called rules and lists keep all nodes sheltered, from where they may be called. -/
structure Sheltering (c : Site) (d : Drafters) (g : Guards) : Prop where
  rule : ∀ r F depth s, c.floor ≤ 2 * s.pos → r.Requires c.input s.pos → s.pos ≤ c.input.length →
    g.rule r F depth s → s.Sheltered → (d.rule r depth s).2.Sheltered
  list : ∀ f depth s, c.floor ≤ 2 * s.pos + 1 → c.input.kind s.pos = .leftBrace → s.pos ≤ c.input.length →
    g.list f depth s → s.Sheltered → (d.list f depth s).Sheltered

/-- A run that never comes at the limit keeps all nodes sheltered. -/
theorem sheltered_of_wp {d : Drafters} {g g' : Guards} {α : Type} (p : Parser α) {c : Site}
    (simple : ∀ i, (c.input.kind i).IsSimple) (flat : c.shallow) (spelling : Spelling c.input d g')
    (keeps : Keeps c d g g') (hd : Sheltering c d g') {s : Spot} {Q : α → Spot → Prop} (hp : p.wp c s Q)
    {F : Prop} {depth : Nat} {fr : Frame} (stands : Stands c.input s fr)
    (known : p.Safe c.input (· < nestingLimit) d g' F depth fr) (h : fr.Sheltered) :
    (p.draft c.input d depth fr).2.Sheltered := by
  induction p generalizing c s F depth fr with
  | done a => exact h
  | andThen p next ihp ihn =>
    obtain ⟨-, t, ht, behind⟩ := sound p keeps hp stands fun _ => known.1
    exact ihn _ simple flat spelling keeps hd ht behind known.2
      (ihp simple flat spelling keeps hd hp stands known.1 h)
  | nth n => exact h
  | isAhead n k => exact h
  | eat k =>
    simp only [draft]
    split
    · exact h.take k _
    · exact h
  | bumpAny =>
    simp only [draft]
    split
    · exact h
    · exact h.take _ 1
  | error cause => exact allOf_append.mpr ⟨h, trivial⟩
  | fault what => exact absurd hp id
  | enclose body kind ih =>
    obtain ⟨kept, hp⟩ := hp
    let inside : Site := { c with fresh := c.fresh ∨ kept }
    have keeps' : Keeps inside d g g' := ⟨keeps.fresh, keeps.rule, keeps.list⟩
    have inner := ih (c := inside) simple flat spelling keeps' ⟨hd.rule, hd.list⟩ hp stands.opened known.1
      (.opened fr)
    have spells := spells_of_safe simple spelling body known.1 (.opened fr)
    obtain ⟨-, t, ht, behind⟩ := sound body (c := inside) keeps' hp stands.opened fun _ => known.1
    have reached : (body.draft c.input d depth fr.opened).2.pos = t.pos := behind.pos
    simp only [draft]
    split
    · next k hk =>
      simp only [inside, hk] at ht
      refine h.close inner spells ?_
      rw [stands.pos, reached]
      exact ht.2.1.keeps flat
    · exact h.spill inner
  | wrap body ih =>
    have keeps' : Keeps c.opened d g g' := ⟨keeps.fresh, keeps.rule, keeps.list⟩
    have inner := ih (c := c.opened) simple flat spelling keeps' ⟨hd.rule, hd.list⟩ hp.2 stands.opened
      known.2.1 (.opened fr)
    have spells := spells_of_safe simple spelling body known.2.1 (.opened fr)
    obtain ⟨-, t, ht, behind⟩ := sound body (c := c.opened) keeps' hp.2 stands.opened fun _ => known.2.1
    have reached : (body.draft c.input d depth fr.opened).2.pos = t.pos := behind.pos
    simp only [draft, Frame.openedAround_of_endsInNode known.1]
    refine h.closeAround inner known.1 spells ?_
    rw [stands.pos, reached]
    exact ht.2.1.keeps flat
  | deeper inner atLimit ihi iha =>
    obtain ⟨-, below, known⟩ := known
    rw [if_neg (Nat.not_le.mpr below)] at known
    simp only [draft, if_neg (Nat.not_le.mpr below)]
    exact ihi (c := c.nested) simple flat spelling ⟨keeps.fresh, keeps.rule, keeps.list⟩ ⟨hd.rule, hd.list⟩
      hp.2.1 stands known h
  | loop a body ih =>
    obtain ⟨I, start, round⟩ := hp
    refine SafeIterate.invariant (P := Frame.Sheltered)
      (I := fun a u => u.Sheltered ∧ ∃ t, I a t ∧ Stands c.input t u)
      (fun a u safe inv => ?_) known ⟨h, s, start, stands⟩
    obtain ⟨hu, t, ht, at_t⟩ := inv
    have next := ih a simple flat spelling keeps hd (round a t ht) at_t safe hu
    obtain ⟨-, v, hv, at_v⟩ := sound (body a) keeps (round a t ht) at_t fun _ => safe
    refine ⟨next, fun b more => ⟨next, v, ?_, at_v⟩⟩
    rw [more] at hv
    exact hv.2
  | watch body ih => exact ih simple flat spelling keeps hd hp stands known h
  | call r =>
    exact hd.rule r F depth fr (stands.pos ▸ hp.1) (stands.pos ▸ hp.2.2.1) stands.le known h
  | list f => exact hd.list f depth fr (stands.pos ▸ hp.1) (stands.pos ▸ hp.2.1) stands.le known h

theorem sheltering_drafters {c : Site} (simple : ∀ i, (c.input.kind i).IsSimple) (flat : c.shallow)
    (levels : Nat) (enough : 2 * c.input.length + 2 ≤ levels + c.floor) :
    Sheltering c (drafters c.input levels) (guards c.input (· < nestingLimit) levels) := by
  induction levels generalizing c with
  | zero => exact ⟨fun _ _ _ _ _ _ _ known => absurd known id, fun _ _ _ _ _ _ known => absurd known id⟩
  | succ levels ih =>
    have spelling : Spelling c.input (drafters c.input levels) (guards c.input (· < nestingLimit) levels) :=
      spelling_drafters simple levels
    refine ⟨fun r F depth s hfloor hr le known h => ?_, fun f depth s hfloor brace le known h => ?_⟩
    · let inside : Site := ⟨c.input, c.shallow, 2 * s.pos + 1, r.startsNested⟩
      have room : 2 * inside.input.length + 2 ≤ levels + inside.floor := by simp only [inside]; omega
      have body := Site.From.rule (c := inside) r (s := ⟨s.pos, false⟩) (Nat.le_refl _) id hr (Nat.le_succ _)
      exact sheltered_of_wp r.body (c := inside) simple flat spelling (keeps_drafters inside levels room)
        (ih (c := inside) simple flat room) body ⟨rfl, nofun, le⟩ known h
    · let inside : Site := ⟨c.input, c.shallow, 2 * s.pos + 2, True⟩
      have room : 2 * inside.input.length + 2 ≤ levels + inside.floor := by simp only [inside]; omega
      have keeps := keeps_drafters inside levels room
      have body := (Site.encloses_fragment (c := inside) f trivial).takes (by decide) ⟨s.pos, false⟩
        (Input.isAt_of_kind brace rfl) (Nat.le_refl _)
      have stands : Stands inside.input ⟨s.pos, false⟩ s.opened := ⟨rfl, nofun, le⟩
      obtain ⟨-, t, ⟨steady, -⟩, behind⟩ := sound f.body keeps body stands fun _ => known.2
      have reached : (f.body.draft c.input (drafters c.input levels) depth s.opened).2.pos = t.pos := behind.pos
      refine h.close (sheltered_of_wp f.body (c := inside) simple flat spelling keeps
        (ih (c := inside) simple flat room) body stands known.2 (.opened s))
        (spells_of_safe simple spelling f.body known.2 (.opened s)) ?_
      rw [reached]
      exact steady.keeps flat

/-! ## Files -/

/-- What stands among the items of a file: sheltered nodes, and closing braces that were set aside. -/
def IsAmongItems (x : Skeleton) : Prop := x.All Skeleton.Sheltered ∨ x = strayBrace

section

variable {input : Input} {levels i : Nat}

theorem safe_itemOrError (enough : 2 * input.length + 2 ≤ levels) (le : i ≤ input.length)
    (more : input.kind i ≠ .eof) :
    itemOrError.Safe input (fun _ => True) (drafters input levels) (guards input (fun _ => True) levels) True 0
        ⟨i, []⟩ ∧
      (itemOrError.draft input (drafters input levels) 0 ⟨i, []⟩).2.pos ≤ input.length := by
  let c : Site := ⟨input, False, 0, True⟩
  have stands : Stands input ⟨i, false⟩ ⟨i, []⟩ := ⟨rfl, nofun, le⟩
  have unknown : c.shallow → itemOrError.Safe input (· < nestingLimit) (drafters input levels)
      (guards input (· < nestingLimit) levels) True 0 ⟨i, []⟩ := False.elim
  obtain ⟨safe, t, -, behind⟩ := sound itemOrError (keeps_drafters c levels enough)
    (Site.From.itemOrError (c := c) (s := ⟨i, false⟩) (Nat.zero_le _) more False.elim (Nat.zero_le _)) stands
    unknown
  exact ⟨safe, behind.le⟩

/-- In front of a closing brace no item is found, so the brace is set aside. -/
theorem draft_at_brace {d : Drafters} {s t : Frame} (item : d.rule .item 0 s = (false, t))
    (brace : input.kind t.pos = .rightBrace) : (itemOrError.draft input d 0 s).2 =
      t.close ⟨t.pos + 1, [.token .rightBrace 1, .error .unmatchedBrace]⟩ .error := by
  have at_brace : input.isAt t.pos .rightBrace = true := Input.isAt_of_kind brace rfl
  simp [itemOrError, bind, draft, item, current, brace, node, Parser.bump, whenNot, at_brace, Frame.opened,
    Frame.write, Frame.take, Frame.close, Kind.pieces, Pure.pure]

/-- One round among the items of a file, from a row of its own on. -/
theorem sheltered_itemOrError (simple : ∀ i, (input.kind i).IsSimple) (enough : 2 * input.length + 2 ≤ levels)
    (le : i ≤ input.length) (more : input.kind i ≠ .eof)
    (low : heightOf (itemOrError.draft input (drafters input levels) 0 ⟨i, []⟩).2.row + 1 < nestingLimit) :
    ∀ x ∈ skeletonOf (itemOrError.draft input (drafters input levels) 0 ⟨i, []⟩).2.row, IsAmongItems x := by
  let c : Site := ⟨input, True, 0, True⟩
  have keeps := keeps_drafters c levels enough
  have spelling : Spelling input (drafters input levels) (guards input (· < nestingLimit) levels) :=
    spelling_drafters simple levels
  have sheltering := sheltering_drafters (c := c) simple trivial levels enough
  have stands : Stands input ⟨i, false⟩ ⟨i, []⟩ := ⟨rfl, nofun, le⟩
  have known := safe_of_low (Nat.le_refl _) (growing_drafters input levels)
    (lowering_drafters (Nat.le_refl _) input levels) itemOrError (safe_itemOrError enough le more).1
    (n := 1) ⟨Nat.zero_le _, fun _ => Nat.zero_lt_one⟩ (by omega)
  by_cases brace : input.kind i = .rightBrace
  · have called : (call .item).wp c ⟨i, false⟩ _ :=
      Site.From.call (c := c) (r := .item) (Nat.zero_le _) False.elim trivial (Nat.zero_le _)
    have inner := sheltered_of_wp (call .item) (c := c) simple trivial spelling keeps sheltering called stands
      known.1 trivial
    obtain ⟨-, t, ⟨steady, ensures⟩, behind⟩ := sound (call .item) keeps called stands fun _ => known.1
    rcases made : (drafters input levels).rule .item 0 ⟨i, []⟩ with ⟨found, u⟩
    have run : (call .item).draft c.input (drafters c.input levels) 0 ⟨i, []⟩ = (found, u) := made
    rw [run] at inner ensures behind
    have still : found = false ∧ u.pos = i := by
      cases found with
      | true =>
        -- An item would have taken the brace.
        have kept := steady.keeps trivial (i + 1) (Nat.le_succ i) ensures
        rw [Input.balance_succ, show c.input.kind i = _ from brace] at kept
        simp only [Input.weight] at kept
        omega
      | false => exact ⟨rfl, behind.pos.trans ensures⟩
    obtain ⟨rfl, pos⟩ := still
    rw [draft_at_brace made (by rw [pos]; exact brace)]
    intro x hx
    rcases List.mem_append.mp hx with old | new
    · exact .inl (allOf_iff.mp inner x old)
    · exact .inr (List.mem_singleton.mp new)
  · have body := Site.From.itemOrError (c := c) (s := ⟨i, false⟩) (Nat.zero_le _) more (fun _ => brace)
      (Nat.zero_le _)
    have whole := sheltered_of_wp itemOrError (c := c) simple trivial spelling keeps sheltering body stands known
      trivial
    exact fun x hx => .inl (allOf_iff.mp whole x hx)

/-- The same round wherever the row has come to. -/
theorem draft_itemOrError (enough : 2 * input.length + 2 ≤ levels) {s : Frame} (le : s.pos ≤ input.length)
    (more : input.kind s.pos ≠ .eof) : (itemOrError.draft input (drafters input levels) 0 s).2 =
      (itemOrError.draft input (drafters input levels) 0 s.opened).2.moved 0 s.row := by
  have mirrors : Mirrors input input 0 fun _ => True :=
    ⟨fun _ _ _ _ => rfl, fun _ _ _ _ _ => rfl, fun _ _ => Nat.le_refl _, fun _ _ _ h => h⟩
  have cut : ∀ n : Nat, True → (nestingLimit ≤ n ↔ nestingLimit ≤ n + 0) := fun _ _ => Iff.rfl
  have same := draft_moved mirrors cut (forward_drafters input levels)
    (echoes_drafters mirrors cut (Nat.le_refl levels)) itemOrError s.row (safe_itemOrError enough le more).1 trivial
  exact congrArg Prod.snd same

/-- A frame among the items of a file, as long as it is flat enough. -/
def Frame.IsAmongItems (s : Frame) (input : Input) : Prop := heightOf s.row + 1 < nestingLimit →
  s.pos ≤ input.length ∧ ∀ x ∈ skeletonOf s.row, Parser.IsAmongItems x

theorem Frame.IsAmongItems.itemOrError (simple : ∀ i, (input.kind i).IsSimple)
    (enough : 2 * input.length + 2 ≤ levels) {s : Frame} (h : s.IsAmongItems input)
    (more : input.kind s.pos ≠ .eof) :
    (itemOrError.draft input (drafters input levels) 0 s).2.IsAmongItems input := by
  intro low
  have grown := (grown_draft input (growing_drafters input levels) Parser.itemOrError 0 s).heightOf_le
  obtain ⟨le, old⟩ := h (by omega)
  rw [draft_itemOrError enough le more] at low ⊢
  simp only [Frame.moved, heightOf_append] at low
  have new := sheltered_itemOrError simple enough le more (by simp only [Frame.opened] at low; omega)
  refine ⟨(safe_itemOrError enough le more).2, fun x hx => ?_⟩
  rw [Frame.moved, skeletonOf_append, List.mem_append] at hx
  exact hx.elim (old x) (new x)

/-- What stands in a file that is flat enough. -/
theorem amongItems_of_flat (simple : ∀ i, (input.kind i).IsSimple) {row : List Outline} {n : Nat}
    (outlined : outline sourceFile input = ⟨n, [.node .sourceFile row]⟩)
    (flat : heightOf row + 1 < nestingLimit) : ∀ x ∈ skeletonOf row, IsAmongItems x := by
  let step (a : Unit) (s : Frame) :=
    (Seam.fileRound a).draft input (drafters input (2 * input.length + 2)) 0 s
  have round (a : Unit) (s : Frame) (h : s.IsAmongItems input) : (step a s).2.IsAmongItems input := by
    by_cases ends : input.kind s.pos = .eof
    · have same : (step a s).2 = s := by
        simp [step, Seam.fileRound, draft, bind, isAt, Pure.pure, Input.isAt_simple (k := .eof) rfl, ends]
      rwa [same]
    · have one : (step a s).2 = (itemOrError.draft input (drafters input (2 * input.length + 2)) 0 s).2 := by
        simp [step, Seam.fileRound, draft, bind, isAt, Pure.pure, Input.isAt_simple (k := .eof) rfl, ends]
      rw [one]
      exact h.itemOrError simple (Nat.le_refl _) ends
  let last := (iterate step (·.write (.fault .noProgress)) (input.length + 1) () ⟨0, []⟩).2
  have kept : last.IsAmongItems input :=
    SafeIterate.keeps (P := (·.IsAmongItems input)) (fun a s _ h => round a s h)
      (runs_sourceFile input).1.safe.1 fun _ => ⟨Nat.zero_le _, fun _ hx => absurd hx List.not_mem_nil⟩
  have made : row = last.row := by
    have whole : (⟨n, [.node .sourceFile row]⟩ : Frame) = (⟨0, []⟩ : Frame).close last .sourceFile :=
      outlined.symm
    simp only [Frame.close, Frame.mk.injEq, List.cons.injEq, Outline.node.injEq, true_and, and_true] at whole
    exact whole.2
  rw [made] at flat ⊢
  exact (kept flat).2

end

end Parser

/-! ## Trees -/

open Green Outline Skeleton

theorem Skeleton.mem_skeletons {cs : List Green} {g : Green} (h : g ∈ cs) (node : g.isNode = true) :
    g.skeleton ∈ skeletons cs := by
  obtain ⟨front, back, rfl⟩ := List.append_of_mem h
  rw [skeletons_append, List.mem_append]
  cases g with
  | token k t => cases node
  | node k n below => exact .inr List.mem_cons_self

/-- Below a row of items and braces that were set aside everything is sheltered. -/
theorem Position.sheltered_of_valid {tree : Green}
    (items : ∀ x ∈ skeletons tree.children, Parser.IsAmongItems x) {q : Position} (valid : q.Valid)
    (top : q.top = .root tree) (below : q.parent? ≠ none) : q.element.skeleton.All Skeleton.Sheltered ∨
      q.element.skeleton = strayBrace ∧ q.parent? = some (.root tree) := by
  induction q with
  | root tree' => exact absurd rfl below
  | child p i e known ih =>
    have inside : e ∈ p.element.children := List.mem_of_getElem? valid.2.1
    change e.skeleton.All Skeleton.Sheltered ∨ e.skeleton = strayBrace ∧ some p = _
    cases e with
    | token k t => exact .inl trivial
    | node k n cs =>
      have shown := mem_skeletons inside rfl
      cases p with
      | root tree' =>
        obtain rfl : tree' = tree := Position.root.inj top
        exact (items _ shown).imp_right fun stray => ⟨stray, rfl⟩
      | child p' i' e' known' =>
        rcases ih valid.1 top nofun with above | ⟨stray, -⟩
        · cases e' with
          | token k' t' => cases inside
          | node k' n' cs' => exact .inl (all_of_mem above.2 inside)
        · -- A brace that was set aside has no nodes below it.
          cases e' with
          | token k' t' => cases inside
          | node k' n' cs' =>
            have alone : skeletons cs' = [.leaf .rightBrace] := (Skeleton.node.inj stray).2
            have leaf : (Green.node k n cs).skeleton = .leaf .rightBrace :=
              List.mem_singleton.mp (alone ▸ shown)
            cases leaf

/-- No brace is taken from around, if a tree stays below the nesting limit: in every node but the root each
closing brace follows an opening one of its own, unless the node stands right below the root and is nothing
but a brace that was set aside. -/
theorem Parse.ofText_sheltered (t : Text) : ∃ p, ofText t = .ok p ∧
    (p.tree.depth < nestingLimit → ∀ q : Position, q.Valid → q.top = .root p.tree → q.isNode = true →
      q.parent? ≠ none → q.element.skeleton.Sheltered ∨
        q.element.skeleton = strayBrace ∧ q.parent? = some (.root p.tree)) := by
  obtain ⟨row, outlined, -, fits, -, run⟩ := ofText_eq t
  refine ⟨_, ofText_of_byProgram run, fun flat q valid top node below => ?_⟩
  have low : heightOf row + 1 < nestingLimit := by
    have grown := heightOf_le_depthOf (Replay.textEnd (Token.list t)) row (Token.list t)
    simp only [Green.branch, Green.depth, whole, Sprout.andThen, depthOf_append] at flat
    omega
  have items := Parser.amongItems_of_flat (fun i => (Input.kind_ofTokens_list t i).1) outlined low
  rw [← skeletons_whole fits] at items
  have among : ∀ x ∈ skeletons (Green.branch .sourceFile (whole row (Token.list t)).greens).children,
      Parser.IsAmongItems x := items
  refine (q.sheltered_of_valid among valid top below).imp_left fun all => ?_
  rw [Position.isNode] at node
  cases element : q.element with
  | token k t =>
    rw [element] at node
    cases node
  | node k n cs =>
    rw [element] at all
    exact all.1

end Verbatim
