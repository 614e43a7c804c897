import Verbatim.Proofs.Fits
import Verbatim.Proofs.Grammar.Closed
import Verbatim.Proofs.Locality
import Verbatim.Proofs.Shallow

/-!
# The exchange of a list in a run

A list in braces stands somewhere in what a run writes. On an input that shows another list there, and the
same before and behind it, the run writes the same but for the list: up to the brace it does the same, at
the brace it calls the list, and behind the list it goes on where it was. Only the places differ.
-/
namespace Verbatim

/-- A list of some kind that takes the places from `first` up to `last`, and the row to put there. -/
structure Graft where
  fragment : Fragment
  first : Nat
  last : Nat
  scion : List Outline
  lt : first < last
  room : 0 < Outline.widthOf scion

namespace Outline

mutual
/-- An outline from place `i` on, with the list exchanged. -/
def graft (g : Graft) : Outline → (i : Nat) → Outline
  | node k row, i =>
    if k = g.fragment.kind ∧ i = g.first ∧ i + widthOf row = g.last then node k g.scion
    else node k (graftOf g row i)
  | around k inner row, i => around k (graft g inner i) (graftOf g row (i + inner.width))
  | token k n, _ => token k n
  | error cause, _ => error cause
  | fault what, _ => fault what
  | void, _ => void

def graftOf (g : Graft) : List Outline → (i : Nat) → List Outline
  | [], _ => []
  | o :: older, i => graft g o (i + widthOf older) :: graftOf g older i
end

mutual
/-- The list stands below `n` nodes of an outline from place `i` on. -/
def Holds (g : Graft) : Outline → (i n : Nat) → Prop
  | node k row, i, 0 => k = g.fragment.kind ∧ i = g.first ∧ i + widthOf row = g.last
  | node _ row, i, n + 1 => HoldsOf g row i n
  | around _ inner row, i, n + 1 => Holds g inner i n ∨ HoldsOf g row (i + inner.width) n
  | _, _, _ => False

def HoldsOf (g : Graft) : List Outline → (i n : Nat) → Prop
  | [], _, _ => False
  | o :: older, i, n => HoldsOf g older i n ∨ Holds g o (i + widthOf older) n
end

variable {g : Graft}

theorem graftOf_append (new old : List Outline) (i : Nat) :
    graftOf g (new ++ old) i = graftOf g new (i + widthOf old) ++ graftOf g old i := by
  induction new with
  | nil => simp [graftOf]
  | cons o new ih => simp [graftOf, ih, widthOf_append, Nat.add_assoc]

theorem holdsOf_append {new old : List Outline} {i n : Nat} : HoldsOf g (new ++ old) i n ↔
    HoldsOf g old i n ∨ HoldsOf g new (i + widthOf old) n := by
  induction new with
  | nil => simp [HoldsOf]
  | cons o new ih => simp [HoldsOf, ih, widthOf_append, Nat.add_assoc, or_assoc]

@[simp] theorem isEmpty_graftOf (row : List Outline) (i : Nat) :
    (graftOf g row i).isEmpty = row.isEmpty := by
  cases row <;> rfl

@[simp] theorem isNode_graft (o : Outline) (i : Nat) : (graft g o i).isNode = o.isNode := by
  cases o with
  | node k row =>
    rw [graft]
    split <;> rfl
  | _ => rfl

mutual
/-- The list lies within what holds it. -/
theorem Holds.bounds : ∀ {o : Outline} {i n : Nat}, Holds g o i n → i ≤ g.first ∧ g.last ≤ i + o.width
  | .node k row, i, 0, h => by
    obtain ⟨-, rfl, last⟩ := h
    exact ⟨Nat.le_refl _, Nat.le_of_eq last.symm⟩
  | .node k row, i, n + 1, h => (show HoldsOf g row i n from h).bounds
  | .around k inner row, i, 0, h => absurd h id
  | .around k inner row, i, n + 1, h => by
    rw [width]
    rcases h with h | h
    · have := Holds.bounds h
      omega
    · have := HoldsOf.bounds h
      omega
  | .token _ _, _, 0, h | .token _ _, _, _ + 1, h => absurd h id
  | .error _, _, 0, h | .error _, _, _ + 1, h => absurd h id
  | .fault _, _, 0, h | .fault _, _, _ + 1, h => absurd h id
  | .void, _, 0, h | .void, _, _ + 1, h => absurd h id

theorem HoldsOf.bounds : ∀ {row : List Outline} {i n : Nat}, HoldsOf g row i n →
    i ≤ g.first ∧ g.last ≤ i + widthOf row
  | [], _, _, h => absurd h id
  | o :: older, i, n, h => by
    rw [widthOf]
    rcases h with h | h
    · have := HoldsOf.bounds h
      omega
    · have := Holds.bounds h
      omega
end

/-- What ends in front of the list holds it nowhere. -/
theorem not_holdsOf_of_le {row : List Outline} {i n : Nat} (le : i + widthOf row ≤ g.first) :
    ¬ HoldsOf g row i n := fun h => by
  have := h.bounds.2
  have := g.lt
  omega

end Outline

namespace Parser

open Outline

theorem Grown.widthOf_le {r r' : List Outline} (h : Grown r r') : widthOf r ≤ widthOf r' := by
  induction h with
  | refl => exact Nat.le_refl _
  | write o _ ih => exact Nat.le_trans ih (Nat.le_add_right _ _)
  | around k row _ _ ih =>
    refine Nat.le_trans ih ?_
    simp only [widthOf, width]
    omega

/-- A list that starts in front of the end of a row was there before the row has grown, with no more nodes
around it. -/
theorem Grown.holdsOf {g : Graft} {r r' : List Outline} {i n : Nat} (h : Grown r r')
    (holds : HoldsOf g r' i n) (lt : g.first < i + widthOf r) : ∃ m ≤ n, HoldsOf g r i m := by
  induction h generalizing n with
  | refl => exact ⟨n, Nat.le_refl n, holds⟩
  | write o grown ih =>
    rcases holds with older | here
    · exact ih older
    · have := here.bounds.1
      have := grown.widthOf_le
      omega
  | @around r' x k row node grown ih =>
    rcases holds with older | here
    · exact ih (.inl older)
    · cases n with
      | zero => exact absurd here id
      | succ n =>
        rcases here with inside | later
        · obtain ⟨m, le, holds⟩ := ih (.inr inside)
          exact ⟨m, Nat.le_succ_of_le le, holds⟩
        · have := later.bounds.1
          have := grown.widthOf_le
          simp only [widthOf] at this
          omega

end Parser

namespace Graft

open Outline Verbatim.Parser

variable (g : Graft)

/-- The place behind the new list. -/
def newLast : Nat := g.first + widthOf g.scion

/-- Places of the two inputs outside of the list, in front of it or behind. -/
def Meets (i i' : Nat) : Prop :=
  (i ≤ g.first ∧ i' = i) ∨ (g.last ≤ i ∧ i' + g.last = i + g.newLast)

/-- Two inputs that show the same outside of the list. -/
structure Sees (input input' : Input) : Prop where
  kind : ∀ i i' n, g.Meets i i' → input.Open i n → input'.kind (i' + n) = input.kind (i + n)
  isAt : ∀ i i' n k, g.Meets i i' → input.Open i n → input'.isAt (i' + n) k = input.isAt (i + n) k

/-- Frames of the two runs, at places that meet; the row starts at place `start`. -/
structure Coupled (input : Input) (start : Nat) (s s' : Frame) : Prop where
  meets : g.Meets s.pos s'.pos
  row : s'.row = graftOf g s.row start
  spells : s.Spells input start

/-- A run that starts below `m` nodes, from `s` to `t`, stays in front of the list or behind it, or it takes
the list as a whole, below at most `total` nodes. -/
def Clear (total m start : Nat) (s t : Frame) : Prop :=
  t.pos ≤ g.first ∨ g.last ≤ s.pos ∨ (s.pos ≤ g.first ∧ ∃ n, m + n ≤ total ∧ HoldsOf g t.row start n)

variable {g} {input : Input} {start total m : Nat} {s s' t u : Frame}

theorem Meets.same {i i' : Nat} (h : g.Meets i i') (le : i ≤ g.first) : i' = i := by
  have := g.lt
  rcases h with h | h <;> omega

theorem Meets.behind {i i' : Nat} (h : g.Meets i i') (le : g.last ≤ i) : i' + g.last = i + g.newLast := by
  have := g.lt
  rcases h with h | h <;> omega

theorem first_lt_newLast : g.first < g.newLast := by
  have := g.room
  unfold newLast
  omega

/-- Places that meet are told apart on both sides. -/
theorem Meets.ne_iff {i i' j j' : Nat} (h : g.Meets i i') (hj : g.Meets j j') : i' ≠ j' ↔ i ≠ j := by
  have := g.lt
  have := first_lt_newLast (g := g)
  rcases h with h | h <;> rcases hj with hj | hj <;> omega

/-- A run is clear if both of its parts are. -/
theorem Clear.split (h : g.Clear total m start s u) (hs : s.pos ≤ t.pos) (hu : t.pos ≤ u.pos)
    (pos : t.pos = start + widthOf t.row) (grown : Grown t.row u.row) :
    g.Clear total m start s t ∧ g.Clear total m start t u := by
  rcases h with before | behind | ⟨le, n, small, holds⟩
  · exact ⟨.inl (Nat.le_trans hu before), .inl before⟩
  · exact ⟨.inr (.inl behind), .inr (.inl (Nat.le_trans behind hs))⟩
  · rcases Nat.lt_or_ge g.first t.pos with passed | ahead
    · obtain ⟨n', le', holds'⟩ := grown.holdsOf holds (pos ▸ passed)
      exact ⟨.inr (.inr ⟨le, n', by omega, holds'⟩), .inr (.inl (pos ▸ holds'.bounds.2))⟩
    · exact ⟨.inl ahead, .inr (.inr ⟨ahead, n, small, holds⟩)⟩

/-- A run that writes nothing that could hold the list is clear only where it does not come to it. -/
theorem Clear.apart (h : g.Clear total m start s t) (pos : s.pos = start + widthOf s.row)
    (new : ∀ n, HoldsOf g t.row start n → HoldsOf g s.row start n) :
    t.pos ≤ g.first ∨ g.last ≤ s.pos := by
  rcases h with before | behind | ⟨le, n, -, holds⟩
  · exact .inl before
  · exact .inr behind
  · exact absurd (new n holds) (not_holdsOf_of_le (pos ▸ le))

/-- Both runs go on by the same number of places. -/
theorem Meets.step {i i' n : Nat} (h : g.Meets i i') (apart : i + n ≤ g.first ∨ g.last ≤ i) :
    g.Meets (i + n) (i' + n) := by
  have := g.lt
  unfold Meets at h ⊢
  omega

namespace Coupled

variable (h : g.Coupled input start s s')

include h

theorem pos : s.pos = start + widthOf s.row := h.spells.pos

theorem opened : g.Coupled input s.pos s.opened s'.opened := ⟨h.meets, rfl, .opened s⟩

theorem error (cause : Cause) : g.Coupled input start (s.write (.error cause)) (s'.write (.error cause)) :=
  ⟨h.meets, by simp [Frame.write, graftOf, graft, h.row], h.spells.error cause⟩

theorem take {k : Kind} (hk : k ≠ .eof) (at_pos : input.isAt s.pos k = true)
    (clear : g.Clear total m start s (s.take k k.pieces.length)) :
    g.Coupled input start (s.take k k.pieces.length) (s'.take k k.pieces.length) := by
  have apart := clear.apart h.pos fun n holds => holds.resolve_right (by cases n <;> exact id)
  exact ⟨h.meets.step apart, by simp [Frame.take, graftOf, graft, h.row], h.spells.take hk at_pos⟩

/-- What is written in a node of another kind, and the node itself. -/
theorem close {t t' : Frame} {k : Kind} (ht : g.Coupled input s.pos t t') (hk : k ≠ .tombstone)
    (other : ¬ (k = g.fragment.kind ∧ s.pos = g.first ∧ t.pos = g.last)) :
    g.Coupled input start (s.close t k) (s'.close t' k) := by
  refine ⟨ht.meets, ?_, h.spells.close ht.spells hk⟩
  rw [ht.pos] at other
  simp only [Frame.close, graftOf, graft, h.row, ht.row, ← h.pos, if_neg other]

theorem spill {t t' : Frame} (ht : g.Coupled input s.pos t t') :
    g.Coupled input start (s.spill t) (s'.spill t') := by
  refine ⟨ht.meets, ?_, h.spells.spill ht.spells⟩
  simp only [Frame.spill, ht.row, h.row, isEmpty_graftOf]
  split
  · rfl
  · simp only [graftOf_append, graftOf, graft, widthOf, width, Nat.add_zero, ← h.pos]

theorem endsInNode (hs : s.endsInNode) : s'.endsInNode := by
  have row := h.row
  unfold Frame.endsInNode at hs ⊢
  rw [row]
  cases hr : s.row with
  | nil => simp [hr] at hs
  | cons o older => simpa [hr, graftOf] using hs

theorem closeAround {t t' : Frame} {k : Kind} (ht : g.Coupled input s.pos t t') (hs : s.endsInNode)
    (hk : k ≠ .tombstone) : g.Coupled input start (s.closeAround t k) (s'.closeAround t' k) := by
  refine ⟨by simpa using ht.meets, ?_, h.spells.closeAround ht.spells hs hk⟩
  obtain ⟨inner, older, row, node, closed⟩ := Frame.closeAround_of_endsInNode hs t k
  have row' := h.row
  have pos := h.pos
  rw [row] at row' pos
  have node' : (graft g inner (start + widthOf older)).isNode = true := by rwa [isNode_graft]
  rw [closed]
  simp only [Frame.closeAround, row', graftOf, node', if_true, graft, ht.row, pos, widthOf, Nat.add_assoc]

end Coupled

/-- Called rules and lists do the same on both inputs. -/
structure Twins (g : Graft) (input : Input) (total : Nat) (d d' : Drafters) (gd gd' : Guards) : Prop where
  rule : ∀ r F F' depth m start s s', gd.rule r F depth s → gd'.rule r F' depth s' → Room depth m F →
    g.Coupled input start s s' → g.Clear total m start s (d.rule r depth s).2 →
      ∃ t', d'.rule r depth s' = ((d.rule r depth s).1, t') ∧ g.Coupled input start (d.rule r depth s).2 t'
  list : ∀ f F depth m start s s', gd.list f depth s → gd'.list f depth s' → Room depth m F →
    g.Coupled input start s s' → g.Clear total m start s (d.list f depth s) →
      g.Coupled input start (d.list f depth s) (d'.list f depth s')

section

variable {input' : Input} {d d' : Drafters} {gd gd' : Guards}

/-- A loop that does not run out of rounds on either side. -/
theorem iterate_twins {σ : Type} {step step' : σ → Frame → ForInStep σ × Frame} {stuck stuck' : Frame → Frame}
    {safe safe' : σ → Frame → Prop} (forward : ∀ a s, s.pos ≤ (step a s).2.pos)
    (still : ∀ s, s.pos ≤ (stuck s).pos) (grown : ∀ a s, Grown s.row (step a s).2.row)
    (stuck_grown : ∀ s, Grown s.row (stuck s).row)
    (spells : ∀ a s, safe a s → s.Spells input start → (step a s).2.Spells input start)
    (round : ∀ a s s', safe a s → safe' a s' → g.Coupled input start s s' →
      g.Clear total m start s (step a s).2 →
        ∃ t', step' a s' = ((step a s).1, t') ∧ g.Coupled input start (step a s).2 t')
    {fuel fuel' : Nat} {a : σ} {s s' : Frame} (hs : SafeIterate step safe fuel a s)
    (hs' : SafeIterate step' safe' fuel' a s') (coupled : g.Coupled input start s s')
    (clear : g.Clear total m start s (iterate step stuck fuel a s).2) :
    ∃ t', iterate step' stuck' fuel' a s' = ((iterate step stuck fuel a s).1, t') ∧
      g.Coupled input start (iterate step stuck fuel a s).2 t' := by
  induction fuel generalizing fuel' a s s' with
  | zero => exact absurd hs id
  | succ fuel ih =>
    cases fuel' with
    | zero => exact absurd hs' id
    | succ fuel' =>
      have one := round a s s' hs.1 hs'.1 coupled
      have ahead := forward a s
      have written := spells a s hs.1 coupled.spells
      have rest := hs.2
      have rest' := hs'.2
      rw [iterate] at clear ⊢
      rw [iterate]
      rcases hr : step a s with ⟨_ | b, t⟩ <;> rw [hr] at one clear rest ahead written
      · obtain ⟨t', ran, after⟩ := one clear
        exact ⟨t', by rw [ran], after⟩
      · have later : t.pos ≤ (iterate step stuck fuel b t).2.pos ∧
            Grown t.row (iterate step stuck fuel b t).2.row :=
          iterate_induction (P := fun u : Frame => t.pos ≤ u.pos ∧ Grown t.row u.row)
            (fun a u hu => ⟨Nat.le_trans hu.1 (forward a u), hu.2.trans (grown a u)⟩)
            (fun u hu => ⟨Nat.le_trans hu.1 (still u), hu.2.trans (stuck_grown u)⟩) _ ⟨Nat.le_refl _, .refl⟩
        obtain ⟨clear_one, clear_rest⟩ := clear.split ahead later.1 written.pos later.2
        obtain ⟨t', ran, after⟩ := one clear_one
        rw [ran] at rest' ⊢
        exact ih (rest b rfl) (rest' b rfl) after clear_rest

/-- A safe run that is clear of the list does the same on both inputs, but for the list. -/
theorem draft_twins (sees : g.Sees input input') (simple : ∀ i, (input.kind i).IsSimple)
    (forward : Forward d) (growing : Growing d) (spelling : Spelling input d gd)
    (twins : g.Twins input total d d' gd gd') {α : Type} (p : Parser α) {F F' : Prop} {depth m : Nat}
    {s s' : Frame} (safe : p.Safe input (fun _ => True) d gd F depth s)
    (safe' : p.Safe input' (fun _ => True) d' gd' F' depth s') (room : Room depth m F)
    (coupled : g.Coupled input start s s') (clear : g.Clear total m start s (p.draft input d depth s).2) :
    ∃ t', p.draft input' d' depth s' = ((p.draft input d depth s).1, t') ∧
      g.Coupled input start (p.draft input d depth s).2 t' := by
  induction p generalizing F F' depth m start s s' with
  | done a => exact ⟨s', rfl, coupled⟩
  | andThen p next ihp ihn =>
    have mid := spells_of_safe simple spelling p safe.1 coupled.spells
    obtain ⟨clear_p, clear_n⟩ := clear.split (le_draft input forward p depth s)
      (le_draft input forward _ depth _) mid.pos (grown_draft input growing _ depth _)
    obtain ⟨t', ran, after⟩ := ihp safe.1 safe'.1 room coupled clear_p
    have safe_next := safe'.2
    rw [ran] at safe_next
    obtain ⟨u', ran', after'⟩ := ihn _ safe.2 safe_next room after clear_n
    exact ⟨u', by simp only [draft, ran, ran'], after'⟩
  | nth n => exact ⟨s', congrArg (·, s') (sees.kind _ _ _ coupled.meets safe), coupled⟩
  | isAhead n k => exact ⟨s', congrArg (·, s') (sees.isAt _ _ _ k coupled.meets safe), coupled⟩
  | eat k =>
    have same := sees.isAt _ _ 0 k coupled.meets (Input.open_zero _)
    simp only [Nat.add_zero] at same
    by_cases here : input.isAt s.pos k = true
    · simp only [draft, here, same, if_true] at clear ⊢
      exact ⟨_, rfl, coupled.take safe here clear⟩
    · simp only [draft, here, same]
      exact ⟨s', rfl, coupled⟩
  | bumpAny =>
    have same := sees.kind _ _ 0 coupled.meets (Input.open_zero _)
    simp only [Nat.add_zero] at same
    by_cases ends : input.kind s.pos = .eof
    · simp only [draft, ends, same, beq_self_eq_true, if_true]
      exact ⟨s', rfl, coupled⟩
    · have single : (input.kind s.pos).pieces.length = 1 := by
        rw [show (input.kind s.pos).pieces = [input.kind s.pos] from simple s.pos]
        rfl
      have more : (input.kind s.pos == .eof) = false := beq_eq_false_iff_ne.mpr ends
      simp only [draft, same, more, Bool.false_eq_true, if_false] at clear ⊢
      rw [← single] at clear ⊢
      exact ⟨_, rfl, coupled.take ends (Input.isAt_of_kind rfl (simple s.pos)) clear⟩
  | error cause => exact ⟨_, rfl, coupled.error cause⟩
  | fault what => exact absurd safe id
  | enclose body kind ih =>
    have inside := safe.1
    have plain := safe.2
    have inside' := safe'.1
    simp only [draft] at clear ⊢
    cases made : kind (body.draft input d depth s.opened).1 with
    | some k =>
      simp only [made] at clear inside plain ⊢
      have apart : k ≠ g.fragment.kind := by
        rintro rfl
        have := (plain _ rfl).no_fragment
        revert this
        cases g.fragment <;> decide
      have clear_body : g.Clear total (m + 1) s.pos s.opened (body.draft input d depth s.opened).2 := by
        rcases clear with before | behind | ⟨le, n, small, holds⟩
        · exact .inl before
        · exact .inr (.inl behind)
        · rcases holds with older | here
          · exact absurd older (not_holdsOf_of_le (coupled.pos ▸ le))
          · cases n with
            | zero => exact absurd here.1 apart
            | succ n => exact .inr (.inr ⟨le, n, by omega, coupled.pos ▸ here⟩)
      obtain ⟨t', ran, after⟩ := ih inside inside' room.inside coupled.opened clear_body
      simp only [ran, made]
      exact ⟨_, rfl, coupled.close after (plain _ rfl).ne_tombstone fun h => apart h.1⟩
    | none =>
      simp only [made] at clear inside ⊢
      have clear_body : g.Clear total m s.pos s.opened (body.draft input d depth s.opened).2 := by
        rcases clear with before | behind | ⟨le, n, small, holds⟩
        · exact .inl before
        · exact .inr (.inl behind)
        · refine .inr (.inr ⟨le, n, small, ?_⟩)
          have no_older := not_holdsOf_of_le (g := g) (n := n) (coupled.pos ▸ le)
          simp only [Frame.spill] at holds
          split at holds
          · exact absurd holds no_older
          · rcases holdsOf_append.mp holds with older | here
            · exact absurd (older.resolve_right (by cases n <;> exact id)) no_older
            · simpa only [widthOf, width, Nat.add_zero, ← coupled.pos] using here
      obtain ⟨t', ran, after⟩ := ih inside inside' ⟨room.le, fun h => room.lt (by simpa using h)⟩
        coupled.opened clear_body
      simp only [ran, made]
      exact ⟨_, rfl, coupled.spill after⟩
  | wrap body ih =>
    have ends := safe.1
    have ends' := coupled.endsInNode ends
    obtain ⟨inner, older, row, -, closed⟩ := Frame.closeAround_of_endsInNode ends
      (body.draft input d depth s.opened).2 (body.draft input d depth s.opened).1
    have pos := coupled.pos
    rw [row] at pos
    simp only [draft, Frame.openedAround_of_endsInNode ends, Frame.openedAround_of_endsInNode ends'] at clear ⊢
    have clear_body : g.Clear total (m + 1) s.pos s.opened (body.draft input d depth s.opened).2 := by
      rw [closed] at clear
      rcases clear with before | behind | ⟨le, n, small, holds⟩
      · exact .inl before
      · exact .inr (.inl behind)
      · simp only [widthOf] at pos
        rcases holds with earlier | here
        · have := earlier.bounds.2
          have := g.lt
          omega
        · cases n with
          | zero => exact absurd here id
          | succ n =>
            rcases here with inside | later
            · have := inside.bounds.2
              have := g.lt
              omega
            · refine .inr (.inr ⟨le, n, by omega, ?_⟩)
              rwa [Nat.add_assoc, ← pos] at later
    obtain ⟨t', ran, after⟩ := ih safe.2.1 safe'.2.1 room.inside coupled.opened clear_body
    simp only [ran]
    exact ⟨_, rfl, coupled.closeAround after ends safe.2.2.1⟩
  | deeper inner atLimit ihi iha =>
    obtain ⟨fresh, -, safe⟩ := safe
    obtain ⟨-, -, safe'⟩ := safe'
    simp only [draft] at clear ⊢
    split at safe
    · next limit =>
      rw [if_pos limit] at safe' clear ⊢
      rw [if_pos limit]
      exact iha safe safe' ⟨room.le, False.elim⟩ coupled clear
    · next below =>
      rw [if_neg below] at safe' clear ⊢
      rw [if_neg below]
      exact ihi safe safe' (room.nested fresh) coupled clear
  | loop a body ih =>
    have still (s : Frame) : s.pos ≤ (s.write (.fault .noProgress)).pos := Nat.le_refl s.pos
    exact iterate_twins (fun a s => le_draft input forward (body a) depth s) still
      (fun a s => grown_draft input growing (body a) depth s) (fun s => Grown.refl.write _)
      (fun a s safe => spells_of_safe simple spelling (body a) safe)
      (fun a s s' safe safe' => ih a safe safe' room) safe safe' coupled clear
  | watch body ih =>
    obtain ⟨t', ran, after⟩ := ih safe safe' room coupled clear
    refine ⟨t', ?_, after⟩
    simp only [draft, ran]
    congr 2
    exact Bool.eq_iff_iff.mpr (by simpa using after.meets.ne_iff coupled.meets)
  | call r => exact twins.rule r F F' depth m start s s' safe safe' room coupled clear
  | list f =>
    exact ⟨_, rfl, twins.list f F depth m start s s' safe safe' room coupled clear⟩

/-- On the other input the list is read as the new one, below at most `total` nodes. -/
def Reads (g : Graft) (input' : Input) (total : Nat) : Prop := ∀ levels depth s,
  (guards input' (fun _ => True) levels).list g.fragment depth s → s.pos = g.first → depth ≤ total →
    (drafters input' levels).list g.fragment depth s =
      ⟨g.newLast, .node g.fragment.kind g.scion :: s.row⟩

theorem twins_drafters (sees : g.Sees input input') (simple : ∀ i, (input.kind i).IsSimple)
    (reads : g.Reads input' total) (levels levels' : Nat) :
    g.Twins input total (drafters input levels) (drafters input' levels')
      (guards input (fun _ => True) levels) (guards input' (fun _ => True) levels') := by
  induction levels generalizing levels' with
  | zero => exact ⟨fun _ _ _ _ _ _ _ _ h => absurd h id, fun _ _ _ _ _ _ _ h => absurd h id⟩
  | succ levels ih =>
    have forward := forward_drafters input levels
    have growing := growing_drafters input levels
    have spelling : Spelling input (drafters input levels) (guards input (fun _ => True) levels) :=
      spelling_drafters simple levels
    cases levels' with
    | zero => exact ⟨fun _ _ _ _ _ _ _ _ _ h => absurd h id, fun _ _ _ _ _ _ _ _ h => absurd h id⟩
    | succ levels' =>
      refine ⟨fun r F F' depth m start s s' safe safe' room coupled clear =>
        draft_twins sees simple forward growing spelling (ih levels') r.body safe safe' room coupled clear,
        fun f F depth m start s s' safe safe' room coupled clear => ?_⟩
      have deeper : Room depth (m + 1) True := room.inside
      have inside := draft_twins sees simple forward growing spelling (ih levels') f.body safe.2 safe'.2
        deeper coupled.opened
      have written := spells_of_safe simple spelling f.body safe.2 (.opened s)
      change g.Clear total m start s (s.close (f.body.draft input _ depth s.opened).2 f.kind) at clear
      change g.Coupled input start (s.close (f.body.draft input _ depth s.opened).2 f.kind) _
      generalize (f.body.draft input (drafters input levels) depth s.opened).2 = t at inside written clear
      by_cases here : f.kind = g.fragment.kind ∧ s.pos = g.first ∧ t.pos = g.last
      · -- The list itself.
        obtain ⟨kind, first, last⟩ := here
        obtain rfl : f = g.fragment := by
          revert kind
          cases f <;> cases g.fragment <;> decide
        have same : s'.pos = s.pos := coupled.meets.same (Nat.le_of_eq first)
        have few : depth ≤ total := by
          have lt := g.lt
          rcases clear with before | behind | ⟨-, n, small, -⟩
          · have : t.pos ≤ g.first := before
            omega
          · omega
          · have := room.le
            omega
        rw [reads (levels' + 1) depth s' safe' (same.trans first) few]
        refine ⟨.inr ⟨Nat.le_of_eq last.symm, ?_⟩, ?_, coupled.spells.close written (kind_ne_tombstone _)⟩
        · change g.newLast + g.last = t.pos + g.newLast
          omega
        · have whole : g.first + widthOf t.row = g.last := by rw [← first, ← written.pos, last]
          simp only [Frame.close, graftOf, graft, ← coupled.pos, whole, first, and_self, if_true,
            coupled.row]
      · have clear_body : g.Clear total (m + 1) s.pos s.opened t := by
          rcases clear with before | behind | ⟨le, n, small, holds⟩
          · exact .inl before
          · exact .inr (.inl behind)
          · rcases holds with older | holds
            · exact absurd older (not_holdsOf_of_le (coupled.pos ▸ le))
            · rw [← coupled.pos] at holds
              cases n with
              | zero => exact absurd ⟨holds.1, holds.2.1, written.pos.trans holds.2.2⟩ here
              | succ n => exact .inr (.inr ⟨le, n, by omega, holds⟩)
        obtain ⟨t', ran, after⟩ := inside clear_body
        have listed : (drafters input' (levels' + 1)).list f depth s' = s'.close t' f.kind := by
          change s'.close (f.body.draft input' _ depth s'.opened).2 f.kind = _
          rw [ran]
        rw [listed]
        exact coupled.close after (kind_ne_tombstone f) here

/-- The exchange of a list in a whole file. -/
theorem outline_sourceFile (sees : g.Sees input input') (simple : ∀ i, (input.kind i).IsSimple)
    (reads : g.Reads input' total) {n : Nat} {row : List Outline}
    (outlined : outline sourceFile input = ⟨n, [.node .sourceFile row]⟩) {below : Nat}
    (holds : HoldsOf g row 0 below) (few : below + 1 ≤ total) :
    (outline sourceFile input').row = [.node .sourceFile (graftOf g row 0)] := by
  have coupled : g.Coupled input 0 ⟨0, []⟩ ⟨0, []⟩ :=
    ⟨.inl ⟨Nat.zero_le _, rfl⟩, rfl, trivial, trivial, rfl⟩
  have clear : g.Clear total 0 0 ⟨0, []⟩ (outline sourceFile input) := by
    rw [outlined]
    exact .inr (.inr ⟨Nat.zero_le _, below + 1, by omega, .inr holds⟩)
  obtain ⟨t', ran, after⟩ := draft_twins sees simple (forward_drafters input _) (growing_drafters input _)
    (spelling_drafters simple _) (twins_drafters sees simple reads _ _) sourceFile
    (runs_sourceFile input).1.safe (runs_sourceFile input').1.safe ⟨Nat.le_refl 0, False.elim⟩ coupled clear
  have other : Kind.sourceFile ≠ g.fragment.kind := by cases g.fragment <;> decide
  have row' := after.row
  change t'.row = graftOf g (outline sourceFile input).row 0 at row'
  rw [outlined] at row'
  change (sourceFile.draft input' _ 0 ⟨0, []⟩).2.row = _
  rw [ran]
  simpa [graftOf, graft, other, widthOf] using row'

end

end Graft

end Verbatim
