import Verbatim.Proofs.Rows
import Verbatim.Proofs.Safe

/-!
# A run depends only on what it passes

Two inputs may show the same in front of some places, the one shifted against the other. A safe run that
stays at such places does the same on both, wherever it starts, whatever was written before it, and at
whatever depth that keeps it off the limit: no lookahead reads past a stop, and no other step reads ahead.
-/
namespace Verbatim.Parser

/-! ## Programs go forward -/

/-- Called rules and lists only go forward. -/
structure Forward (d : Drafters) : Prop where
  rule : ∀ r depth s, s.pos ≤ (d.rule r depth s).2.pos
  list : ∀ f depth s, s.pos ≤ (d.list f depth s).pos

@[simp] theorem Frame.pos_closeAround (s t : Frame) (k : Kind) : (s.closeAround t k).pos = t.pos := by
  unfold closeAround
  split
  · split <;> rfl
  · rfl

theorem le_draft (input : Input) {d : Drafters} (hd : Forward d) {α : Type} (p : Parser α)
    (depth : Nat) (s : Frame) : s.pos ≤ (p.draft input d depth s).2.pos := by
  induction p generalizing depth s with
  | andThen p next ihp ihn => exact Nat.le_trans (ihp depth s) (ihn _ depth _)
  | eat k =>
    simp only [draft]
    split
    · exact Nat.le_add_right _ _
    · exact Nat.le_refl _
  | bumpAny =>
    simp only [draft]
    split
    · exact Nat.le_refl _
    · exact Nat.le_add_right _ _
  | enclose body kind ih =>
    simp only [draft]
    split
    · exact ih depth s.opened
    · exact ih depth s.opened
  | wrap body ih =>
    simp only [draft, Frame.pos_closeAround]
    exact ih depth s.openedAround
  | deeper inner atLimit ihi iha =>
    simp only [draft]
    split
    · exact iha depth s
    · exact ihi (depth + 1) s
  | loop a body ih =>
    refine iterate_induction (P := fun t : Frame => s.pos ≤ t.pos)
      (fun a t ht => Nat.le_trans ht (ih a depth t)) (fun t ht => ?_) _ (Nat.le_refl _)
    exact ht
  | watch body ih => exact ih depth s
  | call r => exact hd.rule r depth s
  | list f => exact hd.list f depth s
  | _ => exact Nat.le_refl _

theorem forward_drafters (input : Input) (levels : Nat) : Forward (drafters input levels) := by
  induction levels with
  | zero => exact ⟨fun _ _ _ => Nat.le_refl _, fun _ _ _ => Nat.le_refl _⟩
  | succ levels ih =>
    exact ⟨fun r depth s => le_draft input ih r.body depth s,
      fun f depth s => le_draft input ih (node f.kind f.body) depth s⟩

/-! ## The same run elsewhere -/

/-- From the places that are `here` in one input on, the other input shows the same `shift` places
later. -/
structure Mirrors (input input' : Input) (shift : Nat) (here : Nat → Prop) : Prop where
  kind : ∀ i n, here i → input.Open i n → input'.kind (i + shift + n) = input.kind (i + n)
  isAt : ∀ i n k, here i → input.Open i n → input'.isAt (i + shift + n) k = input.isAt (i + n) k
  room : ∀ i, here i → input.length - i ≤ input'.length - (i + shift)
  back : ∀ i j, i ≤ j → here j → here i

/-- Kinds that are no stops do not reach behind one. -/
theorem glued_of_window {input input' : Input} {shift w : Nat}
    (kind : ∀ i < w, input'.kind (i + shift) = input.kind i)
    (joint : ∀ i, i + 1 < w → input'.isJoint (i + shift) = input.isJoint i)
    (stop : (input.kind (w - 1)).isStop) {ks : List Kind} (apart : ∀ k ∈ ks, k.isStop = false) {i : Nat}
    (hi : i < w) : input'.glued (i + shift) ks = input.glued i ks := by
  induction ks generalizing i with
  | nil => rfl
  | cons k ks ih =>
    cases ks with
    | nil => simp only [Input.glued, kind i hi]
    | cons k' ks =>
      simp only [Input.glued, kind i hi]
      rcases Nat.lt_or_ge (i + 1) w with inside | last
      · rw [joint i inside, Nat.add_right_comm, ih (fun b hb => apart b (List.mem_cons_of_mem _ hb)) inside]
      · -- The last place shows a stop, which is no piece of such a kind.
        have ne : (input.kind i == k) = false := by
          refine beq_eq_false_iff_ne.mpr fun h => ?_
          rw [show w - 1 = i by omega, h, apart k List.mem_cons_self] at stop
          contradiction
        rw [ne]
        rfl

/-- Inputs that agree on a window that ends with a stop show the same wherever one looks from a place of it
without passing a stop. -/
theorem same_of_window {input input' : Input} {shift w : Nat}
    (kind : ∀ i < w, input'.kind (i + shift) = input.kind i)
    (joint : ∀ i, i + 1 < w → input'.isJoint (i + shift) = input.isJoint i)
    (stop : (input.kind (w - 1)).isStop) {i n : Nat} (hi : i < w) (ahead : input.Open i n) :
    input'.kind (i + n + shift) = input.kind (i + n) ∧
      ∀ k, input'.isAt (i + n + shift) k = input.isAt (i + n) k := by
  have within : i + n < w := by
    by_contra beyond
    have open_last := ahead (w - 1 - i) (by omega)
    rw [show i + (w - 1 - i) = w - 1 by omega, stop] at open_last
    contradiction
  refine ⟨kind _ within, fun k => ?_⟩
  rw [Input.isAt, Input.isAt]
  rcases k.simple_or_open with simple | apart
  · rw [show k.pieces = [k] from simple, Input.glued, Input.glued, kind _ within]
  · exact glued_of_window kind joint stop apart within

theorem Mirrors.of_window {input input' : Input} {shift w : Nat}
    (kind : ∀ i < w, input'.kind (i + shift) = input.kind i)
    (joint : ∀ i, i + 1 < w → input'.isJoint (i + shift) = input.isJoint i)
    (stop : (input.kind (w - 1)).isStop) (le : w ≤ input.length)
    (room : input.length + shift ≤ input'.length) : Mirrors input input' shift (· < w) := by
  refine ⟨fun i n hi h => ?_, fun i n k hi h => ?_, fun i hi => by omega,
    fun i j le hj => Nat.lt_of_le_of_lt le hj⟩
  · rw [Nat.add_right_comm]
    exact (same_of_window kind joint stop hi h).1
  · rw [Nat.add_right_comm]
    exact (same_of_window kind joint stop hi h).2 k

/-- The same frame `shift` places later, behind what `base` holds. -/
def Frame.moved (s : Frame) (shift : Nat) (base : List Outline) : Frame := ⟨s.pos + shift, s.row ++ base⟩

namespace Frame

variable {s : Frame} (shift : Nat) (base : List Outline)

@[simp] theorem moved_pos : (s.moved shift base).pos = s.pos + shift := rfl

@[simp] theorem moved_zero_nil : s.moved 0 [] = s := by simp [moved]

@[simp] theorem moved_opened : (s.moved shift base).opened = s.opened.moved shift [] := rfl

theorem moved_take (k : Kind) (n : Nat) :
    (s.moved shift base).take k n = (s.take k n).moved shift base := by
  simp [moved, take, Nat.add_right_comm]

theorem moved_close (t : Frame) (k : Kind) :
    (s.moved shift base).close (t.moved shift []) k = (s.close t k).moved shift base := by
  simp [moved, close]

theorem moved_spill (t : Frame) :
    (s.moved shift base).spill (t.moved shift []) = (s.spill t).moved shift base := by
  simp only [moved, spill, List.append_nil]
  split <;> simp

theorem endsInNode_moved (h : s.endsInNode) : (s.moved shift base).endsInNode := by
  obtain ⟨pos, row⟩ := s
  cases row with
  | nil => simp [endsInNode] at h
  | cons o row => exact h

theorem moved_closeAround (h : s.endsInNode) (t : Frame) (k : Kind) :
    (s.moved shift base).closeAround (t.moved shift []) k = (s.closeAround t k).moved shift base := by
  obtain ⟨pos, row⟩ := s
  cases row with
  | nil => simp [endsInNode] at h
  | cons o row =>
    have node : o.isNode = true := by simpa [endsInNode] using h
    simp [moved, closeAround, node]

end Frame

/-- Called rules and lists do the same on both inputs. -/
structure Echoes (d d' : Drafters) (g : Guards) (shift lower : Nat) (here : Nat → Prop) : Prop where
  rule : ∀ r F depth s base, g.rule r F depth s → here (d.rule r depth s).2.pos →
    d'.rule r (depth + lower) (s.moved shift base) =
      ((d.rule r depth s).1, (d.rule r depth s).2.moved shift base)
  list : ∀ f depth s base, g.list f depth s → here (d.list f depth s).pos →
    d'.list f (depth + lower) (s.moved shift base) = (d.list f depth s).moved shift base

section

variable {input input' : Input} {shift lower : Nat} {here : Nat → Prop} {allowed : Nat → Prop}

/-- A loop that does not run out of rounds does the same with more of them. -/
theorem iterate_moved {σ : Type} {step step' : σ → Frame → ForInStep σ × Frame}
    {stuck stuck' : Frame → Frame} {safe : σ → Frame → Prop} {base : List Outline}
    (back : ∀ i j, i ≤ j → here j → here i) (forward : ∀ a s, s.pos ≤ (step a s).2.pos)
    (still : ∀ s, s.pos ≤ (stuck s).pos)
    (round : ∀ a s, safe a s → here (step a s).2.pos →
      step' a (s.moved shift base) = ((step a s).1, (step a s).2.moved shift base))
    {fuel fuel' : Nat} (le : fuel ≤ fuel') {a : σ} {s : Frame} (hs : SafeIterate step safe fuel a s)
    (h : here (iterate step stuck fuel a s).2.pos) :
    iterate step' stuck' fuel' a (s.moved shift base) =
      ((iterate step stuck fuel a s).1, (iterate step stuck fuel a s).2.moved shift base) := by
  induction fuel generalizing fuel' a s with
  | zero => exact absurd hs id
  | succ fuel ih =>
    obtain ⟨fuel', rfl⟩ : ∃ n, fuel' = n + 1 := ⟨fuel' - 1, by omega⟩
    have echo := round a s hs.1
    have rest := hs.2
    rw [iterate] at h ⊢
    rw [iterate]
    rcases hr : step a s with ⟨_ | b, t⟩ <;> rw [hr] at h echo rest
    · rw [echo h]
    · have later : t.pos ≤ (iterate step stuck fuel b t).2.pos :=
        iterate_induction (P := fun u : Frame => t.pos ≤ u.pos)
          (fun a u hu => Nat.le_trans hu (forward a u)) (fun u hu => Nat.le_trans hu (still u)) _
          (Nat.le_refl _)
      rw [echo (back _ _ later h)]
      exact ih (by omega) (rest b rfl) h

/-- A safe run that ends at such a place does the same on both inputs. -/
theorem draft_moved (mirrors : Mirrors input input' shift here)
    (cut : ∀ n, allowed n → (nestingLimit ≤ n ↔ nestingLimit ≤ n + lower)) {d d' : Drafters} {g : Guards}
    (hd : Forward d) (echoes : Echoes d d' g shift lower here) {α : Type} (p : Parser α) {F : Prop}
    {depth : Nat} {s : Frame} (base : List Outline) (safe : p.Safe input allowed d g F depth s)
    (h : here (p.draft input d depth s).2.pos) :
    p.draft input' d' (depth + lower) (s.moved shift base) =
      ((p.draft input d depth s).1, (p.draft input d depth s).2.moved shift base) := by
  induction p generalizing F depth s base with
  | done a => rfl
  | andThen p next ihp ihn =>
    have first := ihp base safe.1 (mirrors.back _ _ (le_draft input hd _ depth _) h)
    simp only [draft, first]
    exact ihn _ base safe.2 h
  | nth n => exact congrArg (·, s.moved shift base) (mirrors.kind s.pos n.val h safe)
  | isAhead n k => exact congrArg (·, s.moved shift base) (mirrors.isAt s.pos n k h safe)
  | eat k =>
    have start : here s.pos := mirrors.back _ _ (le_draft input hd (.eat k) depth s) h
    have same := mirrors.isAt s.pos 0 k start (Input.open_zero _)
    simp only [Nat.add_zero] at same
    simp only [draft, Frame.moved_pos, same]
    split
    · rw [Frame.moved_take]
    · rfl
  | bumpAny =>
    have start : here s.pos := mirrors.back _ _ (le_draft input hd .bumpAny depth s) h
    have same := mirrors.kind s.pos 0 start (Input.open_zero _)
    simp only [Nat.add_zero] at same
    simp only [draft, Frame.moved_pos, same]
    split
    · rfl
    · rw [Frame.moved_take]
  | error cause => rfl
  | fault what => exact absurd safe id
  | enclose body kind ih =>
    have pos : (Parser.draft input d (.enclose body kind) depth s).2.pos =
        (body.draft input d depth s.opened).2.pos := by
      simp only [draft]
      split <;> rfl
    have inside := ih [] safe.1 (pos ▸ h)
    simp only [draft, Frame.moved_opened, inside]
    split
    · rw [Frame.moved_close]
    · rw [Frame.moved_spill]
  | wrap body ih =>
    have ends' := Frame.endsInNode_moved shift base safe.1
    simp only [draft, Frame.pos_closeAround, Frame.openedAround_of_endsInNode safe.1] at h
    have inside := ih [] safe.2.1 h
    simp only [draft, Frame.openedAround_of_endsInNode ends', Frame.openedAround_of_endsInNode safe.1,
      Frame.moved_opened, inside, Frame.moved_closeAround shift base safe.1]
  | deeper inner atLimit ihi iha =>
    obtain ⟨-, inAllowed, safe⟩ := safe
    simp only [draft, ← cut depth inAllowed] at h ⊢
    split at safe
    · next limit =>
      rw [if_pos limit] at h ⊢
      rw [if_pos limit]
      exact iha base safe h
    · next below =>
      rw [if_neg below] at h ⊢
      rw [if_neg below, Nat.add_right_comm]
      exact ihi base safe h
  | loop a body ih =>
    have start : here s.pos := mirrors.back _ _ (le_draft input hd (.loop a body) depth s) h
    have room := mirrors.room s.pos start
    simp only [draft, Frame.moved_pos] at h ⊢
    refine iterate_moved mirrors.back (fun a s => le_draft input hd (body a) depth s) (fun s => ?_)
      (fun a s safe h => ih a base safe h) (by omega) safe h
    exact Nat.le_refl s.pos
  | watch body ih =>
    have inside := ih base safe h
    simp only [draft, inside, Frame.moved_pos]
    congr 2
    rw [bne, bne]
    congr 1
    exact Bool.eq_iff_iff.mpr (by simp)
  | call r => exact echoes.rule r F depth s base safe h
  | list f => exact congrArg (((), ·)) (echoes.list f depth s base safe h)

theorem echoes_drafters (mirrors : Mirrors input input' shift here)
    (cut : ∀ n, allowed n → (nestingLimit ≤ n ↔ nestingLimit ≤ n + lower)) {levels levels' : Nat}
    (le : levels ≤ levels') :
    Echoes (drafters input levels) (drafters input' levels') (guards input allowed levels) shift lower
      here := by
  induction levels generalizing levels' with
  | zero => exact ⟨fun _ _ _ _ _ h => absurd h id, fun _ _ _ _ h => absurd h id⟩
  | succ levels ih =>
    obtain ⟨levels', rfl⟩ : ∃ n, levels' = n + 1 := ⟨levels' - 1, by omega⟩
    have below := @ih levels' (by omega)
    have forward := forward_drafters input levels
    refine ⟨fun r F depth s base safe h => draft_moved mirrors cut forward below r.body base safe h,
      fun f depth s base safe h => ?_⟩
    have inside := draft_moved mirrors cut forward below f.body [] safe.2 h
    simp only [drafters, node, draft, Frame.moved_opened, inside, Frame.moved_close]

end

end Verbatim.Parser
