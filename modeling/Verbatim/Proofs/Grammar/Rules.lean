import Verbatim.Parser.Rules
import Verbatim.Proofs.Recovery

/-!
# Names and paths run safely
-/
namespace Verbatim

/-- Whether a path starts at a place. -/
def Input.atPath (input : Input) (i : Nat) : Bool :=
  Parser.segmentFirst.contains (input.kind i) || input.isAt i .colon2

namespace Parser.Site

variable {c : Site}

theorem nameRefFirst_of_segmentFirst {k : Kind} (h : segmentFirst.contains k = true) :
    nameRefFirst.contains k = true := by
  revert h
  cases k <;> decide

theorem not_barrier_of_nameRefFirst {k : Kind} (h : nameRefFirst.contains k = true) :
    k.isBarrier = false := by
  revert h
  cases k <;> decide

/-- A node of a kind around the next token, whatever that is. -/
theorem From.nodeAny {k : Kind} {s : Spot} (hk : k.IsPlain)
    (hb : (c.input.kind s.pos).isBarrier = false) :
    c.From (Parser.node k Parser.bumpAny) s fun _ t => t.pos = s.pos + 1 := by
  refine .node hk (.bumpAny (fun _ h => ?_) (fun h => ?_) rfl)
  all_goals
    change c.input.kind s.pos = _ at h
    simp [h, Kind.isBarrier] at hb

theorem From.nameOr (recovery : KindSet) (s : Spot) : c.From (nameOr recovery) s fun _ t =>
    c.input.kind s.pos = .ident → t.pos = s.pos + 1 := by
  refine (Tells.isAt .ident s).bind ((Tells.isAt .selfKw s).bind ?_)
  rw [Input.isAt_simple (k := .ident) rfl, Input.isAt_simple (k := .selfKw) rfl]
  split
  · next h =>
    have word : (c.input.kind s.pos).isBarrier = false := by
      rw [Bool.or_eq_true, beq_iff_eq, beq_iff_eq] at h
      rcases h with h | h <;> rw [h] <;> rfl
    exact (From.nodeAny (by decide) word).imp fun _ _ _ ht _ => ht
  · next h => exact (calm_recover _ _ s).imp fun _ _ _ _ ident => absurd (by simp [ident]) h

theorem calm_nameOr (recovery : KindSet) : c.Calm (nameOr recovery) :=
  fun s => (From.nameOr recovery s).imp fun _ _ _ _ => trivial

theorem calm_name : c.Calm name := calm_nameOr .empty

theorem From.nameRef (s : Spot) : c.From nameRef s fun _ t =>
    nameRefFirst.contains (c.input.kind s.pos) = true → t.pos = s.pos + 1 := by
  refine (Tells.isAtAny nameRefFirst s).bind ?_
  split
  · next h => exact (From.nodeAny (by decide) (not_barrier_of_nameRefFirst h)).imp fun _ _ _ ht _ => ht
  · next h => exact (calm_skipOne _ s).imp fun _ _ _ _ h' => absurd h' h

theorem calm_nameRef : c.Calm nameRef := fun s => (From.nameRef s).imp fun _ _ _ _ => trivial

theorem takes_lifetime : c.Takes .lifetimeIdent lifetime := (takes_bump (by decide)).node (by decide)

theorem Tells.atPath (s : Spot) : c.Tells atPath s (c.input.atPath s.pos) :=
  (Tells.isAtAny _ s).andThen ((Tells.isAt _ s).andThen (.pure _ s))

/-- The first segment of a path takes a token where the path starts. -/
theorem From.pathSegment {arguments : Parser Unit} (ha : c.opened.Fine arguments) (isFirst : Bool)
    (s : Spot) : c.From (pathSegment arguments isFirst) s fun _ t =>
      isFirst = true → c.input.atPath s.pos = true → s.pos < t.pos := by
  refine .node (by decide) (From.bind (M := fun _ t => isFirst = true → t.pos = s.pos →
    c.input.isAt s.pos .colon2 = false) ?_ fun _ t ht hcolon => ?_)
  · refine .when (Tells.pure isFirst _).from (fun t _ ht => ?_) fun t ht hf => ?_
    · obtain ⟨-, rfl⟩ := ht
      refine .discard (.eat (by decide) (by decide) (fun _ _ h => ?_) fun h _ _ => h)
      have := Kind.colon2.length_pieces_pos
      simp only at h
      omega
    · simp [← ht.1] at hf
  refine (Tells.isAtAny segmentFirst t).bind ?_
  have le := ht.le
  split
  · next h =>
    intro room
    refine (From.nameRef t).bind (fun _ u hu next => ?_) room
    have next : u.pos = t.pos + 1 := next (nameRefFirst_of_segmentFirst h)
    refine (ha u (by omega)).imp fun _ v hv _ _ _ => ?_
    have := hv.le
    simp only at le ⊢
    omega
  · next h =>
    refine (calm_recover _ _ t).imp fun _ u hu _ first atp => ?_
    have := hu.le
    by_cases same : t.pos = s.pos
    · rw [Input.atPath, hcolon first same, Bool.or_false] at atp
      rw [same] at h
      exact absurd atp h
    · simp only at le ⊢
      omega

/-- A path ends in a node, and takes a token where one starts. -/
theorem From.pathWith {arguments : Parser Unit} {stops : Parser Bool}
    (ha : c.opened.Fine arguments)
    (hs : ∀ t : Spot, c.input.isAt t.pos .colon2 = true → ∃ b, c.Tells stops t b) (s : Spot) :
    c.From (pathWith arguments stops) s fun _ t =>
      t.ready = true ∧ (c.input.atPath s.pos = true → s.pos < t.pos) := by
  refine From.bind (M := fun _ t => t.ready = true ∧ (c.input.atPath s.pos = true → s.pos < t.pos))
    (.discard (.nodeOf ((From.pathSegment (c := c.opened) ha true _).bind fun _ t _ ht =>
      .pure ⟨.of_plain (by decide), rfl, ht rfl⟩))) fun _ t _ ht => ?_
  refine .while (fun u => u.ready = true ∧ t.pos ≤ u.pos) ⟨ht.1, Nat.le_refl _⟩ fun u hu inv => ?_
  refine (Tells.isAt .colon2 u).bind ?_
  have done : c.From (Pure.pure false) u fun more v => if more = true then
      u.pos < v.pos ∧ v.ready = true ∧ t.pos ≤ v.pos
      else v.ready = true ∧ (c.input.atPath s.pos = true → s.pos < v.pos) :=
    .pure ⟨inv.1, fun h => Nat.lt_of_lt_of_le (ht.2 h) inv.2⟩
  split
  · exact done
  · next hc =>
    have hc' : c.input.isAt u.pos .colon2 = true := by simpa using hc
    obtain ⟨b, stop⟩ := hs u hc'
    refine stop.bind ?_
    split
    · exact done
    refine From.bind (M := fun _ v => v.ready = true ∧ u.pos < v.pos) ?_ fun _ v _ hv =>
      .pure ⟨hv.2, hv.1, Nat.le_of_lt (Nat.lt_of_le_of_lt inv.2 hv.2)⟩
    refine .discard (.wrap inv.1 ?_)
    refine From.bind (.bump (by decide) (by decide) (show c.opened.input.isAt u.pos _ = true from hc')
      (R := fun _ v => u.pos < v.pos) (Nat.lt_add_of_pos_right Kind.colon2.length_pieces_pos))
      fun _ v _ hv => ?_
    refine (From.pathSegment (c := c.opened) ha false v).bind fun _ w hw _ => .pure ⟨by decide, rfl, ?_⟩
    exact Nat.lt_of_lt_of_le hv hw.le

theorem calm_usePath : c.Calm usePath := by
  intro s
  refine (From.pathWith (Calm.pure ()).fine (fun t ht => ?_) s).imp fun _ _ _ _ => trivial
  have ahead : c.input.Open t.pos (2 : Fin 4).val := Input.open_of_isAt (k := .colon2) rfl ht
  generalize hk : c.input.kind (t.pos + (2 : Fin 4).val) = k
  have tells := Tells.nth ahead
  rw [hk] at tells
  cases k <;> exact ⟨_, tells.andThen (.pure _ t)⟩

/-- A single word that no `::` follows is all of a path. -/
theorem From.usePath_word {s : Spot} (hw : segmentFirst.contains (c.input.kind s.pos) = true)
    (hn : c.input.kind (s.pos + 1) ≠ .colon) : c.From usePath s fun _ t => t.pos = s.pos + 1 := by
  have no_colon {i : Nat} (h : c.input.kind i ≠ .colon) : c.input.isAt i .colon2 = false := by
    rw [← Bool.not_eq_true]
    exact fun hat => h (Input.head_of_isAt hat)
  have word : c.input.kind s.pos ≠ .colon := by
    intro h
    rw [h] at hw
    exact absurd hw (by decide)
  have segment : c.opened.From (Parser.pathSegment (Pure.pure ()) true) ⟨s.pos, false⟩ fun _ t =>
      t.pos = s.pos + 1 := by
    refine .node (by decide) (From.bind (M := fun _ t => t.pos = s.pos) ?_ fun _ t _ ht => ?_)
    · refine .when (Tells.pure true _).from (fun t _ ht => ?_) fun t ht => by simp at ht
      obtain ⟨-, rfl⟩ := ht
      refine .discard (.eat (by decide) (by decide) (fun h => ?_) fun _ => rfl)
      exact absurd h (by simpa using no_colon word)
    · refine (Tells.isAtAny segmentFirst t).bind ?_
      rw [if_pos (by rw [show t.pos = s.pos from ht]; exact hw)]
      refine (From.nameRef t).bind fun _ u _ next => .pure ?_
      rw [← show t.pos = s.pos from ht]
      exact next (nameRefFirst_of_segmentFirst (by rw [show t.pos = s.pos from ht]; exact hw))
  refine From.bind (M := fun _ t => t.pos = s.pos + 1)
    (.discard (.nodeOf (segment.bind fun _ t _ ht => .pure ⟨.of_plain (by decide), ht⟩))) fun _ t _ ht => ?_
  refine .while (fun u => u = t) rfl fun u _ hu => ?_
  subst hu
  refine (Tells.isAt .colon2 u).bind ?_
  rw [show u.pos = s.pos + 1 from ht, no_colon hn]
  exact .pure ht

/-- A restricted visibility names one of three words in parentheses. -/
theorem Tells.atScope (s : Spot) : ∃ b, c.Tells atScope s b ∧ (b = true →
    c.input.kind s.pos = .leftParen ∧ segmentFirst.contains (c.input.kind (s.pos + 1)) = true ∧
      c.input.kind (s.pos + 2) = .rightParen) := by
  by_cases hp : c.input.kind s.pos = .leftParen
  · have ahead : c.input.Open s.pos 1 := fun m hm => by
      obtain rfl : m = 0 := by omega
      simp [hp, Kind.isStop]
    have second (h : (c.input.kind (s.pos + 1)).isStop = false) :
        c.input.Open s.pos (2 : Fin 4).val := fun m hm => by
      obtain rfl | rfl : m = 0 ∨ m = 1 := by
        simp at hm
        omega
      · simp [hp, Kind.isStop]
      · exact h
    have tells := Tells.nth (c := c) (n := 1) (s := s) ahead
    by_cases hw : c.input.kind (s.pos + 1) ∈ [Kind.crateKw, .superKw, .selfKw]
    · refine ⟨c.input.kind (s.pos + 2) == .rightParen, (Tells.isAt .leftParen s).andThen ?_,
        fun hr => ⟨hp, ?_, by simpa using hr⟩⟩
      · rw [Input.isAt_simple (k := .leftParen) rfl, beq_iff_eq.mpr hp]
        refine tells.andThen ?_
        generalize c.input.kind (s.pos + 1) = k at hw second
        simp only [List.mem_cons, List.not_mem_nil, or_false] at hw
        rcases hw with rfl | rfl | rfl <;> exact .isNth (second rfl)
      · generalize c.input.kind (s.pos + 1) = k at hw
        simp only [List.mem_cons, List.not_mem_nil, or_false] at hw
        rcases hw with rfl | rfl | rfl <;> decide
    · refine ⟨false, (Tells.isAt .leftParen s).andThen ?_, fun h => absurd h Bool.false_ne_true⟩
      rw [Input.isAt_simple (k := .leftParen) rfl, beq_iff_eq.mpr hp]
      refine tells.andThen ?_
      generalize c.input.kind (s.pos + 1) = k at hw
      cases k with
      | crateKw | superKw | selfKw => simp at hw
      | _ => exact .pure false s
  · refine ⟨false, (Tells.isAt .leftParen s).andThen ?_, fun h => absurd h Bool.false_ne_true⟩
    rw [Input.isAt_simple (k := .leftParen) rfl, beq_eq_false_iff_ne.mpr hp]
    exact .pure false s

/-- A visibility, if one is there; else nothing is touched. -/
theorem From.visibility? (s : Spot) : c.From visibility? s fun found t =>
    if c.input.kind s.pos = .pubKw then found = true ∧ s.pos < t.pos else found = false ∧ t = s := by
  refine (Tells.isAt .pubKw s).bind ?_
  rw [Input.isAt_simple (k := .pubKw) rfl]
  by_cases hk : c.input.kind s.pos = .pubKw
  · simp only [hk, beq_self_eq_true, Bool.not_true, Bool.false_eq_true, if_false, if_true]
    refine From.bind (M := fun _ t => s.pos < t.pos) (.node (by decide) ?_) fun _ t _ ht => .pure ⟨rfl, ht⟩
    refine From.bind (M := fun _ t => t.pos = s.pos + 1) (.bump (by decide) (by decide) ?_ rfl)
      fun _ t _ ht => ?_
    · exact Input.isAt_of_kind hk rfl
    have ht : t.pos = s.pos + 1 := ht
    obtain ⟨b, tells, scope⟩ := Tells.atScope (c := c.opened) t
    refine .when tells.from (fun u _ hu => ?_) fun u hu => ?_
    rotate_left
    · obtain ⟨-, rfl⟩ := hu
      exact ht ▸ Nat.lt_succ_self _
    obtain ⟨hb, rfl⟩ := hu
    obtain ⟨open_, word, close⟩ := scope hb.symm
    refine From.bind (M := fun _ v => v.pos = u.pos + 1) (.bump (by decide) (by decide) ?_ rfl)
      fun _ v _ hv => ?_
    · exact Input.isAt_of_kind open_ rfl
    have hv : v.pos = u.pos + 1 := hv
    refine From.bind (From.usePath_word (c := c.opened) (by rw [hv]; exact word) ?_) fun _ w _ hw => ?_
    · rw [hv, close]
      decide
    have hw : w.pos = v.pos + 1 := hw
    refine (takes_bump (c := c.opened) (k := .rightParen) (by decide) w ?_).imp
      fun _ x _ hx => ?_
    · exact Input.isAt_of_kind (by rw [hw, hv]; exact close) rfl
    · show s.pos < x.pos
      omega
  · simp only [beq_eq_false_iff_ne.mpr hk, Bool.not_false, if_true, if_neg hk]
    exact .pure ⟨rfl, rfl⟩

end Parser.Site

end Verbatim
