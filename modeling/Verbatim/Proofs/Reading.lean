import Verbatim.Proofs.Input
import Verbatim.Proofs.Joints
import Verbatim.Proofs.Lexing

/-!
# What the parser sees of tokens

Blanks and comments are not seen. What is glued together in front of some tokens stands at their very
front, without anything in between.
-/
namespace Verbatim.Input

variable {input : Input} {t : Token} {ts : List Token}

theorem ofTokens_end (h : t.kind = .eof) : ofTokens (t :: ts) = ⟨#[], #[]⟩ := by
  simp [ofTokens, see, h]

theorem ofTokens_trivia (h : t.isTrivia = true) : ofTokens (t :: ts) = ofTokens ts := by
  have more : t.kind ≠ .eof := fun he => by simp [Token.isTrivia, he, Kind.isTrivia] at h
  simp [ofTokens, see, more, h]

theorem kinds_ofTokens (ts : List Token) :
    (ofTokens ts).kinds.toList = (significant (ts.takeWhile (·.kind != .eof))).map (·.1) :=
  (holds_ofTokens ts).kinds

theorem isJoint_ofTokens (ts : List Token) (i : Nat) :
    (ofTokens ts).isJoint i = (significant (ts.takeWhile (·.kind != .eof)))[i]?.any (·.2) :=
  (holds_ofTokens ts).joint i

theorem ofTokens_seen (h : t.isTrivia = false) (he : t.kind ≠ .eof) (ts : List Token) :
    (ofTokens (t :: ts)).kinds.toList = t.kind :: (ofTokens ts).kinds.toList ∧
      (ofTokens (t :: ts)).isJoint 0 = seenFirst ts ∧
      ∀ i, (ofTokens (t :: ts)).isJoint (i + 1) = (ofTokens ts).isJoint i := by
  simp [kinds_ofTokens, isJoint_ofTokens, he, significant, h, seenFirst]

theorem kind_eq_getElem? (input : Input) (i : Nat) : input.kind i = input.kinds.toList[i]?.getD .eof := by
  simp [kind, Array.getD_eq_getD_getElem?]

/-- The tokens are what is left of the input from place `i` on. -/
structure Aligned (input : Input) (ts : List Token) (i : Nat) : Prop where
  kind : ∀ m, (ofTokens ts).kind m = input.kind (i + m)
  joint : ∀ m, (ofTokens ts).isJoint m = input.isJoint (i + m)

theorem aligned_start (ts : List Token) : (ofTokens ts).Aligned ts 0 :=
  ⟨fun m => by rw [Nat.zero_add], fun m => by rw [Nat.zero_add]⟩

theorem Aligned.skip {i : Nat} (h : input.Aligned (t :: ts) i) (ht : t.isTrivia = true) :
    input.Aligned ts i := by
  obtain ⟨kind, joint⟩ := h
  rw [ofTokens_trivia ht] at kind joint
  exact ⟨kind, joint⟩

theorem Aligned.step {i : Nat} (h : input.Aligned (t :: ts) i) (ht : t.isTrivia = false)
    (he : t.kind ≠ .eof) : input.Aligned ts (i + 1) := by
  obtain ⟨kinds, -, joints⟩ := ofTokens_seen ht he ts
  refine ⟨fun m => ?_, fun m => ?_⟩
  · have := h.kind (m + 1)
    rw [kind_eq_getElem?, kinds, List.getElem?_cons_succ, ← kind_eq_getElem?] at this
    rw [this, Nat.add_assoc, Nat.add_comm 1]
  · have := h.joint (m + 1)
    rw [joints] at this
    rw [this, Nat.add_assoc, Nat.add_comm 1]

/-- The token that is seen next. -/
theorem Aligned.kind_head {i : Nat} (h : input.Aligned (t :: ts) i) (ht : t.isTrivia = false) :
    input.kind i = t.kind := by
  have first := h.kind 0
  rw [Nat.add_zero] at first
  rw [← first]
  by_cases he : t.kind = .eof
  · rw [ofTokens_end he, he]
    rfl
  · rw [kind_eq_getElem?, (ofTokens_seen ht he ts).1]
    rfl

theorem Aligned.joint_head {i : Nat} (h : input.Aligned (t :: ts) i) (ht : t.isTrivia = false)
    (he : t.kind ≠ .eof) : input.isJoint i = seenFirst ts := by
  have first := h.joint 0
  rw [Nat.add_zero] at first
  rw [← first, (ofTokens_seen ht he ts).2.1]

theorem Aligned.nil {i : Nat} (h : input.Aligned [] i) : input.kind i = .eof := by
  have := h.kind 0
  rw [Nat.add_zero] at this
  rw [← this]
  rfl

theorem Aligned.dropTrivia {ts : List Token} {i : Nat} (h : input.Aligned ts i) :
    input.Aligned (ts.dropWhile (·.isTrivia)) i := by
  induction ts with
  | nil => exact h
  | cons t ts ih =>
    by_cases ht : t.isTrivia = true
    · rw [List.dropWhile_cons_of_pos ht]
      exact ih (h.skip ht)
    · rwa [List.dropWhile_cons_of_neg ht]

/-- What is glued together in the input stands at the front of the tokens that are left. -/
theorem Aligned.glued {ks : List Kind} {ts : List Token} {i : Nat} (h : input.Aligned ts i)
    (hs : ts.takeWhile (·.isTrivia) = []) (hk : ∀ k ∈ ks, k ≠ .eof)
    (glued : input.glued i ks = true) : ∃ taken rest, ts = taken ++ rest ∧
      taken.map (·.kind) = ks ∧ input.Aligned rest (i + ks.length) ∧
        ∀ t ∈ taken, t.isTrivia = false := by
  induction ks generalizing ts i with
  | nil => exact ⟨[], ts, rfl, rfl, h, by simp⟩
  | cons k ks ih =>
    have first : input.kind i = k := by
      cases ks <;> simp_all [Input.glued]
    cases ts with
    | nil =>
      rw [h.nil] at first
      exact absurd first.symm (hk k List.mem_cons_self)
    | cons t ts =>
      have seen : t.isTrivia = false := by
        rw [← Bool.not_eq_true]
        intro ht
        simp [ht] at hs
      rw [h.kind_head seen] at first
      have more : t.kind ≠ .eof := first ▸ hk k List.mem_cons_self
      have rest := h.step seen more
      cases ks with
      | nil => exact ⟨[t], ts, rfl, by simp [first], rest, by simpa using seen⟩
      | cons k' ks =>
        simp only [Input.glued, Bool.and_eq_true] at glued
        have next := h.joint_head seen more
        rw [glued.1.2] at next
        have stops : ts.takeWhile (·.isTrivia) = [] := by
          cases ts with
          | nil => rfl
          | cons t' ts =>
            by_cases he : t'.kind = .eof
            · simp [seenFirst, he] at next
            · have : t'.isTrivia = false := by simpa [seenFirst, he] using next.symm
              simp [this]
        obtain ⟨taken, left, rfl, kinds, aligned, visible⟩ :=
          ih rest stops (fun k hk' => hk k (List.mem_cons_of_mem _ hk')) glued.2
        refine ⟨t :: taken, left, rfl, by simp [first, kinds], ?_, List.forall_mem_cons.mpr
          ⟨seen, visible⟩⟩
        rwa [List.length_cons, Nat.add_comm _ 1, ← Nat.add_assoc]

/-! ## The tokens of a text -/

theorem map_significant (ts : List Token) :
    (significant ts).map (·.1) = (ts.filter (!·.isTrivia)).map (·.kind) := by
  induction ts with
  | nil => rfl
  | cons t ts ih =>
    by_cases h : t.isTrivia = true
    · simpa [significant, h] using ih
    · simpa [significant, h] using ih

/-- The tokens of a text in front of the end. -/
theorem takeWhile_listFrom (offset : Nat) (t : Text) : ∃ ts,
    Token.listFrom offset t = ts ++ [⟨.eof, [], offset + t.size, none⟩] ∧ Token.InRow offset ts ∧
      ts.flatMap (·.text) = t ∧ (Token.listFrom offset t).takeWhile (·.kind != .eof) = ts := by
  obtain ⟨ts, row, inRow, spells⟩ := Token.listFrom_inRow offset t
  refine ⟨ts, row, inRow, spells, ?_⟩
  have no_end : ∀ t ∈ ts, (t.kind != .eof) = true := by
    clear row spells
    induction ts generalizing offset with
    | nil => simp
    | cons t ts ih =>
      obtain ⟨-, -, spelled, rest⟩ := inRow
      rintro t' (_ | ⟨_, h⟩)
      · simpa using spelled.no_end
      · exact ih _ rest t' h
  rw [row, List.takeWhile_append_of_pos no_end]
  simp

theorem spelled_of_inRow {offset : Nat} {ts : List Token} (h : Token.InRow offset ts) :
    ∀ t ∈ ts, Token.Spelled t.kind t.text := by
  induction ts generalizing offset with
  | nil => simp
  | cons t ts ih =>
    rintro t' (_ | ⟨_, ht⟩)
    · exact h.2.2.1
    · exact ih h.2.2.2 t' ht

/-- The parser sees the kinds of single tokens only, and the end only where there are no more. -/
theorem kind_ofTokens_list (t : Text) (i : Nat) : ((ofTokens (Token.list t)).kind i).IsSimple ∧
    ((ofTokens (Token.list t)).kind i = .eof → (ofTokens (Token.list t)).length ≤ i) := by
  obtain ⟨ts, row, inRow, -, front⟩ := takeWhile_listFrom 0 t
  have kinds : (ofTokens (Token.list t)).kinds.toList = (ts.filter (!·.isTrivia)).map (·.kind) := by
    rw [← map_significant, kinds_ofTokens, show (Token.list t).takeWhile _ = ts from front]
  rw [kind_eq_getElem?, kinds]
  cases h : ((ts.filter (!·.isTrivia)).map (·.kind))[i]? with
  | none =>
    refine ⟨rfl, fun _ => ?_⟩
    rw [length, ← Array.length_toList, kinds]
    exact List.getElem?_eq_none_iff.mp h
  | some k =>
    obtain ⟨t', ht, rfl⟩ := List.mem_map.mp (List.mem_of_getElem? h)
    have spelled := spelled_of_inRow inRow t' (List.mem_filter.mp ht).1
    exact ⟨spelled.simple, fun he => absurd he spelled.no_end⟩

theorem length_ofTokens_list (t : Text) :
    (ofTokens (Token.list t)).length + 1 = (Token.list t).countP (!·.isTrivia) := by
  obtain ⟨ts, row, -, -, front⟩ := takeWhile_listFrom 0 t
  have kinds : (ofTokens (Token.list t)).kinds.toList = (ts.filter (!·.isTrivia)).map (·.kind) := by
    rw [← map_significant, kinds_ofTokens, show (Token.list t).takeWhile _ = ts from front]
  rw [length, ← Array.length_toList, kinds, List.length_map, ← List.countP_eq_length_filter,
    show Token.list t = _ from row, List.countP_append]
  rfl

end Verbatim.Input
