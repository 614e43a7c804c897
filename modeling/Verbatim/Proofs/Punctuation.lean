import Verbatim.Proofs.Blocks
import Verbatim.Proofs.Lookahead

/-!
# Composite punctuation

The parser finds a composite token exactly where its characters are written with nothing in between, and takes
as many tokens as it has characters. It looks at kinds and bits only; that these tell the characters and the
places of the tokens is shown here.
-/
namespace Verbatim

namespace Token

/-- Behind `i` tokens that are no trivia, the characters of `s` stand in a row, each of them a token. -/
def Written (ts : List Token) (i : Nat) (s : Text) : Prop :=
  ∃ front row back, ts = front ++ row ++ back ∧ significant front = i ∧ row.map (·.text) = s.map fun c => [c]

/-- Two tokens touch where the second starts at the end of the first. -/
theorem touching_iff (ts : List Token) (i : Nat) : (touching ts)[i]?.getD false = true ↔
    ∃ a b, ts[i]? = some a ∧ ts[i + 1]? = some b ∧ a.span.stop = b.offset := by
  induction ts generalizing i with
  | nil => simp [touching]
  | cons t ts ih =>
    cases i with
    | zero => cases ts <;> simp [touching]
    | succ i => simpa [touching] using ih i

theorem spelled_of_mem {t : Text} {tok : Token} (h : tok ∈ list t) (more : tok.kind ≠ .eof) :
    Spelled tok.kind tok.text := by
  obtain ⟨c, u, kind, text, -⟩ := scan_of_mem h more
  rw [kind, text]
  exact spelled_scan c u

/-- The end of a text is empty. -/
theorem no_end_of_text {t : Text} {tok : Token} (h : tok ∈ list t) (text : tok.text ≠ []) : tok.kind ≠ .eof := by
  obtain ⟨ts, row, inRow, -⟩ := listFrom_inRow 0 t
  rw [list, row, List.mem_append, List.mem_singleton] at h
  rcases h with inside | rfl
  · exact (Input.spelled_of_inRow inRow tok inside).no_end
  · exact absurd rfl text

/-- The kind of a token of one character is told by that character. -/
theorem kind_of_character {t : Text} {tok : Token} {c : Char} (h : tok ∈ list t) (text : tok.text = [c]) :
    tok.kind = (scan c []).1 := by
  obtain ⟨c', u, kind, text', -⟩ := scan_of_mem h (no_end_of_text h (text ▸ List.cons_ne_nil c []))
  obtain ⟨rfl, nothing⟩ := List.cons.inj (text.symm.trans text')
  have alone := settled_scan c u [] (.inl rfl)
  rw [← nothing] at alone
  rw [kind, show scan c [] = _ from alone]

theorem kinds_of_characters {t : Text} {row : List Token} (listed : ∀ x ∈ row, x ∈ list t) {cs : Text}
    (texts : row.map (·.text) = cs.map fun c => [c]) : row.map (·.kind) = cs.map fun c => (scan c []).1 := by
  induction row generalizing cs with
  | nil =>
    obtain rfl := List.map_eq_nil_iff.mp texts.symm
    rfl
  | cons x row ih =>
    cases cs with
    | nil => cases texts
    | cons c cs =>
      obtain ⟨text, texts⟩ := List.cons.inj texts
      rw [List.map_cons, List.map_cons, kind_of_character (listed x List.mem_cons_self) text,
        ih (fun y hy => listed y (List.mem_cons_of_mem x hy)) texts]

/-- The characters of a composite token are tokens of its pieces. -/
theorem scan_composite {k : Kind} (composite : k.isComposite = true) :
    ∃ s, k.spelling? = some s ∧ s.toList.map (fun c => (scan c []).1) = k.pieces := by
  cases k <;> first | exact absurd composite (by decide) | exact ⟨_, rfl, by decide +kernel⟩

/-- Pieces of a composite token are no trivia and not the end. -/
theorem seen_of_piece {k : Kind} (composite : k.isComposite = true) :
    ∀ b ∈ k.pieces, b.isTrivia = false ∧ b ≠ .eof := by
  cases k <;> first | exact absurd composite (by decide) | decide

/-- Tokens of the pieces of a composite token are the characters it is spelled with. -/
theorem texts_of_pieces {t : Text} {row : List Token} (listed : ∀ x ∈ row, x ∈ list t) {k : Kind} {s : String}
    (composite : k.isComposite = true) (spells : k.spelling? = some s) (kinds : row.map (·.kind) = k.pieces) :
    row.map (·.text) = s.toList.map fun c => [c] := by
  obtain ⟨s', spells', characters⟩ := Kind.spelling_of_composite composite
  obtain rfl := Option.some.inj (spells'.symm.trans spells)
  have texts : row.map (fun x => x.kind.spelling?.map String.toList) = row.map fun x => some x.text := by
    refine List.map_congr_left fun x hx => ?_
    have piece : x.kind ∈ k.pieces := kinds ▸ List.mem_map_of_mem hx
    obtain ⟨c, -, written⟩ := List.mem_map.mp (characters ▸ List.mem_map_of_mem piece)
    obtain ⟨w, spelling, -⟩ := Option.map_eq_some_iff.mp written.symm
    have spelled := spelled_of_mem (listed x hx) (seen_of_piece composite _ piece).2
    rw [spelling, spelled.spelling w spelling]
    rfl
  rw [← kinds, List.map_map] at characters
  refine List.map_injective_iff.mpr (Option.some_injective Text) ?_
  rw [List.map_map, List.map_map]
  exact texts.symm.trans characters

end Token

namespace Input

variable {input : Input}

/-- A place that is not behind the end is reached with some of the tokens left. -/
theorem Aligned.reaches {ts : List Token} {i n : Nat} (h : input.Aligned ts i) (inside : input.kind (i + n) ≠ .eof) :
    ∃ front rest, ts = front ++ rest ∧ Token.significant front = n ∧ rest.takeWhile (·.isTrivia) = [] ∧
      input.Aligned rest (i + n) := by
  induction ts generalizing i n with
  | nil =>
    rw [← h.kind] at inside
    exact absurd rfl inside
  | cons t ts ih =>
    by_cases trivia : t.isTrivia = true
    · obtain ⟨front, rest, rfl, count, starts, aligned⟩ := ih (h.skip trivia) inside
      refine ⟨t :: front, rest, rfl, ?_, starts, aligned⟩
      rw [Token.significant, List.countP_cons_of_neg (by simpa using trivia)]
      exact count
    · rw [Bool.not_eq_true] at trivia
      cases n with
      | zero => exact ⟨[], t :: ts, rfl, rfl, by simp [trivia], h⟩
      | succ n =>
        have more : t.kind ≠ .eof := fun ends => by
          rw [← h.kind, ofTokens_end ends] at inside
          exact inside rfl
        rw [Nat.add_comm n, ← Nat.add_assoc] at inside ⊢
        obtain ⟨front, rest, rfl, count, starts, aligned⟩ := ih (h.step trivia more) inside
        refine ⟨t :: front, rest, rfl, ?_, starts, aligned⟩
        rw [Token.significant, List.countP_cons_of_pos (by simp [trivia]), Nat.add_comm]
        exact congrArg (1 + ·) count

/-- Tokens in a row, none of them trivia, are glued together. -/
theorem Aligned.glued_row {row back : List Token} {i : Nat} (h : input.Aligned (row ++ back) i)
    (seen : ∀ t ∈ row, t.isTrivia = false ∧ t.kind ≠ .eof) : Input.glued input i (row.map (·.kind)) = true := by
  induction row generalizing i with
  | nil => rfl
  | cons t row ih =>
    obtain ⟨visible, more⟩ := seen t List.mem_cons_self
    have later := fun x hx => seen x (List.mem_cons_of_mem t hx)
    have here : input.kind i = t.kind := h.kind_head visible
    cases row with
    | nil => simp [Input.glued, here]
    | cons next row =>
      obtain ⟨visible', more'⟩ := seen next (List.mem_cons_of_mem t List.mem_cons_self)
      have joint : input.isJoint i = true := by
        rw [h.joint_head visible more]
        simp [seenFirst, visible', more']
      have rest := ih (h.step visible more) later
      simp only [List.map_cons] at rest
      simp [Input.glued, here, joint, rest]

/-- A composite token is at a place of a text if and only if its characters are written there in a row. -/
theorem isAt_list_iff (t : Text) {k : Kind} {s : String} (composite : k.isComposite = true)
    (spells : k.spelling? = some s) (i : Nat) :
    (ofTokens (Token.list t)).isAt i k = true ↔ Token.Written (Token.list t) i s.toList := by
  have seen := Token.seen_of_piece composite
  constructor
  · intro at_k
    have inside : (ofTokens (Token.list t)).kind (0 + i) ≠ .eof := by
      rw [Nat.zero_add, head_of_isAt at_k]
      exact (seen _ (List.head_mem _)).2
    obtain ⟨front, rest, parts, count, starts, aligned⟩ := (aligned_start (Token.list t)).reaches inside
    rw [Nat.zero_add] at aligned
    obtain ⟨row, back, rfl, kinds, -, -⟩ := aligned.glued starts (fun b hb => (seen b hb).2) at_k
    rw [← List.append_assoc] at parts
    have listed : ∀ x ∈ row, x ∈ Token.list t := fun x hx =>
      parts ▸ List.mem_append_left _ (List.mem_append_right _ hx)
    exact ⟨front, row, back, parts, count, Token.texts_of_pieces listed composite spells kinds⟩
  · rintro ⟨front, row, back, parts, count, texts⟩
    obtain ⟨s', spells', pieces⟩ := Token.scan_composite composite
    obtain rfl := Option.some.inj (spells'.symm.trans spells)
    have listed : ∀ x ∈ row, x ∈ Token.list t := fun x hx =>
      parts ▸ List.mem_append_left _ (List.mem_append_right _ hx)
    have kinds : row.map (·.kind) = k.pieces := (Token.kinds_of_characters listed texts).trans pieces
    rw [List.append_assoc] at parts
    have no_end : ∀ x ∈ front, x.kind ≠ .eof := by
      cases row with
      | nil => exact absurd kinds.symm k.pieces_ne_nil
      | cons x row => exact Token.no_end_of_list parts
    have aligned := aligned_start (Token.list t)
    rw [parts] at aligned
    have here := (aligned.append no_end).glued_row fun x hx => seen x.kind (kinds ▸ List.mem_map_of_mem hx)
    rw [Nat.zero_add, count, kinds, ← parts] at here
    exact here

end Input

namespace Parser

open Token

/-- As many tokens are taken for a composite token as it has characters. -/
theorem width_of_composite {k : Kind} {s : String} (composite : k.isComposite = true) (spells : k.spelling? = some s) :
    k.width = s.length := by
  obtain ⟨s', spells', pieces⟩ := scan_composite composite
  obtain rfl := Option.some.inj (spells'.symm.trans spells)
  rw [Kind.width_eq, ← pieces, List.length_map, String.length_toList]

/-- A token is joint with the next one where that starts at its end. And a composite token is found, however far
ahead, exactly where its characters are written in a row; taking it takes a token for each of them, and where it
is not written nothing is taken. -/
theorem exec_composite (t : Text) (k : Kind) (composite : k.isComposite = true) (c : Callees) (depth : Nat)
    (s : Progress) :
    let input := Input.ofTokens (Token.list t)
    (∀ i, input.isJoint i = true ↔
      ∃ a b, (words (Token.list t))[i]? = some a ∧ (words (Token.list t))[i + 1]? = some b ∧ a.span.stop = b.offset) ∧
    ∃ spelling, k.spelling? = some spelling ∧
      (∀ n, ∃ found, (isAhead n k).exec input c depth s = (found, s) ∧
        (found = true ↔ Written (Token.list t) (s.pos + n) spelling.toList)) ∧
      (Written (Token.list t) s.pos spelling.toList → (eat k).exec input c depth s = (true, s.take k spelling.length)) ∧
      (¬ Written (Token.list t) s.pos spelling.toList → (eat k).exec input c depth s = (false, s)) := by
  intro input
  obtain ⟨spelling, spells, -⟩ := scan_composite composite
  have here := Input.isAt_list_iff t composite spells
  refine ⟨fun i => ?_, spelling, spells, fun n => ⟨_, rfl, here (s.pos + n)⟩, fun written => ?_, fun absent => ?_⟩
  · rw [Input.isJoint_ofTokens_list]
    exact touching_iff _ i
  · rw [← width_of_composite composite spells]
    exact if_pos ((here s.pos).mpr written)
  · exact if_neg fun at_k => absent ((here s.pos).mp at_k)

/-- Two angles in a row are taken as one shift. -/
theorem exec_composite_shr : Kind.shr.isComposite = true ∧ Written (Token.list "a >>b".toList) 1 ">>".toList ∧
    (eat .shr).exec (.ofTokens (Token.list "a >>b".toList)) (callees ⟨#[], #[]⟩ 0) 0 ⟨1, #[], none⟩ =
      (true, ⟨3, #[.token .shr 2], none⟩) := by
  obtain ⟨-, spelling, spells, -, taken, -⟩ :=
    exec_composite "a >>b".toList .shr rfl (callees ⟨#[], #[]⟩ 0) 0 ⟨1, #[], none⟩
  obtain rfl : ">>" = spelling := Option.some.inj (Eq.trans (by decide) spells)
  have written : Written (Token.list "a >>b".toList) 1 ">>".toList := by
    refine ⟨(Token.list "a >>b".toList).take 2, ((Token.list "a >>b".toList).drop 2).take 2,
      ((Token.list "a >>b".toList).drop 2).drop 2, ?_, by decide +kernel, by decide +kernel⟩
    rw [List.append_assoc, List.take_append_drop, List.take_append_drop]
  exact ⟨rfl, written, taken written⟩

end Parser

end Verbatim
