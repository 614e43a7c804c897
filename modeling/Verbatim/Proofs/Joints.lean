import Mathlib.Data.BitVec
import Mathlib.Tactic.Common
import Verbatim.Parser.Input

/-!
# Tokens that touch, bit by bit

The bits that tell which tokens touch are filled token by token, each of them only when the next token comes.
What they hold in the end is told by the tokens alone: each kind, and whether the next token is no trivia.
-/
namespace Verbatim.Input

variable {input : Input}

/-! ## Bits of a word -/

theorem toBitVec_bit (i : Nat) : (bit i).toBitVec = BitVec.twoPow 64 (i % 64) := by
  simp [bit, BitVec.twoPow_eq]

theorem getLsbD_bit (i j : Nat) : (bit i).toBitVec.getLsbD (j % 64) = (i % 64 == j % 64) := by
  have small : i % 64 < 64 := Nat.mod_lt i (by decide)
  rw [toBitVec_bit, BitVec.getLsbD_twoPow, decide_eq_true small, Bool.true_and]
  rfl

/-- Masking a word tells the bit. -/
theorem and_bit (word : UInt64) (i : Nat) : (word &&& bit i != 0) = word.toBitVec.getLsbD (i % 64) := by
  have some_bit : BitVec.twoPow 64 (i % 64) ≠ 0 := fun none => by
    have := getLsbD_bit i i
    rw [toBitVec_bit, none] at this
    simp at this
  rw [Bool.eq_iff_iff, bne_iff_ne, ne_eq, ← UInt64.toBitVec_inj, UInt64.toBitVec_and, toBitVec_bit,
    BitVec.and_twoPow]
  cases word.toBitVec.getLsbD (i % 64) with
  | false => simp
  | true => simpa using some_bit

theorem isJoint_eq (input : Input) (i : Nat) :
    input.isJoint i = input.joint[i / 64]?.any fun word => word.toBitVec.getLsbD (i % 64) := by
  simp only [isJoint, and_bit]

/-- A new word is all zeros. -/
theorem isJoint_push (input : Input) (k : Kind) (i : Nat) : (input.push k).isJoint i = input.isJoint i := by
  rw [isJoint_eq, isJoint_eq, push]
  split
  · rw [Array.getElem?_push]
    split
    · next fresh => rw [fresh, Array.getElem?_eq_none (Nat.le_refl _)]; simp
    · rfl
  · rfl

/-- Setting a bit of a word that is there changes no other. -/
theorem isJoint_join (stored : (input.kinds.size - 1) / 64 < input.joint.size) (i : Nat) :
    input.join.isJoint i = (input.isJoint i || input.kinds.size - 1 == i) := by
  rw [isJoint_eq, isJoint_eq, join]
  generalize input.kinds.size - 1 = last at stored ⊢
  simp only [Array.getElem?_modify]
  split
  · next same =>
    have place : (last % 64 == i % 64) = (last == i) := by
      rw [Bool.eq_iff_iff, beq_iff_eq, beq_iff_eq]
      omega
    rw [← same, Array.getElem?_eq_getElem stored]
    simp only [Option.map_some, Option.any_some, UInt64.toBitVec_or, BitVec.getLsbD_or, getLsbD_bit, place]
  · next other =>
    have apart : (last == i) = false := beq_eq_false_iff_ne.mpr fun eq => other (congrArg (· / 64) eq)
    rw [apart, Bool.or_false]

/-! ## What they hold -/

/-- The tokens that matter, each with whether another follows it without trivia in between. -/
def significant : List Token → List (Kind × Bool)
  | [] => []
  | t :: rest =>
    if t.isTrivia then significant rest
    else (t.kind, (rest.head?.map (!·.isTrivia)).getD false) :: significant rest

/-- The words hold the kinds and the bits of what was seen, and nothing else. -/
structure Holds (input : Input) (seen : List (Kind × Bool)) : Prop where
  kinds : input.kinds.toList = seen.map (·.1)
  joint : ∀ i, input.isJoint i = seen[i]?.any (·.2)
  words : input.joint.size = (seen.length + 63) / 64

theorem Holds.size {seen : List (Kind × Bool)} (h : input.Holds seen) : input.kinds.size = seen.length := by
  rw [← Array.length_toList, h.kinds, List.length_map]

theorem holds_nil : (⟨#[], #[]⟩ : Input).Holds [] := ⟨rfl, fun _ => rfl, rfl⟩

theorem Holds.push {seen : List (Kind × Bool)} (h : input.Holds seen) (k : Kind) :
    (input.push k).Holds (seen ++ [(k, false)]) where
  kinds := by rw [Input.push, Array.toList_push, h.kinds, List.map_append]; rfl
  joint i := by
    rw [isJoint_push, h.joint, List.getElem?_append]
    split
    · rfl
    · next out =>
      rw [List.getElem?_eq_none (Nat.le_of_not_lt out)]
      cases i - seen.length <;> rfl
  words := by
    have words := h.words
    rw [Input.push, h.size, List.length_append, List.length_singleton]
    split
    · next start =>
      rw [beq_iff_eq] at start
      rw [Array.size_push]
      omega
    · next inside =>
      rw [beq_iff_eq] at inside
      exact words.trans (by omega)

theorem Holds.join {seen : List (Kind × Bool)} {k : Kind} (h : input.Holds (seen ++ [(k, false)])) :
    input.join.Holds (seen ++ [(k, true)]) where
  kinds := by
    rw [Input.join, h.kinds, List.map_append, List.map_append]
    rfl
  joint i := by
    have last : input.kinds.size - 1 = seen.length := by
      rw [h.size, List.length_append]
      rfl
    have stored : seen.length / 64 < input.joint.size := by
      rw [h.words, List.length_append, List.length_singleton]
      omega
    rw [isJoint_join (last ▸ stored), last, h.joint, List.getElem?_append, List.getElem?_append]
    split
    · next before =>
      have apart : (seen.length == i) = false := beq_eq_false_iff_ne.mpr (Nat.ne_of_gt before)
      rw [apart, Bool.or_false]
    · next behind =>
      rcases Nat.eq_or_lt_of_le (Nat.le_of_not_lt behind) with rfl | lt
      · simp
      · have apart : (seen.length == i) = false := beq_eq_false_iff_ne.mpr (Nat.ne_of_lt lt)
        have past : ∀ b, ([(k, b)] : List (Kind × Bool))[i - seen.length]? = none := fun b =>
          List.getElem?_eq_none (Nat.sub_pos_of_lt lt)
        rw [apart, past, past]
        rfl
  words := by
    rw [Input.join, Array.size_modify, h.words, List.length_append, List.length_append]
    rfl

/-- Sees more tokens, of which it is known whether the next one touches them. -/
def pack (input : Input) : List (Kind × Bool) → Input
  | [] => input
  | (k, joint) :: seen => (if joint then (input.push k).join else input.push k).pack seen

theorem Holds.pack {front : List (Kind × Bool)} (h : input.Holds front) (seen : List (Kind × Bool)) :
    (input.pack seen).Holds (front ++ seen) := by
  induction seen generalizing input front with
  | nil => simpa [Input.pack] using h
  | cons p seen ih =>
    obtain ⟨k, joint⟩ := p
    rw [List.append_cons]
    cases joint with
    | false => exact ih (h.push k)
    | true => exact ih (h.push k).join

/-! ## Seeing tokens -/

/-- Whether a token that is seen stands at the front. -/
def seenFirst (ts : List Token) : Bool :=
  ((ts.takeWhile (·.kind != .eof)).head?.map (!·.isTrivia)).getD false

/-- The bit of a token is set as late as the next token comes, and this makes no difference. -/
theorem see_eq_pack (ts : List Token) : ∀ input : Input,
    input.see false ts = input.pack (significant (ts.takeWhile (·.kind != .eof))) ∧
      ∀ k, (input.push k).see true ts =
        input.pack ((k, seenFirst ts) :: significant (ts.takeWhile (·.kind != .eof))) := by
  induction ts with
  | nil => exact fun input => ⟨rfl, fun k => rfl⟩
  | cons t ts ih =>
    intro input
    by_cases ends : t.kind = .eof
    · simp [see, ends, significant, seenFirst, pack]
    by_cases trivia : t.isTrivia = true
    · simp [see, ends, trivia, significant, seenFirst, pack, (ih _).1]
    · have listed : significant ((t :: ts).takeWhile (·.kind != .eof)) =
          (t.kind, seenFirst ts) :: significant (ts.takeWhile (·.kind != .eof)) := by
        simp [ends, significant, trivia, seenFirst]
      have first : seenFirst (t :: ts) = true := by simp [seenFirst, ends, trivia]
      have steps (follows : Bool) (input : Input) : input.see follows (t :: ts) =
          ((if follows then input.join else input).push t.kind).see true ts := by simp [see, ends, trivia]
      rw [listed, first]
      refine ⟨(steps false input).trans ((ih input).2 t.kind), fun k => ?_⟩
      exact (steps true _).trans ((ih _).2 t.kind)

theorem ofTokens_eq_pack (ts : List Token) :
    ofTokens ts = pack ⟨#[], #[]⟩ (significant (ts.takeWhile (·.kind != .eof))) := (see_eq_pack ts _).1

/-- What the tokens of a text are packed to. -/
theorem holds_ofTokens (ts : List Token) :
    (ofTokens ts).Holds (significant (ts.takeWhile (·.kind != .eof))) :=
  ofTokens_eq_pack ts ▸ holds_nil.pack _

end Verbatim.Input
