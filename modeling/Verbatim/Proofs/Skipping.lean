import Verbatim.Proofs.Fits
import Verbatim.Proofs.Grammar.Closed
import Verbatim.Proofs.Rows

/-!
# What is skipped for being too deep

At the nesting limit a construct is not entered but skipped into an error node. Skipping counts the
delimiters that are open without telling them apart. It stops in front of the first closing one for which
none is open, so it may take a brace of a construct around it where another delimiter is left open, but only
there.
-/
namespace Verbatim

namespace Input

variable {input : Input} {i n : Nat}

/-- The delimiters that tokens leave open are braces, where they have no others. -/
theorem unclosed_of_braces (alone : ∀ m < n, nesting (input.kind (i + m)) = weight (input.kind (i + m))) :
    input.balance (i + n) = input.balance i + input.unclosed i n := by
  induction n with
  | zero => exact (Int.add_zero _).symm
  | succ n ih =>
    rw [← Nat.add_assoc, balance_succ, ih fun m hm => alone m (by omega), unclosed_succ,
      alone n (by omega), Int.add_assoc]

/-- Tokens without other delimiters than braces close no brace around them if they are skipped. -/
theorem Passes.keepsOpen (h : input.Passes i n)
    (alone : ∀ m < n, nesting (input.kind (i + m)) = weight (input.kind (i + m))) :
    input.KeepsOpen i (i + n) := by
  intro m hi hj
  obtain ⟨l, rfl⟩ : ∃ l, m = i + l := ⟨m - i, by omega⟩
  have opened := h.opened l (by omega)
  rw [unclosed_of_braces fun m hm => alone m (by omega)]
  omega

/-- A parenthesis that is left open pays for a brace around. -/
example : ∃ input : Input, input.Skips 0 2 ∧ ¬ input.KeepsOpen 0 2 :=
  ⟨⟨#[.leftParen, .rightBrace], #[]⟩, ⟨⟨by decide, by decide⟩, .inl rfl⟩,
    fun keeps => absurd (keeps 2 (by decide) (by decide)) (by decide)⟩

end Input

namespace Parser

open Outline

/-- At the limit a construct is skipped into one error node, in which this is reported first: all tokens go
up to the end, or up to the first closing delimiter for which none was opened among them. Where these
delimiters are braces, no brace is closed that was open before. -/
theorem draft_nested_of_limit {input : Input} (simple : ∀ i, (input.kind i).IsSimple) {α : Type}
    (rule : Parser α) {levels depth : Nat} (deep : nestingLimit ≤ depth) {s : Frame}
    (le : s.pos ≤ input.length) (enough : 2 * input.length ≤ levels + 2 * s.pos) :
    ∃ row n, (nested rule).draft input (drafters input levels) depth s =
        (none, ⟨s.pos + n, .node .error row :: s.row⟩) ∧
      row.getLast? = some (.error .tooDeep) ∧ FitsOf input row s.pos ∧ widthOf row = n ∧
      input.Skips s.pos n ∧
      ((∀ m < n, Input.nesting (input.kind (s.pos + m)) = Input.weight (input.kind (s.pos + m))) →
        input.KeepsOpen s.pos (s.pos + n)) := by
  let c : Site := ⟨input, False, 2 * s.pos + 2, True⟩
  let inside := skipBalanced.draft input (drafters input levels) depth ⟨s.pos, [.error .tooDeep]⟩
  have unknown : c.shallow → tooDeep.Safe input (· < nestingLimit) (drafters input levels)
      (guards input (· < nestingLimit) levels) True depth s.opened := False.elim
  obtain ⟨safe, t, ⟨-, n, pos, skips⟩, stands⟩ :=
    sound tooDeep (keeps_drafters c levels (by simp only [c]; omega))
      (Site.From.tooDeep (c := c) id ⟨s.pos, false⟩ (Nat.le_refl _))
      (show Stands input ⟨s.pos, false⟩ s.opened from ⟨rfl, nofun, le⟩) unknown
  have spells := spells_of_safe simple (spelling_drafters simple levels) tooDeep safe (Frame.Spells.opened s)
  have grown := grown_draft input (growing_drafters input levels) skipBalanced depth ⟨s.pos, [.error .tooDeep]⟩
  have made : (tooDeep.draft input (drafters input levels) depth s.opened).2 =
      ⟨inside.2.pos, [.node .error inside.2.row]⟩ := rfl
  rw [made] at stands spells
  have place : inside.2.pos = s.pos + n := stands.pos.trans pos
  obtain ⟨newer, first⟩ := grown.suffix rfl
  refine ⟨inside.2.row, n, ?_, ?_, spells.fits.2, ?_, skips, skips.keepsOpen⟩
  · rw [← place]
    simp only [nested, draft, if_pos deep]
    rfl
  · rw [← first, List.getLast?_append]
    rfl
  · have reached := spells.pos
    simp only [place, widthOf, width] at reached
    omega

end Parser

end Verbatim
