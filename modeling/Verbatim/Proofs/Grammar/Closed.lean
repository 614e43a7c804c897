import Verbatim.Proofs.Grammar.Items
import Verbatim.Proofs.Sound

/-!
# The grammar runs safely

Every rule and every list does what is asked of it, given that those it calls do. Two levels of callees
for each token in front are enough, so the circle is closed by counting them down.
-/
namespace Verbatim.Parser

namespace Site

variable {c : Site}

/-- The body of a rule does what is asked of it, and calls nothing but lists in front of its first
token. -/
theorem From.rule (r : Rule) {s : Spot} (hs : c.floor ≤ 2 * s.pos + 1) (hf : r.startsNested → c.fresh)
    (hr : r.Requires c.input s.pos) : c.From r.body s fun a t => r.Ensures c.input s.pos a t.pos := by
  cases r with
  | type bounds => exact From.type bounds (hf trivial) s
  | pattern => exact (From.pattern (hf trivial) s).imp fun _ _ _ _ => trivial
  | expression r power => exact From.expression hs r power (hf trivial)
  | item => exact From.item s
  | letStatement => exact (takes_letStatement.from (Input.isAt_of_kind hr rfl)).imp fun _ _ _ _ => trivial
  | useTree topLevel => exact (From.useTree hs topLevel).imp fun _ _ _ _ => trivial
  | ifExpression =>
    exact (makes_ifExpression.from (Input.isAt_of_kind hr rfl)).imp fun _ _ _ _ => trivial

/-- The body of a list stands in braces. -/
theorem encloses_fragment (f : Fragment) (hf : c.fresh) :
    c.Encloses .leftBrace .rightBrace f.body := by
  cases f with
  | stmtList => exact encloses_statementList hf
  | recordFieldList => exact encloses_recordFieldList
  | itemList | assocItemList => exact encloses_bracedItems hf
  | variantList => exact encloses_variantList
  | matchArmList => exact encloses_matchArmList
  | useTreeList => exact encloses_useTreeList hf

end Site

/-- With two levels for each token that is left, the callees do what is asked of them. -/
theorem keeps_drafters (c : Site) (levels : Nat) (enough : 2 * c.input.length + 2 ≤ levels + c.floor) :
    Keeps c (drafters c.input levels) (guards c.input (fun _ => True) levels)
      (guards c.input (· < nestingLimit) levels) := by
  induction levels generalizing c with
  | zero =>
    refine ⟨guards_imp_fresh c.input _ 0, fun r F depth fr hfloor _ hle => ?_,
      fun f depth fr hfloor _ hle => ?_⟩
    · omega
    · omega
  | succ levels ih =>
    refine ⟨guards_imp_fresh c.input _ (levels + 1), fun r F depth fr hfloor hr hle known => ?_,
      fun f depth fr hfloor brace hle known => ?_⟩
    · let inside : Site := ⟨c.input, c.shallow, 2 * fr.pos + 1, r.startsNested⟩
      have keeps : Keeps inside _ _ _ := ih inside (by simp only [inside]; omega)
      have body := Site.From.rule (c := inside) r (s := ⟨fr.pos, false⟩) (Nat.le_refl _) id hr
        (Nat.le_succ _)
      obtain ⟨safe, t, ⟨steady, ensures⟩, stands⟩ :=
        sound r.body keeps body ⟨rfl, nofun, hle⟩ known
      rw [← stands.pos] at steady ensures
      exact ⟨safe, steady, ensures, stands.le⟩
    · let inside : Site := ⟨c.input, c.shallow, 2 * fr.pos + 2, True⟩
      have keeps : Keeps inside _ _ _ := ih inside (by simp only [inside]; omega)
      have body := (Site.encloses_fragment (c := inside) f trivial).takes (by decide) ⟨fr.pos, false⟩
        (Input.isAt_of_kind brace rfl) (Nat.le_refl _)
      obtain ⟨safe, t, ⟨steady, lt⟩, stands⟩ :=
        sound f.body keeps body (show Stands c.input _ fr.opened from ⟨rfl, nofun, hle⟩)
          fun hs => (known hs).2
      rw [← stands.pos] at steady lt
      exact ⟨⟨brace, safe⟩, steady, lt, rfl, fun _ => rfl, stands.le⟩

/-- A program runs safely and does not leave the input. -/
structure Runs (program : Parser Unit) (input : Input) : Prop where
  safe : program.Safe input (fun _ => True) (drafters input (2 * input.length + 2))
    (guards input (fun _ => True) (2 * input.length + 2)) False 0 ⟨0, []⟩
  le : (outline program input).pos ≤ input.length

theorem runs_of_from {program : Parser Unit} {input : Input} {R : Unit → Spot → Prop}
    (h : Site.From ⟨input, False, 0, False⟩ program ⟨0, false⟩ R) :
    Runs program input ∧ ∃ t : Spot, t.pos = (outline program input).pos ∧ R () t := by
  obtain ⟨safe, t, ⟨-, ends⟩, stands⟩ :=
    sound program (keeps_drafters ⟨input, False, 0, False⟩ _ (Nat.le_refl _)) (h (Nat.zero_le _))
      (show Stands input _ ⟨0, []⟩ from ⟨rfl, nofun, Nat.zero_le _⟩) (F := False) False.elim
  exact ⟨⟨safe, stands.le⟩, t, stands.pos.symm, ends⟩

/-- A whole file runs safely up to its end. -/
theorem runs_sourceFile (input : Input) :
    Runs sourceFile input ∧ input.kind (outline sourceFile input).pos = .eof := by
  have whole : Site.From ⟨input, False, 0, False⟩ sourceFile ⟨0, false⟩ fun _ t =>
      input.kind t.pos = .eof :=
    .node (by decide) ((Site.From.contents (c := Site.opened ⟨input, False, 0, False⟩) false False.elim
      (Nat.le_refl _)).imp fun _ _ _ ht => by simpa using ht)
  obtain ⟨runs, t, pos, ends⟩ := runs_of_from whole
  exact ⟨runs, pos ▸ ends⟩

/-- A list in braces runs safely from its brace on. -/
theorem runs_list {input : Input} (f : Fragment) (h : input.kind 0 = .leftBrace) :
    Runs (list f) input :=
  (runs_of_from ((Site.From.list (Nat.zero_le _) h).imp fun _ _ _ _ => trivial)).1

end Verbatim.Parser
