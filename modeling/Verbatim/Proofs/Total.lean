import Verbatim.Parse.Basic
import Verbatim.Proofs.Grammar.Closed
import Verbatim.Proofs.Growth
import Verbatim.Proofs.Reading

/-!
# Parsing never fails

Whatever the text is, no step of the parser or of the replay is taken where its conditions do not hold,
and every token is taken. The same is true of each list that can be parsed by itself.
-/
namespace Verbatim

namespace Parser

open Outline

/-- A program that makes one node of a kind. -/
def MakesNode (program : Parser Unit) (k : Kind) : Prop :=
  ∀ input : Input, ∃ row, (outline program input).row = [.node k row]

theorem makesNode_sourceFile : MakesNode sourceFile .sourceFile := fun _ => ⟨_, rfl⟩

theorem makesNode_list (f : Fragment) : MakesNode (list f) f.kind := fun _ => ⟨_, rfl⟩

/-- What a program that runs safely makes of a text: the node that grows from its outline. -/
theorem byProgram_of_runs {program : Parser Unit} {k : Kind} (makes : MakesNode program k) {t : Text}
    (runs : Runs program (.ofTokens (Token.list t))) :
    ∃ row, outline program (.ofTokens (Token.list t)) =
        ⟨widthOf row, [.node k row]⟩ ∧ (Outline.node k row).Clean ∧
      FitsOf (.ofTokens (Token.list t)) row 0 ∧
      Parse.byProgram program (Token.list t) =
        .ok (⟨.branch k (whole row (Token.list t)).greens,
            ((whole row (Token.list t)).reports.foldl Diagnostic.keep #[]).toList⟩,
          Input.kind (.ofTokens (Token.list t)) (widthOf row) == .eof) := by
  obtain ⟨row, hrow⟩ := makes (.ofTokens (Token.list t))
  have spells := spells_outline (fun i => (Input.kind_ofTokens_list t i).1) runs.safe
  have pos := spells.pos
  have clean := spells.clean
  have fits := spells.fits
  have le := runs.le
  rw [hrow] at pos clean fits
  simp only [widthOf, width, Nat.zero_add] at pos
  rw [pos] at le
  have enough : widthOf row ≤ Token.significant (Token.list t) := by
    have := Input.length_ofTokens_list t
    rw [Token.significant]
    omega
  refine ⟨row, ?_, clean.1, by simpa [widthOf, FitsOf, Fits] using fits.2, ?_⟩
  · rw [← pos, ← hrow]
  · rw [Parse.byProgram, run_eq_outline]
    simp only [hrow, toTree_node clean.1 enough, pos, Bind.bind, Except.bind, Pure.pure, Except.pure]

end Parser

/-- Whether a token is seen is told by its kind. -/
theorem Token.seen_of_kind {t : Token} {k : Kind} (h : t.kind = k) (seen : k.isTrivia = false) :
    t.isTrivia = false := by
  rw [Token.isTrivia, h, seen]

namespace Fragment

/-- The tokens of what stands in braces: the first is a brace. -/
theorem list_of_isBraced {t : Text}
    (h : isBraced (((Token.list t).map (·.kind)).filter (· != .eof)) = true) :
    ∃ first ts, Token.list t = first :: ts ∧ first.kind = .leftBrace ∧ first.text = ['{'] := by
  obtain ⟨ts, row, inRow, -⟩ := Token.listFrom_inRow 0 t
  change Token.list t = _ at row
  rw [row] at h ⊢
  cases ts with
  | nil => simp [isBraced] at h
  | cons first ts =>
    have no_end : first.kind ≠ .eof := inRow.2.2.1.no_end
    have kind : first.kind = .leftBrace := by
      rw [List.cons_append, List.map_cons, List.filter_cons_of_pos (by simpa using no_end)] at h
      unfold isBraced at h
      split at h
      · next heq => exact (List.cons.inj heq).1
      · contradiction
    exact ⟨first, _, rfl, kind, inRow.2.2.1.spelling "\x7b" (by rw [kind]; rfl)⟩

/-- What the parser sees first of a text in braces is the opening one. -/
theorem kind_zero_of_isBraced {t : Text}
    (h : isBraced (((Token.list t).map (·.kind)).filter (· != .eof)) = true) :
    (Input.ofTokens (Token.list t)).kind 0 = .leftBrace := by
  obtain ⟨first, ts, tokens, kind, -⟩ := list_of_isBraced h
  have seen : first.isTrivia = false := Token.seen_of_kind kind rfl
  rw [tokens, (Input.aligned_start _).kind_head seen, kind]

end Fragment

namespace Parse

open Verbatim.Parser Outline

/-- The parse of a whole text. -/
theorem ofText_eq (t : Text) : ∃ row, outline sourceFile (.ofTokens (Token.list t)) =
      ⟨widthOf row, [.node .sourceFile row]⟩ ∧ (Outline.node .sourceFile row).Clean ∧
    FitsOf (.ofTokens (Token.list t)) row 0 ∧
    widthOf row = (Input.ofTokens (Token.list t)).length ∧
    byProgram sourceFile (Token.list t) =
      .ok (⟨.branch .sourceFile (whole row (Token.list t)).greens,
        ((whole row (Token.list t)).reports.foldl Diagnostic.keep #[]).toList⟩, true) := by
  obtain ⟨runs, ends⟩ := runs_sourceFile (.ofTokens (Token.list t))
  obtain ⟨row, outlined, clean, fits, parsed⟩ := byProgram_of_runs makesNode_sourceFile runs
  have le := runs.le
  rw [outlined] at ends le
  have ge := (Input.kind_ofTokens_list t _).2 ends
  refine ⟨row, outlined, clean, fits, Nat.le_antisymm le ge, ?_⟩
  rw [parsed, show Input.kind _ (widthOf row) = .eof from ends]
  rfl

theorem ofText_of_byProgram {t : Text} {p : Parse} {all : Bool}
    (h : byProgram sourceFile (Token.list t) = .ok (p, all)) : ofText t = .ok p := by
  rw [ofText, h]
  rfl

/-- Every text has a parse, whose root is a source file and for which every token was taken; and each
kind of list can be tried on every text, where a parse is again a node of that kind over every token. No
run ends in a fault. -/
theorem ofText_total (t : Text) :
    (∃ p, byProgram sourceFile (Token.list t) = .ok (p, true) ∧ ofText t = .ok p ∧
      p.tree.kind = .sourceFile) ∧
    ∀ f : Fragment, ∃ r, f.parse? t = .ok r ∧ ∀ p ∈ r, p.tree.kind = f.kind ∧
      byProgram (.list f) (Token.list t) = .ok (p, true) := by
  constructor
  · obtain ⟨row, -, -, -, -, parsed⟩ := ofText_eq t
    exact ⟨_, parsed, ofText_of_byProgram parsed, rfl⟩
  · intro f
    unfold Fragment.parse?
    dsimp only
    split
    · exact ⟨none, rfl, nofun⟩
    · next braced =>
      have first : (Input.ofTokens (Token.list t)).kind 0 = .leftBrace := by
        exact Fragment.kind_zero_of_isBraced (by simpa using braced)
      obtain ⟨row, -, -, -, parsed⟩ := byProgram_of_runs (makesNode_list f) (runs_list f first)
      rw [parsed]
      refine ⟨_, rfl, fun p hp => ?_⟩
      split at hp
      · next all =>
        rw [Bool.and_eq_true] at all
        cases hp
        exact ⟨rfl, congrArg (fun b => Except.ok (_, b)) all.1⟩
      · cases hp

end Parse

end Verbatim
