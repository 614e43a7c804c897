import Verbatim.Proofs.Closing
import Verbatim.Proofs.Formed
import Verbatim.Proofs.Grammar.Closed
import Verbatim.Proofs.Rows

/-!
# Lists start with their brace

The first thing that a list takes is its opening brace, and nothing is ever put in front of that. So the
brace is the first child of the node that grows from the list, and the tree of a text is well formed. A
list with a closing brace among its children has found its own, as the last thing that it takes.
-/
namespace Verbatim

open Green Token

namespace Outline

/-- The brace that a list takes first, or last. -/
def brace (k : Kind) : Outline := .token k 1

/-- A row that starts with an opening brace and ends with a closing one. -/
abbrev inBraces (middle : List Outline) : List Outline := brace .rightBrace :: (middle ++ [brace .leftBrace])

/-- A row that starts with an opening brace, and ends with a closing one if it takes that at all. -/
structure Bracketed (row : List Outline) : Prop where
  first : row.getLast? = some (brace .leftBrace)
  last : row.head? = some (brace .rightBrace) ∨ Unclosed row

mutual
/-- Nodes of the kinds that can be parsed by themselves stand in braces, and no node is a brace. -/
def Braced : Outline → Prop
  | node k row => k ≠ .rightBrace ∧ (Fragment.ofKind? k ≠ none → Bracketed row) ∧ BracedOf row
  | around k inner row => k ≠ .rightBrace ∧ Fragment.ofKind? k = none ∧ Braced inner ∧ BracedOf row
  | _ => True

def BracedOf : List Outline → Prop
  | [] => True
  | o :: older => BracedOf older ∧ Braced o
end

theorem bracedOf_append {new old : List Outline} : BracedOf (new ++ old) ↔ BracedOf new ∧ BracedOf old := by
  induction new with
  | nil => simp [BracedOf]
  | cons o new ih =>
    rw [List.cons_append, BracedOf, BracedOf, ih]
    tauto

end Outline

namespace Parser

open Outline

theorem draft_bump {k : Kind} (single : k.pieces.length = 1) {input : Input} (d : Drafters)
    (depth : Nat) {s : Frame} (here : input.isAt s.pos k = true) :
    (bump k).draft input d depth s.opened = ((), ⟨s.pos + 1, [brace k]⟩) := by
  simp [bump, whenNot, Bind.bind, draft, Frame.opened, here, Frame.take, single, brace, Pure.pure]

/-- A list takes its brace, then what stands inside, then its closing brace if that is there. -/
theorem draft_within {bra ket : Kind} (single : bra.pieces.length = 1) (body : Parser Unit) {input : Input}
    (d : Drafters) (depth : Nat) {s : Frame} (here : input.isAt s.pos bra = true) :
    ((do bump bra; body; discard (expect ket) : Parser Unit).draft input d depth s.opened).2 =
      let t := (body.draft input d depth ⟨s.pos + 1, [brace bra]⟩).2
      if input.isAt t.pos ket then t.take ket ket.pieces.length else t.write (.error (.missing ket)) := by
  change ((discard (expect ket)).draft input d depth (body.draft input d depth
    ((bump bra).draft input d depth s.opened).2).2).2 = _
  rw [draft_bump single d depth here]
  exact draft_expect ket input d depth _

/-- A program that takes an opening brace where one is starts its row with it. -/
theorem getLast?_of_encloses {c : Site} {bra ket : Kind} {p : Parser Unit} (h : c.Encloses bra ket p)
    (single : bra.pieces.length = 1) {input : Input} {d : Drafters} (hd : Growing d) (depth : Nat)
    {s : Frame} (at_bra : input.isAt s.pos bra = true) :
    (p.draft input d depth s.opened).2.row.getLast? = some (brace bra) := by
  obtain ⟨body, rfl, -⟩ := h
  have grown : Grown [brace bra]
      ((do bump bra; body; discard (expect ket) : Parser Unit).draft input d depth s.opened).2.row := by
    have opening := draft_bump single d depth at_bra
    have rest := grown_draft input hd (do body; discard (expect ket)) depth ⟨s.pos + 1, [brace bra]⟩
    simp only [Bind.bind, draft] at rest opening ⊢
    rw [opening]
    exact rest
  obtain ⟨newer, hrow⟩ := grown.suffix rfl
  rw [← hrow, List.getLast?_append]
  rfl

/-- Called rules and lists keep lists in their braces. -/
structure Bracing (d : Drafters) (g : Guards) : Prop where
  rule : ∀ r F depth s, g.rule r F depth s → BracedOf s.row → BracedOf (d.rule r depth s).2.row
  list : ∀ f depth s, g.list f depth s → BracedOf s.row → BracedOf (d.list f depth s).row

/-- In what a safe run writes every list starts with its brace. -/
theorem braced_of_safe {input : Input} {d : Drafters} {g : Guards} {allowed : Nat → Prop}
    (hd : Bracing d g) {α : Type} (p : Parser α) {F : Prop} {depth : Nat} {s : Frame}
    (safe : p.Safe input allowed d g F depth s) (h : BracedOf s.row) :
    BracedOf (p.draft input d depth s).2.row := by
  induction p generalizing F depth s with
  | done a => exact h
  | andThen p next ihp ihn => exact ihn _ safe.2 (ihp safe.1 h)
  | nth n => exact h
  | isAhead n k => exact h
  | eat k =>
    simp only [draft]
    split
    · exact ⟨h, trivial⟩
    · exact h
  | bumpAny =>
    simp only [draft]
    split
    · exact h
    · exact ⟨h, trivial⟩
  | error cause => exact ⟨h, trivial⟩
  | fault what => exact absurd safe id
  | enclose body kind ih =>
    have inner : BracedOf (body.draft input d depth s.opened).2.row := ih safe.1 trivial
    have plain := safe.2
    simp only [draft]
    split
    · next k hk =>
      exact ⟨h, (plain k hk).ne_brace, fun fragment => absurd (plain k hk).no_fragment fragment, inner⟩
    · simp only [Frame.spill]
      split
      · exact h
      · exact bracedOf_append.mpr ⟨inner, h, trivial⟩
  | wrap body ih =>
    have inner : BracedOf (body.draft input d depth s.opened).2.row := ih safe.2.1 trivial
    obtain ⟨first, older, row, -, closed⟩ := Frame.closeAround_of_endsInNode safe.1
      (body.draft input d depth s.opened).2 (body.draft input d depth s.opened).1
    rw [row] at h
    simp only [draft, Frame.openedAround_of_endsInNode safe.1, closed]
    exact ⟨h.1, safe.2.2.ne_brace, safe.2.2.no_fragment, h.2, inner⟩
  | deeper inner atLimit ihi iha =>
    have safe := safe.2.2
    simp only [draft]
    split
    · next limit =>
      rw [if_pos limit] at safe
      exact iha safe h
    · next limit =>
      rw [if_neg limit] at safe
      exact ihi safe h
  | loop a body ih =>
    exact SafeIterate.keeps (P := fun t : Frame => BracedOf t.row) (fun a s hs => ih a hs) safe h
  | watch body ih => exact ih safe h
  | call r => exact hd.rule r F depth s safe h
  | list f => exact hd.list f depth s safe h

/-- Any site will do to say that a list stands in braces. -/
theorem encloses_body (f : Fragment) :
    Site.Encloses ⟨⟨#[], #[]⟩, True, 0, True⟩ .leftBrace .rightBrace f.body :=
  Site.encloses_fragment f trivial

theorem kind_ne_brace (f : Fragment) : f.kind ≠ .rightBrace := by
  cases f <;> decide

theorem bracing_drafters (input : Input) (allowed : Nat → Prop) (levels : Nat) :
    Bracing (drafters input levels) (guards input allowed levels) := by
  induction levels with
  | zero => exact ⟨fun _ _ _ _ safe => absurd safe id, fun _ _ _ safe => absurd safe id⟩
  | succ levels ih =>
    refine ⟨fun r F depth s safe h => braced_of_safe ih r.body safe h,
      fun f depth s safe h => ⟨h, kind_ne_brace f, fun _ => ⟨?_, ?_⟩, braced_of_safe ih f.body safe.2 trivial⟩⟩
    · exact getLast?_of_encloses (encloses_body f) rfl (growing_drafters input levels) depth
        (Input.isAt_of_kind safe.1 rfl)
    · exact closed_of_within (by decide) (Spares.within_fragment f) input (sparing_drafters input levels)
        depth s

theorem Runs.braced {program : Parser Unit} {input : Input} (h : Runs program input) :
    BracedOf (outline program input).row :=
  braced_of_safe (bracing_drafters input _ _) program h.safe trivial

end Parser

/-! ## The tree -/

namespace Green

mutual
/-- Lists in braces start with an opening brace, whatever its text is. -/
def Headed : Green → Prop
  | token _ _ => True
  | node k _ cs =>
    (Fragment.ofKind? k ≠ none → ∃ t rest, cs = token .leftBrace t :: rest) ∧ HeadedOf cs

def HeadedOf : List Green → Prop
  | [] => True
  | g :: gs => Headed g ∧ HeadedOf gs
end

theorem headedOf_append {gs hs : List Green} : HeadedOf (gs ++ hs) ↔ HeadedOf gs ∧ HeadedOf hs := by
  induction gs with
  | nil => simp [HeadedOf]
  | cons g gs ih => simp [HeadedOf, ih, and_assoc]

theorem headedOf_map_leaf (ts : List Token) : HeadedOf (ts.map Token.leaf) := by
  induction ts with
  | nil => trivial
  | cons t ts ih => exact ⟨trivial, ih⟩

/-- A leaf that takes up room, and is spelled out if it is an opening brace. -/
def GoodLeaf (leaf : Kind × Text) : Prop := leaf.2 ≠ [] ∧ (leaf.1 = .leftBrace → leaf.2 = ['{'])

mutual
theorem formed_of_headed : ∀ g : Green, g.Sized → g.Headed → (∀ leaf ∈ g.leaves, GoodLeaf leaf) →
    g.Formed
  | .token k t, _, _, good => (good (k, t) (by simp [leaves])).1
  | .node k n cs, sized, headed, good => by
    refine ⟨sized.1, fun fragment => ?_, formedOf_of_headed cs sized.2 headed.2 good⟩
    obtain ⟨t, rest, rfl⟩ := headed.1 fragment
    obtain rfl : t = ['{'] := (good (.leftBrace, t) (by simp [leaves, leavesOf])).2 rfl
    rfl

theorem formedOf_of_headed : ∀ gs : List Green, SizedOf gs → HeadedOf gs →
    (∀ leaf ∈ leavesOf gs, GoodLeaf leaf) → FormedOf gs
  | [], _, _, _ => trivial
  | g :: gs, sized, headed, good =>
    ⟨formed_of_headed g sized.1 headed.1 fun leaf hl => good leaf (List.mem_append_left _ hl),
      formedOf_of_headed gs sized.2 headed.2 fun leaf hl => good leaf (List.mem_append_right _ hl)⟩
end

end Green

/-- No trivia are braces. -/
theorem Green.kind_placed_ne_brace {placed : List Token} (trivia : ∀ t ∈ placed, t.isTrivia = true) {g : Green}
    (h : g ∈ placed.map Token.leaf) : g.kind ≠ .rightBrace := by
  obtain ⟨t, ht, rfl⟩ := List.mem_map.mp h
  intro same
  have := trivia t ht
  rw [Token.isTrivia, show t.kind = _ from same] at this
  contradiction

namespace Outline

theorem growOf_append (stop : Nat) (new old : List Outline) (ts : List Token) :
    growOf stop (new ++ old) ts = (growOf stop old ts).andThen fun ts => growOf stop new ts := by
  induction new with
  | nil => simp [growOf, Sprout.andThen]
  | cons o new ih =>
    rw [List.cons_append, growOf, ih]
    simp only [growOf, Sprout.andThen, List.append_assoc]

/-- Kinds that can be parsed by themselves attach no comments. -/
theorem rest_outer_of_fragment {k : Kind} (h : Fragment.ofKind? k ≠ none) (ts : List Token) :
    (Sprout.outer k ts).rest = ts.dropWhile (·.isTrivia) := by
  have apart : k.attachesComments = false := by
    revert h
    cases k <;> decide
  simp [Sprout.outer, Sprout.ofTokens, attachedCount, apart]

/-- So no trivia come before the brace of such a list. -/
theorem trivia_in_fragment {k : Kind} (h : Fragment.ofKind? k ≠ none) (ts : List Token) :
    Sprout.trivia (Sprout.outer k ts).rest = ⟨[], [], ts.dropWhile (·.isTrivia)⟩ := by
  rw [rest_outer_of_fragment h, Sprout.trivia, takeWhile_dropWhile, List.dropWhile_idempotent]
  rfl

/-- What takes a brace first grows that brace first, if no trivia come before. -/
theorem starts_growOf (stop : Nat) {row : List Outline} (h : row.getLast? = some (brace .leftBrace))
    {ts : List Token} (stops : ts.takeWhile (·.isTrivia) = []) :
    ∃ t rest, (growOf stop row ts).greens = .token .leftBrace t :: rest := by
  obtain ⟨newer, rfl⟩ := List.getLast?_eq_some_iff.mp h
  simp only [growOf_append, growOf, brace, grow, Sprout.andThen, Sprout.trivia, stops]
  exact ⟨_, _, rfl⟩

mutual
theorem kind_grow_ne_brace (stop : Nat) : ∀ (o : Outline) (ts : List Token), o.Braced →
    (∀ n, o ≠ .token .rightBrace n) → ∀ g ∈ (o.grow stop ts).greens, g.kind ≠ .rightBrace
  | .token k n, ts, _, apart, g, hg => by
    rcases List.mem_append.mp hg with hg | hg
    · exact Green.kind_placed_ne_brace (fun t ht => List.mem_takeWhile_imp ht) hg
    · rw [List.mem_singleton.mp hg]
      exact fun same => apart n (congrArg (Outline.token · n) same)
  | .error _, _, _, _, _, hg | .fault _, _, _, _, _, hg | .void, _, _, _, _, hg =>
    absurd hg List.not_mem_nil
  | .node k row, ts, h, _, g, hg => by
    rcases List.mem_append.mp hg with hg | hg
    · exact Green.kind_placed_ne_brace
        (fun t ht => List.mem_takeWhile_imp (List.mem_of_mem_take ht)) hg
    · rw [List.mem_singleton.mp hg]
      exact h.1
  | .around k inner row, ts, h, _, g, hg => by
    rcases List.mem_append.mp hg with hg | hg
    · exact Green.kind_placed_ne_brace
        (fun t ht => List.mem_takeWhile_imp (List.mem_of_mem_take ht)) hg
    · rw [List.mem_singleton.mp hg]
      exact h.1

/-- From what closes no brace outside of nodes grows no closing brace. -/
theorem kind_growOf_ne_brace (stop : Nat) : ∀ (row : List Outline) (ts : List Token), BracedOf row →
    Unclosed row → ∀ g ∈ (growOf stop row ts).greens, g.kind ≠ .rightBrace
  | [], _, _, _, _, hg => absurd hg List.not_mem_nil
  | o :: older, ts, h, unclosed, g, hg =>
    (List.mem_append.mp hg).elim (kind_growOf_ne_brace stop older ts h.1 unclosed.tail g)
      (kind_grow_ne_brace stop o _ h.2 (fun n same => unclosed n (same ▸ List.mem_cons_self)) g)
end

/-- A list that ends with a closing brace has found its own. -/
theorem Bracketed.closed {row : List Outline} (h : Bracketed row) (braced : BracedOf row) {stop : Nat}
    {ts : List Token} {g : Green} (here : g ∈ (growOf stop row ts).greens) (kind : g.kind = .rightBrace) :
    ∃ middle, row = inBraces middle := by
  rcases h.last with closed | unclosed
  · obtain ⟨older, rfl⟩ := List.head?_eq_some_iff.mp closed
    have first := h.first
    cases older with
    | nil => cases first
    | cons o older =>
      obtain ⟨middle, split⟩ := List.getLast?_eq_some_iff.mp ((List.getLast?_cons_cons ..).symm.trans first)
      exact ⟨middle, by rw [split]⟩
  · exact absurd kind (kind_growOf_ne_brace stop row ts braced unclosed g here)

mutual
theorem headed_grow (stop : Nat) : ∀ (o : Outline) (ts : List Token), o.Braced →
    HeadedOf (o.grow stop ts).greens
  | .token k n, ts, _ => headedOf_append.mpr ⟨headedOf_map_leaf _, trivial, trivial⟩
  | .error _, _, _ => trivial
  | .fault _, _, _ => trivial
  | .void, _, _ => trivial
  | .node k row, ts, h => by
    refine headedOf_append.mpr ⟨headedOf_map_leaf _, ⟨fun fragment => ?_, headedOf_append.mpr
      ⟨headedOf_map_leaf _, headed_growOf stop row _ h.2.2⟩⟩, trivial⟩
    rw [trivia_in_fragment fragment]
    exact starts_growOf stop (h.2.1 fragment).first (takeWhile_dropWhile ts)
  | .around k inner row, ts, h => by
    refine headedOf_append.mpr ⟨headedOf_map_leaf _, ⟨fun fragment => absurd h.2.1 fragment,
      headedOf_append.mpr ⟨headedOf_map_leaf _, headedOf_append.mpr ⟨?_, ?_⟩⟩⟩, trivial⟩
    · exact headed_grow stop inner _ h.2.2.1
    · exact headed_growOf stop row _ h.2.2.2

theorem headed_growOf (stop : Nat) : ∀ (row : List Outline) (ts : List Token), BracedOf row →
    HeadedOf (growOf stop row ts).greens
  | [], _, _ => trivial
  | o :: older, ts, h =>
    headedOf_append.mpr ⟨headed_growOf stop older ts h.1, headed_grow stop o _ h.2⟩
end

end Outline

/-- Leaves that show tokens of a text are good. -/
theorem Sprout.Shows.good {s : Sprout} {ts used : List Token} {start : Nat} (h : s.Shows ts used)
    (inRow : InRow start used) : ∀ leaf ∈ leavesOf s.greens, GoodLeaf leaf := by
  have token : ∀ {start : Nat} {used : List Token}, InRow start used → ∀ t ∈ used, GoodLeaf t.shown := by
    intro start used
    induction used generalizing start with
    | nil => exact fun _ t ht => absurd ht List.not_mem_nil
    | cons first used ih =>
      intro inRow t ht
      rcases List.mem_cons.mp ht with rfl | ht
      · exact ⟨inRow.2.1, fun hk => inRow.2.2.1.spelling "\x7b" (by
          rw [show t.kind = .leftBrace from hk]
          rfl)⟩
      · exact ih inRow.2.2.2 t ht
  intro leaf hl
  by_cases hc : leaf.1.isComposite = true
  · have spelled := h.spelled leaf hl hc
    refine ⟨fun empty => ?_, fun hk => by rw [hk] at hc; contradiction⟩
    rw [empty] at spelled
    generalize leaf.1 = k at hc spelled
    revert hc spelled
    cases k <;> decide
  · have piece : leaf ∈ (leavesOf s.greens).flatMap piecesOf :=
      List.mem_flatMap.mpr ⟨leaf, hl, by simp [piecesOf, hc]⟩
    rw [h.leaves] at piece
    obtain ⟨t, ht, rfl⟩ := List.mem_map.mp piece
    exact token inRow t ht

namespace Parser

open Outline

/-- The tree over a text of which a run makes one node that takes everything. -/
theorem Runs.formed {program : Parser Unit} {t : Text}
    (runs : Runs program (.ofTokens (Token.list t))) {k : Kind} {row : List Outline} {n : Nat}
    (outlined : outline program (.ofTokens (Token.list t)) = ⟨n, [.node k row]⟩)
    (fits : FitsOf (.ofTokens (Token.list t)) row 0)
    (all : widthOf row = (Input.ofTokens (Token.list t)).length)
    (stops : Fragment.ofKind? k ≠ none → (Token.list t).takeWhile (·.isTrivia) = []) :
    (Green.branch k (whole row (Token.list t)).greens).Formed ∧
      (Green.branch k (whole row (Token.list t)).greens).text = t := by
  obtain ⟨ts, split, inRow, spells, shows⟩ := shows_whole fits all
  have braced := runs.braced
  rw [outlined] at braced
  have node : Braced (.node k row) := braced.2
  have headed : (Green.branch k (whole row (Token.list t)).greens).Headed := by
    refine ⟨fun fragment => ?_, headedOf_append.mpr ⟨headed_growOf _ row _ node.2.2,
      headedOf_map_leaf _⟩⟩
    obtain ⟨text, rest, first⟩ :=
      starts_growOf (Replay.textEnd (Token.list t)) (node.2.1 fragment).first (stops fragment)
    exact ⟨text, rest ++ _, by rw [whole, Sprout.andThen, first]; rfl⟩
  refine ⟨formed_of_headed _ ⟨rfl, shows.sized⟩ headed ?_, shows.texts_eq.trans spells⟩
  rw [leaves_branch]
  exact shows.good inRow

end Parser

end Verbatim
