import Verbatim.Parser.Statements
import Verbatim.Proofs.Grammar.Patterns

/-!
# Statements and blocks run safely
-/
namespace Verbatim.Parser.Site

variable {c : Site}

/-- Inside of braces a round is run neither at the end nor at a closing brace. -/
def Within (input : Input) (i : Nat) : Prop := input.kind i ≠ .eof ∧ input.kind i ≠ .rightBrace

theorem From.skipStuck (what : Expectation) {s : Spot} (h : Within c.input s.pos) :
    c.From (skipStuck what) s fun _ t => s.pos < t.pos := by
  refine .node (by decide) (From.bind (M := fun _ t => t.pos = s.pos) (.error rfl) fun _ t _ ht => ?_)
  have ht : t.pos = s.pos := ht
  refine .bumpAny (fun _ => ?_) ?_ (by simp [ht])
  · rw [ht]
    exact h.2
  · rw [ht]
    exact h.1

/-- What may take nothing is followed by skipping a token. -/
theorem From.orSkip {what : Expectation} {rule : Parser Unit} {s : Spot}
    (hr : c.From rule s fun _ _ => True) (h : Within c.input s.pos) :
    c.From (orSkip what rule) s fun _ t => s.pos < t.pos := by
  refine .whenNot (M := fun moved t => (moved = true → s.pos < t.pos) ∧
    (moved = false → t.pos = s.pos)) ?_ (fun t _ ht => ?_) fun t ht => ht.1 rfl
  · exact (From.watch hr).bind fun r t _ ht => .pure ht.2
  · have same := ht.2 rfl
    refine (From.skipStuck what (by rw [same]; exact h)).imp fun _ u _ lt => ?_
    rw [← same]
    exact lt

theorem fine_untilBrace {round : Parser Unit}
    (h : ∀ t : Spot, c.floor ≤ 2 * t.pos → Within c.input t.pos →
      c.From round t fun _ u => t.pos < u.pos) : c.Fine (untilBrace round) := by
  refine fine_while fun t ht => (Tells.isAt .eof t).bind ((Tells.isAt .rightBrace t).bind ?_)
  rw [Input.isAt_simple (k := .eof) rfl, Input.isAt_simple (k := .rightBrace) rfl]
  split
  · exact .pure nofun
  · next inside =>
    rw [Bool.or_eq_true, not_or, beq_iff_eq, beq_iff_eq] at inside
    exact (h t ht inside).bind fun _ _ _ lt => .pure fun _ => lt

theorem fine_expression (hf : c.fresh) : c.Fine expression := fine_operand hf

theorem fine_expressionStatement (hf : c.fresh) : c.Fine expressionStatement := by
  intro s hs
  refine .discard (.nodeIf False ?_)
  let inside : Site := { c with fresh := c.fresh ∨ False }
  have start : inside.floor ≤ 2 * (Spot.mk s.pos false).pos := hs
  refine ((fine_operand (c := inside) (.inl hf)).from start).bind fun e t ht _ => ?_
  split
  · refine (Tells.isAt _ t).bind ?_
    split
    · exact .pure ⟨id, trivial⟩
    · refine ((calm_eat (by decide)).from t).bind fun closed u _ _ => ?_
      refine (((Calm.pure _).when (calm_error _)).from u).bind fun _ _ _ _ => ?_
      exact .pure ⟨.of_plain (by decide), trivial⟩
  · exact .pure ⟨id, trivial⟩

theorem fine_statement (hf : c.fresh) : c.Fine statement := by
  intro s hs
  refine (Tells.current s).bind ?_
  split
  · next h => exact ((takes_bump (by decide)).from (Input.isAt_of_kind h rfl)).imp fun _ _ _ _ => trivial
  · next h => exact (From.call (r := .letStatement) hs False.elim h).imp fun _ _ _ _ => trivial
  · refine (From.call (r := .item) hs False.elim trivial).bind fun found t ht _ => ?_
    cases found with
    | true => exact .pure trivial
    | false =>
      refine (Tells.isAtAny _ t).bind ?_
      split
      · exact (fine_expressionStatement hf).from (by have := ht.le; omega)
      · exact (calm_skipOne _).from t

theorem fine_statements (hf : c.fresh) : c.Fine statements :=
  fine_untilBrace fun _ ht inside => .orSkip ((fine_statement hf).from ht) inside

theorem encloses_statementList (hf : c.fresh) : c.Encloses .leftBrace .rightBrace statementList :=
  ⟨_, rfl, fine_statements hf⟩

/-- A list that is called wherever its brace is. -/
theorem fine_ifBrace {f : Fragment} {q : Parser Unit} (hq : c.Fine q) :
    c.Fine (isAt .leftBrace >>= fun b => if b = true then list f else q) := by
  intro s hs
  refine (Tells.isAt .leftBrace s).bind ?_
  split
  · next h =>
    rw [Input.isAt_simple (k := .leftBrace) rfl, beq_iff_eq] at h
    exact (From.list (Nat.le_succ_of_le hs) h).imp fun _ _ _ _ => trivial
  · exact hq.from hs

theorem fine_body (f : Fragment) : c.Fine (body f) := fine_ifBrace (calm_error _).fine

theorem fine_block : c.Fine block := by
  intro s hs
  refine (Tells.isAt .leftBrace s).bind ?_
  split
  · next h =>
    have brace : c.opened.input.kind s.pos = .leftBrace := by
      simpa [Input.isAt_simple (k := .leftBrace) rfl] using h
    have room : c.opened.floor ≤ 2 * s.pos + 1 := Nat.le_succ_of_le hs
    exact .node (by decide) ((From.list (s := ⟨s.pos, false⟩) room brace).imp fun _ _ _ _ => trivial)
  · exact calm_expected _ s

theorem takes_letStatement : c.Takes .letKw letStatement := by
  refine Takes.node (by decide) ((takes_bump (by decide)).bind fun _ => (fine_alternatives trivial).bind fun _ => ?_)
  refine ((fine_type trivial).whenEat (by decide)).fine.bind fun _ => ?_
  refine ((fine_expression trivial).discard.whenEat (by decide)).fine.bind fun _ => Fine.bind ?_ fun _ =>
    (calm_expect (by decide)).discard.fine
  exact ((Takes.node (by decide) ((takes_bump (by decide)).bind fun _ => fine_block)).whenAt).fine

/-- Skipping a stray block closes the brace that it opened. -/
theorem takes_strayBlock (what : Expectation) : c.Takes .leftBrace (strayBlock what) := by
  refine Takes.node (by decide) fun s hs => From.bind (M := fun _ t => t.pos = s.pos) (.error rfl)
    fun _ t _ ht => ?_
  have block : c.opened.Takes .leftBrace (do
      bump .leftBrace
      statements
      discard <| eat .rightBrace) := takes_enclosed (by decide) (closes_eat (by decide)) (fine_statements trivial)
  have ht : t.pos = s.pos := ht
  rw [← ht]
  exact block.from (by rw [ht]; exact hs)

end Verbatim.Parser.Site
