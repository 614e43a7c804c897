import Mathlib.Tactic.Common
import Verbatim.Proofs.Filling

/-!
# What a program lays down

What a program leaves in its row in every safe run, whatever it reports. So this also tells how nodes are made
up in the trees of malformed texts. It is read off the steps of the program; of a rule called by name only
`Rule.Lays` is known, and of a program that is of no interest nothing has to be known at all.
-/
namespace Verbatim

open Outline Skeleton

/-! ## Lists of statements -/

namespace Mark

/-- What may stand in a list of statements, other than at its end. -/
def IsEntry : Mark → Prop
  | token k => k = .semicolon
  | node k => k ∈ Kind.statements ∨ k = .error

/-- What may end a list of statements, the newest first: nothing, a brace, or an expression and a brace. -/
inductive IsEnding : List Mark → Prop where
  | missing : IsEnding []
  | brace : IsEnding [.token .rightBrace]
  | tail {k : Kind} (h : k ∈ Kind.expressions) : IsEnding [.token .rightBrace, .node k]

/-- The entries of a list of statements between its brace and its ending. -/
def IsStatements (row : List Mark) : Prop :=
  ∃ ending mid, row = ending ++ mid ++ [.token .leftBrace] ∧ IsEnding ending ∧ ∀ m ∈ mid, m.IsEntry

theorem isEntry_error : IsEntry (.node .error) := .inr rfl

theorem isEntry_statement {k : Kind} (h : k ∈ Kind.statements) : IsEntry (.node k) := .inl h

end Mark

/-- A node that is a list of statements is made up as one. -/
def Skeleton.Listed (x : Skeleton) : Prop := x.kind = .stmtList → Mark.IsStatements (marks x.children)

abbrev ListedOf (row : List Outline) : Prop := AllOf Listed (skeletonOf row)

theorem Skeleton.listed_of_ne {k : Kind} (h : k ≠ .stmtList) (xs : List Skeleton) : (Skeleton.node k xs).Listed :=
  fun eq => absurd eq h

theorem Kind.IsProper.ne_stmtList {k : Kind} (h : k.IsProper) : k ≠ .stmtList := by
  rintro rfl
  exact absurd h.no_fragment (by decide)

namespace Mark

/-- An expression was put in front of a row if one was found, else error nodes or nothing. -/
def IsFound (row : List Mark) : Bool → List Mark → Prop
  | true, row' => ∃ k ∈ Kind.expressions, row' = .node k :: row
  | false, row' => ∃ new, row' = new ++ row ∧ ∀ m ∈ new, m = .node .error

end Mark

namespace Rule

/-- How a rule leaves a row. Of an item that is not found nothing is left. -/
def Lays : (r : Rule) → List Mark → r.Result → List Mark → Prop
  | expression _ _, row, found, row' => Mark.IsFound row found.isSome row'
  | item, row, true, row' => ∃ k ∈ .error :: Kind.items, row' = .node k :: row
  | item, row, false, row' => row' = row
  | letStatement, row, _, row' => row' = .node .letStmt :: row
  | _, _, _, _ => True

end Rule

namespace Parser

variable {input : Input} {α β σ : Type}

/-- From place `i` on, behind `row`, the program ends in `Q`, whatever it reports. -/
def Lays (input : Input) {α : Type} : Parser α → (i : Nat) → (row : List Mark) →
    (Q : α → Nat → List Mark → Prop) → Prop
  | done a, i, row, Q => Q a i row
  | andThen p next, i, row, Q => p.Lays input i row fun b j row => (next b).Lays input j row Q
  | nth n, i, row, Q => Q (input.kind (i + n.val)) i row
  | isAhead n k, i, row, Q => Q (input.isAt (i + n) k) i row
  | eat k, i, row, Q =>
    (input.isAt i k = true → Q true (i + k.pieces.length) (.token k :: row)) ∧
      (input.isAt i k = false → Q false i row)
  | bumpAny, i, row, Q =>
    (input.kind i ≠ .eof → Q () (i + 1) (.token (input.kind i) :: row)) ∧ (input.kind i = .eof → Q () i row)
  | error _, i, row, Q => Q () i row
  | fault _, _, _, _ => True
  | enclose body kind, i, row, Q => body.Lays input i [] fun a j inner =>
      match kind a with
      | some k => Q a j (.node k :: row)
      | none => Q a j (inner ++ row)
  | wrap body, i, row, Q => ∀ x older, row = .node x :: older →
      body.Lays input i [] fun k j _ => Q k j (.node k :: older)
  | deeper inner atLimit, i, row, Q => inner.Lays input i row Q ∧ atLimit.Lays input i row Q
  | loop a body, i, row, Q =>
    ∃ I : _ → Nat → List Mark → Prop, I a i row ∧ ∀ b j row, I b j row →
      (body b).Lays input j row fun r k row =>
        match r with
        | .done b => Q b k row
        | .yield b => I b k row
  | watch body, i, row, Q => body.Lays input i row fun a j row => Q (a, j != i) j row
  | call r, _, row, Q => ∀ a j row', r.Lays row a row' → Q a j row'
  | list f, _, row, Q => ∀ j, Q () j (.node f.kind :: row)

variable {p : Parser α} {i : Nat} {row : List Mark} {Q Q' : α → Nat → List Mark → Prop}

theorem Lays.imp (h : p.Lays input i row Q) (hQ : ∀ a j row, Q a j row → Q' a j row) :
    p.Lays input i row Q' := by
  induction p generalizing i row with
  | done a => exact hQ _ _ _ h
  | andThen p next ihp ihn => exact ihp h fun b j row hb => ihn b hb hQ
  | nth n => exact hQ _ _ _ h
  | isAhead n k => exact hQ _ _ _ h
  | eat k => exact ⟨fun hk => hQ _ _ _ (h.1 hk), fun hk => hQ _ _ _ (h.2 hk)⟩
  | bumpAny => exact ⟨fun hk => hQ _ _ _ (h.1 hk), fun hk => hQ _ _ _ (h.2 hk)⟩
  | error cause => exact hQ _ _ _ h
  | fault what => trivial
  | enclose body kind ih =>
    refine ih h fun a j inner ha => ?_
    cases hk : kind a with
    | some k =>
      rw [hk] at ha
      exact hQ _ _ _ ha
    | none =>
      rw [hk] at ha
      exact hQ _ _ _ ha
  | wrap body ih => exact fun x older eq => ih (h x older eq) fun k j inner => hQ _ _ _
  | deeper inner atLimit ihi iha => exact ⟨ihi h.1 hQ, iha h.2 hQ⟩
  | loop a body ih =>
    obtain ⟨I, start, round⟩ := h
    refine ⟨I, start, fun b j row hb => ih b (round b j row hb) fun r k row hr => ?_⟩
    cases r with
    | done b => exact hQ _ _ _ hr
    | yield b => exact hr
  | watch body ih => exact ih h fun a j row => hQ _ _ _
  | call r => exact fun a j row' ha => hQ _ _ _ (h a j row' ha)
  | list f => exact fun j => hQ _ _ _ (h j)

/-- Every program ends somehow. -/
theorem lays_any (p : Parser α) (i : Nat) (row : List Mark) : p.Lays input i row fun _ _ _ => True := by
  induction p generalizing i row with
  | andThen p next ihp ihn => exact (ihp i row).imp fun b j row _ => ihn b j row
  | enclose body kind ih => exact (ih i []).imp fun a j inner _ => by split <;> trivial
  | wrap body ih => exact fun x older _ => ih i []
  | deeper inner atLimit ihi iha => exact ⟨ihi i row, iha i row⟩
  | loop a body ih =>
    exact ⟨fun _ _ _ => True, trivial, fun b j row _ => (ih b j row).imp fun r _ _ _ => by cases r <;> trivial⟩
  | watch body ih => exact ih i row
  | eat k => exact ⟨fun _ => trivial, fun _ => trivial⟩
  | bumpAny => exact ⟨fun _ => trivial, fun _ => trivial⟩
  | call r => exact fun _ _ _ _ => trivial
  | list f => exact fun _ => trivial
  | _ => trivial

/-! ## Runs -/

/-- Called rules and lists leave rows as they are said to, and make all lists of statements as they should
be. -/
structure Laying (d : Drafters) (g : Guards) : Prop where
  rule : ∀ r F depth s, g.rule r F depth s → ListedOf s.row → ListedOf (d.rule r depth s).2.row ∧
    r.Lays (marksOf s.row) (d.rule r depth s).1 (marksOf (d.rule r depth s).2.row)
  list : ∀ f depth s, g.list f depth s → ListedOf s.row → ListedOf (d.list f depth s).row ∧
    marksOf (d.list f depth s).row = .node f.kind :: marksOf s.row

/-- A safe run leaves the row as is read off the steps of the program. -/
theorem lays_draft {d : Drafters} {g : Guards} {allowed : Nat → Prop} (hl : Laying d g) (p : Parser α)
    {Q : α → Nat → List Mark → Prop} {F : Prop} {depth : Nat} {s : Frame}
    (safe : p.Safe input allowed d g F depth s) (hs : ListedOf s.row)
    (h : p.Lays input s.pos (marksOf s.row) Q) : ListedOf (p.draft input d depth s).2.row ∧
      Q (p.draft input d depth s).1 (p.draft input d depth s).2.pos
        (marksOf (p.draft input d depth s).2.row) := by
  induction p generalizing F depth s with
  | done a => exact ⟨hs, h⟩
  | andThen p next ihp ihn =>
    obtain ⟨listed, rest⟩ := ihp safe.1 hs h
    exact ihn _ safe.2 listed rest
  | nth n => exact ⟨hs, h⟩
  | isAhead n k => exact ⟨hs, h⟩
  | eat k =>
    simp only [draft]
    split
    · next here =>
      refine ⟨allOf_write hs ⟨trivial, trivial⟩, ?_⟩
      simp only [Frame.take, marksOf_token]
      exact h.1 here
    · next absent => exact ⟨hs, h.2 (by simpa using absent)⟩
  | bumpAny =>
    simp only [draft]
    split
    · next stop => exact ⟨hs, h.2 (by simpa using stop)⟩
    · next more =>
      refine ⟨allOf_write hs ⟨trivial, trivial⟩, ?_⟩
      simp only [Frame.take, marksOf_token]
      exact h.1 (by simpa using more)
  | error cause => exact ⟨allOf_write hs trivial, by rwa [draft, Frame.write, marksOf_cons]⟩
  | fault what => exact absurd safe id
  | enclose body kind ih =>
    have proper := safe.2
    obtain ⟨inside, result⟩ := ih safe.1 (s := s.opened) trivial h
    simp only [draft]
    cases hk : kind (body.draft input d depth s.opened).1 with
    | some k =>
      rw [hk] at result
      have other := (proper k hk).ne_stmtList
      refine ⟨allOf_write hs ⟨⟨listed_of_ne other _, inside⟩, trivial⟩, ?_⟩
      simp only [Frame.close, marksOf_node]
      exact result
    | none =>
      rw [hk] at result
      refine ⟨allOf_spill hs inside, ?_⟩
      rw [marksOf_spill]
      exact result
  | wrap body ih =>
    simp only [draft, Frame.openedAround_of_endsInNode safe.1]
    obtain ⟨inner, older, split, node, closed⟩ := Frame.closeAround_of_endsInNode safe.1
      (body.draft input d depth s.opened).2 (body.draft input d depth s.opened).1
    obtain ⟨k, cs, shown⟩ := skeleton_of_isNode node
    have row : marksOf s.row = .node k :: marksOf older := by
      rw [split, marksOf_cons, shown]
      rfl
    obtain ⟨inside, result⟩ := ih safe.2.1 (s := s.opened) trivial (h k _ row)
    rw [split, ListedOf, skeletonOf, allOf_append] at hs
    rw [closed]
    have other := safe.2.2.ne_stmtList
    refine ⟨allOf_write hs.1 ⟨⟨listed_of_ne other _, allOf_append.mpr ⟨hs.2, inside⟩⟩, trivial⟩, ?_⟩
    simp only [marksOf_around]
    exact result
  | deeper inner atLimit ihi iha =>
    have safe := safe.2.2
    simp only [draft]
    split
    · next deep =>
      rw [if_pos deep] at safe
      exact iha safe hs h.2
    · next shallow =>
      rw [if_neg shallow] at safe
      exact ihi safe hs h.1
  | loop a body ih =>
    obtain ⟨I, start, round⟩ := h
    refine SafeIterate.ends (I := fun b t => ListedOf t.row ∧ I b t.pos (marksOf t.row))
      (R := fun b t => ListedOf t.row ∧ Q b t.pos (marksOf t.row)) (fun b t safe ht => ?_) safe ⟨hs, start⟩
    obtain ⟨listed, result⟩ := ih b safe ht.1 (round b t.pos _ ht.2)
    cases hr : ((body b).draft input d depth t).1 with
    | done c =>
      rw [hr] at result
      exact ⟨listed, result⟩
    | yield c =>
      rw [hr] at result
      exact ⟨listed, result⟩
  | watch body ih => exact ih safe hs h
  | call r =>
    obtain ⟨listed, lays⟩ := hl.rule r F depth s safe hs
    exact ⟨listed, h _ _ _ lays⟩
  | list f =>
    obtain ⟨listed, row⟩ := hl.list f depth s safe hs
    refine ⟨listed, ?_⟩
    change Q _ _ (marksOf (d.list f depth s).row)
    rw [row]
    exact h _

/-! ## Putting programs together -/

/-- Whatever the program does, it yields a result in `R`. -/
def Returns (input : Input) (p : Parser α) (R : α → Prop) : Prop :=
  ∀ i row, p.Lays input i row fun a _ _ => R a

/-- The program only reads. -/
def Peeks (input : Input) (p : Parser α) : Prop :=
  ∀ i row (Q : α → Nat → List Mark → Prop), (∀ a, Q a i row) → p.Lays input i row Q

namespace Returns

variable {R : α → Prop} {S : β → Prop}

theorem pure {a : α} (h : R a) : Returns input (Pure.pure a) R := fun _ _ => h

/-- What is done before the result is made up does not matter. -/
theorem after {p : Parser α} {next : α → Parser β} (h : ∀ a, Returns input (next a) S) :
    Returns input (p >>= next) S :=
  fun i row => (lays_any p i row).imp fun a j row _ => h a j row

theorem ite {b : Prop} [Decidable b] {p q : Parser α} (hp : Returns input p R) (hq : Returns input q R) :
    Returns input (if b then p else q) R := by
  split
  · exact hp
  · exact hq

/-- A node of one of some kinds. -/
theorem lays_node {body : Parser Kind} {K : Kind → Prop} (h : Returns input body K) {i : Nat} {row : List Mark}
    {Q : Kind → Nat → List Mark → Prop} (hQ : ∀ k j, K k → Q k j (.node k :: row)) :
    (Parser.nodeOf body).Lays input i row Q :=
  (h i []).imp fun k j _ hk => hQ k j hk

/-- A node of one of some kinds around the one in front. -/
theorem lays_wrap {body : Parser Kind} {K : Kind → Prop} (h : Returns input body K) {i : Nat} {x : Kind}
    {older : List Mark} {Q : Kind → Nat → List Mark → Prop} (hQ : ∀ k j, K k → Q k j (.node k :: older)) :
    (Parser.wrap body).Lays input i (.node x :: older) Q := by
  rintro _ _ ⟨⟩
  exact (h i []).imp fun k j _ hk => hQ k j hk

end Returns

namespace Peeks

theorem lays {p : Parser α} (h : Peeks input p) {next : α → Parser β} {Q : β → Nat → List Mark → Prop}
    (hn : ∀ a, (next a).Lays input i row Q) : (p >>= next).Lays input i row Q := h i row _ hn

theorem pure (a : α) : Peeks input (Pure.pure a) := fun _ _ _ h => h a

theorem bind {p : Parser α} {next : α → Parser β} (hp : Peeks input p) (hn : ∀ a, Peeks input (next a)) :
    Peeks input (p >>= next) := fun i row Q h => hp.lays fun a => hn a i row Q h

theorem ite {b : Prop} [Decidable b] {p q : Parser α} (hp : Peeks input p) (hq : Peeks input q) :
    Peeks input (if b then p else q) := by
  split
  · exact hp
  · exact hq

theorem nth (n : Fin 4) : Peeks input (Parser.nth n) := fun _ _ _ h => h _

theorem current : Peeks input Parser.current := .nth 0

theorem isAhead (n : Nat) (k : Kind) : Peeks input (Parser.isAhead n k) := fun _ _ _ h => h _

theorem isAt (k : Kind) : Peeks input (Parser.isAt k) := .isAhead 0 k

theorem isNth (n : Fin 4) (k : Kind) : Peeks input (Parser.isNth n k) := (nth n).bind fun _ => .pure _

theorem isAtAny (ks : KindSet) : Peeks input (Parser.isAtAny ks) := current.bind fun _ => .pure _

theorem both {p q : Parser Bool} (hp : Peeks input p) (hq : Peeks input q) : Peeks input (Parser.both p q) :=
  hp.bind fun _ => .ite hq (.pure _)

theorem isAtBraceOrEnd : Peeks input Parser.isAtBraceOrEnd :=
  current.bind fun k => by split <;> exact .pure _

end Peeks

theorem Lays.bind {p : Parser α} {next : α → Parser β} {Q : β → Nat → List Mark → Prop}
    (h : p.Lays input i row fun b j row => (next b).Lays input j row Q) : (p >>= next).Lays input i row Q := h

theorem Lays.discard {p : Parser α} {Q : Unit → Nat → List Mark → Prop}
    (h : p.Lays input i row fun _ j row => Q () j row) : (Functor.discard p).Lays input i row Q := h

theorem Lays.ite {b : Prop} [Decidable b] {p q : Parser α} (hp : b → p.Lays input i row Q)
    (hq : ¬ b → q.Lays input i row Q) : (if b then p else q).Lays input i row Q := by
  split
  · next h => exact hp h
  · next h => exact hq h

theorem lays_node (k : Kind) (body : Parser Unit) {Q : Unit → Nat → List Mark → Prop}
    (h : ∀ j, Q () j (.node k :: row)) : (node k body).Lays input i row Q :=
  (lays_any body i []).imp fun _ j _ _ => h j

theorem Lays.loop {a : σ} {body : σ → Parser (ForInStep σ)} {Q : σ → Nat → List Mark → Prop}
    (I : Nat → List Mark → Prop) (start : I i row)
    (round : ∀ b j row, I j row → (body b).Lays input j row fun r k row =>
      match r with
      | .done b => Q b k row
      | .yield _ => I k row) : (Parser.loop a body).Lays input i row Q :=
  ⟨fun _ j row => I j row, start, round⟩

theorem Lays.while {body : Parser Bool} {Q : Unit → Nat → List Mark → Prop} (I : Nat → List Mark → Prop)
    (start : I i row)
    (round : ∀ j row, I j row → body.Lays input j row fun b k row => if b = true then I k row else Q () k row) :
    (while_ body).Lays input i row Q :=
  .loop I start fun _ j row hj => (round j row hj).imp fun b k row hb => by
    cases b with
    | true => exact hb
    | false => exact hb

/-- What is skipped is put into error nodes. -/
theorem lays_recover (cause : Cause) (recovery : KindSet) {Q : Unit → Nat → List Mark → Prop}
    (h : ∀ j new, (∀ m ∈ new, m = .node .error) → Q () j (new ++ row)) :
    (recover cause recovery).Lays input i row Q :=
  Peeks.isAtBraceOrEnd.lays fun _ => (Peeks.isAtAny recovery).lays fun _ =>
    .ite (fun _ => h i [] nofun) fun _ => lays_node .error _ fun j => h j [_] (by simp)

theorem lays_skipOne (cause : Cause) {Q : Unit → Nat → List Mark → Prop}
    (h : ∀ j new, (∀ m ∈ new, m = .node .error) → Q () j (new ++ row)) :
    (skipOne cause).Lays input i row Q := lays_recover cause .empty h

end Parser

end Verbatim
