import Verbatim.Proofs.Outline
import Verbatim.Proofs.Rows

/-!
# Only lists close braces

Outside of the nodes that it makes, no rule takes a closing brace; the closing brace of a list is taken by
that list, as the last thing. So a list of which the last element is a closing brace is a list that has
found its end.
-/
namespace Verbatim

namespace Outline

/-- No closing brace stands in a row but inside of nodes. -/
def Unclosed (row : List Outline) : Prop := ∀ n, token .rightBrace n ∉ row

theorem unclosed_nil : Unclosed [] := fun _ h => absurd h List.not_mem_nil

theorem Unclosed.cons {row : List Outline} (h : Unclosed row) {o : Outline}
    (ho : ∀ n, o ≠ token .rightBrace n) : Unclosed (o :: row) := fun n hm => by
  rcases List.mem_cons.mp hm with rfl | hm
  · exact ho n rfl
  · exact h n hm

theorem Unclosed.consNode {row : List Outline} (h : Unclosed row) {o : Outline} (node : o.isNode = true) :
    Unclosed (o :: row) := h.cons fun n same => by
  rw [same] at node
  contradiction

theorem Unclosed.consVoid {row : List Outline} (h : Unclosed row) : Unclosed (.void :: row) := h.cons nofun

theorem Unclosed.append {new old : List Outline} (hn : Unclosed new) (ho : Unclosed old) :
    Unclosed (new ++ old) := fun n hm => (List.mem_append.mp hm).elim (hn n) (ho n)

theorem Unclosed.tail {row : List Outline} {o : Outline} (h : Unclosed (o :: row)) : Unclosed row :=
  fun n hm => h n (List.mem_cons_of_mem _ hm)

end Outline

namespace Parser

open Outline

/-- Called rules and lists close no brace but inside of nodes. -/
structure Sparing (d : Drafters) : Prop where
  rule : ∀ r depth s, Unclosed s.row → Unclosed (d.rule r depth s).2.row
  list : ∀ f depth s, Unclosed s.row → Unclosed (d.list f depth s).row

/-- A run that yields a result in `P` closes no brace but inside of nodes. -/
def Spares {α : Type} (p : Parser α) (P : α → Prop) : Prop :=
  ∀ (input : Input) (d : Drafters) (depth : Nat) (s : Frame), Sparing d →
    P (p.draft input d depth s).1 → Unclosed s.row → Unclosed (p.draft input d depth s).2.row

namespace Spares

variable {α β : Type} {P : α → Prop} {Q : β → Prop}

/-! ## Steps -/

theorem imp {P' : α → Prop} {p : Parser α} (h : p.Spares P') (hP : ∀ a, P a → P' a) : p.Spares P :=
  fun input d depth s hd ha => h input d depth s hd (hP _ ha)

theorem done (a : α) : (Parser.done a).Spares P := fun _ _ _ _ _ _ hs => hs

theorem pure (a : α) : (Pure.pure a : Parser α).Spares P := done a

theorem bind {p : Parser β} {next : β → Parser α} (hp : p.Spares fun _ => True)
    (hn : ∀ b, (next b).Spares P) : (p >>= next).Spares P :=
  fun input d depth s hd ha hs => hn _ input d depth _ hd ha (hp input d depth s hd trivial hs)

/-- The first of two programs only matters where its result can lead to one in `P`. -/
theorem bindOf {R : β → Prop} {p : Parser β} {next : β → Parser α} (hp : p.Spares R)
    (hn : ∀ b, (next b).Spares P)
    (hR : ∀ b, ¬ R b → ∀ input d depth s, ¬ P ((next b).draft input d depth s).1) : (p >>= next).Spares P := by
  intro input d depth s hd ha hs
  by_cases hb : R (p.draft input d depth s).1
  · exact hn _ input d depth _ hd ha (hp input d depth s hd hb hs)
  · exact absurd ha (hR _ hb input d depth _)

/-- A result that the program never yields. -/
theorem never {p : Parser β} {a : β → α} (h : ∀ b, ¬ P (a b)) : (do return a (← p) : Parser α).Spares P :=
  fun _ _ _ _ _ ha => absurd ha (h _)

theorem map {p : Parser β} {f : β → α} (hp : p.Spares fun _ => True) : (f <$> p).Spares P :=
  bind hp fun _ => done _

theorem discard {p : Parser β} {Q : PUnit → Prop} (hp : p.Spares fun _ => True) :
    (Functor.discard p).Spares Q := map hp

theorem nth (n : Fin 4) {Q : Kind → Prop} : (Parser.nth n).Spares Q := fun _ _ _ _ _ _ hs => hs

theorem isAhead (n : Nat) (k : Kind) {Q : Bool → Prop} : (Parser.isAhead n k).Spares Q :=
  fun _ _ _ _ _ _ hs => hs

theorem eat {k : Kind} (hk : k ≠ .rightBrace) {Q : Bool → Prop} : (Parser.eat k).Spares Q := by
  intro input d depth s hd ha hs
  simp only [draft]
  split
  · exact hs.cons fun n h => hk (Outline.token.inj h).1
  · exact hs

theorem error (cause : Cause) {Q : Unit → Prop} : (Parser.error cause).Spares Q :=
  fun _ _ _ _ _ _ hs => hs.cons nofun

theorem fault (what : Fault) {Q : Unit → Prop} : (Parser.fault what).Spares Q :=
  fun _ _ _ _ _ _ hs => hs.cons nofun

/-- What is taken in a node does not matter, only what is left without one. -/
theorem enclose {p : Parser α} {kind : α → Option Kind} (hp : p.Spares fun a => kind a = none) :
    (Parser.enclose p kind).Spares P := by
  intro input d depth s hd ha hs
  simp only [draft]
  split
  · exact hs.consNode rfl
  · next none =>
    have inside := hp input d depth s.opened hd none unclosed_nil
    simp only [Frame.spill]
    split
    · exact hs
    · exact inside.append hs.consVoid

theorem nodeOf {p : Parser Kind} {Q : Kind → Prop} : (Parser.nodeOf p).Spares Q :=
  enclose fun _ _ _ _ _ ha => nomatch ha

theorem node {k : Kind} {p : Parser Unit} {Q : Unit → Prop} : (Parser.node k p).Spares Q :=
  enclose fun _ _ _ _ _ ha => nomatch ha

theorem wrap {p : Parser Kind} {Q : Kind → Prop} : (Parser.wrap p).Spares Q := by
  intro input d depth s hd ha hs
  obtain ⟨pos, row⟩ := s
  simp only [draft, Frame.closeAround]
  split
  · split
    · exact hs.tail.consNode rfl
    · exact hs.consNode rfl
  · exact hs.consNode rfl

theorem deeper {inner atLimit : Parser α} (hi : inner.Spares P) (ha : atLimit.Spares P) :
    (Parser.deeper inner atLimit).Spares P := by
  intro input d depth s hd result hs
  simp only [draft] at result ⊢
  split at result
  · next limit =>
    rw [if_pos limit]
    exact ha input d depth s hd result hs
  · next limit =>
    rw [if_neg limit]
    exact hi input d _ s hd result hs

theorem loop {σ : Type} {a : σ} {body : σ → Parser (ForInStep σ)} {P : σ → Prop}
    (h : ∀ a, (body a).Spares fun _ => True) : (Parser.loop a body).Spares P :=
  fun input d depth _ hd _ hs => iterate_induction (P := fun t : Frame => Unclosed t.row)
    (fun a t ht => h a input d depth t hd trivial ht)
    (fun _ ht => Unclosed.cons ht (nofun : ∀ _, Outline.fault _ ≠ _)) _ hs

theorem watch {p : Parser α} {P : α × Bool → Prop} (h : p.Spares fun _ => True) : (Parser.watch p).Spares P :=
  fun input d depth s hd _ hs => h input d depth s hd trivial hs

theorem call (r : Rule) {P : r.Result → Prop} : (Parser.call r).Spares P :=
  fun _ _ depth s hd _ hs => hd.rule r depth s hs

theorem list (f : Fragment) {Q : Unit → Prop} : (Parser.list f).Spares Q :=
  fun _ _ depth s hd _ hs => hd.list f depth s hs

theorem ite {b : Prop} [Decidable b] {p q : Parser α} (hp : p.Spares P) (hq : q.Spares P) :
    (if b then p else q).Spares P := by
  split
  · exact hp
  · exact hq

/-! ## Words of the grammar -/

theorem isAtAny (set : KindSet) {Q : Bool → Prop} : (Parser.isAtAny set).Spares Q :=
  bind (nth 0) fun _ => done _

theorem when {test : Parser Bool} {p : Parser Unit} {Q : Unit → Prop} (ht : test.Spares fun _ => True)
    (hp : p.Spares Q) : (Parser.when test p).Spares Q :=
  bind ht fun _ => ite hp (done _)

theorem whenNot {test : Parser Bool} {p : Parser Unit} {Q : Unit → Prop}
    (ht : test.Spares fun _ => True) (hp : p.Spares Q) : (Parser.whenNot test p).Spares Q :=
  bind ht fun _ => ite hp (done _)

theorem both {p q : Parser Bool} {Q : Bool → Prop} (hp : p.Spares fun _ => True) (hq : q.Spares Q) :
    (Parser.both p q).Spares Q :=
  bind hp fun _ => ite hq (done _)

theorem bump {k : Kind} (hk : k ≠ .rightBrace) {Q : Unit → Prop} : (Parser.bump k).Spares Q :=
  whenNot (eat hk) (fault _)

theorem expect {k : Kind} (hk : k ≠ .rightBrace) {Q : Bool → Prop} : (Parser.expect k).Spares Q :=
  bind (eat hk) fun _ => ite (done _) (bind (error _) fun _ => done _)

theorem while_ {p : Parser Bool} {Q : Unit → Prop} (hp : p.Spares fun _ => True) :
    (Parser.while_ p).Spares Q :=
  loop fun _ => map hp

theorem isAtBraceOrEnd {Q : Bool → Prop} : Parser.isAtBraceOrEnd.Spares Q := by
  refine bind (nth 0) fun k => ?_
  split <;> exact done _

theorem recover (cause : Cause) (recovery : KindSet) {Q : Unit → Prop} :
    (Parser.recover cause recovery).Spares Q :=
  bind isAtBraceOrEnd fun _ => bind (isAtAny _) fun _ => ite (error _) node

theorem skipOne (cause : Cause) {Q : Unit → Prop} : (Parser.skipOne cause).Spares Q := recover cause _

theorem nested {p : Parser α} {P : Option α → Prop} (hp : p.Spares fun _ => True) :
    (Parser.nested p).Spares P :=
  deeper (map hp) (bind node fun _ => done _)

/-- A list in braces, or in other delimiters, that closes none in between. -/
def Within (bra ket : Kind) (p : Parser Unit) : Prop :=
  ∃ body : Parser Unit, p = (do Parser.bump bra; body; Functor.discard (Parser.expect ket)) ∧
    body.Spares fun _ => True

theorem within_delimited {bra ket delim : Kind} {what : Expectation} {first recovery : KindSet}
    {element : Bool → Parser Bool} (hd : delim ≠ .rightBrace)
    (he : ∀ isFirst, (element isFirst).Spares fun _ => True) :
    Within bra ket (delimited bra ket delim what first recovery element) := by
  refine ⟨_, rfl, discard (loop fun isFirst => ?_)⟩
  refine bind (isAhead 0 _) fun _ => bind (isAhead 0 _) fun _ => ite (done _) ?_
  refine bind (isAhead 0 _) fun _ => ite (bind node fun _ => done _) ?_
  refine bind (watch (he isFirst)) fun _ => ite ?_ ?_
  · exact bind (isAtAny _) fun _ => bind isAtBraceOrEnd fun _ =>
      ite (done _) (bind (skipOne _) fun _ => done _)
  · exact bind (eat hd) fun _ => ite (done _) (bind (isAtAny _) fun _ =>
      ite (bind (discard (expect hd)) fun _ => done _) (done _))

theorem untilBrace {p : Parser Unit} {Q : Unit → Prop} (hp : p.Spares fun _ => True) :
    (Parser.untilBrace p).Spares Q :=
  while_ (bind (isAhead 0 _) fun _ => bind (isAhead 0 _) fun _ => ite (done _) (bind hp fun _ => done _))

theorem orSkip (what : Expectation) {p : Parser Unit} {Q : Unit → Prop} (hp : p.Spares fun _ => True) :
    (Parser.orSkip what p).Spares Q :=
  whenNot (bind (watch hp) fun _ => done _) node

/-! ## Rules -/

theorem atPath {Q : Bool → Prop} : Parser.atPath.Spares Q :=
  bind (isAtAny _) fun _ => bind (isAhead 0 _) fun _ => done _

theorem pathWith {arguments : Parser Unit} {stops : Parser Bool} {Q : Unit → Prop}
    (hs : stops.Spares fun _ => True) : (Parser.pathWith arguments stops).Spares Q :=
  bind (discard nodeOf) fun _ => while_ (bind (isAhead 0 _) fun _ => ite (done _) (bind hs fun _ =>
    ite (done _) (bind (discard wrap) fun _ => done _)))

theorem expressionPath {Q : Unit → Prop} : Parser.expressionPath.Spares Q := pathWith (done _)

theorem usePath {Q : Unit → Prop} : Parser.usePath.Spares Q :=
  pathWith (bind (nth 2) fun k => by split <;> exact done _)

theorem visibility? {Q : Bool → Prop} : Parser.visibility?.Spares Q :=
  bind (isAhead 0 _) fun _ => ite (done _) (bind node fun _ => done _)

theorem type (bounds : Bool) : (Parser.type bounds).Spares fun _ => True := by
  refine discard (nested (bind (nth 0) fun k => ?_))
  split
  · exact discard nodeOf
  · exact node
  · exact node
  · exact node
  · exact discard nodeOf
  · exact node
  · exact node
  · exact node
  · exact bind atPath fun _ => ite node (recover _ _)

theorem literal? {Q : Option Kind → Prop} : Parser.literal?.Spares Q :=
  bind (isAtAny _) fun _ => ite (bind nodeOf fun _ => done _) (done _)

theorem atBinding {Q : Bool → Prop} : Parser.atBinding.Spares Q := by
  refine bind (nth 0) fun k => ?_
  split
  · exact bind (isAhead 1 _) fun _ => bind (nth 1) fun _ => done _
  · exact bind (isAhead 1 _) fun _ => bind (nth 1) fun _ => done _
  · exact done _
  · exact done _
  · exact done _

theorem pattern : Parser.pattern.Spares fun _ => True := by
  refine discard (nested (bind (nth 0) fun k => ?_))
  split
  · exact node
  · exact node
  · exact node
  · refine bind (isAhead 0 _) fun _ => ite node (bind atBinding fun _ => ite node ?_)
    refine bind (isAhead 0 _) fun _ => bind (isAtAny _) fun _ => ite node ?_
    exact bind atPath fun _ => ite (bind expressionPath fun _ => discard wrap) (recover _ _)

theorem suffixes (e : Operand) (callable : Bool) {Q : Operand → Prop} :
    (Parser.suffixes e callable).Spares Q := by
  refine bind (loop fun (e, callable) => bind (nth 0) fun k => ?_) fun _ => done _
  split
  · exact ite (bind wrap fun _ => done _) (done _)
  · exact ite (bind wrap fun _ => done _) (done _)
  · exact bind (isAhead 0 _) fun _ => ite (done _) (bind wrap fun _ => done _)
  · exact bind wrap fun _ => done _
  · exact done _

theorem atModifiedBlock {Q : Bool → Prop} : Parser.atModifiedBlock.Spares Q := by
  have isNth (n : Fin 4) (k : Kind) {Q : Bool → Prop} : (Parser.isNth n k).Spares Q :=
    bind (nth n) fun _ => done _
  refine bind (nth 0) fun k => ?_
  split
  · exact isNth _ _
  · exact isNth _ _
  · exact bind (isNth _ _) fun _ => ite (done _) (both (isNth _ _) (isNth _ _))
  · exact done _

theorem compound? (r : Restrictions) {Q : Option Kind → Prop} : (Parser.compound? r).Spares Q := by
  have lonely {Q : Option Kind → Prop} : lonelyModifier.Spares Q := bind (skipOne _) fun _ => done _
  refine bind (nth 0) fun k => ?_
  split
  · exact map nodeOf
  · exact map nodeOf
  · exact map nodeOf
  · exact bind (bind (nth 1) fun _ => done _) fun _ => ite (map nodeOf) lonely
  · exact map nodeOf
  · exact map nodeOf
  · exact map nodeOf
  · exact map nodeOf
  · exact map nodeOf
  · exact map nodeOf
  · exact map nodeOf
  · exact bind atModifiedBlock fun _ => ite (map nodeOf) lonely
  · exact bind atModifiedBlock fun _ => ite (map nodeOf) lonely
  · exact bind atModifiedBlock fun _ => ite (map nodeOf) lonely
  · exact map nodeOf
  · exact map nodeOf
  · exact map nodeOf
  · exact bind (recover _ _) fun _ => done _

theorem atom? (r : Restrictions) {Q : Option Operand → Prop} : (Parser.atom? r).Spares Q := by
  have path : (pathExpression r).Spares fun _ => True := bind expressionPath fun _ => wrap
  refine bind literal? fun c => ?_
  split
  · exact done _
  · exact bind atPath fun _ => ite (bind path fun _ => done _) (bind (compound? r) fun _ => done _)

theorem operand (r : Restrictions) {Q : Option Operand → Prop} : (Parser.operand r).Spares Q := by
  refine bind (nth 0) fun k => ?_
  split
  · exact bind nodeOf fun _ => done _
  · exact bind nodeOf fun _ => done _
  · exact bind nodeOf fun _ => done _
  · exact bind nodeOf fun _ => done _
  · refine bind (isAhead 0 _) fun _ => bind (isAhead 0 _) fun _ => ite (bind nodeOf fun _ => done _) ?_
    refine bind (atom? r) fun e => ?_
    split
    · exact bind (suffixes _ _) fun _ => done _
    · exact done _

theorem operator? {Q : Option Operator → Prop} : Parser.operator?.Spares Q := by
  have first (os : List Operator) {Q : Option Operator → Prop} : (firstAt os).Spares Q := by
    induction os with
    | nil => exact done _
    | cons o os ih => exact bind (isAhead 0 _) fun _ => ite (done _) ih
  exact bind (nth 0) fun k => first _

theorem climbing (r : Restrictions) (power : Nat) {Q : Option Operand → Prop} :
    (Parser.climbing r power).Spares Q := by
  refine bind (operand r) fun lhs => ?_
  split
  · refine ite (done _) (bind (loop fun whole => bind operator? fun o => ?_) fun _ => done _)
    split
    · exact ite (done _) (bind wrap fun _ => done _)
    · exact done _
  · exact done _

theorem useTree (topLevel : Bool) : (Parser.useTree topLevel).Spares fun _ => True := by
  have group {Q : Unit → Prop} : globOrList.Spares Q := by
    refine bind (nth 0) fun k => ?_
    split
    · exact bump (by decide)
    · exact list _
    · exact error _
  have root {Q : Bool → Prop} : atRootGroup.Spares Q :=
    both (isAhead 0 _) (bind (nth 2) fun k => by split <;> exact done _)
  have tail {Q : Unit → Prop} : useTail.Spares Q :=
    bind (isAhead 0 _) fun _ => ite node (when (eat (by decide)) group)
  have tree {Q : Option Kind → Prop} : useTree?.Spares Q := by
    refine enclose (bind (nth 0) fun k => ?_)
    split
    · exact bind (bump (by decide)) fun _ => done _
    · exact bind (list _) fun _ => done _
    · refine bind root fun _ => ite (bind (bump (by decide)) fun _ => bind group fun _ => done _) ?_
      exact bind atPath fun _ => ite (bind usePath fun _ => bind tail fun _ => done _) (done _)
  exact bind tree fun _ => bind (when (done _) (recover _ _)) fun _ => done _

/-- Where no item is found, nothing but a visibility has been taken. -/
theorem item : Parser.item.Spares fun _ => True := by
  have found {p : Parser Kind} : (some <$> p).Spares (· = none) := never nofun
  have declared : declaration?.Spares (· = none) := by
    refine bind (nth 0) fun k => ?_
    split
    · refine bind (nth 1) fun k => ?_
      split
      · exact found
      · exact found
      · exact done _
    · refine bind (nth 1) fun k => ?_
      split
      · exact found
      · exact found
      · exact done _
    · exact found
    · exact found
    · exact found
    · exact found
    · exact found
    · exact found
    · exact found
    · exact found
    · exact done _
  have count {Q : Fin 4 → Prop} : modifierCount.Spares Q :=
    bind (nth 0) fun _ => ite (done _) (bind (nth 1) fun _ => ite (done _) (bind (nth 2) fun _ =>
      ite (done _) (done _)))
  refine bind (enclose (bind visibility? fun visible => bind count fun n => bind (nth n) fun k => ?_))
    fun _ => done _
  refine ite (never nofun) (bindOf declared (fun a => ?_) fun a ha input d depth s => ?_)
  · split
    · exact done _
    · exact ite (bind (error _) fun _ => done _) (done _)
  · obtain ⟨k, rfl⟩ := Option.ne_none_iff_exists'.mp ha
    exact nofun

/-- The body of a rule. -/
theorem rule (r : Rule) : r.body.Spares fun _ => True := by
  cases r with
  | type bounds => exact type bounds
  | pattern => exact pattern
  | expression r power => exact map (nested (climbing r power))
  | item => exact item
  | letStatement => exact node
  | useTree topLevel => exact useTree topLevel
  | ifExpression => exact nodeOf

/-! ## Lists -/

theorem statement {Q : Unit → Prop} : Parser.statement.Spares Q := by
  have expressionStatement {Q : Unit → Prop} : expressionStatement.Spares Q := by
    refine discard (enclose (bind (call (.expression _ 1)) fun e => ?_))
    split
    · exact bind (isAhead 0 _) fun _ => ite (done _) (bind (eat (by decide)) fun _ =>
        bind (when (done _) (error _)) fun _ => done _)
    · exact done _
  refine bind (nth 0) fun k => ?_
  split
  · exact bump (by decide)
  · exact call .letStatement
  · exact bind (call .item) fun _ => ite
      (bind (isAtAny _) fun _ => ite expressionStatement (skipOne _)) (done _)

theorem itemOrError {Q : Unit → Prop} : Parser.itemOrError.Spares Q := by
  refine bind (call .item) fun found => ite (bind (nth 0) fun k => ?_) (done _)
  split
  · exact node
  · exact node
  · exact skipOne _

theorem matchArm {Q : Unit → Prop} : Parser.matchArm.Spares Q :=
  bind (isAtAny _) fun _ => bind (isAhead 0 _) fun _ => ite node (skipOne _)

theorem recordField (isFirst : Bool) {Q : Bool → Prop} : (Parser.recordField isFirst).Spares Q :=
  bind (isAtAny _) fun _ => ite (done _) (bind node fun _ => done _)

theorem variant (isFirst : Bool) {Q : Bool → Prop} : (Parser.variant isFirst).Spares Q :=
  bind (isAtAny _) fun _ => ite (done _) (bind node fun _ => done _)

/-- What stands in the braces of a list. -/
theorem within_fragment (f : Fragment) : Within .leftBrace .rightBrace f.body := by
  have items : Within .leftBrace .rightBrace bracedItems :=
    ⟨_, rfl, discard (nested (while_ (bind (isAhead 0 _) fun _ => bind (isAhead 0 _) fun _ =>
      ite (done _) (bind itemOrError fun _ => done _))))⟩
  cases f with
  | stmtList => exact ⟨_, rfl, untilBrace (orSkip _ statement)⟩
  | recordFieldList => exact within_delimited (by decide) fun isFirst => recordField isFirst
  | itemList => exact items
  | assocItemList => exact items
  | variantList => exact within_delimited (by decide) fun isFirst => variant isFirst
  | matchArmList =>
    exact ⟨_, rfl, untilBrace (bind (isAhead 0 _) fun _ => ite node (orSkip _ matchArm))⟩
  | useTreeList => exact within_delimited (by decide) fun _ => call (.useTree false)

end Spares

theorem sparing_drafters (input : Input) (levels : Nat) : Sparing (drafters input levels) := by
  induction levels with
  | zero => exact ⟨fun _ _ _ hs => hs.cons nofun, fun _ _ _ hs => hs.cons nofun⟩
  | succ levels ih =>
    exact ⟨fun r depth s hs => Spares.rule r input _ depth s ih trivial hs, fun _ _ _ hs => hs.cons nofun⟩

theorem draft_expect (k : Kind) (input : Input) (d : Drafters) (depth : Nat) (s : Frame) :
    ((discard (expect k)).draft input d depth s).2 =
      if input.isAt s.pos k then s.take k k.pieces.length else s.write (.error (.missing k)) := by
  by_cases here : input.isAt s.pos k = true <;>
    simp [Functor.discard, Functor.mapConst, expect, Bind.bind, Pure.pure, draft, here]

/-- A list takes a closing brace as the last thing, or none but inside of nodes. -/
theorem closed_of_within {bra : Kind} (hb : bra ≠ .rightBrace) {p : Parser Unit}
    (h : Spares.Within bra .rightBrace p) (input : Input) {d : Drafters} (hd : Sparing d) (depth : Nat)
    (s : Frame) : (p.draft input d depth s.opened).2.row.head? = some (.token .rightBrace 1) ∨
      Unclosed (p.draft input d depth s.opened).2.row := by
  obtain ⟨body, rfl, spares⟩ := h
  have between : Unclosed ((do bump bra; body : Parser Unit).draft input d depth s.opened).2.row :=
    Spares.bind (Spares.bump hb) (fun _ => spares) input d depth _ hd trivial unclosed_nil
  change ((discard (expect .rightBrace)).draft input d depth
      ((do bump bra; body : Parser Unit).draft input d depth s.opened).2).2.row.head? = _ ∨
    Unclosed ((discard (expect .rightBrace)).draft input d depth
      ((do bump bra; body : Parser Unit).draft input d depth s.opened).2).2.row
  rw [draft_expect]
  split
  · exact .inl rfl
  · exact .inr (between.cons nofun)

end Parser
end Verbatim
