import Verbatim.Proofs.Wp

/-!
# The steps that rules are made of

One statement for each step of the parser and for each way to put steps together. The rules of the
grammar are composed of these in the same way in which they are written.
-/
namespace Verbatim.Parser.Site

variable {c : Site} {α β σ : Type}

/-! ## Taking tokens -/

/-- Any token but a closing brace can be taken anywhere. -/
theorem steady_take {k : Kind} {i : Nat} (hk : k ≠ .rightBrace) (he : k ≠ .eof)
    (h : c.input.isAt i k = true) : c.Steady i (i + k.pieces.length) :=
  ⟨Nat.le_add_right _ _, fun _ => Input.keepsOpen_of_isAt hk he h⟩

theorem From.eat {k : Kind} {s : Spot} {R : Bool → Spot → Prop} (hk : k ≠ .rightBrace)
    (he : k ≠ .eof) (yes : c.input.isAt s.pos k = true → R true ⟨s.pos + k.pieces.length, false⟩)
    (no : c.input.isAt s.pos k = false → R false s) : c.From (eat k) s R :=
  fun _ => ⟨he, fun h => ⟨steady_take hk he h, yes h⟩, fun h => ⟨Steady.refl _ _ s.pos, no h⟩⟩

theorem calm_eat {k : Kind} (hk : k.IsOrdinary) :
    c.Calm (eat k) :=
  fun _ => .eat hk.1 hk.2 (fun _ => trivial) (fun _ => trivial)

/-- Behind a token rules may be called. -/
theorem From.behind {p : Parser α} {next : α → Parser β} {s : Spot} {M : α → Spot → Prop}
    {R : β → Spot → Prop} (hp : c.From p s fun a t => s.pos < t.pos ∧ M a t)
    (hn : ∀ a t, c.floor ≤ 2 * t.pos → s.pos < t.pos → M a t → c.From (next a) t R) :
    c.From (p >>= next) s R :=
  fun room => From.bind hp (fun a t _ ht => hn a t (by omega) ht.1 ht.2) room

theorem From.bump {k : Kind} {s : Spot} {R : Unit → Spot → Prop} (hk : k ≠ .rightBrace)
    (he : k ≠ .eof) (hs : c.input.isAt s.pos k = true) (h : R () ⟨s.pos + k.pieces.length, false⟩) :
    c.From (bump k) s R := by
  refine From.bind (M := fun a t => a = true ∧ t = ⟨s.pos + k.pieces.length, false⟩)
    (.eat hk he (fun _ => ⟨rfl, rfl⟩) fun no => ?_) fun a t _ ⟨ha, ht⟩ => ?_
  · rw [hs] at no
    contradiction
  · subst ha ht
    exact .pure h

theorem takes_bump {k : Kind} (hk : k.IsOrdinary) :
    c.Takes k (bump k) :=
  fun _ hs => .bump hk.1 hk.2 hs (Nat.lt_add_of_pos_right k.length_pieces_pos)

theorem From.bumpAny {s : Spot} {R : Unit → Spot → Prop}
    (hk : c.shallow → c.input.kind s.pos ≠ .rightBrace) (he : c.input.kind s.pos ≠ .eof)
    (h : R () ⟨s.pos + 1, false⟩) : c.From bumpAny s R := by
  intro _
  exact ⟨fun _ => ⟨⟨Nat.le_succ _, fun hs => Input.keepsOpen_succ (hk hs)⟩, h⟩, fun hs => absurd hs he⟩

theorem From.error {cause : Cause} {s : Spot} {R : Unit → Spot → Prop} (h : R () ⟨s.pos, false⟩) :
    c.From (error cause) s R :=
  fun _ => ⟨Steady.refl _ _ s.pos, h⟩

theorem calm_error (cause : Cause) : c.Calm (error cause) :=
  fun _ => .error trivial

theorem calm_expected (what : Expectation) : c.Calm (expected what) := calm_error _

theorem calm_expect {k : Kind} (hk : k.IsOrdinary) :
    c.Calm (expect k) := by
  refine calm_eat hk |>.bind fun a => ?_
  cases a with
  | true => exact .pure true
  | false => exact (calm_error _).bind fun _ => .pure false

/-! ## Tests -/

theorem From.when {test : Parser Bool} {body : Parser Unit} {s : Spot} {M : Bool → Spot → Prop}
    {R : Unit → Spot → Prop} (ht : c.From test s M)
    (yes : ∀ t, c.Steady s.pos t.pos → M true t → c.From body t R)
    (no : ∀ t, M false t → R () t) : c.From (when test body) s R := by
  refine ht.bind fun a t hst ha => ?_
  cases a with
  | true => exact yes t hst ha
  | false => exact .pure (no t ha)

theorem From.whenNot {test : Parser Bool} {body : Parser Unit} {s : Spot} {M : Bool → Spot → Prop}
    {R : Unit → Spot → Prop} (ht : c.From test s M)
    (no : ∀ t, c.Steady s.pos t.pos → M false t → c.From body t R)
    (yes : ∀ t, M true t → R () t) : c.From (whenNot test body) s R := by
  refine ht.bind fun a t hst ha => ?_
  cases a with
  | true => exact .pure (yes t ha)
  | false => exact no t hst ha

theorem Calm.when {test : Parser Bool} {body : Parser Unit} (ht : c.Calm test) (hb : c.Calm body) :
    c.Calm (when test body) :=
  fun s => .when (ht s) (fun t _ _ => hb t) fun _ _ => trivial

theorem Calm.whenNot {test : Parser Bool} {body : Parser Unit} (ht : c.Calm test)
    (hb : c.Calm body) : c.Calm (whenNot test body) :=
  fun s => .whenNot (ht s) (fun t _ _ => hb t) fun _ _ => trivial

theorem Fine.when {test : Parser Bool} {body : Parser Unit} (ht : c.Fine test) (hb : c.Fine body) :
    c.Fine (when test body) :=
  fun s hs => .when (ht s hs) (fun t hst _ => hb t (by have := hst.le; omega)) fun _ _ => trivial

theorem Fine.whenNot {test : Parser Bool} {body : Parser Unit} (ht : c.Fine test)
    (hb : c.Fine body) : c.Fine (whenNot test body) :=
  fun s hs =>
    .whenNot (ht s hs) (fun t hst _ => hb t (by have := hst.le; omega)) fun _ _ => trivial

/-- What is run where its first token is needs no room for calls. -/
theorem Takes.whenAt {k : Kind} {body : Parser Unit} (h : c.Takes k body) :
    c.Calm (when (isAt k) body) := by
  intro s
  refine .when (Tells.isAt k s).from (fun t _ ht => ?_) fun _ _ => trivial
  obtain ⟨hk, rfl⟩ := ht
  exact (h t hk.symm).imp fun _ _ _ _ => trivial

/-- A token, and behind it whatever needs room for calls. -/
theorem Fine.whenEat {k : Kind} {body : Parser Unit} (h : c.Fine body) (hk : k.IsOrdinary) :
    c.Calm (Parser.when (Parser.eat k) body) := by
  intro s hf
  refine From.when (M := fun a t => a = true → s.pos < t.pos) (.eat hk.1 hk.2 (fun _ _ => ?_) (by simp))
    (fun t _ ht => ?_) (fun _ _ => trivial) hf
  · exact Nat.lt_add_of_pos_right k.length_pieces_pos
  · have := ht rfl
    exact (h t (by omega)).imp fun _ _ _ _ => trivial

theorem Takes.ifAt {k : Kind} {p q : Parser α} (hp : c.Takes k p) (hq : c.Calm q) :
    c.Calm (isAt k >>= fun b => if b = true then p else q) := by
  intro s
  refine (Tells.isAt k s).bind ?_
  split
  · next h => exact (hp s h).imp fun _ _ _ _ => trivial
  · exact hq s

theorem Takes.ifAtFine {k : Kind} {p q : Parser α} (hp : c.Takes k p) (hq : c.Fine q) :
    c.Fine (isAt k >>= fun b => if b = true then p else q) := by
  intro s hs
  refine (Tells.isAt k s).bind ?_
  split
  · next h => exact (hp s h).imp fun _ _ _ _ => trivial
  · exact hq s hs

theorem calm_isAt (k : Kind) : c.Calm (isAt k) := fun s => (Tells.isAt k s).from.imp fun _ _ _ _ => trivial

theorem calm_isAtAny (ks : KindSet) : c.Calm (isAtAny ks) :=
  fun s => (Tells.isAtAny ks s).from.imp fun _ _ _ _ => trivial

theorem Calm.ite {b : Bool} {p q : Parser α} (hp : c.Calm p) (hq : c.Calm q) :
    c.Calm (if b = true then p else q) := by
  split
  · exact hp
  · exact hq

theorem Fine.ite {b : Bool} {p q : Parser α} (hp : c.Fine p) (hq : c.Fine q) :
    c.Fine (if b = true then p else q) := by
  split
  · exact hp
  · exact hq

/-! ## Nodes -/

theorem From.nodeOf {body : Parser Kind} {s : Spot} {R : Kind → Spot → Prop}
    (h : c.opened.From body ⟨s.pos, false⟩ fun k t => k.Spans s.pos t.pos ∧ R k ⟨t.pos, true⟩) :
    c.From (nodeOf body) s R := by
  intro hf
  refine ⟨True, ?_⟩
  have site : { c with fresh := c.fresh ∨ True } = c.opened := by simp [opened]
  rw [site]
  exact wp_mono (fun _ _ ht => ⟨ht.2.1, ht.1, ht.1, ht.2.2⟩) (h hf)

theorem From.nodeSpanning {k : Kind} {body : Parser Unit} {s : Spot} {R : Unit → Spot → Prop}
    (h : c.opened.From body ⟨s.pos, false⟩ fun _ t => k.Spans s.pos t.pos ∧ R () ⟨t.pos, true⟩) :
    c.From (node k body) s R := by
  intro hf
  refine ⟨True, ?_⟩
  have site : { c with fresh := c.fresh ∨ True } = c.opened := by simp [opened]
  rw [site]
  exact wp_mono (fun _ _ ht => ⟨ht.2.1, ht.1, ht.1, ht.2.2⟩) (h hf)

theorem From.node {k : Kind} {body : Parser Unit} {s : Spot} {R : Unit → Spot → Prop}
    (hk : k.IsPlain) (h : c.opened.From body ⟨s.pos, false⟩ fun _ t => R () ⟨t.pos, true⟩) :
    c.From (node k body) s R :=
  .nodeSpanning (h.imp fun _ _ _ ht => ⟨.of_plain hk, ht⟩)

/-- A node that may be given up. If it is foreseen that it is not, its body may rely on it. -/
theorem From.nodeIf {body : Parser (Option Kind)} {s : Spot} {R : Option Kind → Spot → Prop}
    (kept : Prop)
    (h : Site.From { c with fresh := c.fresh ∨ kept } body ⟨s.pos, false⟩ fun a t =>
      match a with
      | some k => k.Spans s.pos t.pos ∧ R (some k) ⟨t.pos, true⟩
      | none => ¬ kept ∧ R none ⟨t.pos, false⟩) : c.From (nodeIf body) s R := by
  intro hf
  refine ⟨kept, wp_mono (fun a t ht => ?_) (h hf)⟩
  cases a with
  | none => exact ⟨ht.2.1, ht.1, ht.2.2⟩
  | some k => exact ⟨ht.2.1, ht.1, ht.1, ht.2.2⟩

theorem From.wrap {body : Parser Kind} {s : Spot} {R : Kind → Spot → Prop} (hs : s.ready = true)
    (h : c.opened.From body ⟨s.pos, false⟩ fun k t => k.IsProper ∧ R k ⟨t.pos, true⟩) :
    c.From (wrap body) s R :=
  fun hf => ⟨hs, wp_mono (fun _ _ ht => ⟨ht.2.1, ht.1, ht.1, ht.2.2⟩) (h hf)⟩

theorem Calm.node {k : Kind} {body : Parser Unit} (hk : k.IsPlain) (h : c.opened.Calm body) :
    c.Calm (node k body) :=
  fun s => .node hk (h ⟨s.pos, false⟩)

theorem Fine.node {k : Kind} {body : Parser Unit} (hk : k.IsPlain) (h : c.opened.Fine body) :
    c.Fine (node k body) :=
  fun s hs => .node hk (h ⟨s.pos, false⟩ hs)

theorem Takes.node {k kind : Kind} {body : Parser Unit} (hk : kind.IsPlain)
    (h : c.opened.Takes k body) : c.Takes k (node kind body) :=
  fun s hs => .node hk (h ⟨s.pos, false⟩ hs)

/-- The program runs from wherever rules may be called, and yields the kind of a node. -/
def Forms (c : Site) (p : Parser Kind) : Prop :=
  ∀ s : Spot, c.floor ≤ 2 * s.pos → c.From p s fun k _ => k.IsProper

theorem forms_pure {k : Kind} (hk : k.IsProper) : c.Forms (Pure.pure k) :=
  fun _ _ => .pure hk

theorem Fine.forms {p : Parser α} {next : α → Parser Kind} (hp : c.Fine p)
    (hn : ∀ a, c.Forms (next a)) : c.Forms (p >>= next) :=
  fun s hs => (hp s hs).bind fun a t ht _ => hn a t (by have := ht.le; omega)

/-- The program takes a token of kind `k` and yields the kind of a node. -/
def Opens (c : Site) (k : Kind) (p : Parser Kind) : Prop :=
  ∀ s : Spot, c.input.isAt s.pos k = true → c.From p s fun kind t => kind.IsProper ∧ s.pos < t.pos

theorem Takes.opens {k : Kind} {p : Parser α} {next : α → Parser Kind} (hp : c.Takes k p)
    (hn : ∀ a, c.Forms (next a)) : c.Opens k (p >>= next) := by
  intro s hk hf
  refine From.bind (hp s hk) (fun a t ht hlt => ?_) hf
  have moved : c.floor ≤ 2 * t.pos := by omega
  exact (hn a t moved).imp fun b u hu hb => ⟨hb, Nat.lt_of_lt_of_le hlt hu.le⟩

/-- The program takes a token of kind `k` and ends in a node. -/
def Makes (c : Site) (k : Kind) (p : Parser α) : Prop :=
  ∀ s : Spot, c.input.isAt s.pos k = true →
    c.From p s fun _ t => t.ready = true ∧ s.pos < t.pos

theorem Opens.nodeOf {k : Kind} {body : Parser Kind} (h : c.opened.Opens k body) :
    c.Makes k (nodeOf body) :=
  fun s hs => .nodeOf ((h ⟨s.pos, false⟩ hs).imp fun _ _ _ ht => ⟨ht.1.spans ht.2, rfl, ht.2⟩)

theorem Makes.takes {k : Kind} {p : Parser α} (h : c.Makes k p) : c.Takes k p :=
  fun s hs => (h s hs).imp fun _ _ _ ht => ht.2

theorem Makes.from {k : Kind} {p : Parser α} (h : c.Makes k p) {s : Spot}
    (hs : c.input.isAt s.pos k = true) :
    c.From p s fun _ t => t.ready = true ∧ s.pos < t.pos := h s hs

/-- A node around the one completed last that starts with a token of kind `k`. -/
theorem From.wrapOpens {k : Kind} {body : Parser Kind} {s : Spot} (h : c.opened.Opens k body)
    (hs : s.ready = true) (hk : c.input.isAt s.pos k = true) :
    c.From (Parser.wrap body) s fun _ t => t.ready = true ∧ s.pos < t.pos :=
  .wrap hs ((h ⟨s.pos, false⟩ hk).imp fun _ _ _ ht => ⟨ht.1, rfl, ht.2⟩)

/-! ## Loops -/

/-- What a round of a loop has to do: end in `R`, or take a token and go on with `I`. -/
@[reducible] def Round (I R : σ → Spot → Prop) (t : Spot) : ForInStep σ → Spot → Prop
  | .done b, u => R b u
  | .yield b, u => t.pos < u.pos ∧ I b u

theorem From.loop {a : σ} {body : σ → Parser (ForInStep σ)} {s : Spot} {R : σ → Spot → Prop}
    (I : σ → Spot → Prop) (start : I a s)
    (round : ∀ b t, c.Steady s.pos t.pos → I b t → c.From (body b) t (Round I R t)) :
    c.From (loop a body) s R := by
  intro hf
  refine ⟨fun b t => c.Steady s.pos t.pos ∧ I b t, ⟨Steady.refl _ _ s.pos, start⟩, fun b t hb => ?_⟩
  have room : c.floor ≤ 2 * t.pos + 2 := by have := hb.1.le; omega
  refine wp_mono (fun r u hu => ?_) (round b t hb.1 hb.2 room)
  cases r with
  | done b => exact ⟨hb.1.trans hu.1, hu.2⟩
  | yield b => exact ⟨hu.2.1, hb.1.trans hu.1, hu.2.2⟩

theorem From.while {body : Parser Bool} {s : Spot} {R : Unit → Spot → Prop} (I : Spot → Prop)
    (start : I s)
    (round : ∀ t, c.Steady s.pos t.pos → I t → c.From body t fun more u =>
      if more = true then t.pos < u.pos ∧ I u else R () u) : c.From (while_ body) s R := by
  refine From.loop (fun _ => I) start fun _ t hst ht => ?_
  refine (round t hst ht).bind fun more u _ hu => ?_
  cases more with
  | true => exact .pure hu
  | false => exact .pure hu

theorem calm_while {body : Parser Bool}
    (round : ∀ t, c.From body t fun more u => more = true → t.pos < u.pos) : c.Calm (while_ body) := by
  intro s
  refine .while (fun _ => True) trivial fun t _ _ => (round t).imp fun more u _ hu => ?_
  split
  · next h => exact ⟨hu h, trivial⟩
  · trivial

theorem fine_while {body : Parser Bool}
    (round : ∀ t : Spot, c.floor ≤ 2 * t.pos →
      c.From body t fun more u => more = true → t.pos < u.pos) : c.Fine (while_ body) := by
  intro s hs
  refine .while (fun _ => True) trivial fun t hst _ => ?_
  refine (round t (by have := hst.le; omega)).imp fun more u _ hu => ?_
  split
  · next h => exact ⟨hu h, trivial⟩
  · trivial

theorem From.watch {body : Parser α} {s : Spot} {M : α → Spot → Prop} (h : c.From body s M) :
    c.From (watch body) s fun r t =>
      M r.1 t ∧ (r.2 = true → s.pos < t.pos) ∧ (r.2 = false → t.pos = s.pos) := by
  intro hf
  change body.wp c s _
  refine wp_mono (fun a t ht => ⟨ht.1, ht.2, fun hne => ?_, fun heq => by simpa using heq⟩) (h hf)
  have := ht.1.le
  have : t.pos ≠ s.pos := by simpa using hne
  omega

/-! ## Calls -/

theorem From.call {r : Rule} {s : Spot} (hs : c.floor ≤ 2 * s.pos) (hr : r.startsNested → c.fresh)
    (hk : r.Requires c.input s.pos) :
    c.From (call r) s fun a t => r.Ensures c.input s.pos a t.pos :=
  fun _ => ⟨hs, hr, hk, fun _ _ hj he => ⟨hj, he⟩⟩

/-- A rule that starts with a nesting step is called inside of a node. -/
theorem fine_call (r : Rule) (hr : c.fresh) (hk : ∀ i, r.Requires c.input i) : c.Fine (call r) :=
  fun s hs => (From.call hs (fun _ => hr) (hk s.pos)).imp fun _ _ _ _ => trivial

theorem fine_type {bounds : Bool} (hr : c.fresh) : c.Fine (call (.type bounds)) :=
  fine_call _ hr fun _ => trivial

theorem fine_pattern (hr : c.fresh) : c.Fine (call .pattern) :=
  fine_call _ hr fun _ => trivial

theorem fine_operand {r : Restrictions} {power : Nat} (hr : c.fresh) :
    c.Fine (call (.expression r power)) :=
  fine_call _ hr fun _ => trivial

theorem fine_useTree {topLevel : Bool} (hr : c.fresh) : c.Fine (call (.useTree topLevel)) :=
  fine_call _ hr fun _ => trivial

/-- A list may be called where the rule around it starts. -/
theorem From.list {f : Fragment} {s : Spot} (hs : c.floor ≤ 2 * s.pos + 1)
    (hk : c.input.kind s.pos = .leftBrace) :
    c.From (list f) s fun _ t => s.pos < t.pos ∧ t.ready = true :=
  fun _ => ⟨hs, hk, fun _ hj hlt => ⟨hj, hlt, rfl⟩⟩

end Verbatim.Parser.Site
