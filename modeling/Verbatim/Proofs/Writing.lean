import Verbatim.Proofs.Grouping

/-!
# What a program writes where it reports nothing

Programs that write one node, go on from the node in front, only read, or write some nodes and tokens: what
is known of a program in one of these ways is put together from what is known of its parts. All of it is
about runs that report nothing, and all that is written is grouped.
-/
namespace Verbatim

open Outline Skeleton Verbatim.Parser

namespace Parser

variable {input : Input} {d : Drafters} {α β : Type}

/-! ## Programs that end in a node -/

/-- The last element of a row is a node in `P` in which all is grouped, behind `older`. -/
def Frame.EndsIn (t : Frame) (older : List Skeleton) (P : Skeleton → Prop) : Prop :=
  ∃ x, skeletonOf t.row = older ++ [x] ∧ x.isNode = true ∧ x.All Grouped ∧ P x

theorem Frame.EndsIn.imp {t : Frame} {older : List Skeleton} {P P' : Skeleton → Prop}
    (h : t.EndsIn older P) (hP : ∀ x, P x → P' x) : t.EndsIn older P' := by
  obtain ⟨x, row, node, all, hx⟩ := h
  exact ⟨x, row, node, all, hP x hx⟩

theorem Frame.EndsIn.grouped {t : Frame} {older : List Skeleton} {P : Skeleton → Prop}
    (h : t.EndsIn older P) (ho : AllOf Grouped older) : GroupedOf t.row := by
  obtain ⟨x, row, -, all, -⟩ := h
  rw [GroupedOf, row]
  exact allOf_append.mpr ⟨ho, all, trivial⟩

/-- A program that writes one node in `Q`, where it reports nothing. -/
def Adds (input : Input) (d : Drafters) (p : Parser α) (Q : α → Nat → Skeleton → Prop) : Prop :=
  ∀ depth s, GroupedOf s.row → QuietOf (p.draft input d depth s).2.row →
    (p.draft input d depth s).2.EndsIn (skeletonOf s.row)
      (Q (p.draft input d depth s).1 (p.draft input d depth s).2.pos)

/-- A program that goes on from a node in `P` and leaves one in `Q` in its place, where it reports
nothing. -/
def Covers (input : Input) (d : Drafters) (P : Nat → Skeleton → Prop) (p : Parser α)
    (Q : α → Nat → Skeleton → Prop) : Prop :=
  ∀ depth s older, AllOf Grouped older → s.EndsIn older (P s.pos) →
    QuietOf (p.draft input d depth s).2.row → (p.draft input d depth s).2.EndsIn older
      (Q (p.draft input d depth s).1 (p.draft input d depth s).2.pos)

/-- A program that only reads. -/
def Reads (input : Input) (d : Drafters) (p : Parser α) : Prop :=
  ∀ depth s, (p.draft input d depth s).2 = s

section

variable {P : Nat → Skeleton → Prop} {Q : α → Nat → Skeleton → Prop} {Q' : β → Nat → Skeleton → Prop}

theorem Adds.imp {R : α → Nat → Skeleton → Prop} {p : Parser α} (h : Adds input d p Q)
    (hR : ∀ a i x, Q a i x → R a i x) : Adds input d p R :=
  fun depth s hs quiet => (h depth s hs quiet).imp (hR _ _)

theorem Adds.bind (hg : Growing d) {p : Parser α} {next : α → Parser β} (hp : Adds input d p Q)
    (hn : ∀ a, Covers input d (Q a) (next a) Q') : Adds input d (p >>= next) Q' := by
  intro depth s hs quiet
  have later := grown_draft input hg (next (p.draft input d depth s).1) depth (p.draft input d depth s).2
  exact hn _ depth _ _ hs (hp depth s hs (later.quiet quiet)) quiet

theorem Adds.map {p : Parser α} {f : α → β} (hp : Adds input d p fun a => Q' (f a)) :
    Adds input d (f <$> p) Q' := hp

theorem Adds.discard {p : Parser α} {Q' : Unit → Nat → Skeleton → Prop}
    (hp : Adds input d p fun _ => Q' ()) : Adds input d (Functor.discard p) Q' := hp

theorem Covers.discard {p : Parser α} {Q' : Unit → Nat → Skeleton → Prop}
    (hp : Covers input d P p fun _ => Q' ()) : Covers input d P (Functor.discard p) Q' := hp

theorem Covers.map {p : Parser α} {f : α → β} (hp : Covers input d P p fun a => Q' (f a)) :
    Covers input d P (f <$> p) Q' := hp

theorem Covers.pure {a : α} (h : ∀ i x, P i x → Q a i x) : Covers input d P (Pure.pure a) Q :=
  fun _ _ _ _ hs _ => hs.imp (h _)

theorem Covers.bind {M : α → Nat → Skeleton → Prop} (hg : Growing d) {p : Parser α}
    {next : α → Parser β} (hp : Covers input d P p M) (hn : ∀ a, Covers input d (M a) (next a) Q') :
    Covers input d P (p >>= next) Q' := by
  intro depth s older ho hs quiet
  have later := grown_draft input hg (next (p.draft input d depth s).1) depth (p.draft input d depth s).2
  exact hn _ depth _ older ho (hp depth s older ho hs (later.quiet quiet)) quiet

theorem Covers.weaken {P' : Nat → Skeleton → Prop} {p : Parser α} (hp : Covers input d P p Q)
    (h : ∀ i x, P' i x → P i x) : Covers input d P' p Q :=
  fun depth s older ho hs => hp depth s older ho (hs.imp (h _))

theorem Covers.ite {b : Prop} [Decidable b] {p q : Parser α} (hp : Covers input d P p Q)
    (hq : Covers input d P q Q) : Covers input d P (if b then p else q) Q := by
  split
  · exact hp
  · exact hq

theorem Adds.ite {b : Prop} [Decidable b] {p q : Parser α} (hp : Adds input d p Q)
    (hq : Adds input d q Q) : Adds input d (if b then p else q) Q := by
  split
  · exact hp
  · exact hq

theorem Reads.adds {p : Parser β} {next : β → Parser α} (hp : Reads input d p)
    (hn : ∀ b, Adds input d (next b) Q) : Adds input d (p >>= next) Q := by
  intro depth s hs quiet
  have split : (p >>= next).draft input d depth s =
      (next (p.draft input d depth s).1).draft input d depth s := by
    change (next _).draft input d depth (p.draft input d depth s).2 = _
    rw [hp]
  rw [split] at quiet ⊢
  exact hn _ depth s hs quiet

theorem Reads.covers {p : Parser β} {next : β → Parser α} (hp : Reads input d p)
    (hn : ∀ b, Covers input d P (next b) Q) : Covers input d P (p >>= next) Q := by
  intro depth s older ho hs quiet
  have split : (p >>= next).draft input d depth s =
      (next (p.draft input d depth s).1).draft input d depth s := by
    change (next _).draft input d depth (p.draft input d depth s).2 = _
    rw [hp]
  rw [split] at quiet ⊢
  exact hn _ depth s older ho hs quiet

theorem Reads.bind {p : Parser α} {next : α → Parser β} (hp : Reads input d p)
    (hn : ∀ a, Reads input d (next a)) : Reads input d (p >>= next) := fun depth s => by
  change ((next _).draft input d depth (p.draft input d depth s).2).2 = s
  rw [hp]
  exact hn _ depth s

theorem reads_pure (a : α) : Reads input d (Pure.pure a) := fun _ _ => rfl

theorem reads_current : Reads input d current := fun _ _ => rfl

theorem reads_isAt (k : Kind) : Reads input d (isAt k) := fun _ _ => rfl

theorem reads_isAtAny (ks : KindSet) : Reads input d (isAtAny ks) := fun _ _ => rfl

theorem reads_isNth (n : Fin 4) (k : Kind) : Reads input d (isNth n k) := fun _ _ => rfl

theorem Reads.ite {b : Prop} [Decidable b] {p q : Parser α} (hp : Reads input d p)
    (hq : Reads input d q) : Reads input d (if b then p else q) := by
  split
  · exact hp
  · exact hq

theorem reads_atPath : Reads input d atPath :=
  (reads_isAtAny _).bind fun _ => (reads_isAt _).bind fun _ => reads_pure _

theorem reads_atExpression (r : Restrictions) : Reads input d (atExpression r) :=
  (reads_isAtAny _).bind fun _ => (reads_isAt _).bind fun _ => reads_pure _

theorem reads_atModifiedBlock : Reads input d atModifiedBlock := by
  refine reads_current.bind fun k => ?_
  split
  · exact reads_isNth _ _
  · exact reads_isNth _ _
  · exact (reads_isNth _ _).bind fun _ => .ite (reads_pure _)
      ((reads_isNth _ _).bind fun _ => .ite (reads_isNth _ _) (reads_pure _))
  · exact reads_pure _

theorem Adds.assoc {γ : Type} {p : Parser γ} {q : γ → Parser β} {next : β → Parser α}
    (h : Adds input d (p >>= fun c => q c >>= next) Q) : Adds input d ((p >>= q) >>= next) Q := h

theorem Adds.pureBind {b : β} {next : β → Parser α} (h : Adds input d (next b) Q) :
    Adds input d (Pure.pure b >>= next) Q := h

theorem Covers.pureBind {b : β} {next : β → Parser α} (h : Covers input d P (next b) Q) :
    Covers input d P (Pure.pure b >>= next) Q := h

/-- A node over what a program writes. -/
theorem Adds.nodeOf {body : Parser Kind} {Q : Kind → Nat → Skeleton → Prop}
    (h : ∀ depth i k t, body.draft input d depth ⟨i, []⟩ = (k, t) → QuietOf t.row →
      (Skeleton.node k (skeletonOf t.row)).All Grouped ∧ Q k t.pos (.node k (skeletonOf t.row))) :
    Adds input d (Parser.nodeOf body) Q := by
  intro depth s hs quiet
  obtain ⟨all, hQ⟩ := h depth s.pos _ _ rfl quiet.2
  exact ⟨_, rfl, rfl, all, hQ⟩

/-- What a node is put around stands last in the row. -/
theorem draft_wrap_quiet (hg : Growing d) (body : Parser Kind) {depth : Nat} {s : Frame}
    (quiet : QuietOf ((wrap body).draft input d depth s).2.row) : ∃ x older, s.row = x :: older ∧
      x.isNode = true ∧ QuietOf (body.draft input d depth ⟨s.pos, []⟩).2.row ∧
        (wrap body).draft input d depth s = ((body.draft input d depth ⟨s.pos, []⟩).1,
          ⟨(body.draft input d depth ⟨s.pos, []⟩).2.pos,
            .around (body.draft input d depth ⟨s.pos, []⟩).1 x
              (body.draft input d depth ⟨s.pos, []⟩).2.row :: older⟩) := by
  have inside := (quiet_closeAround quiet).2
  have ends : s.endsInNode = true := by
    by_contra no
    have opened : s.openedAround = ⟨s.pos, [.fault .noStart]⟩ := by simp [Frame.openedAround, no]
    rw [opened] at inside
    exact ((grown_draft input hg body depth ⟨s.pos, [.fault .noStart]⟩).quiet inside).2
  have opened : s.openedAround = ⟨s.pos, []⟩ := by simp [Frame.openedAround, ends]
  obtain ⟨pos, row⟩ := s
  cases row with
  | nil => contradiction
  | cons x older =>
    have node : x.isNode = true := ends
    rw [opened] at inside
    refine ⟨x, older, rfl, node, inside, ?_⟩
    simp only [draft, opened, Frame.closeAround, node, if_true]

/-- A node around the one in front and what a program writes behind it. -/
theorem Covers.wrap (hg : Growing d) {body : Parser Kind} {Q : Kind → Nat → Skeleton → Prop}
    (h : ∀ depth i x k t, P i x → x.isNode = true → x.All Grouped →
      body.draft input d depth ⟨i, []⟩ = (k, t) → QuietOf t.row →
        (Skeleton.node k (x :: skeletonOf t.row)).All Grouped ∧
          Q k t.pos (.node k (x :: skeletonOf t.row))) : Covers input d P (wrap body) Q := by
  intro depth s older _ ⟨x, row, node, all, hx⟩ quiet
  obtain ⟨inner, rest, split, is_node, quiet, ran⟩ := draft_wrap_quiet hg body quiet
  obtain ⟨k, cs, shown⟩ := skeleton_of_isNode is_node
  rw [split, skeletonOf, shown] at row
  obtain ⟨same, last⟩ := List.append_inj' row rfl
  obtain rfl := (List.cons.inj last).1
  obtain ⟨all, hQ⟩ := h depth s.pos _ _ _ hx node all rfl quiet
  rw [ran]
  refine ⟨_, ?_, rfl, all, hQ⟩
  rw [skeletonOf, skeleton, same, shown]
  rfl

/-- A node of a kind that is no operation. -/
theorem Adds.other (hg : Growing d) (hc : Careful d) {body : Parser Kind}
    (h : (Parser.nodeOf body).Avoids fun k => k.isOperation = false) :
    Adds input d (Parser.nodeOf body) fun _ _ x => x.kind.isOperation = false := by
  refine .nodeOf fun depth i k t ran quiet => ?_
  have kept := grouped_draft input hg hc body h depth ⟨i, []⟩ trivial
  rw [ran] at kept
  obtain ⟨grouped, result⟩ := kept quiet
  have other := result.2 k rfl
  exact ⟨⟨grouped_of_kind other, grouped⟩, other⟩

theorem Adds.otherNode (hg : Growing d) (hc : Careful d) {k : Kind} {body : Parser Unit}
    (hk : k.isOperation = false) (h : body.Avoids fun _ => True) :
    Adds input d (Parser.node k body) fun _ _ x => x.kind.isOperation = false := by
  intro depth s hs quiet
  obtain ⟨grouped, -⟩ := grouped_draft input hg hc body h depth ⟨s.pos, []⟩ trivial quiet.2
  exact ⟨_, rfl, rfl, ⟨grouped_of_kind hk, grouped⟩, hk⟩

theorem Covers.other (hg : Growing d) (hc : Careful d) {body : Parser Kind}
    (h : (Parser.wrap body).Avoids fun k => k.isOperation = false) :
    Covers input d P (Parser.wrap body) fun _ _ x => x.kind.isOperation = false := by
  refine .wrap hg fun depth i x k t _ _ all ran quiet => ?_
  have kept := grouped_draft input hg hc body h depth ⟨i, []⟩ trivial
  rw [ran] at kept
  obtain ⟨grouped, result⟩ := kept quiet
  exact ⟨⟨grouped_of_kind result.2, all, grouped⟩, result.2⟩

/-- Nothing is asked of a program that always reports something. -/
theorem Adds.reported (hg : Growing d) (hc : Careful d) {p : Parser α} (h : p.Avoids fun _ => False) :
    Adds input d p Q := fun depth s hs quiet => (grouped_draft input hg hc p h depth s hs quiet).2.elim

theorem Adds.deeper {p atLimit : Parser α} (hp : Adds input d p Q) (hl : Adds input d atLimit Q) :
    Adds input d (Parser.deeper p atLimit) Q := by
  intro depth s hs quiet
  simp only [draft] at quiet ⊢
  split at quiet
  · next deep =>
    rw [if_pos deep]
    exact hl depth s hs quiet
  · next shallow =>
    rw [if_neg shallow]
    exact hp (depth + 1) s hs quiet

/-- A loop that goes on from node to node. -/
theorem Covers.loop {σ : Type} (hg : Growing d) {a : σ} {body : σ → Parser (ForInStep σ)}
    {Q : σ → Nat → Skeleton → Prop} (h : ∀ a, Covers input d P (body a) fun r i x =>
      match r with
      | .done b => Q b i x
      | .yield _ => P i x) : Covers input d P (loop a body) Q := by
  intro depth s older ho hs quiet
  refine quiet_iterate (I := fun _ t => t.EndsIn older (P t.pos))
    (R := fun b t => t.EndsIn older (Q b t.pos))
    (fun a s => grown_draft input hg (body a) depth s) (fun b t ht quiet => ?_) hs quiet
  have step := h b depth t older ho ht quiet
  cases hr : ((body b).draft input d depth t).1 with
  | done c =>
    rw [hr] at step
    exact step
  | yield c =>
    rw [hr] at step
    exact step

end

/-! ## Rows -/

/-- A program that writes some nodes and tokens, where it reports nothing. -/
def Writes (input : Input) (d : Drafters) (p : Parser α) (W : α → Nat → List Skeleton → Prop) : Prop :=
  ∀ depth s, GroupedOf s.row → QuietOf (p.draft input d depth s).2.row →
    ∃ new, skeletonOf (p.draft input d depth s).2.row = skeletonOf s.row ++ new ∧ AllOf Grouped new ∧
      W (p.draft input d depth s).1 (p.draft input d depth s).2.pos new

section

variable {W : α → Nat → List Skeleton → Prop} {V : β → Nat → List Skeleton → Prop}

theorem Writes.pure {a : α} (h : ∀ i, W a i []) : Writes input d (Pure.pure a) W :=
  fun _ s _ _ => ⟨[], (List.append_nil _).symm, trivial, h s.pos⟩

theorem Writes.bind (hg : Growing d) {p : Parser α} {next : α → Parser β} (hp : Writes input d p W)
    (hn : ∀ a i new, W a i new → Writes input d (next a) fun b j more => V b j (new ++ more)) :
    Writes input d (p >>= next) V := by
  intro depth s hs quiet
  have later := grown_draft input hg (next (p.draft input d depth s).1) depth (p.draft input d depth s).2
  obtain ⟨new, row, all, hW⟩ := hp depth s hs (later.quiet quiet)
  have grouped : GroupedOf (p.draft input d depth s).2.row := by
    rw [GroupedOf, row]
    exact allOf_append.mpr ⟨hs, all⟩
  obtain ⟨more, row', all', hV⟩ := hn _ _ new hW depth _ grouped quiet
  refine ⟨new ++ more, ?_, allOf_append.mpr ⟨all, all'⟩, hV⟩
  rw [← List.append_assoc, ← row]
  exact row'

theorem Writes.discard {p : Parser α} {V : Unit → Nat → List Skeleton → Prop}
    (hp : Writes input d p fun _ => V ()) : Writes input d (Functor.discard p) V := hp

theorem Writes.yield {p : Parser α} {f : α → β} (hp : Writes input d p fun a => V (f a)) :
    Writes input d (p >>= fun a => Pure.pure (f a)) V := hp

theorem Writes.imp {W' : α → Nat → List Skeleton → Prop} {p : Parser α} (hp : Writes input d p W)
    (h : ∀ a i new, W a i new → W' a i new) : Writes input d p W' := by
  intro depth s hs quiet
  obtain ⟨new, row, all, hW⟩ := hp depth s hs quiet
  exact ⟨new, row, all, h _ _ _ hW⟩

theorem Adds.writes {Q : α → Nat → Skeleton → Prop} {p : Parser α} (h : Adds input d p Q) :
    Writes input d p fun a i new => ∃ x, new = [x] ∧ x.isNode = true ∧ Q a i x := by
  intro depth s hs quiet
  obtain ⟨x, row, node, all, hx⟩ := h depth s hs quiet
  exact ⟨[x], row, ⟨all, trivial⟩, x, rfl, node, hx⟩

theorem writes_eat (k : Kind) :
    Writes input d (eat k) fun b _ new => new = if b = true then [.leaf k] else [] := by
  intro depth s hs _
  by_cases h : input.isAt s.pos k = true
  · refine ⟨[.leaf k], ?_, ⟨trivial, trivial⟩, ?_⟩ <;> simp [draft, h, Frame.take, skeletonOf, skeleton]
  · refine ⟨[], ?_, trivial, ?_⟩ <;> simp [draft, h]

theorem writes_bump (hg : Growing d) (k : Kind) :
    Writes input d (bump k) fun _ _ new => new = [.leaf k] := by
  refine .bind hg (writes_eat k) fun b i new h => ?_
  subst h
  cases b with
  | true => exact .pure fun _ => rfl
  | false => exact fun depth s _ quiet => absurd quiet.2 id

theorem writes_bumpAny :
    Writes input d bumpAny fun _ _ new => ∀ x ∈ new, x.isNode = false := by
  intro depth s hs _
  by_cases h : input.kind s.pos = .eof
  · refine ⟨[], ?_, trivial, by simp⟩
    simp [draft, h]
  · refine ⟨[.leaf (input.kind s.pos)], ?_, ⟨trivial, trivial⟩, by simp [Skeleton.isNode]⟩
    simp [draft, h, Frame.take, skeletonOf, skeleton]

theorem Reads.writes {p : Parser α} {next : α → Parser β} (hp : Reads input d p)
    (hn : ∀ a, Writes input d (next a) V) : Writes input d (p >>= next) V := by
  intro depth s hs quiet
  have split : (p >>= next).draft input d depth s =
      (next (p.draft input d depth s).1).draft input d depth s := by
    change (next _).draft input d depth (p.draft input d depth s).2 = _
    rw [hp]
  rw [split] at quiet ⊢
  exact hn _ depth s hs quiet

theorem Writes.nodeOf {body : Parser Kind} {W : Kind → Nat → List Skeleton → Prop}
    {Q : Kind → Nat → Skeleton → Prop} (hb : Writes input d body W)
    (h : ∀ k i new, W k i new → (Skeleton.node k new).Grouped ∧ Q k i (.node k new)) :
    Adds input d (Parser.nodeOf body) Q := by
  refine .nodeOf fun depth i k t ran quiet => ?_
  have wrote := hb depth ⟨i, []⟩ trivial
  rw [ran] at wrote
  obtain ⟨new, row, all, hW⟩ := wrote quiet
  obtain rfl : skeletonOf t.row = new := row
  exact ⟨⟨(h k _ _ hW).1, all⟩, (h k _ _ hW).2⟩

theorem Writes.wrap (hg : Growing d) {P : Nat → Skeleton → Prop} {body : Parser Kind}
    {W : Kind → Nat → List Skeleton → Prop} {Q : Kind → Nat → Skeleton → Prop}
    (hb : Writes input d body W)
    (h : ∀ i x k j new, P i x → x.isNode = true → W k j new →
      (Skeleton.node k (x :: new)).Grouped ∧ Q k j (.node k (x :: new))) :
    Covers input d P (Parser.wrap body) Q := by
  refine .wrap hg fun depth i x k t hx node all ran quiet => ?_
  have wrote := hb depth ⟨i, []⟩ trivial
  rw [ran] at wrote
  obtain ⟨new, row, all_new, hW⟩ := wrote quiet
  obtain rfl : skeletonOf t.row = new := row
  obtain ⟨grouped, hQ⟩ := h i x k _ _ hx node hW
  exact ⟨⟨grouped, all, all_new⟩, hQ⟩

end

end Parser

end Verbatim
