import Mathlib.Data.List.Forall2
import Std.Data.HashMap.Lemmas
import Std.Data.HashSet.Lemmas
import Verbatim.Green.Cache

/-!
# Equal elements share a cell

Every cell has the entry that finds it, and every entry has its cell, over children that have cells too:
so an address in a key is never that of a freed cell. From this follows that no two cells hold the same
element. Making elements, dropping handles and collecting keep it, wherever new cells are put.
-/
namespace Verbatim.Cache

variable {c : Cache}

/-- The cells of some elements. -/
def Hold (c : Cache) (addresses : List Address) (gs : List Green) : Prop :=
  List.Forall₂ (fun a g => c.element? a = some g) addresses gs

/-- A cell is found by its entry. -/
inductive Entered (c : Cache) (a : Address) (cell : Cell) : Prop
  | token (k : Kind) (t : Text) (is : cell = ⟨.token k t, []⟩) (entry : c.tokens[(k, t)]? = some a)
  | node (k : Kind) (gs : List Green) (is : cell.element = .branch k gs)
      (entry : c.nodes[(k, cell.children)]? = some a) (holds : c.Hold cell.children gs)

/-- Cells and entries belong together. -/
structure Canonical (c : Cache) : Prop where
  token : ∀ (k : Kind) (t : Text) (a : Address), c.tokens[(k, t)]? = some a → c.cells[a]? = some ⟨.token k t, []⟩
  node : ∀ (k : Kind) (children : List Address) (a : Address), c.nodes[(k, children)]? = some a →
    ∃ gs, c.cells[a]? = some ⟨.branch k gs, children⟩ ∧ c.Hold children gs
  entered : ∀ (a : Address) (cell : Cell), c.cells[a]? = some cell → Entered c a cell

theorem canonical_empty : Canonical empty :=
  ⟨fun _ _ _ h => by simp [empty] at h, fun _ _ _ h => by simp [empty] at h,
    fun _ _ h => by simp [empty] at h⟩

theorem element?_of_cell {a : Address} {cell : Cell} (h : c.cells[a]? = some cell) :
    c.element? a = some cell.element := by
  rw [element?, cell?, h]
  rfl

theorem cell_of_element? {a : Address} {g : Green} (h : c.element? a = some g) :
    ∃ children, c.cells[a]? = some ⟨g, children⟩ := by
  obtain ⟨⟨g', children⟩, cell, rfl⟩ := Option.map_eq_some_iff.mp h
  exact ⟨children, cell⟩

/-! ## No two cells for one element -/

mutual
/-- An element has one cell at most. -/
theorem Canonical.address_unique (h : Canonical c) : ∀ (g : Green) {a b : Address},
    c.element? a = some g → c.element? b = some g → a = b
  | .token k t, a, b, ha, hb => by
    obtain ⟨_, ha⟩ := cell_of_element? ha
    obtain ⟨_, hb⟩ := cell_of_element? hb
    rcases h.entered a _ ha with ⟨k, t, is, entry⟩ | ⟨_, _, is, -⟩
    · rcases h.entered b _ hb with ⟨k', t', is', entry'⟩ | ⟨_, _, is', -⟩
      · obtain ⟨⟨rfl, rfl⟩, -⟩ := (Cell.mk.inj is).imp_left Green.token.inj
        obtain ⟨⟨rfl, rfl⟩, -⟩ := (Cell.mk.inj is').imp_left Green.token.inj
        exact Option.some.inj (entry.symm.trans entry')
      · cases is'
    · cases is
  | .node k n gs, a, b, ha, hb => by
    obtain ⟨_, ha⟩ := cell_of_element? ha
    obtain ⟨_, hb⟩ := cell_of_element? hb
    rcases h.entered a _ ha with ⟨_, _, is, -⟩ | ⟨k, gs, is, entry, holds⟩
    · cases is
    · rcases h.entered b _ hb with ⟨_, _, is', -⟩ | ⟨k', gs', is', entry', holds'⟩
      · cases is'
      · obtain ⟨rfl, -, rfl⟩ := Green.node.inj is
        obtain ⟨rfl, -, rfl⟩ := Green.node.inj is'
        rw [h.addresses_unique gs holds holds'] at entry
        exact Option.some.inj (entry.symm.trans entry')

theorem Canonical.addresses_unique (h : Canonical c) : ∀ (gs : List Green) {as bs : List Address},
    c.Hold as gs → c.Hold bs gs → as = bs
  | [], _, _, .nil, .nil => rfl
  | g :: gs, _, _, .cons ha has, .cons hb hbs =>
    congrArg₂ List.cons (h.address_unique g ha hb) (h.addresses_unique gs has hbs)
end

/-! ## Collections -/

/-- What some addresses and the cells refer to. -/
theorem mem_referenced {roots : List Address} {a : Address} :
    a ∈ c.referenced roots ↔ a ∈ roots ∨ ∃ (b : Address) (cell : Cell), c.cells[b]? = some cell ∧
      a ∈ cell.children := by
  have fold (cells : List (Address × Cell)) (seen : Std.HashSet Address) :
      a ∈ cells.foldl (fun seen p => seen.insertMany p.2.children) seen ↔
        a ∈ seen ∨ ∃ p ∈ cells, a ∈ p.2.children := by
    induction cells generalizing seen with
    | nil => simp
    | cons p cells ih => simp [ih, or_assoc]
  rw [referenced, Std.HashMap.fold_eq_foldl_toList, fold]
  simp only [Std.HashSet.mem_ofList, List.contains_iff_mem, Prod.exists,
    Std.HashMap.mem_toList_iff_getElem?_eq_some]

/-- Cells that are kept of a cache, with all that they and the roots refer to. -/
structure Spares (c kept : Cache) (roots : List Address) : Prop where
  sub : ∀ {a : Address} {cell : Cell}, kept.cells[a]? = some cell → c.cells[a]? = some cell
  children : ∀ {a : Address} {cell : Cell}, kept.cells[a]? = some cell → ∀ b ∈ cell.children,
    kept.cells[b]? = c.cells[b]?
  roots : ∀ a ∈ roots, kept.cells[a]? = c.cells[a]?

namespace Spares

variable {kept later : Cache} {roots : List Address}

theorem refl (c : Cache) (roots : List Address) : Spares c c roots :=
  ⟨id, fun _ _ _ => rfl, fun _ _ => rfl⟩

theorem trans (h : Spares c kept roots) (h' : Spares kept later roots) : Spares c later roots :=
  ⟨fun ha => h.sub (h'.sub ha),
    fun ha b hb => (h'.children ha b hb).trans (h.children (h'.sub ha) b hb),
    fun a ha => (h'.roots a ha).trans (h.roots a ha)⟩

/-- To keep just the cells that are referred to spares these. -/
theorem used (c : Cache) (roots : List Address) :
    Spares c { c with cells := c.cells.filter fun a _ => (c.referenced roots).contains a } roots := by
  have stays {a : Address} (ha : a ∈ c.referenced roots) :
      (c.cells.filter fun a _ => (c.referenced roots).contains a)[a]? = c.cells[a]? := by
    have kept : (c.referenced roots).contains a = true := Std.HashSet.contains_iff_mem.mpr ha
    rw [Std.HashMap.getElem?_filter']
    cases c.cells[a]? with
    | none => rfl
    | some cell => simp [kept]
  have sub {a : Address} {cell : Cell}
      (ha : (c.cells.filter fun a _ => (c.referenced roots).contains a)[a]? = some cell) :
      c.cells[a]? = some cell := by
    rw [Std.HashMap.getElem?_filter'] at ha
    exact (Option.filter_eq_some_iff.mp ha).1
  exact ⟨sub, fun ha b hb => stays (mem_referenced.mpr (.inr ⟨_, _, sub ha, hb⟩)),
    fun a ha => stays (mem_referenced.mpr (.inl ha))⟩

end Spares

theorem spares_sweep (c : Cache) (roots : List Address) (rounds : Nat) :
    Spares c (c.sweep roots rounds) roots := by
  induction rounds generalizing c with
  | zero => exact .refl c roots
  | succ rounds ih =>
    rw [sweep]
    dsimp only
    split
    · exact .used c roots
    · exact (Spares.used c roots).trans (ih _)

theorem spares_collect (c : Cache) (roots : List Address) : Spares c (c.collect roots) roots :=
  let h := spares_sweep c roots c.cells.size
  ⟨h.sub, h.children, h.roots⟩

/-- A collection frees the cells that nothing but the cache refers to. -/
theorem free_collect {roots : List Address} {a : Address} (h : a ∉ c.referenced roots) :
    (c.collect roots).cells[a]? = none := by
  by_contra some_left
  obtain ⟨cell, kept⟩ := Option.ne_none_iff_exists'.mp some_left
  have old := (spares_collect c roots).sub kept
  obtain ⟨rounds, size⟩ : ∃ rounds, c.cells.size = rounds + 1 := by
    refine ⟨c.cells.size - 1, ?_⟩
    have : c.cells.size ≠ 0 := fun empty => by
      have := (Std.HashMap.isEmpty_iff_forall_not_mem.mp (by
        rw [Std.HashMap.isEmpty_eq_size_eq_zero, empty]
        rfl)) a
      rw [← Std.HashMap.contains_iff_mem, Std.HashMap.contains_eq_isSome_getElem?, old] at this
      exact this rfl
    omega
  have first : (c.cells.filter fun a _ => (c.referenced roots).contains a)[a]? = some cell := by
    change (c.sweep roots c.cells.size).cells[a]? = some cell at kept
    rw [size, sweep] at kept
    dsimp only at kept
    split at kept
    · exact kept
    · exact (spares_sweep _ roots rounds).sub kept
  rw [Std.HashMap.getElem?_filter'] at first
  exact h (Std.HashSet.contains_iff_mem.mp (Option.filter_eq_some_iff.mp first).2)

/-- What stays in the cells is found by the same entries. -/
theorem Hold.imp {c' : Cache} {addresses : List Address} {gs : List Green} (h : c.Hold addresses gs)
    (same : ∀ a ∈ addresses, ∀ cell, c.cells[a]? = some cell → c'.cells[a]? = some cell) :
    c'.Hold addresses gs := by
  induction h with
  | nil => exact .nil
  | cons first rest ih =>
    refine .cons ?_ (ih fun a ha => same a (List.mem_cons_of_mem _ ha))
    obtain ⟨children, cell⟩ := cell_of_element? first
    exact element?_of_cell (same _ List.mem_cons_self _ cell)

theorem Canonical.collect (h : Canonical c) (roots : List Address) : Canonical (c.collect roots) := by
  have spares := spares_collect c roots
  have cells_eq : (c.collect roots).cells = (c.sweep roots c.cells.size).cells := rfl
  have token_entry (k : Kind) (t : Text) : (c.collect roots).tokens[(k, t)]? =
      c.tokens[(k, t)]?.filter fun a => (c.collect roots).cells.contains a :=
    Std.HashMap.getElem?_filter'
  have node_entry (k : Kind) (children : List Address) : (c.collect roots).nodes[(k, children)]? =
      c.nodes[(k, children)]?.filter fun a => (c.collect roots).cells.contains a :=
    Std.HashMap.getElem?_filter'
  have kept_cell {a : Address} {cell : Cell} (old : c.cells[a]? = some cell)
      (kept : (c.collect roots).cells.contains a = true) : (c.collect roots).cells[a]? = some cell := by
    rw [Std.HashMap.contains_eq_isSome_getElem?] at kept
    obtain ⟨cell', kept⟩ := Option.isSome_iff_exists.mp kept
    rw [kept, ← spares.sub kept, old]
  have is_kept {a : Address} {cell : Cell} (ha : (c.collect roots).cells[a]? = some cell) :
      (c.collect roots).cells.contains a = true := by
    rw [Std.HashMap.contains_eq_isSome_getElem?, ha]
    rfl
  refine ⟨fun k t a ha => ?_, fun k children a ha => ?_, fun a cell ha => ?_⟩
  · rw [token_entry] at ha
    obtain ⟨old, kept⟩ := Option.filter_eq_some_iff.mp ha
    exact kept_cell (h.token k t a old) kept
  · rw [node_entry] at ha
    obtain ⟨old, kept⟩ := Option.filter_eq_some_iff.mp ha
    obtain ⟨gs, cell, holds⟩ := h.node k children a old
    have stays := kept_cell cell kept
    exact ⟨gs, stays, holds.imp fun b hb cell' old => (spares.children stays b hb).trans old⟩
  · rcases h.entered a cell (spares.sub ha) with ⟨k, t, is, entry⟩ | ⟨k, gs, is, entry, holds⟩
    · refine .token k t is ?_
      rw [token_entry, entry]
      simp [is_kept ha]
    · refine .node k gs is ?_ (holds.imp fun b hb cell' old => (spares.children ha b hb).trans old)
      rw [node_entry, entry]
      simp [is_kept ha]

/-! ## New cells -/

/-- A new cell at an address where there is none. -/
structure Adds (c c' : Cache) (fresh : Address) (cell : Cell) : Prop where
  free : c.cells[fresh]? = none
  cells : ∀ a : Address, c'.cells[a]? = if fresh = a then some cell else c.cells[a]?

namespace Adds

variable {c' : Cache} {fresh : Address} {cell : Cell}

theorem put (free : c.cells[fresh]? = none) (cells : c'.cells = c.cells.insert fresh cell) :
    Adds c c' fresh cell :=
  ⟨free, fun a => by simp [cells, Std.HashMap.getElem?_insert]⟩

theorem here (h : Adds c c' fresh cell) : c'.cells[fresh]? = some cell := by
  rw [h.cells, if_pos rfl]

theorem old (h : Adds c c' fresh cell) {a : Address} {cell' : Cell} (ha : c.cells[a]? = some cell') :
    c'.cells[a]? = some cell' := by
  rw [h.cells, if_neg, ha]
  rintro rfl
  simp [h.free] at ha

theorem hold (h : Adds c c' fresh cell) {addresses : List Address} {gs : List Green}
    (holds : c.Hold addresses gs) : c'.Hold addresses gs :=
  holds.imp fun _ _ _ ha => h.old ha

end Adds

/-- A new entry, under a key that was unknown, adds just that. -/
theorem getElem?_insert_unknown {κ : Type} [BEq κ] [Hashable κ] [LawfulBEq κ]
    {entries : Std.HashMap κ Address} {key key' : κ} {fresh a : Address}
    (unknown : entries[key]? = none) : (entries.insert key fresh)[key']? = some a ↔
      entries[key']? = some a ∨ a = fresh ∧ key = key' := by
  rw [Std.HashMap.getElem?_insert]
  by_cases same : key = key'
  · subst same
    simp [unknown, eq_comm]
  · simp [same]

/-- A new cell with its entry, over cells that are there. -/
theorem Canonical.add (h : Canonical c) {c' : Cache} {fresh : Address} {cell : Cell}
    (adds : Adds c c' fresh cell) (entered : Entered c' fresh cell)
    (tokens : ∀ (k : Kind) (t : Text) (a : Address), c'.tokens[(k, t)]? = some a ↔
      c.tokens[(k, t)]? = some a ∨ a = fresh ∧ cell = ⟨.token k t, []⟩)
    (nodes : ∀ (k : Kind) (children : List Address) (a : Address),
      c'.nodes[(k, children)]? = some a ↔ c.nodes[(k, children)]? = some a ∨
        a = fresh ∧ ∃ gs, cell = ⟨.branch k gs, children⟩ ∧ c.Hold children gs) : Canonical c' := by
  refine ⟨fun k t a ha => ?_, fun k children a ha => ?_, fun a cell' ha => ?_⟩
  · rcases (tokens k t a).mp ha with old | ⟨rfl, rfl⟩
    · exact adds.old (h.token k t a old)
    · exact adds.here
  · rcases (nodes k children a).mp ha with old | ⟨rfl, gs, rfl, holds⟩
    · obtain ⟨gs, known, holds⟩ := h.node k children a old
      exact ⟨gs, adds.old known, adds.hold holds⟩
    · exact ⟨gs, adds.here, adds.hold holds⟩
  · rw [adds.cells] at ha
    split at ha
    · next same =>
      cases same
      cases ha
      exact entered
    · rcases h.entered a cell' ha with ⟨k, t, is, entry⟩ | ⟨k, gs, is, entry, holds⟩
      · exact .token k t is ((tokens k t a).mpr (.inl entry))
      · exact .node k gs is ((nodes k _ a).mpr (.inl entry)) (adds.hold holds)

/-- A token that the cache has no cell for. -/
theorem Canonical.add_token (h : Canonical c) {fresh : Address} (free : c.cells[fresh]? = none)
    {kind : Kind} {text : Text} (unknown : c.tokens[(kind, text)]? = none) :
    Canonical { c.putToken fresh kind text with tokens := c.tokens.insert (kind, text) fresh } := by
  refine h.add (c := c) (.put free rfl)
    (.token kind text rfl ((getElem?_insert_unknown unknown).mpr (.inr ⟨rfl, rfl⟩)))
    (fun k t a => ?_) fun k children a => ?_
  · exact (getElem?_insert_unknown unknown).trans (by simp)
  · exact ⟨.inl, fun h => h.resolve_right fun ⟨_, gs, is, _⟩ => by cases (Cell.mk.inj is).1⟩

theorem Hold.filterMap {addresses : List Address} {gs : List Green} (h : c.Hold addresses gs) :
    addresses.filterMap c.element? = gs := by
  induction h with
  | nil => rfl
  | cons first rest ih => rw [List.filterMap_cons_some first, ih]

/-- A node over known children that the cache has no cell for. -/
theorem Canonical.add_node (h : Canonical c) {fresh : Address} (free : c.cells[fresh]? = none)
    {kind : Kind} {children : List Address} {gs : List Green} (holds : c.Hold children gs)
    (unknown : c.nodes[(kind, children)]? = none) :
    Canonical { c.putNode fresh kind children with
      nodes := c.nodes.insert (kind, children) fresh } := by
  have made : c.branch kind children = .branch kind gs := by rw [branch, holds.filterMap]
  have adds : Adds c { c.putNode fresh kind children with
      nodes := c.nodes.insert (kind, children) fresh } fresh ⟨.branch kind gs, children⟩ :=
    .put free (by rw [← made]; rfl)
  refine h.add adds (.node kind gs rfl ((getElem?_insert_unknown unknown).mpr (.inr ⟨rfl, rfl⟩))
    (adds.hold holds)) (fun k t a => ?_) fun k addresses a => ?_
  · exact ⟨.inl, fun h => h.resolve_right fun ⟨_, is⟩ => by cases (Cell.mk.inj is).1⟩
  · refine (getElem?_insert_unknown unknown).trans (or_congr_right (and_congr_right fun _ => ?_))
    constructor
    · rintro ⟨rfl, rfl⟩
      exact ⟨gs, rfl, holds⟩
    · rintro ⟨gs', is, -⟩
      obtain ⟨same, rfl⟩ := Cell.mk.inj is
      obtain ⟨rfl, -⟩ := Green.node.inj same
      rfl

/-! ## The operations -/

/-- Where no element lives, so that a new cell can go there; the address may have been used before. -/
def Free (c : Cache) (a : Address) : Prop := c.cell? a = none

/-- The cell at an address, if there is one, is still there. -/
def Stays (c c' : Cache) (a : Address) : Prop :=
  ∀ cell : Cell, c.cells[a]? = some cell → c'.cells[a]? = some cell

theorem Stays.element? {c' : Cache} {a : Address} {g : Green} (h : Stays c c' a)
    (ha : c.element? a = some g) : c'.element? a = some g := by
  obtain ⟨children, cell⟩ := cell_of_element? ha
  exact element?_of_cell (h _ cell)

/-- A token is answered by its cell, and all others stay. -/
theorem Canonical.token_spec (h : Canonical c) {fresh : Address} (free : c.Free fresh) (kind : Kind)
    (text : Text) : Canonical (c.token fresh kind text).2 ∧
      (c.token fresh kind text).2.element? (c.token fresh kind text).1 = some (.token kind text) ∧
      ∀ a, Stays c (c.token fresh kind text).2 a := by
  unfold Cache.token
  split
  · next a known => exact ⟨h, element?_of_cell (h.token kind text a known), fun _ _ => id⟩
  · next unknown =>
    have adds : Adds c { c.putToken fresh kind text with
        tokens := c.tokens.insert (kind, text) fresh } fresh ⟨.token kind text, []⟩ := .put free rfl
    exact ⟨h.add_token free unknown, element?_of_cell adds.here, fun _ _ => adds.old⟩

theorem Canonical.collect_spec (h : Canonical c) (roots : List Address) :
    Canonical (c.collect roots) ∧ ∀ a ∈ roots, Stays c (c.collect roots) a :=
  ⟨h.collect roots, fun a ha _ old => ((spares_collect c roots).roots a ha).trans old⟩

theorem Canonical.settle_spec (h : Canonical c) (roots : List Address) :
    Canonical (c.settle roots) ∧ ∀ a ∈ roots, Stays c (c.settle roots) a := by
  unfold settle
  split
  · obtain ⟨kept, stays⟩ := h.collect_spec roots
    refine ⟨⟨kept.token, kept.node, fun a cell ha => ?_⟩, stays⟩
    rcases kept.entered a cell ha with ⟨k, t, is, entry⟩ | ⟨k, gs, is, entry, holds⟩
    · exact .token k t is entry
    · exact .node k gs is entry holds
  · exact ⟨h, fun _ _ _ => id⟩

/-- A node is answered by a cell over its children, and all that the roots refer to stays. -/
theorem Canonical.node_spec (h : Canonical c) {fresh : Address} (free : c.Free fresh)
    (roots : List Address) (kind : Kind) {children : List Address} {gs : List Green}
    (holds : c.Hold children gs) : Canonical (c.node fresh roots kind children).2 ∧
      (c.node fresh roots kind children).2.element? (c.node fresh roots kind children).1 =
        some (.branch kind gs) ∧
      ∀ a ∈ roots, Stays c (c.node fresh roots kind children).2 a := by
  unfold Cache.node
  split
  · next a known =>
    obtain ⟨gs', cell, holds'⟩ := h.node kind children a known
    obtain rfl : gs' = gs := by rw [← holds.filterMap, ← holds'.filterMap]
    exact ⟨h, element?_of_cell cell, fun _ _ _ => id⟩
  · next unknown =>
    have made : c.branch kind children = .branch kind gs := by rw [branch, holds.filterMap]
    have adds : Adds c { c.putNode fresh kind children with
        nodes := c.nodes.insert (kind, children) fresh } fresh ⟨.branch kind gs, children⟩ :=
      .put free (by rw [← made]; rfl)
    obtain ⟨settled, stays⟩ := (h.add_node free holds unknown).settle_spec (fresh :: roots)
    exact ⟨settled, (stays fresh List.mem_cons_self).element? (element?_of_cell adds.here),
      fun a ha cell old => stays a (List.mem_cons_of_mem _ ha) cell (adds.old old)⟩

/-! ## Runs -/

/-- A handle on a cell, with the element that was asked for. -/
structure Handle where
  address : Address
  asked : Green

/-- A cache and the handles in use. -/
structure Session where
  cache : Cache
  handles : List Handle

def Session.roots (s : Session) : List Address := s.handles.map (·.address)

/-- What can be done with a cache and its handles. New cells go to any address where no element lives,
and handles are used up by the nodes that they go into. -/
inductive Session.Step : Session → Session → Prop
  | token (s : Session) (fresh : Address) (kind : Kind) (text : Text) (free : s.cache.Free fresh) :
    Step s ⟨(s.cache.token fresh kind text).2,
      ⟨(s.cache.token fresh kind text).1, .token kind text⟩ :: s.handles⟩
  | node (s : Session) (fresh : Address) (kind : Kind) (children rest : List Handle)
      (given : s.handles.Perm (children ++ rest)) (free : s.cache.Free fresh) :
    Step s ⟨(s.cache.node fresh (rest.map (·.address)) kind (children.map (·.address))).2,
      ⟨(s.cache.node fresh (rest.map (·.address)) kind (children.map (·.address))).1,
        .branch kind (children.map (·.asked))⟩ :: rest⟩
  | copy (s : Session) (h : Handle) (used : h ∈ s.handles) : Step s ⟨s.cache, h :: s.handles⟩
  | child (s : Session) (h : Handle) (used : h ∈ s.handles) (cell : Cell)
      (found : s.cache.cell? h.address = some cell) (i : Nat) (a : Address) (g : Green)
      (place : cell.children[i]? = some a) (asked : h.asked.children[i]? = some g) :
    Step s ⟨s.cache, ⟨a, g⟩ :: s.handles⟩
  | drop (s : Session) (h : Handle) (rest : List Handle) (used : s.handles.Perm (h :: rest)) :
    Step s ⟨s.cache, rest⟩
  | collect (s : Session) : Step s ⟨s.cache.collect s.roots, s.handles⟩

/-- The sessions that a new cache can come to. -/
inductive Session.Reachable : Session → Prop
  | start : Reachable ⟨empty, []⟩
  | step {s s' : Session} (before : Reachable s) (step : Step s s') : Reachable s'

/-- Cells and entries belong together, and every handle is on the element that was asked for. -/
structure Session.Sound (s : Session) : Prop where
  canonical : Canonical s.cache
  answers : ∀ h ∈ s.handles, s.cache.element? h.address = some h.asked

/-- No step makes a session unsound. -/
theorem Session.Sound.step {s s' : Session} (h : s.Sound) (step : Step s s') : s'.Sound := by
  obtain ⟨canonical, answers⟩ := h
  cases step with
  | token fresh kind text free =>
    obtain ⟨canonical, asked, stays⟩ := canonical.token_spec free kind text
    exact ⟨canonical, List.forall_mem_cons.mpr ⟨asked, fun h hh => (stays _).element? (answers h hh)⟩⟩
  | node fresh kind children rest given free =>
    have holds : s.cache.Hold (children.map (·.address)) (children.map (·.asked)) := by
      rw [Hold, List.forall₂_map_left_iff, List.forall₂_map_right_iff, List.forall₂_same]
      exact fun h hh => answers h (given.mem_iff.mpr (List.mem_append_left _ hh))
    obtain ⟨canonical, asked, stays⟩ :=
      canonical.node_spec free (rest.map (·.address)) kind holds
    refine ⟨canonical, List.forall_mem_cons.mpr ⟨asked, fun h hh => ?_⟩⟩
    exact (stays _ (List.mem_map_of_mem hh)).element?
      (answers h (given.mem_iff.mpr (List.mem_append_right _ hh)))
  | copy h used => exact ⟨canonical, List.forall_mem_cons.mpr ⟨answers h used, answers⟩⟩
  | child h used cell found i a g place asked =>
    refine ⟨canonical, List.forall_mem_cons.mpr ⟨?_, answers⟩⟩
    have element : cell.element = h.asked :=
      Option.some.inj ((element?_of_cell found).symm.trans (answers h used))
    rcases canonical.entered _ cell found with ⟨k, t, is, -⟩ | ⟨k, gs, is, -, holds⟩
    · rw [is] at place
      simp at place
    · rw [← element, is] at asked
      obtain ⟨hi, rfl⟩ := List.getElem?_eq_some_iff.mp place
      obtain ⟨hj, rfl⟩ := List.getElem?_eq_some_iff.mp asked
      exact holds.get hi hj
  | drop h rest used =>
    exact ⟨canonical, fun h' hh => answers h' (used.mem_iff.mpr (List.mem_cons_of_mem _ hh))⟩
  | collect =>
    obtain ⟨canonical, stays⟩ := canonical.collect_spec s.roots
    exact ⟨canonical, fun h hh => (stays _ (List.mem_map_of_mem hh)).element? (answers h hh)⟩

theorem Session.Reachable.sound {s : Session} (h : s.Reachable) : s.Sound := by
  induction h with
  | start => exact ⟨canonical_empty, by simp⟩
  | step before step ih => exact ih.step step

/-- Whatever is done with a cache, and wherever new cells are put, every handle stays on an element equal
to the one that was asked for, and two handles are on one cell if and only if their elements are equal. -/
theorem Session.Reachable.shares (s : Session) (reachable : s.Reachable) :
    (∀ h ∈ s.handles, s.cache.element? h.address = some h.asked) ∧
      ∀ h ∈ s.handles, ∀ h' ∈ s.handles, h.address = h'.address ↔ h.asked = h'.asked := by
  obtain ⟨canonical, answers⟩ := reachable.sound
  refine ⟨answers, fun h hh h' hh' => ⟨fun same => ?_, fun same => ?_⟩⟩
  · have asked := answers h hh
    rw [same, answers h' hh'] at asked
    exact (Option.some.inj asked).symm
  · exact canonical.address_unique h.asked (answers h hh) (same ▸ answers h' hh')

/-- The answer about a token that is not known yet. -/
theorem token_of_unknown {fresh : Address} {kind : Kind} {text : Text}
    (unknown : c.tokens[(kind, text)]? = none) : c.token fresh kind text =
      (fresh, { c.putToken fresh kind text with tokens := c.tokens.insert (kind, text) fresh }) := by
  rw [token, unknown]
  rfl

/-- The address of a token that was dropped and collected is used for another one. -/
theorem Session.Reachable.shares_reused : ∃ s : Session, s.Reachable ∧ s.roots = [0, 0] ∧
    (∀ h ∈ s.handles, s.cache.element? h.address = some h.asked) ∧
    ∀ h ∈ s.handles, ∀ h' ∈ s.handles, h.address = h'.address ↔ h.asked = h'.asked := by
  have first : Reachable _ := .step .start (.token _ 0 .ident ['x'] (by simp [Free, cell?, empty]))
  rw [token_of_unknown (by simp [empty])] at first
  have collected := (first.step (.drop _ _ [] .rfl)).step (.collect _)
  have nowhere : 0 ∉ referenced { empty.putToken 0 .ident ['x'] with
      tokens := empty.tokens.insert (.ident, ['x']) 0 } [] := by
    simp [mem_referenced, putToken, put, empty, Std.HashMap.getElem?_insert]
  have second := collected.step (.token _ 0 .ident ['y'] (free_collect nowhere))
  rw [token_of_unknown (by simp [Cache.collect, empty])] at second
  have both := second.step (.copy _ _ List.mem_cons_self)
  exact ⟨_, both, rfl, Session.Reachable.shares _ both⟩

end Verbatim.Cache
