import Verbatim.Proofs.Sharing

/-!
# What a collection drops

A collection goes by references alone: a cell is freed, with the entry that finds it, if nothing else
refers to it, and this is done again until there is no such cell. The element of a cell is larger than
those of its children, so cells never refer to each other in a circle, and what is left in the end is just
what the handles reach. That holds whatever order the cells are freed in, with cells outside of the cache
among them, and it is what keeps the number of nodes below the threshold.
-/
namespace Verbatim.Cache

variable {c kept : Cache} {roots : List Address} {a b : Address} {cell cell' : Cell}

/-- The addresses that roots lead to, through the children of cells. -/
inductive Reaches (c : Cache) (roots : List Address) : Address → Prop
  | root {a : Address} (held : a ∈ roots) : Reaches c roots a
  | child {a b : Address} {cell : Cell} (parent : Reaches c roots a) (found : c.cells[a]? = some cell)
      (link : b ∈ cell.children) : Reaches c roots b

/-! ## Cells without circles -/

/-- A cell holds a token, or a node over the elements that the cells of its children hold. -/
inductive Formed (c : Cache) (cell : Cell) : Prop
  | token (k : Kind) (t : Text) (is : cell = ⟨.token k t, []⟩)
  | node (k : Kind) (gs : List Green) (is : cell.element = .branch k gs) (holds : c.Hold cell.children gs)

/-- Every cell is well formed, and every entry leads to a cell for its key. -/
structure Linked (c : Cache) : Prop where
  formed : ∀ (a : Address) (cell : Cell), c.cells[a]? = some cell → c.Formed cell
  token : ∀ (k : Kind) (t : Text) (a : Address), c.tokens[(k, t)]? = some a →
    c.cells[a]? = some ⟨.token k t, []⟩
  node : ∀ (k : Kind) (children : List Address) (a : Address), c.nodes[(k, children)]? = some a →
    ∃ gs, c.cells[a]? = some ⟨.branch k gs, children⟩ ∧ c.Hold children gs

theorem linked_empty : Linked empty :=
  ⟨fun _ _ h => by simp [empty] at h, fun _ _ _ h => by simp [empty] at h,
    fun _ _ _ h => by simp [empty] at h⟩

theorem Formed.of_holds {c' : Cache} (h : c.Formed cell)
    (holds : ∀ gs, c.Hold cell.children gs → c'.Hold cell.children gs) : c'.Formed cell := by
  rcases h with ⟨k, t, is⟩ | ⟨k, gs, is, old⟩
  · exact .token k t is
  · exact .node k gs is (holds gs old)

theorem Hold.exists_mem {addresses : List Address} {gs : List Green} (h : c.Hold addresses gs)
    (ha : a ∈ addresses) : ∃ g ∈ gs, c.element? a = some g := by
  induction h with
  | nil => simp at ha
  | cons first rest ih =>
    rcases List.mem_cons.mp ha with rfl | later
    · exact ⟨_, List.mem_cons_self, first⟩
    · obtain ⟨g, hg, found⟩ := ih later
      exact ⟨g, List.mem_cons_of_mem _ hg, found⟩

/-- The element of a cell is larger than that of a child. -/
theorem Formed.sizeOf_lt (h : c.Formed cell) (link : b ∈ cell.children)
    (found : c.cells[b]? = some cell') : sizeOf cell'.element < sizeOf cell.element := by
  rcases h with ⟨k, t, is⟩ | ⟨k, gs, is, holds⟩
  · rw [is] at link
    simp at link
  · obtain ⟨g, hg, inside⟩ := holds.exists_mem link
    have same : cell'.element = g := Option.some.inj ((element?_of_cell found).symm.trans inside)
    have smaller := List.sizeOf_lt_of_mem hg
    rw [same, is, Green.branch, Green.node.sizeOf_spec]
    omega

/-- No cell holds an element beyond some size. -/
theorem exists_sizeOf_le (c : Cache) : ∃ n, ∀ (a : Address) (cell : Cell),
    c.cells[a]? = some cell → sizeOf cell.element ≤ n := by
  have bound (cells : List (Address × Cell)) : ∃ n, ∀ p ∈ cells, sizeOf p.2.element ≤ n := by
    induction cells with
    | nil => exact ⟨0, by simp⟩
    | cons p cells ih =>
      obtain ⟨n, le⟩ := ih
      refine ⟨max (sizeOf p.2.element) n, List.forall_mem_cons.mpr ⟨Nat.le_max_left _ _, fun q hq => ?_⟩⟩
      exact Nat.le_trans (le q hq) (Nat.le_max_right _ _)
  obtain ⟨n, le⟩ := bound c.cells.toList
  exact ⟨n, fun a cell ha => le (a, cell) (Std.HashMap.mem_toList_iff_getElem?_eq_some.mpr ha)⟩

/-! ## What is left when no more can be freed -/

/-- Something refers to every cell. -/
def Settled (c : Cache) (roots : List Address) : Prop :=
  ∀ (a : Address) (cell : Cell), c.cells[a]? = some cell → a ∈ c.referenced roots

/-- A cell that is left has a cell that refers to it, and that one another, with larger and larger elements;
so one of them is referred to by a root. -/
theorem Settled.reaches (settled : kept.Settled roots)
    (formed : ∀ (a : Address) (cell : Cell), c.cells[a]? = some cell → c.Formed cell)
    (spares : Spares c kept roots) (here : kept.cells[a]? = some cell) : kept.Reaches roots a := by
  obtain ⟨n, le⟩ := exists_sizeOf_le kept
  induction room : n - sizeOf cell.element using Nat.strongRecOn generalizing a cell with
  | _ room ih =>
    subst room
    rcases mem_referenced.mp (settled a cell here) with held | ⟨b, parent, found, link⟩
    · exact .root held
    · have larger := (formed b parent (spares.sub found)).sizeOf_lt link (spares.sub here)
      have bounded := le b parent found
      exact .child (ih _ (by omega) found rfl) found link

/-- What the roots lead to is spared, and so is the way to it. -/
theorem Spares.reaches (h : Spares c kept roots) (reached : c.Reaches roots a) :
    kept.Reaches roots a ∧ kept.cells[a]? = c.cells[a]? := by
  induction reached with
  | root held => exact ⟨.root held, h.roots _ held⟩
  | child parent found link ih =>
    have here := ih.2.trans found
    exact ⟨.child ih.1 here link, h.children here _ link⟩

theorem Spares.reaches_of_kept (h : Spares c kept roots) (reached : kept.Reaches roots a) :
    c.Reaches roots a := by
  induction reached with
  | root held => exact .root held
  | child parent found link ih => exact .child ih (h.sub found) link

/-- The cells that are left are those that the roots lead to. -/
theorem Settled.cell_iff (settled : kept.Settled roots)
    (formed : ∀ (a : Address) (cell : Cell), c.cells[a]? = some cell → c.Formed cell)
    (spares : Spares c kept roots) :
    kept.cells[a]? = some cell ↔ c.cells[a]? = some cell ∧ c.Reaches roots a := by
  refine ⟨fun here => ⟨spares.sub here, ?_⟩, fun ⟨here, reached⟩ => (spares.reaches reached).2.trans here⟩
  exact spares.reaches_of_kept (settled.reaches formed spares here)

/-- Of the entries just those are kept whose cells are live. -/
structure KeepsJust (c kept : Cache) (live : Address → Prop) : Prop where
  token : ∀ (key : Kind × Text) (a : Address), kept.tokens[key]? = some a ↔
    c.tokens[key]? = some a ∧ live a
  node : ∀ (key : Kind × List Address) (a : Address), kept.nodes[key]? = some a ↔
    c.nodes[key]? = some a ∧ live a

/-- Whether there is a cell at an address. -/
def Houses (c : Cache) (a : Address) : Prop := ∃ cell, c.cells[a]? = some cell

theorem Linked.houses_token (h : c.Linked) {key : Kind × Text} (entry : c.tokens[key]? = some a) :
    c.Houses a :=
  ⟨_, h.token key.1 key.2 a entry⟩

theorem Linked.houses_node (h : c.Linked) {key : Kind × List Address} (entry : c.nodes[key]? = some a) :
    c.Houses a := by
  obtain ⟨gs, found, -⟩ := h.node key.1 key.2 a entry
  exact ⟨_, found⟩

/-- Entries that go with their cells are kept if the roots lead to them. -/
theorem KeepsJust.of_settled (linked : c.Linked) (spares : Spares c kept roots)
    (settled : kept.Settled roots) (keeps : KeepsJust c kept kept.Houses) :
    KeepsJust c kept (c.Reaches roots) := by
  have live (a : Address) (here : c.Houses a) : kept.Houses a ↔ c.Reaches roots a := by
    obtain ⟨cell, found⟩ := here
    constructor
    · rintro ⟨cell, left⟩
      exact ((settled.cell_iff linked.formed spares).mp left).2
    · exact fun reached => ⟨cell, (settled.cell_iff linked.formed spares).mpr ⟨found, reached⟩⟩
  exact ⟨fun key a => (keeps.token key a).trans (and_congr_right fun entry => live a (linked.houses_token entry)),
    fun key a => (keeps.node key a).trans (and_congr_right fun entry => live a (linked.houses_node entry))⟩

/-! ## Rounds of a sweep -/

theorem houses_iff_contains : c.Houses a ↔ c.cells.contains a = true := by
  rw [Std.HashMap.contains_eq_isSome_getElem?, Option.isSome_iff_exists, Houses]

/-- As many rounds as there are cells are enough, since every round but the last frees one. -/
theorem settled_sweep {rounds : Nat} (enough : c.cells.size ≤ rounds) : (c.sweep roots rounds).Settled roots := by
  induction rounds generalizing c with
  | zero =>
    intro a cell here
    have none_left : c.cells.isEmpty = true := by
      rw [Std.HashMap.isEmpty_eq_size_eq_zero, Nat.le_zero.mp enough]
      rfl
    have absent := Std.HashMap.isEmpty_iff_forall_not_mem.mp none_left a
    rw [← Std.HashMap.contains_iff_mem, ← houses_iff_contains] at absent
    exact absurd ⟨cell, here⟩ absent
  | succ rounds ih =>
    rw [sweep]
    dsimp only
    have fewer := Std.HashMap.size_filter_le_size (m := c.cells)
      (f := fun a _ => (c.referenced roots).contains a)
    split
    · next same =>
      -- Nothing was freed, so every cell was referred to, and still is.
      have used := Std.HashMap.size_filter_eq_size_iff.mp (beq_iff_eq.mp same)
      intro a cell here
      have old := (Spares.used c roots).sub here
      have inside : a ∈ c.cells := by
        rw [← Std.HashMap.contains_iff_mem, ← houses_iff_contains]
        exact ⟨cell, old⟩
      have referred := used a inside
      simp only [Std.HashMap.getKey_eq, Std.HashSet.contains_iff_mem] at referred
      rcases mem_referenced.mp referred with held | ⟨b, parent, found, link⟩
      · exact mem_referenced.mpr (.inl held)
      · refine mem_referenced.mpr (.inr ⟨b, parent, ?_, link⟩)
        have stays : b ∈ c.cells := by
          rw [← Std.HashMap.contains_iff_mem, ← houses_iff_contains]
          exact ⟨parent, found⟩
        have referred := used b stays
        simp only [Std.HashMap.getKey_eq] at referred
        rw [Std.HashMap.getElem?_filter', found]
        simp [referred]
    · next less =>
      have less := mt beq_iff_eq.mpr less
      exact ih (by dsimp only; omega)

theorem settled_collect (c : Cache) (roots : List Address) : (c.collect roots).Settled roots :=
  settled_sweep (Nat.le_refl _)

theorem threshold_sweep (rounds : Nat) : (c.sweep roots rounds).threshold = c.threshold := by
  induction rounds generalizing c with
  | zero => rfl
  | succ rounds ih =>
    rw [sweep]
    dsimp only
    split
    · rfl
    · exact ih

theorem threshold_collect (c : Cache) (roots : List Address) :
    (c.collect roots).threshold = c.threshold :=
  threshold_sweep c.cells.size

theorem getElem?_filter_eq_some {κ : Type} [BEq κ] [Hashable κ] [LawfulBEq κ]
    {entries : Std.HashMap κ Address} {f : Address → Bool} {key : κ} :
    (entries.filter fun _ a => f a)[key]? = some a ↔ entries[key]? = some a ∧ f a = true := by
  rw [Std.HashMap.getElem?_filter', Option.filter_eq_some_iff]

theorem keepsJust_collect_houses (c : Cache) (roots : List Address) :
    KeepsJust c (c.collect roots) (c.collect roots).Houses := by
  constructor <;> intro key a <;> rw [houses_iff_contains] <;> exact getElem?_filter_eq_some

theorem Linked.keepsJust_collect (h : c.Linked) (roots : List Address) :
    KeepsJust c (c.collect roots) (c.Reaches roots) :=
  .of_settled h (spares_collect c roots) (settled_collect c roots) (keepsJust_collect_houses c roots)

/-! ## Other orders -/

/-- The cell at an address is freed, with the entry that finds it. -/
def free (c : Cache) (a : Address) : Cache :=
  { c with
    cells := c.cells.erase a
    tokens := c.tokens.filter fun _ b => b != a
    nodes := c.nodes.filter fun _ b => b != a }

/-- Cells that nothing but an entry refers to are freed one at a time, in any order, until there is none. -/
inductive Sweeps (roots : List Address) : Cache → Cache → Prop
  | done (c : Cache) (settled : c.Settled roots) : Sweeps roots c c
  | free {c left : Cache} (a : Address) (unused : a ∉ c.referenced roots)
      (rest : Sweeps roots (c.free a) left) : Sweeps roots c left

theorem cells_free (a b : Address) : (c.free a).cells[b]? = if a = b then none else c.cells[b]? := by
  simp [free, Std.HashMap.getElem?_erase]

theorem spares_free (unused : a ∉ c.referenced roots) : Spares c (c.free a) roots := by
  have sub {b : Address} {cell : Cell} (hb : (c.free a).cells[b]? = some cell) :
      c.cells[b]? = some cell := by
    rw [cells_free] at hb
    split at hb
    · contradiction
    · exact hb
  have stays {b : Address} (hb : b ∈ c.referenced roots) : (c.free a).cells[b]? = c.cells[b]? := by
    rw [cells_free, if_neg]
    rintro rfl
    exact unused hb
  exact ⟨sub, fun hb d hd => stays (mem_referenced.mpr (.inr ⟨_, _, sub hb, hd⟩)),
    fun b hb => stays (mem_referenced.mpr (.inl hb))⟩

theorem token_free {key : Kind × Text} :
    (c.free a).tokens[key]? = some b ↔ c.tokens[key]? = some b ∧ b ≠ a := by
  rw [free, getElem?_filter_eq_some (f := (· != a)), bne_iff_ne]

theorem node_free {key : Kind × List Address} :
    (c.free a).nodes[key]? = some b ↔ c.nodes[key]? = some b ∧ b ≠ a := by
  rw [free, getElem?_filter_eq_some (f := (· != a)), bne_iff_ne]

theorem Formed.spared (h : c.Formed cell) (spares : Spares c kept roots)
    (here : kept.cells[a]? = some cell) : kept.Formed cell :=
  h.of_holds fun _ holds => holds.imp fun b hb _ old => (spares.children here b hb).trans old

/-- What spares its cells and keeps entries of those alone stays linked. -/
theorem Linked.spared (h : c.Linked) (spares : Spares c kept roots)
    (keeps : KeepsJust c kept kept.Houses) : kept.Linked := by
  refine ⟨fun a cell here => (h.formed a cell (spares.sub here)).spared spares here,
    fun k t a entry => ?_, fun k children a entry => ?_⟩
  · obtain ⟨old, cell, here⟩ := (keeps.token _ a).mp entry
    exact here.trans ((spares.sub here).symm.trans (h.token k t a old))
  · obtain ⟨old, cell, here⟩ := (keeps.node _ a).mp entry
    obtain ⟨gs, found, holds⟩ := h.node k children a old
    have here := here.trans ((spares.sub here).symm.trans found)
    exact ⟨gs, here, holds.imp fun b hb _ old => (spares.children here b hb).trans old⟩

theorem Linked.keepsJust_free (h : c.Linked) (a : Address) :
    KeepsJust c (c.free a) (c.free a).Houses := by
  have houses {b : Address} (here : c.Houses b) : (c.free a).Houses b ↔ b ≠ a := by
    obtain ⟨cell, found⟩ := here
    simp only [Houses, cells_free]
    by_cases same : a = b
    · simp [same]
    · simp [same, found, Ne.symm same]
  exact ⟨fun _ _ => token_free.trans (and_congr_right fun entry => (houses (h.houses_token entry)).symm),
    fun _ _ => node_free.trans (and_congr_right fun entry => (houses (h.houses_node entry)).symm)⟩

theorem KeepsJust.trans {later : Cache} (h : KeepsJust c kept kept.Houses)
    (h' : KeepsJust kept later later.Houses) (sub : ∀ a, later.Houses a → kept.Houses a) :
    KeepsJust c later later.Houses := by
  refine ⟨fun key a => ?_, fun key a => ?_⟩
  · rw [h'.token, h.token, and_assoc]
    exact and_congr_right fun _ => ⟨And.right, fun left => ⟨sub a left, left⟩⟩
  · rw [h'.node, h.node, and_assoc]
    exact and_congr_right fun _ => ⟨And.right, fun left => ⟨sub a left, left⟩⟩

/-- Every order ends with the same entries. -/
theorem Linked.keepsJust_sweeps (h : c.Linked) {left : Cache} (sweeps : Sweeps roots c left) :
    KeepsJust c left (c.Reaches roots) := by
  have end_of : Spares c left roots ∧ left.Settled roots ∧ KeepsJust c left left.Houses := by
    induction sweeps with
    | done c settled =>
      exact ⟨.refl c roots, settled, fun _ _ => (and_iff_left_of_imp h.houses_token).symm,
        fun _ _ => (and_iff_left_of_imp h.houses_node).symm⟩
    | free a unused rest ih =>
      have spares := spares_free unused
      have keeps := h.keepsJust_free a
      obtain ⟨later, settled, keeps'⟩ := ih (h.spared spares keeps)
      exact ⟨spares.trans later, settled, keeps.trans keeps' fun b ⟨cell, here⟩ => ⟨cell, later.sub here⟩⟩
  exact .of_settled h end_of.1 end_of.2.1 end_of.2.2

/-! ## How many entries are dropped -/

open Classical in
/-- Number of the entries whose cells the roots do not lead to. -/
noncomputable def unreached (c : Cache) (roots : List Address) : Nat :=
  c.tokens.toList.countP (fun entry => ¬ c.Reaches roots entry.2) +
    c.nodes.toList.countP fun entry => ¬ c.Reaches roots entry.2

open Classical in
/-- The entries that are kept and those that are not are all there are. -/
theorem size_filter_add_countP {κ : Type} [BEq κ] [Hashable κ] [LawfulBEq κ]
    (entries : Std.HashMap κ Address) {f : Address → Bool} {live : Address → Prop}
    (kept_iff : ∀ (key : κ) (a : Address), entries[key]? = some a → (f a = true ↔ live a)) :
    (entries.filter fun _ a => f a).size + entries.toList.countP (fun entry => ¬ live entry.2) =
      entries.size := by
  rw [← Std.HashMap.length_toList, ← Std.HashMap.length_toList,
    Std.HashMap.toList_filter.length_eq, ← List.countP_eq_length_filter,
    List.length_eq_countP_add_countP (fun entry : κ × Address => f entry.2) (l := entries.toList)]
  congr 1
  refine List.countP_congr fun entry member => ?_
  have found := Std.HashMap.mem_toList_iff_getElem?_eq_some.mp member
  simp [← kept_iff _ _ found]

theorem Linked.collectedBy_collect (h : c.Linked) (roots : List Address) :
    c.collectedBy (c.collect roots) = c.unreached roots := by
  have live {a : Address} (here : c.Houses a) :
      (c.collect roots).cells.contains a = true ↔ c.Reaches roots a := by
    rw [← houses_iff_contains]
    obtain ⟨cell, found⟩ := here
    have cell_iff {cell : Cell} : (c.collect roots).cells[a]? = some cell ↔ _ :=
      (settled_collect c roots).cell_iff h.formed (spares_collect c roots)
    exact ⟨fun ⟨_, left⟩ => (cell_iff.mp left).2, fun reached => ⟨cell, cell_iff.mpr ⟨found, reached⟩⟩⟩
  have tokens := size_filter_add_countP c.tokens fun _ _ entry => live (h.houses_token entry)
  have nodes := size_filter_add_countP c.nodes fun _ _ entry => live (h.houses_node entry)
  change (c.nodes.size + c.tokens.size) - ((c.collect roots).nodes.size + (c.collect roots).tokens.size) = _
  rw [unreached]
  change (c.collect roots).tokens.size + _ = _ at tokens
  change (c.collect roots).nodes.size + _ = _ at nodes
  omega

/-- A collection right after another one drops nothing. -/
theorem Linked.unreached_collect (h : c.Linked) (roots : List Address) :
    (c.collect roots).unreached roots = 0 := by
  have spares := spares_collect c roots
  have keeps := h.keepsJust_collect roots
  rw [unreached, Nat.add_eq_zero_iff, List.countP_eq_zero, List.countP_eq_zero]
  constructor <;> intro entry member <;>
    have found := Std.HashMap.mem_toList_iff_getElem?_eq_some.mp member
  · simp [(spares.reaches ((keeps.token _ _).mp found).2).1]
  · simp [(spares.reaches ((keeps.node _ _).mp found).2).1]

/-! ## The operations -/

theorem Linked.collect (h : c.Linked) (roots : List Address) : (c.collect roots).Linked :=
  h.spared (spares_collect c roots) (keepsJust_collect_houses c roots)

theorem exists_hold {addresses : List Address} (housed : ∀ a ∈ addresses, c.Houses a) :
    ∃ gs, c.Hold addresses gs := by
  induction addresses with
  | nil => exact ⟨[], .nil⟩
  | cons a addresses ih =>
    obtain ⟨cell, found⟩ := housed a List.mem_cons_self
    obtain ⟨gs, holds⟩ := ih fun b hb => housed b (List.mem_cons_of_mem _ hb)
    exact ⟨_, .cons (element?_of_cell found) holds⟩

theorem branch_of_hold {addresses : List Address} {gs : List Green} (holds : c.Hold addresses gs)
    (kind : Kind) : c.branch kind addresses = .branch kind gs := by
  rw [branch, holds.filterMap]

theorem Adds.houses {c' : Cache} {fresh : Address} (adds : Adds c c' fresh cell) (here : c.Houses a) :
    c'.Houses a := by
  obtain ⟨cell, found⟩ := here
  exact ⟨cell, adds.old found⟩

/-- A new cell, with an entry for it or without. -/
theorem Linked.add (h : c.Linked) {c' : Cache} {fresh : Address} (adds : Adds c c' fresh cell)
    (formed : c.Formed cell)
    (tokens : ∀ (k : Kind) (t : Text) (a : Address), c'.tokens[(k, t)]? = some a →
      c.tokens[(k, t)]? = some a ∨ a = fresh ∧ cell = ⟨.token k t, []⟩)
    (nodes : ∀ (k : Kind) (children : List Address) (a : Address), c'.nodes[(k, children)]? = some a →
      c.nodes[(k, children)]? = some a ∨
        a = fresh ∧ ∃ gs, cell = ⟨.branch k gs, children⟩ ∧ c.Hold children gs) : c'.Linked := by
  refine ⟨fun a cell' here => ?_, fun k t a entry => ?_, fun k children a entry => ?_⟩
  · rw [adds.cells] at here
    split at here
    · cases here
      exact formed.of_holds fun _ => adds.hold
    · exact (h.formed a cell' here).of_holds fun _ => adds.hold
  · rcases tokens k t a entry with old | ⟨rfl, rfl⟩
    · exact adds.old (h.token k t a old)
    · exact adds.here
  · rcases nodes k children a entry with old | ⟨rfl, gs, rfl, holds⟩
    · obtain ⟨gs, found, holds⟩ := h.node k children a old
      exact ⟨gs, adds.old found, adds.hold holds⟩
    · exact ⟨gs, adds.here, adds.hold holds⟩

theorem Linked.putToken (h : c.Linked) {fresh : Address} (free : c.Free fresh) (kind : Kind)
    (text : Text) : (c.putToken fresh kind text).Linked :=
  h.add (.put free rfl) (.token kind text rfl) (fun _ _ _ => .inl) fun _ _ _ => .inl

theorem Linked.putNode (h : c.Linked) {fresh : Address} (free : c.Free fresh) (kind : Kind)
    {children : List Address} (housed : ∀ a ∈ children, c.Houses a) :
    (c.putNode fresh kind children).Linked := by
  obtain ⟨gs, holds⟩ := exists_hold housed
  exact h.add (.put free rfl) (.node kind gs (branch_of_hold holds kind) holds) (fun _ _ _ => .inl)
    fun _ _ _ => .inl

theorem houses_put {fresh : Address} (here : c.Houses a) : (c.put fresh cell).Houses a := by
  rw [houses_iff_contains] at here ⊢
  simp [put, here]

theorem houses_fresh (fresh : Address) (cell : Cell) : (c.put fresh cell).Houses fresh :=
  ⟨cell, by simp [put]⟩

/-- A token is answered by its cell, and nothing is freed. -/
theorem Linked.token_spec (h : c.Linked) {fresh : Address} (free : c.Free fresh) (kind : Kind)
    (text : Text) : (c.token fresh kind text).2.Linked ∧
      (c.token fresh kind text).2.Houses (c.token fresh kind text).1 ∧
      (∀ a, c.Houses a → (c.token fresh kind text).2.Houses a) ∧
      (c.token fresh kind text).2.nodes = c.nodes ∧
      (c.token fresh kind text).2.threshold = c.threshold := by
  unfold Cache.token
  split
  · next a known => exact ⟨h, h.houses_token known, fun _ => id, rfl, rfl⟩
  · next unknown =>
    have adds : Adds c { c.putToken fresh kind text with
        tokens := c.tokens.insert (kind, text) fresh } fresh ⟨.token kind text, []⟩ := .put free rfl
    refine ⟨h.add adds (.token kind text rfl) (fun k t a entry => ?_) fun _ _ _ => .inl,
      ⟨_, adds.here⟩, fun _ => adds.houses, rfl, rfl⟩
    rcases (getElem?_insert_unknown unknown).mp entry with old | ⟨rfl, same⟩
    · exact .inl old
    · cases same
      exact .inr ⟨rfl, rfl⟩

/-- Whether an insertion runs a collection: the node is new, and with it the threshold is reached. -/
def Overflows (c : Cache) (kind : Kind) (children : List Address) : Prop :=
  c.nodes[(kind, children)]? = none ∧ c.threshold ≤ c.nodes.size + 1

instance (kind : Kind) (children : List Address) : Decidable (c.Overflows kind children) :=
  inferInstanceAs (Decidable (_ ∧ _))

/-- The cache with a new node and its entry, before any collection. -/
def withNode (c : Cache) (fresh : Address) (kind : Kind) (children : List Address) : Cache :=
  { c.putNode fresh kind children with nodes := c.nodes.insert (kind, children) fresh }

theorem node_of_known {fresh : Address} {kind : Kind} {children : List Address}
    (known : c.nodes[(kind, children)]? = some a) : c.node fresh roots kind children = (a, c) := by
  rw [node, known]

theorem node_of_unknown {fresh : Address} {kind : Kind} {children : List Address}
    (unknown : c.nodes[(kind, children)]? = none) : c.node fresh roots kind children =
      (fresh, (c.withNode fresh kind children).settle (fresh :: roots)) := by
  rw [node, unknown]
  rfl

theorem size_withNode (fresh : Address) {kind : Kind} {children : List Address}
    (unknown : c.nodes[(kind, children)]? = none) :
    (c.withNode fresh kind children).nodes.size = c.nodes.size + 1 := by
  have absent : (kind, children) ∉ c.nodes := by
    rw [← Std.HashMap.contains_iff_mem, Std.HashMap.contains_eq_isSome_getElem?, unknown]
    simp
  exact Std.HashMap.size_insert.trans (if_neg absent)

theorem Linked.withNode (h : c.Linked) {fresh : Address} (free : c.Free fresh) {kind : Kind}
    {children : List Address} {gs : List Green} (holds : c.Hold children gs)
    (unknown : c.nodes[(kind, children)]? = none) : (c.withNode fresh kind children).Linked := by
  have made := branch_of_hold holds kind
  have adds : Adds c (c.withNode fresh kind children) fresh ⟨.branch kind gs, children⟩ :=
    .put free (by rw [← made]; rfl)
  refine h.add adds (.node kind gs rfl holds) (fun _ _ _ => .inl) fun k addresses a entry => ?_
  rcases (getElem?_insert_unknown unknown).mp entry with old | ⟨rfl, same⟩
  · exact .inl old
  · cases same
    exact .inr ⟨rfl, gs, rfl, holds⟩

/-- Entries whose cells the roots lead to outlive the collection that an insertion may run. -/
theorem Linked.settle_spec (h : c.Linked) (roots : List Address) : (c.settle roots).Linked ∧
    (∀ (key : Kind × List Address) (a : Address), c.nodes[key]? = some a → a ∈ roots →
      (c.settle roots).nodes[key]? = some a) ∧
    ∀ a ∈ roots, (c.settle roots).cells[a]? = c.cells[a]? := by
  unfold settle
  split
  · obtain ⟨formed, token, node⟩ := h.collect roots
    exact ⟨⟨fun a cell here => (formed a cell here).of_holds fun _ holds => holds, token, node⟩,
      fun key a entry held => ((h.keepsJust_collect roots).node key a).mpr ⟨entry, .root held⟩,
      (spares_collect c roots).roots⟩
  · exact ⟨h, fun _ _ entry _ => entry, fun _ _ => rfl⟩

/-- A node is answered by its entry, which leads to a cell with the node over the children's elements, and
what the roots are on stays. -/
theorem Linked.node_spec (h : c.Linked) {fresh : Address} (free : c.Free fresh) (roots : List Address)
    (kind : Kind) {children : List Address} {gs : List Green} (holds : c.Hold children gs) :
    (c.node fresh roots kind children).2.Linked ∧
      (c.node fresh roots kind children).2.nodes[(kind, children)]? =
        some (c.node fresh roots kind children).1 ∧
      (c.node fresh roots kind children).2.element? (c.node fresh roots kind children).1 =
        some (.branch kind gs) ∧
      ∀ a ∈ roots, c.Houses a → (c.node fresh roots kind children).2.Houses a := by
  cases entry : c.nodes[(kind, children)]? with
  | some a =>
    obtain ⟨gs', found, holds'⟩ := h.node kind children a entry
    obtain rfl : gs' = gs := by rw [← holds.filterMap, ← holds'.filterMap]
    rw [node_of_known entry]
    exact ⟨h, entry, element?_of_cell found, fun _ _ => id⟩
  | none =>
    rw [node_of_unknown entry]
    have adds : Adds c (c.withNode fresh kind children) fresh ⟨c.branch kind children, children⟩ :=
      .put free rfl
    obtain ⟨linked, keeps, stays⟩ := (h.withNode free holds entry).settle_spec (fresh :: roots)
    have here := (stays fresh List.mem_cons_self).trans adds.here
    refine ⟨linked, keeps _ fresh ?_ List.mem_cons_self, ?_, fun a held ⟨cell, found⟩ => ?_⟩
    · exact Std.HashMap.getElem?_insert_self
    · rw [← branch_of_hold holds]
      exact element?_of_cell here
    · exact ⟨cell, (stays a (List.mem_cons_of_mem _ held)).trans (adds.old found)⟩

/-- After an insertion the nodes are below the threshold again, which only a collection has changed. -/
theorem threshold_node (below : c.nodes.size < c.threshold) (fresh : Address) (roots : List Address)
    (kind : Kind) (children : List Address) :
    (c.node fresh roots kind children).2.nodes.size < (c.node fresh roots kind children).2.threshold ∧
      (c.node fresh roots kind children).2.threshold = if c.Overflows kind children then
        max (2 * (c.node fresh roots kind children).2.nodes.size) firstCollection else c.threshold := by
  cases entry : c.nodes[(kind, children)]? with
  | some a =>
    have fits : ¬ c.Overflows kind children := fun h => by
      rw [Overflows, entry] at h
      exact absurd h.1 (by simp)
    rw [node_of_known entry, if_neg fits]
    exact ⟨below, rfl⟩
  | none =>
    have size := size_withNode fresh entry
    have same : (c.withNode fresh kind children).threshold = c.threshold := rfl
    rw [node_of_unknown entry]
    dsimp only
    rw [settle, size, same]
    by_cases reached : c.threshold ≤ c.nodes.size + 1
    · rw [if_pos reached, if_pos ⟨entry, reached⟩]
      refine ⟨?_, rfl⟩
      dsimp only
      unfold firstCollection
      omega
    · rw [if_neg reached, if_neg fun h => reached h.2, size]
      exact ⟨by omega, rfl⟩

theorem settle_of_lt (below : c.nodes.size < c.threshold) : c.settle roots = c :=
  if_neg (Nat.not_le.mpr below)

/-! ## Runs -/

/-- A cache and the addresses that handles are on. -/
structure Holding where
  cache : Cache
  handles : List Address

namespace Holding

/-- What can be done with a cache, with elements outside of it, and with handles on both. New cells go to any
address where there is none, and handles are used up by what they go into. A cell without an entry is freed
as soon as nothing refers to it. -/
inductive Step : Holding → Holding → Prop
  | token (s : Holding) (fresh : Address) (kind : Kind) (text : Text) (free : s.cache.Free fresh) :
    Step s ⟨(s.cache.token fresh kind text).2, (s.cache.token fresh kind text).1 :: s.handles⟩
  | node (s : Holding) (fresh : Address) (kind : Kind) (children rest : List Address)
      (given : s.handles.Perm (children ++ rest)) (free : s.cache.Free fresh) :
    Step s ⟨(s.cache.node fresh rest kind children).2, (s.cache.node fresh rest kind children).1 :: rest⟩
  | putToken (s : Holding) (fresh : Address) (kind : Kind) (text : Text) (free : s.cache.Free fresh) :
    Step s ⟨s.cache.putToken fresh kind text, fresh :: s.handles⟩
  | putNode (s : Holding) (fresh : Address) (kind : Kind) (children rest : List Address)
      (given : s.handles.Perm (children ++ rest)) (free : s.cache.Free fresh) :
    Step s ⟨s.cache.putNode fresh kind children, fresh :: rest⟩
  | putWithChild (s : Holding) (fresh : Address) (node : Address) (index : Nat) (child : Address)
      (rest : List Address) (given : s.handles.Perm (child :: rest)) (used : node ∈ rest)
      (free : s.cache.Free fresh) (made : Cache)
      (done : s.cache.putWithChild? fresh node index child = some made) :
    Step s ⟨made, fresh :: rest⟩
  | copy (s : Holding) (a : Address) (used : a ∈ s.handles) : Step s ⟨s.cache, a :: s.handles⟩
  | child (s : Holding) (a b : Address) (used : a ∈ s.handles) (cell : Cell)
      (found : s.cache.cell? a = some cell) (link : b ∈ cell.children) : Step s ⟨s.cache, b :: s.handles⟩
  | drop (s : Holding) (a : Address) (rest : List Address) (given : s.handles.Perm (a :: rest)) :
    Step s ⟨s.cache, rest⟩
  | free (s : Holding) (a : Address) (unused : a ∉ s.cache.referenced s.handles)
      (token : ∀ key : Kind × Text, s.cache.tokens[key]? ≠ some a)
      (node : ∀ key : Kind × List Address, s.cache.nodes[key]? ≠ some a) :
    Step s ⟨s.cache.free a, s.handles⟩
  | collect (s : Holding) : Step s ⟨s.cache.collect s.handles, s.handles⟩

/-- What a new cache can come to. -/
inductive Reachable : Holding → Prop
  | start : Reachable ⟨empty, []⟩
  | step {s s' : Holding} (before : Reachable s) (step : Step s s') : Reachable s'

/-- Every handle is on a cell of a linked cache, and the nodes are below the threshold. -/
structure Sound (s : Holding) : Prop where
  linked : s.cache.Linked
  housed : ∀ a ∈ s.handles, s.cache.Houses a
  below : s.cache.nodes.size < s.cache.threshold

theorem size_nodes_collect_le (c : Cache) (roots : List Address) :
    (c.collect roots).nodes.size ≤ c.nodes.size :=
  Std.HashMap.size_filter_le_size

theorem Sound.step {s s' : Holding} (h : s.Sound) (step : Step s s') : s'.Sound := by
  obtain ⟨linked, housed, below⟩ := h
  cases step with
  | token fresh kind text free =>
    obtain ⟨linked, here, stays, nodes, threshold⟩ := linked.token_spec free kind text
    refine ⟨linked, List.forall_mem_cons.mpr ⟨here, fun a ha => stays a (housed a ha)⟩, ?_⟩
    dsimp only
    rwa [nodes, threshold]
  | node fresh kind children rest given free =>
    obtain ⟨gs, holds⟩ := exists_hold fun a ha => housed a (given.mem_iff.mpr (List.mem_append_left _ ha))
    obtain ⟨linked, entry, -, stays⟩ := linked.node_spec free rest kind holds
    refine ⟨linked, List.forall_mem_cons.mpr ⟨linked.houses_node entry, fun a ha => ?_⟩,
      (threshold_node below fresh rest kind children).1⟩
    exact stays a ha (housed a (given.mem_iff.mpr (List.mem_append_right _ ha)))
  | putToken fresh kind text free =>
    exact ⟨linked.putToken free kind text, List.forall_mem_cons.mpr ⟨houses_fresh _ _,
      fun a ha => houses_put (housed a ha)⟩, below⟩
  | putNode fresh kind children rest given free =>
    refine ⟨linked.putNode free kind fun a ha => housed a (given.mem_iff.mpr (List.mem_append_left _ ha)),
      List.forall_mem_cons.mpr ⟨houses_fresh _ _, fun a ha => houses_put (housed a ?_)⟩, below⟩
    exact given.mem_iff.mpr (List.mem_append_right _ ha)
  | putWithChild fresh node index child rest given used free made done =>
    simp only [putWithChild?, Option.bind_eq_bind, Option.bind_eq_some_iff] at done
    obtain ⟨cell, found, done⟩ := done
    split at done
    · obtain rfl := Option.some.inj done
      refine ⟨linked.putNode free _ fun a ha => ?_, List.forall_mem_cons.mpr ⟨houses_fresh _ _,
        fun a ha => houses_put (housed a (given.mem_iff.mpr (List.mem_cons_of_mem _ ha)))⟩, below⟩
      rcases List.mem_or_eq_of_mem_set ha with old | rfl
      · rcases linked.formed node cell found with ⟨k, t, is⟩ | ⟨k, gs, is, holds⟩
        · simp [is] at old
        · obtain ⟨g, -, inside⟩ := holds.exists_mem old
          obtain ⟨_, here⟩ := cell_of_element? inside
          exact ⟨_, here⟩
      · exact housed a (given.mem_iff.mpr List.mem_cons_self)
    · contradiction
  | copy a used => exact ⟨linked, List.forall_mem_cons.mpr ⟨housed a used, housed⟩, below⟩
  | child a b used cell found link =>
    refine ⟨linked, List.forall_mem_cons.mpr ⟨?_, housed⟩, below⟩
    rcases linked.formed a cell found with ⟨k, t, is⟩ | ⟨k, gs, is, holds⟩
    · simp [is] at link
    · obtain ⟨g, -, inside⟩ := holds.exists_mem link
      obtain ⟨_, here⟩ := cell_of_element? inside
      exact ⟨_, here⟩
  | drop a rest given =>
    exact ⟨linked, fun b hb => housed b (given.mem_iff.mpr (List.mem_cons_of_mem _ hb)), below⟩
  | free a unused token node =>
    have spares := spares_free unused
    refine ⟨linked.spared spares (linked.keepsJust_free a), fun b hb => ?_,
      Nat.lt_of_le_of_lt Std.HashMap.size_filter_le_size below⟩
    obtain ⟨cell, found⟩ := housed b hb
    exact ⟨cell, (spares.roots b hb).trans found⟩
  | collect =>
    have fewer := size_nodes_collect_le s.cache s.handles
    have same := threshold_collect s.cache s.handles
    refine ⟨linked.collect s.handles, fun a ha => ?_, by dsimp only; omega⟩
    obtain ⟨cell, found⟩ := housed a ha
    exact ⟨cell, ((spares_collect s.cache s.handles).roots a ha).trans found⟩

theorem Reachable.sound {s : Holding} (h : s.Reachable) : s.Sound := by
  induction h with
  | start => exact ⟨linked_empty, by simp, by decide⟩
  | step before step ih => exact ih.step step

/-- What collections do, by themselves and in insertions. -/
structure Collects (s : Holding) : Prop where
  /-- Just the entries are kept whose cells the handles lead to. -/
  keeps : KeepsJust s.cache (s.cache.collect s.handles) (s.cache.Reaches s.handles)
  /-- Freeing cells one by one in any order keeps the same ones. -/
  orders : ∀ left, Sweeps s.handles s.cache left → KeepsJust s.cache left (s.cache.Reaches s.handles)
  /-- The number that a collection tells is that of the other entries. -/
  number : s.cache.collectedBy (s.cache.collect s.handles) = s.cache.unreached s.handles
  /-- A second collection drops nothing. -/
  again : (s.cache.collect s.handles).collectedBy ((s.cache.collect s.handles).collect s.handles) = 0 ∧
    KeepsJust (s.cache.collect s.handles) ((s.cache.collect s.handles).collect s.handles) fun _ => True
  /-- The threshold is changed only by the collections that insertions run. -/
  threshold : (s.cache.collect s.handles).threshold = s.cache.threshold
  /-- After an insertion the nodes are below the threshold, and the node that was asked for is there. -/
  insertion : ∀ (fresh : Address) (kind : Kind) (children rest : List Address),
    s.handles.Perm (children ++ rest) → s.cache.Free fresh →
      let answer := s.cache.node fresh rest kind children
      answer.2.nodes.size < answer.2.threshold ∧
        answer.2.threshold = (if s.cache.Overflows kind children then
          max (2 * answer.2.nodes.size) 65536 else s.cache.threshold) ∧
        answer.2.nodes[(kind, children)]? = some answer.1 ∧
        ∃ gs, s.cache.Hold children gs ∧ answer.2.element? answer.1 = some (.branch kind gs)

/-- Whatever is done with a cache, a collection drops the entries that no handle leads to and no others, and
insertions run one often enough to keep the nodes below a threshold that starts at 65536. -/
theorem Reachable.collects (s : Holding) (reachable : s.Reachable) :
    s.Collects ∧ empty.threshold = 65536 := by
  obtain ⟨linked, housed, below⟩ := reachable.sound
  have keeps := linked.keepsJust_collect s.handles
  have nothing := linked.unreached_collect s.handles
  have linked' := linked.collect s.handles
  refine ⟨⟨keeps, fun left => linked.keepsJust_sweeps, linked.collectedBy_collect s.handles,
    ⟨(linked'.collectedBy_collect s.handles).trans nothing, ?_⟩,
    threshold_collect s.cache s.handles, ?_⟩, rfl⟩
  · have spares := spares_collect s.cache s.handles
    have keeps' := linked'.keepsJust_collect s.handles
    refine ⟨fun key a => (keeps'.token key a).trans (and_congr_right fun entry => ?_),
      fun key a => (keeps'.node key a).trans (and_congr_right fun entry => ?_)⟩
    · exact iff_of_true (spares.reaches ((keeps.token key a).mp entry).2).1 trivial
    · exact iff_of_true (spares.reaches ((keeps.node key a).mp entry).2).1 trivial
  · intro fresh kind children rest given free answer
    obtain ⟨gs, holds⟩ := exists_hold fun a ha => housed a (given.mem_iff.mpr (List.mem_append_left _ ha))
    obtain ⟨-, entry, element, -⟩ := linked.node_spec free rest kind holds
    obtain ⟨less, threshold⟩ := threshold_node below fresh rest kind children
    exact ⟨less, threshold, entry, gs, holds, element⟩

/-- A node outside of the cache is all that holds on to a name in it, and another token is held by nothing:
a collection drops the token alone. -/
theorem Reachable.collects_outside : ∃ s : Holding, s.Reachable ∧ s.handles = [2] ∧ s.cache.size = 3 ∧
    s.Collects ∧ empty.threshold = 65536 := by
  have one : Reachable _ := .step .start (.token _ 0 .ident ['x'] (by simp [Free, cell?, empty]))
  rw [token_of_unknown (by simp [empty])] at one
  have two := one.step (.node _ 1 .name [0] [] .rfl (by simp [Free, cell?, putToken, put, empty]))
  rw [node_of_unknown (by simp [putToken, put, empty]),
    settle_of_lt (by
      simp [withNode, putNode, putToken, put, empty, firstCollection, Std.HashMap.size_insert])] at two
  have three := two.step (.putNode _ 2 .param [1] [] .rfl (by
    simp [Free, cell?, withNode, putNode, putToken, put, empty]))
  have four := three.step (.token _ 3 .ident ['y'] (by
    simp [Free, cell?, withNode, putNode, putToken, put, empty]))
  rw [token_of_unknown (by simp [withNode, putNode, putToken, put, empty])] at four
  have five := four.step (.drop _ 3 [2] .rfl)
  refine ⟨_, five, rfl, ?_, Reachable.collects _ five⟩
  simp [size, withNode, putNode, putToken, put, empty, Std.HashMap.size_insert]

end Holding

end Verbatim.Cache
