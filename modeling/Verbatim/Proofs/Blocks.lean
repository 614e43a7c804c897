import Verbatim.Proofs.Edits
import Verbatim.Proofs.Navigation
import Verbatim.Proofs.Transplant

/-!
# A list parsed again in its place

Where an edit lies in one list and that list can be parsed by itself, the exchange of the list in the old
tree and the diagnostics that are merged are what a parse of the whole edited text makes.
-/
namespace Verbatim

open Green Token Outline

/-! ## Diagnostics in three parts -/

namespace Diagnostic

/-- Diagnostics in order, without those that start where one before them does. -/
def kept (ds : List Diagnostic) : List Diagnostic := (ds.foldl keep #[]).toList

theorem mem_of_mem_kept {ds : List Diagnostic} {d : Diagnostic} (h : d ∈ kept ds) : d ∈ ds :=
  ((foldl_keep ds #[] List.nodup_nil).2 d h).resolve_left List.not_mem_nil

/-- What starts elsewhere is kept as if nothing were known. -/
theorem foldl_keep_append {ds : List Diagnostic} {xs : Array Diagnostic}
    (apart : ∀ d ∈ ds, ∀ x ∈ xs, x.span.start ≠ d.span.start) (ys : Array Diagnostic) :
    ds.foldl keep (xs ++ ys) = xs ++ ds.foldl keep ys := by
  induction ds generalizing ys with
  | nil => rfl
  | cons d ds ih =>
    have first : keep (xs ++ ys) d = xs ++ keep ys d := by
      have none : (xs.any fun x => x.span.start == d.span.start) = false := by
        refine Bool.eq_false_iff.mpr fun some => ?_
        obtain ⟨x, hx, same⟩ := Array.any_eq_true'.mp some
        exact apart d List.mem_cons_self x hx (by simpa using same)
      unfold keep
      rw [Array.any_append, none, Bool.false_or]
      split
      · rfl
      · exact Array.append_push.symm
    rw [List.foldl_cons, first, ih fun e he => apart e (List.mem_cons_of_mem _ he)]
    rfl

theorem kept_append {ds es : List Diagnostic}
    (apart : ∀ d ∈ ds, ∀ e ∈ es, d.span.start ≠ e.span.start) : kept (ds ++ es) = kept ds ++ kept es := by
  have elsewhere : ∀ e ∈ es, ∀ d ∈ ds.foldl keep #[], d.span.start ≠ e.span.start := fun e he d hd =>
    apart d (mem_of_mem_kept (Array.mem_toList_iff.mpr hd)) e he
  have all := foldl_keep_append elsewhere #[]
  rw [Array.append_empty] at all
  rw [kept, List.foldl_append, all, Array.toList_append]
  rfl

theorem kept_moved (n : Nat) (ds : List Diagnostic) : kept (ds.map (moved n)) = (kept ds).map (moved n) := by
  have all := foldl_keep_moved n ds #[]
  rw [Array.map_empty] at all
  rw [kept, all, Array.toList_map]
  rfl

theorem le_of_mem_moved {n : Nat} {ds : List Diagnostic} : ∀ d ∈ ds.map (moved n), n ≤ d.span.start := by
  intro d hd
  obtain ⟨d', -, rfl⟩ := List.mem_map.mp hd
  exact Nat.le_add_left ..

/-- Diagnostics in three parts: those that start up to `low`, those inside, and those from `high` on. -/
structure Parts (low high : Nat) (front inner back : List Diagnostic) : Prop where
  room : low < high
  early : ∀ d ∈ front, d.span.start ≤ low
  inside : ∀ d ∈ inner, low < d.span.start ∧ d.span.start < high
  late : ∀ d ∈ back, high ≤ d.span.start

namespace Parts

variable {low high : Nat} {front inner back : List Diagnostic} (h : Parts low high front inner back)

include h

/-- Of diagnostics in different parts both are kept. -/
theorem kept_eq : kept (front ++ inner ++ back) = kept front ++ kept inner ++ kept back := by
  have room := h.room
  rw [kept_append, kept_append]
  · intro d hd i hi
    have := h.early d hd
    have := h.inside i hi
    omega
  · intro d hd b hb
    have := h.late b hb
    rcases List.mem_append.mp hd with hd | hd
    · have := h.early d hd
      omega
    · have := h.inside d hd
      omega

theorem filter_early : (kept (front ++ inner ++ back)).filter (·.span.start ≤ low) = kept front := by
  have room := h.room
  rw [h.kept_eq, List.filter_append, List.filter_append, List.filter_eq_self.mpr,
    List.filter_eq_nil_iff.mpr, List.filter_eq_nil_iff.mpr, List.append_nil, List.append_nil]
  · intro d hd
    have := h.late d (mem_of_mem_kept hd)
    simp only [decide_eq_true_eq]
    omega
  · intro d hd
    have := h.inside d (mem_of_mem_kept hd)
    simp only [decide_eq_true_eq]
    omega
  · exact fun d hd => decide_eq_true (h.early d (mem_of_mem_kept hd))

theorem filter_late : (kept (front ++ inner ++ back)).filter (high ≤ ·.span.start) = kept back := by
  have room := h.room
  rw [h.kept_eq, List.filter_append, List.filter_append, List.filter_eq_nil_iff.mpr,
    List.filter_eq_nil_iff.mpr, List.filter_eq_self.mpr, List.nil_append, List.nil_append]
  · exact fun d hd => decide_eq_true (h.late d (mem_of_mem_kept hd))
  · intro d hd
    have := h.inside d (mem_of_mem_kept hd)
    simp only [decide_eq_true_eq]
    omega
  · intro d hd
    have := h.early d (mem_of_mem_kept hd)
    simp only [decide_eq_true_eq]
    omega

end Parts

end Diagnostic

namespace Parse

open Diagnostic (kept Parts)

/-- Where the diagnostics behind a part move with it, the merged ones are those of both texts. -/
theorem mergeDiagnostics_kept {front inner inner' back : List Diagnostic} {span : Span} {e : Edit} {n : Nat}
    (old : Parts span.start span.stop front inner (back.map (Diagnostic.moved span.stop)))
    (new : Parts span.start n front inner' (back.map (Diagnostic.moved n)))
    (shift : ∀ m, e.shift (m + span.stop) = m + n) :
    mergeDiagnostics (kept (front ++ inner ++ back.map (Diagnostic.moved span.stop))) (kept inner') span e =
      kept (front ++ inner' ++ back.map (Diagnostic.moved n)) := by
  rw [mergeDiagnostics, old.filter_early, old.filter_late, new.kept_eq, Diagnostic.kept_moved,
    Diagnostic.kept_moved, List.map_map]
  congr 1
  refine List.map_congr_left fun d _ => ?_
  simp only [Function.comp_apply, Diagnostic.moved, Span.shift, Edit.shiftSpan, shift]

end Parse

/-! ## The tree -/

namespace Position

/-- An exchange at a position is one at the end of its route. -/
theorem Within.replaceWith_eq {tree : Green} {p : Position} (h : Within tree p) (new : Green) :
    p.replaceWith new = tree.exchange p.path new := by
  induction p generalizing new with
  | root t =>
    obtain rfl : t = tree := Position.root.inj h.top
    rfl
  | child p i e known ih =>
    rw [replaceWith, ih h.parent, path, exchange_snoc h.parent.at?_path h.valid.2.1]

theorem length_ancestors (p : Position) : p.ancestors.length = p.path.length + 1 := by
  induction p with
  | root t => rfl
  | child p i e known ih =>
    rw [ancestors, List.length_cons, ih, path, List.length_append, List.length_singleton]

/-- The last element of a position is one of its children. -/
theorem mem_of_lastChildOrToken? {p : Position} {k : Kind} (h : p.lastChildOrToken?.map kind = some k) :
    ∃ g ∈ p.element.children, g.kind = k := by
  obtain ⟨c, last, rfl⟩ := Option.map_eq_some_iff.mp h
  obtain ⟨i, -, there⟩ := List.mem_filterMap.mp (List.mem_of_mem_head? last)
  obtain ⟨g, here, rfl⟩ := Option.map_eq_some_iff.mp there
  exact ⟨g, List.mem_of_getElem? here, rfl⟩

end Position

/-! ## The old text -/

namespace Token

theorem texts_list (t : Text) : (list t).flatMap (·.text) = t := by
  obtain ⟨ts, split, -, spells⟩ := listFrom_inRow 0 t
  rw [show list t = _ from split, List.flatMap_append, spells]
  exact List.append_nil t

/-- Only the last token of a text is the end. -/
theorem no_end_of_list {t : Text} {ts us : List Token} {x : Token} (h : list t = ts ++ x :: us) :
    ∀ y ∈ ts, y.kind ≠ .eof := by
  obtain ⟨row, split, inRow, -⟩ := listFrom_inRow 0 t
  have all := h.symm.trans split
  have front : ∀ y ∈ ts, y ∈ row := by
    intro y hy
    rcases List.append_eq_append_iff.mp all with ⟨between, rfl, -⟩ | ⟨between, rfl, last⟩
    · exact List.mem_append_left _ hy
    · cases between with
      | nil => simpa using hy
      | cons z between => simp at last
  exact fun y hy => (Input.spelled_of_inRow inRow y (front y hy)).no_end

end Token

/-- What is reported in a list that ends with its brace lies between its ends. -/
theorem Sprout.Settled.within {inner : Sprout} {base : Nat} {k : Kind} {t : Text}
    (settled : inner.Settled (base + t.size))
    (filled : ∀ leaf ∈ leavesOf (Green.token k t :: inner.greens), leaf.2 ≠ []) :
    ∀ d ∈ inner.reports, base < d.span.start ∧
      d.span.start < base + sizeOfLeaves (leavesOf (Green.token k t :: inner.greens)) := by
  intro d hd
  have room : t.size ≠ 0 := fun empty =>
    filled (k, t) (by simp [leavesOf, leaves]) (Text.eq_nil_of_size empty)
  have at_leaf := settled d hd
  have low := at_leaf.bounds.1
  have high := at_leaf.lt_end fun leaf hl => filled leaf (by simp [leavesOf, hl])
  simp only [leavesOf, leaves, List.singleton_append, sizeOfLeaves_cons]
  omega

namespace Outline.Bed

/-- A list in a text `front ++ part ++ back`, of which it takes the middle part. -/
structure Fills (b : Bed) (stop : Nat) (front part back : Text) (before : List Token) : Prop where
  sound : b.Sound (.ofTokens (list (front ++ part ++ back)))
  split : list (front ++ part ++ back) = before ++ b.tokens
  start : b.brace.offset = front.size
  text : texts (b.grown stop).greens = part

namespace Fills

variable {b : Bed} {stop : Nat} {front part back : Text} {before : List Token}
  (h : b.Fills stop front part back before)

include h

theorem more : ∀ x ∈ before, x.kind ≠ .eof := no_end_of_list h.split

theorem spells : before.flatMap (·.text) = front := by
  have follow := follow_list (front ++ part ++ back)
  have all := texts_list (front ++ part ++ back)
  rw [h.split] at follow all
  have start := follow.append.2.1
  rw [h.start, Nat.zero_add] at start
  rw [List.flatMap_append, List.append_assoc] at all
  obtain ⟨m, rfl, -⟩ := Text.split_of_size_le all.symm (Nat.le_of_eq start.symm)
  rw [Text.size_append] at start
  rw [Text.eq_nil_of_size (by omega : Text.size m = 0), List.append_nil]

theorem tokens_eq : b.tokens = listFrom front.size (part ++ back) := by
  have := listFrom_drop (n := 0) h.split (List.append_assoc ..) h.spells h.more
  rwa [Nat.zero_add] at this

/-- Behind the list stands what comes behind its part. -/
theorem rest : (b.grown stop).rest = listFrom (front.size + part.size) back := by
  obtain ⟨used, shows, -⟩ := shows_growOf stop b.row h.sound.lexed h.sound.aligned h.sound.fits
  have spells : used.flatMap (·.text) = part := by rw [← h.text, grown, shows.texts_eq]
  exact listFrom_drop (h.tokens_eq.symm.trans shows.split) rfl spells shows.no_end

theorem brace_eq : ∃ rest, part ++ back = '{' :: rest := by
  have all := texts_list (front ++ part ++ back)
  have opens : b.brace.text = ['{'] :=
    ((h.sound.lexed b.brace List.mem_cons_self).resolve_left (by rw [h.sound.opens]; decide)).spelling "\x7b"
      (by rw [h.sound.opens]; rfl)
  rw [h.split, List.flatMap_append, h.spells, List.append_assoc, tokens, List.flatMap_cons, opens] at all
  exact ⟨_, (List.append_cancel_left all).symm⟩

theorem follow : Follow front.size b.tokens := by
  have all := follow_list (front ++ part ++ back)
  rw [h.split] at all
  have later := all.append.2
  rwa [Nat.zero_add, h.spells] at later

/-- Something is left for the closing brace of the list. -/
theorem left {middle : List Outline} (closed : b.row = inBraces middle) :
    ∃ x ∈ (growOf stop middle b.behind).rest, x.isTrivia = false := by
  have fits := h.sound.fits
  rw [closed] at fits
  obtain ⟨inside, at_end, -⟩ := fits
  obtain ⟨-, inside⟩ := fitsOf_append.mp inside
  have aligned := h.sound.aligned.step h.sound.seen (by rw [h.sound.opens]; decide)
  obtain ⟨used, -, rest⟩ := shows_growOf stop middle (fun x hx => h.sound.lexed x (List.mem_cons_of_mem _ hx))
    aligned inside
  rw [widthOf_append, ← Nat.add_assoc] at at_end
  obtain ⟨taken, later, split, kinds, -, seen⟩ :=
    rest.dropTrivia.glued (takeWhile_dropWhile _) (by decide) at_end
  obtain ⟨x, rfl, -⟩ := List.map_eq_singleton_iff.mp kinds
  have next : x ∈ (growOf stop middle b.behind).rest.dropWhile (·.isTrivia) := by
    rw [split]
    exact List.mem_append_left _ List.mem_cons_self
  exact ⟨x, (List.dropWhile_sublist _).mem next, seen x List.mem_cons_self⟩

/-- What was reported in a list that ends with its brace lies between its ends. -/
theorem inside {x g : Green} {k : Kind} (made : x = .branch k (b.grown stop).greens) (formed : x.Formed)
    (here : g ∈ x.children) (closes : g.kind = .rightBrace) :
    ∀ d ∈ (b.grown stop).reports, front.size < d.span.start ∧ d.span.start < front.size + part.size := by
  have filled := formed.leaf_ne_nil
  rw [made] at here filled
  rw [leaves_branch] at filled
  obtain ⟨middle, closed⟩ := h.sound.bracketed.closed h.sound.braced here closes
  have faultless : b.brace.fault = none := fault_list (front ++ part ++ back) b.brace
    (by rw [h.split]; exact List.mem_append_right _ List.mem_cons_self) (by rw [h.sound.opens]; decide)
  obtain ⟨inner, -, settled, grown⟩ :=
    Fragment.settled_growOf h.follow h.sound.opens faultless (h.left closed)
  have size : sizeOfLeaves (leavesOf (b.grown stop).greens) = part.size := by
    rw [← h.text, texts_eq_leaves]
    rfl
  have lift : growOf stop b.row b.tokens =
      ⟨.token .leftBrace b.brace.text :: inner.greens, inner.reports, inner.rest⟩ := by
    rw [closed]
    exact grown
  rw [Bed.grown, lift] at filled size ⊢
  rw [← size]
  exact settled.within filled

end Fills

end Outline.Bed

/-! ## The new text -/

namespace Outline

theorem Bracketed.room {row : List Outline} (h : Bracketed row) : 0 < widthOf row := by
  obtain ⟨newer, rfl⟩ := List.getLast?_eq_some_iff.mp h.first
  rw [widthOf_append]
  exact Nat.lt_of_lt_of_le Nat.one_pos (Nat.le_add_right _ _)

namespace Bed

/-- A new list for the place of this one. -/
def graft (b : Bed) (bracketed : Bracketed b.row) (middle : List Outline) : Graft where
  fragment := b.fragment
  first := b.first
  last := b.first + widthOf b.row
  scion := inBraces middle
  lt := Nat.lt_add_of_pos_right bracketed.room
  room := Nat.lt_of_lt_of_le Nat.one_pos (Nat.le_add_left _ _)

namespace Fills

variable {b : Bed} {stop : Nat} {front part back : Text} {before : List Token}
  (h : b.Fills stop front part back before)
  {v : Text} {p : Parse} {middle : List Outline}

include h

/-- The new text has the tokens of the new list between those in front of the old one and those behind it,
and the same grows from them as from the new list alone. -/
theorem swap (made : b.fragment.Outlined v p middle) : ∃ ts ket last behind,
    b.Swap (b.graft h.sound.bracketed middle) (front ++ part ++ back) (front ++ v ++ back) v back before ts
      ket last ∧
    list (front ++ v ++ back) = before ++ b.brace :: behind ∧
    ∀ stop', b.regrown stop' (b.graft h.sound.bracketed middle) behind =
      ⟨(whole (inBraces middle) (list v)).greens,
        (whole (inBraces middle) (list v)).reports.map (Diagnostic.moved front.size),
        listFrom (front.size + v.size) back⟩ := by
  obtain ⟨ts, ket, last, listed, closes, ends, no_end, planted⟩ := made.planted
  obtain ⟨rest, opens⟩ := h.brace_eq
  obtain ⟨first, later, tokens_v, -, written⟩ := Fragment.list_of_isBraced made.braced
  have spells_v := texts_list v
  rw [tokens_v, List.flatMap_cons, written] at spells_v
  have closed := listFrom_closed listed no_end closes front.size back
  -- In both texts the list starts with the same brace.
  have head : ∃ behind, listFrom front.size (v ++ back) = b.brace :: behind := by
    have old := h.tokens_eq
    rw [opens, listFrom_leftBrace] at old
    rw [← spells_v, List.append_assoc, List.singleton_append, listFrom_leftBrace, ← (List.cons.inj old).1]
    exact ⟨_, rfl⟩
  have new : list (front ++ v ++ back) = before ++ listFrom front.size (v ++ back) := by
    have old := h.split
    rw [List.append_assoc, opens] at old
    have := listFrom_brace (.inl rfl) old h.spells (later.flatMap (·.text) ++ back)
    rw [Nat.zero_add, ← List.cons_append] at this
    rw [List.append_assoc, ← spells_v]
    exact this
  obtain ⟨behind, head⟩ := head
  refine ⟨ts, ket, last, behind, ⟨h.sound, h.split, h.more, ⟨_, _, h.rest⟩, listed, closes, ends, no_end,
    ?_, ⟨behind, ?_⟩, rfl, rfl, made.all⟩, ?_, fun stop' => ?_⟩
  · rw [new, closed, h.start]
  · rw [h.start, ← closed, head]
  · rw [new, head]
  · rw [regrown, ← head, closed]
    exact planted front.size stop' _

end Fills

end Bed

end Outline

namespace Fragment.Outlined

variable {f : Fragment} {t : Text} {p : Parse} {middle : List Outline}

/-- What is reported in a list that is a text of its own lies between its ends. -/
theorem inside (h : f.Outlined t p middle) (embeds : f.Embeds t p) :
    ∀ d ∈ (whole (inBraces middle) (list t)).reports, 0 < d.span.start ∧ d.span.start < t.size := by
  obtain ⟨first, ts, tokens, opens, -⟩ := list_of_isBraced h.braced
  obtain ⟨inner, settled, grown⟩ := settled_whole tokens opens (Nat.le_of_eq h.all)
  have leaves : p.tree.leaves = leavesOf (.token .leftBrace first.text :: inner.greens) := by
    rw [h.made, grown, leaves_branch]
  have size : sizeOfLeaves p.tree.leaves = t.size := by
    rw [← embeds.text, Parse.text, text_eq_leaves]
    rfl
  have filled := embeds.formed.leaf_ne_nil
  rw [leaves] at size filled
  rw [← Nat.zero_add first.text.size] at settled
  rw [grown, ← size, ← Nat.zero_add (sizeOfLeaves _)]
  exact settled.within filled

/-- The first element of a list that is a text of its own is its opening brace, the last one the closing. -/
theorem ends (h : f.Outlined t p middle) : (∃ v, p.tree.children.head? = some (.token .leftBrace v)) ∧
    ∃ v, p.tree.children.getLast? = some (.token .rightBrace v) := by
  have children : p.tree.children = (whole (inBraces middle) (list t)).greens := by
    rw [h.made]
    rfl
  rw [children]
  constructor
  · obtain ⟨first, ts, tokens, opens, -⟩ := list_of_isBraced h.braced
    obtain ⟨inner, -, grown⟩ := settled_whole tokens opens (Nat.le_of_eq h.all)
    exact ⟨first.text, by rw [grown]; rfl⟩
  · obtain ⟨ts, ket, stop, left, -, closes, ends, -, trivia, rest⟩ := h.tokens
    have seen : ket.isTrivia = false := Token.seen_of_kind closes rfl
    have no_trivia : Sprout.trivia [stop] = ⟨[], [], [stop]⟩ := by
      simp [Sprout.trivia, Sprout.ofTokens, Token.isTrivia, ends, Kind.isTrivia]
    refine ⟨ket.text, ?_⟩
    rw [whole, growOf, Sprout.andThen, Sprout.andThen, rest, grow_brace _ trivia seen, no_trivia]
    simp

end Fragment.Outlined

/-- A text that is parsed as one list is closed by its own braces, provided that nothing in it is too deep: the
tree is of the kind of the list and spells the text, its first and last elements are the braces, and
everything is reported between them. -/
theorem Fragment.closed_of_parse? {f : Fragment} {t : Text} {p : Parse} (h : f.parse? t = .ok (some p))
    (flat : p.tree.depth < nestingLimit) : p.tree.kind = f.kind ∧ p.text = t ∧
      (∃ v, p.tree.children.head? = some (.token .leftBrace v)) ∧
      (∃ v, p.tree.children.getLast? = some (.token .rightBrace v)) ∧
      ∀ d ∈ p.diagnostics, 0 < d.span.start ∧ d.span.start < t.size := by
  have embeds := embeds_parse? h flat
  obtain ⟨middle, outlined⟩ := outlined_parse? h flat
  refine ⟨embeds.kind, embeds.text, outlined.ends.1, outlined.ends.2, fun d hd => ?_⟩
  have reported := (Diagnostic.foldl_keep (whole (inBraces middle) (list t)).reports #[] List.nodup_nil).2 d
    (by rw [outlined.made] at hd; exact hd)
  exact outlined.inside embeds d (reported.resolve_left List.not_mem_nil)

/-! ## The list in the old tree -/

namespace Parse

open Diagnostic (kept Parts)

/-- A list in the tree of a text has grown from a list of its outline. In a text with the same tokens up to
its brace another list may grow there, and the trees differ in its place. -/
theorem stands_whole {t : Text} {row : List Outline} (fits : FitsOf (.ofTokens (list t)) row 0)
    (braced : BracedOf row) {f : Fragment} {x : Green} (node : x.isNode = true) (kind : x.kind = f.kind)
    {r : Route} (end_ : (branch .sourceFile (whole row (list t)).greens).at? r = some x) {stop n : Nat}
    (ends : t.size = stop + n) (n' : Nat) : ∃ place r', ∃ b : Bed, ∃ before, r = place :: r' ∧
      b.fragment = f ∧ b.Sound (.ofTokens (list t)) ∧ x = .branch f.kind (b.grown (stop + n)).greens ∧
      list t = before ++ b.tokens ∧ b.brace.offset = startOf (whole row (list t)).greens place r' ∧
      ∀ g behind u, b.Takes stop n n' g behind → list u = before ++ b.brace :: behind → u.size = stop + n' →
        HoldsOf g row 0 r'.length ∧ Sprout.Swaps b.brace.offset n n' (b.grown (stop + n)).reports
          (b.regrown (stop + n') g behind).reports place r'
          (.branch f.kind (b.regrown (stop + n') g behind).greens) (whole row (list t))
          (whole (graftOf g row 0) (list u)) := by
  have whole_eq : whole row (list t) = (growOf (stop + n) row (list t)).andThen .trivia := by
    rw [whole, Replay.textEnd_list, ends]
  cases r with
  | nil =>
    obtain rfl := Option.some.inj end_
    cases f <;> cases kind
  | cons place r =>
    obtain ⟨c, child, end'⟩ := Option.bind_eq_some_iff.mp end_
    rw [branch, children, whole_eq] at child
    rcases getElem?_andThen child with inside | ⟨later, rfl, behind⟩
    · obtain ⟨b, fragment, sound, grown, lies⟩ := stands_growOf node kind stop n n' row (follow_list t)
        (lexed_list t) (Input.aligned_start _) fits braced inside end'
      obtain ⟨start, -, before, split, swaps⟩ := lies.behindBy
        (fun ts => Sprout.trivia_moved n ts) (fun ts => Sprout.trivia_moved n' ts)
      rw [Nat.zero_add, ← whole_eq] at start
      refine ⟨place, r, b, before, rfl, fragment, sound, grown, split, start, ?_⟩
      intro g behind u takes tokens end_u
      rw [whole_eq, whole, Replay.textEnd_list, end_u, tokens, ← fragment]
      exact swaps g behind takes
    · rw [isNode_of_at?_leaf (isNode_of_placed behind) end'] at node
      contradiction

/-! ## The texts around -/

/-- What makes two parses those of texts that differ in one list: their trees differ in its place, where
the new one has the list of its own parse, and the diagnostics are the same in front of it and, moved with
the text, behind it. -/
structure Regrown (p : Position) (old new list : Parse) (front part v : Text) : Prop where
  tree : new.tree = p.replaceWith list.tree
  diagnostics : ∃ early inner inner' late : List Diagnostic,
    Parts front.size (front.size + part.size) early inner
      (late.map (Diagnostic.moved (front.size + part.size))) ∧
    Parts front.size (front.size + v.size) early inner' (late.map (Diagnostic.moved (front.size + v.size))) ∧
    old.diagnostics = kept (early ++ inner ++ late.map (Diagnostic.moved (front.size + part.size))) ∧
    list.diagnostics.map (Diagnostic.moved front.size) = kept inner' ∧
    new.diagnostics = kept (early ++ inner' ++ late.map (Diagnostic.moved (front.size + v.size)))

variable {front part back v : Text} {old list : Parse} {p : Position} {f : Fragment}

/-- In the outline of the new text the list is exchanged, and the parse of that text grows from there. -/
theorem ofText_of_swap {b : Bed} {g : Graft} {t u : Text} {before ts : List Token} {ket last : Token}
    (swap : b.Swap g t u v back before ts ket last) {middle : List Outline}
    (made : g.fragment.Outlined v list middle) (scion : g.scion = inBraces middle) {n : Nat}
    {row : List Outline}
    (outlined : Parser.outline Parser.sourceFile (.ofTokens (Token.list t)) = ⟨n, [.node .sourceFile row]⟩)
    {below total : Nat} (holds : HoldsOf g row 0 below) (few : below + 1 ≤ total)
    (flat : total + list.tree.depth < nestingLimit) :
    ofText u = .ok ⟨.branch .sourceFile (whole (graftOf g row 0) (Token.list u)).greens,
      kept (whole (graftOf g row 0) (Token.list u)).reports⟩ := by
  have exchanged := Graft.outline_sourceFile swap.sees (fun i => (Input.kind_ofTokens_list t i).1)
    (swap.reads made scion flat) outlined holds few
  obtain ⟨row', outlined', -, -, -, run⟩ := ofText_eq u
  rw [outlined'] at exchanged
  obtain ⟨-, rfl⟩ := Outline.node.inj (List.cons.inj exchanged).1
  exact ofText_of_byProgram run

/-- Where a list of a text can be a text of its own, the text with that list in its place has the tree with
that list in its place, and the diagnostics of the list between those of the text around it. -/
theorem ofText_regrown (parsed : ofText (front ++ part ++ back) = .ok old)
    (within : Position.Within old.tree p) (node : p.isNode = true)
    (fragment : Fragment.ofKind? p.kind = some f) (text : p.text = part)
    (offset : p.offset = front.size) (closes : p.lastChildOrToken?.map Position.kind = some .rightBrace)
    (one : f.parse? v = .ok (some list)) (flat : p.ancestors.length + list.tree.depth < nestingLimit) :
    ∃ new, ofText (front ++ v ++ back) = .ok new ∧ Regrown p old new list front part v := by
  have kind : p.kind = f.kind := Eq.symm (by simpa using List.find?_some fragment)
  have low : list.tree.depth < nestingLimit := Nat.lt_of_le_of_lt (Nat.le_add_left ..) flat
  obtain ⟨middle, made⟩ := Fragment.outlined_parse? one low
  have embeds := Fragment.embeds_parse? one low
  have sizes (part : Text) : (front ++ part ++ back).size = back.size + (front.size + part.size) := by
    simp only [Text.size_append]
    omega
  have sound := sound_of_ofText parsed
  have start := within.offset_eq sound.formed.sized
  have formed : p.element.Formed := within.valid.formed (by rw [within.top]; exact sound.formed)
  -- The list in the old tree.
  obtain ⟨row, outlined, -, fits, -, run⟩ := ofText_eq (front ++ part ++ back)
  obtain rfl := Except.ok.inj ((ofText_of_byProgram run).symm.trans parsed)
  have braced := (Parser.runs_sourceFile (.ofTokens (Token.list (front ++ part ++ back)))).1.braced
  rw [outlined] at braced
  obtain ⟨place, r, b, before, path, rfl, bed, grown, split, start', swaps⟩ := stands_whole fits
    braced.2.2.2 node kind within.at?_path (sizes part) (front.size + v.size)
  have fills : b.Fills (back.size + (front.size + part.size)) front part back before := by
    refine ⟨bed, split, ?_, (congrArg Green.text grown).symm.trans text⟩
    rw [start', ← offset, start, path]
    rfl
  obtain ⟨g, here, closes⟩ := Position.mem_of_lastChildOrToken? closes
  have inside := fills.inside grown formed here closes
  -- The list in the new tree.
  obtain ⟨ts, ket, last, behind, swap, split', regrown⟩ := fills.swap made
  obtain ⟨holds, swaps⟩ := swaps (b.graft bed.bracketed middle) behind (front ++ v ++ back)
    ⟨rfl, rfl, rfl, Token.list back, by rw [fills.rest, listFrom_eq_map], by rw [regrown, listFrom_eq_map]⟩
    split' (sizes v)
  rw [regrown, fills.start] at swaps
  obtain ⟨⟨c, child, exchanged⟩, ⟨early, late, reports, reports', at_front⟩, -⟩ := swaps
  have inside' := made.inside embeds
  refine ⟨_, ofText_of_swap swap made rfl outlined holds ?_ flat, ?_, early, _, _, late,
    ⟨Nat.lt_add_of_pos_right ?_, at_front, inside, Diagnostic.le_of_mem_moved⟩,
    ⟨Nat.lt_add_of_pos_right ?_, at_front, fun d hd => ?_, Diagnostic.le_of_mem_moved⟩,
    congrArg kept reports, ?_, congrArg kept reports'⟩
  · rw [Position.length_ancestors, path, List.length_cons]
    omega
  · have child : (branch .sourceFile (whole row (Token.list (front ++ part ++ back))).greens).children[place]? =
        some c := child
    rw [within.replaceWith_eq, path, exchange, child, exchanged, made.made]
    rfl
  · rw [← text]
    exact room_of_fragment formed node fragment
  · rw [← show list.tree.text = v from embeds.text]
    exact room_of_fragment embeds.formed embeds.isNode (by rw [embeds.kind, ← kind]; exact fragment)
  · obtain ⟨d, here, rfl⟩ := List.mem_map.mp hd
    have := inside' d here
    simp only [Diagnostic.moved, Span.shift]
    omega
  · rw [made.made, Diagnostic.kept_moved]
    rfl

/-- Where a list is parsed again by itself, the parse with that list in its place is the one of the whole
edited text. -/
theorem patchList?_agrees {t u : Text} {e : Edit} {patch : Patch} (parsed : ofText t = .ok old)
    (fits : e.applyTo? t = some u) (within : Position.Within old.tree p) (node : p.isNode = true)
    (patched : patchList? p e = .ok (some patch)) : ofText u = .ok (old.patched e patch) := by
  obtain ⟨f, v, list, fragment, covers, closes, edited, one, flat, rfl⟩ := patchList?_eq_some patched
  have sound := sound_of_ofText parsed
  have top : p.top.element = old.tree := by rw [within.top]; rfl
  have formed_top : p.top.element.Formed := by rw [top]; exact sound.formed
  have formed := within.valid.formed formed_top
  obtain ⟨front, back, frames⟩ := within.valid.frames formed_top
  have text : p.top.element.text = t := by rw [top]; exact sound.text
  rw [← text] at fits parsed
  obtain ⟨v', edited', rfl, sizes, le⟩ := edited_of_covers frames formed covers fits
  obtain rfl := Option.some.inj (edited'.symm.trans edited)
  rw [frames.text] at parsed
  have offset : p.offset = Text.size (front.flatMap (·.2)) := frames.offset
  have size : p.size = p.text.size := size_of_sized _ formed.sized
  obtain ⟨⟨tree, diagnostics⟩, fresh, rfl, early, inner, inner', late, before, behind, old_eq, list_eq, rfl⟩ :=
    ofText_regrown parsed within node fragment rfl offset closes one flat
  rw [fresh, Parse.patched]
  refine congrArg (fun ds => Except.ok (Parse.mk (p.replaceWith list.tree) ds)) ?_
  have stop : p.span.stop = Text.size (front.flatMap (·.2)) + p.text.size := by
    rw [Position.span, Span.stop, offset, size]
  rw [← stop, ← offset] at before
  rw [← stop] at old_eq
  have moved : list.diagnostics.map (fun d => { d with span := d.span.shift p.offset }) = kept inner' := by
    rw [← list_eq, ← offset]
    rfl
  rw [old_eq, moved]
  refine (mergeDiagnostics_kept before (offset ▸ behind) fun m => ?_).symm
  rw [Edit.shift, stop]
  omega

/-- Where an edit lies in a list that is parsed again by itself, the new tree and the diagnostics that are
merged are those of a parse of the whole edited text. -/
theorem patchBlock?_agrees {t u : Text} {e : Edit} {patch : Patch} (parsed : ofText t = .ok old)
    (fits : e.applyTo? t = some u) (patched : patchBlock? (.root old.tree) e = .ok (some patch)) :
    ofText u = .ok (old.patched e patch) := by
  have sound := sound_of_ofText parsed
  obtain ⟨valid, -, top⟩ := Position.covering_root (sound.covers fits)
  obtain ⟨r, found, from_list⟩ := firstPatch?_total e
    (((Position.root old.tree).covering e.delete).ancestors.filter (·.isNode))
  obtain rfl : r = some patch := Except.ok.inj (found.symm.trans patched)
  obtain ⟨p, hp, patched⟩ := from_list patch rfl
  obtain ⟨hp, node⟩ := List.mem_filter.mp hp
  obtain ⟨valid_p, top_p⟩ := valid.ancestor hp
  exact patchList?_agrees parsed fits ⟨valid_p, top_p.trans top⟩ node patched

theorem eq_ok_of_toOption {ε α : Type} {x : Except ε α} {a : α} (h : x.toOption = some a) : x = .ok a := by
  cases x with
  | error => cases h
  | ok b => rw [Option.some.inj h]

/-- A broken statement in a function between two broken imports. -/
theorem patchBlock?_agrees_between_errors : ∃ old patch,
    ofText "use\nfn f() \x7b 1 \x7d\nuse".toList = .ok old ∧
      Edit.applyTo? ⟨⟨13, 1⟩, "let".toList⟩ "use\nfn f() \x7b 1 \x7d\nuse".toList =
        some "use\nfn f() \x7b let \x7d\nuse".toList ∧
      patchBlock? (.root old.tree) ⟨⟨13, 1⟩, "let".toList⟩ = .ok (some patch) ∧
      ofText "use\nfn f() \x7b let \x7d\nuse".toList = .ok (old.patched ⟨⟨13, 1⟩, "let".toList⟩ patch) := by
  have patches : ((ofText "use\nfn f() \x7b 1 \x7d\nuse".toList).toOption.bind fun old =>
      (patchBlock? (.root old.tree) ⟨⟨13, 1⟩, "let".toList⟩).toOption.map (·.isSome)) = some true := by
    decide +kernel
  have fits : Edit.applyTo? ⟨⟨13, 1⟩, "let".toList⟩ "use\nfn f() \x7b 1 \x7d\nuse".toList =
      some "use\nfn f() \x7b let \x7d\nuse".toList := by decide
  obtain ⟨old, parsed, patches⟩ := Option.bind_eq_some_iff.mp patches
  obtain ⟨patch, patched, some_patch⟩ := Option.map_eq_some_iff.mp patches
  obtain ⟨patch, rfl⟩ := Option.isSome_iff_exists.mp some_patch
  have parsed := eq_ok_of_toOption parsed
  have patched := eq_ok_of_toOption patched
  exact ⟨old, patch, parsed, fits, patched, patchBlock?_agrees parsed fits patched⟩

end Parse

end Verbatim
