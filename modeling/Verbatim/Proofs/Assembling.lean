import Verbatim.Green.Assembly
import Verbatim.Proofs.Building
import Verbatim.Proofs.Navigation
import Verbatim.Proofs.Sharing

/-!
# Building loses nothing

Whatever calls a builder gets, the texts of its row are the texts of the tokens in the order in which they
were added, and every node made on the way knows its size. A builder whose elements live in a cache is
refused the same calls and has a row of the same elements, however the cache shares and collects them.
-/
namespace Verbatim

namespace Green

/-- Every node below an element has the size of its text, which is no longer than some text. -/
theorem Sized.weighs {g : Green} (h : g.Sized) {r : Route} {e : Green} (found : g.at? r = some e) :
    e.size = Text.size e.text ∧ e.size ≤ Text.size g.text := by
  induction r generalizing g with
  | nil =>
    obtain rfl : g = e := Option.some.inj found
    exact ⟨size_of_sized g h, Nat.le_of_eq (size_of_sized g h)⟩
  | cons i r ih =>
    obtain ⟨c, child, found⟩ := Option.bind_eq_some_iff.mp found
    obtain ⟨size, le⟩ := ih (sizedOf_iff.mp h.children c (List.mem_of_getElem? child)) found
    refine ⟨size, Nat.le_trans le ?_⟩
    rw [text_eq_leaves g, text_eq_leaves c, leaves_of_child child]
    simp only [List.flatMap_append, Text.size_append]
    omega

theorem texts_append (gs hs : List Green) : texts (gs ++ hs) = texts gs ++ texts hs := by
  rw [texts_eq_leaves, texts_eq_leaves, texts_eq_leaves, leavesOf_append, List.flatMap_append]

theorem size_le_of_mem {g : Green} {gs : List Green} (mem : g ∈ gs) :
    Text.size g.text ≤ Text.size (texts gs) := by
  obtain ⟨before, after, rfl⟩ := List.append_of_mem mem
  rw [texts_append, Text.size_append]
  change Text.size g.text ≤ Text.size _ + Text.size (g.text ++ texts after)
  rw [Text.size_append]
  omega

end Green

/-! ## The row of a builder of trees -/

namespace Builder

open Green

/-- The text that a call adds. -/
def Call.text : Call → Text
  | .token _ text => text
  | _ => []

/-- The texts of the tokens among some calls, in the order of the calls. -/
def spelled (calls : List Call) : Text := calls.flatMap Call.text

variable {b b' : Builder Green} {c : Call}

theorem Turns.texts_eq (turns : Turns .green b c b') :
    texts b'.row.toList = texts b.row.toList ++ c.text := by
  cases turns with
  | start kind => exact (List.append_nil _).symm
  | token kind text =>
    rw [push, Array.toList_push, texts_append]
    exact congrArg _ (List.append_nil text)
  | @finish kind first opened row innermost split =>
    have folded : texts [Green.branch kind (b.row.toList.drop first)] = texts (b.row.toList.drop first) :=
      List.append_nil _
    have whole : texts b.row.toList = texts (b.row.toList.take first) ++ texts (b.row.toList.drop first) := by
      rw [← texts_append, List.take_append_drop]
    rw [split, texts_append, whole]
    exact (congrArg _ folded).trans (List.append_nil _).symm
  | checkpoint => exact (List.append_nil _).symm
  | startAt kind inside behind => exact (List.append_nil _).symm

theorem Turns.sized (turns : Turns .green b c b') (h : SizedOf b.row.toList) : SizedOf b'.row.toList := by
  cases turns with
  | start kind => exact h
  | token kind text =>
    rw [push, Array.toList_push, sizedOf_append]
    exact ⟨h, trivial, trivial⟩
  | @finish kind first opened row innermost split =>
    rw [← List.take_append_drop first b.row.toList, sizedOf_append] at h
    rw [split, sizedOf_append]
    exact ⟨h.1, ⟨rfl, h.2⟩, trivial⟩
  | checkpoint => exact h
  | startAt kind inside behind => exact h

theorem texts_run {calls : List Call} (h : b.run .green calls = .ok b') :
    texts b'.row.toList = texts b.row.toList ++ spelled calls := by
  induction calls generalizing b with
  | nil =>
    cases h
    exact (List.append_nil _).symm
  | cons c cs ih =>
    obtain ⟨next, called, h⟩ := run_cons_eq_ok h
    rw [ih h, (turns_of_call called).texts_eq, List.append_assoc]
    rfl

end Builder

/-! ## A cache that hands out new addresses -/

namespace Cache

variable {c : Cache}

/-- There are no cells where new ones go. -/
def HasRoom (c : Cache) : Prop := ∀ a, c.top ≤ a → c.cells[a]? = none

theorem HasRoom.put (h : c.HasRoom) (cell : Cell) : (c.put c.top cell).HasRoom := by
  intro a ha
  have above : c.top + 1 ≤ a := Nat.le_trans (Nat.le_max_right _ _) ha
  have other : (c.top == a) = false := beq_eq_false_iff_ne.mpr (Nat.ne_of_lt above)
  rw [Cache.put, Std.HashMap.getElem?_insert, other]
  exact h a (Nat.le_of_succ_le above)

theorem top_sweep (c : Cache) (roots : List Address) (rounds : Nat) : (c.sweep roots rounds).top = c.top := by
  induction rounds generalizing c with
  | zero => rfl
  | succ rounds ih =>
    rw [sweep]
    dsimp only
    split
    · rfl
    · exact ih _

theorem HasRoom.settle (h : c.HasRoom) (roots : List Address) : (c.settle roots).HasRoom := by
  unfold Cache.settle
  split
  · intro a ha
    have top : (c.collect roots).top = c.top := top_sweep c roots c.cells.size
    have none : c.cells[a]? = none := h a (top ▸ ha)
    refine Option.eq_none_iff_forall_ne_some.mpr fun cell kept => ?_
    rw [(spares_collect c roots).sub kept] at none
    cases none
  · exact h

/-- Cells and entries belong together, and new cells have room. -/
structure Regular (c : Cache) : Prop where
  canonical : c.Canonical
  room : c.HasRoom

theorem regular_empty : empty.Regular := ⟨canonical_empty, fun a _ => by simp [empty]⟩

theorem Regular.free (h : c.Regular) : c.Free c.top := h.room c.top (Nat.le_refl _)

theorem Regular.token (h : c.Regular) (kind : Kind) (text : Text) : (c.token c.top kind text).2.Regular := by
  refine ⟨(h.canonical.token_spec h.free kind text).1, ?_⟩
  unfold Cache.token
  split
  · exact h.room
  · exact h.room.put ⟨.token kind text, []⟩

theorem Regular.node (h : c.Regular) (roots : List Address) (kind : Kind) {children : List Address}
    {gs : List Green} (holds : c.Hold children gs) : (c.node c.top roots kind children).2.Regular := by
  refine ⟨(h.canonical.node_spec h.free roots kind holds).1, ?_⟩
  unfold Cache.node
  split
  · exact h.room
  · refine HasRoom.settle ?_ _
    exact h.room.put ⟨c.branch kind children, children⟩

end Cache

/-! ## Building in a cache -/

namespace Assembly

open Green

variable {s s' : Assembly} {b : Builder Green} {c : Builder.Call}

/-- The cells of a row hold the elements of a row of trees, with the same nodes open. -/
structure Shows (s : Assembly) (b : Builder Green) : Prop where
  regular : s.cache.Regular
  opened : s.builder.opened = b.opened
  row : s.cache.Hold s.builder.row.toList b.row.toList

theorem shows_of {cache : Cache} (regular : cache.Regular) (outside : List Address) :
    (Assembly.of cache outside).Shows .empty :=
  ⟨regular, rfl, .nil⟩

theorem Shows.size (h : s.Shows b) : s.builder.row.size = b.row.size := by
  rw [← Array.length_toList, ← Array.length_toList]
  exact h.row.length_eq

theorem finishNode_of_closed {kind : Kind} {children : List Address} {rest : Builder Address}
    (closed : s.builder.close = .ok (kind, children, rest)) : s.finishNode = .ok
      { s with
        builder := rest.push (s.cache.node s.cache.top (rest.row.toList ++ s.outside) kind children).1
        cache := (s.cache.node s.cache.top (rest.row.toList ++ s.outside) kind children).2 } := by
  rw [finishNode, closed]
  rfl

/-- A builder in a cache and one of trees are refused the same calls and go on alike. -/
theorem Shows.call (h : s.Shows b) (c : Builder.Call) :
    (∃ e, s.call c = .error e ∧ b.call .green c = .error e) ∨
      ∃ s' b', s.call c = .ok s' ∧ b.call .green c = .ok b' ∧ s'.Shows b' := by
  cases c with
  | start kind =>
    refine .inr ⟨_, _, rfl, rfl, h.regular, ?_, h.row⟩
    rw [Builder.start, Builder.start, h.opened, h.size]
  | token kind text =>
    obtain ⟨-, answer, stays⟩ := h.regular.canonical.token_spec h.regular.free kind text
    refine .inr ⟨_, _, rfl, rfl, h.regular.token kind text, h.opened, ?_⟩
    change Cache.Hold _ (s.builder.row.push _).toList (b.row.push _).toList
    rw [Array.toList_push, Array.toList_push]
    exact List.rel_append (h.row.imp fun a _ cell => stays a cell) (.cons answer .nil)
  | finish =>
    cases innermost : b.opened with
    | nil =>
      refine .inl ⟨.nothingOpen, ?_, ?_⟩
      · rw [Assembly.call, finishNode, Builder.close, h.opened, innermost]
        rfl
      · exact Builder.finish_of_not_closed .green (by rw [Builder.close, innermost])
    | cons o opened =>
      obtain ⟨rest, closed, same, row⟩ := Builder.close_of_opened (h.opened.trans innermost)
      obtain ⟨rest', closed', same', row'⟩ := Builder.close_of_opened innermost
      have children : s.cache.Hold _ _ := List.forall₂_drop o.2 h.row
      have left : s.cache.Hold rest.row.toList rest'.row.toList := by
        rw [row, row']
        exact List.forall₂_take o.2 h.row
      obtain ⟨-, answer, stays⟩ := h.regular.canonical.node_spec h.regular.free
        (rest.row.toList ++ s.outside) o.1 children
      refine .inr ⟨_, _, finishNode_of_closed closed, Builder.finish_of_closed .green closed',
        h.regular.node _ o.1 children, same.trans same'.symm, ?_⟩
      change Cache.Hold _ (rest.row.push _).toList (rest'.row.push _).toList
      rw [Array.toList_push, Array.toList_push]
      exact List.rel_append (left.imp fun a ha cell => stays a (List.mem_append_left _ ha) cell)
        (.cons answer .nil)
  | checkpoint => exact .inr ⟨_, _, rfl, rfl, h⟩
  | startAt checkpoint kind =>
    simp only [Assembly.call, Builder.call, Builder.startAt, h.opened, h.size]
    split
    · exact .inl ⟨_, rfl, rfl⟩
    · split
      · split
        · exact .inl ⟨_, rfl, rfl⟩
        · exact .inr ⟨_, _, rfl, rfl, h.regular, rfl, h.row⟩
      · exact .inr ⟨_, _, rfl, rfl, h.regular, rfl, h.row⟩

theorem refuses_of_call {e : Builder.Misuse} (h : s.call c = .error e) : s.builder.Refuses c e := by
  cases c with
  | finish =>
    cases closed : s.builder.close with
    | error e' =>
      rw [Assembly.call, finishNode, closed] at h
      cases h
      exact Builder.close_eq_error closed
    | ok parts =>
      rw [Assembly.call, finishNode_of_closed closed] at h
      cases h
  | startAt checkpoint kind =>
    cases started : s.builder.startAt checkpoint kind with
    | error e' =>
      rw [Assembly.call, started] at h
      cases h
      exact Builder.startAt_eq_error started
    | ok b =>
      rw [Assembly.call, started] at h
      cases h
  | start kind => cases h
  | token kind text => cases h
  | checkpoint => cases h

/-! ## Runs -/

theorem run_cons (s : Assembly) (c : Builder.Call) (cs : List Builder.Call) :
    s.run (c :: cs) = (s.call c).bind (·.run cs) := rfl

theorem Shows.run (h : s.Shows b) (calls : List Builder.Call) :
    (∃ e, s.run calls = .error e ∧ b.run .green calls = .error e) ∨
      ∃ s' b', s.run calls = .ok s' ∧ b.run .green calls = .ok b' ∧ s'.Shows b' := by
  induction calls generalizing s b with
  | nil => exact .inr ⟨s, b, rfl, rfl, h⟩
  | cons c cs ih =>
    rw [run_cons, Builder.run_cons]
    rcases h.call c with ⟨e, refused, refused'⟩ | ⟨next, next', called, called', shows⟩
    · rw [refused, refused']
      exact .inl ⟨e, rfl, rfl⟩
    · rw [called, called']
      exact ih shows

/-- A run ends early only at a call that is refused. -/
theorem refused_of_run {e : Builder.Misuse} {calls : List Builder.Call} (h : s.run calls = .error e) :
    ∃ front c stopped, front ++ [c] <+: calls ∧ s.run front = .ok stopped ∧ stopped.builder.Refuses c e := by
  induction calls generalizing s with
  | nil => cases h
  | cons c cs ih =>
    rw [run_cons] at h
    cases called : s.call c with
    | error e' =>
      rw [called] at h
      cases h
      exact ⟨[], c, s, by simp, rfl, refuses_of_call called⟩
    | ok next =>
      rw [called] at h
      obtain ⟨front, last, stopped, part, ran, refused⟩ := ih h
      refine ⟨c :: front, last, stopped, List.cons_prefix_cons.mpr ⟨rfl, part⟩, ?_, refused⟩
      rw [run_cons, called]
      exact ran

/-- What the row of a builder in a cache holds behind some calls. -/
theorem Shows.holds {calls : List Builder.Call} (shows : s.Shows b)
    (ran : Builder.empty.run .green calls = .ok b) :
    (∀ o ∈ s.builder.opened, o.2 ≤ s.builder.row.size) ∧ texts b.row.toList = Builder.spelled calls ∧
      SizedOf b.row.toList := by
  have ordered := Builder.ordered_empty.run ran
  refine ⟨?_, Builder.texts_run ran, ?_⟩
  · rw [shows.opened, shows.size]
    exact ordered.le_size
  · exact Builder.run_induction (fun turns sized => turns.sized sized) ran (by trivial)

/-- The only cell of a row holds the only element. -/
theorem Shows.root (h : s.Shows b) {a : Address} (row : s.builder.row.toList = [a]) :
    ∃ g, b.row.toList = [g] ∧ s.cache.element? a = some g := by
  have holds := h.row
  rw [row] at holds
  obtain ⟨g, rest, answer, empty, only⟩ := List.forall₂_cons_left_iff.mp holds
  obtain rfl : rest = [] := List.forall₂_nil_left_iff.mp empty
  exact ⟨g, only, answer⟩

/-- A builder in a cache finishes where one of trees does. -/
theorem Shows.finish_of_root (h : s.Shows b) (closed : b.opened = []) {root : Green} (row : b.row.toList = [root])
    (node : root.isToken = false) : ∃ a, s.finish = .ok a ∧ s.cache.element? a = some root := by
  have holds := h.row
  rw [row] at holds
  obtain ⟨a, rest, answer, empty, only⟩ := List.forall₂_cons_right_iff.mp holds
  obtain rfl : rest = [] := List.forall₂_nil_right_iff.mp empty
  refine ⟨a, Builder.finish_of_root (h.opened.trans closed) only ?_, answer⟩
  rw [isTokenAt, answer]
  exact node

/-- Whatever calls a builder gets, and whatever its cache held before, it stops only at a call that it
refuses for one of its reasons; up to there closing a node splits the row inside of it. The row spells the
tokens in the order in which they were added, and every node in it has the size of its text, never more than
that of all tokens. The root, if there is one, spells all of them. -/
theorem run_spells {cache : Cache} (regular : cache.Regular) (outside : List Address)
    (calls : List Builder.Call) :
    (∀ e, (of cache outside).run calls = .error e → ∃ front c s, front ++ [c] <+: calls ∧
      (of cache outside).run front = .ok s ∧ s.builder.Refuses c e) ∧
    ∀ s, (of cache outside).run calls = .ok s →
      (∀ o ∈ s.builder.opened, o.2 ≤ s.builder.row.size) ∧
      (∃ gs, s.cache.Hold s.builder.row.toList gs ∧ texts gs = Builder.spelled calls ∧
        ∀ g ∈ gs, ∀ r e, g.at? r = some e →
          e.size = Text.size e.text ∧ e.size ≤ Text.size (Builder.spelled calls)) ∧
      (∀ e, s.finish = .error e → s.builder.Unfinished s.isTokenAt e) ∧
      ∀ a, s.finish = .ok a → ∃ root, s.cache.element? a = some root ∧ root.isNode = true ∧
        root.text = Builder.spelled calls ∧ ∀ r e, root.at? r = some e → e.size = Text.size e.text := by
  refine ⟨fun e refused => refused_of_run refused, fun s ran => ?_⟩
  obtain ⟨b, ran', shows⟩ : ∃ b, Builder.empty.run .green calls = .ok b ∧ s.Shows b := by
    rcases (shows_of regular outside).run calls with ⟨e, refused, -⟩ | ⟨s', b, ok, ran', shows⟩
    · rw [ran] at refused
      cases refused
    · rw [ran] at ok
      cases ok
      exact ⟨b, ran', shows⟩
  obtain ⟨within, spelled, sized⟩ := shows.holds ran'
  refine ⟨within, ⟨b.row.toList, shows.row, spelled, fun g mem r e found => ?_⟩,
    fun e unfinished => Builder.finish_eq_error unfinished, fun a finished => ?_⟩
  · obtain ⟨size, le⟩ := (sizedOf_iff.mp sized g mem).weighs found
    exact ⟨size, Nat.le_trans le (spelled ▸ size_le_of_mem mem)⟩
  · obtain ⟨-, row, node⟩ := Builder.finish_eq_ok finished
    obtain ⟨root, only, answer⟩ := shows.root row
    have isNode : root.isNode = true := by
      simpa [isTokenAt, answer, Green.isNode] using node
    rw [only] at spelled sized
    exact ⟨root, answer, isNode, (List.append_nil _).symm.trans spelled,
      fun r e found => (sized.1.weighs found).1⟩

/-- A binary expression that is opened around its left side once that is built; both sides share a cell. -/
def wrapped : List Builder.Call :=
  [.start .sourceFile, .checkpoint, .start .literal, .token .intNumber "1".toList, .finish, .startAt 0 .binExpr,
    .token .plus "+".toList, .start .literal, .token .intNumber "1".toList, .finish, .finish, .finish]

theorem run_spells_wrapped : Cache.empty.Regular ∧ ∃ s a root, (of .empty []).run wrapped = .ok s ∧
    s.finish = .ok a ∧ s.cache.element? a = some root ∧ root.text = "1+1".toList := by
  refine ⟨Cache.regular_empty, ?_⟩
  obtain ⟨s, b, ran, built, shows⟩ : ∃ s b, (of .empty []).run wrapped = .ok s ∧
      Builder.empty.run .green wrapped = .ok b ∧ s.Shows b :=
    ((shows_of Cache.regular_empty []).run wrapped).resolve_left fun ⟨_, _, refused⟩ => by cases refused
  cases built
  obtain ⟨a, finished, -⟩ := shows.finish_of_root rfl rfl rfl
  obtain ⟨root, answer, -, spells, -⟩ := ((run_spells Cache.regular_empty [] wrapped).2 s ran).2.2.2 a finished
  exact ⟨s, a, root, ran, finished, answer, spells⟩

end Assembly

end Verbatim
