import Verbatim.Proofs.Navigation
import Verbatim.Proofs.Skeleton

/-!
# Where trivia stand

Inside of the root, trivia stand in front of what follows them; inside of other nodes they do so too, except
at the end, where there are none, and at the start, where there are only the comments that the node takes
along. Which those are is told by the trivia in front alone.
-/
namespace Verbatim

namespace Token

/-- How trivia in front of a node that takes along comments fall apart: up to the last one that separates,
up to the first comment behind that, and the rest, which is what is counted. -/
theorem attachedCount_split {kind : Kind} (attaches : kind.attachesComments = true) (ahead : List Token) :
    ∃ far passed own, ahead = far ++ passed ++ own ∧ attachedCount kind ahead = own.length ∧
      (∀ t ∈ far.getLast?, t.separates = true) ∧ (∀ t ∈ passed, t.kind ≠ .comment) ∧
      (∀ t ∈ own.head?, t.kind = .comment) ∧ ∀ t ∈ own, t.separates = false := by
  let near := ahead.rtakeWhile (!·.separates)
  refine ⟨ahead.rdropWhile (!·.separates), near.takeWhile (·.kind != .comment),
    near.dropWhile (·.kind != .comment), ?_, ?_, fun t ht => ?_, fun t ht => ?_, fun t ht => ?_, fun t ht => ?_⟩
  · rw [List.append_assoc, List.takeWhile_append_dropWhile, List.rdropWhile_append_rtakeWhile]
  · rw [attachedCount, if_pos attaches]
    rfl
  · have nonempty : ahead.rdropWhile (!·.separates) ≠ [] := fun h => by simp [h] at ht
    have last := List.rdropWhile_last_not (p := fun t : Token => !t.separates) ahead nonempty
    rw [List.getLast?_eq_some_getLast nonempty, Option.mem_some] at ht
    simpa [← ht] using last
  · simpa using List.mem_takeWhile_imp ht
  · have first := List.head?_dropWhile_not (fun t : Token => t.kind != .comment) near
    rw [Option.mem_def.mp ht] at first
    simpa using first
  · have within : t ∈ near := (List.dropWhile_sublist _).subset ht
    simpa using List.mem_rtakeWhile_imp within

-- a line that holds blanks separates nothing
example : attachedCount .fn
    [⟨.comment, "// a".toList, 0, none⟩, ⟨.whitespace, "\n \n".toList, 4, none⟩] = 2 := by
  decide

end Token

open Green Token

namespace Green

def isTrivia : Green → Bool
  | token k _ => k.isTrivia
  | node _ _ _ => false

/-- Comments that document what is around them. -/
def isInnerDoc : Green → Bool
  | token k t => Token.isInnerDoc ⟨k, t, 0, none⟩
  | node _ _ _ => false

/-- Trivia that nothing above it can be attached across. -/
def separates : Green → Bool
  | token k t => Token.separates ⟨k, t, 0, none⟩
  | node _ _ _ => false

theorem isInnerDoc_of_not_separates {g : Green} (h : g.separates = false) : g.isInnerDoc = false := by
  cases g with
  | token k t => exact (Bool.or_eq_false_iff.mp h).2
  | node k n cs => rfl

/-- How the trivia in front of a node are shared out: `before` stay in front of it, and `own` are taken
along, which are those from the first comment on that nothing separates from the node. -/
structure Shared (kind : Kind) (before own : List Green) : Prop where
  attaches : own ≠ [] → kind.attachesComments = true
  starts : ∀ g ∈ own.head?, g.kind = .comment
  near : ∀ g ∈ own, g.separates = false
  apart : kind.attachesComments = true → ∀ xs c ys, before = xs ++ c :: ys → c.kind = .comment →
    ∃ g ∈ c :: ys ++ own, g.separates = true

theorem shared_nil {kind : Kind} (h : kind.attachesComments = false) (before : List Green) :
    Shared kind before [] :=
  ⟨fun h => absurd rfl h, by simp, by simp, fun attaches => by simp [h] at attaches⟩

/-- The trivia in front of a node are shared out as is counted. -/
theorem shared_attachedCount (kind : Kind) (ahead : List Token) :
    Shared kind ((ahead.take (ahead.length - attachedCount kind ahead)).map leaf)
      ((ahead.drop (ahead.length - attachedCount kind ahead)).map leaf) := by
  cases attaches : kind.attachesComments with
  | false =>
    have none : attachedCount kind ahead = 0 := by simp [attachedCount, attaches]
    simpa [none] using shared_nil attaches (ahead.map leaf)
  | true =>
    obtain ⟨far, passed, own, rfl, count, last, plain, first, near⟩ := attachedCount_split attaches ahead
    have front : (far ++ passed ++ own).length - own.length = (far ++ passed).length := by
      rw [List.length_append, Nat.add_sub_cancel]
    rw [count, front, List.take_left, List.drop_left]
    refine ⟨fun _ => attaches, fun g hg => ?_, fun g hg => ?_, fun _ xs c ys split comment => ?_⟩
    · obtain ⟨t, ht, rfl⟩ := Option.map_eq_some_iff.mp ((List.head?_map ..).symm.trans hg)
      exact first t ht
    · obtain ⟨t, ht, rfl⟩ := List.mem_map.mp hg
      exact near t ht
    · -- the comment is not among those passed, so what separates stands behind it
      rw [List.map_append] at split
      have passed_by : c ∉ passed.map leaf := fun among => by
        obtain ⟨t, ht, rfl⟩ := List.mem_map.mp among
        exact plain t ht comment
      rcases List.append_eq_append_iff.mp split with ⟨more, rfl, behind⟩ | ⟨more, front, behind⟩
      · exact absurd (by simp [behind]) passed_by
      · cases more with
        | nil => exact absurd (by simp [← show c :: ys = passed.map leaf from behind]) passed_by
        | cons c' more =>
          obtain ⟨rfl, rfl⟩ := List.cons.inj behind
          obtain ⟨g, hg⟩ : ∃ g, (c :: more).getLast? = some g :=
            ⟨_, List.getLast?_eq_some_getLast (List.cons_ne_nil c more)⟩
          have ends : (far.map leaf).getLast? = some g := by
            rw [front, List.getLast?_append, hg, Option.some_or]
          obtain ⟨t, ht, rfl⟩ := Option.map_eq_some_iff.mp (List.getLast?_map.symm.trans ends)
          have among := List.mem_append_left (passed.map leaf) (List.mem_of_getLast? hg)
          exact ⟨t.leaf, List.mem_append_left _ among, last t ht⟩

/-! ## Rows of elements -/

/-- Elements behind one another: trivia stand in front of what follows them, never at the end. In a node
they stand at the start only if it takes them along, and then it holds something else. -/
inductive Tidy : List Green → Prop
  | nil : Tidy []
  | token {run : List Green} {k : Kind} {text : Text} {gs : List Green}
    (trivia : ∀ g ∈ run, g.isTrivia = true) (visible : k.isTrivia = false) (later : Tidy gs) :
    Tidy (run ++ .token k text :: gs)
  | node {run own rest gs : List Green} {k : Kind} {n : Nat}
    (trivia : ∀ g ∈ run, g.isTrivia = true) (inside : ∀ g ∈ own, g.isTrivia = true)
    (shared : Shared k run own) (opens : ∀ g ∈ rest.head?, g.isTrivia = false) (holds : own ≠ [] → rest ≠ [])
    (below : Tidy rest) (later : Tidy gs) :
    Tidy (run ++ .node k n (own ++ rest) :: gs)

/-- A node of kind `k` behind the trivia `run`, with `own` first inside of it and then `rest`. -/
structure Placed (k : Kind) (run own rest : List Green) : Prop where
  inside : ∀ g ∈ own, g.isTrivia = true
  shared : Shared k run own
  opens : ∀ g ∈ rest.head?, g.isTrivia = false
  holds : own ≠ [] → rest ≠ []
  below : Tidy rest

/-- A node of a row is the first element behind the trivia at its start, or stands further on. -/
theorem getElem?_behind {run gs : List Green} {x : Green} (trivia : ∀ g ∈ run, g.isTrivia = true) {i : Nat}
    {k : Kind} {n : Nat} {cs : List Green} (at_i : (run ++ x :: gs)[i]? = some (.node k n cs)) :
    x = .node k n cs ∧ (run ++ x :: gs).take i = run ∨
      ∃ j, gs[j]? = some (.node k n cs) ∧ (run ++ x :: gs).take i = run ++ x :: gs.take j := by
  rcases Nat.lt_trichotomy i run.length with lt | rfl | gt
  · rw [List.getElem?_append_left lt] at at_i
    have := trivia _ (List.mem_of_getElem? at_i)
    simp [isTrivia] at this
  · exact .inl ⟨by simpa using at_i, List.take_left⟩
  · obtain ⟨j, rfl⟩ := Nat.exists_eq_add_of_lt gt
    rw [Nat.add_assoc, List.getElem?_append_right (Nat.le_add_right ..), Nat.add_sub_cancel_left,
      List.getElem?_cons_succ] at at_i
    refine .inr ⟨j, at_i, ?_⟩
    rw [Nat.add_assoc, List.take_length_add_append, List.take_succ_cons]

/-- The trivia in front of a row that starts with something else. -/
theorem takeWhile_behind {run gs : List Green} (trivia : ∀ g ∈ run, g.isTrivia = true)
    (opens : ∀ g ∈ gs.head?, g.isTrivia = false) : (run ++ gs).takeWhile isTrivia = run := by
  have stops : gs.takeWhile isTrivia = [] := by
    cases gs with
    | nil => rfl
    | cons g gs => simp [opens g rfl]
  rw [List.takeWhile_append_of_pos trivia, stops, List.append_nil]

theorem last_behind {run ahead : List Green} {x : Green} (visible : x.isTrivia = false)
    (h : ∀ g ∈ ahead.getLast?, g.isTrivia = false) :
    ∀ g ∈ (run ++ x :: ahead).getLast?, g.isTrivia = false := by
  cases ahead with
  | nil => simpa using visible
  | cons g gs => simpa [List.getLast?_append, List.getLast?_cons_cons] using h

/-- Where no trivia follow it, a tidy row ends in something else. -/
theorem Tidy.last {gs : List Green} (h : Tidy gs) : ∀ g ∈ gs.getLast?, g.isTrivia = false := by
  induction h with
  | nil => simp
  | token _ visible _ ih => exact last_behind visible ih
  | node _ _ _ _ _ _ _ _ ih => exact last_behind rfl ih

/-- A node of a tidy row, with what is in front of it. -/
theorem Tidy.placed {gs : List Green} (h : Tidy gs) {i : Nat} {k : Kind} {n : Nat} {cs : List Green}
    (at_i : gs[i]? = some (.node k n cs)) :
    ∃ ahead run own rest, gs.take i = ahead ++ run ∧ (∀ g ∈ run, g.isTrivia = true) ∧
      (∀ g ∈ ahead.getLast?, g.isTrivia = false) ∧ cs = own ++ rest ∧ Placed k run own rest := by
  induction h generalizing i with
  | nil => simp at at_i
  | @token before kind text gs trivia visible later ih =>
    rcases getElem?_behind trivia at_i with ⟨no, -⟩ | ⟨j, at_j, front⟩
    · cases no
    · obtain ⟨ahead, run, own, rest, split, inner, last, placed⟩ := ih at_j
      exact ⟨before ++ .token kind text :: ahead, run, own, rest, by rw [front, split]; simp, inner,
        last_behind visible last, placed⟩
  | @node before first more gs kind size trivia inside shared opens holds below later _ ih =>
    rcases getElem?_behind trivia at_i with ⟨here, front⟩ | ⟨j, at_j, front⟩
    · obtain ⟨rfl, -, rfl⟩ := Green.node.inj here
      exact ⟨[], _, _, _, front, trivia, by simp, rfl, inside, shared, opens, holds, below⟩
    · obtain ⟨ahead, run, own, rest, split, inner, last, placed⟩ := ih at_j
      exact ⟨before ++ .node kind size (first ++ more) :: ahead, run, own, rest, by rw [front, split]; simp,
        inner, last_behind rfl last, placed⟩

/-- The same for a tidy row with trivia around it. -/
theorem Tidy.placed_between {front gs back : List Green} (h : Tidy gs) (hf : ∀ g ∈ front, g.isTrivia = true)
    (hb : ∀ g ∈ back, g.isTrivia = true) {i : Nat} {k : Kind} {n : Nat} {cs : List Green}
    (at_i : (front ++ (gs ++ back))[i]? = some (.node k n cs)) :
    ∃ ahead run own rest, (front ++ (gs ++ back)).take i = front ++ ahead ++ run ∧
      (∀ g ∈ run, g.isTrivia = true) ∧ (∀ g ∈ ahead.getLast?, g.isTrivia = false) ∧ cs = own ++ rest ∧
      Placed k run own rest := by
  have visible {gs : List Green} (hg : ∀ g ∈ gs, g.isTrivia = true) (j : Nat) :
      gs[j]? ≠ some (.node k n cs) := fun here => by
    have := hg _ (List.mem_of_getElem? here)
    simp [isTrivia] at this
  rcases Nat.lt_or_ge i front.length with lt | ge
  · rw [List.getElem?_append_left lt] at at_i
    exact absurd at_i (visible hf i)
  obtain ⟨j, rfl⟩ := Nat.exists_eq_add_of_le ge
  rw [List.getElem?_append_right ge, Nat.add_sub_cancel_left] at at_i
  rcases Nat.lt_or_ge j gs.length with lt | ge
  · rw [List.getElem?_append_left lt] at at_i
    obtain ⟨ahead, run, own, rest, split, inner⟩ := h.placed at_i
    refine ⟨ahead, run, own, rest, ?_, inner⟩
    rw [List.take_length_add_append, List.take_append_of_le_length (Nat.le_of_lt lt), split, List.append_assoc]
  · rw [List.getElem?_append_right ge] at at_i
    exact absurd at_i (visible hb _)

end Green

/-! ## What grows is tidy -/

namespace Sprout

theorem isTrivia_ofTokens {placed : List Token} (h : ∀ t ∈ placed, t.isTrivia = true) (rest : List Token) :
    ∀ g ∈ (ofTokens placed rest).greens, g.isTrivia = true := by
  intro g hg
  obtain ⟨t, ht, rfl⟩ := List.mem_map.mp hg
  exact h t ht

theorem isTrivia_trivia (ts : List Token) : ∀ g ∈ (trivia ts).greens, g.isTrivia = true :=
  isTrivia_ofTokens (fun _ => List.mem_takeWhile_imp) _

theorem isTrivia_outer (k : Kind) (ts : List Token) : ∀ g ∈ (outer k ts).greens, g.isTrivia = true :=
  isTrivia_ofTokens (fun _ ht => List.mem_takeWhile_imp (List.mem_of_mem_take ht)) _

/-- What stays in front of a node, and what is placed first inside of it. -/
theorem shared_outer (k : Kind) (ts : List Token) :
    Shared k (outer k ts).greens (trivia (outer k ts).rest).greens := by
  rw [Replay.trivia_outer]
  exact shared_attachedCount k (ts.takeWhile (·.isTrivia))

/-- No trivia are placed first, and nothing is taken where nothing is placed. -/
structure Opens (a : Sprout) (ts : List Token) : Prop where
  head : ∀ g ∈ a.greens.head?, g.isTrivia = false
  rest : a.greens = [] → a.rest = ts

theorem Opens.andThen {a : Sprout} {ts : List Token} (h : a.Opens ts) {next : List Token → Sprout}
    (hn : (next ts).Opens ts) : (a.andThen next).Opens ts := by
  obtain ⟨greens, reports, rest⟩ := a
  cases greens with
  | nil =>
    obtain rfl : rest = ts := h.rest rfl
    exact ⟨hn.head, hn.rest⟩
  | cons g gs => exact ⟨h.head, nofun⟩

theorem opens_leaf {g : Green} (h : g.isTrivia = false) (reports : List Diagnostic) (rest ts : List Token) :
    Opens ⟨[g], reports, rest⟩ ts :=
  ⟨by simpa using h, nofun⟩

end Sprout

namespace Outline

variable {input : Input}

mutual
/-- Behind the trivia, what grows does not start with any. -/
theorem opens_grow (seen : ∀ i, (input.kind i).isTrivia = false) (stop : Nat) :
    ∀ (o : Outline) {ts : List Token} {i : Nat}, Fits input o i → ts.takeWhile (·.isTrivia) = [] →
      (o.grow stop ts).Opens ts
  | .token k n, ts, i, hf, settled => by
    rw [grow, Sprout.trivia_of_none settled]
    exact Sprout.opens_leaf (g := .token k _) (visible_of_fits seen hf) _ _ ts
  | .error _, ts, _, _, _ | .fault _, ts, _, _, _ | .void, ts, _, _, _ => by
    rw [grow]
    exact ⟨by simp, fun _ => rfl⟩
  | .node k row, ts, i, hf, settled | .around k inner row, ts, i, hf, settled => by
    rw [grow, Sprout.outer_of_none settled]
    exact Sprout.opens_leaf rfl _ _ ts

theorem opens_growOf (seen : ∀ i, (input.kind i).isTrivia = false) (stop : Nat) :
    ∀ (row : List Outline) {ts : List Token} {i : Nat}, FitsOf input row i →
      ts.takeWhile (·.isTrivia) = [] → (growOf stop row ts).Opens ts
  | [], ts, _, _, _ => ⟨by simp [growOf], fun _ => rfl⟩
  | o :: older, ts, i, hf, settled =>
    (opens_growOf seen stop older hf.1 settled).andThen (opens_grow seen stop o hf.2 settled)
end

mutual
/-- Where a token is taken something grows. -/
theorem grow_ne_nil (stop : Nat) : ∀ (o : Outline) (ts : List Token), 0 < o.width →
    (o.grow stop ts).greens ≠ []
  | .token k n, ts, _ => by simp [grow, Sprout.andThen, Sprout.taken]
  | .error _, _, h | .fault _, _, h | .void, _, h => by simp [width] at h
  | .node k row, ts, _ | .around k inner row, ts, _ => by simp [grow, Sprout.andThen, Sprout.under]

theorem growOf_ne_nil (stop : Nat) : ∀ (row : List Outline) (ts : List Token), 0 < widthOf row →
    (growOf stop row ts).greens ≠ []
  | [], _, h => by simp [widthOf] at h
  | o :: older, ts, h => by
    rw [widthOf] at h
    rw [growOf, Sprout.andThen]
    by_cases old : 0 < widthOf older
    · exact List.append_ne_nil_of_left_ne_nil (growOf_ne_nil stop older ts old) _
    · exact List.append_ne_nil_of_right_ne_nil _ (grow_ne_nil stop o _ (by omega))
end

theorem grow_ne_nil_of_isNode {o : Outline} (h : o.isNode = true) (stop : Nat) (ts : List Token) :
    (o.grow stop ts).greens ≠ [] := by
  cases o with
  | node k row | around k inner row => simp [grow, Sprout.andThen, Sprout.under]
  | _ => simp [isNode, kind?] at h

/-- A node is tidy if what grows inside of it is. -/
theorem tidy_under {k : Kind} {ts : List Token} {next : List Token → Sprout}
    (opens : (next (Sprout.trivia (Sprout.outer k ts).rest).rest).Opens
      (Sprout.trivia (Sprout.outer k ts).rest).rest)
    (holds : k.attachesComments = true → (next (Sprout.trivia (Sprout.outer k ts).rest).rest).greens ≠ [])
    (below : Tidy (next (Sprout.trivia (Sprout.outer k ts).rest).rest).greens) {gs : List Green}
    (later : Tidy gs) :
    Tidy (((Sprout.outer k ts).andThen fun ts => ((Sprout.trivia ts).andThen next).under k).greens ++ gs) := by
  have shared := Sprout.shared_outer k ts
  simp only [Sprout.andThen, Sprout.under, List.append_assoc, List.singleton_append]
  exact .node (Sprout.isTrivia_outer k ts) (Sprout.isTrivia_trivia _) shared opens.head
    (fun taken => holds (shared.attaches taken)) below later

mutual
/-- What grows from an outline is tidy in front of what is tidy. -/
theorem tidy_grow (seen : ∀ i, (input.kind i).isTrivia = false) (stop : Nat) :
    ∀ (o : Outline) (ts : List Token) {i : Nat}, Fits input o i → o.Clean → o.Stocked →
      ∀ {gs : List Green}, Tidy gs → Tidy ((o.grow stop ts).greens ++ gs)
  | .token k n, ts, i, hf, _, _, gs, later => by
    simp only [grow, Sprout.andThen, Sprout.taken, List.append_assoc, List.singleton_append]
    exact .token (Sprout.isTrivia_trivia ts) (visible_of_fits seen hf) later
  | .error _, _, _, _, _, _, _, later | .fault _, _, _, _, _, _, _, later
  | .void, _, _, _, _, _, _, later => by
    rw [grow]
    exact later
  | .node k row, ts, i, hf, hc, hs, gs, later => by
    have below := tidy_growOf seen stop row (Sprout.trivia (Sprout.outer k ts).rest).rest hf hc.2 hs.2 .nil
    rw [List.append_nil] at below
    rw [grow]
    exact tidy_under (opens_growOf seen stop row hf (takeWhile_dropWhile _))
      (fun attaches => growOf_ne_nil stop row _ (hs.1 attaches)) below later
  | .around k inner row, ts, i, hf, hc, hs, gs, later => by
    obtain ⟨-, node, clean, cleanOf⟩ := hc
    have behind := tidy_growOf seen stop row
      (inner.grow stop (Sprout.trivia (Sprout.outer k ts).rest).rest).rest hf.2 cleanOf hs.2 .nil
    rw [List.append_nil] at behind
    rw [grow]
    have opens := (opens_grow seen stop inner hf.1 (takeWhile_dropWhile (Sprout.outer k ts).rest)).andThen
      (opens_growOf seen stop row hf.2 (takeWhile_dropWhile _))
    exact tidy_under opens
      (fun _ => List.append_ne_nil_of_left_ne_nil (grow_ne_nil_of_isNode node stop _) _)
      (tidy_grow seen stop inner _ hf.1 clean hs.1 behind) later

theorem tidy_growOf (seen : ∀ i, (input.kind i).isTrivia = false) (stop : Nat) :
    ∀ (row : List Outline) (ts : List Token) {i : Nat}, FitsOf input row i → CleanOf row → StockedOf row →
      ∀ {gs : List Green}, Tidy gs → Tidy ((growOf stop row ts).greens ++ gs)
  | [], _, _, _, _, _, _, later => later
  | o :: older, ts, i, hf, hc, hs, gs, later => by
    rw [growOf, Sprout.andThen, List.append_assoc]
    exact tidy_growOf seen stop older ts hf.1 hc.2 hs.1 (tidy_grow seen stop o _ hf.2 hc.1 hs.2 later)
end

end Outline

/-! ## Nodes of a tree -/

namespace Position

/-- The trivia between an element and what is in front of it in the same node, in the order of the text. -/
def triviaAbove (q : Position) : List Green :=
  ((q.preceding.map element).takeWhile Green.isTrivia).reverse

/-- The trivia that a node starts with. -/
def triviaWithin (q : Position) : List Green := q.element.children.takeWhile Green.isTrivia

/-- Trivia neither end a node nor start it, but for the comments that it takes along. -/
structure Enclosed (q : Position) : Prop where
  last : ∀ c, q.lastChildOrToken? = some c → c.element.isTrivia = false
  first : ∀ c, q.firstChildOrToken? = some c → c.element.isTrivia = true →
    q.kind.attachesComments = true ∧ c.kind = .comment ∧ c.element.isInnerDoc = false

/-- How a node `q` stands among the children of `p`: behind the elements `ahead` and the trivia `run`, with
the trivia `own` first inside of it. -/
structure Sits (q p : Position) (ahead run own rest : List Green) : Prop where
  front : p.element.children.take q.index = ahead ++ run
  trivia : ∀ g ∈ run, g.isTrivia = true
  last : p.kind.attachesComments = false → ∀ g ∈ ahead.getLast?, g.isTrivia = false
  children : q.element.children = own ++ rest
  placed : Placed q.kind run own rest

variable {gs back : List Green}

theorem Within.sits (tidy : Tidy gs) (trivia : ∀ g ∈ back, g.isTrivia = true) {q p : Position}
    (within : Within (.branch .sourceFile (gs ++ back)) q) (node : q.isNode = true) (parent : q.parent? = some p) :
    ∃ ahead run own rest, q.Sits p ahead run own rest := by
  induction q generalizing p with
  | root tree => cases parent
  | child p' i e known ih =>
    obtain rfl : p' = p := by simpa [parent?] using parent
    have at_i := within.valid.2.1
    cases e with
    | token k t => simp [isNode, element, Green.isNode, Green.isToken] at node
    | node k n cs =>
      cases p' with
      | root tree =>
        obtain rfl : tree = .branch .sourceFile (gs ++ back) := Position.root.inj within.top
        obtain ⟨ahead, run, own, rest, split, inner, last, rfl, placed⟩ :=
          tidy.placed_between (List.forall_mem_nil _) trivia at_i
        exact ⟨ahead, run, own, rest, split, inner, fun _ => last, rfl, placed⟩
      | child p'' j e known' =>
        have above : (child p'' j e known').isNode = true := by
          cases e with
          | token k t => simp [element, Green.children] at at_i
          | node k n cs => rfl
        obtain ⟨_, _, front, gs', -, -, -, children, around⟩ := ih within.parent above rfl
        rw [children, ← List.append_nil gs'] at at_i
        obtain ⟨ahead, run, own, rest, split, inner, last, rfl, placed⟩ :=
          around.below.placed_between around.inside (by simp) at_i
        refine ⟨front ++ ahead, run, own, rest, ?_, inner, fun plain => ?_, rfl, placed⟩
        · rw [children, ← List.append_nil gs']
          exact split
        · -- a parent that takes nothing along starts with something else than trivia
          have nothing : front = [] := by_contra fun taken =>
            absurd (around.shared.attaches taken) (by rw [plain]; decide)
          rwa [nothing]

section Sits

variable {q p : Position} {ahead run own rest : List Green} (h : q.Sits p ahead run own rest)

include h

theorem Sits.triviaWithin_eq : q.triviaWithin = own := by
  rw [triviaWithin, h.children]
  exact takeWhile_behind h.placed.inside h.placed.opens

theorem Sits.triviaAbove_eq (parent : q.parent? = some p) (plain : p.kind.attachesComments = false) :
    q.triviaAbove = run := by
  have above : q.preceding.map element = run.reverse ++ ahead.reverse := by
    rw [← List.reverse_append, ← h.front]
    cases q with
    | root tree => cases parent
    | child p' i e known =>
      obtain rfl : p' = p := by simpa [parent?] using parent
      exact elements_childrenBefore p' i
  have last := h.last plain
  rw [← List.head?_reverse] at last
  rw [triviaAbove, above, takeWhile_behind (fun g hg => h.trivia g (List.mem_reverse.mp hg)) last,
    List.reverse_reverse]

theorem Sits.enclosed : q.Enclosed := by
  refine ⟨fun c hc => ?_, fun c hc trivia => ?_⟩
  · have ends : (own ++ rest).getLast? = some c.element := by
      rw [← h.children, ← List.head?_reverse, ← List.take_length (l := q.element.children),
        ← elements_childrenBefore, List.head?_map]
      exact congrArg _ hc
    cases hr : rest with
    | nil =>
      have nothing : own = [] := by_contra fun taken => h.placed.holds taken hr
      simp [hr, nothing] at ends
    | cons g gs =>
      rw [List.getLast?_append, hr, List.getLast?_cons] at ends
      exact h.placed.below.last _ (by simpa [hr, List.getLast?_cons] using ends)
  · have starts : (own ++ rest).head? = some c.element := by
      rw [← h.children, ← elements_children, List.head?_map]
      exact congrArg _ hc
    cases ho : own with
    | nil =>
      rw [ho, List.nil_append] at starts
      simp [h.placed.opens _ starts] at trivia
    | cons g gs =>
      rw [ho] at starts
      obtain rfl : g = c.element := by simpa using starts
      have first : c.element ∈ own := by simp [ho]
      exact ⟨h.placed.shared.attaches (List.ne_nil_of_mem first), h.placed.shared.starts _ (by simp [ho]),
        isInnerDoc_of_not_separates (h.placed.shared.near _ first)⟩

end Sits

end Position

namespace Parse

open Verbatim.Parser Outline Position

/-- The children of the root are tidy, up to the trivia at the end of the text. -/
theorem tidy_ofText (t : Text) : ∃ p gs back, ofText t = .ok p ∧ p.tree = .branch .sourceFile (gs ++ back) ∧
    Tidy gs ∧ ∀ g ∈ back, g.isTrivia = true := by
  obtain ⟨row, outlined, made, fits, -, run⟩ := ofText_eq t
  have stocked := stocked_outline (fun i => (Input.kind_ofTokens_list t i).1)
    (runs_sourceFile (.ofTokens (Token.list t))).1.safe
  rw [outlined] at stocked
  have tidy := tidy_growOf (seen_of_list t) (Replay.textEnd (Token.list t)) row (Token.list t) fits made.2
    stocked.2.2 .nil
  rw [List.append_nil] at tidy
  exact ⟨_, _, _, ofText_of_byProgram run, rfl, tidy, Sprout.isTrivia_trivia _⟩

/-- Trivia stand where they should in every text: no node but the root ends in trivia, and only a node that
takes along comments starts with one, which is no documentation of what is around it. -/
theorem ofText_enclosed (t : Text) : ∃ p, ofText t = .ok p ∧ ∀ q, Within p.tree q → q.isNode = true →
    q.parent? ≠ none → q.Enclosed := by
  obtain ⟨p, gs, back, parsed, tree, tidy, trivia⟩ := tidy_ofText t
  refine ⟨p, parsed, fun q within node below => ?_⟩
  obtain ⟨parent, hp⟩ := Option.ne_none_iff_exists'.mp below
  obtain ⟨ahead, run, own, rest, sits⟩ := (tree ▸ within).sits tidy trivia node hp
  exact sits.enclosed

/-- A comment in front of a node that takes comments along lies inside of it if neither it nor what stands
between them is a blank line or documents what is around it. -/
theorem ofText_attached (t : Text) : ∃ p, ofText t = .ok p ∧ ∀ q, Within p.tree q → q.isNode = true →
    q.kind.attachesComments = true → ∀ parent, q.parent? = some parent → parent.kind.attachesComments = false →
    ∀ xs c ys, q.triviaAbove ++ q.triviaWithin = xs ++ c :: ys → c.kind = .comment →
      (q.triviaAbove.length ≤ xs.length ↔ ∀ g ∈ c :: ys, g.separates = false) := by
  obtain ⟨p, gs, back, parsed, tree, tidy, trivia⟩ := tidy_ofText t
  refine ⟨p, parsed, fun q within node attaches parent hp plain xs c ys split comment => ?_⟩
  obtain ⟨ahead, run, own, rest, sits⟩ := (tree ▸ within).sits tidy trivia node hp
  rw [sits.triviaAbove_eq hp plain, sits.triviaWithin_eq] at split
  rw [sits.triviaAbove_eq hp plain]
  have shared := sits.placed.shared
  rcases List.append_eq_append_iff.mp split with ⟨more, rfl, inside⟩ | ⟨more, front, behind⟩
  · -- the comment is among what the node takes along
    refine iff_of_true (by simp) fun g hg => shared.near g ?_
    exact inside ▸ List.mem_append_right more hg
  · cases more with
    | nil =>
      rw [List.append_nil] at front
      refine iff_of_true (front ▸ Nat.le_refl _) fun g hg => shared.near g ?_
      exact (List.nil_append own) ▸ behind ▸ hg
    | cons c' more =>
      -- it stays in front, so something separates it from the node
      obtain ⟨rfl, rfl⟩ := List.cons.inj behind
      obtain ⟨g, hg, separates⟩ := shared.apart attaches xs c more front comment
      refine iff_of_false (by simp [front]) fun near => ?_
      exact absurd (near g hg) (by simp [separates])

end Parse

end Verbatim
