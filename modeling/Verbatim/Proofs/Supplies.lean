import Mathlib.Tactic.Common
import Verbatim.Proofs.Filling

/-!
# What a program supplies

Most nodes only need that some children are there, wherever they stand. For the programs that write them it is
enough to know which needs they supply, and what they yield, where they report nothing; this adds up from step
to step.
-/
namespace Verbatim.Parser

open Skeleton

variable {input : Input} {α β σ : Type}

/-- The program only adds to a row, and what it adds is in `N`. -/
def Leaves (input : Input) (p : Parser α) (N : α → List Mark → Prop) : Prop :=
  ∀ i row, p.Fills input i row fun a _ row' => ∃ new, row' = new ++ row ∧ N a new

/-- Some marks meet some needs. -/
def Meets (new : List Mark) (ns : List Need) : Prop := ∀ n ∈ ns, new.any n.isMetBy = true

/-- The program yields a result in `R`, and what it adds to a row meets the needs `ns`. -/
def Supplies (input : Input) (p : Parser α) (R : α → Prop) (ns : List Need) : Prop :=
  Leaves input p fun a new => R a ∧ Meets new ns

/-- The program only adds to a row. -/
abbrev Grows (input : Input) (p : Parser α) : Prop := Supplies input p (fun _ => True) []

/-- The program always reports something. -/
def Reports (input : Input) (p : Parser α) : Prop := ∀ i row Q, p.Fills input i row Q

/-- The program only reads. -/
def Looks (input : Input) (p : Parser α) : Prop := Leaves input p fun _ new => new = []

/-! ## Marks and needs -/

theorem meets_nil (new : List Mark) : Meets new [] := nofun

theorem meets_append {new old : List Mark} {ns ms : List Need} (hn : Meets new ns) (ho : Meets old ms) :
    Meets (new ++ old) (ms ++ ns) := by
  intro n hm
  rw [List.any_append, Bool.or_eq_true]
  rcases List.mem_append.mp hm with hm | hm
  · exact .inr (ho n hm)
  · exact .inl (hn n hm)

theorem Meets.subset {new : List Mark} {ns ms : List Need} (h : Meets new ns) (sub : ms ⊆ ns) :
    Meets new ms :=
  fun n hn => h n (sub hn)

theorem Meets.behind {new old : List Mark} {ns : List Need} (h : Meets new ns) :
    Meets (new ++ old) ns := fun n hn => by
  rw [List.any_append, h n hn, Bool.true_or]

theorem Meets.ahead {new old : List Mark} {ns : List Need} (h : Meets old ns) : Meets (new ++ old) ns := fun n hn => by
  rw [List.any_append, h n hn, Bool.or_true]

theorem Meets.token {row : List Mark} {k : Kind} {ns : List Need} (here : .token k ∈ row) (h : Meets row ns) :
    Meets row (.token k :: ns) := by
  refine List.forall_mem_cons.mpr ⟨?_, h⟩
  exact List.any_eq_true.mpr ⟨_, here, beq_self_eq_true k⟩

theorem Meets.node {row : List Mark} {k : Kind} {ks : List Kind} {ns : List Need} (here : .node k ∈ row)
    (hk : k ∈ ks) (h : Meets row ns) : Meets row (.node ks :: ns) := by
  refine List.forall_mem_cons.mpr ⟨?_, h⟩
  exact List.any_eq_true.mpr ⟨_, here, List.contains_iff_mem.mpr hk⟩

theorem meets_token (k : Kind) : Meets [.token k] [.token k] := .token (List.mem_singleton_self _) (meets_nil _)

theorem meets_node {k : Kind} {ks : List Kind} (h : k ∈ ks) : Meets [.node k] [.node ks] :=
  .node (List.mem_singleton_self _) h (meets_nil _)

theorem Meets.placed {new : List Mark} {ns : List Need} {k : Kind} (h : Meets new ns) (sub : k.needs ⊆ ns)
    (places : k.Places new) : k.Whole new :=
  ⟨List.all_eq_true.mpr (h.subset sub), places⟩

theorem Meets.whole {new : List Mark} {ns : List Need} {k : Kind} (h : Meets new ns) (sub : k.needs ⊆ ns)
    (free : ∀ row, k.Places row) : k.Whole new := h.placed sub (free new)

/-! ## Putting programs together -/

theorem Leaves.fills {p : Parser α} {N : α → List Mark → Prop} (h : Leaves input p N) {i : Nat}
    {row : List Mark} {Q : α → Nat → List Mark → Prop} (hQ : ∀ a j new, N a new → Q a j (new ++ row)) :
    p.Fills input i row Q :=
  (h i row).imp fun a j _ ⟨new, eq, hn⟩ => eq ▸ hQ a j new hn

theorem Leaves.imp {p : Parser α} {N N' : α → List Mark → Prop} (h : Leaves input p N)
    (hN : ∀ a new, N a new → N' a new) : Leaves input p N' :=
  fun i row => (h i row).imp fun a _ _ ⟨new, eq, hn⟩ => ⟨new, eq, hN a new hn⟩

theorem Leaves.pure {a : α} {N : α → List Mark → Prop} (h : N a []) : Leaves input (Pure.pure a) N :=
  fun _ _ => ⟨[], rfl, h⟩

theorem Leaves.bind {p : Parser α} {next : α → Parser β} {M : α → List Mark → Prop}
    {N : β → List Mark → Prop} (hp : Leaves input p M)
    (hn : ∀ a old, M a old → Leaves input (next a) fun b new => N b (new ++ old)) :
    Leaves input (p >>= next) N := fun i row =>
  (hp i row).imp fun a j _ ⟨old, eq, hm⟩ => (hn a old hm j _).imp fun b _ _ ⟨new, eq', h⟩ =>
    ⟨new ++ old, by rw [eq', eq, List.append_assoc], h⟩

theorem Leaves.ite {b : Prop} [Decidable b] {p q : Parser α} {N : α → List Mark → Prop}
    (hp : b → Leaves input p N) (hq : ¬ b → Leaves input q N) : Leaves input (if b then p else q) N := by
  split
  · next h => exact hp h
  · next h => exact hq h

theorem Reports.leaves {p : Parser α} (h : Reports input p) {N : α → List Mark → Prop} : Leaves input p N :=
  fun _ _ => h _ _ _

theorem Reports.bind {p : Parser α} (h : Reports input p) (next : α → Parser β) :
    Reports input (p >>= next) := fun _ _ _ => h _ _ _

theorem Reports.ite {b : Prop} [Decidable b] {p q : Parser α} (hp : Reports input p) (hq : Reports input q) :
    Reports input (if b then p else q) := by
  split
  · exact hp
  · exact hq

theorem Looks.leaves {p : Parser α} {next : α → Parser β} {N : β → List Mark → Prop} (hp : Looks input p)
    (hn : ∀ a, Leaves input (next a) N) : Leaves input (p >>= next) N :=
  Leaves.bind hp fun a old eq => (hn a).imp fun b new h => by rwa [eq, List.append_nil]

theorem Looks.reports {p : Parser α} {next : α → Parser β} (hp : Looks input p)
    (hn : ∀ a, Reports input (next a)) : Reports input (p >>= next) := fun _ _ Q =>
  hp.fills (Q := fun b j row => (next b).Fills input j row Q) fun a _ _ _ => hn a _ _ Q

theorem Looks.bind {p : Parser α} {next : α → Parser β} (hp : Looks input p) (hn : ∀ a, Looks input (next a)) :
    Looks input (p >>= next) := hp.leaves hn

theorem Looks.ite {b : Prop} [Decidable b] {p q : Parser α} (hp : Looks input p) (hq : Looks input q) :
    Looks input (if b then p else q) := Leaves.ite (fun _ => hp) fun _ => hq

theorem looks_pure (a : α) : Looks input (Pure.pure a) := .pure rfl

theorem looks_nth (n : Fin 4) : Looks input (nth n) := fun _ _ => ⟨[], rfl, rfl⟩

theorem looks_current : Looks input current := looks_nth 0

theorem looks_isAhead (n : Nat) (k : Kind) : Looks input (isAhead n k) := fun _ _ => ⟨[], rfl, rfl⟩

theorem looks_isAt (k : Kind) : Looks input (isAt k) := looks_isAhead 0 k

theorem looks_isNth (n : Fin 4) (k : Kind) : Looks input (isNth n k) := (looks_nth n).bind fun _ => looks_pure _

theorem looks_isAtAny (ks : KindSet) : Looks input (isAtAny ks) := looks_current.bind fun _ => looks_pure _

theorem Looks.both {p q : Parser Bool} (hp : Looks input p) (hq : Looks input q) : Looks input (both p q) :=
  hp.bind fun _ => .ite hq (looks_pure _)

theorem looks_isAtBraceOrEnd : Looks input isAtBraceOrEnd :=
  looks_current.bind fun k => by split <;> exact looks_pure _

namespace Supplies

variable {R : α → Prop} {S : β → Prop} {ns ms : List Need}

theorem imp {p : Parser α} {R' : α → Prop} (h : Supplies input p R ns) (hR : ∀ a, R a → R' a) :
    Supplies input p R' ns :=
  Leaves.imp h fun a _ ⟨hr, hn⟩ => ⟨hR a hr, hn⟩

theorem grows {p : Parser α} (h : Supplies input p R ns) : Grows input p :=
  Leaves.imp h fun _ _ _ => ⟨trivial, meets_nil _⟩

theorem pure {a : α} (h : R a) : Supplies input (Pure.pure a) R [] := Leaves.pure ⟨h, meets_nil _⟩

theorem bind {p : Parser α} {next : α → Parser β} (hp : Supplies input p R ns)
    (hn : ∀ a, R a → Supplies input (next a) S ms) : Supplies input (p >>= next) S (ns ++ ms) :=
  Leaves.bind hp fun a _ ⟨hr, hm⟩ => Leaves.imp (hn a hr) fun _ _ ⟨hs, hn⟩ => ⟨hs, meets_append hn hm⟩

/-- A step of which only the row matters. -/
theorem andThen {p : Parser α} {next : α → Parser β} (hp : Supplies input p R ns)
    (hn : ∀ a, Supplies input (next a) S ms) : Supplies input (p >>= next) S (ns ++ ms) :=
  hp.bind fun a _ => hn a

theorem discard {p : Parser α} (h : Supplies input p R ns) :
    Supplies input (Functor.discard p) (fun _ => True) ns :=
  fun i row => (h i row).imp fun _ _ _ ⟨new, eq, _, hn⟩ => ⟨new, eq, trivial, hn⟩

theorem map {p : Parser α} {f : α → β} (h : Supplies input p (fun a => S (f a)) ns) :
    Supplies input (f <$> p) S ns := h

theorem ite {b : Prop} [Decidable b] {p q : Parser α} (hp : Supplies input p R ns)
    (hq : Supplies input q R ns) : Supplies input (if b then p else q) R ns :=
  Leaves.ite (fun _ => hp) fun _ => hq

theorem when {test : Parser Bool} {body : Parser Unit} (ht : Grows input test) (hb : Grows input body) :
    Grows input (Parser.when test body) := ht.bind fun _ _ => .ite hb (.pure trivial)

theorem whenNot {test : Parser Bool} {body : Parser Unit} (ht : Grows input test) (hb : Grows input body) :
    Grows input (Parser.whenNot test body) := ht.bind fun _ _ => .ite hb (.pure trivial)

end Supplies

theorem grows_pure (a : α) : Grows input (Pure.pure a) := .pure trivial

theorem Reports.supplies {p : Parser α} (h : Reports input p) {R : α → Prop} {ns : List Need} :
    Supplies input p R ns := h.leaves

theorem Looks.grows {p : Parser α} (h : Looks input p) : Grows input p :=
  Leaves.imp h fun _ _ _ => ⟨trivial, meets_nil _⟩

theorem Looks.supplies {p : Parser α} {next : α → Parser β} {R : β → Prop} {ns : List Need}
    (hp : Looks input p) (hn : ∀ a, Supplies input (next a) R ns) : Supplies input (p >>= next) R ns :=
  hp.leaves hn

/-! ## Steps -/

theorem reports_error (cause : Cause) : Reports input (error cause) := fun _ _ _ => trivial

theorem reports_expected (what : Expectation) : Reports input (expected what) := reports_error _

theorem Reports.node {body : Parser Unit} (h : Reports input body) (k : Kind) : Reports input (node k body) :=
  fun _ _ _ => h _ _ _

/-- What cannot be parsed is reported. -/
theorem reports_recover (cause : Cause) (recovery : KindSet) : Reports input (recover cause recovery) :=
  looks_isAtBraceOrEnd.reports fun _ => (looks_isAtAny recovery).reports fun _ =>
    .ite (reports_error cause) (((reports_error cause).bind _).node .error)

theorem reports_skipOne (cause : Cause) : Reports input (skipOne cause) := reports_recover cause .empty

theorem reports_tooDeep : Reports input tooDeep := ((reports_error .tooDeep).bind _).node .error

theorem leaves_eat (k : Kind) :
    Leaves input (eat k) fun b new => new = if b = true then [.token k] else [] :=
  fun _ _ => ⟨fun _ => ⟨[.token k], rfl, rfl⟩, fun _ => ⟨[], rfl, rfl⟩⟩

theorem grows_eat (k : Kind) : Grows input (eat k) :=
  (leaves_eat k).imp fun _ _ _ => ⟨trivial, meets_nil _⟩

theorem grows_bumpAny : Grows input bumpAny :=
  fun _ _ => ⟨fun _ => ⟨[_], rfl, trivial, meets_nil _⟩, fun _ => ⟨[], rfl, trivial, meets_nil _⟩⟩

theorem leaves_bump (k : Kind) : Leaves input (bump k) fun _ new => new = [.token k] :=
  fun _ _ => ⟨fun _ => ⟨[.token k], rfl, rfl⟩, fun _ => trivial⟩

theorem leaves_expect (k : Kind) : Leaves input (expect k) fun b new => b = true ∧ new = [.token k] :=
  fun _ _ => ⟨fun _ => ⟨[.token k], rfl, rfl, rfl⟩, fun _ => trivial⟩

theorem supplies_bump (k : Kind) : Supplies input (bump k) (fun _ => True) [.token k] :=
  (leaves_bump k).imp fun _ _ h => ⟨trivial, h ▸ meets_token k⟩

theorem supplies_expect (k : Kind) : Supplies input (expect k) (· = true) [.token k] :=
  (leaves_expect k).imp fun _ _ h => ⟨h.1, h.2 ▸ meets_token k⟩

/-- A token that has to be there, and what stands behind it. -/
theorem Supplies.whenExpect {k : Kind} {body : Parser Unit} {ns : List Need}
    (h : Supplies input body (fun _ => True) ns) :
    Supplies input (Parser.when (expect k) body) (fun _ => True) (.token k :: ns) :=
  (supplies_expect k).bind fun b hb => by
    rw [if_pos hb]
    exact h

/-! ## Nodes -/

/-- A node that only needs some children wherever they stand. -/
theorem Supplies.node {k : Kind} {body : Parser Unit} {R : Unit → Prop} {ns : List Need}
    (h : Supplies input body R ns) (sub : k.needs ⊆ ns) (free : ∀ row, k.Places row) :
    Leaves input (Parser.node k body) fun _ new => new = [.node k] := fun i _ =>
  (h i []).imp fun _ _ _ ⟨new, eq, _, hn⟩ =>
    ⟨(eq.trans (List.append_nil new) ▸ hn.whole sub free), [.node k], rfl, rfl⟩

/-- What is written as a node of one kind. -/
theorem Leaves.node {p : Parser α} {k : Kind} (h : Leaves input p fun _ new => new = [.node k]) :
    Supplies input p (fun _ => True) [.node [k]] :=
  h.imp fun _ _ eq => ⟨trivial, eq ▸ meets_node (List.mem_singleton_self k)⟩

/-- A node of which only matters that it is whole. -/
theorem Supplies.grown {k : Kind} {body : Parser Unit} {R : Unit → Prop} {ns : List Need}
    (h : Supplies input body R ns) (sub : k.needs ⊆ ns) (free : ∀ row, k.Places row) :
    Grows input (Parser.node k body) := (h.node sub free).node.grows

/-- A node that is an element of a list. -/
theorem Supplies.found {k : Kind} {body : Parser Unit} {R : Unit → Prop} {ns : List Need}
    (h : Supplies input body R ns) (sub : k.needs ⊆ ns) (free : ∀ row, k.Places row) :
    Grows input (do
      Parser.node k body
      return true) := (h.grown sub free).andThen fun _ => grows_pure _

theorem supplies_list (f : Fragment) : Supplies input (list f) (fun _ => True) [.node [f.kind]] :=
  Leaves.node (k := f.kind) fun _ _ _ => ⟨[_], rfl, rfl⟩

theorem supplies_type (bounds : Bool) : Supplies input (call (.type bounds)) (fun _ => True) [.type] :=
  fun _ _ => ⟨trivial, fun _ _ new ⟨_, hk, eq⟩ => ⟨new, rfl, trivial, eq ▸ meets_node hk⟩⟩

theorem leaves_pattern : Leaves input (call .pattern) fun _ new => ∃ k ∈ Kind.patterns, new = [.node k] :=
  fun _ _ => ⟨trivial, fun _ _ new h => ⟨new, rfl, h⟩⟩

theorem leaves_expression (r : Restrictions) {power : Nat} (h : 0 < power) :
    Leaves input (call (.expression r power)) fun _ new => ∃ k ∈ Kind.expressions, new = [.node k] :=
  fun _ _ => ⟨h, fun _ _ new h => ⟨new, rfl, h.2⟩⟩

theorem supplies_pattern : Supplies input (call .pattern) (fun _ => True) [.pattern] :=
  fun _ _ => ⟨trivial, fun _ _ new ⟨_, hk, eq⟩ => ⟨new, rfl, trivial, eq ▸ meets_node hk⟩⟩

theorem supplies_expression (r : Restrictions) {power : Nat} (h : 0 < power) :
    Supplies input (call (.expression r power)) (fun found => found.isSome = true) [.expression] :=
  fun _ _ => ⟨h, fun _ _ new ⟨found, _, hk, eq⟩ => ⟨new, rfl, found, eq ▸ meets_node hk⟩⟩

theorem grows_call (r : Rule) (h : r.Admits) : Grows input (call r) :=
  fun _ _ => ⟨h, fun _ _ new _ => ⟨new, rfl, trivial, meets_nil _⟩⟩

theorem Leaves.nodeOf {body : Parser Kind} {N : Kind → List Mark → Prop}
    (h : Leaves input body fun k new => k.Whole new ∧ N k [.node k]) : Leaves input (Parser.nodeOf body) N :=
  fun i _ => (h i []).imp fun k _ _ ⟨new, eq, whole, hn⟩ =>
    ⟨eq.trans (List.append_nil new) ▸ whole, [.node k], rfl, hn⟩

theorem Leaves.nodeIf {body : Parser (Option Kind)} {N : Option Kind → List Mark → Prop}
    (some : Leaves input body fun a new => (∀ k, a = some k → k.Whole new ∧ N a [.node k]) ∧
      (a = none → N a new)) : Leaves input (Parser.nodeIf body) N := fun i row =>
  (some i []).imp fun a _ inner ⟨new, eq, found, absent⟩ => by
    obtain rfl : inner = new := eq.trans (List.append_nil new)
    cases a with
    | some k => exact ⟨(found k rfl).1, [.node k], rfl, (found k rfl).2⟩
    | none => exact ⟨inner, rfl, absent rfl⟩

/-- A program for the inside of a node that yields the kind of the node. -/
def Forms (input : Input) (p : Parser α) (kind : α → Option Kind) : Prop :=
  Leaves input p fun a new => ∀ k, kind a = some k → ∀ old, .token .forKw ∉ old → k.Whole (new ++ old)

theorem Supplies.forms {p : Parser α} {kind : α → Option Kind} {k : Kind} {ns : List Need}
    (h : Supplies input p (fun a => kind a = some k) ns) (sub : k.needs ⊆ ns) (free : ∀ row, k.Places row) :
    Forms input p kind :=
  Leaves.imp h fun a new ⟨ha, hn⟩ l hl old _ => by
    obtain rfl : k = l := Option.some.inj (ha.symm.trans hl)
    exact hn.behind.whole sub free

theorem forms_none {kind : α → Option Kind} {a : α} (h : kind a = none) :
    Forms input (Pure.pure a) kind :=
  Leaves.pure fun k hk => by simp [h] at hk

theorem Forms.nodeIf {body : Parser (Option Kind)} (h : Forms input body id) :
    Leaves input (Parser.nodeIf body) fun a new => ∀ k, a = some k → new = [.node k] := by
  refine .nodeIf (h.imp fun a new whole => ⟨fun k hk => ⟨?_, fun l hl => ?_⟩, fun none k hk => ?_⟩)
  · simpa using whole k hk [] nofun
  · rw [Option.some.inj (hk.symm.trans hl)]
  · simp [none] at hk

/-! ## Loops and levels -/

theorem Leaves.loop {a : σ} {body : σ → Parser (ForInStep σ)} {I N : σ → List Mark → Prop} (start : I a [])
    (h : ∀ a old, I a old → Leaves input (body a) fun r new =>
      match r with
      | .done b => N b (new ++ old)
      | .yield b => I b (new ++ old)) : Leaves input (Parser.loop a body) N := by
  intro i row
  refine ⟨fun b _ row' => ∃ new, row' = new ++ row ∧ I b new, ⟨[], rfl, start⟩, fun b j row' ⟨old, eq, hb⟩ => ?_⟩
  refine (h b old hb j row').imp fun r _ row'' ⟨new, eq', hr⟩ => ?_
  have grown : row'' = (new ++ old) ++ row := by rw [eq', eq, List.append_assoc]
  cases r with
  | done b => exact ⟨_, grown, hr⟩
  | yield b => exact ⟨_, grown, hr⟩

theorem Supplies.loop {R : σ → Prop} {a : σ} {body : σ → Parser (ForInStep σ)}
    (h : ∀ a, Supplies input (body a) (Ends R) []) : Supplies input (Parser.loop a body) R [] :=
  Leaves.loop (I := fun _ _ => True) trivial fun a _ _ => Leaves.imp (h a) fun r _ ⟨hr, _⟩ => by
    cases r with
    | done b => exact ⟨hr, meets_nil _⟩
    | yield b => trivial

theorem Supplies.growing {a : σ} {body : σ → Parser (ForInStep σ)} (h : ∀ a, Grows input (body a)) :
    Grows input (Parser.loop a body) :=
  .loop fun a => (h a).imp fun r _ => ends_true r

theorem Supplies.while {body : Parser Bool} (h : Grows input body) : Grows input (while_ body) :=
  .growing fun _ => h.andThen fun _ => .pure trivial

theorem Supplies.watch {p : Parser α} (h : Grows input p) : Grows input (Parser.watch p) :=
  fun i row => (h i row).imp fun _ _ _ ⟨new, eq, _, _⟩ => ⟨new, eq, trivial, meets_nil _⟩

/-- Where a rule comes at the limit that is reported. -/
theorem Leaves.nested {p : Parser α} {N : α → List Mark → Prop} (h : Leaves input p N) :
    Leaves input (Parser.nested p) fun a new => ∃ b, a = some b ∧ N b new := fun i row =>
  ⟨(h i row).imp fun b _ _ ⟨new, eq, hn⟩ => ⟨new, eq, b, rfl, hn⟩, reports_tooDeep.bind _ _ _ _⟩

/-- A list is written with its delimiters. -/
theorem Supplies.delimited {bra ket delim : Kind} {what : Expectation} {first recovery : KindSet}
    {element : Bool → Parser Bool} (h : ∀ isFirst, Grows input (element isFirst)) :
    Supplies input (Parser.delimited bra ket delim what first recovery element) (fun _ => True)
      [.token bra, .token ket] := by
  refine (supplies_bump bra).andThen fun _ => (Supplies.growing fun isFirst => ?_).discard.andThen fun _ =>
    (supplies_expect ket).discard
  refine (looks_isAt _).supplies fun _ => (looks_isAt _).supplies fun _ => .ite (.pure trivial) ?_
  refine (looks_isAt _).supplies fun _ => .ite
    (((reports_expected what).bind _).node .error |>.bind _).supplies ?_
  refine (h isFirst).watch.andThen fun _ => .ite ?_ ?_
  · exact (looks_isAtAny _).supplies fun _ => looks_isAtBraceOrEnd.supplies fun _ => .ite (.pure trivial)
      ((reports_skipOne _).bind _).supplies
  · refine (grows_eat delim).andThen fun _ => .ite (.pure trivial) ((looks_isAtAny _).supplies fun _ => .ite ?_
      (.pure trivial))
    exact ((supplies_expect delim).discard.andThen fun _ => grows_pure _).grows

/-- Elements in parentheses that are counted: where one was counted, one is there. -/
theorem leaves_parenthesized {round : Nat × Bool → Parser (ForInStep (Nat × Bool))} {n : Need} {one many : Kind}
    (h : ∀ state, Leaves input (round state) fun r new =>
      match r with
      | .done next => next = state ∨ Meets new [n]
      | .yield _ => Meets new [n])
    (single : one.needs ⊆ [.token .leftParen, n, .token .rightParen]) (free : ∀ row, one.Places row)
    (several : many.needs ⊆ [.token .leftParen, .token .rightParen]) (free' : ∀ row, many.Places row) :
    Leaves input (Parser.nodeOf do
      bump .leftParen
      let (count, comma) ← Parser.loop (0, false) round
      Functor.discard <| expect .rightParen
      return if count == 1 && !comma then one else many) fun k new => (k = one ∨ k = many) ∧ new = [.node k] := by
  refine .nodeOf (.bind (supplies_bump .leftParen) fun _ bra ⟨_, hbra⟩ => ?_)
  refine .bind (M := fun (state : Nat × Bool) new => 0 < state.1 → Meets new [n])
    (.loop (I := fun state new => 0 < state.1 → Meets new [n]) nofun fun state old hold => ?_)
    fun (count, comma) elements counted => ?_
  · refine (h state).imp fun r new hr => ?_
    cases r with
    | done next =>
      rcases hr with rfl | met
      · exact fun some => (hold some).ahead
      · exact fun _ => met.behind
    | yield next => exact fun _ => Meets.behind hr
  · refine .bind (supplies_expect .rightParen).discard fun _ ket ⟨_, hket⟩ => .pure ?_
    split
    · next found =>
      have met := counted (by simp at found; omega)
      exact ⟨(meets_append (meets_append hket met) hbra).whole single free, .inl rfl, rfl⟩
    · exact ⟨(meets_append (meets_append hket (meets_nil elements)) hbra).whole several free', .inr rfl, rfl⟩

/-! ## Going on from a node -/

/-- The program goes on from a node of a kind in `K` and leaves one of a kind in `N` in its place. -/
def Turns (input : Input) (p : Parser α) (K : Kind → Prop) (N : α → Kind → Prop) : Prop :=
  ∀ i k row, K k → p.Fills input i (.node k :: row) fun a _ row' => ∃ l, row' = .node l :: row ∧ N a l

namespace Turns

variable {K : Kind → Prop} {N : α → Kind → Prop} {N' : β → Kind → Prop}

theorem imp {p : Parser α} {M : α → Kind → Prop} (h : Turns input p K N) (hN : ∀ a l, N a l → M a l) :
    Turns input p K M :=
  fun i k row hk => (h i k row hk).imp fun a _ _ ⟨l, eq, hl⟩ => ⟨l, eq, hN a l hl⟩

theorem pure {a : α} (h : ∀ k, K k → N a k) : Turns input (Pure.pure a) K N :=
  fun _ k _ hk => ⟨k, rfl, h k hk⟩

theorem bind {p : Parser α} {next : α → Parser β} (hp : Turns input p K N)
    (hn : ∀ a, Turns input (next a) (N a) N') : Turns input (p >>= next) K N' :=
  fun i k row hk => (hp i k row hk).imp fun a j _ ⟨l, eq, hl⟩ => eq ▸ hn a j l row hl

theorem ite {b : Prop} [Decidable b] {p q : Parser α} (hp : b → Turns input p K N)
    (hq : ¬ b → Turns input q K N) : Turns input (if b then p else q) K N := by
  split
  · next h => exact hp h
  · next h => exact hq h

theorem discard {p : Parser α} {N' : Unit → Kind → Prop} (h : Turns input p K fun _ => N' ()) :
    Turns input (Functor.discard p) K N' := h

/-- A node around the one in front. -/
theorem wrap {body : Parser Kind} {N : Kind → Kind → Prop}
    (h : ∀ x, K x → Leaves input body fun k new => k.Whole (new ++ [.node x]) ∧ N k k) :
    Turns input (Parser.wrap body) K N := by
  rintro i x row hx _ _ ⟨⟩
  exact (h x hx i []).imp fun k j inner ⟨new, eq, whole, hk⟩ =>
    ⟨eq.trans (List.append_nil new) ▸ whole, k, rfl, hk⟩

/-- The same where it does not matter how the children stand. -/
theorem supplied {body : Parser Kind} {k : Kind} {ns ms : List Need}
    (h : Supplies input body (· = k) ns) (front : ∀ x, K x → Meets [.node x] ms)
    (sub : k.needs ⊆ ms ++ ns) (free : ∀ row, k.Places row) :
    Turns input (Parser.wrap body) K fun _ l => l = k :=
  .wrap fun x hx => Leaves.imp h fun l new ⟨hl, hn⟩ => by
    subst hl
    exact ⟨(meets_append hn (front x hx)).whole sub free, rfl⟩

theorem loop {a : σ} {body : σ → Parser (ForInStep σ)} {N : σ → Kind → Prop}
    (h : ∀ a, Turns input (body a) K fun r l =>
      match r with
      | .done b => N b l
      | .yield _ => K l) : Turns input (Parser.loop a body) K N := by
  intro i k row hk
  refine ⟨fun _ _ row' => ∃ l, row' = .node l :: row ∧ K l, ⟨k, rfl, hk⟩, ?_⟩
  rintro b j _ ⟨l, rfl, hl⟩
  refine (h b j l row hl).imp fun r _ row' ⟨m, eq, hm⟩ => ?_
  cases r with
  | done c => exact ⟨m, eq, hm⟩
  | yield c => exact ⟨m, eq, hm⟩

end Turns

theorem Looks.turns {p : Parser α} {next : α → Parser β} {K : Kind → Prop} {N : β → Kind → Prop}
    (hp : Looks input p) (hn : ∀ a, Turns input (next a) K N) : Turns input (p >>= next) K N :=
  fun _ k row hk => hp.fills fun a j new eq => by
    subst eq
    exact hn a j k row hk

/-- A node, and what goes on from it. -/
theorem Leaves.turns {p : Parser α} {next : α → Parser β} {K : α → Kind → Prop} {N : β → Kind → Prop}
    (hp : Leaves input p fun a new => ∃ k, new = [.node k] ∧ K a k)
    (hn : ∀ a, Turns input (next a) (K a) N) :
    Leaves input (p >>= next) fun b new => ∃ k, new = [.node k] ∧ N b k :=
  fun _ row => hp.fills fun a j new ⟨k, eq, hk⟩ => by
    subst eq
    exact (hn a j k row hk).imp fun b _ _ ⟨l, eq, hl⟩ => ⟨[.node l], eq, l, rfl, hl⟩

end Verbatim.Parser
