import Verbatim.Proofs.Anchors
import Verbatim.Proofs.Braces
import Verbatim.Proofs.Graft
import Verbatim.Proofs.Regrowth
import Verbatim.Proofs.Routes

/-!
# A tree with one list exchanged

Where a list is exchanged in an outline, the tree that grows from it has the element at one place exchanged
and is the same elsewhere. What grows in front of the list depends on the tokens up to its opening brace
alone, and what grows behind it moves with the text.
-/
namespace Verbatim

open Green Token

/-! ## In front of a token -/

namespace Sprout

variable {b : Token}

/-- What grows in front of the token `b`, and what it leaves there, is the same whatever comes behind `b`. -/
def Steady (b : Token) (grown grown' : List Token → Sprout) : Prop :=
  ∀ ts left behind, (grown ts).rest = left ++ b :: behind → ∃ before, ts = before ++ b :: behind ∧
    ∀ behind', grown' (before ++ b :: behind') =
      ⟨(grown ts).greens, (grown ts).reports, left ++ b :: behind'⟩

namespace Steady

theorem andThen {grown grown' next next' : List Token → Sprout} (h : Steady b grown grown')
    (hn : Steady b next next') :
    Steady b (fun ts => (grown ts).andThen next) fun ts => (grown' ts).andThen next' := by
  intro ts left behind rest
  obtain ⟨middle, split, later⟩ := hn _ _ _ (show (next (grown ts).rest).rest = _ from rest)
  obtain ⟨before, split', first⟩ := h _ _ _ split
  exact ⟨before, split', fun behind' => by simp only [Sprout.andThen, first, later]⟩

theorem under {grown grown' : List Token → Sprout} (h : Steady b grown grown') (k : Kind) :
    Steady b (fun ts => (grown ts).under k) fun ts => (grown' ts).under k := by
  intro ts left behind rest
  obtain ⟨before, split, same⟩ := h _ _ _ (show (grown ts).rest = _ from rest)
  exact ⟨before, split, fun behind' => by simp only [Sprout.under, same]⟩

theorem nothing (reports : List Token → List Diagnostic) (reports' : List Token → List Diagnostic)
    (h : ∀ before behind behind', reports' (before ++ b :: behind') = reports (before ++ b :: behind)) :
    Steady b (fun ts => ⟨[], reports ts, ts⟩) fun ts => ⟨[], reports' ts, ts⟩ :=
  fun ts left behind rest => ⟨left, rest, fun behind' => by
    obtain rfl : ts = left ++ b :: behind := rest
    exact congrArg (Sprout.mk [] · _) (h left behind behind')⟩

theorem trivia_append (seen : b.isTrivia = false) (before behind : List Token) :
    (before ++ b :: behind).takeWhile (·.isTrivia) = before.takeWhile (·.isTrivia) ∧
      (before ++ b :: behind).dropWhile (·.isTrivia) = before.dropWhile (·.isTrivia) ++ b :: behind := by
  induction before with
  | nil => simp [seen]
  | cons t before ih =>
    by_cases ht : t.isTrivia = true
    · simpa [ht] using ih
    · simp [ht]

/-- Trivia in front of `b`, of which a number of tokens are placed that depends on the trivia alone. -/
theorem placed (seen : b.isTrivia = false) (count : List Token → Nat) :
    let grown := fun ts : List Token =>
      let ahead := ts.takeWhile (·.isTrivia)
      Sprout.ofTokens (ahead.take (count ahead)) (ahead.drop (count ahead) ++ ts.dropWhile (·.isTrivia))
    Steady b grown grown := by
  intro grown ts left behind rest
  have parts : (ts.takeWhile (·.isTrivia)).take (count (ts.takeWhile (·.isTrivia))) ++ (grown ts).rest = ts := by
    simp [grown, Sprout.ofTokens, ← List.append_assoc]
  refine ⟨(ts.takeWhile (·.isTrivia)).take (count (ts.takeWhile (·.isTrivia))) ++ left, ?_, fun behind' => ?_⟩
  · rw [List.append_assoc, ← rest, parts]
  · generalize hb : (ts.takeWhile (·.isTrivia)).take (count (ts.takeWhile (·.isTrivia))) ++ left = before
    obtain rfl : ts = before ++ b :: behind := by rw [← hb, List.append_assoc, ← rest, parts]
    obtain ⟨ahead, later⟩ := trivia_append seen before behind
    obtain ⟨ahead', later'⟩ := trivia_append seen before behind'
    have left_eq : left = (before.takeWhile (·.isTrivia)).drop (count (before.takeWhile (·.isTrivia))) ++
        before.dropWhile (·.isTrivia) := by
      simp only [grown, Sprout.ofTokens, ahead, later, ← List.append_assoc] at rest
      exact (List.append_cancel_right rest).symm
    simp only [grown, ahead, later, ahead', later', Sprout.ofTokens, left_eq, List.append_assoc]

theorem outer (seen : b.isTrivia = false) (k : Kind) : Steady b (Sprout.outer k) (Sprout.outer k) :=
  placed seen fun ahead => ahead.length - attachedCount k ahead

theorem trivia (seen : b.isTrivia = false) : Steady b Sprout.trivia Sprout.trivia := by
  have all := placed seen List.length
  simp only [List.take_length, List.drop_length, List.nil_append] at all
  exact all

theorem taken (k : Kind) (n : Nat) : Steady b (Sprout.taken k n) (Sprout.taken k n) := by
  intro ts left behind rest
  change ts.drop n = _ at rest
  have length : (ts.take n).length = n := by
    have := congrArg List.length rest
    simp only [List.length_drop, List.length_append, List.length_cons] at this
    rw [List.length_take]
    omega
  refine ⟨ts.take n ++ left, by rw [List.append_assoc, ← rest, List.take_append_drop], fun behind' => ?_⟩
  have front : (ts.take n ++ left ++ b :: behind').take n = ts.take n := by
    rw [List.append_assoc, List.take_left' length]
  have back : (ts.take n ++ left ++ b :: behind').drop n = left ++ b :: behind' := by
    rw [List.append_assoc, List.drop_left' length]
  simp only [Sprout.taken, front, back]

end Steady

end Sprout

namespace Outline

/-- An error in front of a token that is no trivia is anchored alike, whatever comes behind that token. -/
theorem anchor_append {b : Token} (seen : b.isTrivia = false) (stop stop' : Nat)
    (before behind behind' : List Token) :
    anchor stop' (before ++ b :: behind') = anchor stop (before ++ b :: behind) := by
  rw [anchor, anchor, List.find?_append, List.find?_append]
  cases before.find? (!·.isTrivia) <;> simp [seen]

mutual
theorem steady_grow {b : Token} (seen : b.isTrivia = false) (stop stop' : Nat) : ∀ o : Outline,
    Sprout.Steady b (o.grow stop) (o.grow stop')
  | .token k n => by
    exact (Sprout.Steady.trivia seen).andThen (.taken k n)
  | .error cause => .nothing _ _ fun before behind behind' => by
    rw [anchor_append seen stop stop' before behind behind']
  | .fault _ => .nothing _ _ fun _ _ _ => rfl
  | .void => .nothing _ _ fun _ _ _ => rfl
  | .node k row => by
    exact (Sprout.Steady.outer seen k).andThen
      (((Sprout.Steady.trivia seen).andThen (steady_growOf seen stop stop' row)).under k)
  | .around k inner row => by
    exact (Sprout.Steady.outer seen k).andThen (((Sprout.Steady.trivia seen).andThen
      ((steady_grow seen stop stop' inner).andThen (steady_growOf seen stop stop' row))).under k)

theorem steady_growOf {b : Token} (seen : b.isTrivia = false) (stop stop' : Nat) : ∀ row : List Outline,
    Sprout.Steady b (growOf stop row) (growOf stop' row)
  | [] => .nothing _ _ fun _ _ _ => rfl
  | o :: older => (steady_growOf seen stop stop' older).andThen (steady_grow seen stop stop' o)
end

end Outline

/-! ## Around a list -/

namespace Outline

variable {g : Graft}

mutual
/-- What lies in front of the list or behind it stays as it is. -/
theorem graft_of_apart : ∀ (o : Outline) {i : Nat}, i + o.width ≤ g.first ∨ g.last ≤ i → graft g o i = o
  | .node k row, i, apart => by
    have lt := g.lt
    rw [width] at apart
    have other : ¬ (k = g.fragment.kind ∧ i = g.first ∧ i + widthOf row = g.last) := by omega
    rw [graft, if_neg other, graftOf_of_apart row apart]
  | .around k inner row, i, apart => by
    rw [width] at apart
    rw [graft, graft_of_apart inner (by omega), graftOf_of_apart row (by omega)]
  | .token _ _, _, _ | .error _, _, _ | .fault _, _, _ | .void, _, _ => rfl

theorem graftOf_of_apart : ∀ (row : List Outline) {i : Nat}, i + widthOf row ≤ g.first ∨ g.last ≤ i →
    graftOf g row i = row
  | [], _, _ => rfl
  | o :: older, i, apart => by
    rw [widthOf] at apart
    rw [graftOf, graft_of_apart o (by omega), graftOf_of_apart older (by omega)]
end

/-- A list inside of another one stands behind the brace of that. -/
theorem HoldsOf.lt_of_bracketed {row : List Outline} (h : Bracketed row) {i n : Nat}
    (holds : HoldsOf g row i n) : i < g.first := by
  obtain ⟨newer, rfl⟩ := List.getLast?_eq_some_iff.mp h.first
  rcases holdsOf_append.mp holds with first | later
  · exact absurd (first.resolve_left id) (by cases n <;> exact id)
  · have := later.bounds.1
    simp only [widthOf, width, brace] at this
    omega

/-- A node that holds the list below further ones is not exchanged itself. -/
theorem graft_of_holdsOf {k : Kind} {row : List Outline} {i n : Nat}
    (braced : Fragment.ofKind? k ≠ none → Bracketed row) (holds : HoldsOf g row i n) :
    graft g (node k row) i = node k (graftOf g row i) := by
  refine if_neg fun ⟨same_kind, first, _⟩ => ?_
  have fragment : Fragment.ofKind? k ≠ none := by
    rw [same_kind]
    cases g.fragment <;> decide
  have := holds.lt_of_bracketed (braced fragment)
  omega

end Outline

/-! ## Trees that differ in one element -/

namespace Token

/-- An error in front of a token that is no trivia is anchored there at the latest. -/
theorem Follow.anchor_le {start : Nat} {ts us : List Token} {b : Token} (h : Follow start (ts ++ b :: us))
    (seen : b.isTrivia = false) (stop : Nat) : (anchor stop (ts ++ b :: us)).start ≤ b.offset := by
  induction ts generalizing start with
  | nil =>
    simp only [List.nil_append, anchor, List.find?_cons, seen, Bool.not_false]
    exact Nat.le_refl _
  | cons t ts ih =>
    by_cases trivia : t.isTrivia = true
    · have := ih h.2
      simpa [anchor, List.find?_cons, trivia] using this
    · have later := h.append.2.1
      have first : t.offset = start := h.1
      simp only [List.cons_append, anchor, List.find?_cons, trivia, Bool.not_false]
      change t.offset ≤ _
      omega

end Token

namespace Green

/-- The tree with the element at the end of a route exchanged. -/
def exchange (g : Green) : Route → Green → Green
  | [], new => new
  | i :: r, new =>
    match g.children[i]? with
    | some c => g.withChild i (c.exchange r new)
    | none => g

theorem exchange_snoc {g e : Green} {r : Route} (h : g.at? r = some e) {i : Nat} {c : Green}
    (hc : e.children[i]? = some c) (new : Green) :
    g.exchange (r ++ [i]) new = g.exchange r (e.withChild i new) := by
  induction r generalizing g with
  | nil =>
    obtain rfl : g = e := Option.some.inj h
    simp only [List.nil_append, exchange, hc]
  | cons j r ih =>
    obtain ⟨d, hd, later⟩ := Option.bind_eq_some_iff.mp h
    simp only [List.cons_append, exchange, hd, ih later]

/-- How many bytes of a row of elements stand in front of the end of a route that goes through the element
at `place`. -/
def startOf (gs : List Green) (place : Nat) (r : Route) : Nat :=
  sizeOfSpots ((branch .sourceFile gs).tokensBefore (place :: r))

theorem startOf_eq {gs : List Green} {place : Nat} {c : Green} (h : gs[place]? = some c) (r : Route) :
    startOf gs place r = sizeOfLeaves (leavesOf (gs.take place)) + sizeOfSpots (c.tokensBefore r) := by
  have child : (branch .sourceFile gs).children[place]? = some c := h
  rw [startOf, tokensBefore_cons child, sizeOfSpots_append, sizeOfSpots_along, sizeOfSpots,
    texts_spotsFrom, texts_eq_leaves]
  rfl

theorem startOf_append_right (gs : List Green) {hs : List Green} {place : Nat} {c : Green}
    (h : hs[place]? = some c) (r : Route) : startOf (gs ++ hs) (gs.length + place) r =
      sizeOfLeaves (leavesOf gs) + startOf hs place r := by
  have h' : (gs ++ hs)[gs.length + place]? = some c := by
    rw [List.getElem?_append_right (Nat.le_add_right _ _), Nat.add_sub_cancel_left, h]
  rw [startOf_eq h', startOf_eq h, List.take_append, Nat.add_sub_cancel_left,
    List.take_of_length_le (Nat.le_add_right _ _), leavesOf_append, sizeOfLeaves_append, Nat.add_assoc]

theorem startOf_append_left {gs : List Green} {place : Nat} {c : Green} (h : gs[place]? = some c)
    (hs : List Green) (r : Route) : startOf (gs ++ hs) place r = startOf gs place r := by
  have inside : place < gs.length := (List.getElem?_eq_some_iff.mp h).1
  have h' : (gs ++ hs)[place]? = some c := by rw [List.getElem?_append_left inside, h]
  rw [startOf_eq h', startOf_eq h, List.take_append_of_le_length (Nat.le_of_lt inside)]

theorem startOf_under (k : Kind) (gs : List Green) (place : Nat) (r : Route) :
    startOf [branch k gs] 0 (place :: r) = startOf gs place r := by
  rw [startOf_eq rfl]
  exact Nat.zero_add _

theorem startOf_singleton (g : Green) : startOf [g] 0 [] = 0 := by
  rw [startOf_eq rfl, tokensBefore_nil]
  rfl

end Green

namespace Sprout

/-- What grows with two lists that stand in the same place: the elements at the end of a route differ, and
so do the reports of the lists; what was reported in front of them is anchored there; what is left and what
is reported behind them has moved. -/
structure Swaps (start n n' : Nat) (inner inner' : List Diagnostic) (place : Nat) (r : Route) (new : Green)
    (a a' : Sprout) : Prop where
  greens : ∃ c, a.greens[place]? = some c ∧ a'.greens = a.greens.set place (c.exchange r new)
  reports : ∃ front back : List Diagnostic, a.reports = front ++ inner ++ back.map (Diagnostic.moved n) ∧
    a'.reports = front ++ inner' ++ back.map (Diagnostic.moved n') ∧ ∀ d ∈ front, d.span.start ≤ start
  rest : ∃ left : List Token, a.rest = left.map (Token.moved n) ∧ a'.rest = left.map (Token.moved n')

namespace Swaps

variable {start n n' place : Nat} {inner inner' : List Diagnostic} {r : Route} {new : Green}
  {a a' : Sprout} {next next' : List Token → Sprout}

theorem before (greens : a'.greens = a.greens) (reports : a'.reports = a.reports)
    (early : ∀ d ∈ a.reports, d.span.start ≤ start)
    (h : Swaps start n n' inner inner' place r new (next a.rest) (next' a'.rest)) :
    Swaps start n n' inner inner' (a.greens.length + place) r new (a.andThen next) (a'.andThen next') := by
  obtain ⟨⟨c, here, swapped⟩, ⟨front, back, old, fresh, early'⟩, rest⟩ := h
  refine ⟨⟨c, ?_, ?_⟩, ⟨a.reports ++ front, back, ?_, ?_, ?_⟩, rest⟩
  · rw [Sprout.andThen, List.getElem?_append_right (Nat.le_add_right _ _), Nat.add_sub_cancel_left, here]
  · simp only [Sprout.andThen, greens, swapped, List.set_append_right _ _ (Nat.le_add_right _ _),
      Nat.add_sub_cancel_left]
  · simp only [Sprout.andThen, old, List.append_assoc]
  · simp only [Sprout.andThen, reports, fresh, List.append_assoc]
  · exact fun d hd => (List.mem_append.mp hd).elim (early d) (early' d)

theorem behind {grown : List Token → Sprout}
    (h : Swaps start n n' inner inner' place r new a a')
    (left : ∀ ts, next (ts.map (Token.moved n)) = (grown ts).moved n)
    (left' : ∀ ts, next' (ts.map (Token.moved n')) = (grown ts).moved n') :
    Swaps start n n' inner inner' place r new (a.andThen next) (a'.andThen next') := by
  obtain ⟨⟨c, here, swapped⟩, ⟨front, back, old, fresh, early⟩, ts, rest, rest'⟩ := h
  have inside : place < a.greens.length := (List.getElem?_eq_some_iff.mp here).1
  refine ⟨⟨c, ?_, ?_⟩, ⟨front, back ++ (grown ts).reports, ?_, ?_, early⟩, (grown ts).rest, ?_, ?_⟩
  · rw [Sprout.andThen, List.getElem?_append_left inside, here]
  · simp only [Sprout.andThen, rest, rest', left, left', swapped, moved, List.set_append_left _ _ inside]
  · simp only [Sprout.andThen, rest, left, moved, old, List.map_append, List.append_assoc]
  · simp only [Sprout.andThen, rest', left', moved, fresh, List.map_append, List.append_assoc]
  · simp only [Sprout.andThen, rest, left, moved]
  · simp only [Sprout.andThen, rest', left', moved]

theorem under (h : Swaps start n n' inner inner' place r new a a') (k : Kind) :
    Swaps start n n' inner inner' 0 (place :: r) new (a.under k) (a'.under k) := by
  obtain ⟨⟨c, here, swapped⟩, reports, rest⟩ := h
  refine ⟨⟨.branch k a.greens, rfl, ?_⟩, reports, rest⟩
  have child : (branch k a.greens).children[place]? = some c := here
  simp only [Sprout.under, swapped, List.set_cons_zero, exchange, child, withChild]
  rfl

end Swaps

/-- What is reported in front of a token that is no trivia is anchored there at the latest. -/
theorem Anchored.early {a : Sprout} {stop base : Nat} {ts left behind : List Token} {b : Token}
    (h : a.Anchored stop base ts) (seen : b.isTrivia = false) (rest : a.rest = left ++ b :: behind) :
    ∀ d ∈ a.reports, d.span.start ≤ b.offset := by
  have follow := h.rest
  rw [rest] at follow
  have later := follow.append.2.1
  intro d hd
  rcases h.reports d hd with here | waits
  · have := here.bounds.2
    rw [Span.stop] at this
    omega
  · rw [waits, rest]
    exact follow.anchor_le seen stop

end Sprout

/-! ## Where a list stands -/

namespace Outline

open Sprout

/-- A list in a text: its row, the tokens from its brace on, and its place among those that are seen. -/
structure Bed where
  fragment : Fragment
  row : List Outline
  first : Nat
  brace : Token
  behind : List Token

namespace Bed

variable (b : Bed) (stop n n' : Nat) (g : Graft) (behind : List Token)

def tokens : List Token := b.brace :: b.behind

/-- What the list grows in a text that ends at `stop`. -/
def grown : Sprout := growOf stop b.row b.tokens

/-- What another list grows behind the same brace. -/
def regrown : Sprout := growOf stop g.scion (b.brace :: behind)

/-- The list stands in braces, and its tokens are those of the input at its place. -/
structure Sound (input : Input) : Prop where
  opens : b.brace.kind = .leftBrace
  bracketed : Bracketed b.row
  braced : BracedOf b.row
  lexed : Lexed b.tokens
  aligned : input.Aligned b.tokens b.first
  fits : FitsOf input b.row b.first

/-- Another list for this place: behind it the same is left, only that its end has moved. -/
structure Takes : Prop where
  fragment : g.fragment = b.fragment
  first : g.first = b.first
  last : g.last = b.first + widthOf b.row
  rest : ∃ left : List Token, (b.grown (stop + n)).rest = left.map (Token.moved n) ∧
    (b.regrown (stop + n') g behind).rest = left.map (Token.moved n')

/-- The list lies in what grows from some tokens, at a place and from there at the end of a route. What
grows with another list in its place differs in the element there. -/
structure Lies (base : Nat) (ts : List Token) (holds : Graft → Prop) (grown : List Token → Sprout)
    (grown' : Graft → List Token → Sprout) (place : Nat) (r : Route) : Prop where
  start : b.brace.offset = base + startOf (grown ts).greens place r
  child : ∃ c, (grown ts).greens[place]? = some c
  swaps : ∃ before, ts = before ++ b.tokens ∧ ∀ g behind, b.Takes stop n n' g behind → holds g ∧
    Swaps b.brace.offset n n' (b.grown (stop + n)).reports (b.regrown (stop + n') g behind).reports place r
      (.branch b.fragment.kind (b.regrown (stop + n') g behind).greens) (grown ts)
      (grown' g (before ++ b.brace :: behind))

namespace Lies

variable {b stop n n'} {base : Nat} {ts : List Token} {holds holds' : Graft → Prop}
  {a a' next next' : List Token → Sprout} {grown' grown'' : Graft → List Token → Sprout} {place : Nat}
  {r : Route}

/-- It only matters what grows with a list that can stand there. -/
theorem imp (h : b.Lies stop n n' base ts holds a grown' place r)
    (same : ∀ g, holds g → holds' g ∧ grown'' g = grown' g) :
    b.Lies stop n n' base ts holds' a grown'' place r := by
  obtain ⟨start, child, before, split, swaps⟩ := h
  refine ⟨start, child, before, split, fun g behind takes => ?_⟩
  obtain ⟨holds, swaps⟩ := swaps g behind takes
  rw [(same g holds).2]
  exact ⟨(same g holds).1, swaps⟩

/-- Something grows in front of the list. -/
theorem before (seen : b.brace.isTrivia = false) (steady : Steady b.brace a a')
    (anchored : (a ts).Anchored (stop + n) base ts)
    (h : b.Lies stop n n' (base + sizeOfLeaves (leavesOf (a ts).greens)) (a ts).rest holds next grown'
      place r) :
    b.Lies stop n n' base ts holds (fun ts => (a ts).andThen next) (fun g ts => (a' ts).andThen (grown' g))
      ((a ts).greens.length + place) r := by
  obtain ⟨start, ⟨c, here⟩, left, rest, swaps⟩ := h
  obtain ⟨before, split, same⟩ := steady ts left b.behind rest
  refine ⟨?_, ⟨c, ?_⟩, before, split, fun g behind takes => ?_⟩
  · rw [start, Sprout.andThen, startOf_append_right _ here, Nat.add_assoc]
  · rw [Sprout.andThen, List.getElem?_append_right (Nat.le_add_right _ _), Nat.add_sub_cancel_left, here]
  · obtain ⟨holds, swaps⟩ := swaps g behind takes
    refine ⟨holds, Swaps.before ?_ ?_ (anchored.early seen rest) ?_⟩
    · rw [same]
    · rw [same]
    · rw [same]
      exact swaps

/-- Something grows behind the list. -/
theorem behindBy {grown : List Token → Sprout} (h : b.Lies stop n n' base ts holds a grown' place r)
    (old : ∀ ts, next (ts.map (Token.moved n)) = (grown ts).moved n)
    (new : ∀ ts, next' (ts.map (Token.moved n')) = (grown ts).moved n') :
    b.Lies stop n n' base ts holds (fun ts => (a ts).andThen next)
      (fun g ts => (grown' g ts).andThen next') place r := by
  obtain ⟨start, ⟨c, here⟩, before, split, swaps⟩ := h
  refine ⟨?_, ⟨c, ?_⟩, before, split, fun g behind takes => ?_⟩
  · rw [start, Sprout.andThen, startOf_append_left here]
  · rw [Sprout.andThen, List.getElem?_append_left (List.getElem?_eq_some_iff.mp here).1, here]
  · exact (swaps g behind takes).imp_right fun swaps => swaps.behind old new

theorem under (h : b.Lies stop n n' base ts holds a grown' place r) (k : Kind) :
    b.Lies stop n n' base ts holds (fun ts => (a ts).under k) (fun g ts => (grown' g ts).under k) 0
      (place :: r) := by
  obtain ⟨start, -, before, split, swaps⟩ := h
  refine ⟨?_, ⟨_, rfl⟩, before, split, fun g behind takes => ?_⟩
  · rw [start, Sprout.under, startOf_under]
  · exact (swaps g behind takes).imp_right fun swaps => swaps.under k

/-- The list stands in a node. -/
theorem entered (seen : b.brace.isTrivia = false) (follow : Follow base ts) (k : Kind)
    (h : b.Lies stop n n' (base + sizeOfLeaves (leavesOf (Sprout.outer k ts).greens) +
        sizeOfLeaves (leavesOf (Sprout.trivia (Sprout.outer k ts).rest).greens))
      (Sprout.trivia (Sprout.outer k ts).rest).rest holds next grown' place r) :
    b.Lies stop n n' base ts holds
      (fun ts => (Sprout.outer k ts).andThen fun ts => ((Sprout.trivia ts).andThen next).under k)
      (fun g ts => (Sprout.outer k ts).andThen fun ts => ((Sprout.trivia ts).andThen (grown' g)).under k)
      (Sprout.outer k ts).greens.length
      (((Sprout.trivia (Sprout.outer k ts).rest).greens.length + place) :: r) := by
  have outside := Anchored.outer (stop + n) k follow
  exact ((h.before seen (.trivia seen) (.trivia _ outside.rest)).under k).before seen (.outer seen k) outside

/-- The list is the node itself. -/
theorem hole (seen : b.brace.isTrivia = false) (follow : Follow base ts)
    (rest : (Sprout.outer b.fragment.kind ts).rest = b.tokens) :
    b.Lies stop n n' base ts
      (fun g => g.fragment = b.fragment ∧ g.first = b.first ∧ g.last = b.first + widthOf b.row)
      (grow (stop + n) (.node b.fragment.kind b.row))
      (fun g => grow (stop + n') (.node b.fragment.kind g.scion))
      (Sprout.outer b.fragment.kind ts).greens.length [] := by
  have outside := Anchored.outer (stop + n) b.fragment.kind follow
  have at_brace := outside.rest
  rw [rest] at at_brace
  change b.Lies stop n n' base ts _ _ _ ((Sprout.outer b.fragment.kind ts).greens.length + 0) []
  refine Lies.before seen (.outer seen _) outside
    ⟨?_, ⟨_, rfl⟩, [], rest, fun g behind takes => ⟨⟨takes.fragment, takes.first, takes.last⟩, ?_⟩⟩
  · rw [Sprout.under, startOf_singleton]
    exact at_brace.1
  · have no_trivia (behind : List Token) :
        Sprout.trivia (b.brace :: behind) = ⟨[], [], b.brace :: behind⟩ := by
      simp [Sprout.trivia, Sprout.ofTokens, seen]
    simp only [rest, tokens, List.nil_append, no_trivia]
    obtain ⟨left, old, new⟩ := takes.rest
    refine ⟨⟨_, rfl, rfl⟩, ⟨[], [], ?_, ?_, List.forall_mem_nil _⟩, left, old, new⟩
    · exact (List.append_nil _).symm
    · exact (List.append_nil _).symm

end Lies

end Bed

/-! ## Down to the list -/

theorem isNode_of_at?_leaf {g x : Green} {r : Route} (token : g.isNode = false) (h : g.at? r = some x) :
    x.isNode = false := by
  cases g with
  | node k n cs => contradiction
  | token k t =>
    cases r with
    | nil => rw [← Option.some.inj h, token]
    | cons i r => simp [at?, children] at h

/-- What has grown first or what has grown then. -/
theorem getElem?_andThen {a : Sprout} {next : List Token → Sprout} {place : Nat} {c : Green}
    (h : (a.andThen next).greens[place]? = some c) : a.greens[place]? = some c ∨
      ∃ later, place = a.greens.length + later ∧ (next a.rest).greens[later]? = some c := by
  rcases Nat.lt_or_ge place a.greens.length with first | then_
  · rw [Sprout.andThen, List.getElem?_append_left first] at h
    exact .inl h
  · rw [Sprout.andThen, List.getElem?_append_right then_] at h
    exact .inr ⟨place - a.greens.length, by omega, h⟩

theorem isNode_of_placed {placed rest : List Token} {place : Nat} {c : Green}
    (h : (Sprout.ofTokens placed rest).greens[place]? = some c) : c.isNode = false := by
  obtain ⟨t, -, rfl⟩ := List.mem_map.mp (List.mem_of_getElem? h)
  rfl

/-- A node in what grows with a node around: it is that node, or lies in what grows in there. -/
theorem at?_entered {k : Kind} {ts : List Token} {next : List Token → Sprout} {place : Nat} {c x : Green}
    {r : Route} (node : x.isNode = true)
    (h : ((Sprout.outer k ts).andThen fun ts => ((Sprout.trivia ts).andThen next).under k).greens[place]? =
      some c) (end_ : c.at? r = some x) :
    place = (Sprout.outer k ts).greens.length ∧
      (r = [] ∧ x = .branch k ((Sprout.trivia (Sprout.outer k ts).rest).andThen next).greens ∨
      ∃ (place' : Nat) (r' : Route) (c' : Green),
        r = ((Sprout.trivia (Sprout.outer k ts).rest).greens.length + place') :: r' ∧
        (next (Sprout.trivia (Sprout.outer k ts).rest).rest).greens[place']? = some c' ∧
          c'.at? r' = some x) := by
  have leaf {c : Green} {r : Route} (token : c.isNode = false) : c.at? r ≠ some x := fun h => by
    rw [isNode_of_at?_leaf token h] at node
    contradiction
  rcases getElem?_andThen h with outside | ⟨later, rfl, here⟩
  · exact absurd end_ (leaf (isNode_of_placed outside))
  · obtain ⟨rfl, rfl⟩ : later = 0 ∧ c = .branch k
        ((Sprout.trivia (Sprout.outer k ts).rest).andThen next).greens := by
      cases later with
      | zero => exact ⟨rfl, (Option.some.inj here).symm⟩
      | succ later => simp [Sprout.under] at here
    refine ⟨rfl, ?_⟩
    cases r with
    | nil => exact .inl ⟨rfl, (Option.some.inj end_).symm⟩
    | cons i r =>
      obtain ⟨c', child, end'⟩ := Option.bind_eq_some_iff.mp end_
      rcases getElem?_andThen child with ahead | ⟨inside, rfl, there⟩
      · exact absurd end' (leaf (isNode_of_placed ahead))
      · exact .inr ⟨inside, r, c', rfl, there, end'⟩

/-- A node that has grown from a list, in whose place another one may be put. -/
def Stands (input : Input) (f : Fragment) (x : Green) (stop n n' base : Nat) (ts : List Token)
    (holds : Graft → Prop) (grown : List Token → Sprout) (grown' : Graft → List Token → Sprout)
    (place : Nat) (r : Route) : Prop :=
  ∃ b : Bed, b.fragment = f ∧ b.Sound input ∧ x = .branch f.kind (b.grown (stop + n)).greens ∧
    b.Lies stop n n' base ts holds grown grown' place r

variable {input : Input} {f : Fragment} {x : Green}

theorem Bed.Sound.seen {b : Bed} (h : b.Sound input) : b.brace.isTrivia = false :=
  Token.seen_of_kind h.opens rfl

/-- What stands in braces starts with a brace. -/
theorem brace_of_bracketed {row : List Outline} (h : Bracketed row) {ts : List Token} {i : Nat}
    (aligned : input.Aligned ts i) (fits : FitsOf input row i) :
    ∃ t rest, ts.dropWhile (·.isTrivia) = t :: rest ∧ t.kind = .leftBrace := by
  obtain ⟨newer, rfl⟩ := List.getLast?_eq_some_iff.mp h.first
  have at_i : input.isAt i .leftBrace = true := (fitsOf_append.mp fits).1.2.1
  obtain ⟨glued, rest, split, kinds, -, -⟩ :=
    aligned.dropTrivia.glued (takeWhile_dropWhile ts) (by decide) at_i
  obtain ⟨t, rfl, kind⟩ := List.map_eq_singleton_iff.mp kinds
  exact ⟨t, rest, split, kind⟩

mutual
/-- A node that stands for a list in what grows from an outline has grown from a list there, and another
list may take its place. -/
theorem stands_grow (node : x.isNode = true) (kind : x.kind = f.kind) (stop n n' : Nat) :
    ∀ (o : Outline) {base : Nat} {ts : List Token} {i place : Nat} {c : Green} {r : Route},
      Follow base ts → Lexed ts → input.Aligned ts i → Fits input o i → o.Braced →
      (o.grow (stop + n) ts).greens[place]? = some c → c.at? r = some x →
      Stands input f x stop n n' base ts (Holds · o i r.length) (o.grow (stop + n))
        (fun g => (graft g o i).grow (stop + n')) place r
  | .node k row, base, ts, i, place, c, r, follow, lexed, aligned, fits, braced, here, end_ => by
    obtain ⟨used, outside⟩ := Sprout.Shows.outer k ts
    obtain ⟨rfl, ⟨rfl, itself⟩ | ⟨place', r', c', rfl, there, end'⟩⟩ := at?_entered node here end_
    · obtain rfl : k = f.kind := by rw [← kind, itself]; rfl
      have fragment : Fragment.ofKind? f.kind ≠ none := by cases f <;> decide
      obtain ⟨t, rest, split, opens⟩ := brace_of_bracketed (braced.2.1 fragment) aligned fits
      have outer_rest : (Sprout.outer f.kind ts).rest = t :: rest :=
        (rest_outer_of_fragment fragment ts).trans split
      have lexed' := lexed.rest outside
      have aligned' := aligned.dropTrivia
      rw [outer_rest] at lexed'
      rw [split] at aligned'
      have sound : Bed.Sound ⟨f, row, i, t, rest⟩ input :=
        ⟨opens, braced.2.1 fragment, braced.2.2, lexed', aligned', fits⟩
      refine ⟨⟨f, row, i, t, rest⟩, rfl, sound, ?_,
        (Bed.Lies.hole sound.seen follow outer_rest).imp fun g takes => ?_⟩
      · rw [itself, trivia_in_fragment fragment, split]
        rfl
      · obtain ⟨rfl, first, last⟩ := takes
        exact ⟨⟨rfl, first.symm, last.symm⟩, congrArg _ (if_pos ⟨rfl, first.symm, last.symm⟩)⟩
    · have inside := Sprout.Shows.trivia (Sprout.outer k ts).rest
      have ahead := Anchored.trivia (stop + n) (Anchored.outer (stop + n) k follow).rest
      obtain ⟨b, fragment, sound, grown, lies⟩ := stands_growOf node kind stop n n' row ahead.rest
        ((lexed.rest outside).rest inside) (aligned.congr (Input.ofTokens_outer k ts)).dropTrivia fits
        braced.2.2 there end'
      exact ⟨b, fragment, sound, grown, (lies.entered sound.seen follow k).imp fun g holds =>
        ⟨holds, by rw [graft_of_holdsOf braced.2.1 holds]; rfl⟩⟩
  | .around k inner row, base, ts, i, place, c, r, follow, lexed, aligned, fits, braced, here, end_ => by
    obtain ⟨used, outside⟩ := Sprout.Shows.outer k ts
    have inside := Sprout.Shows.trivia (Sprout.outer k ts).rest
    have ahead := Anchored.trivia (stop + n) (Anchored.outer (stop + n) k follow).rest
    have lexed := (lexed.rest outside).rest inside
    have aligned := (aligned.congr (Input.ofTokens_outer k ts)).dropTrivia
    obtain ⟨rfl, ⟨rfl, itself⟩ | ⟨place', r', c', rfl, there, end'⟩⟩ := at?_entered node here end_
    · obtain rfl : k = f.kind := by rw [← kind, itself]; rfl
      have := braced.2.1
      cases f <;> contradiction
    · rcases getElem?_andThen there with first | ⟨later, rfl, second⟩
      · obtain ⟨b, fragment, sound, grown, lies⟩ := stands_grow node kind stop n n' inner ahead.rest
          lexed aligned fits.1 braced.2.2.1 first end'
        have lies := lies.behindBy (growOf_moved n stop row) (growOf_moved n' stop row)
        exact ⟨b, fragment, sound, grown, (lies.entered sound.seen follow k).imp fun g holds =>
          ⟨.inl holds, by rw [graft, graftOf_of_apart row (.inr holds.bounds.2)]; rfl⟩⟩
      · obtain ⟨used', shows, aligned'⟩ := shows_grow (stop + n) inner lexed aligned fits.1
        have before := anchored_grow (stop + n) inner ahead.rest
        obtain ⟨b, fragment, sound, grown, lies⟩ := stands_growOf node kind stop n n' row before.rest
          (lexed.rest shows) aligned' fits.2 braced.2.2.2 second end'
        have lies := lies.before sound.seen (steady_grow sound.seen _ (stop + n') inner) before
        exact ⟨b, fragment, sound, grown, (lies.entered sound.seen follow k).imp fun g holds =>
          ⟨.inr holds, by rw [graft, graft_of_apart inner (.inl holds.bounds.1)]; rfl⟩⟩
  | .token k m, base, ts, i, place, c, r, _, _, _, _, _, here, end_ => by
    have leaf : c.isNode = false := by
      rcases getElem?_andThen here with ahead | ⟨later, rfl, token⟩
      · exact isNode_of_placed ahead
      · obtain rfl := List.mem_singleton.mp (List.mem_of_getElem? token)
        rfl
    rw [isNode_of_at?_leaf leaf end_] at node
    contradiction
  | .error _, _, _, _, _, _, _, _, _, _, _, _, here, _ => by simp [grow] at here
  | .fault _, _, _, _, _, _, _, _, _, _, _, _, here, _ => by simp [grow] at here
  | .void, _, _, _, _, _, _, _, _, _, _, _, here, _ => by simp [grow] at here

theorem stands_growOf (node : x.isNode = true) (kind : x.kind = f.kind) (stop n n' : Nat) :
    ∀ (row : List Outline) {base : Nat} {ts : List Token} {i place : Nat} {c : Green} {r : Route},
      Follow base ts → Lexed ts → input.Aligned ts i → FitsOf input row i → BracedOf row →
      (growOf (stop + n) row ts).greens[place]? = some c → c.at? r = some x →
      Stands input f x stop n n' base ts (HoldsOf · row i r.length) (growOf (stop + n) row)
        (fun g => growOf (stop + n') (graftOf g row i)) place r
  | [], _, _, _, _, _, _, _, _, _, _, _, here, _ => by simp [growOf] at here
  | o :: older, base, ts, i, place, c, r, follow, lexed, aligned, fits, braced, here, end_ => by
    rcases getElem?_andThen here with first | ⟨later, rfl, there⟩
    · obtain ⟨b, fragment, sound, grown, lies⟩ := stands_growOf node kind stop n n' older follow lexed
        aligned fits.1 braced.1 first end_
      exact ⟨b, fragment, sound, grown,
        (lies.behindBy (grow_moved n stop o) (grow_moved n' stop o)).imp fun g holds =>
          ⟨.inl holds, by rw [graftOf, graft_of_apart o (.inr holds.bounds.2)]; rfl⟩⟩
    · obtain ⟨used, shows, aligned'⟩ := shows_growOf (stop + n) older lexed aligned fits.1
      have before := anchored_growOf (stop + n) older follow
      obtain ⟨b, fragment, sound, grown, lies⟩ := stands_grow node kind stop n n' o before.rest
        (lexed.rest shows) aligned' fits.2 braced.2 there end_
      exact ⟨b, fragment, sound, grown,
        (lies.before sound.seen (steady_growOf sound.seen _ (stop + n') older) before).imp fun g holds =>
          ⟨.inr holds, by rw [graftOf, graftOf_of_apart older (.inl holds.bounds.1)]; rfl⟩⟩
end

end Outline

end Verbatim
