import Mathlib.Tactic.Common
import Verbatim.Parser.Input

/-!
# What is written at a place

Looking for a kind of token reads its pieces one by one and stops at the first that differs. Braces,
semicolons and the end are pieces of nothing but themselves, so looking for anything else never reads past
one of them. The balance counts the braces that are open at a place; what is skipped for being too deep is
told by all delimiters alike.
-/
namespace Verbatim

namespace Kind

/-- Braces and the end of the text: what is never skipped. -/
def isBarrier : Kind → Bool
  | leftBrace | rightBrace | eof => true
  | _ => false

/-- Tokens that something may end with, and the end of the text: what no lookahead reads past. -/
def isStop : Kind → Bool
  | leftBrace | rightBrace | semicolon | eof => true
  | _ => false

/-- Kinds that are written as one token of the text. -/
def IsSimple (k : Kind) : Prop := k.pieces = [k]

/-- Kinds of tokens that close no brace and are not the end. -/
def IsOrdinary (k : Kind) : Prop := k ≠ .rightBrace ∧ k ≠ .eof

instance (k : Kind) : Decidable k.IsOrdinary := inferInstanceAs (Decidable (_ ∧ _))

/-- Kinds that can stand around a list: only a brace is closed by a brace. -/
structure Pairs (bra ket : Kind) : Prop where
  brace : ket = .rightBrace → bra = .leftBrace
  bra_ne : bra ≠ .rightBrace
  bra_ne_eof : bra ≠ .eof
  ket_ne_eof : ket ≠ .eof

instance (bra ket : Kind) : Decidable (bra.Pairs ket) :=
  decidable_of_iff ((ket = .rightBrace → bra = .leftBrace) ∧ bra ≠ .rightBrace ∧ bra ≠ .eof ∧ ket ≠ .eof)
    ⟨fun h => ⟨h.1, h.2.1, h.2.2.1, h.2.2.2⟩, fun h => ⟨h.1, h.2, h.3, h.4⟩⟩

theorem pieces_ne_nil (k : Kind) : k.pieces ≠ [] := by
  cases k <;> simp [pieces]

theorem length_pieces_pos (k : Kind) : 0 < k.pieces.length :=
  List.length_pos_iff.mpr k.pieces_ne_nil

/-- As many tokens are taken for a kind as are looked for. -/
theorem width_eq (k : Kind) : k.width = k.pieces.length := by
  cases k <;> rfl

theorem isStop_of_isBarrier {k : Kind} (h : k.isBarrier) : k.isStop := by
  cases k <;> first | rfl | simp [isBarrier] at h

theorem not_barrier_of_not_stop {k : Kind} (h : k.isStop = false) : k.isBarrier = false := by
  rw [← Bool.not_eq_true] at h ⊢
  exact fun hb => h (isStop_of_isBarrier hb)

theorem simple_or_open (k : Kind) : k.IsSimple ∨ ∀ b ∈ k.pieces, b.isStop = false := by
  cases k <;> first | exact .inl rfl | exact .inr (by decide)

/-- A kind that has a stop among its pieces is that stop. -/
theorem pieces_of_stop {k b : Kind} (hb : b.isStop) (h : b ∈ k.pieces) : k = b := by
  rcases k.simple_or_open with simple | apart
  · rw [show k.pieces = [k] from simple, List.mem_singleton] at h
    exact h.symm
  · simp [apart b h] at hb

theorem pieces_of_barrier {k b : Kind} (hb : b.isBarrier) (h : b ∈ k.pieces) : k = b :=
  pieces_of_stop (isStop_of_isBarrier hb) h

theorem simple_of_stop {b : Kind} (hb : b.isStop) : b.IsSimple := by
  cases b <;> first | rfl | simp [isStop] at hb

end Kind

namespace Input

variable {input : Input}

theorem kind_eq_eof_of_le {i : Nat} (h : input.length ≤ i) : input.kind i = .eof := by
  simp only [kind, Array.getD]
  exact dif_neg (by simpa [length] using h)

theorem lt_length_of_kind_ne {i : Nat} (h : input.kind i ≠ .eof) : i < input.length := by
  by_contra hi
  exact h (kind_eq_eof_of_le (by omega))

theorem isAt_simple {k : Kind} (h : k.IsSimple) (i : Nat) :
    input.isAt i k = (input.kind i == k) := by
  simp [isAt, show k.pieces = [k] from h, glued]

theorem isAt_of_kind {k : Kind} {i : Nat} (h : input.kind i = k) (hk : k.IsSimple) :
    input.isAt i k = true := by
  rw [isAt_simple hk, beq_iff_eq]
  exact h

theorem kind_of_glued {ks : List Kind} {i n : Nat} (h : input.glued i ks = true)
    (hn : n < ks.length) : input.kind (i + n) = ks[n] := by
  induction ks generalizing i n with
  | nil => simp at hn
  | cons k ks ih =>
    have head : input.kind i = k := by
      cases ks <;> simp_all [glued]
    cases n with
    | zero => simpa using head
    | succ n =>
      cases ks with
      | nil => simp at hn
      | cons k' ks =>
        simp only [glued, Bool.and_eq_true] at h
        have := ih h.2 (Nat.lt_of_succ_lt_succ hn)
        simpa [Nat.add_assoc, Nat.add_comm 1] using this

theorem kind_of_isAt {k : Kind} {i n : Nat} (h : input.isAt i k = true) (hn : n < k.pieces.length) :
    input.kind (i + n) = k.pieces[n] := kind_of_glued h hn

/-- The first piece of a kind. -/
theorem head_of_isAt {k : Kind} {i : Nat} (h : input.isAt i k = true) :
    input.kind i = k.pieces.head k.pieces_ne_nil := by
  have := kind_of_isAt (n := 0) h k.length_pieces_pos
  simpa [List.head_eq_getElem] using this

/-- Nothing but the end itself reaches behind the last token. -/
theorem end_le_of_isAt {k : Kind} {i : Nat} (hk : k ≠ .eof) (h : input.isAt i k = true) :
    i + k.pieces.length ≤ input.length := by
  have last : k.pieces.length - 1 < k.pieces.length := by
    have := k.length_pieces_pos
    omega
  have ne : input.kind (i + (k.pieces.length - 1)) ≠ .eof := by
    rw [kind_of_isAt h last]
    intro heof
    exact hk (Kind.pieces_of_barrier rfl (heof ▸ List.getElem_mem last))
  have := lt_length_of_kind_ne ne
  omega

/-- No stop stands among the next `n` tokens. -/
def Open (input : Input) (i n : Nat) : Prop := ∀ m < n, (input.kind (i + m)).isStop = false

theorem open_zero (i : Nat) : input.Open i 0 := fun _ h => absurd h (Nat.not_lt_zero _)

/-! ## Balance -/

/-- What a token adds to the number of open braces. -/
def weight : Kind → Int
  | .leftBrace => 1
  | .rightBrace => -1
  | _ => 0

/-- How many braces are open in front of place `i`. -/
def balance (input : Input) : Nat → Int
  | 0 => 0
  | i + 1 => input.balance i + weight (input.kind i)

theorem balance_succ (input : Input) (i : Nat) :
    input.balance (i + 1) = input.balance i + weight (input.kind i) := rfl

theorem weight_eq_zero {k : Kind} (h : k.isBarrier = false) : weight k = 0 := by
  cases k <;> simp_all [weight, Kind.isBarrier]

theorem balance_add {i n : Nat} (h : ∀ m < n, (input.kind (i + m)).isBarrier = false) :
    input.balance (i + n) = input.balance i := by
  induction n with
  | zero => rfl
  | succ n ih =>
    rw [← Nat.add_assoc, balance_succ, ih fun m hm => h m (by omega),
      weight_eq_zero (h n (by omega)), Int.add_zero]

/-- What is no stop is written without stops. -/
theorem open_of_isAt {k : Kind} {i : Nat} (hk : k.isStop = false) (h : input.isAt i k = true) :
    input.Open i k.pieces.length := by
  intro m hm
  rw [kind_of_isAt h hm]
  by_contra hb
  rw [Bool.not_eq_false] at hb
  rw [Kind.pieces_of_stop hb (List.getElem_mem hm), hb] at hk
  contradiction

/-- What is no barrier is written without barriers. -/
theorem not_barrier_of_isAt {k : Kind} {i n : Nat} (hk : k.isBarrier = false) (h : input.isAt i k = true)
    (hn : n < k.pieces.length) : (input.kind (i + n)).isBarrier = false := by
  rw [kind_of_isAt h hn]
  by_contra hb
  rw [Bool.not_eq_false] at hb
  rw [Kind.pieces_of_barrier hb (List.getElem_mem hn), hb] at hk
  contradiction

/-- From place `i` up to place `j` no brace is closed that is open at `i`. -/
def KeepsOpen (input : Input) (i j : Nat) : Prop := ∀ m, i ≤ m → m ≤ j → input.balance i ≤ input.balance m

theorem KeepsOpen.refl (input : Input) (i : Nat) : input.KeepsOpen i i :=
  fun m hi hj => Int.le_of_eq (by rw [Nat.le_antisymm hi hj])

theorem KeepsOpen.trans {i j k : Nat} (h : input.KeepsOpen i j) (le : i ≤ j) (h' : input.KeepsOpen j k) :
    input.KeepsOpen i k := by
  intro m hi hk
  rcases Nat.le_total m j with hj | hj
  · exact h m hi hj
  · exact Int.le_trans (h j le (Nat.le_refl _)) (h' m hj hk)

/-- Only a closing brace closes one. -/
theorem keepsOpen_succ {i : Nat} (h : input.kind i ≠ .rightBrace) : input.KeepsOpen i (i + 1) := by
  intro m hi hj
  have opens : 0 ≤ weight (input.kind i) := by
    generalize input.kind i = k at h
    cases k <;> first | decide | contradiction
  rcases Nat.lt_or_ge i m with lt | ge
  · obtain rfl : m = i + 1 := by omega
    rw [balance_succ]
    omega
  · exact Int.le_of_eq (congrArg input.balance (Nat.le_antisymm hi ge))

theorem keepsOpen_of_isAt {k : Kind} {i : Nat} (hk : k ≠ .rightBrace) (he : k ≠ .eof)
    (h : input.isAt i k = true) : input.KeepsOpen i (i + k.pieces.length) := by
  by_cases hb : k = .leftBrace
  · subst hb
    rw [isAt_simple (k := .leftBrace) rfl, beq_iff_eq] at h
    exact keepsOpen_succ (by rw [h]; decide)
  · have apart : k.isBarrier = false := by cases k <;> simp_all [Kind.isBarrier]
    intro m hi hj
    obtain ⟨n, rfl⟩ : ∃ n, m = i + n := ⟨m - i, by omega⟩
    exact Int.le_of_eq (balance_add fun l hl => not_barrier_of_isAt apart h (by omega)).symm

/-! ## Nesting -/

/-- What a token adds to the number of open delimiters, which are not told apart. -/
def nesting : Kind → Int
  | .leftParen | .leftBracket | .leftBrace => 1
  | .rightParen | .rightBracket | .rightBrace => -1
  | _ => 0

/-- How many more delimiters the next `n` tokens from place `i` on open than they close. -/
def unclosed (input : Input) (i : Nat) : (n : Nat) → Int
  | 0 => 0
  | n + 1 => input.unclosed i n + nesting (input.kind (i + n))

theorem unclosed_succ (input : Input) (i n : Nat) :
    input.unclosed i (n + 1) = input.unclosed i n + nesting (input.kind (i + n)) := rfl

/-- There are `n` more tokens from place `i` on, and nowhere among them more delimiters are closed than
opened. -/
structure Passes (input : Input) (i n : Nat) : Prop where
  more : ∀ m < n, input.kind (i + m) ≠ .eof
  opened : ∀ m ≤ n, 0 ≤ input.unclosed i m

/-- The next `n` tokens from place `i` on come up to the end, or up to the first closing delimiter without an
opening one. -/
structure Skips (input : Input) (i n : Nat) : Prop extends Passes input i n where
  stop : input.kind (i + n) = .eof ∨ input.unclosed i (n + 1) < 0

theorem passes_zero (input : Input) (i : Nat) : input.Passes i 0 :=
  ⟨fun _ h => absurd h (Nat.not_lt_zero _), fun m h => by rw [Nat.le_zero.mp h]; exact Int.le_refl 0⟩

theorem Passes.succ {i n : Nat} (h : input.Passes i n) (more : input.kind (i + n) ≠ .eof)
    (opened : 0 ≤ input.unclosed i (n + 1)) : input.Passes i (n + 1) := by
  refine ⟨fun m hm => ?_, fun m hm => ?_⟩
  · rcases Nat.lt_succ_iff_lt_or_eq.mp hm with lt | rfl
    · exact h.more m lt
    · exact more
  · rcases Nat.le_succ_iff.mp hm with le | rfl
    · exact h.opened m le
    · exact opened

/-- Only one number of tokens is skipped from a place. -/
theorem Skips.unique {i n n' : Nat} (h : input.Skips i n) (h' : input.Skips i n') : n = n' := by
  have ge {n n' : Nat} (h : input.Skips i n) (h' : input.Skips i n') : n' ≤ n := by
    by_contra lt
    rcases h.stop with ends | closes
    · exact h'.more n (by omega) ends
    · exact absurd (h'.opened (n + 1) (by omega)) (by omega)
  exact Nat.le_antisymm (ge h' h) (ge h h')

end Input

end Verbatim
