import Mathlib.Data.List.TakeWhile
import Mathlib.Data.Nat.Digits.Defs
import Verbatim.Proofs.Lookahead
import Verbatim.Typed.Leaf

/-!
# Values of integers

The lexer takes an integer as the mark of its radix, a run of digits and a suffix. The value of the token is
read from its text alone: it is what the run says in the positional system, up to the first character that is
no digit of the radix. In a decimal or hexadecimal run there is none; in a binary or octal one the lexer lets
every decimal digit pass.
-/
namespace Verbatim

namespace Typed.Integer

/-- What the lexer marks a radix with. -/
def markOf : Nat → Text
  | 2 => ['0', 'b']
  | 8 => ['0', 'o']
  | 16 => ['0', 'x']
  | _ => []

/-- Digits of a radix, with underscores between them. -/
def isPart (radix : Nat) (c : Char) : Bool := c == '_' || (digit? radix c).isSome

/-- The number that a run of digits writes, the most significant first and underscores aside. A run without
digits writes none, nor does one with another character in it. -/
def numeral? (radix : Nat) (run : Text) : Option Nat :=
  (((run.filter (· != '_')).mapM (digit? radix)).filter (· ≠ [])).map (Nat.ofDigits radix ·.reverse)

theorem ofDigits_eq (radix : Nat) (ds : List Nat) : ofDigits radix ds = Nat.ofDigits radix ds.reverse := by
  rw [Nat.ofDigits_eq_foldr, List.foldr_reverse, ofDigits]
  congr 1
  funext n d
  rw [Nat.mul_comm, Nat.add_comm]
  rfl

theorem digit?_underscore (radix : Nat) : digit? radix '_' = none := rfl

theorem mapM_digits {radix : Nat} {run : Text} (parts : ∀ c ∈ run, isPart radix c = true) :
    (run.filter (· != '_')).mapM (digit? radix) = some (run.filterMap (digit? radix)) := by
  induction run with
  | nil => rfl
  | cons c run ih =>
    obtain ⟨first, parts⟩ := List.forall_mem_cons.mp parts
    have ih := ih parts
    by_cases underscore : c = '_'
    · subst underscore
      rw [List.filter_cons_of_neg (by decide), List.filterMap_cons_none (digit?_underscore radix)]
      exact ih
    · obtain ⟨d, digit⟩ := Option.isSome_iff_exists.mp (by simpa [isPart, underscore] using first)
      simp [underscore, digit, ih]

theorem numeral?_of_parts {radix : Nat} {run : Text} (parts : ∀ c ∈ run, isPart radix c = true) :
    numeral? radix run = if (run.filterMap (digit? radix)).isEmpty then none
      else some (ofDigits radix (run.filterMap (digit? radix))) := by
  rw [numeral?, mapM_digits parts, ofDigits_eq]
  cases run.filterMap (digit? radix) <;> simp

theorem mapM_eq_none {f : Char → Option Nat} {cs : List Char} {c : Char} (mem : c ∈ cs)
    (no_digit : f c = none) : cs.mapM f = none := by
  induction cs with
  | nil => cases mem
  | cons d cs ih =>
    rw [List.mapM_cons]
    rcases List.mem_cons.mp mem with rfl | mem
    · rw [no_digit]
      rfl
    · rw [ih mem]
      cases f d <;> rfl

theorem numeral?_of_foreign {radix : Nat} {run : Text} {c : Char} (mem : c ∈ run)
    (foreign : isPart radix c = false) : numeral? radix run = none := by
  obtain ⟨word, no_digit⟩ : c ≠ '_' ∧ digit? radix c = none := by simpa [isPart] using foreign
  have kept : c ∈ run.filter (· != '_') := List.mem_filter.mpr ⟨mem, bne_iff_ne.mpr word⟩
  rw [numeral?, mapM_eq_none kept no_digit]
  rfl

theorem value?_eq (t : Text) : value? t =
    (if (digits t).isEmpty then none else some (ofDigits (radix t) (digits t))).filter (· < 2 ^ 128) := by
  change (if ((digits t).isEmpty || decide (2 ^ 128 ≤ ofDigits (radix t) (digits t))) = true then none else
    some (ofDigits (radix t) (digits t))) = _
  generalize ofDigits (radix t) (digits t) = n
  generalize 2 ^ 128 = bound
  cases (digits t).isEmpty with
  | true => rfl
  | false =>
    by_cases small : n < bound
    · simp [Option.filter, small, Nat.not_le_of_lt small]
    · simp [Option.filter, small, Nat.le_of_not_lt small]

theorem radix_cases (t : Text) : radix t = 2 ∨ radix t = 8 ∨ radix t = 10 ∨ radix t = 16 := by
  unfold radix
  split <;> simp

theorem digit?_of_isDigit {c : Char} (h : c.isDigit = true) (radix : Nat) :
    ∃ d, d < 10 ∧ digit? radix c = (some d).filter (· < radix) := by
  refine ⟨c.toNat - '0'.toNat, ?_, by rw [digit?, h]; rfl⟩
  have last : c.toNat ≤ '9'.toNat := by
    simpa [Char.isDigit, UInt32.le_iff_toNat_le] using (Bool.and_eq_true_iff.mp h).2
  change c.toNat ≤ 57 at last
  change c.toNat - 48 < 10
  omega

theorem digit?_of_isHexLetter {c : Char} (no_digit : c.isDigit = false) (h : Number.isHexLetter c = true)
    (radix : Nat) : ∃ d, 10 ≤ d ∧ d < 16 ∧ digit? radix c = (some d).filter (· < radix) := by
  have bound (last : Char) (le : c ≤ last) : c.toNat ≤ last.toNat := UInt32.le_iff_toNat_le.mp le
  cases lower : decide ('a' ≤ c) && decide (c ≤ 'f') with
  | true =>
    refine ⟨c.toNat - 'a'.toNat + 10, Nat.le_add_left 10 _, ?_, by rw [digit?, no_digit, lower]; rfl⟩
    have last : c.toNat ≤ 102 := bound 'f' (by simpa using (Bool.and_eq_true_iff.mp lower).2)
    change c.toNat - 97 + 10 < 16
    omega
  | false =>
    have upper : (decide ('A' ≤ c) && decide (c ≤ 'F')) = true := by simpa [Number.isHexLetter, lower] using h
    refine ⟨c.toNat - 'A'.toNat + 10, Nat.le_add_left 10 _, ?_, by rw [digit?, no_digit, lower, upper]; rfl⟩
    have last : c.toNat ≤ 70 := bound 'F' (by simpa using (Bool.and_eq_true_iff.mp upper).2)
    change c.toNat - 65 + 10 < 16
    omega

theorem digit?_of_other {c : Char} (no_digit : c.isDigit = false) (h : Number.isHexLetter c = false)
    (radix : Nat) : digit? radix c = none := by
  rw [Number.isHexLetter, Bool.or_eq_false_iff] at h
  rw [digit?, no_digit, h.1, h.2]
  rfl

/-- The lexer takes the digits of every radix. -/
theorem isDigitPart_of_isPart {radix : Nat} (known : radix ≤ 10 ∨ radix = 16) {c : Char}
    (h : isPart radix c = true) : Number.isDigitPart (radix == 16) c = true := by
  cases digit : c.isDigit with
  | true => simp [Number.isDigitPart, digit]
  | false =>
    cases letter : Number.isHexLetter c with
    | false => simpa [isPart, digit?_of_other digit letter, Number.isDigitPart, digit, letter] using h
    | true =>
      obtain ⟨d, large, -, eq⟩ := digit?_of_isHexLetter digit letter radix
      rcases known with small | rfl
      · have foreign : ¬ d < radix := by omega
        have underscore : c = '_' := by simpa [isPart, eq, Option.filter, foreign] using h
        rw [underscore]
        rfl
      · simp [Number.isDigitPart, letter]

/-- Of decimal and hexadecimal digits the lexer takes no others. -/
theorem isPart_of_isDigitPart {radix : Nat} (known : radix = 10 ∨ radix = 16) {c : Char}
    (h : Number.isDigitPart (radix == 16) c = true) : isPart radix c = true := by
  cases digit : c.isDigit with
  | true =>
    obtain ⟨d, small, eq⟩ := digit?_of_isDigit digit radix
    have fits : d < radix := by omega
    simp [isPart, eq, Option.filter, fits]
  | false =>
    rcases known with rfl | rfl
    · have underscore : c = '_' := by simpa [Number.isDigitPart, digit] using h
      rw [underscore]
      rfl
    · cases letter : Number.isHexLetter c with
      | false =>
        have underscore : c = '_' := by simpa [Number.isDigitPart, digit, letter] using h
        rw [underscore]
        rfl
      | true =>
        obtain ⟨d, -, small, eq⟩ := digit?_of_isHexLetter digit letter 16
        simp [isPart, eq, Option.filter, small]

end Typed.Integer

namespace Number

open Piece Typed.Integer

theorem afterDigits_of_intNumber {t : Text} (int : (afterDigits t).1 = .intNumber) :
    afterDigits t = (.intNumber, nothing t) := by
  cases point : startsWithPoint t with
  | true =>
    obtain ⟨r, rfl, -⟩ := startsWithPoint_iff.mp point
    rw [afterDigits_point point] at int
    cases int
  | false =>
    cases h : exponent? t with
    | some p =>
      rw [afterDigits_exponent point h] at int
      cases int
    | none => exact afterDigits_integer point h

theorem decimal_of_intNumber {t : Text} (int : (decimal t).1 = .intNumber) :
    decimal t = (.intNumber, digits false t) := by
  rw [decimal_eq] at int ⊢
  rw [afterDigits_of_intNumber int]
  simp [digits, prepend, nothing, takeWhile]

/-- A run of digits goes as far as it can. -/
theorem digits_between (hex : Bool) (t : Text) : (∀ x ∈ (digits hex t).text, isDigitPart hex x = true) ∧
    ∀ x ∈ (digits hex t).rest.head?, isDigitPart hex x = false := by
  refine ⟨fun x mem => List.mem_takeWhile_imp mem, fun x mem => ?_⟩
  change x ∈ (t.dropWhile (isDigitPart hex)).head? at mem
  rw [← List.find?_not_eq_head?_dropWhile] at mem
  simpa using List.find?_some mem

/-- Without a mark, whatever is taken is read as decimal. -/
theorem radix_of_not_marked {c : Char} {u : Text} (h : isRadix c u = false) {p : Piece} (front : p.Spells u) :
    radix (c :: p.text) = 10 := by
  have still : isRadix c p.text = false := by
    cases text : p.text with
    | nil => rfl
    | cons r t =>
      rw [Piece.Spells, text] at front
      rwa [← front] at h
  unfold radix
  split <;> simp_all [isRadix]

/-- An integer of the lexer is a mark, a run of digits and a suffix that does not go on with the run. -/
theorem parts_of_scan {c : Char} {u : Text} (int : (scan c u).1 = .intNumber) (digit : c.isDigit = true)
    {text : Text} (spelled : text = c :: (scan c u).2.text) : ∃ run,
    c :: (magnitude c u).2.text = markOf (radix text) ++ run ∧
    text = markOf (radix text) ++ (run ++ (suffix (magnitude c u).2.rest).text) ∧
    (∀ x ∈ run, isDigitPart (radix text == 16) x = true) ∧
    ∀ x ∈ (magnitude c u).2.rest.head?, isDigitPart (radix text == 16) x = false := by
  subst spelled
  cases marked : isRadix c u with
  | true =>
    cases u with
    | nil => cases marked
    | cons r u =>
      simp only [isRadix, Bool.and_eq_true, Bool.or_eq_true, beq_iff_eq] at marked
      obtain ⟨rfl, (rfl | rfl) | rfl⟩ := marked
      · exact ⟨_, rfl, rfl, digits_between false u⟩
      · exact ⟨_, rfl, rfl, digits_between false u⟩
      · exact ⟨_, rfl, rfl, digits_between true u⟩
  | false =>
    rw [radix_of_not_marked marked (spells_scan c u)]
    rw [scan_eq, magnitude_decimal marked] at int ⊢
    rw [decimal_of_intNumber int]
    obtain ⟨inside, behind⟩ := digits_between false u
    exact ⟨c :: (digits false u).text, rfl, rfl,
      List.forall_mem_cons.mpr ⟨by simp [isDigitPart, digit], inside⟩, behind⟩

end Number

namespace Token

open Piece

theorem punctuation?_ne_intNumber (c : Char) : punctuation? c ≠ some .intNumber := by
  unfold punctuation?
  split <;> decide

theorem scanPlain_of_intNumber {c : Char} {t : Text} (int : (scanPlain c t).1 = .intNumber) :
    c.isDigit = true ∧ scanPlain c t = Number.scan c t := by
  unfold scanPlain at int ⊢
  split at int
  · exact absurd int (wordKind_cases (P := (· ≠ .intNumber)) (by decide) (by decide) (by decide) _)
  · next word =>
    split at int
    · next digit => exact ⟨digit, by rw [if_neg word, if_pos digit]⟩
    · split at int
      · unfold lifetimeOrCharacter at int
        split at int
        · split at int <;> cases int
        · cases int
      · split at int
        · cases int
        · split at int
          · next known => exact absurd int (fun eq => punctuation?_ne_intNumber c (eq ▸ known))
          · cases int

theorem scan_of_intNumber {c : Char} {t : Text} (int : (scan c t).1 = .intNumber) :
    c.isDigit = true ∧ scan c t = Number.scan c t := by
  by_cases blank : Text.isBlank c = true
  · unfold scan at int
    rw [if_pos blank] at int
    cases int
  · cases marked : isMarked c t with
    | false =>
      rw [scan_of_not_marked (Bool.eq_false_iff.mpr blank) marked] at int ⊢
      exact scanPlain_of_intNumber int
    | true =>
      unfold isMarked at marked
      unfold scan at int
      rw [if_neg blank] at int
      split at marked
      case h_4 r =>
        change (if Number.startsWithWord r then (Kind.ident, _) else (Kind.string, _)).1 = _ at int
        split at int <;> cases int
      case h_9 => cases marked
      all_goals cases int

/-- Where a token stands in its text, and that the lexer takes it there. -/
theorem scan_at_of_mem {n : Nat} {t : Text} {tok : Token} (h : tok ∈ listFrom n t) (no_end : tok.kind ≠ .eof) :
    ∃ before c u, t = before ++ c :: u ∧ tok.offset = n + Text.size before ∧ tok.kind = (scan c u).1 ∧
      tok.text = c :: (scan c u).2.text := by
  fun_induction listFrom n t with
  | case1 offset =>
    obtain rfl := List.mem_singleton.mp h
    exact absurd rfl no_end
  | case2 offset c t scanned text ih =>
    rcases List.mem_cons.mp h with rfl | h
    · exact ⟨[], c, t, rfl, rfl, rfl, rfl⟩
    · obtain ⟨before, d, u, rest, place, kind, spelled⟩ := ih h
      refine ⟨text ++ before, d, u, ?_, by rw [place, Text.size_append, Nat.add_assoc], kind, spelled⟩
      rw [List.append_assoc, ← rest]
      exact congrArg (c :: ·) (spells_scan c t).symm

end Token

namespace Typed.Integer

/-- The value of a text that consists of a mark, a run and something that does not go on with the run. -/
theorem value?_of_parts {text run suffix : Text} (spelled : text = markOf (radix text) ++ (run ++ suffix))
    (behind : ∀ x ∈ suffix.head?, isPart (radix text) x = false) :
    value? text = (numeral? (radix text) (run.takeWhile (isPart (radix text)))).filter (· < 2 ^ 128) := by
  have front : (run ++ suffix).takeWhile (isPart (radix text)) = run.takeWhile (isPart (radix text)) := by
    cases suffix with
    | nil => rw [List.append_nil]
    | cons c suffix => exact congrArg Piece.text (Piece.takeWhile_border suffix (behind c rfl) run)
  have unmarked : (if radix text = 10 then text else text.drop 2) = run ++ suffix := by
    have known := radix_cases text
    generalize radix text = r at spelled known
    rw [spelled]
    rcases known with rfl | rfl | rfl | rfl <;> rfl
  have written : digits text = (run.takeWhile (isPart (radix text))).filterMap (digit? (radix text)) := by
    rw [digits, unmarked]
    exact congrArg _ front
  rw [value?_eq, written, numeral?_of_parts fun x mem => List.mem_takeWhile_imp mem]

/-- What a run writes up to its first foreign digit is what all of it writes, or nothing, unless there is one. -/
theorem whole_iff {radix : Nat} {run : Text} {value : Option Nat} {small : Nat → Bool}
    (read : value = (numeral? radix (run.takeWhile (isPart radix))).filter small) :
    value = (numeral? radix run).filter small ↔ (∀ c ∈ run, isPart radix c = true) ∨ value = none := by
  by_cases parts : ∀ c ∈ run, isPart radix c = true
  · rw [List.takeWhile_eq_self_iff.mpr parts] at read
    exact ⟨fun _ => .inl parts, fun _ => read⟩
  · obtain ⟨c, mem, foreign⟩ : ∃ c ∈ run, isPart radix c = false := by simpa using parts
    rw [numeral?_of_foreign mem foreign, or_iff_right parts]
    rfl

/-- Each integer token of a text is a mark, the run of digits that the lexer took behind it, and a suffix. Its
value is what the run writes up to its first foreign digit, if that is below the bound; so it is what the whole run
writes, unless there is a foreign digit behind such a value. Only binary and octal runs have foreign digits. -/
theorem value?_of_mem {t : Text} {tok : Token} (mem : tok ∈ Token.list t) (int : tok.kind = .intNumber) :
    ∃ before first u run suffix, t = before ++ first :: u ∧ tok.offset = Text.size before ∧
      first :: (Number.magnitude first u).2.text = markOf (radix tok.text) ++ run ∧
      tok.text = markOf (radix tok.text) ++ (run ++ suffix) ∧
      value? tok.text =
        (numeral? (radix tok.text) (run.takeWhile (isPart (radix tok.text)))).filter (· < 2 ^ 128) ∧
      (value? tok.text = (numeral? (radix tok.text) run).filter (· < 2 ^ 128) ↔
        (∀ c ∈ run, isPart (radix tok.text) c = true) ∨ value? tok.text = none) ∧
      (radix tok.text = 10 ∨ radix tok.text = 16 → ∀ c ∈ run, isPart (radix tok.text) c = true) := by
  obtain ⟨before, first, u, whole, place, kind, spelled⟩ :=
    Token.scan_at_of_mem mem (by rw [int]; decide)
  obtain ⟨digit, number⟩ := Token.scan_of_intNumber (kind.symm.trans int)
  rw [number] at kind spelled
  obtain ⟨run, magnitude, parts, inside, behind⟩ := Number.parts_of_scan (kind.symm.trans int) digit spelled
  have known := radix_cases tok.text
  have ends : ∀ x ∈ (Number.suffix (Number.magnitude first u).2.rest).text.head?,
      isPart (radix tok.text) x = false := by
    intro x head
    obtain ⟨t, eq⟩ := List.head?_eq_some_iff.mp head
    have front := Number.spells_suffix (Number.magnitude first u).2.rest
    rw [Piece.Spells, eq] at front
    refine Bool.eq_false_iff.mpr fun part => ?_
    have digit := isDigitPart_of_isPart (by omega) part
    rw [behind x (by rw [← front]; rfl)] at digit
    cases digit
  have value := value?_of_parts parts ends
  refine ⟨before, first, u, run, _, whole, by rw [place, Nat.zero_add], magnitude, parts, value, whole_iff value,
    fun exact c mem => isPart_of_isDigitPart exact (inside c mem)⟩

/-- The lexer takes a binary literal with a foreign digit in it, and its value ends in front of that. -/
example : (Token.list "0b12".toList).head?.map (fun tok => (tok.kind, tok.text, value? tok.text)) =
    some (.intNumber, "0b12".toList, some 1) ∧ numeral? 2 "12".toList = none := by
  decide +kernel

end Typed.Integer

end Verbatim
