import Verbatim.Proofs.Lexing

/-!
# Characters that end a token

A line break and a brace are part of no word and of no number, and no rule of the lexer looks past one in
order to choose. So what is taken in front of such a character does not depend on what stands behind it, and
where a token starts with a brace the tokens in front of it are the same whatever follows.
-/
namespace Verbatim

/-- Characters at which words, numbers and marks end. -/
def Text.IsBorder (b : Char) : Prop := b = '\n' ∨ b = '{' ∨ b = '}'

theorem Text.IsBorder.ne {b c : Char} (hb : IsBorder b) (hc : c ∉ ['\n', '{', '}']) : b ≠ c := by
  rintro rfl
  rcases hb with rfl | rfl | rfl <;> simp at hc

namespace Piece

/-- The same piece with more text behind it. -/
def followed (p : Piece) (tail : Text) : Piece := { p with rest := p.rest ++ tail }

@[simp] theorem followed_text (p : Piece) (tail : Text) : (p.followed tail).text = p.text := rfl

@[simp] theorem followed_rest (p : Piece) (tail : Text) : (p.followed tail).rest = p.rest ++ tail := rfl

@[simp] theorem followed_fault (p : Piece) (tail : Text) : (p.followed tail).fault = p.fault := rfl

theorem followed_prepend (p : Piece) (front tail : Text) :
    (p.prepend front).followed tail = (p.followed tail).prepend front := rfl

variable {b : Char} (u : Text)

theorem takeWhile_border {f : Char → Bool} (h : f b = false) (t : Text) :
    takeWhile f (t ++ b :: u) = (takeWhile f t).followed (b :: u) := by
  induction t with
  | nil => simp [takeWhile, followed, h]
  | cons c t ih =>
    simp only [takeWhile, followed, Piece.mk.injEq] at ih
    by_cases hc : f c = true
    · simp [takeWhile, followed, hc, ih]
    · simp [takeWhile, followed, hc]

theorem word_border (hb : Text.IsBorder b) (t : Text) :
    word (t ++ b :: u) = (word t).followed (b :: u) :=
  takeWhile_border u (by rcases hb with rfl | rfl | rfl <;> decide +kernel) t

end Piece

namespace Number

open Piece

variable {b : Char} (hb : Text.IsBorder b) (u : Text)

include hb

theorem digits_border (hex : Bool) (t : Text) :
    digits hex (t ++ b :: u) = (digits hex t).followed (b :: u) :=
  takeWhile_border u (by rcases hb with rfl | rfl | rfl <;> cases hex <;> decide) t

theorem startsWithDigit_border (t : Text) :
    startsWithDigit (t ++ b :: u) = startsWithDigit t := by
  cases t with
  | nil => rcases hb with rfl | rfl | rfl <;> rfl
  | cons c t => rfl

theorem startsWithWord_border (t : Text) : startsWithWord (t ++ b :: u) = startsWithWord t := by
  cases t with
  | nil =>
    change Text.isWordStart b = false
    rcases hb with rfl | rfl | rfl <;> decide +kernel
  | cons c t => rfl

theorem startsWithPoint_border (t : Text) :
    startsWithPoint (t ++ b :: u) = startsWithPoint t := by
  have word := startsWithWord_border hb u
  have no_point : b ≠ '.' := hb.ne (by decide)
  rcases t with _ | ⟨c, _ | ⟨d, t⟩⟩
  · simp [startsWithPoint, no_point]
  · by_cases hc : c = '.'
    · subst hc
      have := word []
      simp_all [startsWithPoint]
    · simp [startsWithPoint, hc]
  · by_cases hc : c = '.'
    · subst hc
      by_cases hd : d = '.'
      · simp [startsWithPoint, hd]
      · have := word (d :: t)
        simp_all [startsWithPoint]
    · simp [startsWithPoint, hc]

theorem exponent?_border (t : Text) :
    exponent? (t ++ b :: u) = (exponent? t).map (·.followed (b :: u)) := by
  have digit (t : Text) (front : Text) :
      (if startsWithDigit (t ++ b :: u) then
        some ((digits false (t ++ b :: u)).prepend front) else none) =
      (if startsWithDigit t then some ((digits false t).prepend front) else none).map
        (·.followed (b :: u)) := by
    rw [startsWithDigit_border hb, digits_border hb]
    split <;> rfl
  have no_plus : b ≠ '+' := hb.ne (by decide)
  have no_minus : b ≠ '-' := hb.ne (by decide)
  cases t with
  | nil =>
    have small : b ≠ 'e' := hb.ne (by decide)
    have large : b ≠ 'E' := hb.ne (by decide)
    simp [exponent?, small, large]
  | cons e t =>
    by_cases he : (e == 'e' || e == 'E') = true
    · have plain {r : Text} (plus : ∀ r', r ≠ '+' :: r') (minus : ∀ r', r ≠ '-' :: r') :
          exponent? (e :: r) =
            if startsWithDigit r then some ((digits false r).prepend [e]) else none := by
        rw [exponent?, if_pos he]
        · exact fun r' h => plus r' h
        · exact fun r' h => minus r' h
      rcases t with _ | ⟨c, t⟩
      · rw [List.cons_append, List.nil_append, plain (by simp [no_plus]) (by simp [no_minus]),
          plain (by simp) (by simp)]
        exact digit [] [e]
      by_cases plus : c = '+'
      · subst plus
        simpa [exponent?, he] using digit t [e, '+']
      by_cases minus : c = '-'
      · subst minus
        simpa [exponent?, he] using digit t [e, '-']
      · rw [List.cons_append, List.cons_append, plain (by simp [plus]) (by simp [minus]),
          plain (by simp [plus]) (by simp [minus])]
        exact digit (c :: t) [e]
    · simp [exponent?, he]

theorem fraction_border (t : Text) :
    fraction (t ++ b :: u) = (fraction t).followed (b :: u) := by
  rw [fraction, fraction, startsWithDigit_border hb]
  split
  · simp only [andThen, digits_border hb, followed_rest, followed_text, exponent?_border hb]
    cases exponent? (digits false t).rest <;> rfl
  · rfl

theorem afterDigits_border (t : Text) :
    afterDigits (t ++ b :: u) = ((afterDigits t).1, (afterDigits t).2.followed (b :: u)) := by
  rw [afterDigits, afterDigits, startsWithPoint_border hb]
  split
  · next h =>
    cases t with
    | nil => exact absurd h (by simp [startsWithPoint])
    | cons c t =>
      rw [List.cons_append, List.drop_one, List.drop_one, List.tail_cons, List.tail_cons,
        fraction_border hb]
      rfl
  · rw [exponent?_border hb]
    cases exponent? t <;> rfl

theorem decimal_border (t : Text) :
    decimal (t ++ b :: u) = ((decimal t).1, (decimal t).2.followed (b :: u)) := by
  simp only [decimal, digits_border hb, followed_rest, followed_text, afterDigits_border hb]
  rfl

theorem magnitude_border (first : Char) (t : Text) :
    magnitude first (t ++ b :: u) = ((magnitude first t).1, (magnitude first t).2.followed (b :: u)) := by
  cases t with
  | nil =>
    have all := decimal_border hb u []
    have binary : b ≠ 'b' := hb.ne (by decide)
    have octal : b ≠ 'o' := hb.ne (by decide)
    have hexadecimal : b ≠ 'x' := hb.ne (by decide)
    simpa [magnitude, binary, octal, hexadecimal] using all
  | cons r t =>
    have all := decimal_border hb u (r :: t)
    rw [List.cons_append] at all ⊢
    rw [magnitude, magnitude]
    split
    · rw [digits_border hb, followed_prepend]
    split
    · rw [digits_border hb, followed_prepend]
    · exact all

theorem suffix_border (t : Text) : suffix (t ++ b :: u) = (suffix t).followed (b :: u) := by
  rw [suffix, suffix, startsWithWord_border hb]
  split
  · exact word_border u hb t
  · rfl

theorem scan_border (first : Char) (t : Text) :
    scan first (t ++ b :: u) = ((scan first t).1, (scan first t).2.followed (b :: u)) := by
  simp only [scan, magnitude_border hb, andThen, followed_rest, suffix_border hb]
  rfl

end Number

/-! ## Rules that may take a brace -/

namespace Piece

/-- The same piece with another rest. -/
def leaving (p : Piece) (rest : Text) : Piece := { p with rest }

/-- What a rule takes in front of `b` does not depend on what is behind it. -/
def Bounded (b : Char) (rule : Text → Piece) : Prop := ∀ t r u v : Text,
  (rule (t ++ b :: u)).rest = r ++ b :: u →
    rule (t ++ b :: v) = (rule (t ++ b :: u)).leaving (r ++ b :: v)

variable {b : Char}

/-- A rule that never takes `b`. -/
theorem bounded_of_followed {rule : Text → Piece}
    (h : ∀ u t, rule (t ++ b :: u) = (rule t).followed (b :: u)) : Bounded b rule := by
  intro t r u v ends
  rw [h, followed_rest] at ends
  rw [h, h, ← List.append_cancel_right ends]
  rfl

theorem Bounded.prepend {rule : Text → Piece} (h : Bounded b rule) (front : Text) :
    Bounded b fun t => (rule t).prepend front := by
  intro t r u v ends
  change (rule (t ++ b :: v)).prepend front = _
  rw [h t r u v ends]
  rfl

/-- Nothing that takes all of `b :: u` leaves it to others. -/
theorem not_ends_of_length {p : Piece} {r u : Text} (short : p.rest.length ≤ u.length) :
    p.rest ≠ r ++ b :: u := fun ends => by
  have length := congrArg List.length ends
  simp only [List.length_append, List.length_cons] at length
  omega

theorem bounded_takeWhile (f : Char → Bool) : Bounded b (takeWhile f) := by
  by_cases hb : f b = true
  · intro t r u v
    induction t with
    | nil =>
      intro ends
      refine absurd ends (not_ends_of_length ?_)
      simpa [takeWhile, hb] using (List.dropWhile_suffix f (l := u)).length_le
    | cons c t ih =>
      intro ends
      by_cases hc : f c = true
      · have rest : (takeWhile f (t ++ b :: u)).rest = r ++ b :: u := by
          simpa [takeWhile, hc] using ends
        have same := ih rest
        simp only [takeWhile, leaving, Piece.mk.injEq, and_true] at same
        simp [takeWhile, leaving, hc, same]
      · obtain rfl : c :: t = r := List.append_cancel_right (by simpa [takeWhile, hc] using ends)
        simp [takeWhile, leaving, hc]
  · exact bounded_of_followed fun u => takeWhile_border u (by simpa using hb)

theorem bounded_blockComment (depth : Nat) (slash : b ≠ '/') (star : b ≠ '*') :
    Bounded b (blockComment depth) := by
  intro t r u v ends
  generalize hn : t.length = n
  induction n using Nat.strongRecOn generalizing depth t with
  | _ n ih =>
  cases depth with
  | zero =>
    rw [blockComment] at ends
    obtain rfl : t = r := List.append_cancel_right ends
    rw [blockComment, blockComment]
    rfl
  | succ depth =>
    rcases t with _ | ⟨c, _ | ⟨d, t⟩⟩
    · refine absurd ends (not_ends_of_length ?_)
      rw [List.nil_append, blockComment]
      · exact length_rest_blockComment _ u
      · exact fun _ h => absurd h slash
      · exact fun _ h => absurd h star
    · have single (w : Text) : blockComment (depth + 1) ([c] ++ b :: w) =
          (blockComment (depth + 1) (b :: w)).prepend [c] := by
        rw [List.singleton_append, blockComment]
        · exact fun _ _ h => star (List.cons.inj h).1
        · exact fun _ _ h => slash (List.cons.inj h).1
      rw [single] at ends
      have rest := ih 0 (by simp at hn; omega) (depth + 1) [] ends rfl
      rw [List.nil_append, List.nil_append] at rest
      rw [single, single, rest]
      rfl
    · by_cases opens : c = '/' ∧ d = '*'
      · obtain ⟨rfl, rfl⟩ := opens
        have opening (w : Text) : blockComment (depth + 1) ('/' :: '*' :: t ++ b :: w) =
            (blockComment (depth + 2) (t ++ b :: w)).prepend ['/', '*'] := by
          rw [List.cons_append, List.cons_append, blockComment]
        rw [opening] at ends
        rw [opening, opening, ih t.length (by simp at hn; omega) (depth + 2) t ends rfl]
        rfl
      by_cases closes : c = '*' ∧ d = '/'
      · obtain ⟨rfl, rfl⟩ := closes
        have closing (w : Text) : blockComment (depth + 1) ('*' :: '/' :: t ++ b :: w) =
            (blockComment depth (t ++ b :: w)).prepend ['*', '/'] := by
          rw [List.cons_append, List.cons_append, blockComment]
        rw [closing] at ends
        rw [closing, closing, ih t.length (by simp at hn; omega) depth t ends rfl]
        rfl
      have single (w : Text) : blockComment (depth + 1) (c :: d :: t ++ b :: w) =
          (blockComment (depth + 1) (d :: t ++ b :: w)).prepend [c] := by
        rw [List.cons_append, blockComment]
        · rintro _ rfl h
          exact opens ⟨rfl, (List.cons.inj h).1⟩
        · rintro _ rfl h
          exact closes ⟨rfl, (List.cons.inj h).1⟩
      rw [single] at ends
      rw [single, single, ih (d :: t).length (by simp at hn ⊢; omega) (depth + 1) (d :: t) ends rfl]
      rfl

theorem bounded_literal (quote : Char) (what : Delimited) (not_quote : b ≠ quote) (backslash : b ≠ '\\')
    (line : b ≠ '\n') : Bounded b (literal quote what) := by
  intro t r u v ends
  have plain {c : Char} {w : Text} (hc : c ≠ '\\') : literal quote what (c :: w) =
      if c == quote then ⟨[c], w, none⟩
      else if c == '\n' && quote == '\'' then ⟨[c], w, some (.unterminated what)⟩
      else (literal quote what w).prepend [c] := by
    rw [literal]
    · exact fun h => absurd h hc
    · exact fun _ _ h => absurd h hc
  generalize hn : t.length = n
  induction n using Nat.strongRecOn generalizing t with
  | _ n ih =>
  rcases t with _ | ⟨c, t⟩
  · refine absurd ends (not_ends_of_length ?_)
    rw [List.nil_append, plain backslash]
    simpa [not_quote, line, prepend] using length_rest_literal quote what u
  by_cases hc : c = '\\'
  · subst hc
    rcases t with _ | ⟨d, t⟩
    · refine absurd ends (not_ends_of_length ?_)
      exact length_rest_literal quote what u
    · change ((literal quote what (t ++ b :: u)).prepend ['\\', d]).rest = _ at ends
      change (literal quote what (t ++ b :: v)).prepend ['\\', d] =
        ((literal quote what (t ++ b :: u)).prepend ['\\', d]).leaving (r ++ b :: v)
      rw [ih t.length (by simp at hn; omega) t ends rfl]
      rfl
  · rw [List.cons_append, plain hc] at ends
    rw [List.cons_append, List.cons_append, plain hc, plain hc]
    split at ends
    · obtain rfl : t = r := List.append_cancel_right ends
      simp_all [leaving]
    split at ends
    · obtain rfl : t = r := List.append_cancel_right ends
      simp_all [leaving]
    · next no_quote no_line =>
      rw [if_neg no_quote, if_neg no_line, if_neg no_quote, if_neg no_line,
        ih t.length (by simp at hn; omega) t ends rfl]
      rfl

theorem startsWith_append {fence t w : Text} (le : fence.length ≤ t.length) :
    Text.startsWith (t ++ w) fence = Text.startsWith t fence := by
  rw [Bool.eq_iff_iff, Text.startsWith, Text.startsWith, List.isPrefixOf_iff_prefix,
    List.isPrefixOf_iff_prefix]
  exact ⟨fun h => List.prefix_of_prefix_length_le h (List.prefix_append _ _) le,
    fun h => h.trans (List.prefix_append _ _)⟩

/-- A fence without `b` does not reach over it. -/
theorem startsWith_border {fence : Text} (hf : b ∉ fence) (t w : Text) :
    Text.startsWith (t ++ b :: w) fence = Text.startsWith t fence := by
  rcases Nat.lt_or_ge t.length fence.length with longer | within
  · have left : Text.startsWith t fence = false := by
      rw [Text.startsWith, ← Bool.not_eq_true, List.isPrefixOf_iff_prefix]
      exact fun h => absurd h.length_le (Nat.not_le.mpr longer)
    rw [left, Text.startsWith, ← Bool.not_eq_true, List.isPrefixOf_iff_prefix]
    refine fun h => hf ?_
    obtain ⟨n, hn⟩ : ∃ n, fence.length = t.length + (n + 1) := ⟨fence.length - t.length - 1, by omega⟩
    rw [List.prefix_iff_eq_take.mp h, hn, List.take_length_add_append]
    simp
  · exact startsWith_append within

theorem bounded_rawBody {fence : Text} (hf : b ∉ fence) (quote : b ≠ '"') :
    Bounded b (rawBody fence) := by
  intro t r u v
  induction t with
  | nil =>
    intro ends
    refine absurd ends (not_ends_of_length ?_)
    rw [List.nil_append, rawBody]
    simpa [quote, prepend] using length_rest_rawBody fence u
  | cons c t ih =>
    intro ends
    rw [List.cons_append, rawBody, startsWith_border hf] at ends
    rw [List.cons_append, List.cons_append, rawBody, rawBody, startsWith_border hf, startsWith_border hf]
    split at ends
    · next closes =>
      have le : fence.length ≤ t.length := by
        rw [Bool.and_eq_true, Text.startsWith, List.isPrefixOf_iff_prefix] at closes
        exact closes.2.length_le
      rw [List.drop_append_of_le_length le] at ends
      rw [if_pos closes, if_pos closes, List.drop_append_of_le_length le,
        ← List.append_cancel_right ends]
      rfl
    · next goes_on =>
      rw [if_neg goes_on, if_neg goes_on, ih ends]
      rfl

theorem bounded_rawString (quote : b ≠ '"') (hash : b ≠ '#') : Bounded b rawString := by
  intro t r u v ends
  have parts (w : Text) := takeWhile_border w (f := (· == '#')) (b := b) (by simpa using hash) t
  simp only [takeWhile, followed, Piece.mk.injEq, and_true] at parts
  unfold rawString at ends ⊢
  rw [(parts u).1, (parts u).2] at ends
  rw [(parts u).1, (parts u).2, (parts v).1, (parts v).2]
  cases hd : t.dropWhile (· == '#') with
  | nil =>
    rw [hd] at ends
    simp only [List.nil_append] at ends ⊢
    have rest : [] = r := (List.append_left_inj (b :: u)).mp (by simpa [quote] using ends)
    simp [quote, leaving, ← rest]
  | cons c body =>
    rw [hd] at ends
    by_cases hc : c = '"'
    · subst hc
      have fence : b ∉ t.takeWhile (· == '#') := fun hm => by
        have := List.all_eq_true.mp List.all_takeWhile _ hm
        exact hash (by simpa using this)
      simp only [List.cons_append] at ends ⊢
      rw [bounded_rawBody fence quote body r u v ends]
      rfl
    · have rest : c :: body = r := (List.append_left_inj (b :: u)).mp (by simpa [hc] using ends)
      simp [hc, leaving, ← rest]

end Piece

namespace Token

open Piece

/-- Whether the characters behind the first one select the rule for a token. -/
def isMarked : Char → Text → Bool
  | '/', '/' :: _ | '/', '*' :: _ | 'r', '"' :: _ | 'r', '#' :: _ | 'b', '\'' :: _ | 'b', '"' :: _
  | 'b', 'r' :: '"' :: _ | 'b', 'r' :: '#' :: _ => true
  | _, _ => false

theorem isMarked_border {b : Char} (hb : Text.IsBorder b) (c : Char) (t u : Text) :
    isMarked c (t ++ b :: u) = isMarked c t := by
  have slash : b ≠ '/' := hb.ne (by decide)
  have star : b ≠ '*' := hb.ne (by decide)
  have hash : b ≠ '#' := hb.ne (by decide)
  have quote : b ≠ '"' := hb.ne (by decide)
  have mark : b ≠ '\'' := hb.ne (by decide)
  have raw : b ≠ 'r' := hb.ne (by decide)
  rcases t with _ | ⟨d, _ | ⟨e, t⟩⟩
  · unfold isMarked
    split <;> simp_all
  · unfold isMarked
    split <;> split <;> simp_all
  · rw [List.cons_append, List.cons_append]
    unfold isMarked
    split <;> split <;> simp_all

theorem scan_of_not_marked {c : Char} {t : Text} (blank : Text.isBlank c = false)
    (h : isMarked c t = false) : scan c t = scanPlain c t := by
  unfold scan
  rw [if_neg (by simp [blank])]
  split <;> first | rfl | simp [isMarked] at h

variable {b : Char}

/-- The same for a rule that also tells a kind. -/
def Bounded (b : Char) (rule : Text → Kind × Piece) : Prop := ∀ t r u v : Text,
  (rule (t ++ b :: u)).2.rest = r ++ b :: u →
    rule (t ++ b :: v) = ((rule (t ++ b :: u)).1, (rule (t ++ b :: u)).2.leaving (r ++ b :: v))

theorem Bounded.of_piece {k : Kind} {rule : Text → Piece} (h : Piece.Bounded b rule) :
    Bounded b fun t => (k, rule t) := fun t r u v ends => congrArg (k, ·) (h t r u v ends)

theorem bounded_lifetimeOrCharacter (brace : b = '{' ∨ b = '}') : Bounded b lifetimeOrCharacter := by
  have hb : Text.IsBorder b := .inr brace
  have literal : Piece.Bounded b (.literal '\'' .character) :=
    bounded_literal _ _ (hb.ne (by decide)) (hb.ne (by decide)) (by rcases brace with rfl | rfl <;> decide)
  have character := Bounded.of_piece (k := .char) literal
  rintro (_ | ⟨c, t⟩) r u v ends
  · have plain (w : Text) : lifetimeOrCharacter ([] ++ b :: w) = (.char, .literal '\'' .character ([] ++ b :: w)) := by
      have no_word : Text.isWordStart b = false := by rcases brace with rfl | rfl <;> decide +kernel
      simp [lifetimeOrCharacter, no_word]
    rw [plain] at ends
    rw [plain, plain]
    exact character [] r u v ends
  · have quote (w : Text) : (t ++ b :: w).head? != some '\'' ↔ t.head? != some '\'' := by
      have mark : b ≠ '\'' := hb.ne (by decide)
      cases t <;> simp [mark]
    have choice (w : Text) : lifetimeOrCharacter (c :: t ++ b :: w) =
        if Text.isWordStart c && t.head? != some '\'' then (.lifetimeIdent, .word (c :: t ++ b :: w))
        else (.char, .literal '\'' .character (c :: t ++ b :: w)) := by
      simp only [List.cons_append, lifetimeOrCharacter, Bool.and_eq_true, quote]
    rw [choice] at ends
    rw [choice, choice]
    split
    · next word =>
      rw [if_pos word] at ends
      exact Bounded.of_piece (bounded_takeWhile _) (c :: t) r u v ends
    · next no_word =>
      rw [if_neg no_word] at ends
      exact character (c :: t) r u v ends

theorem bounded_scanPlain (brace : b = '{' ∨ b = '}') (c : Char) : Bounded b (scanPlain c) := by
  have hb : Text.IsBorder b := .inr brace
  intro t r u v ends
  unfold scanPlain at ends ⊢
  split
  · next word =>
    rw [if_pos word] at ends
    simp only [word_border _ hb, followed_text, followed_rest] at ends ⊢
    rw [← List.append_cancel_right ends]
    rfl
  next no_word =>
  rw [if_neg no_word] at ends
  split
  · next digit =>
    rw [if_pos digit, Number.scan_border hb, followed_rest] at ends
    rw [Number.scan_border hb, Number.scan_border hb, ← List.append_cancel_right ends]
    rfl
  next no_digit =>
  rw [if_neg no_digit] at ends
  split
  · next quote =>
    rw [if_pos quote] at ends
    exact bounded_lifetimeOrCharacter brace t r u v ends
  next no_quote =>
  rw [if_neg no_quote] at ends
  split
  · next quote =>
    rw [if_pos quote] at ends
    exact Bounded.of_piece (bounded_literal _ _ (hb.ne (by decide)) (hb.ne (by decide))
      (by rcases brace with rfl | rfl <;> decide)) t r u v ends
  next no_string =>
  rw [if_neg no_string] at ends
  split
  · next known =>
    simp only [known] at ends
    rw [← List.append_cancel_right (show t ++ b :: u = r ++ b :: u from ends)]
    rfl
  · next unknown =>
    simp only [unknown] at ends
    rw [← List.append_cancel_right (show t ++ b :: u = r ++ b :: u from ends)]
    rfl

/-- What a token takes in front of a brace does not depend on what is behind the brace. -/
theorem bounded_scan (brace : b = '{' ∨ b = '}') (c : Char) : Bounded b (scan c) := by
  have hb : Text.IsBorder b := .inr brace
  have line : b ≠ '\n' := by rcases brace with rfl | rfl <;> decide
  have quote : b ≠ '"' := hb.ne (by decide)
  have mark : b ≠ '\'' := hb.ne (by decide)
  have backslash : b ≠ '\\' := hb.ne (by decide)
  have raw := bounded_rawString (b := b) quote (hb.ne (by decide))
  have no_blank : Text.isBlank b = false := by rcases brace with rfl | rfl <;> decide +kernel
  intro t r u v ends
  by_cases blank : Text.isBlank c = true
  · unfold scan at ends ⊢
    rw [if_pos blank] at ends
    rw [if_pos blank, if_pos blank]
    exact Bounded.of_piece (bounded_takeWhile _) t r u v ends
  rw [Bool.not_eq_true] at blank
  by_cases marked : isMarked c t = true
  · unfold isMarked at marked
    unfold scan at ends ⊢
    rw [if_neg (by simp [blank])] at ends
    rw [if_neg (by simp [blank]), if_neg (by simp [blank])]
    split at marked
    · exact Bounded.of_piece (bounded_takeWhile _) ('/' :: _) r u v ends
    · exact Bounded.of_piece ((bounded_blockComment 1 (hb.ne (by decide)) (hb.ne (by decide))).prepend
        ['*']) _ r u v ends
    · exact Bounded.of_piece raw ('"' :: _) r u v ends
    · next t =>
      have choice (w : Text) : (if Number.startsWithWord (t ++ b :: w) then
            (Kind.ident, (word (t ++ b :: w)).prepend ['#'])
          else (Kind.string, rawString ('#' :: t ++ b :: w))) =
          if Number.startsWithWord t then (Kind.ident, (word (t ++ b :: w)).prepend ['#'])
          else (Kind.string, rawString ('#' :: t ++ b :: w)) := by
        rw [Number.startsWithWord_border hb]
      change (if Number.startsWithWord (t ++ b :: u) then
            (Kind.ident, (word (t ++ b :: u)).prepend ['#'])
          else (Kind.string, rawString ('#' :: t ++ b :: u))).2.rest = _ at ends
      change (if Number.startsWithWord (t ++ b :: v) then
            (Kind.ident, (word (t ++ b :: v)).prepend ['#'])
          else (Kind.string, rawString ('#' :: t ++ b :: v))) =
        ((if Number.startsWithWord (t ++ b :: u) then
            (Kind.ident, (word (t ++ b :: u)).prepend ['#'])
          else (Kind.string, rawString ('#' :: t ++ b :: u))).1,
          (if Number.startsWithWord (t ++ b :: u) then
            (Kind.ident, (word (t ++ b :: u)).prepend ['#'])
          else (Kind.string, rawString ('#' :: t ++ b :: u))).2.leaving (r ++ b :: v))
      rw [choice] at ends
      rw [choice, choice]
      split
      · next starts =>
        rw [if_pos starts] at ends
        exact Bounded.of_piece ((bounded_takeWhile _).prepend ['#']) t r u v ends
      · next starts =>
        rw [if_neg starts] at ends
        exact Bounded.of_piece raw ('#' :: t) r u v ends
    · exact Bounded.of_piece ((bounded_literal _ _ mark backslash line).prepend ['\'']) _ r u v ends
    · exact Bounded.of_piece ((bounded_literal _ _ quote backslash line).prepend ['"']) _ r u v ends
    · exact Bounded.of_piece (raw.prepend ['r']) ('"' :: _) r u v ends
    · exact Bounded.of_piece (raw.prepend ['r']) ('#' :: _) r u v ends
    · contradiction
  · rw [Bool.not_eq_true] at marked
    have plain (w : Text) : scan c (t ++ b :: w) = scanPlain c (t ++ b :: w) :=
      scan_of_not_marked blank (by rwa [isMarked_border hb])
    rw [plain] at ends
    rw [plain, plain]
    exact bounded_scanPlain brace c t r u v ends

/-- Where a token starts with a brace, the tokens in front of it are the same whatever follows. -/
theorem listFrom_brace (brace : b = '{' ∨ b = '}') {n : Nat} {t u : Text} {front back : List Token}
    (h : listFrom n (t ++ b :: u) = front ++ back) (spells : front.flatMap (·.text) = t) (v : Text) :
    listFrom n (t ++ b :: v) = front ++ listFrom (n + t.size) (b :: v) := by
  induction front generalizing n t with
  | nil =>
    obtain rfl : [] = t := spells
    rfl
  | cons first front ih =>
    rw [List.flatMap_cons] at spells
    cases t with
    | nil =>
      rw [List.nil_append, listFrom_cons, List.cons_append] at h
      obtain ⟨rfl, -⟩ := List.cons.inj h
      simp at spells
    | cons c t =>
      rw [List.cons_append, listFrom_cons, List.cons_append] at h
      obtain ⟨rfl, rest⟩ := List.cons.inj h
      have whole : (scan c (t ++ b :: u)).2.Spells (t ++ b :: u) := spells_scan c _
      have same (r : Text) := bounded_scan brace c t r u v
      generalize scan c (t ++ b :: u) = scanned at rest spells whole same
      obtain ⟨-, parts⟩ := List.cons.inj (show c :: (scanned.2.text ++ _) = c :: t from spells)
      have ends : scanned.2.rest = front.flatMap (·.text) ++ b :: u := by
        rw [Piece.Spells, ← parts, List.append_assoc] at whole
        exact List.append_cancel_left whole
      rw [ends] at rest
      rw [List.cons_append, listFrom_cons, same _ ends, List.cons_append]
      refine congrArg _ ((ih rest rfl).trans ?_)
      rw [← parts]
      simp only [Text.size_cons, Text.size_append, Nat.add_assoc]

end Token

end Verbatim
