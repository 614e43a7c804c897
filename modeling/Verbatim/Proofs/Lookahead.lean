import Mathlib.Data.List.TakeWhile
import Verbatim.Proofs.Borders

/-!
# How far a token looks ahead

The lexer reads on behind a token only to see that it ends there, and at most two characters: a number asks
whether a sign in front of a digit makes its last letter an exponent. So a token is the same wherever it is
followed by the same two characters, and where nothing follows it.
-/
namespace Verbatim

namespace Text

/-- The text `s` can stand for `r` where only `n` characters are read: it starts with the same ones, or it
is empty. -/
def Resembles (n : Nat) (r s : Text) : Prop := s = [] ∨ s.take n = r.take n

variable {n : Nat} {r s x : Text}

theorem Resembles.eq_nil (h : Resembles (n + 1) [] s) : s = [] := by
  rcases h with rfl | same
  · rfl
  · cases s with
    | nil => rfl
    | cons c s => simp at same

theorem Resembles.mono {m : Nat} (h : Resembles n r s) (le : m ≤ n) : Resembles m r s := by
  refine h.imp_right fun same => ?_
  rw [← Nat.min_eq_left le, ← List.take_take, ← List.take_take, same]

/-- The first character behind the same text is the same, or there is none. -/
theorem Resembles.under (h : Resembles (n + 1) r s) (x : Text) : Resembles 1 (x ++ r) (x ++ s) := by
  cases x with
  | nil => exact h.mono (Nat.succ_le_succ (Nat.zero_le n))
  | cons c x => exact .inr rfl

/-- What starts like a text starts with the same character. -/
theorem Resembles.head {t u : Text} {c : Char} (like : Resembles 1 t (c :: u)) : ∃ r, t = c :: r := by
  rcases like with none | same
  · cases none
  · cases t with
    | nil => simp at same
    | cons d r =>
      obtain rfl : c = d := by simpa using same
      exact ⟨r, rfl⟩

/-- A test that reads at most `n` characters and that more text never turns down. -/
structure Reads (n : Nat) (test : Text → Bool) : Prop where
  take : ∀ t, test (t.take n) = test t
  append : ∀ x r, test x = true → test (x ++ r) = true

theorem Reads.eq {test : Text → Bool} (h : Reads n test) {t u : Text} (same : u.take n = t.take n) :
    test u = test t := by rw [← h.take u, same, h.take]

/-- Such a test does not hold where a text ends or goes on alike if it did not hold before. -/
theorem Reads.eq_false {test : Text → Bool} (h : Reads n test) {m : Nat} (le : n ≤ m + x.length)
    (fails : test (x ++ r) = false) (like : Resembles m r s) : test (x ++ s) = false := by
  rcases like with rfl | same
  · rw [List.append_nil, ← Bool.not_eq_true]
    intro holds
    rw [h.append x r holds] at fails
    cases fails
  · rw [← fails]
    refine h.eq ?_
    have enough : n - x.length ≤ m := by omega
    rw [List.take_append, List.take_append, ← Nat.min_eq_left enough, ← List.take_take, ← List.take_take, same]

end Text

open Text

namespace Piece

@[simp] theorem leaving_rest (p : Piece) (r : Text) : (p.leaving r).rest = r := rfl

/-- What a rule takes is told by that text and the two characters behind it. -/
def Settled (rule : Text → Piece) : Prop := ∀ t s, Resembles 2 (rule t).rest s →
  rule ((rule t).text ++ s) = (rule t).leaving s

/-- A longest front ends in the same place where no character that could prolong it follows. -/
theorem span_resembling (f : Char → Bool) {t s : Text} (like : Resembles 1 (t.dropWhile f) s) :
    (t.takeWhile f ++ s).takeWhile f = t.takeWhile f ∧ (t.takeWhile f ++ s).dropWhile f = s := by
  have all : ∀ c ∈ t.takeWhile f, f c = true := fun c hc => List.mem_takeWhile_imp hc
  have stops : s.takeWhile f = [] ∧ s.dropWhile f = s := by
    cases s with
    | nil => exact ⟨rfl, rfl⟩
    | cons c s =>
      obtain ⟨u, hd⟩ := like.head
      have ends := List.head?_dropWhile_not f t
      have no : f c = false := by simpa [hd] using ends
      simp [no]
  rw [List.takeWhile_append_of_pos all, List.dropWhile_append_of_pos all, stops.1, stops.2, List.append_nil]
  exact ⟨rfl, rfl⟩

theorem takeWhile_resembling (f : Char → Bool) {t s : Text} (like : Resembles 1 (takeWhile f t).rest s) :
    takeWhile f ((takeWhile f t).text ++ s) = (takeWhile f t).leaving s := by
  obtain ⟨taken, left⟩ := span_resembling f like
  simp only [takeWhile, leaving, taken, left]

theorem settled_takeWhile (f : Char → Bool) : Settled (takeWhile f) := fun _ _ like =>
  takeWhile_resembling f (like.mono (by decide))

/-- The rest of a text that is spelled begins alike, whatever stands for what is behind it. -/
theorem Spells.resembles {p : Piece} {t s : Text} (h : p.Spells t) {n : Nat} (like : Resembles (n + 1) p.rest s) :
    Resembles 1 t (p.text ++ s) := h ▸ like.under p.text

theorem settled_blockComment (depth : Nat) : Settled (blockComment depth) := by
  intro t s like
  fun_induction blockComment depth t with
  | case1 t => exact blockComment.eq_1 s
  | case2 depth =>
    obtain rfl : s = [] := like.eq_nil
    rfl
  | case3 depth t ih => exact congrArg (prepend _) (ih like)
  | case4 depth t ih => exact congrArg (prepend _) (ih like)
  | case5 depth c t opens closes ih =>
    have behind := (spells_blockComment (depth + 1) t).resembles like
    have step : blockComment (depth + 1) (c :: ((blockComment (depth + 1) t).text ++ s)) =
        (blockComment (depth + 1) ((blockComment (depth + 1) t).text ++ s)).prepend [c] := by
      rw [blockComment]
      · rintro u rfl eq
        obtain ⟨r, same⟩ := (eq ▸ behind).head
        exact opens r rfl same
      · rintro u rfl eq
        obtain ⟨r, same⟩ := (eq ▸ behind).head
        exact closes r rfl same
    exact step.trans (congrArg (prepend [c]) (ih like))

/-- A character of a literal that is no backslash. -/
theorem literal_cons (quote : Char) (what : Delimited) {c : Char} (plain : c ≠ '\\') (t : Text) :
    literal quote what (c :: t) =
      if c == quote then ⟨[c], t, none⟩
      else if c == '\n' && quote == '\'' then ⟨[c], t, some (.unterminated what)⟩
      else (literal quote what t).prepend [c] := by
  rw [literal]
  · exact fun h => absurd h plain
  · exact fun _ _ h => absurd h plain

/-- What is neither a backslash alone nor one with a character behind it is no backslash. -/
theorem ne_backslash {c : Char} {t : Text} (last : c = '\\' → t = [] → False)
    (pair : ∀ d u, c = '\\' → t = d :: u → False) : c ≠ '\\' := fun eq => by
  cases t with
  | nil => exact last eq rfl
  | cons d u => exact pair d u eq rfl

theorem settled_literal (quote : Char) (what : Delimited) : Settled (literal quote what) := by
  intro t s like
  fun_induction literal quote what t with
  | case1 =>
    obtain rfl : s = [] := like.eq_nil
    rfl
  | case2 =>
    obtain rfl : s = [] := like.eq_nil
    rfl
  | case3 c t ih => exact congrArg (prepend _) (ih like)
  | case4 c t last pair closes =>
    have plain := ne_backslash last pair
    exact (literal_cons quote what plain s).trans (if_pos closes)
  | case5 c t last pair open' breaks =>
    have plain := ne_backslash last pair
    exact (literal_cons quote what plain s).trans ((if_neg open').trans (if_pos breaks))
  | case6 c t last pair open' on ih =>
    have plain := ne_backslash last pair
    refine (literal_cons quote what plain _).trans ((if_neg open').trans ((if_neg on).trans ?_))
    exact congrArg (prepend [c]) (ih like)

theorem head_literal (quote : Char) (what : Delimited) (c : Char) (t : Text) :
    ∃ u, (literal quote what (c :: t)).text = c :: u := by
  by_cases plain : c = '\\'
  · subst plain
    cases t with
    | nil => exact ⟨_, rfl⟩
    | cons d t => exact ⟨_, rfl⟩
  · rw [literal_cons quote what plain]
    split
    · exact ⟨_, rfl⟩
    split
    · exact ⟨_, rfl⟩
    · exact ⟨_, rfl⟩

/-- The first character of a word. -/
theorem word_cons {c : Char} (start : isWordStart c = true) (t : Text) : word (c :: t) = (word t).prepend [c] := by
  have part : isWordPart c = true := by rw [isWordPart, start, Bool.true_or]
  simp [word, takeWhile, prepend, part]

/-- A raw string takes all that is left, or its fence. -/
theorem rawBody_reaches (fence t : Text) : (rawBody fence t).rest = [] ∨
    fence.length ≤ (rawBody fence t).text.length := by
  fun_induction rawBody fence t with
  | case1 => exact .inl rfl
  | case2 c t closes => exact .inr (Nat.le_succ _)
  | case3 c t _ ih => exact ih.imp_right Nat.le_succ_of_le

theorem settled_rawBody (fence : Text) : Settled (rawBody fence) := by
  intro t s like
  fun_induction rawBody fence t with
  | case1 =>
    obtain rfl : s = [] := like.eq_nil
    rfl
  | case2 c t closes =>
    rw [Bool.and_eq_true] at closes
    have here : (c == '"' && Text.startsWith (fence ++ s) fence) = true := by
      rw [closes.1, Text.startsWith, Bool.true_and, List.isPrefixOf_iff_prefix]
      exact List.prefix_append fence s
    change rawBody fence (c :: (fence ++ s)) = _
    rw [rawBody, if_pos here, List.drop_left]
    rfl
  | case3 c t goes_on ih =>
    have spells := spells_rawBody fence t
    have still : ¬ (c == '"' && Text.startsWith ((rawBody fence t).text ++ s) fence) = true := by
      rcases rawBody_reaches fence t with all | enough
      · have like : Resembles 2 (rawBody fence t).rest s := like
        rw [all] at like
        rw [Spells, all] at spells
        rwa [like.eq_nil, spells]
      · have same : Text.startsWith t fence = _ := spells ▸ startsWith_append enough
        rwa [startsWith_append enough, ← same]
    change rawBody fence (c :: ((rawBody fence t).text ++ s)) = _
    rw [rawBody, if_neg still, ih like]
    rfl

/-- The fence of a raw string and what is behind it. -/
theorem rawString_quoted {t body : Text} (h : t.dropWhile (· == '#') = '"' :: body) : rawString t =
    (rawBody (t.takeWhile (· == '#')) body).prepend (t.takeWhile (· == '#') ++ ['"']) := by
  rw [rawString, h]
  rfl

theorem rawString_bare {t : Text} (h : ¬ ∃ body, t.dropWhile (· == '#') = '"' :: body) : rawString t =
    ⟨t.takeWhile (· == '#'), t.dropWhile (· == '#'), some .missingQuote⟩ := by
  rw [rawString]
  split
  · next body eq => exact absurd ⟨body, eq⟩ h
  · rfl

theorem head_rawString (t : Text) : ∃ u, (rawString ('#' :: t)).text = '#' :: u := by
  by_cases quoted : ∃ body, ('#' :: t).dropWhile (· == '#') = '"' :: body
  · obtain ⟨body, h⟩ := quoted
    exact ⟨_, congrArg Piece.text (rawString_quoted h)⟩
  · exact ⟨_, congrArg Piece.text (rawString_bare quoted)⟩

theorem settled_rawString : Settled rawString := by
  intro t s like
  by_cases quoted : ∃ body, t.dropWhile (· == '#') = '"' :: body
  · obtain ⟨body, ht⟩ := quoted
    rw [rawString_quoted ht] at like ⊢
    generalize inside : rawBody (t.takeWhile (· == '#')) body = p at like ⊢
    obtain ⟨fence, behind⟩ := span_resembling (· == '#') (t := t) (s := '"' :: (p.text ++ s)) (ht ▸ .inr rfl)
    have whole : (p.prepend (t.takeWhile (· == '#') ++ ['"'])).text ++ s =
        t.takeWhile (· == '#') ++ '"' :: (p.text ++ s) := by simp [prepend]
    rw [whole, rawString_quoted behind, fence, ← inside, settled_rawBody _ body s (inside ▸ like)]
    rfl
  · rw [rawString_bare quoted] at like ⊢
    obtain ⟨fence, behind⟩ := span_resembling (· == '#') (like.mono (by decide))
    rw [rawString_bare, fence, behind]
    · rfl
    · rw [behind]
      rintro ⟨body, rfl⟩
      exact quoted (like.mono (by decide)).head

end Piece

namespace Number

open Piece

/-! ## Numbers -/

theorem reads_startsWithWord : Reads 1 startsWithWord :=
  ⟨fun t => by cases t <;> rfl, fun x r h => by
    cases x with
    | nil => cases h
    | cons c x => exact h⟩

theorem reads_startsWithDigit : Reads 1 startsWithDigit :=
  ⟨fun t => by cases t <;> rfl, fun x r h => by
    cases x with
    | nil => cases h
    | cons c x => exact h⟩

theorem startsWithPoint_take (t : Text) : startsWithPoint (t.take 2) = startsWithPoint t := by
  rcases t with _ | ⟨c, _ | ⟨d, t⟩⟩
  · rfl
  · rfl
  · by_cases hc : c = '.'
    · by_cases hd : d = '.' <;> simp [startsWithPoint, startsWithWord, hc, hd]
    · simp [startsWithPoint, hc]

/-- The marks of an exponent, each with a sign or none. -/
def exponentMarks : List Text := [['e'], ['E'], ['e', '+'], ['E', '+'], ['e', '-'], ['E', '-']]

theorem exponent?_eq_some_iff {t : Text} {p : Piece} : exponent? t = some p ↔ ∃ mark ∈ exponentMarks, ∃ r,
    t = mark ++ r ∧ startsWithDigit r = true ∧ p = (digits false r).prepend mark := by
  constructor
  · intro h
    unfold exponent? at h
    split at h
    · next e t =>
      split at h
      · next letter =>
        have letter : e = 'e' ∨ e = 'E' := by simpa using letter
        split at h
        all_goals
          obtain ⟨digit, eq⟩ := Option.ite_none_right_eq_some.mp h
          have eq := (Option.some.inj eq).symm
        · exact ⟨[e, '+'], by rcases letter with rfl | rfl <;> decide, _, rfl, digit, eq⟩
        · exact ⟨[e, '-'], by rcases letter with rfl | rfl <;> decide, _, rfl, digit, eq⟩
        · exact ⟨[e], by rcases letter with rfl | rfl <;> decide, _, rfl, digit, eq⟩
      · cases h
    · cases h
  · rintro ⟨mark, known, r, rfl, digit, rfl⟩
    have plain : (∀ u, r ≠ '+' :: u) ∧ ∀ u, r ≠ '-' :: u := by
      refine ⟨?_, ?_⟩ <;> rintro u rfl <;> exact absurd (show Char.isDigit _ = true from digit) (by decide)
    simp only [exponentMarks, List.mem_cons, List.not_mem_nil, or_false] at known
    rcases known with rfl | rfl | rfl | rfl | rfl | rfl
    all_goals simp [exponent?, digit, plain]

/-- Whether a text starts with an exponent. -/
def startsWithExponent (t : Text) : Bool := (exponent? t).isSome

theorem startsWithExponent_iff {t : Text} : startsWithExponent t = true ↔ ∃ mark ∈ exponentMarks, ∃ r,
    t = mark ++ r ∧ startsWithDigit r = true := by
  simp only [startsWithExponent, Option.isSome_iff_exists, exponent?_eq_some_iff]
  constructor
  · rintro ⟨_, mark, known, r, eq, digit, -⟩
    exact ⟨mark, known, r, eq, digit⟩
  · rintro ⟨mark, known, r, eq, digit⟩
    exact ⟨_, mark, known, r, eq, digit, rfl⟩

/-- An exponent is told by its mark, its sign and a digit. -/
theorem reads_startsWithExponent : Reads 3 startsWithExponent := by
  have more (x r : Text) (h : startsWithExponent x = true) : startsWithExponent (x ++ r) = true := by
    obtain ⟨mark, known, u, rfl, digit⟩ := startsWithExponent_iff.mp h
    exact startsWithExponent_iff.mpr ⟨mark, known, u ++ r, List.append_assoc _ _ _,
      reads_startsWithDigit.append u r digit⟩
  have short : ∀ mark ∈ exponentMarks, mark.length < 3 := by decide
  refine ⟨fun t => Bool.eq_iff_iff.mpr ⟨fun h => ?_, fun h => ?_⟩, more⟩
  · exact List.take_append_drop 3 t ▸ more _ (t.drop 3) h
  · obtain ⟨mark, known, u, rfl, digit⟩ := startsWithExponent_iff.mp h
    refine startsWithExponent_iff.mpr ⟨mark, known, u.take (3 - mark.length), ?_, ?_⟩
    · rw [List.take_append, List.take_of_length_le (Nat.le_of_lt (short mark known))]
    · have some : 1 ≤ 3 - mark.length := by have := short mark known; omega
      rwa [reads_startsWithDigit.eq (t := u) (by rw [List.take_take, Nat.min_eq_left some])]

theorem startsWithDigit_digits {r : Text} (h : startsWithDigit r = true) (s : Text) :
    startsWithDigit ((digits false r).text ++ s) = true := by
  cases r with
  | nil => cases h
  | cons d r =>
    have digit : d.isDigit = true := h
    have part : isDigitPart false d = true := by simp [isDigitPart, digit]
    rw [digits, Piece.takeWhile, List.takeWhile_cons_of_pos part]
    exact digit

theorem exponent?_resembling {t s : Text} {p : Piece} (h : exponent? t = some p)
    (like : Resembles 1 p.rest s) : exponent? (p.text ++ s) = some (p.leaving s) := by
  obtain ⟨mark, known, r, rfl, digit, rfl⟩ := exponent?_eq_some_iff.mp h
  have same : digits false ((digits false r).text ++ s) = (digits false r).leaving s :=
    takeWhile_resembling _ like
  refine exponent?_eq_some_iff.mpr ⟨mark, known, (digits false r).text ++ s, List.append_assoc _ _ _,
    startsWithDigit_digits digit s, ?_⟩
  rw [same]
  rfl

theorem word_of_start {t : Text} (h : startsWithWord t = true) :
    ∃ c u, isWordStart c = true ∧ (Piece.word t).text = c :: u := by
  cases t with
  | nil => cases h
  | cons c t => exact ⟨c, (Piece.word t).text, h, congrArg Piece.text (word_cons h t)⟩

theorem suffix_word {t : Text} (h : startsWithWord t = true) : suffix t = Piece.word t := if_pos h

theorem suffix_nothing {t : Text} (h : startsWithWord t = false) : suffix t = nothing t :=
  if_neg (Bool.eq_false_iff.mp h)

theorem spells_suffix (t : Text) : (suffix t).Spells t := by
  unfold suffix
  split
  · exact spells_takeWhile _ t
  · exact spells_nothing t

theorem settled_suffix : Settled suffix := by
  intro t s like
  cases word : startsWithWord t with
  | true =>
    obtain ⟨c, u, start, text⟩ := word_of_start word
    rw [suffix_word word] at like ⊢
    rw [suffix_word (by rw [text]; exact start)]
    exact settled_takeWhile _ t s like
  | false =>
    rw [suffix_nothing word] at like ⊢
    exact suffix_nothing (reads_startsWithWord.eq_false (x := []) (Nat.le_add_right 1 1) word like)

/-- No suffix turns into an exponent by what stands behind it. -/
theorem exponent?_suffix {t s : Text} (like : Resembles 2 (suffix t).rest s) (absent : exponent? t = none) :
    exponent? ((suffix t).text ++ s) = none := by
  have fails : startsWithExponent t = false := by rw [startsWithExponent, absent]; rfl
  suffices startsWithExponent ((suffix t).text ++ s) = false from
    Option.not_isSome_iff_eq_none.mp (Bool.eq_false_iff.mp this)
  cases word : startsWithWord t with
  | true =>
    obtain ⟨c, u, start, text⟩ := word_of_start word
    have parts : (Piece.word t).text ++ (Piece.word t).rest = t := spells_takeWhile _ t
    rw [suffix_word word] at like ⊢
    rw [← parts] at fails
    exact reads_startsWithExponent.eq_false (by rw [text, List.length_cons]; omega) fails like
  | false =>
    rw [suffix_nothing word] at like ⊢
    have no_word : startsWithWord s = false :=
      reads_startsWithWord.eq_false (x := []) (Nat.le_add_right 1 1) word like
    have small : isWordStart 'e' = true ∧ isWordStart 'E' = true := by decide +kernel
    have letters : ∀ mark ∈ exponentMarks, ∀ r, startsWithWord (mark ++ r) = true := by
      simp [exponentMarks, startsWithWord, small]
    refine Bool.eq_false_iff.mpr fun h => ?_
    obtain ⟨mark, known, r, rfl, -⟩ := startsWithExponent_iff.mp h
    exact Bool.eq_false_iff.mp no_word (letters mark known r)

/-- Nor does a suffix turn into a point. -/
theorem startsWithPoint_suffix {t s : Text} (like : Resembles 2 (suffix t).rest s)
    (fails : startsWithPoint t = false) : startsWithPoint ((suffix t).text ++ s) = false := by
  cases word : startsWithWord t with
  | true =>
    obtain ⟨c, u, start, text⟩ := word_of_start word
    have no_dot : c ≠ '.' := by
      rintro rfl
      exact absurd start (by decide +kernel)
    rw [suffix_word word, text]
    simp [startsWithPoint, no_dot]
  | false =>
    rw [suffix_nothing word] at like ⊢
    change startsWithPoint s = false
    rcases like with rfl | same
    · rfl
    · rwa [← startsWithPoint_take, same, nothing, startsWithPoint_take]

theorem resembles_suffix {t s : Text} (like : Resembles 2 (suffix t).rest s) :
    Resembles 1 t ((suffix t).text ++ s) := (spells_suffix t).resembles like

/-- What a rule for numbers takes is told by it, by the suffix behind it, and by the two characters behind
that. -/
def Settled (rule : Text → Kind × Piece) : Prop := ∀ t s, Resembles 2 (suffix (rule t).2.rest).rest s →
  rule ((rule t).2.text ++ ((suffix (rule t).2.rest).text ++ s)) =
    ((rule t).1, (rule t).2.leaving ((suffix (rule t).2.rest).text ++ s))

theorem fraction_digits {t : Text} (digit : startsWithDigit t = true) : fraction t =
    ((exponent? (digits false t).rest).getD (nothing (digits false t).rest)).prepend (digits false t).text :=
  if_pos digit

/-- Behind a point: no word stands there, so without digits there is no suffix. -/
theorem fraction_resembling {t s : Text} (no_word : startsWithWord t = false)
    (like : Resembles 2 (suffix (fraction t).rest).rest s) :
    fraction ((fraction t).text ++ ((suffix (fraction t).rest).text ++ s)) =
      (fraction t).leaving ((suffix (fraction t).rest).text ++ s) := by
  cases digit : startsWithDigit t with
  | false =>
    have bare : fraction t = nothing t := if_neg (Bool.eq_false_iff.mp digit)
    have alone : suffix (nothing t).rest = nothing t := suffix_nothing no_word
    rw [bare, alone] at like ⊢
    have still := reads_startsWithDigit.eq_false (x := []) (Nat.le_add_right 1 1) digit like
    exact if_neg (Bool.eq_false_iff.mp still)
  | true =>
    rw [fraction_digits digit] at like ⊢
    generalize behind : (exponent? (digits false t).rest).getD (nothing (digits false t).rest) = q at like ⊢
    have like : Resembles 2 (suffix q.rest).rest s := like
    generalize tail : (suffix q.rest).text ++ s = u
    have next : Resembles 1 q.rest u := tail ▸ resembles_suffix like
    have spells : q.Spells (digits false t).rest := by
      rw [← behind]
      cases h : exponent? (digits false t).rest with
      | none => exact spells_nothing _
      | some p => exact spells_exponent h
    have same : digits false ((digits false t).text ++ (q.text ++ u)) = (digits false t).leaving (q.text ++ u) :=
      takeWhile_resembling _ (spells.resembles next)
    have exponent : (exponent? (q.text ++ u)).getD (nothing (q.text ++ u)) = q.leaving u := by
      cases h : exponent? (digits false t).rest with
      | none =>
        obtain rfl : nothing (digits false t).rest = q := by rw [← behind, h]; rfl
        change (exponent? u).getD (nothing u) = nothing u
        rw [← tail, exponent?_suffix like h]
        rfl
      | some p =>
        obtain rfl : p = q := by rw [← behind, h]; rfl
        rw [exponent?_resembling h next]
        rfl
    change fraction (((digits false t).text ++ q.text) ++ ((suffix q.rest).text ++ s)) =
      (q.prepend (digits false t).text).leaving ((suffix q.rest).text ++ s)
    rw [tail, List.append_assoc, fraction_digits (startsWithDigit_digits digit _), same]
    change ((exponent? (q.text ++ u)).getD (nothing (q.text ++ u))).prepend (digits false t).text = _
    rw [exponent]
    rfl

theorem startsWithPoint_iff {t : Text} : startsWithPoint t = true ↔
    ∃ r, t = '.' :: r ∧ r.head? ≠ some '.' ∧ startsWithWord r = false := by
  rcases t with _ | ⟨c, t⟩
  · simp [startsWithPoint]
  · by_cases hc : c = '.'
    · subst hc
      cases t with
      | nil => simp [startsWithPoint, startsWithWord]
      | cons d t => by_cases hd : d = '.' <;> simp [startsWithPoint, hd]
    · simp [startsWithPoint, hc]

theorem afterDigits_point {r : Text} (h : startsWithPoint ('.' :: r) = true) :
    afterDigits ('.' :: r) = (.floatNumber, (fraction r).prepend ['.']) := if_pos h

theorem afterDigits_exponent {t : Text} {p : Piece} (no_point : startsWithPoint t = false)
    (h : exponent? t = some p) : afterDigits t = (.floatNumber, p) := by
  rw [afterDigits, if_neg (Bool.eq_false_iff.mp no_point), h]

theorem afterDigits_integer {t : Text} (no_point : startsWithPoint t = false) (h : exponent? t = none) :
    afterDigits t = (.intNumber, nothing t) := by
  rw [afterDigits, if_neg (Bool.eq_false_iff.mp no_point), h]

theorem settled_afterDigits : Settled afterDigits := by
  intro t s like
  cases point : startsWithPoint t with
  | true =>
    obtain ⟨r, rfl, single, no_word⟩ := startsWithPoint_iff.mp point
    rw [afterDigits_point point] at like ⊢
    have like : Resembles 2 (suffix (fraction r).rest).rest s := like
    have same := fraction_resembling no_word like
    have next := (spells_fraction r).resembles (resembles_suffix like)
    have whole : ((fraction r).prepend ['.']).text ++ ((suffix (fraction r).rest).text ++ s) =
      '.' :: ((fraction r).text ++ ((suffix (fraction r).rest).text ++ s)) := rfl
    have still : startsWithPoint ('.' :: ((fraction r).text ++ ((suffix (fraction r).rest).text ++ s))) = true := by
      refine startsWithPoint_iff.mpr ⟨_, rfl, fun second => ?_,
        reads_startsWithWord.eq_false (x := []) (Nat.le_refl 1) no_word next⟩
      obtain ⟨u, eq⟩ := List.head?_eq_some_iff.mp second
      obtain ⟨u', rfl⟩ := (eq ▸ next).head
      exact single rfl
    change afterDigits (((fraction r).prepend ['.']).text ++ ((suffix (fraction r).rest).text ++ s)) = _
    rw [whole, afterDigits_point still, same]
    rfl
  | false =>
    cases h : exponent? t with
    | some p =>
      rw [afterDigits_exponent point h] at like ⊢
      have same := exponent?_resembling h (resembles_suffix like)
      have letters : ∀ mark ∈ exponentMarks, ∀ r, startsWithPoint (mark ++ r) = false := by
        simp [exponentMarks, startsWithPoint]
      refine afterDigits_exponent ?_ same
      obtain ⟨mark, known, r, eq, -⟩ := exponent?_eq_some_iff.mp same
      exact eq ▸ letters mark known r
    | none =>
      rw [afterDigits_integer point h] at like ⊢
      exact afterDigits_integer (startsWithPoint_suffix like point) (exponent?_suffix like h)

theorem decimal_eq (t : Text) : decimal t = ((afterDigits (digits false t).rest).1,
    (afterDigits (digits false t).rest).2.prepend (digits false t).text) := rfl

theorem settled_decimal : Settled decimal := by
  intro t s like
  have rest := settled_afterDigits (digits false t).rest s like
  have next := (spells_afterDigits (digits false t).rest).resembles (resembles_suffix like)
  rw [decimal_eq t]
  generalize afterDigits (digits false t).rest = q at rest next
  change decimal ((digits false t).text ++ q.2.text ++ ((suffix q.2.rest).text ++ s)) =
    (q.1, (q.2.prepend (digits false t).text).leaving ((suffix q.2.rest).text ++ s))
  generalize (suffix q.2.rest).text ++ s = u at rest next
  have same : digits false ((digits false t).text ++ (q.2.text ++ u)) = (digits false t).leaving (q.2.text ++ u) :=
    takeWhile_resembling _ next
  rw [List.append_assoc, decimal_eq, same, leaving_rest, rest]
  rfl

/-- The mark of a radix follows. -/
def isRadix (first : Char) : Text → Bool
  | r :: _ => first == '0' && (r == 'b' || r == 'o' || r == 'x')
  | [] => false

theorem reads_isRadix (first : Char) : Reads 1 (isRadix first) :=
  ⟨fun t => by cases t <;> rfl, fun x r h => by
    cases x with
    | nil => cases h
    | cons c x => exact h⟩

theorem magnitude_decimal {first : Char} {t : Text} (h : isRadix first t = false) :
    magnitude first t = decimal t := by
  cases t with
  | nil => rfl
  | cons r t =>
    simp only [isRadix, Bool.and_eq_false_iff, Bool.or_eq_false_iff] at h
    rw [magnitude]
    rcases h with zero | ⟨⟨binary, octal⟩, hexadecimal⟩
    · simp [zero]
    · simp [binary, octal, hexadecimal]

/-- The digits behind a radix, which are hexadecimal or not. -/
theorem magnitude_radix {first r : Char} (h : isRadix first [r] = true) : ∃ hex, ∀ t,
    magnitude first (r :: t) = (.intNumber, (digits hex t).prepend [r]) := by
  simp only [isRadix, Bool.and_eq_true, Bool.or_eq_true, beq_iff_eq] at h
  obtain ⟨rfl, (rfl | rfl) | rfl⟩ := h
  · exact ⟨false, fun _ => rfl⟩
  · exact ⟨false, fun _ => rfl⟩
  · exact ⟨true, fun _ => rfl⟩

theorem settled_magnitude (first : Char) : Settled (magnitude first) := by
  intro t s like
  cases radix : isRadix first t with
  | false =>
    have next := (spells_magnitude first t).resembles (resembles_suffix like)
    have still := (reads_isRadix first).eq_false (x := []) (Nat.le_refl 1) radix next
    rw [List.nil_append] at still
    rw [magnitude_decimal radix] at like still ⊢
    rw [magnitude_decimal still, settled_decimal t s like]
  | true =>
    cases t with
    | nil => cases radix
    | cons r t =>
      obtain ⟨hex, eq⟩ := magnitude_radix (r := r) radix
      rw [eq] at like ⊢
      change magnitude first (r :: ((digits hex t).text ++ ((suffix (digits hex t).rest).text ++ s))) = _
      have same : digits hex ((digits hex t).text ++ ((suffix (digits hex t).rest).text ++ s)) =
        (digits hex t).leaving _ := takeWhile_resembling _ (resembles_suffix like)
      rw [eq, same]
      rfl

theorem scan_eq (first : Char) (t : Text) : scan first t = ((magnitude first t).1,
    (suffix (magnitude first t).2.rest).prepend (magnitude first t).2.text) := rfl

end Number

namespace Token

open Piece

/-! ## All rules -/

/-- A rule that also tells a kind is told by what it takes and the two characters behind. -/
def Settled (rule : Text → Kind × Piece) : Prop := ∀ t s, Resembles 2 (rule t).2.rest s →
  rule ((rule t).2.text ++ s) = ((rule t).1, (rule t).2.leaving s)

theorem settled_number (first : Char) : Settled (Number.scan first) := by
  intro t s like
  have whole := Number.settled_magnitude first t s like
  rw [Number.scan_eq first t] at like ⊢
  generalize Number.magnitude first t = q at like whole
  have tail := Number.settled_suffix q.2.rest s like
  change Number.scan first (q.2.text ++ (Number.suffix q.2.rest).text ++ s) = _
  rw [List.append_assoc, Number.scan_eq, whole]
  change (q.1, (Number.suffix ((Number.suffix q.2.rest).text ++ s)).prepend q.2.text) = _
  rw [tail]
  rfl

/-- Whether the quote at hand starts a lifetime. -/
def isLifetime : Text → Bool
  | c :: t => isWordStart c && t.head? != some '\''
  | [] => false

theorem lifetimeOrCharacter_eq (t : Text) : lifetimeOrCharacter t =
    if isLifetime t then (.lifetimeIdent, .word t) else (.char, .literal '\'' .character t) := by
  cases t <;> rfl

/-- What is no lifetime does not become one by what stands behind the literal. -/
theorem isLifetime_literal {t s : Text} (h : isLifetime t = false)
    (like : Resembles 2 (literal '\'' .character t).rest s) :
    isLifetime ((literal '\'' .character t).text ++ s) = false := by
  cases t with
  | nil =>
    obtain rfl : s = [] := like.eq_nil
    rfl
  | cons c t =>
    cases start : isWordStart c with
    | false =>
      obtain ⟨u, text⟩ := head_literal '\'' .character c t
      rw [text]
      simp [isLifetime, start]
    | true =>
      -- A letter that a quote follows is a literal of its own.
      obtain ⟨u, rfl⟩ : ∃ u, t = '\'' :: u := by simpa [isLifetime, start, List.head?_eq_some_iff] using h
      have apart : ∀ d ∈ ['\\', '\'', '\n'], c ≠ d := by
        rintro d hd rfl
        have none : isWordStart c = false := by
          obtain rfl | rfl | rfl : c = '\\' ∨ c = '\'' ∨ c = '\n' := by simpa using hd
          all_goals decide +kernel
        exact Bool.eq_false_iff.mp none start
      have closing : literal '\'' .character ('\'' :: u) = ⟨['\''], u, none⟩ := by
        exact (literal_cons _ _ (by decide) u).trans (if_pos rfl)
      have other : ¬ (c == '\'') = true := by simpa using apart '\'' (by decide)
      have inside : ¬ (c == '\n' && '\'' == '\'') = true := by simpa using apart '\n' (by decide)
      rw [literal_cons _ _ (apart '\\' (by decide)), if_neg other, if_neg inside, closing]
      simp [isLifetime, prepend]

theorem settled_lifetimeOrCharacter : Settled lifetimeOrCharacter := by
  intro t s like
  rw [lifetimeOrCharacter_eq t] at like ⊢
  cases lifetime : isLifetime t with
  | true =>
    rw [lifetime] at like
    cases t with
    | nil => cases lifetime
    | cons c t =>
      obtain ⟨start, no_quote⟩ : isWordStart c = true ∧ t.head? ≠ some '\'' := by simpa [isLifetime] using lifetime
      have like : Resembles 2 (word (c :: t)).rest s := like
      have same := settled_takeWhile isWordPart (c :: t) s like
      have next : Resembles 1 t ((word t).text ++ s) := by
        rw [word_cons start] at like
        exact (spells_takeWhile _ t).resembles like
      have still : isLifetime ((word (c :: t)).text ++ s) = true := by
        rw [word_cons start]
        refine Bool.and_eq_true_iff.mpr ⟨start, bne_iff_ne.mpr fun quote => ?_⟩
        obtain ⟨u, eq⟩ := List.head?_eq_some_iff.mp quote
        rw [show (word t).text ++ s = '\'' :: u from eq] at next
        obtain ⟨u', rfl⟩ := next.head
        exact no_quote rfl
      change lifetimeOrCharacter ((word (c :: t)).text ++ s) = _
      rw [lifetimeOrCharacter_eq, if_pos still]
      exact congrArg (Kind.lifetimeIdent, ·) same
  | false =>
    rw [lifetime] at like
    change lifetimeOrCharacter ((literal '\'' .character t).text ++ s) = _
    rw [lifetimeOrCharacter_eq, isLifetime_literal lifetime like]
    exact congrArg (Kind.char, ·) (settled_literal _ _ t s like)

theorem reads_isMarked (c : Char) : Reads 2 (isMarked c) := by
  constructor
  · intro t
    rcases t with _ | ⟨d, _ | ⟨e, t⟩⟩
    · rfl
    · rfl
    · unfold isMarked
      split <;> split <;> simp_all
  · intro x r h
    unfold isMarked at h
    split at h <;> first | rfl | cases h

theorem settled_scanPlain (c : Char) : Settled (scanPlain c) := by
  intro t s like
  unfold scanPlain at like ⊢
  split
  · next word =>
    rw [if_pos word] at like
    have same := settled_takeWhile isWordPart t s like
    change (wordKind (c :: (takeWhile isWordPart ((takeWhile isWordPart t).text ++ s)).text),
      takeWhile isWordPart ((takeWhile isWordPart t).text ++ s)) = _
    rw [same]
    rfl
  next no_word =>
  rw [if_neg no_word] at like
  split
  · next digit =>
    rw [if_pos digit] at like
    exact settled_number c t s like
  next no_digit =>
  rw [if_neg no_digit] at like
  split
  · next quote =>
    rw [if_pos quote] at like
    exact settled_lifetimeOrCharacter t s like
  next no_quote =>
  rw [if_neg no_quote] at like
  split
  · next quote =>
    rw [if_pos quote] at like
    exact congrArg (Kind.string, ·) (settled_literal '"' .string t s like)
  next no_string =>
  split
  · rfl
  · rfl

/-- Where a mark selects a rule for all that follows. -/
theorem scan_marked {c : Char} (mark : Text) {k : Kind} {rule : Text → Piece} (h : Piece.Settled rule)
    (eq : ∀ r, scan c (mark ++ r) = (k, (rule r).prepend mark)) (r s : Text)
    (like : Resembles 2 (scan c (mark ++ r)).2.rest s) :
    scan c ((scan c (mark ++ r)).2.text ++ s) =
      ((scan c (mark ++ r)).1, (scan c (mark ++ r)).2.leaving s) := by
  rw [eq r] at like ⊢
  have whole : ((rule r).prepend mark).text ++ s = mark ++ ((rule r).text ++ s) := List.append_assoc _ _ _
  rw [whole, eq, h r s like]
  rfl

/-- Whether a hash with a word behind it follows, which make an `r` the start of a name. -/
def isRawName : Text → Bool
  | '#' :: t => Number.startsWithWord t
  | _ => false

theorem reads_isRawName : Reads 2 isRawName := by
  constructor
  · intro t
    rcases t with _ | ⟨d, _ | ⟨e, t⟩⟩
    · rfl
    · rfl
    · by_cases hash : d = '#'
      · subst hash
        rfl
      · simp [isRawName, hash]
  · intro x r h
    unfold isRawName at h
    split at h
    · exact Number.reads_startsWithWord.append _ r h
    · cases h

theorem scan_hash (t : Text) : scan 'r' ('#' :: t) =
    if Number.startsWithWord t then (.ident, (word t).prepend ['#']) else (.string, rawString ('#' :: t)) :=
  if_neg (by decide +kernel)

theorem scan_hash_resembling (t s : Text) (like : Resembles 2 (scan 'r' ('#' :: t)).2.rest s) :
    scan 'r' ((scan 'r' ('#' :: t)).2.text ++ s) =
      ((scan 'r' ('#' :: t)).1, (scan 'r' ('#' :: t)).2.leaving s) := by
  rw [scan_hash t] at like ⊢
  cases name : Number.startsWithWord t with
  | true =>
    rw [name] at like
    have still : Number.startsWithWord ((word t).text ++ s) = true := by
      obtain ⟨c, u, start, text⟩ := Number.word_of_start name
      rw [text]
      exact start
    change scan 'r' ('#' :: ((word t).text ++ s)) = _
    rw [scan_hash, if_pos still, word, word, settled_takeWhile isWordPart t s like]
    rfl
  | false =>
    rw [name] at like
    have still := reads_isRawName.eq_false (m := 2) (Nat.le_add_right 2 _)
      ((congrArg isRawName (spells_rawString ('#' :: t))).trans name) like
    have same := settled_rawString ('#' :: t) s like
    obtain ⟨u, text⟩ := head_rawString t
    change scan 'r' ((rawString ('#' :: t)).text ++ s) = (.string, (rawString ('#' :: t)).leaving s)
    rw [← same]
    rw [text] at still ⊢
    exact (scan_hash (u ++ s)).trans (if_neg (Bool.eq_false_iff.mp still))

/-- A token is told by what it takes and the two characters behind. -/
theorem settled_scan (c : Char) : Settled (scan c) := by
  intro t s like
  by_cases blank : isBlank c = true
  · have all (t : Text) : scan c t = (.whitespace, Piece.blanks t) := if_pos blank
    rw [all t] at like ⊢
    rw [all, Piece.blanks, Piece.blanks, settled_takeWhile isBlank t s like]
  rw [Bool.not_eq_true] at blank
  cases marked : isMarked c t with
  | false =>
    have still := (reads_isMarked c).eq_false (Nat.le_add_right 2 _)
      ((congrArg (isMarked c) (spells_scan c t)).trans marked) like
    rw [scan_of_not_marked blank marked] at like still ⊢
    rw [scan_of_not_marked blank still]
    exact settled_scanPlain c t s like
  | true =>
    have known := Bool.eq_false_iff.mp blank
    unfold isMarked at marked
    split at marked
    · exact scan_marked ['/'] (settled_takeWhile _) (fun _ => if_neg known) _ s like
    · exact scan_marked ['*'] (settled_blockComment 1) (fun _ => if_neg known) _ s like
    · exact scan_marked ['"'] (settled_rawBody []) (fun _ => if_neg known) _ s like
    · exact scan_hash_resembling _ s like
    · exact scan_marked ['\''] (settled_literal _ _) (fun _ => if_neg known) _ s like
    · exact scan_marked ['"'] (settled_literal _ _) (fun _ => if_neg known) _ s like
    · exact scan_marked ['r', '"'] (settled_rawBody []) (fun _ => if_neg known) _ s like
    · next t =>
      have fenced (r : Text) : scan 'b' ('r' :: '#' :: r) = (.byteString, (rawString ('#' :: r)).prepend ['r']) :=
        if_neg known
      rw [fenced t] at like ⊢
      have same := settled_rawString ('#' :: t) s like
      obtain ⟨u, text⟩ := head_rawString t
      change scan 'b' ('r' :: ((rawString ('#' :: t)).text ++ s)) =
        (.byteString, ((rawString ('#' :: t)).leaving s).prepend ['r'])
      rw [← same, text]
      exact fenced (u ++ s)
    · cases marked

/-! ## Tokens -/

/-- A token of a text is what the lexer takes somewhere in it. -/
theorem scan_of_mem {n : Nat} {t : Text} {tok : Token} (h : tok ∈ listFrom n t) (no_end : tok.kind ≠ .eof) :
    ∃ c u, tok.kind = (scan c u).1 ∧ tok.text = c :: (scan c u).2.text ∧ tok.fault = (scan c u).2.fault := by
  fun_induction listFrom n t with
  | case1 offset =>
    obtain rfl := List.mem_singleton.mp h
    exact absurd rfl no_end
  | case2 offset c t scanned text ih =>
    rcases List.mem_cons.mp h with rfl | h
    · exact ⟨c, t, rfl, rfl, rfl⟩
    · exact ih h

/-- The text of a token is read as that token alone: the same kind, text and fault, and then the end. -/
theorem list_text (t : Text) : ∀ tok ∈ list t, tok.kind ≠ .eof →
    list tok.text = [{ tok with offset := 0 }, ⟨.eof, [], tok.text.size, none⟩] := by
  intro tok h no_end
  obtain ⟨c, u, kind, text, fault⟩ := scan_of_mem h no_end
  have alone := settled_scan c u [] (.inl rfl)
  rw [List.append_nil] at alone
  rw [list, text, listFrom_cons, alone, leaving_rest, listFrom_nil, Nat.zero_add, kind, fault]
  rfl

/-- A raw string that is cut off keeps its fault. -/
theorem list_text_raw :
    ⟨.string, "r#\"x".toList, 1, some (.unterminated .rawString)⟩ ∈ list " r#\"x".toList ∧ Kind.string ≠ .eof ∧
    list "r#\"x".toList =
      [⟨.string, "r#\"x".toList, 0, some (.unterminated .rawString)⟩, ⟨.eof, [], 4, none⟩] :=
  have listed : ⟨.string, "r#\"x".toList, 1, some (.unterminated .rawString)⟩ ∈ list " r#\"x".toList := by
    decide +kernel
  ⟨listed, by decide, list_text _ _ listed (by decide)⟩

/-- The first token of a text depends on no more than the two characters behind it: where it ends at least two
characters before the end of `u`, it is the same whatever follows `u`. -/
theorem list_append (u v w : Text) {first : Token} {rest : List Token} (h : list (u ++ v) = first :: rest)
    (early : first.text.length + 2 ≤ u.length) : ∃ rest', list (u ++ w) = first :: rest' := by
  cases u with
  | nil => exact absurd early (by simp)
  | cons c u =>
    rw [list, List.cons_append, listFrom_cons] at h
    obtain ⟨rfl, -⟩ := List.cons.inj h
    have spells : (scan c (u ++ v)).2.Spells (u ++ v) := spells_scan c (u ++ v)
    have settled := settled_scan c (u ++ v)
    generalize scan c (u ++ v) = scanned at spells settled early ⊢
    have within : scanned.2.text.length + 2 ≤ u.length := Nat.le_of_succ_le_succ early
    obtain ⟨m, rfl⟩ : scanned.2.text <+: u :=
      List.prefix_of_prefix_length_le ⟨_, spells⟩ (List.prefix_append u v) (by omega)
    rw [Piece.Spells, List.append_assoc] at spells
    have behind : scanned.2.rest = m ++ v := List.append_cancel_left spells
    rw [List.length_append] at within
    have enough : 2 ≤ m.length := by omega
    have alike : Resembles 2 scanned.2.rest (m ++ w) := by
      rw [behind, Resembles, List.take_append_of_le_length enough, List.take_append_of_le_length enough]
      exact .inr rfl
    rw [list, List.cons_append, List.append_assoc, listFrom_cons, settled (m ++ w) alike]
    exact ⟨_, rfl⟩

/-- A sign with a letter behind it keeps an exponent from starting. -/
theorem list_append_sign : ∃ rest, list ("1e+x".toList ++ "2".toList) = ⟨.intNumber, "1e".toList, 0, none⟩ :: rest :=
  list_append "1e+x".toList [] "2".toList
    (show _ = _ :: [⟨.plus, "+".toList, 2, none⟩, ⟨.ident, "x".toList, 3, none⟩, ⟨.eof, [], 4, none⟩] by decide +kernel)
    (by decide)

-- One character behind the token is not enough: a digit that follows it makes the exponent.
example : (list "1e+".toList).head?.map (·.kind) = some .intNumber ∧
    (list ("1e+".toList ++ "2".toList)).head?.map (·.kind) = some .floatNumber := by decide +kernel

end Token

end Verbatim
