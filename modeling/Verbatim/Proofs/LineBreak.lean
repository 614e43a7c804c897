import Verbatim.Proofs.Borders

/-!
# A line break separates texts

No rule of the lexer that finds its token well-formed reads past a line break, except that blanks go on
behind it. So the tokens of two texts with a line break in between are those of the one and those of the
other, but for the blanks where they meet.
-/
namespace Verbatim

namespace Piece

variable (u : Text)

theorem blockComment_append (tail : Text) {depth : Nat} {t : Text}
    (h : (blockComment depth t).fault = none) :
    blockComment depth (t ++ tail) = (blockComment depth t).followed tail := by
  fun_induction blockComment depth t with
  | case1 t => rw [blockComment]; rfl
  | case2 depth => exact absurd h (by simp)
  | case3 depth t ih =>
    rw [List.cons_append, List.cons_append, blockComment, ih h]
    rfl
  | case4 depth t ih =>
    rw [List.cons_append, List.cons_append, blockComment, ih h]
    rfl
  | case5 depth c t no_start no_end ih =>
    cases t with
    | nil => exact absurd h (by simp [blockComment, prepend])
    | cons d t =>
      have same := ih h
      rw [List.cons_append] at same ⊢
      rw [List.cons_append, blockComment, same]
      · rfl
      · rintro r rfl hr
        exact no_start t rfl (by rw [(List.cons.inj hr).1])
      · rintro r rfl hr
        exact no_end t rfl (by rw [(List.cons.inj hr).1])

theorem literal_append (quote : Char) (what : Delimited) (tail : Text) {t : Text}
    (h : (literal quote what t).fault = none) :
    literal quote what (t ++ tail) = (literal quote what t).followed tail := by
  fun_induction literal quote what t with
  | case1 => exact absurd h (by simp)
  | case2 => exact absurd h (by simp)
  | case3 c t ih =>
    rw [List.cons_append, List.cons_append, literal, ih h]
    rfl
  | case4 c t no_end no_escape hq =>
    rw [List.cons_append, literal, if_pos hq]
    · rfl
    · rintro rfl ht
      exact no_end rfl (List.append_eq_nil_iff.mp ht).1
    · rintro d r rfl hr
      cases t with
      | nil => exact no_end rfl rfl
      | cons d t => exact no_escape d t rfl rfl
  | case5 => exact absurd h (by simp)
  | case6 c t no_end no_escape hq hl ih =>
    rw [List.cons_append, literal, if_neg hq, if_neg hl, ih h]
    · rfl
    · rintro rfl ht
      exact no_end rfl (List.append_eq_nil_iff.mp ht).1
    · rintro d r rfl hr
      cases t with
      | nil => exact no_end rfl rfl
      | cons d t => exact no_escape d t rfl rfl

theorem rawBody_lineBreak {fence t : Text} (hf : '\n' ∉ fence) (h : (rawBody fence t).fault = none) :
    rawBody fence (t ++ '\n' :: u) = (rawBody fence t).followed ('\n' :: u) := by
  fun_induction rawBody fence t with
  | case1 => exact absurd h (by simp)
  | case2 c t hc =>
    rw [Bool.and_eq_true, Text.startsWith, List.isPrefixOf_iff_prefix] at hc
    obtain ⟨hq, r, rfl⟩ := hc
    have starts : (c == '"' && Text.startsWith (fence ++ r ++ '\n' :: u) fence) = true := by
      rw [Bool.and_eq_true, Text.startsWith, List.isPrefixOf_iff_prefix, List.append_assoc]
      exact ⟨hq, List.prefix_append _ _⟩
    rw [List.cons_append, rawBody, if_pos starts, List.append_assoc, List.drop_left, List.drop_left]
    rfl
  | case3 c t hc ih =>
    have apart : ¬ (c == '"' && Text.startsWith (t ++ '\n' :: u) fence) = true := by
      rwa [startsWith_border hf]
    rw [List.cons_append, rawBody, if_neg apart, ih h]
    rfl

theorem rawString_lineBreak {t : Text} (h : (rawString t).fault = none) :
    rawString (t ++ '\n' :: u) = (rawString t).followed ('\n' :: u) := by
  have parts := takeWhile_border u (f := (· == '#')) (b := '\n') (by decide) t
  simp only [takeWhile, followed, Piece.mk.injEq, and_true] at parts
  unfold rawString at h ⊢
  rw [parts.1, parts.2]
  cases hd : t.dropWhile (· == '#') with
  | nil => simp [hd] at h
  | cons c body =>
    rw [hd] at h
    by_cases hc : c = '"'
    · subst hc
      have fence : '\n' ∉ t.takeWhile (· == '#') := fun hm => by
        have := List.all_eq_true.mp List.all_takeWhile _ hm
        simp at this
      simp only [List.cons_append]
      rw [rawBody_lineBreak u fence h]
      rfl
    · simp [hc] at h

end Piece

namespace Token

open Piece

variable (u : Text)

theorem lifetimeOrCharacter_lineBreak {t : Text} (h : (lifetimeOrCharacter t).2.fault = none) :
    lifetimeOrCharacter (t ++ '\n' :: u) =
      ((lifetimeOrCharacter t).1, (lifetimeOrCharacter t).2.followed ('\n' :: u)) := by
  cases t with
  | nil => exact absurd h (by simp [lifetimeOrCharacter, literal])
  | cons c t =>
    have quote : (t ++ '\n' :: u).head? != some '\'' ↔ t.head? != some '\'' := by
      cases t <;> simp
    rw [List.cons_append]
    unfold lifetimeOrCharacter at h ⊢
    simp only [quote, Bool.and_eq_true] at h ⊢
    split
    · next hc =>
      rw [← List.cons_append, word_border u (.inl rfl)]
    · next hc =>
      rw [if_neg hc] at h
      rw [← List.cons_append, literal_append _ _ _ h]

theorem scanPlain_lineBreak (c : Char) {t : Text} (h : (scanPlain c t).2.fault = none) :
    scanPlain c (t ++ '\n' :: u) = ((scanPlain c t).1, (scanPlain c t).2.followed ('\n' :: u)) := by
  unfold scanPlain at h ⊢
  split
  · simp only [word_border u (.inl rfl), followed_text]
  next not_word =>
  rw [if_neg not_word] at h
  split
  · exact Number.scan_border (.inl rfl) u c t
  next not_digit =>
  rw [if_neg not_digit] at h
  split
  · next quote =>
    rw [if_pos quote] at h
    exact lifetimeOrCharacter_lineBreak u h
  next not_quote =>
  rw [if_neg not_quote] at h
  split
  · next quote =>
    rw [if_pos quote] at h
    rw [literal_append _ _ _ h]
  next not_string =>
  rw [if_neg not_string] at h
  split
  · rfl
  · next unknown => simp [unknown] at h

/-- A well-formed token that is no blank ends at a line break, if not before. -/
theorem scan_lineBreak {c : Char} {t : Text} (blank : Text.isBlank c = false)
    (h : (scan c t).2.fault = none) :
    scan c (t ++ '\n' :: u) = ((scan c t).1, (scan c t).2.followed ('\n' :: u)) := by
  by_cases marked : isMarked c t = true
  · unfold isMarked at marked
    unfold scan at h ⊢
    rw [if_neg (by simp [blank])] at h ⊢
    rw [if_neg (by simp [blank])]
    split at marked
    · exact congrArg (Kind.comment, ·) (takeWhile_border u rfl ('/' :: _))
    · exact congrArg (fun p => (Kind.comment, p.prepend ['*'])) (blockComment_append _ h)
    · exact congrArg (Kind.string, ·) (rawString_lineBreak u h)
    · next t =>
      change (if Number.startsWithWord (t ++ '\n' :: u) then
          (Kind.ident, (word (t ++ '\n' :: u)).prepend ['#'])
        else (Kind.string, rawString ('#' :: t ++ '\n' :: u))) = _
      change (if Number.startsWithWord t then (Kind.ident, (word t).prepend ['#'])
        else (Kind.string, rawString ('#' :: t))).2.fault = none at h
      rw [Number.startsWithWord_border (.inl rfl)]
      split at h
      · next word =>
        rw [if_pos word, word_border u (.inl rfl)]
        simp [word, followed_prepend]
      · next raw =>
        rw [if_neg raw, rawString_lineBreak u h]
        simp [raw]
    · exact congrArg (fun p => (Kind.byte, p.prepend ['\''])) (literal_append _ _ _ h)
    · exact congrArg (fun p => (Kind.byteString, p.prepend ['"'])) (literal_append _ _ _ h)
    · exact congrArg (fun p => (Kind.byteString, p.prepend ['r'])) (rawString_lineBreak u h)
    · exact congrArg (fun p => (Kind.byteString, p.prepend ['r'])) (rawString_lineBreak u h)
    · contradiction
  · rw [Bool.not_eq_true] at marked
    rw [scan_of_not_marked blank marked] at h ⊢
    rw [scan_of_not_marked blank (by rwa [isMarked_border (.inl rfl)])]
    exact scanPlain_lineBreak u c h

/-! ## Blanks and comments -/

theorem not_trivia_scanPlain (c : Char) (t : Text) : (scanPlain c t).1.isTrivia = false := by
  unfold scanPlain
  split
  · exact wordKind_cases (P := (·.isTrivia = false)) rfl rfl (by decide) _
  split
  · rcases Number.kind_scan c t with h | h <;> rw [h] <;> rfl
  split
  · unfold lifetimeOrCharacter
    split
    · split <;> rfl
    · rfl
  split
  · rfl
  split
  · next k h =>
    unfold punctuation? at h
    split at h
    all_goals
      cases h
      try rfl
  · rfl

theorem rest_blockComment {depth : Nat} {t : Text} (h : (blockComment depth t).fault ≠ none) :
    (blockComment depth t).rest = [] := by
  fun_induction blockComment depth t with
  | case1 t => exact absurd rfl h
  | case2 depth => rfl
  | case3 depth t ih => exact ih h
  | case4 depth t ih => exact ih h
  | case5 depth c t _ _ ih => exact ih h

theorem scan_blank {c : Char} (h : Text.isBlank c = true) (t : Text) :
    scan c t = (.whitespace, .blanks t) := by
  unfold scan
  rw [if_pos h]

/-- Only a comment can be malformed among the trivia, and it then takes the rest of the text. -/
theorem scan_trivia {c : Char} {t : Text} (h : (scan c t).1.isTrivia = true)
    (blank : Text.isBlank c = false) :
    (scan c t).1 = .comment ∧ ((scan c t).2.fault = none ∨ (scan c t).2.rest = []) := by
  unfold scan at h ⊢
  rw [if_neg (by simp [blank])] at h ⊢
  split at h
  · exact ⟨rfl, .inl rfl⟩
  · next r =>
    refine ⟨rfl, ?_⟩
    by_cases hf : (blockComment 1 r).fault = none
    · exact .inl hf
    · exact .inr (rest_blockComment hf)
  · contradiction
  · split at h <;> contradiction
  · contradiction
  · contradiction
  · contradiction
  · contradiction
  · rw [not_trivia_scanPlain] at h
    contradiction

/-! ## Lists of tokens -/

/-- The same token further behind. -/
def moved (n : Nat) (t : Token) : Token := { t with offset := t.offset + n }

theorem listFrom_moved (n offset : Nat) (t : Text) :
    listFrom (offset + n) t = (listFrom offset t).map (moved n) := by
  fun_induction listFrom offset t with
  | case1 offset => rw [listFrom_nil]; rfl
  | case2 offset c t scanned text ih =>
    rw [listFrom_cons, Nat.add_right_comm, ih]
    rfl

/-- The tokens that are no blanks. -/
def solid (ts : List Token) : List Token := ts.filter (·.kind != .whitespace)

/-- No blank is malformed. -/
theorem fault_whitespace (offset : Nat) (t : Text) :
    ∀ x ∈ listFrom offset t, x.kind = .whitespace → x.fault = none := by
  fun_induction listFrom offset t with
  | case1 offset => simp
  | case2 offset c t scanned text ih =>
    rintro x (_ | ⟨_, hx⟩) kind
    · by_cases blank : Text.isBlank c = true
      · change (scan c t).2.fault = none
        rw [scan_blank blank]
        rfl
      · have trivia : (scan c t).1.isTrivia = true := by
          rw [show (scan c t).1 = .whitespace from kind]
          rfl
        have comment := (scan_trivia trivia (by simpa using blank)).1
        rw [show (scan c t).1 = .whitespace from kind] at comment
        contradiction
    · exact ih x hx kind

/-- In front of the first word of a text no token is malformed. -/
theorem sound_before_word (offset : Nat) (t : Text) :
    (∀ x ∈ (listFrom offset t).takeWhile (·.isTrivia), x.fault = none) ∨
      ∀ x ∈ listFrom offset t, x.isTrivia = true ∨ x.kind = .eof := by
  fun_induction listFrom offset t with
  | case1 offset => exact .inr (by simp)
  | case2 offset c t scanned text ih =>
    by_cases trivia : scanned.1.isTrivia = true
    · by_cases sound : scanned.2.fault = none
      · refine ih.imp (fun h x hx => ?_) (fun h x hx => ?_)
        · rw [List.takeWhile_cons_of_pos (by exact trivia)] at hx
          rcases List.mem_cons.mp hx with rfl | hx
          · exact sound
          · exact h x hx
        · rcases List.mem_cons.mp hx with rfl | hx
          · exact .inl trivia
          · exact h x hx
      · have blank : Text.isBlank c = false := by
          rw [← Bool.not_eq_true]
          intro blank
          exact sound (by rw [show scanned = scan c t from rfl, scan_blank blank]; rfl)
        have last := (scan_trivia trivia blank).2.resolve_left sound
        refine .inr fun x hx => ?_
        rw [show scanned.2.rest = [] from last, listFrom_nil] at hx
        rcases List.mem_cons.mp hx with rfl | hx
        · exact .inl trivia
        · exact .inr (by rw [List.mem_singleton.mp hx])
    · refine .inl ?_
      simp [Token.isTrivia, trivia]

/-- Blanks at the front are not among the solid tokens. -/
theorem solid_blank {c : Char} (h : Text.isBlank c = true) (offset : Nat) (t : Text) :
    solid (listFrom offset (c :: t)) = solid (listFrom (offset + c.utf8Size) t) := by
  have first (o : Nat) {d : Char} (hd : Text.isBlank d = true) (r : Text) :
      solid (listFrom o (d :: r)) =
        solid (listFrom (o + Text.size (d :: r.takeWhile Text.isBlank)) (r.dropWhile Text.isBlank)) := by
    rw [listFrom_cons, scan_blank hd]
    rfl
  rw [first offset h t]
  cases t with
  | nil => rfl
  | cons d t =>
    by_cases hd : Text.isBlank d = true
    · rw [first _ hd t, List.takeWhile_cons_of_pos hd, List.dropWhile_cons_of_pos hd]
      simp only [Text.size_cons, Nat.add_assoc]
    · rw [List.takeWhile_cons_of_neg hd, List.dropWhile_cons_of_neg hd]
      rfl

/-- The tokens of a text without malformed tokens, a line break, and another text. -/
theorem solid_lineBreak (offset : Nat) (s u : Text)
    (sound : ∀ x ∈ solid (listFrom offset s), x.fault = none) :
    solid (listFrom offset (s ++ '\n' :: u)) =
      (solid (listFrom offset s)).filter (·.kind != .eof) ++
        solid (listFrom (offset + s.size + 1) u) := by
  match s with
  | [] =>
    rw [List.nil_append, solid_blank (by decide +kernel), listFrom_nil]
    rfl
  | c :: t =>
    by_cases blank : Text.isBlank c = true
    · rw [solid_blank blank] at sound
      have rest := solid_lineBreak (offset + c.utf8Size) t u sound
      rw [List.cons_append, solid_blank blank, solid_blank blank, rest, Text.size_cons, Nat.add_assoc offset]
    · rw [Bool.not_eq_true] at blank
      have not_blank : (scan c t).1 ≠ .whitespace := fun h => by
        have := (scan_trivia (by rw [h]; rfl) blank).1
        rw [h] at this
        contradiction
      have more : (scan c t).1 ≠ .eof := (spelled_scan c t).no_end
      rw [listFrom_cons, solid, List.filter_cons_of_pos (by simpa using not_blank)] at sound
      have shorter : (scan c t).2.rest.length < (c :: t).length :=
        Nat.lt_succ_of_le (length_rest_scan c t)
      have rest := solid_lineBreak (offset + Text.size (c :: (scan c t).2.text)) (scan c t).2.rest u
        fun x hx => sound x (List.mem_cons_of_mem _ hx)
      have parts : Text.size (c :: t) = Text.size (c :: (scan c t).2.text) + (scan c t).2.rest.size := by
        rw [← Text.size_append, List.cons_append, show _ ++ _ = t from spells_scan c t]
      rw [List.cons_append, listFrom_cons, listFrom_cons,
        scan_lineBreak u blank (sound _ List.mem_cons_self), solid, solid,
        List.filter_cons_of_pos (by simpa using not_blank),
        List.filter_cons_of_pos (by simpa using not_blank),
        List.filter_cons_of_pos (by simpa using more), parts, ← Nat.add_assoc]
      exact congrArg (_ :: ·) rest
termination_by s.length
decreasing_by
  · exact Nat.lt_succ_self _
  · exact shorter

end Token

end Verbatim
