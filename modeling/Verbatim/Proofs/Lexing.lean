import Verbatim.Proofs.Input
import Verbatim.Token.Scan

/-!
# Tokens spell the text

Whatever a rule of the lexer takes, front and rest are the text again, so the tokens of a text put in a
row are the text. Their kinds are those of single tokens, and a kind with a fixed spelling is written as
that.
-/
namespace Verbatim

namespace Piece

/-- The front and the rest of a text. -/
def Spells (p : Piece) (t : Text) : Prop := p.text ++ p.rest = t

theorem spells_takeWhile (f : Char → Bool) (t : Text) : (takeWhile f t).Spells t :=
  List.takeWhile_append_dropWhile

theorem spells_nothing (t : Text) : (nothing t).Spells t := rfl

theorem Spells.prepend {p : Piece} {t : Text} (h : p.Spells t) (front : Text) :
    (p.prepend front).Spells (front ++ t) := by
  simp only [Spells, Piece.prepend, List.append_assoc] at h ⊢
  rw [h]

theorem Spells.andThen {p : Piece} {t : Text} {next : Text → Piece} (h : p.Spells t)
    (hn : ∀ r, (next r).Spells r) : (p.andThen next).Spells t := by
  have := (hn p.rest).prepend p.text
  rwa [show p.text ++ p.rest = t from h] at this

theorem spells_blockComment (depth : Nat) (t : Text) : (blockComment depth t).Spells t := by
  fun_induction blockComment depth t with
  | case1 t => exact spells_nothing t
  | case2 depth => rfl
  | case3 depth t ih => exact ih.prepend _
  | case4 depth t ih => exact ih.prepend _
  | case5 depth c t _ _ ih => exact ih.prepend [c]

theorem spells_literal (quote : Char) (what : Delimited) (t : Text) :
    (literal quote what t).Spells t := by
  fun_induction literal quote what t with
  | case1 => rfl
  | case2 => rfl
  | case3 c t ih => exact ih.prepend _
  | case4 => rfl
  | case5 => rfl
  | case6 c t _ _ _ _ ih => exact ih.prepend [c]

theorem spells_rawBody (fence t : Text) : (rawBody fence t).Spells t := by
  fun_induction rawBody fence t with
  | case1 => rfl
  | case2 c t h =>
    rw [Bool.and_eq_true, Text.startsWith, List.isPrefixOf_iff_prefix] at h
    simp only [Spells, List.cons_append, List.prefix_iff_eq_append.mp h.2]
  | case3 c t _ ih => exact ih.prepend [c]

theorem spells_rawString (t : Text) : (rawString t).Spells t := by
  have parts : t.takeWhile (· == '#') ++ t.dropWhile (· == '#') = t :=
    List.takeWhile_append_dropWhile
  unfold rawString
  split
  · next body heq =>
    have := (spells_rawBody (t.takeWhile (· == '#')) body).prepend (t.takeWhile (· == '#') ++ ['"'])
    rwa [List.append_assoc, List.singleton_append, ← heq, parts] at this
  · exact parts

end Piece

namespace Number

open Piece

theorem spells_exponent {t : Text} {p : Piece} (h : exponent? t = some p) : p.Spells t := by
  have digits (r : Text) : (digits false r).Spells r := spells_takeWhile _ r
  unfold exponent? at h
  split at h
  · split at h
    · split at h
      all_goals
        cases (Option.ite_none_right_eq_some.mp h).2
        exact (digits _).prepend _
    · cases h
  · cases h

theorem spells_fraction (t : Text) : (fraction t).Spells t := by
  unfold fraction
  split
  · refine (spells_takeWhile _ t).andThen fun r => ?_
    cases h : exponent? r with
    | none => exact spells_nothing r
    | some p => exact spells_exponent h
  · exact spells_nothing t

theorem spells_afterDigits (t : Text) : (afterDigits t).2.Spells t := by
  unfold afterDigits
  split
  · next h =>
    have head : ['.'] ++ t.drop 1 = t := by
      unfold startsWithPoint at h
      split at h <;> first | rfl | simp at h
    have := (spells_fraction (t.drop 1)).prepend ['.']
    rwa [head] at this
  · split
    · next h => exact spells_exponent h
    · exact spells_nothing t

theorem spells_decimal (t : Text) : (decimal t).2.Spells t := by
  have whole := (spells_afterDigits (digits false t).rest).prepend (digits false t).text
  rwa [show (digits false t).text ++ (digits false t).rest = t from spells_takeWhile _ t] at whole

theorem spells_magnitude (first : Char) (t : Text) : (magnitude first t).2.Spells t := by
  unfold magnitude
  split
  · split
    · exact (spells_takeWhile _ _).prepend _
    split
    · exact (spells_takeWhile _ _).prepend _
    · exact spells_decimal _
  · exact spells_decimal _

theorem spells_scan (first : Char) (t : Text) : (scan first t).2.Spells t := by
  refine (spells_magnitude first t).andThen fun r => ?_
  unfold suffix
  split
  · exact spells_takeWhile _ r
  · exact spells_nothing r

/-- A number is an integer or a float. -/
theorem kind_scan (first : Char) (t : Text) :
    (scan first t).1 = .intNumber ∨ (scan first t).1 = .floatNumber := by
  have decimal (t : Text) : (decimal t).1 = .intNumber ∨ (decimal t).1 = .floatNumber := by
    simp only [Number.decimal, afterDigits]
    split
    · exact .inr rfl
    · split
      · exact .inr rfl
      · exact .inl rfl
  change (magnitude first t).1 = _ ∨ (magnitude first t).1 = _
  unfold magnitude
  split
  · split
    · exact .inl rfl
    split
    · exact .inl rfl
    · exact decimal _
  · exact decimal _

theorem fault_scan (first : Char) (t : Text) : (scan first t).2.fault = none := by
  have suffixed (r : Text) : (suffix r).fault = none := by
    unfold suffix
    split <;> rfl
  exact suffixed _

end Number

namespace Token

open Piece

theorem spells_lifetimeOrCharacter (t : Text) : (lifetimeOrCharacter t).2.Spells t := by
  unfold lifetimeOrCharacter
  split
  · split
    · exact spells_takeWhile _ _
    · exact spells_literal _ _ _
  · exact spells_literal _ _ _

theorem spells_scanPlain (c : Char) (t : Text) : (scanPlain c t).2.Spells t := by
  unfold scanPlain
  split
  · exact spells_takeWhile _ _
  split
  · exact Number.spells_scan c t
  split
  · exact spells_lifetimeOrCharacter t
  split
  · exact spells_literal _ _ _
  split <;> exact spells_nothing t

theorem spells_scan (c : Char) (t : Text) : (scan c t).2.Spells t := by
  unfold scan
  split
  · exact spells_takeWhile _ _
  split
  · exact spells_takeWhile _ _
  · exact (spells_blockComment _ _).prepend _
  · exact spells_rawString _
  · split
    · exact (spells_takeWhile _ _).prepend _
    · exact spells_rawString _
  · exact (spells_literal _ _ _).prepend _
  · exact (spells_literal _ _ _).prepend _
  · exact (spells_rawString _).prepend _
  · exact (spells_rawString _).prepend _
  · exact spells_scanPlain c t

/-! ## Kinds -/

/-- A kind with a fixed spelling is written as that, and no token of a text is composite. -/
structure Spelled (k : Kind) (t : Text) : Prop where
  simple : k.IsSimple
  no_end : k ≠ .eof
  spelling : ∀ s, k.spelling? = some s → t = s.toList

theorem spelled_of_class {k : Kind} (t : Text)
    (h : k.pieces = [k] ∧ k ≠ .eof ∧ k.spelling? = none) : Spelled k t :=
  ⟨h.1, h.2.1, fun s hs => by rw [h.2.2] at hs; contradiction⟩

theorem spelled_keyword : ∀ p ∈ Kind.keywords ++ Kind.booleans, p.1.pieces = [p.1] ∧ p.1 ≠ .eof ∧
    p.1.spelling? = some p.2 := by
  decide

/-- A word has a kind of its own only if it is listed as a keyword. -/
theorem wordKind_cases {P : Kind → Prop} (underscore : P .underscore) (ident : P .ident)
    (listed : ∀ p ∈ Kind.keywords ++ Kind.booleans, P p.1) (w : Text) : P (wordKind w) := by
  unfold wordKind
  split
  · exact underscore
  · cases h : Kind.ofKeyword? (String.ofList w) with
    | none => exact ident
    | some k =>
      obtain ⟨p, hp, rfl⟩ := Option.map_eq_some_iff.mp
        (show ((Kind.keywords ++ Kind.booleans).find? (·.2 == String.ofList w)).map (·.1) = some k from h)
      exact listed p (List.mem_of_find?_eq_some hp)

theorem spelled_wordKind (w : Text) : Spelled (wordKind w) w := by
  unfold wordKind
  split
  · next h =>
    rw [beq_iff_eq] at h
    subst h
    have underscore : Kind.underscore.spelling? = some "_" := by decide
    refine ⟨rfl, by decide, fun s hs => ?_⟩
    obtain rfl := Option.some.inj (underscore.symm.trans hs)
    rfl
  · cases h : Kind.ofKeyword? (String.ofList w) with
    | none => exact spelled_of_class w (by decide)
    | some k =>
      obtain ⟨p, hp, rfl⟩ := Option.map_eq_some_iff.mp
        (show ((Kind.keywords ++ Kind.booleans).find? (·.2 == String.ofList w)).map (·.1) = some k from h)
      obtain ⟨simple, no_end, spelling⟩ := spelled_keyword p (List.mem_of_find?_eq_some hp)
      have word : p.2 = String.ofList w := by simpa using List.find?_some hp
      refine ⟨simple, no_end, fun s hs => ?_⟩
      obtain rfl : p.2 = s := Option.some.inj (spelling.symm.trans hs)
      rw [word, String.toList_ofList]

theorem spelled_punctuation {c : Char} {k : Kind} (h : punctuation? c = some k) : Spelled k [c] := by
  unfold punctuation? at h
  split at h
  all_goals
    cases h
    try exact ⟨rfl, by decide, fun s hs => by
      obtain rfl := Option.some.inj hs
      rfl⟩

theorem spelled_lifetimeOrCharacter (c : Char) (t : Text) :
    Spelled (lifetimeOrCharacter t).1 (c :: (lifetimeOrCharacter t).2.text) := by
  unfold lifetimeOrCharacter
  split
  · split
    · exact spelled_of_class (k := .lifetimeIdent) _ (by decide)
    · exact spelled_of_class (k := .char) _ (by decide)
  · exact spelled_of_class (k := .char) _ (by decide)

theorem spelled_scanPlain (c : Char) (t : Text) :
    Spelled (scanPlain c t).1 (c :: (scanPlain c t).2.text) := by
  unfold scanPlain
  split
  · exact spelled_wordKind _
  split
  · rcases Number.kind_scan c t with h | h
    · exact h ▸ spelled_of_class _ (by decide)
    · exact h ▸ spelled_of_class _ (by decide)
  split
  · exact spelled_lifetimeOrCharacter c t
  split
  · exact spelled_of_class (k := .string) _ (by decide)
  split
  · next h => exact spelled_punctuation h
  · exact spelled_of_class (k := .error) _ (by decide)

theorem spelled_scan (c : Char) (t : Text) : Spelled (scan c t).1 (c :: (scan c t).2.text) := by
  unfold scan
  split
  · exact spelled_of_class (k := .whitespace) _ (by decide)
  split
  · exact spelled_of_class (k := .comment) _ (by decide)
  · exact spelled_of_class (k := .comment) _ (by decide)
  · exact spelled_of_class (k := .string) _ (by decide)
  · split
    · exact spelled_of_class (k := .ident) _ (by decide)
    · exact spelled_of_class (k := .string) _ (by decide)
  · exact spelled_of_class (k := .byte) _ (by decide)
  · exact spelled_of_class (k := .byteString) _ (by decide)
  · exact spelled_of_class (k := .byteString) _ (by decide)
  · exact spelled_of_class (k := .byteString) _ (by decide)
  · exact spelled_scanPlain c t

/-! ## All tokens -/

theorem listFrom_nil (offset : Nat) : listFrom offset [] = [⟨.eof, [], offset, none⟩] := by
  rw [listFrom]

theorem listFrom_cons (offset : Nat) (c : Char) (t : Text) :
    listFrom offset (c :: t) =
      ⟨(scan c t).1, c :: (scan c t).2.text, offset, (scan c t).2.fault⟩ ::
        listFrom (offset + Text.size (c :: (scan c t).2.text)) (scan c t).2.rest := by
  rw [listFrom]

/-- Tokens that stand in a row from `start` on, none of them the end. -/
def InRow (start : Nat) : List Token → Prop
  | [] => True
  | t :: ts =>
    t.offset = start ∧ t.text ≠ [] ∧ Spelled t.kind t.text ∧ InRow (start + t.text.size) ts

/-- The tokens of a text stand in a row, with the end behind them, and spell it. -/
theorem listFrom_inRow (offset : Nat) (t : Text) : ∃ ts, listFrom offset t =
    ts ++ [⟨.eof, [], offset + t.size, none⟩] ∧ InRow offset ts ∧ ts.flatMap (·.text) = t := by
  fun_induction listFrom offset t with
  | case1 offset => exact ⟨[], rfl, trivial, rfl⟩
  | case2 offset c t scanned text ih =>
    obtain ⟨ts, row, inRow, spells⟩ := ih
    have parts : text ++ scanned.2.rest = c :: t := congrArg (c :: ·) (spells_scan c t)
    have size : offset + Text.size text + scanned.2.rest.size = offset + Text.size (c :: t) := by
      rw [← parts, Text.size_append, Nat.add_assoc]
    rw [size] at row
    refine ⟨_ :: ts, by rw [row]; rfl, ⟨rfl, List.cons_ne_nil _ _, spelled_scan c t, inRow⟩, ?_⟩
    rw [List.flatMap_cons, spells]
    exact parts

/-! ## Malformed tokens -/

/-- The kinds of the tokens that can have a fault. -/
def kindsWith : LexicalFault → List Kind
  | .unknownCharacter => [.error]
  | .missingQuote | .unterminated .rawString => [.string, .byteString]
  | .unterminated .byteLiteral => [.byte]
  | .unterminated .byteString => [.byteString]
  | .unterminated .string => [.string]
  | .unterminated .character => [.char]
  | .unterminated .blockComment => [.comment]

/-- What is wrong with a token goes with its kind, and a token without a kind is malformed. -/
structure Judged (k : Kind) (fault : Option LexicalFault) : Prop where
  known : fault = none → k ≠ .error
  fitting : ∀ f ∈ fault, k ∈ kindsWith f

theorem judged_sound {k : Kind} (h : k ≠ .error) : Judged k none := ⟨fun _ => h, nofun⟩

theorem judged_faulty {k : Kind} {f : LexicalFault} (h : k ∈ kindsWith f) : Judged k (some f) :=
  ⟨nofun, fun _ hg => Option.some.inj hg ▸ h⟩

theorem judged_unterminated {k : Kind} {w : Delimited} {fault : Option LexicalFault}
    (h : fault = none ∨ fault = some (.unterminated w)) (fitting : k ∈ kindsWith (.unterminated w)) :
    Judged k fault := by
  have known : .error ∉ kindsWith (.unterminated w) := by cases w <;> decide
  rcases h with rfl | rfl
  · exact judged_sound fun error => known (error ▸ fitting)
  · exact judged_faulty fitting

theorem fault_blockComment (depth : Nat) (t : Text) : (blockComment depth t).fault = none ∨
    (blockComment depth t).fault = some (.unterminated .blockComment) := by
  fun_induction blockComment depth t with
  | case1 t => exact .inl rfl
  | case2 depth => exact .inr rfl
  | case3 depth t ih => exact ih
  | case4 depth t ih => exact ih
  | case5 depth c t _ _ ih => exact ih

theorem fault_literal (quote : Char) (what : Delimited) (t : Text) : (literal quote what t).fault = none ∨
    (literal quote what t).fault = some (.unterminated what) := by
  fun_induction literal quote what t with
  | case1 => exact .inr rfl
  | case2 => exact .inr rfl
  | case3 c t ih => exact ih
  | case4 => exact .inl rfl
  | case5 => exact .inr rfl
  | case6 c t _ _ _ _ ih => exact ih

theorem fault_rawBody (fence t : Text) : (rawBody fence t).fault = none ∨
    (rawBody fence t).fault = some (.unterminated .rawString) := by
  fun_induction rawBody fence t with
  | case1 => exact .inr rfl
  | case2 => exact .inl rfl
  | case3 c t _ ih => exact ih

theorem judged_rawString {k : Kind} (h : k ∈ [Kind.string, .byteString]) (t : Text) :
    Judged k (rawString t).fault := by
  unfold rawString
  split
  · exact judged_unterminated (w := .rawString) (fault_rawBody _ _) h
  · exact judged_faulty (f := .missingQuote) h

theorem wordKind_ne_error (w : Text) : wordKind w ≠ .error :=
  wordKind_cases (P := (· ≠ .error)) (by decide) (by decide) (by decide) w

theorem punctuation?_ne_error (c : Char) : punctuation? c ≠ some .error := by
  unfold punctuation?
  split <;> decide

theorem judged_lifetimeOrCharacter (t : Text) :
    Judged (lifetimeOrCharacter t).1 (lifetimeOrCharacter t).2.fault := by
  unfold lifetimeOrCharacter
  split
  · split
    · exact judged_sound (k := .lifetimeIdent) (by decide)
    · exact judged_unterminated (fault_literal _ _ _) (.head _)
  · exact judged_unterminated (fault_literal _ _ _) (.head _)

theorem judged_scanPlain (c : Char) (t : Text) : Judged (scanPlain c t).1 (scanPlain c t).2.fault := by
  unfold scanPlain
  split
  · exact judged_sound (wordKind_ne_error _)
  split
  · rw [Number.fault_scan]
    rcases Number.kind_scan c t with h | h <;> exact judged_sound (by rw [h]; decide)
  split
  · exact judged_lifetimeOrCharacter t
  split
  · exact judged_unterminated (fault_literal _ _ _) (.head _)
  split
  · next h => exact judged_sound fun error => punctuation?_ne_error c (error ▸ h)
  · exact judged_faulty (f := .unknownCharacter) (.head _)

theorem judged_scan (c : Char) (t : Text) : Judged (scan c t).1 (scan c t).2.fault := by
  unfold scan
  split
  · exact judged_sound (k := .whitespace) (by decide)
  split
  · exact judged_sound (k := .comment) (by decide)
  · exact judged_unterminated (fault_blockComment _ _) (.head _)
  · exact judged_rawString (k := .string) (by decide) _
  · split
    · exact judged_sound (k := .ident) (by decide)
    · exact judged_rawString (k := .string) (by decide) _
  · exact judged_unterminated (fault_literal _ _ _) (.head _)
  · exact judged_unterminated (fault_literal _ _ _) (.head _)
  · exact judged_rawString (k := .byteString) (by decide) _
  · exact judged_rawString (k := .byteString) (by decide) _
  · exact judged_scanPlain c t

theorem judged_list (t : Text) : ∀ tok ∈ list t, Judged tok.kind tok.fault := by
  rw [list]
  generalize 0 = offset
  fun_induction listFrom offset t with
  | case1 offset =>
    rintro tok (_ | ⟨_, ⟨⟩⟩)
    exact judged_sound (k := .eof) (by decide)
  | case2 offset c t scanned text ih =>
    rintro tok (_ | ⟨_, h⟩)
    · exact judged_scan c t
    · exact ih tok h

/-- A token whose kind has a fixed spelling is not malformed. -/
theorem fault_list (t : Text) : ∀ tok ∈ list t, tok.kind.spelling? ≠ none → tok.fault = none := by
  have free : ∀ f, ∀ k ∈ kindsWith f, k.spelling? = none := by
    rintro (_ | _ | _ | _) <;> decide
  intro tok h spelled
  cases fault : tok.fault with
  | none => rfl
  | some f => exact absurd (free f _ ((judged_list t tok h).fitting f fault)) spelled

/-- Of the trivia only a block comment can be malformed. -/
theorem fault_of_trivia (t : Text) : ∀ tok ∈ list t, tok.isTrivia = true →
    ∀ f ∈ tok.fault, f = .unterminated .blockComment := by
  have others : ∀ f, (∃ k ∈ kindsWith f, k.isTrivia = true) → f = .unterminated .blockComment := by
    rintro (_ | _ | _ | _) <;> decide
  exact fun tok h trivia f fault => others f ⟨_, (judged_list t tok h).fitting f fault, trivia⟩

end Token

end Verbatim
