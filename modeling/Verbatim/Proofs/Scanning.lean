import Verbatim.Grammar.Layout
import Verbatim.Proofs.Spelling

/-!
# What is written is read back

Whatever lexemes a text spells, the scan of the text gives just these, each with the offset at which it is
written. So a layout is read back lexeme by lexeme, whatever stands in its gaps and in its terminals.
-/
namespace Verbatim.Grammar

open Lexeme

/-! ## One lexeme -/

theorem isNamePart_of_isNameStart {c : Char} (h : isNameStart c = true) : isNamePart c = true := by
  simp only [isNameStart, isNamePart, Char.isAlphanum, Bool.or_eq_true] at h ⊢
  exact h.imp_left .inl

/-- No blank is part of a name: these lie between the blanks of ASCII and all others. -/
theorem not_isBlank_of_isNamePart {c : Char} (h : isNamePart c = true) : Text.isBlank c = false := by
  have letter : 48 ≤ c.toNat ∧ c.toNat ≤ 122 := by
    delta isNamePart Char.isAlphanum Char.isAlpha Char.isUpper Char.isLower Char.isDigit at h
    simp only [Bool.or_eq_true, Bool.and_eq_true, decide_eq_true_eq, beq_iff_eq, ge_iff_le,
      UInt32.le_iff_toNat_le] at h
    rcases h with ((h | h) | h) | rfl
    · exact ⟨le_trans (by decide) h.1, h.2.trans (by decide)⟩
    · exact ⟨le_trans (by decide) h.1, h.2⟩
    · exact ⟨h.1, h.2.trans (by decide)⟩
    · decide
  obtain ⟨lo, hi⟩ := letter
  have between : ¬ c.toNat < 9 ∧ ¬ c.toNat ≤ 13 ∧ ¬ c.toNat < 32 ∧ ¬ c.toNat ≤ 32 ∧ c.toNat < 133 := by
    omega
  simp [Text.isBlank, Text.blanks, Text.inRanges, between]

/-- What is taken as long as a property holds is told by the property alone and by what stops it. -/
theorem run_stops {f : Char → Bool} {run rest : Text} (inside : ∀ c ∈ run, f c = true)
    (stop : ∀ c ∈ rest.head?, f c = false) :
    (run ++ rest).takeWhile f = run ∧ (run ++ rest).dropWhile f = rest := by
  rw [List.takeWhile_append_of_pos inside, List.dropWhile_append_of_pos inside]
  cases rest with
  | nil => simp
  | cons c rest => simp [stop c rfl]

/-- The contents of a terminal are read up to the quote behind them. -/
theorem scanTerminal_escaped (start offset : Nat) (s rest : Text) :
    ∃ left, scanTerminal start offset (escaped s ++ '\'' :: rest) = .ok (s, left) ∧ left.val = rest := by
  induction s generalizing offset with
  | nil =>
    rw [escaped, List.nil_append, scanTerminal.eq_def]
    exact ⟨⟨rest, Nat.le_succ _⟩, rfl, rfl⟩
  | cons c s ih =>
    by_cases escape : (c == '\'' || c == '\\') = true
    · obtain ⟨left, read, eq⟩ := ih (offset + 2)
      have slash : ('\\' == '\'') = false := by decide
      rw [escaped, if_pos escape, List.cons_append, List.cons_append]
      refine ⟨(left.cons c).cons '\\', ?_, eq⟩
      rw [scanTerminal.eq_def]
      simp only [slash, escape, read]
      rfl
    · obtain ⟨left, read, eq⟩ := ih (offset + c.utf8Size)
      rw [escaped, if_neg escape, List.cons_append]
      rw [Bool.not_eq_true, Bool.or_eq_false_iff] at escape
      refine ⟨left.cons c, ?_, eq⟩
      rw [scanTerminal.eq_def]
      simp only [escape, read]
      rfl

/-- A lexeme is a name, a terminal, or written as one character of its own. -/
theorem written_cases (l : Lexeme) : (∃ t, l = .name t) ∨ (∃ t, l = .terminal t) ∨
    ∃ c, l.written = [c] ∧ mark? c = some l ∧ Text.isBlank c = false ∧ c ≠ '/' ∧ c ≠ '\'' ∧
      isNameStart c = false := by
  cases l with
  | name t => exact .inl ⟨t, rfl⟩
  | terminal t => exact .inr (.inl ⟨t, rfl⟩)
  | _ => exact .inr (.inr ⟨_, rfl, rfl, by decide, by decide, by decide, by decide⟩)

/-- A lexeme is read where it is written, if nothing behind it makes it longer. It starts neither like a gap
nor like a comment. -/
theorem scanLexeme_written (offset : Nat) {l : Lexeme} {rest : Text} (whole : l.Whole rest) :
    ∃ c tail left, l.written ++ rest = c :: tail ∧ scanLexeme offset c tail = .ok (l, left) ∧
      left.val = rest ∧ Text.isBlank c = false ∧ c ≠ '/' := by
  rcases written_cases l with ⟨n, rfl⟩ | ⟨s, rfl⟩ | ⟨c, written, mark, blank, noComment, noQuote, noName⟩
  · obtain ⟨⟨c, cs, rfl, start, parts⟩, stop⟩ := whole
    obtain ⟨front, back⟩ := run_stops parts stop
    have noQuote : (c == '\'') = false := by
      rw [beq_eq_false_iff_ne]
      rintro rfl
      exact absurd start (by decide)
    refine ⟨c, cs ++ rest, ⟨_, (List.dropWhile_sublist isNamePart).length_le⟩, rfl, ?_, back,
      not_isBlank_of_isNamePart (isNamePart_of_isNameStart start), ?_⟩
    · unfold scanLexeme
      simp only [noQuote, start, front]
      rfl
    · rintro rfl
      exact absurd start (by decide)
  · obtain ⟨left, read, eq⟩ := scanTerminal_escaped offset (offset + 1) s rest
    have parts : (Lexeme.terminal s).written ++ rest = '\'' :: (escaped s ++ '\'' :: rest) := by simp [written]
    refine ⟨'\'', _, left, parts, ?_, eq, by decide, by decide⟩
    unfold scanLexeme
    simp only [read]
    rfl
  · refine ⟨c, rest, ⟨rest, Nat.le_refl _⟩, by rw [written]; rfl, ?_, rfl, blank, noComment⟩
    unfold scanLexeme
    simp only [beq_eq_false_iff_ne.mpr noQuote, noName, mark]
    rfl

/-! ## All lexemes -/

/-- The lexemes that a text spells are what the scan of it gives. -/
theorem Spells.scanFrom_eq {offset : Nat} {t : Text} {ts : List Placed} (h : Spells offset t ts) :
    scanFrom offset t = .ok ts := by
  induction h with
  | done offset => rw [scanFrom]
  | blank blank _ ih => rw [scanFrom, if_pos blank, ih]
  | @comment offset line rest ts within ends _ ih =>
    have slash : Text.isBlank '/' = false := by decide
    have inside : ∀ c ∈ '/' :: line, (c != '\n') = true := by
      rintro c (_ | ⟨_, member⟩)
      · decide
      · exact bne_iff_ne.mpr fun eq => within (eq ▸ member)
    have stop : ∀ c ∈ rest.head?, (c != '\n') = false := by
      intro c head
      rw [ends c head]
      rfl
    obtain ⟨front, back⟩ := run_stops inside stop
    rw [List.cons_append] at front back
    have size : offset + 1 + Text.size ('/' :: line) = offset + 2 + Text.size line := by
      have : ('/' : Char).utf8Size = 1 := by decide
      rw [Text.size_cons, this]
      omega
    rw [scanFrom, slash, if_neg (by decide), if_pos (by simp), front, back, size, ih]
  | @lexeme offset l rest ts whole _ ih =>
    obtain ⟨c, tail, left, parts, read, eq, blank, noComment⟩ := scanLexeme_written offset whole
    obtain ⟨left, less⟩ := left
    obtain rfl : left = rest := eq
    rw [parts, scanFrom, blank, if_neg (by decide), if_neg (by simp [noComment]), read]
    simp only [ih]
    rfl

/-- A scan succeeds with some lexemes exactly if the text spells them. -/
theorem scan_eq_ok_iff {t : Text} {ts : List Placed} : scan t = .ok ts ↔ Spells 0 t ts :=
  ⟨scan_spells, Spells.scanFrom_eq⟩

/-! ## Layouts -/

/-- A lexeme that can be written is all that can be read in its place if no name goes on behind it. -/
theorem Lexeme.Writable.whole {l : Lexeme} (h : l.Writable) {rest : Text}
    (stop : ∀ d ∈ rest.head?, isNamePart d = false) : l.Whole rest := by
  cases l with
  | name n =>
    obtain ⟨nonempty, parts, noDigit⟩ := h
    cases n with
    | nil => exact absurd rfl nonempty
    | cons c cs =>
      refine ⟨⟨c, cs, rfl, ?_, fun d member => parts d (List.mem_cons_of_mem _ member)⟩, stop⟩
      have part := parts c List.mem_cons_self
      simpa [isNamePart, isNameStart, Char.isAlphanum, noDigit c rfl] using part
  | _ => trivial

/-- Nothing in a gap is part of a name. -/
theorem Gap.stops (g : Gap) (rest : Text) : ∀ d ∈ (g.text ++ rest).head?, isNamePart d = false := by
  obtain ⟨fillers, nonempty⟩ := g
  cases fillers with
  | nil => exact absurd rfl nonempty
  | cons f fs =>
    cases f with
    | blank c isBlank =>
      rintro d ⟨⟩
      rw [Bool.eq_false_iff]
      intro part
      exact absurd isBlank (Bool.eq_false_iff.mp (not_isBlank_of_isNamePart part))
    | comment line within =>
      rintro d ⟨⟩
      decide

/-- A text spells the same lexemes with a gap in front of it. -/
theorem spells_fillers {offset : Nat} {rest : Text} {ts : List Placed} (fs : List Filler)
    (h : Spells (offset + Text.size (fs.flatMap Filler.text)) rest ts) :
    Spells offset (fs.flatMap Filler.text ++ rest) ts := by
  induction fs generalizing offset with
  | nil => exact h
  | cons f fs ih =>
    rw [List.flatMap_cons, Text.size_append, ← Nat.add_assoc] at h
    rw [List.flatMap_cons, List.append_assoc]
    cases f with
    | blank c isBlank => exact .blank isBlank (ih h)
    | comment line within =>
      have behind : Spells (offset + 2 + Text.size line + ('\n' : Char).utf8Size)
          (fs.flatMap Filler.text ++ rest) ts := by
        apply ih
        have size : Text.size (Filler.comment line within).text =
            2 + Text.size line + ('\n' : Char).utf8Size := by
          have : ('/' : Char).utf8Size = 1 := by decide
          simp only [Filler.text, Text.size_cons, Text.size_append, Text.size_nil, this]
          omega
        rwa [size, ← Nat.add_assoc, ← Nat.add_assoc] at h
      have feed := Spells.blank (c := '\n') (by decide) behind
      have whole := Spells.comment within (by rintro c ⟨⟩; rfl) feed
      simpa [Filler.text] using whole

namespace Layout

/-- Lexemes with the offsets at which they are written if the first of them stands at `offset`. -/
def placedFrom (offset : Nat) : List Entry → List Placed
  | [] => []
  | e :: es => ⟨e.lexeme, offset⟩ :: placedFrom (offset + Text.size e.text) es

theorem lexemes_placedFrom (offset : Nat) (es : List Entry) :
    (placedFrom offset es).map (·.lexeme) = es.map (·.lexeme) := by
  induction es generalizing offset with
  | nil => rfl
  | cons e es ih => exact congrArg (e.lexeme :: ·) (ih _)

/-- The offset of a lexeme is the size of what is written before it, and there it stands. -/
theorem offset_placedFrom {offset : Nat} {es : List Entry} {i : Nat} {t : Placed}
    (h : (placedFrom offset es)[i]? = some t) :
    t.offset = offset + Text.size ((es.take i).flatMap Entry.text) ∧
      ∃ back, es.flatMap Entry.text = (es.take i).flatMap Entry.text ++ t.lexeme.written ++ back := by
  induction es generalizing offset i with
  | nil => simp [placedFrom] at h
  | cons e es ih =>
    cases i with
    | zero =>
      obtain rfl := Option.some.inj h
      exact ⟨rfl, e.gap.text ++ es.flatMap Entry.text, by simp [Entry.text]⟩
    | succ i =>
      obtain ⟨place, back, parts⟩ := ih h
      refine ⟨?_, back, ?_⟩
      · rw [place, List.take_succ_cons, List.flatMap_cons, Text.size_append, Nat.add_assoc]
      · rw [List.flatMap_cons, parts, List.take_succ_cons, List.flatMap_cons]
        simp only [List.append_assoc]

theorem spells_entries (offset : Nat) (es : List Entry) :
    Spells offset (es.flatMap Entry.text) (placedFrom offset es) := by
  induction es generalizing offset with
  | nil => exact .done offset
  | cons e es ih =>
    rw [List.flatMap_cons, Entry.text, List.append_assoc, placedFrom]
    apply Spells.lexeme (e.writable.whole (e.gap.stops _))
    apply spells_fillers
    have size : Text.size e.text =
        Text.size e.lexeme.written + Text.size (e.gap.fillers.flatMap Filler.text) := Text.size_append _ _
    rw [Nat.add_assoc, ← size]
    exact ih _

/-- A layout is read back: the scan gives just the lexemes that were written, whatever stands in the gaps
and in the terminals, and the offset of each is the size of all that is written before it. -/
theorem scan_text (l : Layout) : ∃ ts, scan l.text = .ok ts ∧ ts.map (·.lexeme) = l.lexemes ∧
    ∀ i t, ts[i]? = some t → t.offset = Text.size (l.upTo i).text ∧
      ∃ back, l.text = (l.upTo i).text ++ t.lexeme.written ++ back := by
  have spells : Spells 0 l.text (placedFrom (Text.size l.lead.text) l.entries) := by
    apply spells_fillers
    rw [Nat.zero_add]
    exact spells_entries _ _
  refine ⟨_, scan_eq_ok_iff.mpr spells, lexemes_placedFrom _ _, fun i t found => ?_⟩
  obtain ⟨place, back, parts⟩ := offset_placedFrom found
  refine ⟨?_, back, ?_⟩
  · rw [place, text, Text.size_append]
    rfl
  · rw [text, parts, text]
    simp only [upTo, List.append_assoc]

/-- A terminal with a quote, two slashes and a backslash in it, behind a comment that holds a quote. -/
example : scan "//'\n'\\'//\\\\' ".toList = .ok [⟨.terminal "'//\\".toList, 4⟩] := by cbv

end Layout

end Verbatim.Grammar
