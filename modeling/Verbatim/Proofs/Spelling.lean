import Mathlib.Data.List.TakeWhile
import Mathlib.Tactic.Common
import Verbatim.Grammar.Spelling

/-!
# The lexemes of a grammar spell its text

Every lexeme is read where its written form stands, and between two of them are blanks and comments only.
-/
namespace Verbatim.Grammar

open Lexeme

theorem map_eq_ok {ε α β : Type} {f : α → β} {x : Except ε α} {b : β} (h : x.map f = .ok b) :
    ∃ a, x = .ok a ∧ f a = b := by
  cases x with
  | error => cases h
  | ok a => exact ⟨a, rfl, Except.ok.inj h⟩

/-! ## One lexeme -/

theorem scanTerminal_spells {start offset : Nat} {t s : Text} {left : Remainder t}
    (h : scanTerminal start offset t = .ok (s, left)) : t = escaped s ++ '\'' :: left.val := by
  fun_induction scanTerminal start offset t generalizing s with
  | case1 => cases h
  | case2 offset c rest quote =>
    cases h
    rw [beq_iff_eq.mp quote]
    rfl
  | case3 => cases h
  | case4 offset c quote slash e rest escape ih =>
    obtain ⟨⟨inner, r⟩, read, eq⟩ := map_eq_ok h
    cases eq
    rw [escaped, if_pos escape, beq_iff_eq.mp slash]
    exact congrArg ('\\' :: e :: ·) (ih read)
  | case5 => cases h
  | case6 offset c rest quote slash ih =>
    obtain ⟨⟨inner, r⟩, read, eq⟩ := map_eq_ok h
    cases eq
    have plain : (c == '\'' || c == '\\') = false := by
      rw [Bool.or_eq_false_iff]
      exact ⟨Bool.eq_false_iff.mpr quote, Bool.eq_false_iff.mpr slash⟩
    rw [escaped, if_neg (Bool.eq_false_iff.mp plain)]
    exact congrArg (c :: ·) (ih read)

theorem written_of_mark? {c : Char} {l : Lexeme} (h : mark? c = some l) :
    l.written = [c] ∧ ∀ rest, l.Whole rest := by
  unfold mark? at h
  split at h <;> cases h <;> exact ⟨rfl, fun _ => trivial⟩

theorem scanLexeme_spells {offset : Nat} {c : Char} {rest : Text} {l : Lexeme} {left : Remainder rest}
    (h : scanLexeme offset c rest = .ok (l, left)) :
    c :: rest = l.written ++ left.val ∧ l.Whole left.val := by
  unfold scanLexeme at h
  split at h
  · next quote =>
    obtain ⟨⟨inner, r⟩, read, eq⟩ := map_eq_ok h
    cases eq
    refine ⟨?_, trivial⟩
    rw [beq_iff_eq.mp quote]
    refine (congrArg ('\'' :: ·) (scanTerminal_spells read)).trans ?_
    simp [written]
  · split at h
    · next start =>
      cases h
      refine ⟨congrArg (c :: ·) List.takeWhile_append_dropWhile.symm, ⟨c, _, rfl, start, ?_⟩, ?_⟩
      · exact fun d member => List.mem_takeWhile_imp member
      · intro d head
        have := List.head?_dropWhile_not isNamePart rest
        rw [Option.mem_def.mp head] at this
        simpa using this
    · split at h
      · next m mark =>
        cases h
        obtain ⟨written, whole⟩ := written_of_mark? mark
        exact ⟨by rw [written]; rfl, whole _⟩
      · cases h

/-! ## All lexemes -/

theorem scanFrom_spells {offset : Nat} {t : Text} {ts : List Placed} (h : scanFrom offset t = .ok ts) :
    Spells offset t ts := by
  fun_induction scanFrom offset t generalizing ts with
  | case1 =>
    cases h
    exact .done _
  | case2 offset c rest blank ih => exact .blank blank (ih h)
  | case3 offset c rest blank comment ih =>
    rw [Bool.and_eq_true, beq_iff_eq, beq_iff_eq] at comment
    obtain ⟨rfl, second⟩ := comment
    obtain ⟨rest, rfl⟩ := List.head?_eq_some_iff.mp second
    have slash : ('/' != '\n') = true := by decide
    have front : ('/' :: rest).takeWhile (· != '\n') = '/' :: rest.takeWhile (· != '\n') :=
      List.takeWhile_cons_of_pos slash
    have back : ('/' :: rest).dropWhile (· != '\n') = rest.dropWhile (· != '\n') :=
      List.dropWhile_cons_of_pos slash
    rw [front, back] at h ih
    have parts : rest.takeWhile (· != '\n') ++ rest.dropWhile (· != '\n') = rest :=
      List.takeWhile_append_dropWhile
    rw [← parts]
    refine .comment (fun inside => ?_) (fun c head => ?_) ?_
    · simpa using List.mem_takeWhile_imp inside
    · have := List.head?_dropWhile_not (· != '\n') rest
      rw [Option.mem_def.mp head] at this
      simpa using this
    · have same : offset + 1 + Text.size ('/' :: rest.takeWhile (· != '\n')) =
          offset + 2 + Text.size (rest.takeWhile (· != '\n')) := by
        have : ('/' : Char).utf8Size = 1 := by decide
        rw [Text.size_cons, this]
        omega
      exact same ▸ ih h
  | case4 => cases h
  | case5 offset c rest blank comment l left less read ih =>
    obtain ⟨more, scanned, rfl⟩ := map_eq_ok h
    obtain ⟨parts, whole⟩ := scanLexeme_spells read
    rw [parts]
    exact .lexeme whole (ih scanned)

theorem scan_spells {t : Text} {ts : List Placed} (h : scan t = .ok ts) : Spells 0 t ts :=
  scanFrom_spells h

end Verbatim.Grammar
