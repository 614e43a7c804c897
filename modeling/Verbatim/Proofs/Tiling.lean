import Verbatim.Proofs.Lexing
import Verbatim.Token.Reader

/-!
# Tokens tile a text

The tokens of a text are pieces of it, one behind the other and none of them empty, with one end token
behind the last. A reader that is asked for one token after another gives exactly these, and from then on
only the end token.
-/
namespace Verbatim.Token

/-- The token behind all others. -/
def endOf (t : Text) : Token := ⟨.eof, [], t.size, none⟩

/-- A token in a row starts where the texts in front of it end. -/
theorem InRow.offset_eq {start : Nat} {front back : List Token} {tok : Token}
    (h : InRow start (front ++ tok :: back)) :
    tok.offset = start + Text.size (front.flatMap (·.text)) := by
  induction front generalizing start with
  | nil => exact h.1
  | cons first front ih =>
    rw [ih h.2.2.2, List.flatMap_cons, Text.size_append, Nat.add_assoc]

theorem InRow.mem {start : Nat} {ts : List Token} (h : InRow start ts) :
    ∀ tok ∈ ts, tok.kind ≠ .eof ∧ tok.text ≠ [] := by
  induction ts generalizing start with
  | nil => simp
  | cons first ts ih =>
    rintro tok (_ | ⟨_, mem⟩)
    · exact ⟨h.2.2.1.no_end, h.2.1⟩
    · exact ih h.2.2.2 tok mem

namespace Reader

theorem token_succ (r : Reader) (n : Nat) : r.token (n + 1) = r.next.2.token n := rfl

/-- Behind the text there is nothing but the end. -/
theorem token_stopped (offset n : Nat) : (⟨offset, []⟩ : Reader).token n = ⟨.eof, [], offset, none⟩ := by
  induction n with
  | zero => rfl
  | succ n ih => exact ih

/-- One token after another gives the list, and then its last token for ever. -/
theorem token_eq (offset : Nat) (t : Text) (n : Nat) :
    (⟨offset, t⟩ : Reader).token n =
      ((listFrom offset t)[n]?).getD ⟨.eof, [], offset + t.size, none⟩ := by
  induction n generalizing offset t with
  | zero =>
    cases t with
    | nil => rw [listFrom_nil]; rfl
    | cons c t => rw [listFrom_cons]; rfl
  | succ n ih =>
    cases t with
    | nil =>
      rw [listFrom_nil, token_stopped]
      rfl
    | cons c t =>
      have parts : c :: (scan c t).2.text ++ (scan c t).2.rest = c :: t :=
        congrArg (c :: ·) (spells_scan c t)
      have size : offset + Text.size (c :: (scan c t).2.text) + (scan c t).2.rest.size =
          offset + Text.size (c :: t) := by
        rw [← parts, Text.size_append, Nat.add_assoc]
      rw [token_succ, listFrom_cons, List.getElem?_cons_succ, ← size]
      exact ih _ _

end Reader

/-- A text is cut into its tokens and an end token without gap or overlap: each token but the last holds
some of it and starts where those before it end, all of them together spell it, and reading on and on gives
the list and then the end token for ever. -/
theorem list_tiles (t : Text) : ∃ ts, list t = ts ++ [endOf t] ∧
    (∀ tok ∈ ts, tok.kind ≠ .eof ∧ tok.text ≠ []) ∧
    (∀ front tok back, list t = front ++ tok :: back →
      tok.offset = Text.size (front.flatMap (·.text))) ∧
    (list t).flatMap (·.text) = t ∧
    ∀ n, (Reader.of t).token n = ((list t)[n]?).getD (endOf t) := by
  obtain ⟨ts, row, inRow, spells⟩ := listFrom_inRow 0 t
  rw [Nat.zero_add] at row
  have row : list t = ts ++ [endOf t] := row
  refine ⟨ts, row, inRow.mem, fun front tok back parts => ?_, ?_, fun n => ?_⟩
  · rw [row] at parts
    -- The token is the end token or one of those in front of it.
    rcases List.append_eq_append_iff.mp parts with ⟨mid, rfl, last⟩ | ⟨mid, rfl, rest⟩
    · cases mid with
      | nil =>
        obtain ⟨rfl, rfl⟩ := List.cons.inj last
        rw [List.append_nil, spells]
        rfl
      | cons first mid => simp at last
    · cases mid with
      | nil =>
        obtain ⟨rfl, rfl⟩ := List.cons.inj rest
        rw [List.append_nil] at spells
        rw [spells]
        rfl
      | cons first mid =>
        obtain ⟨rfl, rfl⟩ := List.cons.inj rest
        rw [inRow.offset_eq, Nat.zero_add]
  · rw [row, List.flatMap_append, spells]
    exact List.append_nil t
  · have all := Reader.token_eq 0 t n
    rwa [Nat.zero_add] at all

end Verbatim.Token
