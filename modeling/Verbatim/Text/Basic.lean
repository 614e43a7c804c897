/-!
# Texts and their byte offsets

A text is a list of characters. Every length and offset in the library counts the bytes of the UTF-8
encoding, so an offset can fall inside a character; cutting a text there is refused.
-/
namespace Verbatim

abbrev Text := List Char

namespace Text

/-- Number of bytes of the UTF-8 encoding. -/
def size : Text → Nat
  | [] => 0
  | c :: rest => c.utf8Size + size rest

@[simp] theorem size_nil : size [] = 0 := rfl

@[simp] theorem size_cons (c : Char) (t : Text) : size (c :: t) = c.utf8Size + size t := rfl

@[simp] theorem size_append (s t : Text) : size (s ++ t) = size s + size t := by
  induction s with
  | nil => simp
  | cons c s ih => simp [ih, Nat.add_assoc]

theorem eq_nil_of_size {t : Text} (h : t.size = 0) : t = [] := by
  cases t with
  | nil => rfl
  | cons c t =>
    have := c.utf8Size_pos
    simp only [size_cons] at h
    omega

/-- Cuts a text after exactly `n` bytes. -/
def cut? : Text → Nat → Option (Text × Text)
  | t, 0 => some ([], t)
  | [], _ + 1 => none
  | c :: rest, n + 1 =>
    if c.utf8Size ≤ n + 1 then
      (cut? rest (n + 1 - c.utf8Size)).map fun (front, back) => (c :: front, back)
    else none

/-- Both parts of a cut are the text again, and the first has the asked size. -/
theorem append_of_cut? {t front back : Text} {n : Nat} (h : cut? t n = some (front, back)) :
    front ++ back = t ∧ size front = n := by
  fun_induction cut? t n generalizing front back with
  | case1 => simp_all
  | case2 => simp at h
  | case3 c rest n hc ih =>
    obtain ⟨⟨f, b⟩, hcut, heq⟩ := Option.map_eq_some_iff.1 h
    obtain ⟨rfl, rfl⟩ := Prod.mk.inj heq
    obtain ⟨happ, hsize⟩ := ih hcut
    exact ⟨by rw [List.cons_append, happ], by simp only [size_cons, hsize]; omega⟩
  | case4 => simp at h

/-- Whether a text has `part` at its front. -/
def startsWith (t part : Text) : Bool := part.isPrefixOf t

/-- Whether `part` occurs anywhere in a text. -/
def contains (t part : Text) : Bool :=
  match t with
  | [] => part.isEmpty
  | _ :: rest => startsWith t part || contains rest part

def hasLineBreak (t : Text) : Bool := t.any (· == '\n')

end Text

end Verbatim
