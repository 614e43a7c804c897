/-!
# Spans

A span is a stretch of a text given by the offset where it starts and by its length in bytes, so its
end never lies before its start.
-/
namespace Verbatim

structure Span where
  start : Nat
  len : Nat
  deriving DecidableEq, Repr, Inhabited

namespace Span

def stop (s : Span) : Nat := s.start + s.len

/-- The span between two offsets, if they come in that order. -/
def between? (start stop : Nat) : Option Span :=
  if start ≤ stop then some ⟨start, stop - start⟩ else none

def isEmpty (s : Span) : Bool := s.len == 0

/-- Whether `inner` lies within `s`, its ends included. -/
def covers (s inner : Span) : Bool := s.start ≤ inner.start && inner.stop ≤ s.stop

theorem covers_iff {s inner : Span} :
    s.covers inner = true ↔ s.start ≤ inner.start ∧ inner.stop ≤ s.stop := by
  rw [covers, Bool.and_eq_true, decide_eq_true_eq, decide_eq_true_eq]

theorem covers_trans {s t u : Span} (st : s.covers t = true) (tu : t.covers u = true) :
    s.covers u = true := by
  rw [covers_iff] at st tu ⊢
  omega

/-- Whether an offset lies within `s`, both ends included. -/
def touches (s : Span) (offset : Nat) : Bool := s.start ≤ offset && offset ≤ s.stop

theorem touches_iff {s : Span} {offset : Nat} :
    s.touches offset = true ↔ s.start ≤ offset ∧ offset ≤ s.stop := by
  rw [touches, Bool.and_eq_true, decide_eq_true_eq, decide_eq_true_eq]

def shift (s : Span) (n : Nat) : Span := ⟨s.start + n, s.len⟩

/-- Both ends with two points in between. -/
def render (s : Span) : String := toString s.start ++ ".." ++ toString s.stop

end Span

end Verbatim
