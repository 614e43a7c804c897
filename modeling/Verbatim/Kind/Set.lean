import Verbatim.Kind

/-!
# Sets of kinds

A set of kinds is a number whose bit at a kind's place says whether the kind is in it. Equal sets are
equal numbers.
-/
namespace Verbatim

structure KindSet where
  mask : Nat
  deriving DecidableEq, Repr

namespace KindSet

def empty : KindSet := ⟨0⟩

def contains (s : KindSet) (k : Kind) : Bool := s.mask.testBit k.index

def insert (s : KindSet) (k : Kind) : KindSet := ⟨s.mask ||| 1 <<< k.index⟩

def union (s t : KindSet) : KindSet := ⟨s.mask ||| t.mask⟩

def ofList (ks : List Kind) : KindSet := ks.foldl insert empty

/-- The kinds in a set, in the order of kinds. -/
def toList (s : KindSet) : List Kind := Kind.all.filter s.contains

def isEmpty (s : KindSet) : Bool := s.mask == 0

/-- The names of the kinds in a set, between braces. -/
def render (s : KindSet) : String :=
  "\x7b" ++ String.intercalate ", " (s.toList.map Kind.label) ++ "\x7d"

end KindSet

end Verbatim
