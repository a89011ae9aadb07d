import Decomment.Word

/-!
# Ranges of lines

A selection says which lines of a file are processed.  A selection without ranges stands for the
whole file, not for no line.

**Results.**
* `includes_union`: a union includes the lines of its parts, and whole files absorb.
* `isAll_union`: a union is the whole file if one of its parts is.
-/

namespace Decomment

def maxLine : Nat :=
  Word.max

/-- The lines from `first` to `last`, both included, counted from one. -/
structure LineSpan where
  first : Nat
  last : Nat
deriving DecidableEq, Repr

namespace LineSpan

/-- The line lies in the range. -/
def contains (r : LineSpan) (line : Nat) : Bool :=
  r.first ≤ line && line ≤ r.last

end LineSpan

/-- The line lies in one of the ranges. -/
def isCovered (line : Nat) (ranges : List LineSpan) : Bool :=
  ranges.any (·.contains line)

/-- The lines of a file that are processed. -/
structure Selection where
  ranges : List LineSpan
deriving DecidableEq, Repr

namespace Selection

def all : Selection :=
  ⟨[]⟩

/-- No range is named, so that every line counts. -/
def isAll (s : Selection) : Bool :=
  s.ranges.isEmpty

def includes (s : Selection) (line : Nat) : Bool :=
  s.isAll || isCovered line s.ranges

/-- The lines of both.  A whole file absorbs every range. -/
def union (s t : Selection) : Selection :=
  if s.isAll || t.isAll then all else ⟨s.ranges ++ t.ranges⟩

theorem includes_union (s t : Selection) (line : Nat) :
    (s.union t).includes line = (s.includes line || t.includes line) := by
  rcases s with ⟨_ | ⟨r, rs⟩⟩ <;> rcases t with ⟨_ | ⟨u, us⟩⟩ <;>
    simp [union, includes, isAll, all, isCovered, Bool.or_assoc]

theorem isAll_union (s t : Selection) : (s.union t).isAll = (s.isAll || t.isAll) := by
  rcases s with ⟨_ | ⟨r, rs⟩⟩ <;> rcases t with ⟨_ | ⟨u, us⟩⟩ <;> simp [union, isAll, all]

end Selection
end Decomment
