import Decomment.Text.Blank

/-!
# Tables of characters

A class of characters is a list of ranges of character numbers, each with its first and its last
number.

**Results.**
* `inRanges_of_mem`: the characters of a range are in the table.
* `inRanges_eq_false_of_lt`: what lies below all ranges is not.
-/

namespace Decomment
namespace Text

/-- The character is in one of the ranges. -/
def inRanges (ranges : List (Nat × Nat)) (c : Char) : Bool :=
  ranges.any fun (first, last) => first ≤ c.toNat && c.toNat ≤ last

theorem inRanges_of_mem {ranges : List (Nat × Nat)} {r : Nat × Nat} {c : Char} (hr : r ∈ ranges)
    (first : r.1 ≤ c.toNat) (last : c.toNat ≤ r.2) : inRanges ranges c = true := by
  refine List.any_eq_true.2 ⟨r, hr, ?_⟩
  simp [first, last]

theorem inRanges_eq_false_of_lt {ranges : List (Nat × Nat)} {bound : Nat} {c : Char}
    (h : ∀ r ∈ ranges, bound ≤ r.1) (hc : c.toNat < bound) : inRanges ranges c = false := by
  refine List.any_eq_false.2 fun r hr => ?_
  have := h r hr
  simp
  omega

end Text
end Decomment
