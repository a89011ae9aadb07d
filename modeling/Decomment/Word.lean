/-!
# Sizes of words

**Results.**
* `size_eq`, `half_eq`: the sizes as powers of two.
-/

namespace Decomment
namespace Word

/-- How many numbers 64 bits hold. -/
def size : Nat :=
  0x10000000000000000

/-- How many of them have no sign, if one bit is the sign. -/
def half : Nat :=
  0x8000000000000000

/-- The largest number in 64 bits. -/
def max : Nat :=
  0xFFFFFFFFFFFFFFFF

theorem size_eq : size = Nat.pow 2 64 := rfl

theorem half_eq : half = Nat.pow 2 63 := rfl

theorem max_add_one : max + 1 = size := rfl

end Word
end Decomment
