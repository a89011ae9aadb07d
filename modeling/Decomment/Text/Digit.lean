import Decomment.Word
import Decomment.Text.Blank

/-!
# Digits and numerals

The decimal digits of every script (Unicode category Nd) come in blocks of ten.  Numerals are read
from ASCII digits alone.

**Results.**
* `isDecimal_of_isAscii`: the ASCII digits are decimal digits.
* `isDecimal_eq_false_of_isBlank`: no blank is one.
* `numeralValue_numeral`: the numeral of a number has its value.
-/

namespace Decomment
namespace Text

/-- The zero of each block of ten decimal digits. -/
def decimalZeros : List Nat :=
  [0x0030, 0x0660, 0x06F0, 0x07C0, 0x0966, 0x09E6, 0x0A66, 0x0AE6, 0x0B66, 0x0BE6, 0x0C66, 0x0CE6,
   0x0D66, 0x0DE6, 0x0E50, 0x0ED0, 0x0F20, 0x1040, 0x1090, 0x17E0, 0x1810, 0x1946, 0x19D0, 0x1A80,
   0x1A90, 0x1B50, 0x1BB0, 0x1C40, 0x1C50, 0xA620, 0xA8D0, 0xA900, 0xA9D0, 0xA9F0, 0xAA50, 0xABF0,
   0xFF10, 0x104A0, 0x10D30, 0x10D40, 0x11066, 0x110F0, 0x11136, 0x111D0, 0x112F0, 0x11450,
   0x114D0, 0x11650, 0x116C0, 0x116D0, 0x116DA, 0x11730, 0x118E0, 0x11950, 0x11BF0, 0x11C50,
   0x11D50, 0x11DA0, 0x11F50, 0x16130, 0x16A60, 0x16AC0, 0x16B50, 0x16D70, 0x1CCF0, 0x1D7CE,
   0x1D7D8, 0x1D7E2, 0x1D7EC, 0x1D7F6, 0x1E140, 0x1E2F0, 0x1E4F0, 0x1E5F1, 0x1E950, 0x1FBF0]

/-- The characters of the Unicode category Nd. -/
def isDecimal (c : Char) : Bool :=
  decimalZeros.any fun first => first ≤ c.toNat && c.toNat < first + 10

def isAsciiDigit (c : Char) : Bool :=
  '0' ≤ c && c ≤ '9'

/-- The value of an ASCII digit. -/
def digitValue (c : Char) : Nat :=
  c.toNat - '0'.toNat

/-- The value of a hexadecimal digit. -/
def hexValue (c : Char) : Option Nat :=
  if isAsciiDigit c then some (digitValue c)
  else if 'a' ≤ c && c ≤ 'f' then some (c.toNat - 'a'.toNat + 10)
  else if 'A' ≤ c && c ≤ 'F' then some (c.toNat - 'A'.toNat + 10)
  else none

/-- The value of a row of ASCII digits. -/
def numeralValue (t : Text) : Nat :=
  t.foldl (fun n c => 10 * n + digitValue c) 0

/-- The ASCII digit with a value below ten. -/
def digit (n : Nat) : Char :=
  Char.ofNat ('0'.toNat + n % 10)

/-- The lower-case hexadecimal digit with a value below sixteen. -/
def hexDigit (n : Nat) : Char :=
  if n < 10 then digit n else Char.ofNat ('a'.toNat + (n - 10))

/-- The shortest row of ASCII digits with a value. -/
def numeral (n : Nat) : Text :=
  if n < 10 then [digit n] else numeral (n / 10) ++ [digit n]
termination_by n
decreasing_by omega

/-- Reads a row of ASCII digits with a value of at most `max`. -/
def readNumeral (max : Nat) (t : Text) : Option Nat :=
  if !t.isEmpty && t.all isAsciiDigit && numeralValue t ≤ max then some (numeralValue t)
  else none

/-- Reads a count: a row of ASCII digits, below `2 ^ 64`, with or without a plus sign. -/
def readCount (t : Text) : Option Nat :=
  match t with
  | '+' :: t => readNumeral Word.max t
  | t => readNumeral Word.max t

theorem isDecimal_of_isAscii {c : Char} (h : isAsciiDigit c = true) : isDecimal c = true := by
  simp only [isAsciiDigit, Bool.and_eq_true, decide_eq_true_eq] at h
  have h0 : '0'.toNat ≤ c.toNat := h.1
  have h9 : c.toNat ≤ '9'.toNat := h.2
  simp only [isDecimal, decimalZeros, List.any_cons, Bool.or_eq_true, Bool.and_eq_true,
    decide_eq_true_eq]
  left
  constructor
  · exact h0
  · exact Nat.lt_succ_of_le h9

/-- No blank is a digit: the blocks of digits lie between the blanks. -/
theorem isDecimal_eq_false_of_isBlank {c : Char} (h : isBlank c = true) : isDecimal c = false := by
  have between : ∀ first ∈ decimalZeros, (0x20 < first ∧ first + 10 ≤ 0x85) ∨
      (0xA0 < first ∧ first + 10 ≤ 0x1680) ∨ (0x1680 < first ∧ first + 10 ≤ 0x2000) ∨
        0x3000 < first := by
    decide
  simp only [isBlank, Bool.or_eq_true, Bool.and_eq_true, decide_eq_true_eq, beq_iff_eq] at h
  simp only [isDecimal, List.any_eq_false, Bool.and_eq_true, decide_eq_true_eq, not_and, Nat.not_lt]
  intro first hfirst hle
  have place := between first hfirst
  omega

theorem digitValue_digit (n : Nat) : digitValue (digit n) = n % 10 := by
  have h : n % 10 < 10 := Nat.mod_lt _ (by omega)
  have v : ∀ d : Fin 10, digitValue (Char.ofNat ('0'.toNat + d.val)) = d.val := by decide
  exact v ⟨n % 10, h⟩

theorem isAsciiDigit_digit (n : Nat) : isAsciiDigit (digit n) = true := by
  have h : n % 10 < 10 := Nat.mod_lt _ (by omega)
  have v : ∀ d : Fin 10, isAsciiDigit (Char.ofNat ('0'.toNat + d.val)) = true := by decide
  exact v ⟨n % 10, h⟩

theorem numeralValue_append_singleton (t : Text) (c : Char) :
    numeralValue (t ++ [c]) = 10 * numeralValue t + digitValue c := by
  simp [numeralValue]

theorem numeralValue_numeral (n : Nat) : numeralValue (numeral n) = n := by
  rw [numeral]
  split
  · rename_i h
    rw [numeralValue, List.foldl_cons, List.foldl_nil, digitValue_digit]
    omega
  · rw [numeralValue_append_singleton, numeralValue_numeral (n / 10), digitValue_digit]
    omega
termination_by n
decreasing_by omega

theorem all_isAsciiDigit_numeral (n : Nat) : (numeral n).all isAsciiDigit = true := by
  rw [numeral]
  split
  · simp [isAsciiDigit_digit]
  · simp [all_isAsciiDigit_numeral (n / 10), isAsciiDigit_digit]
termination_by n
decreasing_by omega

end Text
end Decomment
