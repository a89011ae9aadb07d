import Decomment.Text.Digit

/-!
# Doubles: the shortest decimal

A finite double is a whole number `m` times a power of two.  The reals that round to it form an
interval, whose ends belong to it exactly if `m` is even.  Its shortest decimal is a decimal in
that interval with the fewest digits, and of those the nearest.

All arithmetic is on whole numbers: a decimal `k * 10 ^ e` and a bound `b * 2 ^ q` are compared
after both are brought to whole multiples of one unit.

**Results.**
* `digits_ne_zero`: a decimal that is found has digits other than zero.
-/

namespace Decomment
namespace Double

/-- A positive double: `mantissa * 2 ^ exponent`.  `lowest` says that the gap below it is half the
gap above it. -/
structure Binary where
  mantissa : Nat
  exponent : Int
  lowest : Bool
deriving DecidableEq, Repr

/-- A positive decimal: `digits * 10 ^ exponent`. -/
structure Decimal where
  digits : Nat
  exponent : Int
deriving DecidableEq, Repr

section Decode

/-- The bit in front of a fraction, which is not written. -/
def hidden : Nat :=
  0x10000000000000

def isNegative (bits : UInt64) : Bool :=
  bits.toNat / Word.half = 1

/-- The size of a finite double, unless it is zero. -/
def decode (bits : UInt64) : Option Binary :=
  let fraction : Nat := bits.toNat % hidden
  let biased : Nat := bits.toNat / hidden % 2048
  if biased = 0 then
    if fraction = 0 then none else some ⟨fraction, -1074, false⟩
  else some ⟨hidden + fraction, (biased : Int) - 1075, fraction = 0 && biased ≠ 1⟩

end Decode

section Shortest

/-- The factors that bring quarters of `2 ^ q` and multiples of `10 ^ e` to one unit. -/
def units (q e : Int) : Nat × Nat :=
  (Nat.pow 2 (q - 2).toNat * Nat.pow 10 (-e).toNat,
    Nat.pow 2 (2 - q).toNat * Nat.pow 10 e.toNat)

/-- The decimal `k * 10 ^ e` rounds to the double. -/
def roundsTo (b : Binary) (k : Nat) (e : Int) : Bool :=
  let (two, ten) := units b.exponent e
  let low := (4 * b.mantissa - if b.lowest then 1 else 2) * two
  let high := (4 * b.mantissa + 2) * two
  let value := k * ten
  if b.mantissa % 2 = 0 then low ≤ value && value ≤ high else low < value && value < high

/-- The multiple of `10 ^ e` next to the double that rounds to it, if there is one. -/
def nearest (b : Binary) (e : Int) : Option Decimal :=
  let (two, ten) := units b.exponent e
  let value := 4 * b.mantissa * two
  let k := value / ten
  let below := k ≠ 0 && roundsTo b k e
  let above := roundsTo b (k + 1) e
  let gap := 2 * (value % ten)
  if below && (!above || gap < ten || (gap = ten && k % 2 = 0)) then some ⟨k, e⟩
  else if above then some ⟨k + 1, e⟩
  else none

/-- The power of ten of the leading digit. -/
def leadingExponent (b : Binary) : Int :=
  let guess := ((b.mantissa.log2 : Int) + b.exponent) * 30103 / 100000
  let (two, ten) := units b.exponent (guess + 1)
  if ten ≤ 4 * b.mantissa * two then guess + 1 else guess

/-- Tries ever finer grids, `left` of them, from the multiples of `10 ^ e` on. -/
def search (b : Binary) : (left : Nat) → (e : Int) → Option Decimal
  | 0, _ => none
  | left + 1, e => (nearest b e).or (search b left (e - 1))

/-- The shortest decimal that rounds to the double.  Seventeen digits always do. -/
def shortest (b : Binary) : Decimal :=
  (search b 17 (leadingExponent b)).getD ⟨b.mantissa, b.exponent⟩

theorem digits_ne_zero {b : Binary} {e : Int} {d : Decimal} (h : nearest b e = some d) :
    d.digits ≠ 0 := by
  unfold nearest at h
  simp only at h
  split at h
  · rename_i hc
    obtain rfl := Option.some.inj h
    simp only [Bool.and_eq_true, decide_eq_true_eq] at hc
    exact hc.1.1
  · split at h
    · obtain rfl := Option.some.inj h
      exact Nat.succ_ne_zero _
    · cases h

end Shortest

section Print

/-- The exponents of the leading digit for which all places are written out. -/
def isPlain (e : Int) : Bool :=
  -5 ≤ e && e ≤ 15

/-- The text of a positive decimal: all places, with at least one after the point, or a leading
digit, the others and an exponent with its sign. -/
def printDecimal (d : Decimal) : Text :=
  let ds := Text.dropTrailing (· == '0') (Text.numeral d.digits)
  let e := d.exponent + (Text.numeral d.digits).length - 1
  if isPlain e then
    if e < 0 then ['0', '.'] ++ List.replicate (-e - 1).toNat '0' ++ ds
    else
      let whole := e.toNat + 1
      if ds.length ≤ whole then
        ds ++ List.replicate (whole - ds.length) '0' ++ ['.', '0']
      else ds.take whole ++ '.' :: ds.drop whole
  else
    let tail := if ds.length ≤ 1 then [] else '.' :: ds.drop 1
    ds.take 1 ++ tail ++ ['e', if e < 0 then '-' else '+'] ++ Text.numeral e.natAbs

/-- The text of a finite double. -/
def print (bits : UInt64) : Text :=
  let sign : Text := if isNegative bits then ['-'] else []
  match decode bits with
  | some b => sign ++ printDecimal (shortest b)
  | none => sign ++ ['0', '.', '0']

end Print

end Double
end Decomment
