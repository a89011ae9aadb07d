import Decomment.Json.Value

/-!
# Numbers as they are written

A number is a sign, whole digits without needless zeros, and perhaps a fraction and an exponent.
Without fraction and exponent it is exact as long as it fits in 64 bits.  Otherwise it is a
double: the digits give a significand below `2 ^ 64`, from which all further digits are left off,
and the significand, rounded to a double, is multiplied or divided by a power of ten, itself
rounded to a double.

**Results.**
* `takeDigits_append`: reading digits loses nothing.
-/

namespace Decomment
namespace Json
namespace Number

section Shape

/-- A number as written: its digits before the point, after it, and its exponent. -/
structure Written where
  minus : Bool
  whole : Text
  fraction : Option Text
  exponent : Option Int
deriving DecidableEq, Repr

/-- The digits at the front and the text after them. -/
def takeDigits (t : Text) : Text × Text :=
  (t.takeWhile Text.isAsciiDigit, t.dropWhile Text.isAsciiDigit)

/-- The fraction at the front, if there is a point, and the text after it. -/
def takeFraction : Text → Option (Option Text × Text)
  | '.' :: t =>
      match takeDigits t with
      | ([], _) => none
      | (ds, t) => some (some ds, t)
  | t => some (none, t)

/-- The exponent at the front, if there is a mark, and the text after it. -/
def takeExponent (t : Text) : Option (Option Int × Text) :=
  match t with
  | [] => some (none, t)
  | c :: cs =>
      if c = 'e' || c = 'E' then
        let (minus, cs) := match cs with
          | '-' :: cs => (true, cs)
          | '+' :: cs => (false, cs)
          | cs => (false, cs)
        match takeDigits cs with
        | ([], _) => none
        | (ds, rest) =>
            let size := (Text.numeralValue ds : Int)
            some (some (if minus then -size else size), rest)
      else some (none, t)

/-- Reads a whole text as a number. -/
def written (t : Text) : Option Written := do
  let (minus, t) := match t with
    | '-' :: t => (true, t)
    | t => (false, t)
  let (whole, t) := takeDigits t
  if whole.isEmpty || (whole.length > 1 && whole.head? = some '0') then none
  else
    let (fraction, t) ← takeFraction t
    let (exponent, t) ← takeExponent t
    if t.isEmpty then some ⟨minus, whole, fraction, exponent⟩ else none

theorem takeDigits_append (t : Text) : (takeDigits t).1 ++ (takeDigits t).2 = t :=
  List.takeWhile_append_dropWhile

end Shape

section Worth

/-- Takes in digits while the significand stays below `2 ^ 64`, and tells how many were taken in
and how many were not. -/
def significand (n : Nat) (taken : Nat) : Text → Nat × Nat × Nat
  | [] => (n, taken, 0)
  | d :: ds =>
      let next := 10 * n + Text.digitValue d
      if next < Word.size then significand next (taken + 1) ds else (n, taken, (d :: ds).length)

/-- The power of ten with a whole exponent of at most 308, rounded to a double. -/
def powerOfTen (e : Nat) : Float :=
  Float.ofScientific 1 false e

/-- Multiplies or divides by a power of ten.  A result too large for a double is refused. -/
def scale (f : Float) (e : Int) : Option Float :=
  if 0 ≤ e then
    if e ≤ 308 then
      let g := f * powerOfTen e.toNat
      if g.isInf then none else some g
    else if f == 0 then some f else none
  else if -308 ≤ e then some (f / powerOfTen e.natAbs)
  else if -616 ≤ e then some (f / powerOfTen 308 / powerOfTen (e.natAbs - 308))
  else some (f / powerOfTen 308 / powerOfTen 308 / powerOfTen 308)

/-- The double of a number with a fraction or an exponent, or with too many digits. -/
def asDouble (w : Written) : Option Number :=
  let (n, _, left) := significand 0 0 w.whole
  let (n, fractionTaken) :=
    match w.fraction with
    | none => (n, 0)
    | some ds =>
        let (n, taken, _) := significand n 0 ds
        (n, taken)
  let e := (left : Int) - fractionTaken + w.exponent.getD 0
  match scale (UInt64.ofNat n).toFloat e with
  | some f => some (.double (if w.minus then -f else f).toBits)
  | none => none

/-- The value of a number as written. -/
def value (w : Written) : Option Number :=
  match w.fraction, w.exponent with
  | none, none =>
      let n := Text.numeralValue w.whole
      if w.minus then
        if n ≠ 0 && n ≤ Word.half then some (.negative n) else asDouble w
      else if n < Word.size then some (.natural n) else asDouble w
  | _, _ => asDouble w

/-- Reads a whole text as a number. -/
def read (t : Text) : Option Number :=
  (written t).bind value

def print : Number → Text
  | .natural n => Text.numeral n
  | .negative n => '-' :: Text.numeral n
  | .double bits => Double.print bits

end Worth

end Number
end Json
end Decomment
