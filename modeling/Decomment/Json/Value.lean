import Decomment.Keyed
import Decomment.Json.Double

/-!
# JSON values

An object is the list of its members.  As read, the members stand in the order of the text and may
repeat a name; normalised, they are sorted by name and the last of a name counts.

**Results.**
* `normalize_scalar`: only objects and what contains them are affected by normalising.
-/

namespace Decomment
namespace Json

/-- A number.  Whole numbers in the range of 64 bits, with a sign or without, are exact; every
other number is a double, given by its bits. -/
inductive Number
  | natural (n : Nat)
  /-- The number `-n`. -/
  | negative (n : Nat)
  | double (bits : UInt64)
deriving DecidableEq, Repr

/-- A JSON value. -/
inductive Value
  | null
  | bool (b : Bool)
  | number (n : Number)
  | string (s : String)
  | array (elements : List Value)
  | object (members : List (String × Value))
deriving Repr, Inhabited

abbrev Members := List (String × Value)

namespace Value

mutual

/-- The value with the members of every object sorted. -/
def normalize : Value → Value
  | array vs => array (normalizeAll vs)
  | object ms => object (Keyed.ofList (normalizeMembers ms))
  | v => v

/-- Each value normalised. -/
def normalizeAll : List Value → List Value
  | [] => []
  | v :: vs => normalize v :: normalizeAll vs

/-- Each member normalised, in place. -/
def normalizeMembers : Members → Members
  | [] => []
  | (k, v) :: ms => (k, normalize v) :: normalizeMembers ms

end

/-- A value that is neither an array nor an object. -/
def isScalar : Value → Bool
  | array _ => false
  | object _ => false
  | _ => true

theorem normalize_scalar {v : Value} (h : v.isScalar = true) : v.normalize = v := by
  cases v <;> simp_all [normalize, isScalar]

end Value
end Json
end Decomment
