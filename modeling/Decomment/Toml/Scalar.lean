import Decomment.Text.Digit
import Decomment.Toml.Node

/-!
# Plain values

Truth values, numbers, dates and times stand without quotes.  Such a word is read as a whole.

**Results.**
* `length_ungroup_le`: taking the underscores out of a row of digits does not lengthen it.
-/

namespace Decomment
namespace Toml
namespace Scalar

section Digits

/-- The digits of a row in which single underscores stand between digits. -/
def ungroup (isDigit : Char → Bool) : Text → Option Text
  | [] => none
  | [c] => if isDigit c then some [c] else none
  | c :: '_' :: rest => if isDigit c then (ungroup isDigit rest).map (c :: ·) else none
  | c :: d :: rest => if isDigit c then (ungroup isDigit (d :: rest)).map (c :: ·) else none

/-- The characters of such a row. -/
def isGrouped (c : Char) : Bool :=
  Text.isAsciiDigit c || c == '_'

/-- Splits off a sign, and tells whether it is a minus. -/
def takeSign : Text → Bool × Text
  | '-' :: t => (true, t)
  | '+' :: t => (false, t)
  | t => (false, t)

/-- The digits of a whole number without needless zeros. -/
def wholeDigits (t : Text) : Option Text :=
  match ungroup Text.isAsciiDigit t with
  | some ds => if ds.length > 1 && ds.head? = some '0' then none else some ds
  | none => none

theorem length_ungroup_le {p : Char → Bool} {t ds : Text} (h : ungroup p t = some ds) :
    ds.length ≤ t.length := by
  fun_induction ungroup p t generalizing ds with
  | case1 => cases h
  | case2 c hc => simp_all
  | case3 c hc => cases h
  | case4 c rest hc ih =>
      obtain ⟨d, hd, rfl⟩ := Option.map_eq_some_iff.1 h
      simp only [List.length_cons]
      exact Nat.succ_le_succ (Nat.le_succ_of_le (ih hd))
  | case5 => cases h
  | case6 c d rest _ hc ih =>
      obtain ⟨e, he, rfl⟩ := Option.map_eq_some_iff.1 h
      simp only [List.length_cons]
      exact Nat.succ_le_succ (ih he)
  | case7 => cases h

end Digits

section Integers

/-- The value of a row of digits to a base. -/
def valueIn (base : Nat) (ds : Text) : Nat :=
  ds.foldl (fun n c => base * n + (Text.hexValue c).getD 0) 0

/-- The character is a digit to a base of at most sixteen. -/
def isDigitIn (base : Nat) (c : Char) : Bool :=
  match Text.hexValue c with
  | some n => n < base
  | none => false

/-- A whole number to a base other than ten, which has no sign. -/
def readBased (base : Nat) (t : Text) : Option Node := do
  let ds ← ungroup (isDigitIn base) t
  if valueIn base ds < Word.half then some (.integer (valueIn base ds)) else none

/-- A whole number in the range of 64 bits. -/
def readInteger (w : Text) : Option Node :=
  match w with
  | '0' :: 'x' :: t => readBased 16 t
  | '0' :: 'o' :: t => readBased 8 t
  | '0' :: 'b' :: t => readBased 2 t
  | w => do
      let (minus, t) := takeSign w
      let ds ← wholeDigits t
      let n := Text.numeralValue ds
      if minus then if n ≤ Word.half then some (.integer (-(n : Int))) else none
      else if n < Word.half then some (.integer n) else none

end Integers

section Floats

/-- The number `n * 10 ^ e` rounds to infinity. -/
def isTooLarge (n : Nat) (e : Int) : Bool :=
  let limit := Nat.pow 2 1024 - Nat.pow 2 970
  let places := (Text.numeral n).length + e
  if n = 0 || places < 300 then false
  else if 320 < places then true
  else if 0 ≤ e then limit ≤ n * Nat.pow 10 e.toNat
  else limit * Nat.pow 10 e.natAbs ≤ n

/-- The digits of a fraction at the front, and the text after it. -/
def takeFraction : Text → Option (Text × Text)
  | '.' :: t => do
      let ds ← ungroup Text.isAsciiDigit (t.takeWhile isGrouped)
      some (ds, t.dropWhile isGrouped)
  | t => some ([], t)

/-- An exponent that is the whole text, or no exponent. -/
def readExponent : Text → Option Int
  | [] => some 0
  | c :: t =>
      if c = 'e' || c = 'E' then do
        let (minus, t) := takeSign t
        let ds ← ungroup Text.isAsciiDigit t
        let n : Int := Text.numeralValue ds
        some (if minus then -n else n)
      else none

/-- A number with a fraction or an exponent, infinity, or no number at all.  Only infinity itself
may be positive and that large. -/
def readFloat (w : Text) : Option Node := do
  let (minus, t) := takeSign w
  if t = "inf".toList || t = "nan".toList then some (.float w)
  else
    let whole ← wholeDigits (t.takeWhile isGrouped)
    let rest := t.dropWhile isGrouped
    let (fraction, rest') ← takeFraction rest
    let e ← readExponent rest'
    if rest.isEmpty then none
    else if !minus && isTooLarge (Text.numeralValue (whole ++ fraction)) (e - fraction.length) then
      none
    else some (.float w)

end Floats

section Moments

/-- A number of `n` digits between two bounds at the front, and the text after it. -/
def takeFixed (n low high : Nat) (t : Text) : Option (Nat × Text) :=
  let ds := t.take n
  let v := Text.numeralValue ds
  if ds.length = n && ds.all Text.isAsciiDigit && low ≤ v && v ≤ high then some (v, t.drop n)
  else none

/-- The text after a character. -/
def skip (c : Char) : Text → Option Text
  | [] => none
  | d :: t => if d = c then some t else none

/-- The number of days of a month. -/
def daysIn (year month : Nat) : Nat :=
  if month = 2 then
    if year % 4 = 0 && (year % 100 ≠ 0 || year % 400 = 0) then 29 else 28
  else if month = 4 || month = 6 || month = 9 || month = 11 then 30
  else 31

def skipDate (t : Text) : Option Text := do
  let (year, t) ← takeFixed 4 0 9999 t
  let t ← skip '-' t
  let (month, t) ← takeFixed 2 1 12 t
  let t ← skip '-' t
  let (_, t) ← takeFixed 2 1 (daysIn year month) t
  return t

/-- The text after a time of day. -/
def skipTime (t : Text) : Option Text := do
  let (_, t) ← takeFixed 2 0 23 t
  let t ← skip ':' t
  let (_, t) ← takeFixed 2 0 59 t
  let t ← skip ':' t
  let (_, t) ← takeFixed 2 0 60 t
  match t with
  | '.' :: t =>
      match t.takeWhile Text.isAsciiDigit with
      | [] => none
      | _ => some (t.dropWhile Text.isAsciiDigit)
  | t => some t

/-- The text is nothing or the offset of a time zone. -/
def isOffset : Text → Bool
  | [] => true
  | ['Z'] => true
  | ['z'] => true
  | c :: t =>
      (c = '+' || c = '-') &&
        ((do
          let (_, t) ← takeFixed 2 0 23 t
          let t ← skip ':' t
          let (_, t) ← takeFixed 2 0 59 t
          return t) : Option Text) == some []

def isDate (w : Text) : Bool :=
  skipDate w == some []

/-- The word is a time of day, perhaps with an offset. -/
def isZonedTime (w : Text) : Bool :=
  match skipTime w with
  | some t => isOffset t
  | none => false

/-- The word is a date, a time, or both with a letter between them. -/
def isMoment (w : Text) : Bool :=
  skipTime w == some [] ||
    match skipDate w with
    | some [] => true
    | some (c :: t) => (c = 'T' || c = 't') && isZonedTime t
    | none => false

end Moments

def isWordChar (c : Char) : Bool :=
  c.isAlphanum || c == '+' || c == '-' || c == '_' || c == '.' || c == ':'

def read (w : Text) : Option Node :=
  if w = "true".toList then some (.boolean true)
  else if w = "false".toList then some (.boolean false)
  else if isMoment w then some (.moment w)
  else (readInteger w).or (readFloat w)

end Scalar
end Toml
end Decomment
