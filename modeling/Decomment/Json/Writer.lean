import Decomment.Json.Value
import Decomment.Json.Number

/-!
# Writing JSON

Every element and every member stands on a line of its own, two spaces further in than what
contains it; an empty array or object stays on its line.  In strings only the quote, the backslash
and control characters are escaped.

**Results.**
* `writeChar_of_isPlain`: every other character is written as it is.
-/

namespace Decomment
namespace Json
namespace Writer

section Strings

/-- The character stands in a string as it is. -/
def isPlain (c : Char) : Bool :=
  c != '\x22' && c != '\\' && 0x20 ≤ c.toNat

def writeChar (c : Char) : Text :=
  if isPlain c then [c]
  else
    match c with
    | '\x22' => ['\\', '\x22']
    | '\\' => ['\\', '\\']
    | '\x08' => ['\\', 'b']
    | '\x0c' => ['\\', 'f']
    | '\n' => ['\\', 'n']
    | '\r' => ['\\', 'r']
    | '\t' => ['\\', 't']
    | c => ['\\', 'u', '0', '0', Text.hexDigit (c.toNat / 16), Text.hexDigit (c.toNat % 16)]

def writeString (s : String) : Text :=
  '\x22' :: s.toList.flatMap writeChar ++ ['\x22']

theorem writeChar_of_isPlain {c : Char} (h : isPlain c = true) : writeChar c = [c] := by
  unfold writeChar
  exact if_pos h

end Strings

section Values

/-- A new line with an indentation. -/
def newLine (depth : Nat) : Text :=
  '\n' :: List.replicate (2 * depth) ' '

mutual

/-- A value whose own line is indented `depth` steps. -/
def write (depth : Nat) : Value → Text
  | .null => "null".toList
  | .bool true => "true".toList
  | .bool false => "false".toList
  | .number n => Number.print n
  | .string s => writeString s
  | .array [] => ['[', ']']
  | .array (v :: vs) =>
      '[' :: newLine (depth + 1) ++ write (depth + 1) v ++ writeElements depth vs
  | .object [] => ['\x7b', '\x7d']
  | .object ((k, v) :: ms) =>
      '\x7b' :: newLine (depth + 1) ++ writeString k ++ [':', ' '] ++ write (depth + 1) v ++
        writeMembers depth ms

/-- The elements after the first, and the end of the array. -/
def writeElements (depth : Nat) : List Value → Text
  | [] => newLine depth ++ [']']
  | v :: vs => ',' :: newLine (depth + 1) ++ write (depth + 1) v ++ writeElements depth vs

/-- The members after the first, and the end of the object. -/
def writeMembers (depth : Nat) : Members → Text
  | [] => newLine depth ++ ['\x7d']
  | (k, v) :: ms =>
      ',' :: newLine (depth + 1) ++ writeString k ++ [':', ' '] ++ write (depth + 1) v ++
        writeMembers depth ms

end

end Values

end Writer

def Value.write (v : Value) : Text :=
  Writer.write 0 v

end Json
end Decomment
