import Decomment.Text.Digit

/-!
# Quoted text

Between double quotes a backslash escapes; between single quotes nothing does.  Three quotes in a
row open a text of several lines: a line feed just after them does not count, and up to two quotes
more may stand before the three that close it.

**Results.**
* `length_skipBlankLines_le`: skipping blank lines does not lengthen a text.
-/

namespace Decomment
namespace Toml
namespace Quoted

section Characters

/-- The characters that may stand in quoted text and in comments: a tab, and all that are no
control characters. -/
def isAllowed (c : Char) : Bool :=
  c == '\t' || (0x20 ≤ c.toNat && c.toNat ≠ 0x7F)

/-- The blanks within a line. -/
def isSpace (c : Char) : Bool :=
  c == ' ' || c == '\t'

/-- The text after a line ending, if one is at the front. -/
def skipNewline : Text → Option Text
  | '\n' :: t => some t
  | '\r' :: '\n' :: t => some t
  | _ => none

/-- The text after the blanks and line endings at the front. -/
def skipBlankLines : Text → Text
  | ' ' :: t => skipBlankLines t
  | '\t' :: t => skipBlankLines t
  | '\n' :: t => skipBlankLines t
  | '\r' :: '\n' :: t => skipBlankLines t
  | t => t

/-- The character with a code in hexadecimal. -/
def charOfHex (ds : Text) : Option Char := do
  let values ← ds.mapM Text.hexValue
  let code := values.foldl (fun n d => 16 * n + d) 0
  if code < 0xD800 || (0xE000 ≤ code && code < 0x110000) then some (Char.ofNat code) else none

/-- The character that the text after a backslash stands for, and how long its escape is. -/
def escape : Text → Option (Char × Nat)
  | 'b' :: _ => some ('\x08', 1)
  | 't' :: _ => some ('\t', 1)
  | 'n' :: _ => some ('\n', 1)
  | 'f' :: _ => some ('\x0c', 1)
  | 'r' :: _ => some ('\r', 1)
  | '\x22' :: _ => some ('\x22', 1)
  | '\\' :: _ => some ('\\', 1)
  | 'u' :: t => if t.length < 4 then none else (charOfHex (t.take 4)).map (·, 5)
  | 'U' :: t => if t.length < 8 then none else (charOfHex (t.take 8)).map (·, 9)
  | _ => none

theorem length_skipBlankLines_le (t : Text) : (skipBlankLines t).length ≤ t.length := by
  fun_induction skipBlankLines t <;> simp_all <;> omega

end Characters

section Lines

/-- The text of one line up to a double quote, and what is after it. -/
def basic (done : Text) (t : Text) : Option (Text × Text) :=
  match t with
  | [] => none
  | '\x22' :: t => some (done.reverse, t)
  | '\\' :: t =>
      match escape t with
      | some (c, n) => basic (c :: done) (t.drop n)
      | none => none
  | c :: t => if isAllowed c then basic (c :: done) t else none
termination_by t.length
decreasing_by all_goals simp only [List.length_cons, List.length_drop]; omega

/-- The text of one line up to a single quote, and what is after it. -/
def literal (done : Text) : Text → Option (Text × Text)
  | [] => none
  | '\x27' :: t => some (done.reverse, t)
  | c :: t => if isAllowed c then literal (c :: done) t else none

end Lines

section Blocks

/-- The text of several lines up to three double quotes, and what is after them. -/
def basicBlock (done : Text) (t : Text) : Option (Text × Text) :=
  match t with
  | [] => none
  | '\x22' :: '\x22' :: '\x22' :: '\x22' :: '\x22' :: t =>
      some (done.reverse ++ ['\x22', '\x22'], t)
  | '\x22' :: '\x22' :: '\x22' :: '\x22' :: t =>
      some (done.reverse ++ ['\x22'], t)
  | '\x22' :: '\x22' :: '\x22' :: t => some (done.reverse, t)
  | '\\' :: t =>
      match skipNewline (t.dropWhile isSpace) with
      | some _ => basicBlock done (skipBlankLines t)
      | none =>
          match escape t with
          | some (c, n) => basicBlock (c :: done) (t.drop n)
          | none => none
  | '\n' :: t => basicBlock ('\n' :: done) t
  | '\r' :: '\n' :: t => basicBlock ('\n' :: done) t
  | c :: t => if isAllowed c then basicBlock (c :: done) t else none
termination_by t.length
decreasing_by
  all_goals simp only [List.length_cons, List.length_drop]
  all_goals first
    | omega
    | exact Nat.lt_succ_of_le (length_skipBlankLines_le _)

/-- The text of several lines up to three single quotes, and what is after them. -/
def literalBlock (done : Text) : Text → Option (Text × Text)
  | [] => none
  | '\x27' :: '\x27' :: '\x27' :: '\x27' :: '\x27' :: t =>
      some (done.reverse ++ ['\x27', '\x27'], t)
  | '\x27' :: '\x27' :: '\x27' :: '\x27' :: t =>
      some (done.reverse ++ ['\x27'], t)
  | '\x27' :: '\x27' :: '\x27' :: t => some (done.reverse, t)
  | '\n' :: t => literalBlock ('\n' :: done) t
  | '\r' :: '\n' :: t => literalBlock ('\n' :: done) t
  | c :: t => if isAllowed c then literalBlock (c :: done) t else none

end Blocks

/-- The text without a line ending at the front. -/
def dropNewline (t : Text) : Text :=
  (skipNewline t).getD t

/-- Quoted text of one line, and what is after it. -/
def readLine : Text → Option (Text × Text)
  | '\x22' :: t => basic [] t
  | '\x27' :: t => literal [] t
  | _ => none

/-- Quoted text, and what is after it. -/
def read : Text → Option (Text × Text)
  | '\x22' :: '\x22' :: '\x22' :: t => basicBlock [] (dropNewline t)
  | '\x27' :: '\x27' :: '\x27' :: t => literalBlock [] (dropNewline t)
  | t => readLine t

end Quoted
end Toml
end Decomment
