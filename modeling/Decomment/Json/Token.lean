import Decomment.Json.Number

/-!
# JSON tokens

A text is read one character at a time.  The mode tells what the character belongs to: nothing
yet, a word (a name or a number, which ends where a blank, a quote or a bracket stands), a string,
or an escape within a string.  A code point beyond the first plane is escaped as a pair of
surrogates, and no surrogate stands alone.

**Results.**
* `lexFrom_eq`: the tokens before a point are kept.
* `lexFrom_space`: blanks between tokens do not matter.
-/

namespace Decomment
namespace Json

/-- A token.  Every value without parts is one token. -/
inductive Token
  | beginArray
  | endArray
  | beginObject
  | endObject
  | colon
  | comma
  | string (s : String)
  | scalar (v : Value)
deriving Repr

namespace Lexer

/-- What the next character belongs to.  The characters read so far stand last first. -/
inductive Mode
  | between
  | word (read : Text)
  | string (read : Text)
  | escape (read : Text)
  /-- `left` hexadecimal digits are missing from a code unit after the surrogate `high`. -/
  | unit (read : Text) (high : Option Nat) (left code : Nat)
  /-- A surrogate `high` waits for an escape. -/
  | pair (read : Text) (high : Nat)
  | pairMark (read : Text) (high : Nat)
deriving Repr

section Characters

/-- The blanks between tokens. -/
def isSpace (c : Char) : Bool :=
  c == ' ' || c == '\n' || c == '\t' || c == '\r'

/-- The tokens of one character. -/
def punctuation : Char → Option Token
  | '[' => some .beginArray
  | ']' => some .endArray
  | '\x7b' => some .beginObject
  | '\x7d' => some .endObject
  | ':' => some .colon
  | ',' => some .comma
  | _ => none

def isDelimiter (c : Char) : Bool :=
  isSpace c || c == '\x22' || (punctuation c).isSome

/-- The characters that may not stand in a string as they are. -/
def isControl (c : Char) : Bool :=
  c.toNat < 0x20

/-- The character that a letter after the escape stands for. -/
def escaped : Char → Option Char
  | '\x22' => some '\x22'
  | '\\' => some '\\'
  | '/' => some '/'
  | 'b' => some '\x08'
  | 'f' => some '\x0c'
  | 'n' => some '\n'
  | 'r' => some '\r'
  | 't' => some '\t'
  | _ => none

def scalar (w : Text) : Option Value :=
  if w = "true".toList then some (.bool true)
  else if w = "false".toList then some (.bool false)
  else if w = "null".toList then some .null
  else (Number.read w).map .number

end Characters

section Steps

/-- The token and the mode that a character between tokens gives. -/
def start (c : Char) : Option Token × Mode :=
  if isSpace c then (none, .between)
  else if c = '\x22' then (none, .string [])
  else
    match punctuation c with
    | some t => (some t, .between)
    | none => (none, .word [c])

/-- The mode after a whole code unit. -/
def closeUnit (read : Text) (high : Option Nat) (code : Nat) : Option Mode :=
  let isHigh := 0xD800 ≤ code && code < 0xDC00
  let isLow := 0xDC00 ≤ code && code < 0xE000
  match high with
  | none =>
      if isHigh then some (.pair read code)
      else if isLow then none
      else some (.string (Char.ofNat code :: read))
  | some h =>
      if isLow then
        some (.string (Char.ofNat (0x10000 + (h - 0xD800) * 0x400 + (code - 0xDC00)) :: read))
      else none

/-- The tokens, last first, that a character completes, and the mode after it. -/
def step (m : Mode) (c : Char) : Option (List Token × Mode) :=
  match m with
  | .between =>
      let (t, m) := start c
      some (t.toList, m)
  | .word read =>
      if isDelimiter c then do
        let v ← scalar read.reverse
        let (t, m) := start c
        some (t.toList ++ [.scalar v], m)
      else some ([], .word (c :: read))
  | .string read =>
      if c = '\x22' then some ([.string (String.ofList read.reverse)], .between)
      else if c = '\\' then some ([], .escape read)
      else if isControl c then none
      else some ([], .string (c :: read))
  | .escape read =>
      if c = 'u' then some ([], .unit read none 4 0)
      else (escaped c).map fun d => ([], .string (d :: read))
  | .unit read high left code => do
      let n ← Text.hexValue c
      let code := 16 * code + n
      if left ≤ 1 then
        let m ← closeUnit read high code
        some ([], m)
      else some ([], .unit read high (left - 1) code)
  | .pair read high => if c = '\\' then some ([], .pairMark read high) else none
  | .pairMark read high => if c = 'u' then some ([], .unit read (some high) 4 0) else none

/-- The tokens, last first, that the end of the text completes. -/
def finish : Mode → Option (List Token)
  | .between => some []
  | .word read => (scalar read.reverse).map fun v => [.scalar v]
  | _ => none

/-- Reads on with the tokens `done`, last first. -/
def lexFrom (done : List Token) (m : Mode) : Text → Option (List Token)
  | [] => (finish m).map fun ts => (ts ++ done).reverse
  | c :: cs =>
      match step m c with
      | some (ts, m) => lexFrom (ts ++ done) m cs
      | none => none

def lex (t : Text) : Option (List Token) :=
  lexFrom [] .between t

end Steps

section Laws

theorem lexFrom_eq (done : List Token) (m : Mode) (t : Text) :
    lexFrom done m t = (lexFrom [] m t).map (done.reverse ++ ·) := by
  induction t generalizing done m with
  | nil =>
      cases h : finish m <;> simp [lexFrom, h]
  | cons c cs ih =>
      rw [lexFrom, lexFrom]
      cases h : step m c with
      | none => rfl
      | some r =>
          obtain ⟨ts, m'⟩ := r
          simp only [List.append_nil]
          rw [ih (ts ++ done), ih ts, Option.map_map]
          congr 1
          funext l
          simp

theorem lexFrom_space (done : List Token) (c : Char) (h : isSpace c = true) (t : Text) :
    lexFrom done .between (c :: t) = lexFrom done .between t := by
  simp [lexFrom, step, start, h]

end Laws

end Lexer
end Json
end Decomment
