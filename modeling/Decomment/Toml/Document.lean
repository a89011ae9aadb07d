import Decomment.Toml.Scalar
import Decomment.Toml.Quoted

/-!
# Reading a document

A document consists of lines: headers, pairs of a key and a value, comments.  Arrays may span
lines.  Arrays and inline tables nest less than `nestingLimit` deep, and a dotted key has fewer
names than that.

A value is read with a budget of steps.  Every step consumes a character, so that the length of
the text is budget enough.

**Results.**
* `read_nil`: an empty text is an empty table.
-/

namespace Decomment
namespace Toml

/-- The bound on nesting and on the length of dotted keys. -/
def nestingLimit : Nat :=
  80

namespace Reader

section Blanks

/-- The text without the blanks at the front of a line. -/
def skipSpaces (t : Text) : Text :=
  t.dropWhile Quoted.isSpace

/-- The text after blanks, line endings and whole comments. -/
def skipLines : (inComment : Bool) → Text → Option Text
  | _, '\n' :: t => skipLines false t
  | _, '\r' :: '\n' :: t => skipLines false t
  | true, c :: t => if Quoted.isAllowed c then skipLines true t else none
  | true, [] => none
  | false, ' ' :: t => skipLines false t
  | false, '\t' :: t => skipLines false t
  | false, '#' :: t => skipLines true t
  | false, t => some t

/-- The text after the end of a line: blanks, perhaps a comment, and a line ending or the end. -/
def endLine (t : Text) : Option Text :=
  let t := skipSpaces t
  let t :=
    match t with
    | '#' :: t => t.dropWhile Quoted.isAllowed
    | t => t
  match t with
  | [] => some []
  | t => Quoted.skipNewline t

end Blanks

section Keys

/-- The characters of a key without quotes. -/
def isKeyChar (c : Char) : Bool :=
  c.isAlphanum || c == '_' || c == '-'

/-- One name of a key, and the text after it. -/
def simpleKey (t : Text) : Option (String × Text) :=
  match t.takeWhile isKeyChar with
  | [] => (Quoted.readLine t).map fun (s, t) => (String.ofList s, t)
  | w => some (String.ofList w, t.dropWhile isKeyChar)

/-- The names of a key after those in `done`, and the text after them and after blanks. -/
def keyFrom : (steps : Nat) → (done : List String) → Text → Option (List String × Text)
  | 0, _, _ => none
  | steps + 1, done, t => do
      let (k, t) ← simpleKey (skipSpaces t)
      match skipSpaces t with
      | '.' :: t => keyFrom steps (k :: done) t
      | t => some ((k :: done).reverse, t)

/-- The names before the last of a key and the last one, and the text after the key. -/
def key (t : Text) : Option ((List String × String) × Text) := do
  let (names, t) ← keyFrom (nestingLimit - 1) [] t
  let last ← names.getLast?
  some ((names.dropLast, last), t)

end Keys

section Values

/-- A word, or a date and a time that a blank separates, and the text after it. -/
def word (t : Text) : Option (Node × Text) := do
  let w := t.takeWhile Scalar.isWordChar
  let rest := t.dropWhile Scalar.isWordChar
  let node ← Scalar.read w
  match rest with
  | ' ' :: after =>
      let w' := after.takeWhile Scalar.isWordChar
      if Scalar.isDate w && Scalar.isZonedTime w' then
        some (.moment (w ++ ' ' :: w'), after.dropWhile Scalar.isWordChar)
      else some (node, rest)
  | rest => some (node, rest)

mutual

/-- A value within `depth` arrays and inline tables, and the text after it. -/
def value : (steps depth : Nat) → Text → Option (Node × Text)
  | 0, _, _ => none
  | steps + 1, depth, t =>
      match t with
      | '[' :: t => if depth + 1 < nestingLimit then elements steps (depth + 1) [] t else none
      | '\x7b' :: t =>
          if depth + 1 < nestingLimit then
            match skipSpaces t with
            | '\x7d' :: t => some (.table .inline [], t)
            | t => members steps (depth + 1) [] t
          else none
      | '\x22' :: _ => (Quoted.read t).map fun (s, t) => (.string (String.ofList s), t)
      | '\x27' :: _ => (Quoted.read t).map fun (s, t) => (.string (String.ofList s), t)
      | t => word t

/-- The elements of an array after those in `done`, last first. -/
def elements : (steps depth : Nat) → (done : List Node) → Text → Option (Node × Text)
  | 0, _, _, _ => none
  | steps + 1, depth, done, t => do
      match ← skipLines false t with
      | ']' :: t => some (.array done.reverse, t)
      | t =>
          let (v, t) ← value steps depth t
          match ← skipLines false t with
          | ',' :: t => elements steps depth (v :: done) t
          | ']' :: t => some (.array (v :: done).reverse, t)
          | _ => none

/-- The pairs of an inline table after those in `done`, last first. -/
def members : (steps depth : Nat) → (done : List Pair) → Text → Option (Node × Text)
  | 0, _, _, _ => none
  | steps + 1, depth, done, t => do
      let ((path, k), t) ← key t
      match t with
      | '=' :: t =>
          let (v, t) ← value steps depth (skipSpaces t)
          let done := ⟨path, k, v⟩ :: done
          match skipSpaces t with
          | ',' :: t => members steps depth done t
          | '\x7d' :: t =>
              let table ← Table.insertPairs [] done.reverse
              some (.table .inline table, t)
          | _ => none
      | _ => none

end

end Values

section Lines

/-- A header at the front, and the text after its line. -/
def header (t : Text) : Option (Header × Text) :=
  match t with
  | '[' :: '[' :: t => do
      let ((path, k), t) ← key t
      match t with
      | ']' :: ']' :: t => (endLine t).map (⟨path, k, true⟩, ·)
      | _ => none
  | '[' :: t => do
      let ((path, k), t) ← key t
      match t with
      | ']' :: t => (endLine t).map (⟨path, k, false⟩, ·)
      | _ => none
  | _ => none

/-- A pair at the front, and the text after its line. -/
def pair (t : Text) : Option (Pair × Text) := do
  let ((path, k), t) ← key t
  match t with
  | '=' :: t =>
      let t := skipSpaces t
      let (v, t) ← value (2 * t.length + 1) 0 t
      (endLine t).map (⟨path, k, v⟩, ·)
  | _ => none

/-- The parts of a document after those in `done`, last first.  The present part has the header
`h` and, last first, the pairs `pairs`. -/
def parts : (steps : Nat) → (done : List Part) → (h : Option Header) → (pairs : List Pair) →
    Text → Option (List Part)
  | 0, _, _, _, _ => none
  | steps + 1, done, h, pairs, t =>
      let closed := ⟨h, pairs.reverse⟩ :: done
      match skipSpaces t with
      | [] => some closed.reverse
      | '#' :: t => (endLine ('#' :: t)).bind (parts steps done h pairs)
      | '\n' :: t => parts steps done h pairs t
      | '\r' :: t => (Quoted.skipNewline ('\r' :: t)).bind (parts steps done h pairs)
      | '[' :: t => do
          let (h, t) ← header ('[' :: t)
          parts steps closed (some h) [] t
      | t => do
          let (p, t) ← pair t
          parts steps done h (p :: pairs) t

end Lines

end Reader

/-- Reads a document.  A byte order mark at its start does not count. -/
def read (t : Text) : Option Table := do
  let t :=
    match t with
    | '\ufeff' :: t => t
    | t => t
  let ps ← Reader.parts (t.length + 1) [] none [] t
  Table.ofParts ps

theorem read_nil : read [] = some [] :=
  rfl

end Toml
end Decomment
