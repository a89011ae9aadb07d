import Decomment.Text.Lines
import Decomment.Text.Digit
import Decomment.LineSpan

/-!
# Hunk headers

A header names the old and the new lines of one hunk of a unified diff:
two at signs, blanks, a minus sign and the old numbers, blanks, a plus sign and the new numbers,
blanks, two at signs.  The numbers are a start and, after a comma, a count.  Digits and blanks are
those of Unicode, but only ASCII digits have a value.  The header may stand anywhere in its line.

**Results.**
* `takeDigits_append`: the digits taken and what is left of the text make up the text.
-/

namespace Decomment

/-- The start and the count of one side of a header, as written. -/
structure HunkSide where
  start : Text
  count : Option Text
deriving DecidableEq, Repr

/-- The two sides of a header. -/
structure HunkHeader where
  old : HunkSide
  new : HunkSide
deriving DecidableEq, Repr

namespace Hunk

section Reading

/-- The text after `head`, if it starts so. -/
def skip (head t : Text) : Option Text :=
  if head.isPrefixOf t then some (t.drop head.length) else none

/-- The text after one blank or more. -/
def skipBlanks : Text → Option Text
  | [] => none
  | c :: cs => if Text.isBlank c then some (cs.dropWhile Text.isBlank) else none

/-- The digits at the front, one or more, and the text after them. -/
def takeDigits (t : Text) : Option (Text × Text) :=
  match t.takeWhile Text.isDecimal with
  | [] => none
  | ds => some (ds, t.dropWhile Text.isDecimal)

/-- A start, and a count if a comma follows, and the text after them. -/
def takeSide (t : Text) : Option (HunkSide × Text) := do
  let (start, t) ← takeDigits t
  match t with
  | ',' :: t =>
      let (count, t) ← takeDigits t
      return (⟨start, some count⟩, t)
  | t => return (⟨start, none⟩, t)

/-- The header with which the text starts. -/
def headerAt (t : Text) : Option HunkHeader := do
  let t ← skip ['@', '@'] t
  let t ← skipBlanks t
  let t ← skip ['-'] t
  let (old, t) ← takeSide t
  let t ← skipBlanks t
  let t ← skip ['+'] t
  let (new, t) ← takeSide t
  let t ← skipBlanks t
  let _ ← skip ['@', '@'] t
  return ⟨old, new⟩

/-- The first header in the line. -/
def findHeader : Text → Option HunkHeader
  | [] => none
  | c :: cs => (headerAt (c :: cs)).or (findHeader cs)

end Reading

section Ranges

/-- The new lines that a header names: none if there are none, or if a number has no value. -/
def newLines (h : HunkHeader) : Option LineSpan := do
  let start ← Text.readNumeral maxLine h.new.start
  let count ← match h.new.count with
    | none => some 1
    | some ds => Text.readNumeral maxLine ds
  if count = 0 then none else some ⟨start, min (start + (count - 1)) maxLine⟩

/-- The new lines that a line of a diff names. -/
def rangeOfLine (line : Text) : Option LineSpan :=
  (findHeader line).bind newLines

/-- The new lines that a diff names, in order. -/
def ranges (diff : Text) : List LineSpan :=
  (Text.lines diff).filterMap rangeOfLine

/-- The selection that a diff stands for.  Without a range it is the whole file. -/
def selection (diff : Text) : Selection :=
  ⟨ranges diff⟩

end Ranges

section Laws

theorem takeDigits_append {t ds rest : Text} (h : takeDigits t = some (ds, rest)) :
    ds ++ rest = t := by
  rw [takeDigits] at h
  split at h
  · cases h
  · obtain ⟨rfl, rfl⟩ := Prod.mk.inj (Option.some.inj h)
    exact List.takeWhile_append_dropWhile

end Laws

end Hunk
end Decomment
