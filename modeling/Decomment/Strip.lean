import Decomment.Marker
import Decomment.Language
import Decomment.Keep

/-!
# Stripping one line

Comments are cut out of a line: first the line comment, then every block comment.  A block starts
at the first unquoted start marker and ends with the first end marker that a fresh scan from
there finds outside quotes, or with the line; then the search starts again on what is left.  The
first comment met that must be kept ends the search and leaves the whole line as it is.

Cutting is written for any alphabet, so that it can be read on characters and on bytes alike;
trimming what is left is a matter of characters.

**Results.**
* `length_splice_lt`: a block comment that is cut out shortens the text, so the search ends.
-/

namespace Decomment

/-- Which comments are removed. -/
inductive Mode
  | both
  | lineOnly
  | blockOnly
deriving DecidableEq, Repr, Inhabited

/-- How comments are removed. -/
structure Removal where
  mode : Mode := .both
  /-- A line that held nothing but comment stays as its indentation. -/
  keepBlank : Bool := false
deriving DecidableEq, Repr, Inhabited

/-- What became of a line. -/
inductive LineChange
  | unchanged
  | shortened (t : Text)
  | removed
deriving DecidableEq, Repr

namespace LineChange

/-- The line does not stay as it was. -/
def differs : LineChange → Bool
  | unchanged => false
  | _ => true

/-- The text written back for the line `t`, if any. -/
def output (t : Text) : LineChange → Option Text
  | unchanged => some t
  | shortened s => some s
  | removed => none

end LineChange

namespace Strip

open Marker

variable {α : Type} [DecidableEq α] [QuoteAlphabet α]

section Passes

/-- The text without the letters from `i` on up to `j`. -/
def splice (i j : Nat) (t : List α) : List α :=
  t.take i ++ t.drop j

/-- What the passes over a text have left of it so far, and whether they have cut anything. -/
structure Progress (α : Type) where
  text : List α
  changed : Bool
deriving DecidableEq, Repr

theorem length_splice_lt {b : Delimiters α} {t : List α} {i j : Nat}
    (hi : find b.start t = some i) (hj : find b.stop (t.drop i) = some j) :
    (splice i (i + j + b.stop.length) t).length < t.length := by
  have h := add_length_le_of_find hi
  have hs := pos_of_find hi
  have hp := pos_of_find hj
  simp only [splice, List.length_append, List.length_take, List.length_drop]
  omega

/-- Cuts the line comment, unless it must be kept.  The alternate marker counts only where the
first one is absent. -/
def cutLine (keep : List α → Bool) (rule : Rule α) (t : List α) : Option (Progress α) :=
  match (find rule.line t).or (find rule.altLine t) with
  | some i => if keep (t.drop i) then none else some ⟨t.take i, true⟩
  | none => some ⟨t, false⟩

/-- Cuts block comments until no start marker is left, unless one of them must be kept. -/
def cutBlocks (keep : List α → Bool) (b : Delimiters α) (p : Progress α) :
    Option (Progress α) :=
  match _hi : find b.start p.text with
  | none => some p
  | some i =>
      match _hj : find b.stop (p.text.drop i) with
      | none =>
          if keep (p.text.drop i) then none else some ⟨p.text.take i, true⟩
      | some j =>
          if keep ((p.text.drop i).take (j + b.stop.length)) then none
          else cutBlocks keep b ⟨splice i (i + j + b.stop.length) p.text, true⟩
termination_by p.text.length
decreasing_by exact length_splice_lt _hi _hj

/-- The passes that the mode asks for, or nothing where a comment must be kept. -/
def runPasses (keep : List α → Bool) (rule : Rule α) (mode : Mode) (t : List α) :
    Option (Progress α) :=
  let first := if mode = .blockOnly then some ⟨t, false⟩ else cutLine keep rule t
  match rule.block with
  | some b => if mode = .lineOnly then first else first.bind (cutBlocks keep b)
  | none => first

/-- The text without its comments, if there are any and none of them must be kept. -/
def reduce (keep : List α → Bool) (rule : Rule α) (mode : Mode) (t : List α) :
    Option (List α) :=
  match runPasses keep rule mode t with
  | some p => if p.changed then some p.text else none
  | none => none

end Passes

section Lines

/-- What becomes of the line `t` of which cutting the comments has left `rest`. -/
def tidy (options : Removal) (t rest : Text) : LineChange :=
  let rest := Text.dropTrailing Text.isIndent rest
  if (Text.trim rest).isEmpty then
    if options.keepBlank then .shortened (Text.indentation t) else .removed
  else .shortened rest

/-- Strips a line of the comments that need not be kept. -/
def strip (keep : Text → Bool) (rule : Rule Char) (options : Removal) (t : Text) :
    LineChange :=
  match reduce keep rule options.mode t with
  | none => .unchanged
  | some rest => tidy options t rest

/-- The line holds one of the markers of the rule, an end marker included, outside quotes. -/
def hasComment (rule : Rule Char) (t : Text) : Bool :=
  occurs rule.line t || occurs rule.altLine t ||
    match rule.block with
    | some b => occurs b.start t || occurs b.stop t
    | none => false

end Lines

end Strip
end Decomment
