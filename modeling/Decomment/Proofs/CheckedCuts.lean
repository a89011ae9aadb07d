import Decomment.Proofs.ByteOffsets
import Decomment.Proofs.Cuts
import Decomment.Text.Utf8

/-!
# Cutting bytes

The passes over a line are run on its bytes here.  Every offset at which bytes are divided is
checked to be a boundary between two characters, and what the patterns are asked about is read as
text.  A check that fails ends the passes.

None fails: the bytes that the passes divide are those of a text at every iteration, a marker that
is found stands between two boundaries of it, and so the bytes that are left are those of a text
again, the one that the passes over characters leave.

**Results.**
* `checkOffset_bytes`, `asText_bytes`: the checks do not fail where a text is divided.
* `cutLine_bytes`, `cutBlocks_bytes`: nor do they in a pass over the bytes of a text.
* `cuts_on_boundaries`: all cuts are made on boundaries, and text is left.
-/

namespace Decomment

namespace Delimiters

def bytes (b : Delimiters Char) : Delimiters UInt8 :=
  ⟨Text.bytes b.start, Text.bytes b.stop⟩

end Delimiters

namespace Rule

def bytes (rule : Rule Char) : Rule UInt8 :=
  ⟨Text.bytes rule.line, Text.bytes rule.altLine, rule.block.map Delimiters.bytes⟩

end Rule

namespace Strip

open Marker

namespace Progress

def bytes (p : Progress Char) : Progress UInt8 :=
  ⟨Text.bytes p.text, p.changed⟩

end Progress

namespace Checked

section Defs

/-- Why bytes cannot be divided, or cannot be read. -/
inductive Breach
  /-- No character starts at the offset. -/
  | offset (k : Nat)
  /-- The second offset comes before the first one. -/
  | order (i j : Nat)
  | notText
deriving DecidableEq, Repr

def checkOffset (bs : List UInt8) (k : Nat) : Except Breach Unit :=
  if Text.isBoundary bs k then .ok () else .error (.offset k)

def checkRange (bs : List UInt8) (i j : Nat) : Except Breach Unit := do
  checkOffset bs i
  checkOffset bs j
  if i ≤ j then .ok () else .error (.order i j)

def asText (bs : List UInt8) : Except Breach Text :=
  match String.fromUTF8? bs.toByteArray with
  | some s => .ok s.toList
  | none => .error .notText

/-- Cuts the line comment, unless it must be kept. -/
def cutLine (keep : Text → Bool) (rule : Rule UInt8) (bs : List UInt8) :
    Except Breach (Option (Progress UInt8)) :=
  match (find rule.line bs).or (find rule.altLine bs) with
  | some i => do
      checkOffset bs i
      let comment ← asText (bs.drop i)
      if keep comment then return none
      return some ⟨bs.take i, true⟩
  | none => return some ⟨bs, false⟩

/-- Cuts block comments until no start marker is left, unless one of them must be kept. -/
def cutBlocks (keep : Text → Bool) (b : Delimiters UInt8) (p : Progress UInt8) :
    Except Breach (Option (Progress UInt8)) :=
  match _hi : find b.start p.text with
  | none => return some p
  | some i => do
      checkOffset p.text i
      match _hj : find b.stop (p.text.drop i) with
      | none =>
          let comment ← asText (p.text.drop i)
          if keep comment then return none
          return some ⟨p.text.take i, true⟩
      | some j =>
          checkRange p.text i (i + j + b.stop.length)
          let comment ← asText ((p.text.drop i).take (j + b.stop.length))
          if keep comment then return none
          cutBlocks keep b ⟨splice i (i + j + b.stop.length) p.text, true⟩
termination_by p.text.length
decreasing_by exact length_splice_lt _hi _hj

/-- The passes that the mode asks for, or nothing where a comment must be kept. -/
def runPasses (keep : Text → Bool) (rule : Rule UInt8) (mode : Mode) (bs : List UInt8) :
    Except Breach (Option (Progress UInt8)) := do
  let first ← (if mode = .blockOnly then .ok (some ⟨bs, false⟩) else cutLine keep rule bs)
  match rule.block, first with
  | some b, some p => if mode = .lineOnly then return first else cutBlocks keep b p
  | _, _ => return first

/-- The bytes without the comments, if there are any and none of them must be kept. -/
def reduce (keep : Text → Bool) (rule : Rule UInt8) (mode : Mode) (bs : List UInt8) :
    Except Breach (Option (List UInt8)) := do
  match ← runPasses keep rule mode bs with
  | some p => return if p.changed then some p.text else none
  | none => return none

end Defs

section Checks

open Text

theorem checkOffset_bytes (n : Nat) (t : Text) :
    checkOffset (Text.bytes t) (Text.bytes (t.take n)).length = .ok () := by
  rw [checkOffset, if_pos]
  exact isBoundary_bytes_iff.2 ⟨_, _, (List.take_append_drop n t).symm, rfl⟩

theorem checkRange_bytes {m n : Nat} (h : m ≤ n) (t : Text) :
    checkRange (Text.bytes t) (Text.bytes (t.take m)).length (Text.bytes (t.take n)).length =
      .ok () := by
  have part : t.take m <+: t.take n := List.take_prefix_take_left h
  have le := (bytes_isPrefix_iff.2 part).length_le
  simp only [checkRange, checkOffset_bytes, bind, Except.bind, if_pos le]

theorem asText_bytes (t : Text) : asText (Text.bytes t) = .ok t := by
  have written : (Text.bytes t).toByteArray = (String.ofList t).toUTF8 := rfl
  rw [asText, written, fromUTF8?_toUTF8]
  exact congrArg Except.ok String.toList_ofList

end Checks

section Cutting

variable {keep : Text → Bool} {t : Text}

theorem cutLine_of_none {rule : Rule UInt8} {bs : List UInt8}
    (h : (find rule.line bs).or (find rule.altLine bs) = none) :
    cutLine keep rule bs = .ok (some ⟨bs, false⟩) := by
  rw [cutLine, h]
  rfl

theorem cutLine_of_some {rule : Rule UInt8} {n : Nat}
    (h : (find rule.line (Text.bytes t)).or (find rule.altLine (Text.bytes t)) =
      some (Text.bytes (t.take n)).length) :
    cutLine keep rule (Text.bytes t) =
      .ok (if keep (t.drop n) then none else some ⟨Text.bytes (t.take n), true⟩) := by
  rw [cutLine, h]
  simp only [checkOffset_bytes, Text.drop_bytes, Text.take_bytes, asText_bytes, bind, Except.bind]
  split <;> rfl

/-- The line pass over the bytes of a text divides them on boundaries. -/
theorem cutLine_bytes (rule : Rule Char) :
    cutLine keep rule.bytes (Text.bytes t) =
      .ok ((Strip.cutLine keep rule t).map Progress.bytes) := by
  have found : (find rule.bytes.line (Text.bytes t)).or (find rule.bytes.altLine (Text.bytes t)) =
      ((find rule.line t).or (find rule.altLine t)).map fun n =>
        (Text.bytes (t.take n)).length := by
    rw [Rule.bytes, find_bytes, find_bytes, Option.map_or]
  cases e : (find rule.line t).or (find rule.altLine t) with
  | none =>
      rw [e] at found
      rw [cutLine_of_none found, Strip.cutLine, e]
      rfl
  | some n =>
      rw [e] at found
      rw [cutLine_of_some found, Strip.cutLine, e]
      simp only
      split <;> rfl

variable {b : Delimiters Char} {i j : Nat}

theorem cutBlocks_of_none (hi : find b.start t = none) (changed : Bool) :
    cutBlocks keep b.bytes ⟨Text.bytes t, changed⟩ = .ok (some ⟨Text.bytes t, changed⟩) := by
  have hi' : find b.bytes.start (Text.bytes t) = none := by
    rw [Delimiters.bytes, find_bytes, hi, Option.map_none]
  rw [cutBlocks]
  split
  · rfl
  · rename_i e
    rw [hi'] at e
    cases e

theorem cutBlocks_of_open (hi : find b.start t = some i) (hj : find b.stop (t.drop i) = none)
    (changed : Bool) :
    cutBlocks keep b.bytes ⟨Text.bytes t, changed⟩ =
      .ok (if keep (t.drop i) then none else some ⟨Text.bytes (t.take i), true⟩) := by
  have hi' : find b.bytes.start (Text.bytes t) = some (Text.bytes (t.take i)).length := by
    rw [Delimiters.bytes, find_bytes, hi, Option.map_some]
  have hj' : find b.bytes.stop (Text.bytes (t.drop i)) = none := by
    rw [Delimiters.bytes, find_bytes, hj, Option.map_none]
  rw [cutBlocks]
  split
  · rename_i e
    rw [hi'] at e
    cases e
  · rename_i e
    obtain rfl := Option.some.inj (hi'.symm.trans e)
    simp only [checkOffset_bytes, Text.drop_bytes, Text.take_bytes, bind, Except.bind]
    split
    · rw [asText_bytes]
      simp only
      split <;> rfl
    · rename_i e
      rw [Text.drop_bytes, hj'] at e
      cases e

/-- The bytes up to the end of a block. -/
theorem length_bytes_take_stop (hj : find b.stop (t.drop i) = some j) :
    (Text.bytes ((t.drop i).take (j + b.stop.length))).length =
        (Text.bytes ((t.drop i).take j)).length + (Text.bytes b.stop).length ∧
      (Text.bytes (t.take (i + j + b.stop.length))).length =
        (Text.bytes (t.take i)).length + (Text.bytes ((t.drop i).take j)).length +
          (Text.bytes b.stop).length := by
  have stop : ((t.drop i).drop j).take b.stop.length = b.stop :=
    (List.prefix_iff_eq_take.1 (List.isPrefixOf_iff_prefix.1 (isPrefixOf_drop_of_find hj))).symm
  have block : (t.drop i).take (j + b.stop.length) = (t.drop i).take j ++ b.stop := by
    rw [List.take_add, stop]
  constructor
  · rw [block, Text.bytes_append, List.length_append]
  · rw [Nat.add_assoc i, List.take_add, block, Text.bytes_append, Text.bytes_append,
      List.length_append, List.length_append, Nat.add_assoc]

theorem cutBlocks_of_closed (hi : find b.start t = some i) (hj : find b.stop (t.drop i) = some j)
    (changed : Bool) :
    cutBlocks keep b.bytes ⟨Text.bytes t, changed⟩ =
      if keep ((t.drop i).take (j + b.stop.length)) then .ok none
      else cutBlocks keep b.bytes
        ⟨Text.bytes (splice i (i + j + b.stop.length) t), true⟩ := by
  have hi' : find b.bytes.start (Text.bytes t) = some (Text.bytes (t.take i)).length := by
    rw [Delimiters.bytes, find_bytes, hi, Option.map_some]
  have hj' : find b.bytes.stop (Text.bytes (t.drop i)) =
      some (Text.bytes ((t.drop i).take j)).length := by
    rw [Delimiters.bytes, find_bytes, hj, Option.map_some]
  obtain ⟨block, all⟩ := length_bytes_take_stop hj
  rw [cutBlocks]
  split
  · rename_i e
    rw [hi'] at e
    cases e
  · rename_i e
    obtain rfl := Option.some.inj (hi'.symm.trans e)
    simp only [checkOffset_bytes, Text.drop_bytes, Text.take_bytes, bind, Except.bind]
    split
    · rename_i e
      rw [Text.drop_bytes, hj'] at e
      cases e
    · rename_i e
      rw [Text.drop_bytes] at e
      obtain rfl := Option.some.inj (hj'.symm.trans e)
      have cut : splice (Text.bytes (t.take i)).length
          (Text.bytes (t.take (i + j + b.stop.length))).length (Text.bytes t) =
            Text.bytes (splice i (i + j + b.stop.length) t) := by
        rw [splice, splice, Text.take_bytes, Text.drop_bytes, Text.bytes_append]
      have stop : b.bytes.stop.length = (Text.bytes b.stop).length := rfl
      have order : i ≤ i + j + b.stop.length := by omega
      simp only [stop, ← all, ← block, cut, checkRange_bytes order, Text.take_bytes, asText_bytes]
      rfl

/-- The block pass over the bytes of a text divides them on boundaries at every iteration. -/
theorem cutBlocks_bytes (b : Delimiters Char) (t : Text) : ∀ changed : Bool,
    cutBlocks keep b.bytes ⟨Text.bytes t, changed⟩ =
      .ok ((Strip.cutBlocks keep b ⟨t, changed⟩).map Progress.bytes) := by
  induction t using blockCuts_induction b with
  | clear t hi =>
      intro changed
      rw [cutBlocks_of_none hi, Strip.cutBlocks_of_none keep hi]
      rfl
  | unclosed t i hi hj =>
      intro changed
      rw [cutBlocks_of_open hi hj, Strip.cutBlocks_of_open keep hi hj]
      split <;> rfl
  | closed t i j hi hj ih =>
      intro changed
      rw [cutBlocks_of_closed hi hj, Strip.cutBlocks_of_closed keep hi hj]
      split
      · rfl
      · exact ih true

theorem runPasses_bytes (keep : Text → Bool) (rule : Rule Char) (mode : Mode) (t : Text) :
    runPasses keep rule.bytes mode (Text.bytes t) =
      .ok ((Strip.runPasses keep rule mode t).map Progress.bytes) := by
  have first : (if mode = .blockOnly then .ok (some ⟨Text.bytes t, false⟩)
      else cutLine keep rule.bytes (Text.bytes t)) =
        .ok ((if mode = .blockOnly then some ⟨t, false⟩ else Strip.cutLine keep rule t).map
          Progress.bytes) := by
    split
    · rfl
    · exact cutLine_bytes rule
  simp only [runPasses, Strip.runPasses, first, bind, Except.bind]
  generalize (if mode = .blockOnly then some ⟨t, false⟩ else Strip.cutLine keep rule t) = left
  cases hb : rule.block with
  | none =>
      simp only [Rule.bytes, hb, Option.map_none]
      rfl
  | some b =>
      simp only [Rule.bytes, hb, Option.map_some]
      cases left with
      | none =>
          rw [Option.bind_none, ite_self]
          rfl
      | some p =>
          simp only [Option.map_some, Option.bind_some]
          split
          · rfl
          · exact cutBlocks_bytes b p.text p.changed

/-- The passes over the bytes of a text leave the bytes of what the passes over the text leave. -/
theorem reduce_bytes (keep : Text → Bool) (rule : Rule Char) (mode : Mode) (t : Text) :
    reduce keep rule.bytes mode (Text.bytes t) =
      .ok ((Strip.reduce keep rule mode t).map Text.bytes) := by
  rw [reduce, runPasses_bytes, Strip.reduce]
  cases Strip.runPasses keep rule mode t with
  | none => rfl
  | some p =>
      rcases p with ⟨rest, changed⟩
      cases changed <;> rfl

end Cutting

/-- **All cuts are made on boundaries.**  A marker that is found in the bytes of a text, whatever
characters the two hold, stands between two positions of the text, and the bytes between them are
its own.  So no check fails in the passes over the bytes of a line, at any iteration and for any
markers, and what is left is text: the one that the passes over characters leave. -/
theorem cuts_on_boundaries :
    (∀ (marker text : String) (n : Nat), byteOffset marker text = some n →
      (⟨n⟩ : String.Pos.Raw).IsValid text ∧
        (⟨n + marker.utf8ByteSize⟩ : String.Pos.Raw).IsValid text ∧
        n + marker.utf8ByteSize ≤ text.utf8ByteSize ∧
        (text.toUTF8.toList.drop n).take marker.utf8ByteSize = marker.toUTF8.toList) ∧
      ∀ (keep : Text → Bool) (rule : Rule Char) (mode : Mode) (line : Text),
        reduce keep rule.bytes mode (Text.bytes line) =
            .ok ((Strip.reduce keep rule mode line).map Text.bytes) ∧
          ∀ bs, reduce keep rule.bytes mode (Text.bytes line) = .ok (some bs) →
            bs.toByteArray.IsValidUTF8 := by
  constructor
  · intro marker text n h
    obtain ⟨start, stop, between⟩ := isBoundary_of_byteOffset h
    have last := Text.isBoundary_toUTF8_iff.1 stop
    exact ⟨Text.isBoundary_toUTF8_iff.1 start, last, last.le_rawEndPos, between⟩
  · intro keep rule mode line
    have left := reduce_bytes keep rule mode line
    refine ⟨left, fun bs h => ?_⟩
    rw [left] at h
    obtain ⟨rest, -, rfl⟩ := Option.map_eq_some_iff.1 (Except.ok.inj h)
    exact ByteArray.isValidUTF8_utf8Encode

/-- Markers and text beyond ASCII, a quote after a character whose last byte is not an escape, and
a block that is cut between two characters of several bytes. -/
theorem cuts_on_boundaries_beyond_ascii :
    let rule : Rule Char := ⟨"→".toList, [], some ⟨"«ß".toList, "»".toList⟩⟩
    let line := "é'«ß'ñ«ß ü »☃ → ö".toList
    byteOffset "«ß" "é'«ß'ñ«ß" = some 10 ∧
      (⟨10⟩ : String.Pos.Raw).IsValid "é'«ß'ñ«ß" ∧
      Strip.reduce (fun _ => false) rule .both line = some "é'«ß'ñ☃ ".toList ∧
      reduce (fun _ => false) rule.bytes .both (Text.bytes line) =
        .ok (some (Text.bytes "é'«ß'ñ☃ ".toList)) ∧
      (Text.bytes "é'«ß'ñ☃ ".toList).toByteArray.IsValidUTF8 := by
  intro rule line
  obtain ⟨found, passes⟩ := cuts_on_boundaries
  have offset : byteOffset "«ß" "é'«ß'ñ«ß" = some 10 := by
    rw [byteOffset_eq]
    decide +kernel
  have cut : Strip.reduce (fun _ => false) rule .both line = some "é'«ß'ñ☃ ".toList := by
    decide +kernel
  obtain ⟨safe, text⟩ := passes (fun _ => false) rule .both line
  rw [cut, Option.map_some] at safe
  exact ⟨offset, (found _ _ _ offset).1, cut, safe, text _ safe⟩

end Checked
end Strip
end Decomment
