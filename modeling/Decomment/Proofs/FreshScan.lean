import Decomment.Proofs.ByteOffsets
import Mathlib.Order.Bounds.Image

/-!
# Scans that start afresh

Which quote is open before a byte of a text is told by a fold over the offsets before it.  Outside
quotes each of the three quotes opens a region; inside one the same quote closes it, unless the
byte directly before is a backslash.  A marker has a place at each offset outside quotes and not on
a quote at which its bytes follow.

The end of a block is searched from its start marker on, with no quote open and no byte before.
That is a scan of another text, so it is not clear that it stays in step with the scan of the whole
line.  It does, since a marker is only found where no quote is open, and there the byte before does
not matter: the places of any marker in the rest of the text are its places in the whole text from
there on.

**Results.**
* `quoteBefore_eq_quoteAfter`: the fold over offsets tells which quote the scan has open.
* `mem_places_iff`: a marker has its places where it stands for the scan.
* `byteOffset_eq_some_iff`, `byteOffset_eq_none_iff`: a scan finds the least place.
* `places_append_inter_Ici`: the places in the second part of a text are those of the whole text.
* `scan_finds_first_place`: both for a scan and for one that starts at what the first has found.
-/

namespace Decomment
namespace Marker

open QuoteAlphabet Text

section Defs

/-- The double quote, the single quote and the backtick. -/
def quoteBytes : List UInt8 := [0x22, 0x27, 0x60]

/-- The quote that is open after the byte at offset `i`, where `quote` is open before it.  The same
quote does not close the region if the last byte before it is a backslash, `0x5C`. -/
def passByte (bs : List UInt8) (quote : Option UInt8) (i : Nat) : Option UInt8 :=
  match quote with
  | none => bs[i]?.filter (· ∈ quoteBytes)
  | some q => if bs[i]? = some q ∧ (bs.take i).getLast? ≠ some 0x5C then none else some q

/-- The quote that is open before offset `k`. -/
def quoteBefore (bs : List UInt8) (k : Nat) : Option UInt8 :=
  (List.range k).foldl (passByte bs) none

/-- The offsets outside quotes, and not on a quote, at which the bytes of the marker follow. -/
def places (marker text : String) : Set Nat :=
  {k | quoteBefore text.toUTF8.toList k = none ∧
    (∃ b ∈ text.toUTF8.toList[k]?, b ∉ quoteBytes) ∧
    marker.toUTF8.toList <+: text.toUTF8.toList.drop k}

end Defs

section Fold

variable {bs : List UInt8} {quote : Option UInt8} {b : UInt8} {i : Nat}

theorem mem_quoteBytes_iff : b ∈ quoteBytes ↔ isQuote b = true := by
  simp [quoteBytes, isQuote, or_assoc]

theorem not_mem_quoteBytes_iff : b ∉ quoteBytes ↔ isQuote b = false := by
  rw [mem_quoteBytes_iff, Bool.not_eq_true]

theorem quoteBefore_succ (bs : List UInt8) (k : Nat) :
    quoteBefore bs (k + 1) = passByte bs (quoteBefore bs k) k := by
  rw [quoteBefore, List.range_succ, List.foldl_append]
  rfl

theorem passByte_of_none (h : bs[i]? = none) : passByte bs quote i = quote := by
  cases quote <;> simp [passByte, h]

/-- The fold looks back into the text for the byte that the scan has kept. -/
theorem passByte_of_some (h : bs[i]? = some b) :
    passByte bs quote i = advance quote (bs.take i).getLast? b := by
  cases quote with
  | none =>
      simp only [passByte, advance, h, Option.filter_some, mem_quoteBytes_iff, decide_eq_true_eq]
  | some q =>
      simp only [passByte, advance, h, Option.some_inj, escape]

/-- The fold over the offsets before `k` tells which quote the scan has open there. -/
theorem quoteBefore_eq_quoteAfter (bs : List UInt8) : ∀ k : Nat,
    quoteBefore bs k = quoteAfter none none (bs.take k)
  | 0 => rfl
  | k + 1 => by
      rw [quoteBefore_succ, quoteBefore_eq_quoteAfter bs k, List.take_add_one]
      cases h : bs[k]? with
      | none =>
          -- The text has ended, and neither side goes on.
          rw [passByte_of_none h, Option.toList_none, List.append_nil]
      | some b =>
          rw [passByte_of_some h, Option.toList_some, quoteAfter_append, Option.or_none]
          rfl

end Fold

section Places

variable {marker text : String} {k : Nat}

theorem mem_places_iff :
    k ∈ places marker text ↔ StandsAt marker.toUTF8.toList text.toUTF8.toList k := by
  simp only [places, Set.mem_ofPred_eq, quoteBefore_eq_quoteAfter, not_mem_quoteBytes_iff]
  constructor
  · rintro ⟨outside, unquoted, starts⟩
    exact ⟨outside, unquoted, starts⟩
  · rintro ⟨outside, unquoted, starts⟩
    exact ⟨outside, unquoted, starts⟩

/-- A scan finds the least place of the marker. -/
theorem byteOffset_eq_some_iff (hm : marker ≠ "") {i : Nat} :
    byteOffset marker text = some i ↔ IsLeast (places marker text) i := by
  rw [byteOffset, find_eq_some_iff (mt toUTF8_eq_nil_iff.1 hm)]
  simp only [← mem_places_iff]
  refine and_congr_right fun _ => forall_congr' fun k => ?_
  rw [imp_not_comm, not_lt]

theorem byteOffset_eq_none_iff (hm : marker ≠ "") :
    byteOffset marker text = none ↔ places marker text = ∅ := by
  rw [byteOffset, find_eq_none_iff (mt toUTF8_eq_nil_iff.1 hm), Set.eq_empty_iff_forall_notMem]
  simp only [mem_places_iff]

end Places

section Parts

variable {before after : String}

/-- After a part that leaves no quote open, the places are those of the rest, moved. -/
theorem places_append_inter_Ici (marker : String) (h : EndsOutside before.toUTF8.toList) :
    places marker (before ++ after) ∩ Set.Ici before.utf8ByteSize =
      (before.utf8ByteSize + ·) '' places marker after := by
  ext k
  rw [Set.mem_inter_iff, Set.mem_Ici, mem_places_iff, toUTF8_append, ← length_toUTF8]
  constructor
  · rintro ⟨stands, later⟩
    obtain ⟨j, rfl⟩ := Nat.exists_eq_add_of_le later
    exact ⟨j, mem_places_iff.2 ((standsAt_append_right_iff h).1 stands), rfl⟩
  · rintro ⟨j, place, rfl⟩
    exact ⟨(standsAt_append_right_iff h).2 (mem_places_iff.1 place), Nat.le_add_right _ _⟩

/-- A scan of the rest alone finds the least place from there on. -/
theorem byteOffset_rest_eq_some_iff {other : String} (ho : other ≠ "")
    (h : EndsOutside before.toUTF8.toList) {j : Nat} :
    byteOffset other after = some j ↔
      IsLeast (places other (before ++ after) ∩ Set.Ici before.utf8ByteSize)
        (before.utf8ByteSize + j) := by
  have moved : StrictMono (before.utf8ByteSize + ·) := fun _ _ less => Nat.add_lt_add_left less _
  rw [places_append_inter_Ici other h, moved.map_isLeast, byteOffset_eq_some_iff ho]

/-- Where a marker is found the text can be divided, outside quotes and after a part without it. -/
theorem exists_parts_of_byteOffset {marker text : String} {i : Nat}
    (h : byteOffset marker text = some i) :
    ∃ before after, text = before ++ after ∧ before.utf8ByteSize = i ∧
      byteOffset marker before = none ∧ EndsOutside before.toUTF8.toList := by
  have valid := isBoundary_toUTF8_iff.1 (isBoundary_of_byteOffset h).1
  obtain ⟨before, after, rfl, hi⟩ := String.Pos.Raw.isValid_iff_exists_append.1 valid
  have size : i = before.toUTF8.toList.length := by
    rw [length_toUTF8]
    exact congrArg String.Pos.Raw.byteIdx hi
  have first : (before ++ after).toUTF8.toList.take i = before.toUTF8.toList := by
    rw [toUTF8_append, size, List.take_left]
  refine ⟨before, after, rfl, by rw [size, length_toUTF8], ?_, ?_⟩
  · rw [byteOffset, ← first]
    exact find_take_of_find h
  · rw [← first]
    exact endsOutside_take_of_find h

end Parts

/-- **A scan finds the first place of a marker, and a scan from there does so for any other.**
The places are told from the whole text, by the fold over all bytes before them.  A marker is found
at the least of them, and is not found if there are none.  What comes before it does not hold the
marker.  A scan of the text from there on, which knows nothing of what came before, finds any other
marker at its least place from there on. -/
theorem scan_finds_first_place (marker text : String) (hm : marker ≠ "") :
    (∀ i, byteOffset marker text = some i ↔ IsLeast (places marker text) i) ∧
      (byteOffset marker text = none ↔ places marker text = ∅) ∧
      ∀ i, byteOffset marker text = some i →
        ∃ before after, text = before ++ after ∧ before.utf8ByteSize = i ∧
          byteOffset marker before = none ∧
          ∀ other, other ≠ "" → ∀ j, byteOffset other after = some j ↔
            IsLeast (places other text ∩ Set.Ici i) (i + j) := by
  refine ⟨fun i => byteOffset_eq_some_iff hm, byteOffset_eq_none_iff hm, fun i h => ?_⟩
  obtain ⟨before, after, rfl, rfl, clear, outside⟩ := exists_parts_of_byteOffset h
  exact ⟨before, after, rfl, rfl, clear, fun other ho j => byteOffset_rest_eq_some_iff ho outside⟩

/-- A block that starts right after a backslash.  Its start marker is quoted before, in a literal
with an escaped quote, and its end marker is quoted twice before the block ends. -/
theorem scan_finds_first_place_escaped :
    let text := "é'/*\\'' \\/* '*/' \x22*/ */\x22 */ x"
    byteOffset "/*" text = some 10 ∧ IsLeast (places "/*" text) 10 ∧
      ∃ before after, text = before ++ after ∧ before.utf8ByteSize = 10 ∧
        byteOffset "/*" before = none ∧ byteOffset "*/" after = some 16 ∧
          IsLeast (places "*/" text ∩ Set.Ici 10) 26 := by
  intro text
  have found : byteOffset "/*" text = some 10 := by
    rw [byteOffset_eq]
    decide +kernel
  obtain ⟨least, -, fresh⟩ := scan_finds_first_place "/*" text (by decide)
  obtain ⟨before, after, parts, size, clear, agree⟩ := fresh 10 found
  have rest : after.toUTF8.toList = text.toUTF8.toList.drop 10 := by
    rw [parts, toUTF8_append, ← size, ← length_toUTF8, List.drop_left]
  have stop : byteOffset "*/" after = some 16 := by
    rw [byteOffset, rest, toList_toUTF8, toList_toUTF8]
    decide +kernel
  exact ⟨found, (least 10).1 found, before, after, parts, size, clear, stop,
    (agree "*/" (by decide) 16).1 stop⟩

end Marker
end Decomment
