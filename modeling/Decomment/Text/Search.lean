import Decomment.Text.Blank

/-!
# Searching a text

**Results.**
* `exists_of_afterFirst`: what comes after the first occurrence does come after an occurrence.
* `exists_afterFirst`: no occurrence leaves more of the text than the first one.
* `hasSegment_iff`: a segment is found exactly where it occurs.
-/

namespace Decomment
namespace Text

/-- The text after the first occurrence of the segment. -/
def afterFirst (segment : Text) : Text → Option Text
  | [] => if segment.isEmpty then some [] else none
  | c :: cs =>
      if segment.isPrefixOf (c :: cs) then some ((c :: cs).drop segment.length)
      else afterFirst segment cs

/-- The segment occurs in the text. -/
def hasSegment (t segment : Text) : Bool :=
  (afterFirst segment t).isSome

theorem exists_of_afterFirst {segment : Text} : ∀ {t rest : Text},
    afterFirst segment t = some rest → ∃ before, t = before ++ segment ++ rest
  | [], rest, h => by
      rw [afterFirst] at h
      split at h
      · rename_i he
        obtain rfl := Option.some.inj h
        exact ⟨[], by simpa using he⟩
      · cases h
  | c :: cs, rest, h => by
      rw [afterFirst] at h
      split at h
      · rename_i hp
        obtain rfl := Option.some.inj h
        have e := List.prefix_iff_eq_append.1 (List.isPrefixOf_iff_prefix.1 hp)
        exact ⟨[], by simpa using e.symm⟩
      · obtain ⟨before, e⟩ := exists_of_afterFirst h
        exact ⟨c :: before, by rw [e]; rfl⟩

/-- The first occurrence leaves all that another occurrence leaves. -/
theorem exists_afterFirst (segment : Text) : ∀ before rest : Text,
    ∃ left, afterFirst segment (before ++ (segment ++ rest)) = some left ∧ rest <:+ left
  | [], rest => by
      refine ⟨rest, ?_, List.suffix_refl rest⟩
      cases h : segment ++ rest with
      | nil =>
          obtain ⟨rfl, rfl⟩ := List.append_eq_nil_iff.1 h
          rfl
      | cons c cs =>
          have starts : segment.isPrefixOf (c :: cs) = true := by
            rw [List.isPrefixOf_iff_prefix, ← h]
            exact List.prefix_append _ _
          rw [List.nil_append, afterFirst, if_pos starts, ← h, List.drop_left]
  | c :: cs, rest => by
      rw [List.cons_append, afterFirst]
      split
      · -- The segment starts here already, so that less is taken from the text.
        have whole : rest <:+ c :: (cs ++ (segment ++ rest)) := ⟨c :: (cs ++ segment), by simp⟩
        refine ⟨_, rfl, List.suffix_of_suffix_length_le whole (List.drop_suffix _ _) ?_⟩
        simp only [List.length_drop, List.length_cons, List.length_append]
        omega
      · exact exists_afterFirst segment cs rest

theorem hasSegment_iff {t segment : Text} : hasSegment t segment = true ↔ segment <:+: t := by
  rw [hasSegment, Option.isSome_iff_exists]
  constructor
  · rintro ⟨rest, h⟩
    obtain ⟨before, rfl⟩ := exists_of_afterFirst h
    exact ⟨before, rest, rfl⟩
  · rintro ⟨before, rest, rfl⟩
    obtain ⟨left, h, -⟩ := exists_afterFirst segment before rest
    exact ⟨left, by rw [List.append_assoc, h]⟩

end Text
end Decomment
