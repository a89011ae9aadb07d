import Decomment.Keep

/-!
# The language of the preserve patterns

A pattern with stars stands for the texts that come of it by putting some text, which may be empty,
in the place of each star.  So its first and its last segment are anchored at the ends of the text,
and the other segments stand in between, in order and disjoint.

The matcher takes both anchors off and then looks for each of the other segments at its first
occurrence only.  Nothing is lost by that: the first occurrence leaves all of the text that another
one would leave, and what is found in a text is found in every text that ends with it.

**Results.**
* `expands_append_iff`, `expands_star_iff`: what stands for a pattern, read from its start.
* `inOrder_cons_iff`: the segments that are found by first occurrences are those that can be found.
* `expands_joinStars_iff`: a text stands for a pattern if the segments are found between its anchors.
* `fits_iff`: the matcher decides whether a text stands for the pattern.
* `shouldKeep_iff`: which comments are kept.
-/

namespace Decomment
namespace Keep

section Language

/-- The text comes of the pattern by putting some text in the place of each star. -/
inductive Expands : Text → Text → Prop
  | nil : Expands [] []
  | star {p t : Text} (u : Text) : Expands p t → Expands ('*' :: p) (u ++ t)
  | letter {c : Char} {p t : Text} : c ≠ '*' → Expands p t → Expands (c :: p) (c :: t)

variable {c : Char} {p w t : Text}

theorem expands_nil_iff : Expands [] t ↔ t = [] := by
  constructor
  · rintro ⟨⟩
    rfl
  · rintro rfl
    exact .nil

theorem expands_star_iff : Expands ('*' :: p) t ↔ ∃ u s, t = u ++ s ∧ Expands p s := by
  constructor
  · intro h
    cases h with
    | star u hp => exact ⟨u, _, rfl, hp⟩
    | letter hc _ => exact absurd rfl hc
  · rintro ⟨u, s, rfl, hp⟩
    exact .star u hp

theorem expands_cons_iff (hc : c ≠ '*') :
    Expands (c :: p) t ↔ ∃ s, t = c :: s ∧ Expands p s := by
  constructor
  · intro h
    cases h with
    | star u hp => exact absurd rfl hc
    | letter _ hp => exact ⟨_, rfl, hp⟩
  · rintro ⟨s, rfl, hp⟩
    exact .letter hc hp

/-- Letters without a star stand for themselves. -/
theorem expands_append_iff : ∀ {w t : Text}, '*' ∉ w →
    (Expands (w ++ p) t ↔ ∃ s, t = w ++ s ∧ Expands p s)
  | [], t, _ => by simp
  | c :: w, t, h => by
      rw [List.mem_cons, not_or] at h
      rw [List.cons_append, expands_cons_iff (Ne.symm h.1)]
      constructor
      · rintro ⟨s, rfl, hs⟩
        obtain ⟨r, rfl, hr⟩ := (expands_append_iff h.2).1 hs
        exact ⟨r, rfl, hr⟩
      · rintro ⟨s, rfl, hs⟩
        exact ⟨w ++ s, rfl, (expands_append_iff h.2).2 ⟨s, rfl, hs⟩⟩

end Language

section Segments

variable {segment : Text} {segments : List Text}

theorem inOrder_cons (segment : Text) (segments : List Text) (t : Text) :
    inOrder (segment :: segments) t = true ↔
      ∃ left, Text.afterFirst segment t = some left ∧ inOrder segments left = true := by
  rw [inOrder]
  cases Text.afterFirst segment t <;> simp

/-- Segments that are found in a text are found in every text that ends with it. -/
theorem inOrder_of_suffix : ∀ {segments : List Text} {s t : Text}, s <:+ t →
    inOrder segments s = true → inOrder segments t = true
  | [], _, _, _, _ => rfl
  | segment :: segments, s, t, hst, h => by
      obtain ⟨left, hleft, hrest⟩ := (inOrder_cons segment segments s).1 h
      obtain ⟨before, rfl⟩ := Text.exists_of_afterFirst hleft
      obtain ⟨more, rfl⟩ := hst
      obtain ⟨larger, hlarger, hsuffix⟩ := Text.exists_afterFirst segment (more ++ before) left
      refine (inOrder_cons segment segments _).2 ⟨larger, ?_, inOrder_of_suffix hsuffix hrest⟩
      rw [← hlarger]
      simp only [List.append_assoc]

/-- The first occurrence of a segment will do if any occurrence does. -/
theorem inOrder_cons_iff {t : Text} : inOrder (segment :: segments) t = true ↔
    ∃ u s, t = u ++ (segment ++ s) ∧ inOrder segments s = true := by
  rw [inOrder_cons]
  constructor
  · rintro ⟨s, hs, h⟩
    obtain ⟨u, rfl⟩ := Text.exists_of_afterFirst hs
    exact ⟨u, s, List.append_assoc _ _ _, h⟩
  · rintro ⟨u, s, rfl, h⟩
    obtain ⟨left, hleft, hsuffix⟩ := Text.exists_afterFirst segment u s
    exact ⟨left, hleft, inOrder_of_suffix hsuffix h⟩

theorem between_eq_some_iff {head tail t middle : Text} :
    between head tail t = some middle ↔ t = head ++ (middle ++ tail) := by
  constructor
  · intro h
    simp only [between, List.isPrefixOf_iff_prefix, List.isSuffixOf_iff_suffix] at h
    split at h
    · rename_i starts
      obtain ⟨s, rfl⟩ := starts
      rw [List.drop_left] at h
      split at h
      · rename_i ends
        obtain ⟨m, rfl⟩ := ends
        rw [← Option.some.inj h]
        simp
      · cases h
    · cases h
  · rintro rfl
    simp [between]

/-- The segments after the first one: some text and a segment at each star, the last segment at the
end. -/
theorem expands_stars_iff {last : Text} (hlast : '*' ∉ last) : ∀ {middle : List Text} {t : Text},
    (∀ w ∈ middle, '*' ∉ w) →
      (Expands ((middle ++ [last]).flatMap ('*' :: ·)) t ↔
        ∃ s, t = s ++ last ∧ inOrder middle s = true)
  | [], t, _ => by
      have only : ([] ++ [last]).flatMap ('*' :: ·) = '*' :: (last ++ []) := by simp
      simp only [only, expands_star_iff, expands_append_iff hlast, expands_nil_iff]
      simp [inOrder]
  | segment :: middle, t, h => by
      have first : '*' ∉ segment := h segment List.mem_cons_self
      have others : ∀ w ∈ middle, '*' ∉ w := fun w hw => h w (List.mem_cons_of_mem _ hw)
      have next : (segment :: middle ++ [last]).flatMap ('*' :: ·) =
          '*' :: (segment ++ (middle ++ [last]).flatMap ('*' :: ·)) := by simp
      rw [next, expands_star_iff]
      constructor
      · rintro ⟨u, s, rfl, hs⟩
        obtain ⟨r, rfl, hr⟩ := (expands_append_iff first).1 hs
        obtain ⟨s, rfl, found⟩ := (expands_stars_iff hlast others).1 hr
        exact ⟨u ++ (segment ++ s), by simp, inOrder_cons_iff.2 ⟨u, s, rfl, found⟩⟩
      · rintro ⟨s, rfl, found⟩
        obtain ⟨u, r, rfl, hr⟩ := inOrder_cons_iff.1 found
        refine ⟨u, segment ++ (r ++ last), by simp, (expands_append_iff first).2 ?_⟩
        exact ⟨r ++ last, rfl, (expands_stars_iff hlast others).2 ⟨r, rfl, hr⟩⟩

theorem expands_joinStars_iff {first last : Text} {middle : List Text} {t : Text}
    (hfirst : '*' ∉ first) (hmiddle : ∀ w ∈ middle, '*' ∉ w) (hlast : '*' ∉ last) :
    Expands (joinStars first (middle ++ [last])) t ↔
      ∃ s, between first last t = some s ∧ inOrder middle s = true := by
  simp only [joinStars, expands_append_iff hfirst, expands_stars_iff hlast hmiddle,
    between_eq_some_iff]
  constructor
  · rintro ⟨r, rfl, s, rfl, hs⟩
    exact ⟨s, rfl, hs⟩
  · rintro ⟨s, rfl, hs⟩
    exact ⟨s ++ last, rfl, s, rfl, hs⟩

end Segments

section Matcher

theorem star_not_mem_splitStars : ∀ p : Text,
    '*' ∉ (splitStars p).1 ∧ ∀ w ∈ (splitStars p).2, '*' ∉ w
  | [] => by simp [splitStars]
  | c :: cs => by
      obtain ⟨first, rest⟩ := star_not_mem_splitStars cs
      rw [splitStars]
      by_cases h : c = '*'
      · simp only [if_pos h]
        exact ⟨List.not_mem_nil, List.forall_mem_cons.2 ⟨first, rest⟩⟩
      · simp only [if_neg h]
        exact ⟨fun hc => (List.mem_cons.1 hc).elim (fun e => h e.symm) first, rest⟩

/-- The matcher decides whether a text holds a pattern without stars, or stands for a pattern with
stars. -/
theorem fits_iff {p t : Text} :
    fits p t = true ↔ ('*' ∉ p ∧ p <:+: t) ∨ ('*' ∈ p ∧ Expands p t) := by
  have joined := joinStars_splitStars p
  obtain ⟨hfirst, hrest⟩ := star_not_mem_splitStars p
  rw [fits]
  rcases h : splitStars p with ⟨first, _ | ⟨segment, rest⟩⟩ <;> simp only [h] at joined hfirst hrest
  · obtain rfl : first = p := by simpa [joinStars] using joined
    simp [hfirst, Text.hasSegment_iff]
  · have starred : '*' ∈ p := by
      rw [← joined]
      simp [joinStars]
    -- The last segment is an anchor too, so that the list is read from its end.
    obtain ⟨middle, last, e⟩ : ∃ middle last, segment :: rest = middle ++ [last] :=
      ⟨_, _, (List.dropLast_concat_getLast (List.cons_ne_nil segment rest)).symm⟩
    simp only [e, List.forall_mem_append, List.forall_mem_singleton] at joined hrest
    simp only [e, List.getLast_concat, List.dropLast_concat, starred, not_true_eq_false,
      false_and, false_or, true_and]
    rw [← joined, expands_joinStars_iff hfirst hrest.1 hrest.2]
    cases between first last t <;> simp

/-- The anchors of a pattern do not overlap, and its segments come in order. -/
example : fits "a*a".toList "a".toList = false ∧ fits "a*b**a".toList "aab-a".toList = true ∧
    fits "a*b**a".toList "a-ab".toList = false := by
  decide

/-- **What is kept.**  A comment is kept exactly if, trimmed, it holds one of the patterns without
stars, or comes of one of the others by putting some text in the place of each star. -/
theorem shouldKeep_iff (patterns : List Text) (comment : Text) :
    shouldKeep patterns comment = true ↔
      ∃ p ∈ patterns, ('*' ∉ p ∧ p <:+: Text.trim comment) ∨
        ('*' ∈ p ∧ Expands p (Text.trim comment)) := by
  rw [shouldKeep, List.any_eq_true]
  simp only [fits_iff]

end Matcher

end Keep
end Decomment
