import Decomment.Hunk

/-!
# The grammar of hunk headers

A header is written by a rule: two at signs, blanks, a minus sign and the old numbers, blanks, a
plus sign and the new numbers, blanks, two at signs.  Digits, blanks and signs are different
characters, so no part of a header can be read in two ways.  Reading part by part therefore finds
every header with which a text starts, and the search finds the one that stands furthest to the
left.

A header ends in an at sign.  So it does not matter whether the line feed after a line, or a
carriage return, is read with the line.

**Results.**
* `takeSide_eq_some_iff`, `headerAt_eq_some_iff`: what is read from the start of a text.
* `findHeader_eq_some_iff`: the search finds the first header of a line.
* `newLines_eq_some_iff`: which new lines a header names.
* `ranges_append_lf`: two diffs, one after the other, name the ranges of both.
* `ranges_of_grammar`: the ranges of a line are those that its first header names.
-/

namespace Decomment

namespace Text

/-- One character or more, all of them in the class `p`. -/
def IsRow (p : Char → Bool) (t : Text) : Prop :=
  t ≠ [] ∧ ∀ c ∈ t, p c = true

instance (p : Char → Bool) (t : Text) : Decidable (IsRow p t) :=
  decidable_of_iff ((!t.isEmpty && t.all p) = true) (by simp [IsRow])

/-- The text does not go on with a character of the class `p`. -/
def Stops (p : Char → Bool) (t : Text) : Prop :=
  ∀ c, t.head? = some c → p c = false

section Rows

variable {p : Char → Bool} {row rest t : Text}

theorem stops_cons {c : Char} : Stops p (c :: t) ↔ p c = false := by
  simp [Stops]

theorem stops_dropWhile (p : Char → Bool) (t : Text) : Stops p (t.dropWhile p) := by
  intro c hc
  have boundary := List.head?_dropWhile_not p t
  rw [hc] at boundary
  exact boundary

/-- The characters of a class at the front of a text, and what follows them. -/
theorem split_iff : t.takeWhile p = row ∧ t.dropWhile p = rest ↔
    (∀ c ∈ row, p c = true) ∧ Stops p rest ∧ t = row ++ rest := by
  constructor
  · rintro ⟨rfl, rfl⟩
    exact ⟨List.all_eq_true.1 List.all_takeWhile, stops_dropWhile p t,
      List.takeWhile_append_dropWhile.symm⟩
  · rintro ⟨inside, boundary, rfl⟩
    rw [List.takeWhile_append_of_pos inside, List.dropWhile_append_of_pos inside]
    cases rest with
    | nil => simp
    | cons c cs => simp [stops_cons.1 boundary]

/-- A row of another class comes to a stop where it starts. -/
theorem IsRow.stops_append {q : Char → Bool} (h : IsRow q row)
    (hpq : ∀ c, q c = true → p c = false) : Stops p (row ++ rest) := by
  obtain ⟨hne, inside⟩ := h
  cases row with
  | nil => exact absurd rfl hne
  | cons c cs => exact stops_cons.2 (hpq c (inside c List.mem_cons_self))

end Rows
end Text

open Text

/-- The numeral has a value below `2 ^ 64`: it is a row of ASCII digits. -/
def HasValue (t : Text) (n : Nat) : Prop :=
  IsRow isAsciiDigit t ∧ numeralValue t = n ∧ n ≤ maxLine

instance (t : Text) (n : Nat) : Decidable (HasValue t n) :=
  inferInstanceAs (Decidable (IsRow isAsciiDigit t ∧ numeralValue t = n ∧ n ≤ maxLine))

namespace HunkSide

/-- The side as it is written. -/
def text (side : HunkSide) : Text :=
  match side.count with
  | none => side.start
  | some count => side.start ++ ',' :: count

/-- Start and count are rows of digits. -/
structure IsNumbered (side : HunkSide) : Prop where
  start : IsRow isDecimal side.start
  count : ∀ ds, side.count = some ds → IsRow isDecimal ds

/-- The start has a value and the count has one.  A count that is left out is one. -/
def HasValues (side : HunkSide) (s n : Nat) : Prop :=
  HasValue side.start s ∧
    match side.count with
    | none => n = 1
    | some ds => HasValue ds n

instance : ∀ (side : HunkSide) (s n : Nat), Decidable (side.HasValues s n)
  | ⟨start, none⟩, s, n => inferInstanceAs (Decidable (HasValue start s ∧ n = 1))
  | ⟨start, some ds⟩, s, n => inferInstanceAs (Decidable (HasValue start s ∧ HasValue ds n))

end HunkSide

namespace Hunk

section Grammar

/-- The text is written by the rule for headers, with the numbers of `h`. -/
def IsHeader (h : HunkHeader) (t : Text) : Prop :=
  h.old.IsNumbered ∧ h.new.IsNumbered ∧
    ∃ b₁ b₂ b₃, IsRow isBlank b₁ ∧ IsRow isBlank b₂ ∧ IsRow isBlank b₃ ∧
      t = ['@', '@'] ++ (b₁ ++ '-' :: (h.old.text ++ (b₂ ++ '+' :: (h.new.text ++
        (b₃ ++ ['@', '@'])))))

/-- The header `h` stands in the line after `i` characters. -/
def HasHeaderAt (line : Text) (i : Nat) (h : HunkHeader) : Prop :=
  ∃ before t after, line = before ++ (t ++ after) ∧ before.length = i ∧ IsHeader h t

/-- The header `h` stands in the line, and no header stands further left. -/
def HasFirstHeader (line : Text) (h : HunkHeader) : Prop :=
  ∃ i, HasHeaderAt line i h ∧ ∀ j h', HasHeaderAt line j h' → i ≤ j

end Grammar

section Reading

variable {t rest line : Text} {h : HunkHeader}

theorem skip_eq_some_iff {head : Text} : skip head t = some rest ↔ t = head ++ rest := by
  unfold skip
  constructor
  · intro h
    split at h
    · rename_i starts
      obtain ⟨s, rfl⟩ := List.isPrefixOf_iff_prefix.1 starts
      rw [← Option.some.inj h, List.drop_left]
    · cases h
  · rintro rfl
    rw [if_pos (List.isPrefixOf_iff_prefix.2 (List.prefix_append head rest)), List.drop_left]

theorem skipBlanks_eq_some_iff : skipBlanks t = some rest ↔
    ∃ b, IsRow isBlank b ∧ Stops isBlank rest ∧ t = b ++ rest := by
  constructor
  · intro h
    cases t with
    | nil => cases h
    | cons c cs =>
        rw [skipBlanks] at h
        split at h
        · rename_i hc
          obtain ⟨inside, boundary, e⟩ := split_iff.1 ⟨rfl, Option.some.inj h⟩
          refine ⟨c :: cs.takeWhile isBlank, ⟨List.cons_ne_nil _ _, ?_⟩, boundary, ?_⟩
          · exact List.forall_mem_cons.2 ⟨hc, inside⟩
          · rw [List.cons_append, ← e]
        · cases h
  · rintro ⟨b, ⟨hne, inside⟩, boundary, rfl⟩
    cases b with
    | nil => exact absurd rfl hne
    | cons c b =>
        obtain ⟨hc, inside⟩ := List.forall_mem_cons.1 inside
        rw [List.cons_append, skipBlanks, if_pos hc, (split_iff.2 ⟨inside, boundary, rfl⟩).2]

theorem takeDigits_eq_some_iff {ds : Text} : takeDigits t = some (ds, rest) ↔
    IsRow isDecimal ds ∧ Stops isDecimal rest ∧ t = ds ++ rest := by
  rw [takeDigits]
  constructor
  · intro h
    split at h
    · cases h
    · rename_i hne
      obtain ⟨rfl, rfl⟩ := Prod.mk.inj (Option.some.inj h)
      obtain ⟨inside, boundary, e⟩ := split_iff.1 ⟨rfl, rfl⟩
      exact ⟨⟨hne, inside⟩, boundary, e⟩
  · rintro ⟨⟨hne, inside⟩, boundary, e⟩
    obtain ⟨taken, left⟩ := split_iff.2 ⟨inside, boundary, e⟩
    rw [taken, left]
    split
    · exact absurd rfl hne
    · rfl

theorem takeSide_eq_some_iff {side : HunkSide} : takeSide t = some (side, rest) ↔
    side.IsNumbered ∧ Stops isDecimal rest ∧ (side.count = none → rest.head? ≠ some ',') ∧
      t = side.text ++ rest := by
  constructor
  · intro hread
    obtain ⟨⟨start, left⟩, hstart, hread⟩ := Option.bind_eq_some_iff.1 hread
    obtain ⟨start_row, boundary, e⟩ := takeDigits_eq_some_iff.1 hstart
    simp only at hread
    split at hread
    · rename_i left
      obtain ⟨⟨count, last⟩, hcount, hread⟩ := Option.bind_eq_some_iff.1 hread
      obtain ⟨count_row, boundary, e'⟩ := takeDigits_eq_some_iff.1 hcount
      obtain ⟨rfl, rfl⟩ := Prod.mk.inj (Option.some.inj hread)
      refine ⟨⟨start_row, ?_⟩, boundary, nofun, ?_⟩
      · rintro _ ⟨⟩
        exact count_row
      · rw [e, e', HunkSide.text, List.append_assoc, List.cons_append]
    · rename_i no_comma
      obtain ⟨rfl, rfl⟩ := Prod.mk.inj (Option.some.inj hread)
      refine ⟨⟨start_row, nofun⟩, boundary, ?_, e⟩
      intro _ e
      obtain ⟨after, rfl⟩ := List.head?_eq_some_iff.1 e
      exact no_comma after rfl
  · rintro ⟨⟨start_row, count_row⟩, boundary, no_comma, rfl⟩
    rcases side with ⟨start, _ | count⟩
    · have taken : takeDigits (start ++ rest) = some (start, rest) :=
        takeDigits_eq_some_iff.2 ⟨start_row, boundary, rfl⟩
      rw [takeSide, HunkSide.text, taken]
      cases rest with
      | nil => rfl
      | cons c cs =>
          have hc : c ≠ ',' := by simpa using no_comma rfl
          simp [hc]
    · have first : takeDigits (start ++ ',' :: (count ++ rest)) =
          some (start, ',' :: (count ++ rest)) :=
        takeDigits_eq_some_iff.2 ⟨start_row, stops_cons.2 (by decide), rfl⟩
      have second : takeDigits (count ++ rest) = some (count, rest) :=
        takeDigits_eq_some_iff.2 ⟨count_row count rfl, boundary, rfl⟩
      rw [takeSide, HunkSide.text, List.append_assoc, List.cons_append, first]
      simp [second]

/-- After a side comes a blank, which neither goes on with its digits nor starts a count. -/
theorem takeSide_append {side : HunkSide} {b : Text} (hside : side.IsNumbered)
    (hb : IsRow isBlank b) : takeSide (side.text ++ (b ++ rest)) = some (side, b ++ rest) := by
  refine takeSide_eq_some_iff.2 ⟨hside, hb.stops_append ?_, fun _ e => ?_, rfl⟩
  · exact fun c hc => isDecimal_eq_false_of_isBlank hc
  · have comma : Stops (· == ',') (b ++ rest) := hb.stops_append fun c hc => by
      simp only [beq_eq_false_iff_ne]
      rintro rfl
      cases hc
    cases comma ',' e

/-- Blanks are skipped up to what is no blank. -/
theorem skipBlanks_append {b : Text} (hb : IsRow isBlank b) {c : Char}
    (hc : isBlank c = false) : skipBlanks (b ++ c :: rest) = some (c :: rest) :=
  skipBlanks_eq_some_iff.2 ⟨b, hb, stops_cons.2 hc, rfl⟩

/-- A text starts with the header that is read from it, and with no other. -/
theorem headerAt_eq_some_iff : headerAt t = some h ↔ ∃ u rest, t = u ++ rest ∧ IsHeader h u := by
  constructor
  · intro hread
    obtain ⟨t₁, h₁, hread⟩ := Option.bind_eq_some_iff.1 hread
    obtain ⟨t₂, h₂, hread⟩ := Option.bind_eq_some_iff.1 hread
    obtain ⟨t₃, h₃, hread⟩ := Option.bind_eq_some_iff.1 hread
    obtain ⟨⟨old, t₄⟩, h₄, hread⟩ := Option.bind_eq_some_iff.1 hread
    obtain ⟨t₅, h₅, hread⟩ := Option.bind_eq_some_iff.1 hread
    obtain ⟨t₆, h₆, hread⟩ := Option.bind_eq_some_iff.1 hread
    obtain ⟨⟨new, t₇⟩, h₇, hread⟩ := Option.bind_eq_some_iff.1 hread
    obtain ⟨t₈, h₈, hread⟩ := Option.bind_eq_some_iff.1 hread
    obtain ⟨rest, h₉, hread⟩ := Option.bind_eq_some_iff.1 hread
    obtain rfl := Option.some.inj hread
    obtain ⟨b₁, blank₁, -, e₂⟩ := skipBlanks_eq_some_iff.1 h₂
    obtain ⟨hold, -, -, e₄⟩ := takeSide_eq_some_iff.1 h₄
    obtain ⟨b₂, blank₂, -, e₅⟩ := skipBlanks_eq_some_iff.1 h₅
    obtain ⟨hnew, -, -, e₇⟩ := takeSide_eq_some_iff.1 h₇
    obtain ⟨b₃, blank₃, -, e₈⟩ := skipBlanks_eq_some_iff.1 h₈
    refine ⟨_, rest, ?_, hold, hnew, b₁, b₂, b₃, blank₁, blank₂, blank₃, rfl⟩
    rw [skip_eq_some_iff.1 h₁, e₂, skip_eq_some_iff.1 h₃, e₄, e₅, skip_eq_some_iff.1 h₆, e₇, e₈,
      skip_eq_some_iff.1 h₉]
    simp only [List.append_assoc, List.cons_append, List.nil_append]
  · rintro ⟨_, rest, rfl, hold, hnew, b₁, b₂, b₃, blank₁, blank₂, blank₃, rfl⟩
    simp only [List.append_assoc, List.cons_append, List.nil_append]
    have open_signs (t : Text) : skip ['@', '@'] ('@' :: '@' :: t) = some t :=
      skip_eq_some_iff.2 rfl
    have minus (t : Text) : skip ['-'] ('-' :: t) = some t := skip_eq_some_iff.2 rfl
    have plus (t : Text) : skip ['+'] ('+' :: t) = some t := skip_eq_some_iff.2 rfl
    rw [headerAt, open_signs, Option.bind_eq_bind, Option.bind_some,
      skipBlanks_append blank₁ (by decide)]
    simp only [Option.bind_eq_bind, Option.bind_some, minus, takeSide_append hold blank₂,
      skipBlanks_append blank₂ (by decide : isBlank '+' = false), plus,
      takeSide_append hnew blank₃, skipBlanks_append blank₃ (by decide : isBlank '@' = false),
      open_signs]
    rfl

end Reading

section Searching

variable {line : Text} {h : HunkHeader} {i : Nat} {c : Char} {cs : Text}

theorem hasHeaderAt_zero_iff : HasHeaderAt line 0 h ↔ headerAt line = some h := by
  rw [headerAt_eq_some_iff]
  constructor
  · rintro ⟨before, t, after, rfl, hlen, ht⟩
    rw [List.length_eq_zero_iff] at hlen
    exact ⟨t, after, by rw [hlen, List.nil_append], ht⟩
  · rintro ⟨t, after, rfl, ht⟩
    exact ⟨[], t, after, rfl, rfl, ht⟩

theorem hasHeaderAt_succ_iff : HasHeaderAt (c :: cs) (i + 1) h ↔ HasHeaderAt cs i h := by
  constructor
  · rintro ⟨before, t, after, e, hlen, ht⟩
    cases before with
    | nil => cases hlen
    | cons b before => exact ⟨before, t, after, (List.cons.inj e).2, Nat.succ.inj hlen, ht⟩
  · rintro ⟨before, t, after, rfl, rfl, ht⟩
    exact ⟨c :: before, t, after, rfl, rfl, ht⟩

theorem not_hasHeaderAt_nil : ¬ HasHeaderAt [] i h := by
  rintro ⟨before, t, after, e, -, -, -, b₁, b₂, b₃, -, -, -, rfl⟩
  simp at e

/-- The search finds the header that stands furthest to the left. -/
theorem findHeader_eq_some_iff : ∀ {line : Text}, findHeader line = some h ↔ HasFirstHeader line h
  | [] => by
      constructor
      · intro e
        cases e
      · rintro ⟨i, hi, -⟩
        exact absurd hi not_hasHeaderAt_nil
  | c :: cs => by
      rw [findHeader, Option.or_eq_some_iff]
      constructor
      · rintro (here | ⟨not_here, later⟩)
        · exact ⟨0, hasHeaderAt_zero_iff.2 here, fun _ _ _ => Nat.zero_le _⟩
        · obtain ⟨i, hi, first⟩ := findHeader_eq_some_iff.1 later
          refine ⟨i + 1, hasHeaderAt_succ_iff.2 hi, fun j h' hj => ?_⟩
          cases j with
          | zero =>
              rw [hasHeaderAt_zero_iff, not_here] at hj
              cases hj
          | succ j => exact Nat.succ_le_succ (first j h' (hasHeaderAt_succ_iff.1 hj))
      · rintro ⟨i, hi, first⟩
        cases i with
        | zero => exact .inl (hasHeaderAt_zero_iff.1 hi)
        | succ i =>
            right
            refine ⟨?_, findHeader_eq_some_iff.2 ⟨i, hasHeaderAt_succ_iff.1 hi, ?_⟩⟩
            · refine Option.eq_none_iff_forall_ne_some.2 fun h' here => ?_
              have := first 0 h' (hasHeaderAt_zero_iff.2 here)
              omega
            · exact fun j h' hj => Nat.le_of_succ_le_succ (first _ h' (hasHeaderAt_succ_iff.2 hj))

/-- A header is found in every line in which one stands. -/
theorem isSome_findHeader_iff : ∀ {line : Text},
    (findHeader line).isSome = true ↔ ∃ i h, HasHeaderAt line i h
  | [] => by simp [findHeader, not_hasHeaderAt_nil]
  | c :: cs => by
      rw [findHeader, Option.isSome_or, Bool.or_eq_true, isSome_findHeader_iff]
      constructor
      · rintro (here | ⟨i, h, later⟩)
        · obtain ⟨h, here⟩ := Option.isSome_iff_exists.1 here
          exact ⟨0, h, hasHeaderAt_zero_iff.2 here⟩
        · exact ⟨i + 1, h, hasHeaderAt_succ_iff.2 later⟩
      · rintro ⟨i, h, hi⟩
        cases i with
        | zero => exact .inl (Option.isSome_iff_exists.2 ⟨h, hasHeaderAt_zero_iff.1 hi⟩)
        | succ i => exact .inr ⟨i, h, hasHeaderAt_succ_iff.1 hi⟩

/-- A header ends in an at sign, so that none is gained by another character behind the line. -/
theorem hasHeaderAt_append_singleton (hc : c ≠ '@') :
    HasHeaderAt (line ++ [c]) i h ↔ HasHeaderAt line i h := by
  constructor
  · rintro ⟨before, t, after, e, hlen, ht⟩
    obtain ⟨-, -, b₁, b₂, b₃, -, -, -, written⟩ := id ht
    -- Only a header that ends the line could need the character that was added.
    rcases after.eq_nil_or_concat with rfl | ⟨after, d, rfl⟩
    · have ends : c = '@' := by
        have last := congrArg List.getLast? e
        rw [written] at last
        simpa [List.getLast?_cons] using last
      exact absurd ends hc
    · rw [List.concat_eq_append, ← List.append_assoc, ← List.append_assoc] at e
      obtain ⟨rfl, -⟩ := List.append_inj' e rfl
      exact ⟨before, t, after, List.append_assoc _ _ _, hlen, ht⟩
  · rintro ⟨before, t, after, rfl, hlen, ht⟩
    exact ⟨before, t, after ++ [c], by simp only [List.append_assoc], hlen, ht⟩

theorem findHeader_append_singleton (hc : c ≠ '@') :
    findHeader (line ++ [c]) = findHeader line := by
  refine Option.ext fun h => ?_
  rw [findHeader_eq_some_iff, findHeader_eq_some_iff, HasFirstHeader, HasFirstHeader]
  simp only [hasHeaderAt_append_singleton hc]

theorem rangeOfLine_dropCarriageReturn (line : Text) :
    rangeOfLine (dropCarriageReturn line) = rangeOfLine line := by
  rcases eq_dropCarriageReturn_append line with e | e
  · rw [← e]
  · have found : findHeader (dropCarriageReturn line ++ ['\r']) =
        findHeader (dropCarriageReturn line) := findHeader_append_singleton (by decide)
    rw [← e] at found
    rw [rangeOfLine, rangeOfLine, found]

end Searching

section Values

variable {h : HunkHeader} {r : LineSpan} {t : Text} {n : Nat}

theorem readNumeral_eq_some_iff : readNumeral maxLine t = some n ↔ HasValue t n := by
  unfold readNumeral HasValue IsRow
  simp only [Bool.and_eq_true, Bool.not_eq_true', List.isEmpty_eq_false_iff, List.all_eq_true,
    decide_eq_true_eq, Option.ite_none_right_eq_some, Option.some.injEq]
  constructor
  · rintro ⟨⟨row, small⟩, rfl⟩
    exact ⟨row, rfl, small⟩
  · rintro ⟨row, rfl, small⟩
    exact ⟨⟨row, small⟩, rfl⟩

/-- The header names new lines if their start and count have values and there are any. -/
theorem newLines_eq_some_iff : newLines h = some r ↔
    ∃ s n, h.new.HasValues s n ∧ n ≠ 0 ∧ r = ⟨s, min (s + n - 1) maxLine⟩ := by
  have spans {s n : Nat} : (if n = 0 then none else some ⟨s, min (s + (n - 1)) maxLine⟩) =
      some r ↔ n ≠ 0 ∧ r = ⟨s, min (s + n - 1) maxLine⟩ := by
    by_cases hn : n = 0
    · simp [hn]
    · rw [if_neg hn, Option.some.injEq, show s + (n - 1) = s + n - 1 by omega]
      exact ⟨fun e => ⟨hn, e.symm⟩, fun e => e.2.symm⟩
  rcases h with ⟨old, start, _ | count⟩
  · have read : newLines ⟨old, start, none⟩ = (readNumeral maxLine start).bind fun s =>
        if 1 = 0 then none else some ⟨s, min (s + (1 - 1)) maxLine⟩ := rfl
    simp only [read, Option.bind_eq_some_iff, readNumeral_eq_some_iff, spans]
    constructor
    · rintro ⟨s, hs, e⟩
      exact ⟨s, 1, ⟨hs, rfl⟩, e⟩
    · rintro ⟨s, _, ⟨hs, rfl⟩, e⟩
      exact ⟨s, hs, e⟩
  · have read : newLines ⟨old, start, some count⟩ = (readNumeral maxLine start).bind fun s =>
        (readNumeral maxLine count).bind fun n =>
          if n = 0 then none else some ⟨s, min (s + (n - 1)) maxLine⟩ := rfl
    simp only [read, Option.bind_eq_some_iff, readNumeral_eq_some_iff, spans]
    constructor
    · rintro ⟨s, hs, n, hn, e⟩
      exact ⟨s, n, ⟨hs, hn⟩, e⟩
    · rintro ⟨s, n, ⟨hs, hn⟩, e⟩
      exact ⟨s, hs, n, hn, e⟩

end Values

section Lines

variable {line : Text} {r : LineSpan}

/-- The first header in the line names the new lines `r`: its new start and its new count have
values, and there is a line to name. -/
def NamesLines (line : Text) (r : LineSpan) : Prop :=
  ∃ h s n, HasFirstHeader line h ∧ h.new.HasValues s n ∧ n ≠ 0 ∧
    r = ⟨s, min (s + n - 1) maxLine⟩

theorem rangeOfLine_eq_some_iff : rangeOfLine line = some r ↔ NamesLines line r := by
  rw [rangeOfLine, Option.bind_eq_some_iff]
  simp only [findHeader_eq_some_iff, newLines_eq_some_iff, NamesLines, exists_and_left]

/-- The first line of a range does not come after the last one, as its number fits in a word. -/
theorem NamesLines.first_le_last (h : NamesLines line r) : r.first ≤ r.last := by
  obtain ⟨_, s, n, -, ⟨⟨-, -, small⟩, -⟩, positive, rfl⟩ := h
  have after : s ≤ s + n - 1 := by omega
  exact Nat.le_min.2 ⟨after, small⟩

/-- What is found in lines is found in two texts with a line feed between them, if the endings of
lines and empty lines do not matter. -/
theorem filterMap_linesFrom_append_lf {α : Type} {f : Text → Option α} (hempty : f [] = none)
    (hend : ∀ l, f (dropCarriageReturn l) = f l) (u : Text) : ∀ (t cur : Text),
      (linesFrom [] cur (t ++ '\n' :: u)).filterMap f =
        (linesFrom [] cur t).filterMap f ++ (lines u).filterMap f
  | [], cur => by
      have closed : f (closeLine cur) = f cur.reverse := by
        rw [← hend cur.reverse, ← closeLine_reverse, List.reverse_reverse]
      have closing : linesFrom [] cur ('\n' :: u) = [closeLine cur] ++ lines u := by
        rw [linesFrom, if_pos rfl, linesFrom_eq]
        rfl
      rw [List.nil_append, closing, List.filterMap_append]
      -- Without the line feed an empty last line would be no line at all.
      by_cases h : cur.isEmpty
      · rw [List.isEmpty_iff] at h
        simp [linesFrom, lines, closeLine, h, hempty]
      · simp [linesFrom, lines, h, List.filterMap_cons, closed]
  | c :: t, cur => by
      rw [List.cons_append, linesFrom, linesFrom]
      split
      · rw [linesFrom_eq, linesFrom_eq [closeLine cur], List.filterMap_append,
          List.filterMap_append, filterMap_linesFrom_append_lf hempty hend u t [],
          List.append_assoc]
      · exact filterMap_linesFrom_append_lf hempty hend u t (c :: cur)

/-- Two diffs, one after the other, name the ranges of both. -/
theorem ranges_append_lf (d₁ d₂ : Text) : ranges (d₁ ++ '\n' :: d₂) = ranges d₁ ++ ranges d₂ :=
  filterMap_linesFrom_append_lf rfl rangeOfLine_dropCarriageReturn d₂ d₁ []

theorem ranges_of_lf_not_mem (h : '\n' ∉ line) : ranges line = (rangeOfLine line).toList := by
  have ended : ranges (line ++ ['\n']) = ranges line := by
    rw [ranges_append_lf line []]
    exact List.append_nil _
  rw [← ended, ranges, lines_append_lf line [] h, closeLine_reverse]
  change [dropCarriageReturn line].filterMap rangeOfLine = _
  rw [List.filterMap_cons, rangeOfLine_dropCarriageReturn]
  cases rangeOfLine line <;> rfl

end Lines

/-- **The grammar of hunk headers.**  A header is found in a line exactly when one stands there, and
it is the one furthest to the left.  A line stands for the one range that its first header names, or
for none, and a range does not end before it starts.  Two diffs, one after the other, stand for the
ranges of both. -/
theorem ranges_of_grammar :
    (∀ line, (findHeader line).isSome = true ↔ ∃ i h, HasHeaderAt line i h) ∧
    (∀ line h, findHeader line = some h ↔ HasFirstHeader line h) ∧
    (∀ line, '\n' ∉ line →
      (∀ r, ranges line = [r] ↔ NamesLines line r) ∧
      (ranges line = [] ↔ ∀ r, ¬ NamesLines line r) ∧
      ∀ r, NamesLines line r → r.first ≤ r.last) ∧
    ∀ d₁ d₂, ranges (d₁ ++ '\n' :: d₂) = ranges d₁ ++ ranges d₂ := by
  refine ⟨fun _ => isSome_findHeader_iff, fun _ _ => findHeader_eq_some_iff, ?_, ranges_append_lf⟩
  intro line hline
  refine ⟨fun r => ?_, ?_, fun r hr => hr.first_le_last⟩
  · rw [ranges_of_lf_not_mem hline, ← rangeOfLine_eq_some_iff]
    cases rangeOfLine line <;> simp
  · simp only [ranges_of_lf_not_mem hline, ← rangeOfLine_eq_some_iff]
    cases rangeOfLine line <;> simp

/-- A start of a header that is broken off, and a header with an old number that has no value. -/
theorem ranges_of_grammar_overlap :
    let line := "x@@@ -1 @@ -٣ +4,2 @@ -1 +9 @@".toList
    '\n' ∉ line ∧ NamesLines line ⟨4, 5⟩ ∧
      ranges (line ++ '\n' :: "@@ -1 +٣ @@".toList) = [⟨4, 5⟩] := by
  intro line
  obtain ⟨-, -, of_line, append⟩ := ranges_of_grammar
  have hline : '\n' ∉ line := by decide +kernel
  refine ⟨hline, ((of_line line hline).1 ⟨4, 5⟩).1 (by decide +kernel), ?_⟩
  rw [append]
  decide +kernel

end Hunk
end Decomment
