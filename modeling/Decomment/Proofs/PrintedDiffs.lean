import Decomment.Proofs.HunkHeaders
import Mathlib.Data.List.Basic

/-!
# Printed hunks

A hunk is printed as its header, which a heading may follow, and the lines of its body, each behind
a sign.  In the line of the header that header is the first one, whatever the heading says.  But the
lines of the body are searched for headers as well, behind their signs.  A body line that quotes a
header therefore adds a range that is none of a hunk.

**Results.**
* `ranges_intercalate`: a diff names the ranges that its lines name.
* `rangeOfLine_headerLine`: the line of a header names the new lines of its hunk.
* `ranges_printDiff`: what printed hunks name, with what their bodies add.
* `ranges_printDiff_eq_iff`: when printed hunks name their own new lines and no others.
* `ranges_printDiff_quoted`: a body line that quotes a header adds a range.
-/

namespace Decomment

open Text Hunk

/-- A hunk as it is printed.  The heading follows the header after a space. -/
structure PrintedHunk where
  header : HunkHeader
  heading : Option Text
  body : List Text

namespace PrintedHunk

section Defs

/-- What follows the header in its line. -/
def headingText (p : PrintedHunk) : Text :=
  match p.heading with
  | none => []
  | some t => ' ' :: t

/-- The line of the header. -/
def headerLine (p : PrintedHunk) : Text :=
  ['@', '@', ' ', '-'] ++ p.header.old.text ++ [' ', '+'] ++ p.header.new.text ++ [' ', '@', '@'] ++
    p.headingText

/-- The lines of a hunk. -/
def lines (p : PrintedHunk) : List Text :=
  p.headerLine :: p.body

/-- All numbers have values, no line is broken, and each line of the body has a sign. -/
structure IsPrinted (p : PrintedHunk) : Prop where
  old : ∃ s n, p.header.old.HasValues s n
  new : ∃ s n, p.header.new.HasValues s n
  heading : ∀ t, p.heading = some t → '\n' ∉ t
  body : ∀ l ∈ p.body, '\n' ∉ l ∧ l.head? ∈ [some '+', some '-', some ' ', some '\\']

/-- The new lines of the hunk, if it has any. -/
def span (p : PrintedHunk) : Option LineSpan :=
  let first := numeralValue p.header.new.start
  let count :=
    match p.header.new.count with
    | none => 1
    | some ds => numeralValue ds
  if count = 0 then none else some ⟨first, min (first + count - 1) maxLine⟩

/-- Hunks, one after the other, with a line feed between two lines. -/
def printDiff (ps : List PrintedHunk) : Text :=
  ['\n'].intercalate (ps.flatMap lines)

end Defs

section Lines

variable {side : HunkSide} {p : PrintedHunk} {s n : Nat}

theorem isNumbered_of_hasValues (h : side.HasValues s n) : side.IsNumbered := by
  have digits {t : Text} {n : Nat} (h : HasValue t n) : IsRow isDecimal t :=
    ⟨h.1.1, fun c hc => isDecimal_of_isAscii (h.1.2 c hc)⟩
  rcases side with ⟨start, _ | count⟩
  · exact ⟨digits h.1, nofun⟩
  · refine ⟨digits h.1, ?_⟩
    rintro _ ⟨⟩
    exact digits h.2

/-- No line feed is a digit or a comma. -/
theorem lf_not_mem_text (h : side.IsNumbered) : '\n' ∉ side.text := by
  have row {t : Text} (ht : IsRow isDecimal t) : '\n' ∉ t := fun hmem => by
    cases ht.2 '\n' hmem
  obtain ⟨start_row, count_row⟩ := h
  rcases side with ⟨start, _ | count⟩
  · exact row start_row
  · simp only [HunkSide.text, List.mem_append, List.mem_cons, not_or]
    exact ⟨row start_row, by decide, row (count_row count rfl)⟩

/-- In the line of a header, the header itself comes first. -/
theorem findHeader_headerLine (h : p.IsPrinted) : findHeader p.headerLine = some p.header := by
  obtain ⟨s, n, hold⟩ := h.old
  obtain ⟨s', n', hnew⟩ := h.new
  have space : IsRow isBlank [' '] := by decide
  have here : headerAt p.headerLine = some p.header := by
    refine headerAt_eq_some_iff.2 ⟨_, p.headingText, ?_, isNumbered_of_hasValues hold,
      isNumbered_of_hasValues hnew, [' '], [' '], [' '], space, space, space, rfl⟩
    simp only [headerLine, List.append_assoc, List.cons_append, List.nil_append]
  exact findHeader_eq_some_iff.2
    ⟨0, hasHeaderAt_zero_iff.2 here, fun _ _ _ => Nat.zero_le _⟩

theorem newLines_header (h : p.header.new.HasValues s n) : newLines p.header = p.span := by
  rcases p with ⟨⟨old, start, _ | count⟩, heading, body⟩
  · obtain ⟨⟨-, first, -⟩, -⟩ := id h
    simp [newLines, span, readNumeral_eq_some_iff.2 h.1, first]
  · obtain ⟨⟨-, first, -⟩, -, number, -⟩ := id h
    simp only [newLines, span, readNumeral_eq_some_iff.2 h.1, readNumeral_eq_some_iff.2 h.2, first,
      number, Option.bind_eq_bind, Option.bind_some]
    by_cases hn : n = 0
    · rw [if_pos hn, if_pos hn]
    · rw [if_neg hn, if_neg hn, Nat.add_sub_assoc (Nat.pos_of_ne_zero hn)]

/-- The line of a header names the new lines of its hunk. -/
theorem rangeOfLine_headerLine (h : p.IsPrinted) : rangeOfLine p.headerLine = p.span := by
  obtain ⟨s, n, hnew⟩ := h.new
  rw [rangeOfLine, findHeader_headerLine h, Option.bind_some, newLines_header hnew]

theorem lf_not_mem_lines (h : p.IsPrinted) : ∀ l ∈ p.lines, '\n' ∉ l := by
  obtain ⟨s, n, hold⟩ := h.old
  obtain ⟨s', n', hnew⟩ := h.new
  intro l hl
  rcases List.mem_cons.1 hl with rfl | hl
  · have old := lf_not_mem_text (isNumbered_of_hasValues hold)
    have new := lf_not_mem_text (isNumbered_of_hasValues hnew)
    have heading : '\n' ∉ p.headingText := by
      rw [headingText]
      cases hp : p.heading with
      | none => exact List.not_mem_nil
      | some t => simp [h.heading t hp]
    simp [headerLine, old, new, heading]
  · exact (h.body l hl).1

end Lines

section Diffs

variable {ps : List PrintedHunk}

/-- A diff names the ranges that its lines name. -/
theorem ranges_intercalate : ∀ {ls : List Text}, (∀ l ∈ ls, '\n' ∉ l) →
    ranges (['\n'].intercalate ls) = ls.filterMap rangeOfLine
  | [], _ => rfl
  | [l], h => by
      rw [List.intercalate_singleton, ranges_of_lf_not_mem (h l List.mem_cons_self)]
      cases hl : rangeOfLine l <;> simp [hl]
  | l :: m :: ls, h => by
      have hl := ranges_of_lf_not_mem (h l List.mem_cons_self)
      have rest := ranges_intercalate fun k hk => h k (List.mem_cons_of_mem l hk)
      rw [List.intercalate_cons_cons, List.append_assoc, List.singleton_append, ranges_append_lf,
        hl, rest, List.filterMap_cons (a := l)]
      cases rangeOfLine l <;> rfl

/-- Printed hunks name their own new lines, each before what its body adds. -/
theorem ranges_printDiff (h : ∀ p ∈ ps, p.IsPrinted) :
    ranges (printDiff ps) =
      ps.flatMap fun p => p.span.toList ++ p.body.filterMap rangeOfLine := by
  rw [printDiff, ranges_intercalate, List.filterMap_flatMap]
  · refine List.flatMap_congr fun p hp => ?_
    rw [lines, List.filterMap_cons, rangeOfLine_headerLine (h p hp)]
    cases p.span <;> rfl
  · intro l hl
    obtain ⟨p, hp, hl⟩ := List.mem_flatMap.1 hl
    exact lf_not_mem_lines (h p hp) l hl

theorem sublist_flatMap {α β : Type} (f : α → Option β) (g : α → List β) : ∀ l : List α,
    (l.filterMap f).Sublist (l.flatMap fun a => (f a).toList ++ g a)
  | [] => List.Sublist.refl []
  | a :: l => by
      rw [List.filterMap_eq_flatMap_toList, List.flatMap_cons, List.flatMap_cons,
        ← List.filterMap_eq_flatMap_toList]
      exact (List.sublist_append_left _ _).append (sublist_flatMap f g l)

/-- Only where nothing is added is nothing gained. -/
theorem flatMap_eq_filterMap_iff {α β : Type} {f : α → Option β} {g : α → List β} : ∀ {l : List α},
    (l.flatMap fun a => (f a).toList ++ g a) = l.filterMap f ↔ ∀ a ∈ l, g a = []
  | [] => by simp
  | a :: l => by
      rw [List.filterMap_eq_flatMap_toList, List.flatMap_cons, List.flatMap_cons,
        ← List.filterMap_eq_flatMap_toList, List.append_assoc, List.append_cancel_left_eq,
        List.forall_mem_cons, ← flatMap_eq_filterMap_iff]
      constructor
      · intro e
        have fewer := (sublist_flatMap f g l).length_le
        have lengths := congrArg List.length e
        rw [List.length_append] at lengths
        -- What is left is no shorter than the list it equals, so that `g a` has no room.
        have nothing : g a = [] := List.eq_nil_of_length_eq_zero (by omega)
        rw [nothing, List.nil_append] at e
        exact ⟨nothing, e⟩
      · rintro ⟨nothing, e⟩
        rw [nothing, List.nil_append, e]

end Diffs

/-- **Printed hunks.**  The new lines of printed hunks are all named, in their order.  Nothing else
is named exactly when no line of a body names lines, that is, holds a header whose new numbers have
values. -/
theorem ranges_printDiff_eq_iff {ps : List PrintedHunk} (h : ∀ p ∈ ps, p.IsPrinted) :
    (ps.filterMap span).Sublist (ranges (printDiff ps)) ∧
      (ranges (printDiff ps) = ps.filterMap span ↔
        ∀ p ∈ ps, ∀ l ∈ p.body, ∀ r, ¬ NamesLines l r) := by
  rw [ranges_printDiff h]
  refine ⟨sublist_flatMap _ _ ps, ?_⟩
  rw [flatMap_eq_filterMap_iff]
  refine forall₂_congr fun p _ => ?_
  rw [List.filterMap_eq_nil_iff]
  refine forall₂_congr fun l _ => ?_
  rw [Option.eq_none_iff_forall_ne_some]
  exact forall_congr' fun r => not_congr rangeOfLine_eq_some_iff

/-- A header in a heading adds nothing, nor do signs in a body. -/
theorem ranges_printDiff_eq_iff_heading :
    let p : PrintedHunk := ⟨⟨⟨"10".toList, none⟩, ⟨"007".toList, some "3".toList⟩⟩,
      some "@@ -1 +1 @@".toList, ["-@@".toList, "+@@ -1 @@ +2 @@".toList]⟩
    let q : PrintedHunk := ⟨⟨⟨"20".toList, some "2".toList⟩, ⟨"20".toList, some "0".toList⟩⟩, none,
      ["\\ No newline at end of file".toList]⟩
    (∀ hunk ∈ [p, q], hunk.IsPrinted) ∧ (∀ hunk ∈ [p, q], ∀ l ∈ hunk.body, ∀ r, ¬ NamesLines l r) ∧
      ranges (printDiff [p, q]) = [⟨7, 9⟩] := by
  intro p q
  have hp : p.IsPrinted := by
    refine ⟨⟨10, 1, by decide +kernel⟩, ⟨7, 3, by decide +kernel⟩, ?_, by decide +kernel⟩
    rintro _ ⟨⟩
    decide +kernel
  have hq : q.IsPrinted :=
    ⟨⟨20, 2, by decide +kernel⟩, ⟨20, 0, by decide +kernel⟩, nofun, by decide +kernel⟩
  have printed : ∀ hunk ∈ [p, q], hunk.IsPrinted :=
    List.forall_mem_cons.2 ⟨hp, List.forall_mem_singleton.2 hq⟩
  have quiet : ∀ hunk ∈ [p, q], ∀ l ∈ hunk.body, ∀ r, ¬ NamesLines l r := by
    have unread : ∀ hunk ∈ [p, q], ∀ l ∈ hunk.body, rangeOfLine l = none := by decide +kernel
    intro hunk hhunk l hl r hr
    rw [← rangeOfLine_eq_some_iff, unread hunk hhunk l hl] at hr
    cases hr
  refine ⟨printed, quiet, ((ranges_printDiff_eq_iff printed).2.2 quiet).trans ?_⟩
  decide +kernel

/-- A body line that quotes a header adds a range that is none of a hunk. -/
theorem ranges_printDiff_quoted :
    let p : PrintedHunk := ⟨⟨⟨"1".toList, none⟩, ⟨"1".toList, none⟩⟩, none, ["+@@ -5 +7 @@".toList]⟩
    p.IsPrinted ∧ [p].filterMap span = [⟨1, 1⟩] ∧
      ranges (printDiff [p]) = [⟨1, 1⟩, ⟨7, 7⟩] := by
  intro p
  have hp : p.IsPrinted :=
    ⟨⟨1, 1, by decide +kernel⟩, ⟨1, 1, by decide +kernel⟩, nofun, by decide +kernel⟩
  exact ⟨hp, by decide +kernel, by decide +kernel⟩

end PrintedHunk
end Decomment
