import Decomment.Proofs.RangeUnion
import Decomment.Proofs.Shortening
import Mathlib.Algebra.Ring.Nat

/-!
# The accounts of a run

The kind of a line, what is written for it and the counts of a run are read off separately.  They
agree: the kinds divide the lines among them, the lines that were removed are those for which
nothing is written, and a line is merely kept, though it was selected, only if no marker of the
rule is found in it.

**Results.**
* `count_add_count`: every line is counted under one kind.
* `foldl_add`: the running counts are sums over the files.
* `kind_processLine_eq_removed_iff`: a line counts as removed if nothing is written for it.
* `kind_processLine_eq_kept_iff`: which of the selected lines are merely kept.
* `count_lf_render`: every line that was not removed is written with one line feed.
* `accounts_run`: the accounts of a run, and of several runs in any order.
-/

namespace Decomment

open Strip Marker

namespace Outcome

/-- Every line is counted under one kind. -/
theorem count_add_count (o : Outcome) :
    o.count .kept + o.count .preserved + o.count .modified + o.count .removed =
      o.lines.length := by
  rcases o with ⟨ls⟩
  simp only [count]
  induction ls with
  | nil => rfl
  | cons l ls ih =>
      simp only [List.countP_cons, List.length_cons]
      cases l.kind <;> simp <;> omega

theorem length_outputs_add_count_removed {o : Outcome}
    (h : ∀ l ∈ o.lines, l.kind = .removed ↔ l.output = none) :
    (o.lines.filterMap ProcessedLine.output).length + o.count .removed = o.lines.length := by
  have removed : o.count .removed = o.lines.countP fun l => ¬ l.output.isSome := by
    refine List.countP_congr fun l hl => ?_
    rw [beq_iff_eq, h l hl]
    simp
  rw [List.length_filterMap_eq_countP, removed]
  exact (List.length_eq_countP_add_countP _).symm

end Outcome

namespace Tally

/-- Counts that are added file after file are sums over the files. -/
theorem foldl_add (os : List Outcome) (t : Tally) :
    os.foldl add t =
      ⟨t.files + os.length, t.changed + (os.map Outcome.numChanged).sum,
        t.kept + (os.map (·.count .kept)).sum,
        t.preserved + (os.map (·.count .preserved)).sum⟩ := by
  induction os generalizing t with
  | nil => rfl
  | cons o os ih =>
      rw [List.foldl_cons, ih]
      simp only [add, List.length_cons, List.map_cons, List.sum_cons, mk.injEq]
      omega

end Tally

namespace Text

theorem count_lf_unlines {ls : List Text} (h : ∀ l ∈ ls, '\n' ∉ l) :
    (unlines ls).count '\n' = ls.length := by
  induction ls with
  | nil => rfl
  | cons l ls ih =>
      have first : l.count '\n' = 0 := List.count_eq_zero.2 (h l List.mem_cons_self)
      have rest := ih fun m hm => h m (List.mem_cons_of_mem l hm)
      have split : unlines (l :: ls) = l ++ '\n' :: unlines ls := by simp [unlines]
      rw [split, List.count_append, first, List.count_cons_self, rest, List.length_cons,
        Nat.zero_add]

end Text

namespace Strip

variable {rule : Rule Char} {t : Text}

theorem hasComment_eq_false_iff :
    hasComment rule t = false ↔ ∀ m ∈ rule.markers, find m t = none := by
  cases hb : rule.block with
  | none => simp [hasComment, Rule.markers, occurs, hb]
  | some b => simp [hasComment, Rule.markers, occurs, hb, and_assoc]

/-- A line without a marker of the rule stays as it is. -/
theorem strip_of_markers (keep : Text → Bool) (options : Removal)
    (h : ∀ m ∈ rule.markers, find m t = none) : strip keep rule options t = .unchanged :=
  strip_eq_unchanged_iff.2 <| reduce_of_isClear keep fun m hm =>
    h m (Language.mem_markers_of_mem_openers hm)

end Strip

namespace Stripper

variable {s : Stripper} {selection : Selection} {n : Nat} {raw : Text}

theorem kindOf_eq_removed_iff {t : Text} {c : LineChange} :
    s.kindOf t c = .removed ↔ c = .removed := by
  cases c with
  | unchanged =>
      simp only [kindOf]
      split <;> simp
  | shortened u => simp [kindOf]
  | removed => simp [kindOf]

theorem output_eq_none_iff {t : Text} {c : LineChange} : c.output t = none ↔ c = .removed := by
  cases c <;> simp [LineChange.output]

theorem kindOf_eq_kept_iff {t : Text} {c : LineChange} :
    s.kindOf t c = .kept ↔ c = .unchanged ∧ hasComment s.rule t = false := by
  cases c with
  | unchanged =>
      simp only [kindOf]
      split <;> simp_all
  | shortened u => simp [kindOf]
  | removed => simp [kindOf]

/-- A line counts as removed if nothing is written for it. -/
theorem kind_processLine_eq_removed_iff :
    (s.processLine selection n raw).kind = .removed ↔
      (s.processLine selection n raw).output = none := by
  by_cases hn : selection.includes n
  · simp only [processLine, hn, if_true, ProcessedLine.output]
    rw [kindOf_eq_removed_iff, output_eq_none_iff]
  · simp [processLine, hn, ProcessedLine.output, LineChange.output]

/-- A line that was selected is merely kept exactly if no marker of the rule is found in it. -/
theorem kind_processLine_eq_kept_iff (hn : selection.includes n = true) :
    (s.processLine selection n raw).kind = .kept ↔
      ∀ m ∈ s.rule.markers, find m (s.processLine selection n raw).text = none := by
  simp only [processLine, hn, if_true]
  rw [kindOf_eq_kept_iff, hasComment_eq_false_iff]
  constructor
  · exact fun h => h.2
  · exact fun h => ⟨strip_of_markers _ _ h, h⟩

theorem processLine_of_not_includes (hn : selection.includes n = false) :
    s.processLine selection n raw =
      ⟨n, Text.dropCarriageReturn raw, .unchanged, .kept⟩ := by
  simp [processLine, hn]

/-- Every line that was not removed is written with one line feed. -/
theorem count_lf_render (s : Stripper) (selection : Selection) (t : Text) :
    (s.run selection t).render.count '\n' + (s.run selection t).count .removed =
      (s.run selection t).lines.length := by
  rw [Outcome.render, Text.count_lf_unlines fun u hu => lf_not_mem_of_mem_outputs hu]
  refine Outcome.length_outputs_add_count_removed fun l hl => ?_
  obtain ⟨raw, -, e⟩ := exists_of_mem_run hl
  rw [e]
  exact kind_processLine_eq_removed_iff

/-- Where blank lines are kept, no line is removed. -/
theorem count_removed_of_keepBlank (h : s.options.keepBlank = true) (selection : Selection)
    (t : Text) : (s.run selection t).count .removed = 0 := by
  refine List.countP_eq_zero.2 fun l hl => ?_
  obtain ⟨raw, -, e⟩ := exists_of_mem_run hl
  rw [beq_iff_eq, e, kind_processLine_eq_removed_iff, output_processLine]
  split
  · rw [output_strip_of_keepBlank h]
    exact Option.some_ne_none _
  · exact Option.some_ne_none _

/-- **The accounts of a run.**  The lines are numbered from one on, and each is counted under one
kind.  The counts tell whether the run changes anything and how many line feeds it writes.  No line
is removed where blank lines are kept; a line outside the ranges is kept, and a line inside is kept
only if no marker of the rule is found in it.  The totals over several files are the sums of their
counts, in whatever order the files come. -/
theorem accounts_run (s : Stripper) (selection : Selection) (src : Text) :
    let o := s.run selection src
    let n := (Text.lines src).length
    o.lines.map ProcessedLine.number = List.range' 1 n ∧
      o.count .kept + o.count .preserved + o.count .modified + o.count .removed = n ∧
      (o.hasChanges = true ↔ 0 < o.numChanged) ∧
      o.render.count '\n' = n - o.count .removed ∧
      (s.options.keepBlank = true → o.count .removed = 0) ∧
      (∀ l ∈ o.lines, selection.ranges ≠ [] → isCovered l.number selection.ranges = false →
        l.kind = .kept) ∧
      (∀ l ∈ o.lines, selection.includes l.number = true →
        (l.kind = .kept ↔ ∀ m ∈ s.rule.markers, find m l.text = none)) ∧
      ∀ os : List Outcome,
        os.foldl Tally.add {} =
            ⟨os.length, (os.map Outcome.numChanged).sum, (os.map (·.count .kept)).sum,
              (os.map (·.count .preserved)).sum⟩ ∧
          ∀ os' : List Outcome, os'.Perm os → os'.foldl Tally.add {} = os.foldl Tally.add {} := by
  intro o n
  have length : o.lines.length = n := s.length_lines selection src
  have written := s.count_lf_render selection src
  refine ⟨?_, ?_, (s.numChanged_pos_iff selection src).symm, ?_, ?_, ?_, ?_, ?_⟩
  · rw [← length]
    exact s.numbers_run selection src
  · rw [← length]
    exact o.count_add_count
  · change o.render.count '\n' + o.count .removed = o.lines.length at written
    omega
  · exact fun h => count_removed_of_keepBlank h selection src
  · intro l hl some_range outside
    obtain ⟨raw, -, e⟩ := exists_of_mem_run hl
    have excluded : selection.includes l.number = false := by
      simp [Selection.includes, Selection.isAll, some_range, outside]
    rw [e, processLine_of_not_includes excluded]
  · intro l hl included
    obtain ⟨raw, -, e⟩ := exists_of_mem_run hl
    rw [e]
    exact kind_processLine_eq_kept_iff included
  · intro os
    have totals (os : List Outcome) : os.foldl Tally.add {} =
        ⟨os.length, (os.map Outcome.numChanged).sum, (os.map (·.count .kept)).sum,
          (os.map (·.count .preserved)).sum⟩ := by
      simp only [Tally.foldl_add, Nat.zero_add]
    refine ⟨totals os, fun os' same => ?_⟩
    rw [totals, totals, same.length_eq, (same.map _).sum_nat, (same.map _).sum_nat,
      (same.map _).sum_nat]

/-- Ranges that leave out the first line and the last one, blank lines that are kept, and totals
over two files in either order. -/
theorem accounts_run_ranges :
    let s : Stripper := ⟨Language.slashes, ["TODO:".toList], ⟨.both, true⟩⟩
    let selection : Selection := ⟨[⟨2, 3⟩, ⟨3, 4⟩]⟩
    let src := "a // b\r\n// c\n// TODO: d\ne\n// f".toList
    let o := s.run selection src
    let first : ProcessedLine := ⟨1, "a // b".toList, .unchanged, .kept⟩
    let plain : ProcessedLine := ⟨4, "e".toList, .unchanged, .kept⟩
    s.options.keepBlank = true ∧ o.count .removed = 0 ∧ o.render.count '\n' = 5 - 0 ∧
      first ∈ o.lines ∧ selection.ranges ≠ [] ∧ isCovered 1 selection.ranges = false ∧
      first.kind = .kept ∧
      plain ∈ o.lines ∧ selection.includes 4 = true ∧
      (∀ m ∈ Language.slashes.markers, find m plain.text = none) ∧
      [o, ⟨[]⟩].foldl Tally.add {} = ⟨2, 1, 3, 1⟩ ∧
      [⟨[]⟩, o].foldl Tally.add {} = [o, ⟨[]⟩].foldl Tally.add {} := by
  intro s selection src o first plain
  obtain ⟨-, -, -, feeds, blanks, outside, inside, totals⟩ := accounts_run s selection src
  have none_removed : o.count .removed = 0 := blanks rfl
  have hfirst : first ∈ o.lines := by decide +kernel
  have hplain : plain ∈ o.lines := by decide +kernel
  have some_range : selection.ranges ≠ [] := by decide
  have beyond : isCovered 1 selection.ranges = false := by decide
  have selected : selection.includes 4 = true := by decide
  refine ⟨rfl, none_removed, ?_, hfirst, some_range, beyond,
    outside first hfirst some_range beyond, hplain, selected,
    (inside plain hplain selected).1 rfl, by decide +kernel, ?_⟩
  · rw [← none_removed]
    exact feeds
  · exact (totals [o, ⟨[]⟩]).2 [⟨[]⟩, o] (List.Perm.swap o ⟨[]⟩ [])

end Stripper
end Decomment
