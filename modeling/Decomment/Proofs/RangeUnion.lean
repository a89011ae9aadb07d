import Decomment.Proofs.Idempotence

/-!
# Runs over ranges, one after the other

Where blank lines are kept, a run leaves as many lines as it reads, so that a second run sees each
line under its old number.  A line is then stripped if either run selects it, and stripping it
twice comes to stripping it once.

**Results.**
* `render_run_unlines`: what a run makes of clean lines.
* `stripWhere_stripWhere`: stripping some lines and then others comes to stripping all of them.
* `run_union`: for the extensions of steady rules, two runs in either order are one run over the
  union of their selections.
-/

namespace Decomment

open Strip Decomment.Language

namespace Stripper

section Clean

variable (s : Stripper) (chosen : Nat → Bool) {ls : List Text}

/-- What is left of a line consists of letters of the line. -/
theorem exists_sublist_of_mem_stripWhere {m : Text} (h : m ∈ s.stripWhere chosen ls) :
    ∃ l ∈ ls, m.Sublist l := by
  obtain ⟨⟨l, n⟩, hl, hm⟩ := List.mem_filterMap.1 h
  refine ⟨l, List.fst_mem_of_mem_zipIdx hl, ?_⟩
  simp only at hm
  split at hm
  · exact output_strip_sublist hm
  · obtain rfl := Option.some.inj hm
    exact List.Sublist.refl l

theorem areClean_stripWhere (h : Text.AreClean ls) : Text.AreClean (s.stripWhere chosen ls) := by
  intro m hm
  obtain ⟨l, hl, sub⟩ := s.exists_sublist_of_mem_stripWhere chosen hm
  exact ⟨fun hlf => (h l hl).1 (sub.subset hlf), fun hcr => (h l hl).2 (sub.subset hcr)⟩

theorem render_run_unlines (selection : Selection) (h : Text.AreClean ls) :
    (s.run selection (Text.unlines ls)).render =
      Text.unlines (s.stripWhere selection.includes ls) := by
  rw [render_run, Text.lines_unlines_of_areClean h, Text.map_dropCarriageReturn h]

end Clean

section Places

variable {s : Stripper}

/-- What stands in the place of a line, where no line is removed. -/
def rewrite (s : Stripper) (t : Text) : Text :=
  ((s.strip t).output t).getD []

/-- Where blank lines are kept, something is written for every line. -/
theorem output_strip_of_keepBlank (h : s.options.keepBlank = true) (t : Text) :
    (s.strip t).output t = some (s.rewrite t) := by
  have output : ((s.strip t).output t).isSome = true := by
    unfold strip Strip.strip
    split
    · rfl
    · rw [tidy_eq, h]
      split <;> rfl
  obtain ⟨u, hu⟩ := Option.isSome_iff_exists.1 output
  rw [rewrite, hu, Option.getD_some]

theorem stripWhere_of_keepBlank (h : s.options.keepBlank = true) (chosen : Nat → Bool)
    (ls : List Text) :
    s.stripWhere chosen ls =
      ls.mapIdx fun i l => if chosen (i + 1) then s.rewrite l else l := by
  rw [stripWhere, List.zipIdx_succ, List.filterMap_map, List.mapIdx_eq_zipIdx_map,
    ← List.filterMap_eq_map]
  congr 1
  funext e
  rcases e with ⟨l, i⟩
  simp only [Function.comp_apply, output_strip_of_keepBlank h]
  split <;> rfl

/-- Stripping some lines and then others comes to stripping all of them. -/
theorem stripWhere_stripWhere (hrule : ∀ m ∈ s.rule.markers, BlankFree m)
    (hs : IsSteady s.rule s.options.mode) (h : s.options.keepBlank = true)
    (first second : Nat → Bool) (ls : List Text) :
    s.stripWhere second (s.stripWhere first ls) =
      s.stripWhere (fun n => first n || second n) ls := by
  have again (t : Text) : s.rewrite (s.rewrite t) = s.rewrite t := by
    have unchanged : s.strip (s.rewrite t) = .unchanged :=
      strip_output_of_isSteady hrule s.preserve hs t
    rw [rewrite, unchanged]
    rfl
  rw [stripWhere_of_keepBlank h, stripWhere_of_keepBlank h, stripWhere_of_keepBlank h,
    List.mapIdx_mapIdx]
  congr 1
  funext i l
  simp only [Function.comp_apply]
  cases first (i + 1) with
  | false => simp
  | true => cases second (i + 1) <;> simp [again]

end Places

/-- **Two runs are one.**  For every extension but two, or in the modes that are steady for it, and
where blank lines are kept, a run over a selection after a run over another one comes to one run
over their union, and so do the two runs in the other order. -/
theorem run_union {ext : String} {rule : Rule Char} (h : detect ext = .ok rule)
    (patterns : List Text) (mode : Mode) (hini : normalize ext ≠ "ini")
    (hsql : ¬ (normalize ext = "sql" ∧ mode = .both)) {src : Text} (hcr : '\r' ∉ src)
    (first second : Selection) :
    let run (selection : Selection) (t : Text) : Text :=
      ((⟨rule, patterns, ⟨mode, true⟩⟩ : Stripper).run selection t).render
    run second (run first src) = run (first.union second) src ∧
      run first (run second src) = run (first.union second) src := by
  intro run
  have steady : IsSteady rule mode :=
    isSteady_of_detect h (fun e => absurd e hini) fun e hm => hsql ⟨e, hm⟩
  have blankFree := blankFree_of_mem_markers rule (mem_rules_of_detect h)
  have clean := Text.areClean_lines hcr
  let s : Stripper := ⟨rule, patterns, ⟨mode, true⟩⟩
  have once (selection : Selection) :
      run selection src = Text.unlines (s.stripWhere selection.includes (Text.lines src)) := by
    rw [← Text.map_dropCarriageReturn clean]
    exact s.render_run selection src
  have twice (one other : Selection) : run other (run one src) = Text.unlines
      (s.stripWhere (fun n => one.includes n || other.includes n) (Text.lines src)) := by
    rw [once, ← stripWhere_stripWhere blankFree steady rfl]
    exact s.render_run_unlines other (s.areClean_stripWhere _ clean)
  have union : (first.union second).includes =
      fun n => first.includes n || second.includes n :=
    funext (Selection.includes_union first second)
  constructor
  · rw [twice, once, union]
  · rw [twice, once, union]
    simp only [Bool.or_comm]

/-- Ranges that overlap, and a range beside the whole file. -/
theorem run_union_overlap :
    let src := "a // b\n  // c\nd /* e */ f\n// TODO: g\nh // i\n".toList
    let run (selection : Selection) (t : Text) : Text :=
      ((⟨slashes, ["TODO:".toList], ⟨.both, true⟩⟩ : Stripper).run selection t).render
    detect "ts" = .ok slashes ∧ '\r' ∉ src ∧
      run ⟨[⟨1, 2⟩, ⟨2, 3⟩]⟩ src = "a\n  \nd  f\n// TODO: g\nh // i\n".toList ∧
      run ⟨[⟨2, 4⟩]⟩ (run ⟨[⟨1, 2⟩]⟩ src) = run ⟨[⟨1, 2⟩, ⟨2, 4⟩]⟩ src ∧
      run ⟨[⟨2, 4⟩]⟩ (run .all src) = run .all src := by
  intro src run
  have h : detect "ts" = .ok slashes := rfl
  have hcr : '\r' ∉ src := by decide +kernel
  have union := run_union h ["TODO:".toList] .both (by decide +kernel) (by decide +kernel) hcr
  refine ⟨h, hcr, by decide +kernel, ?_, ?_⟩
  · exact (union ⟨[⟨1, 2⟩]⟩ ⟨[⟨2, 4⟩]⟩).1
  · exact (union .all ⟨[⟨2, 4⟩]⟩).1

end Stripper
end Decomment
