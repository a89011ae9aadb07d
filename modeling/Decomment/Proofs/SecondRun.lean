import Decomment.Proofs.Idempotence
import Decomment.Proofs.JobWrites
import Decomment.Text.Utf8

/-!
# Processing a file once more

The text that a run has written is read again line by line.  Its lines are those that were written,
less the carriage returns at their ends, and none of these decides what is cut.  So with a steady
rule a second run over a whole file finds nothing to change, and leaves the file and its backup
alone.

**Results.**
* `lines_render_run_all`: the lines of the text that a run has written.
* `hasChanges_run_render`: with a steady rule, a second run changes no line.
* `second_run_changes_nothing`: for the extensions of steady rules, a second run is idle.
-/

namespace Decomment

open Strip Decomment.Language

namespace Stripper

variable {s : Stripper}

theorem lines_render_run_all (s : Stripper) (t : Text) :
    Text.lines (s.run .all t).render = (Text.lines t).filterMap fun l =>
      ((s.strip (Text.dropCarriageReturn l)).output (Text.dropCarriageReturn l)).map
        Text.dropCarriageReturn := by
  rw [render_run_all, Text.lines_unlines_of_lf_not_mem, List.map_filterMap]
  intro o ho hlf
  obtain ⟨l, hl, h⟩ := List.mem_filterMap.1 ho
  have written : o.Sublist (Text.dropCarriageReturn l) := output_strip_sublist h
  exact Text.lf_not_mem_of_mem_lines hl
    ((Text.dropCarriageReturn_isPrefix l).subset (written.subset hlf))

/-- A carriage return at its end does not decide whether a line is changed. -/
theorem strip_dropCarriageReturn (hrule : ∀ m ∈ s.rule.markers, BlankFree m) {l : Text}
    (h : s.strip l = .unchanged) : s.strip (Text.dropCarriageReturn l) = .unchanged := by
  have hcr : IsBlankText ['\r'] := by
    intro c hc
    rw [List.mem_singleton.1 hc]
    decide
  rcases Text.eq_dropCarriageReturn_append l with e | e
  · rwa [← e]
  · rw [e] at h
    exact strip_eq_unchanged_iff.2
      ((reduce_append_blank_iff hrule s.preserve s.options.mode hcr _).1
        (strip_eq_unchanged_iff.1 h))

theorem hasChanges_run_render (hrule : ∀ m ∈ s.rule.markers, BlankFree m)
    (hs : IsSteady s.rule s.options.mode) (t : Text) :
    (s.run .all (s.run .all t).render).hasChanges = false := by
  rw [hasChanges_run_all, lines_render_run_all, List.any_eq_false]
  intro l hl
  obtain ⟨raw, -, written⟩ := List.mem_filterMap.1 hl
  obtain ⟨o, ho, rfl⟩ := Option.map_eq_some_iff.1 written
  have again : s.strip o = .unchanged := by
    have h := strip_output_of_isSteady hrule s.preserve hs (Text.dropCarriageReturn raw)
    change s.strip (((s.strip _).output _).getD []) = .unchanged at h
    rwa [ho, Option.getD_some] at h
  rw [strip_dropCarriageReturn hrule (strip_dropCarriageReturn hrule again)]
  simp [LineChange.differs]

end Stripper

namespace Treatment

variable {p : Treatment} {tree : Tree} {j : Job}

/-- A job over a whole file that holds what a run has written leaves the tree as it is. -/
theorem tree_runJob_of_render {rule : Rule Char} {src : Text}
    (hrule : Path.language j.path = .ok rule) (hall : j.selection = .all)
    (idle : ((p.stripper rule).run .all ((p.stripper rule).run .all src).render).hasChanges = false)
    (hfile : tree.find j.location =
      some (.file (String.ofList ((p.stripper rule).run .all src).render).toUTF8)) :
    (p.runJob tree j).1 = tree := by
  refine tree_runJob_of_hasChanges fun b o he => ?_
  obtain ⟨rule', t, hl, hr, rfl⟩ := examine_eq_ok_iff.1 he
  obtain rfl : rule = rule' := by
    rw [hrule] at hl
    exact Except.ok.inj hl
  obtain ⟨hf, ht⟩ := readJob_eq_ok_iff.1 hr
  rw [hfile] at hf
  obtain rfl := Entry.file.inj (Option.some.inj hf)
  rw [fromUTF8?_toUTF8] at ht
  have e : t = ((p.stripper rule).run .all src).render := by simpa using ht.symm
  rw [e, hall]
  exact idle

/-- **A second run is idle.**  For every extension but two, or in the modes that are steady for
it, what a run over a whole file has written is not changed by another run with the same settings.
A file that holds it is left alone with its backup, and so is every file that was processed
before. -/
theorem second_run_changes_nothing {ext : String} {rule : Rule Char} (h : detect ext = .ok rule)
    (p : Treatment) (hini : normalize ext ≠ "ini")
    (hsql : ¬ (normalize ext = "sql" ∧ p.options.mode = .both)) :
    (∀ src : Text, ((p.stripper rule).run .all
      ((p.stripper rule).run .all src).render).hasChanges = false) ∧
    (∀ (tree : Tree) (j : Job) (src : Text), Path.extension j.path = some ext →
      j.selection = .all → tree.find j.location =
        some (.file (String.ofList ((p.stripper rule).run .all src).render).toUTF8) →
      (p.runJob tree j).1 = tree) ∧
    ∀ (tree : Tree) (j : Job), Path.extension j.path = some ext → j.selection = .all →
      (p.runJob (p.runJob tree j).1 j).1 = (p.runJob tree j).1 := by
  have steady : IsSteady rule p.options.mode :=
    isSteady_of_detect h (fun e => absurd e hini) fun e hm => hsql ⟨e, hm⟩
  have blankFree := blankFree_of_mem_markers rule (mem_rules_of_detect h)
  have idle (src : Text) := Stripper.hasChanges_run_render
    (s := p.stripper rule) blankFree steady src
  have rule_of_ext {j : Job} (hext : Path.extension j.path = some ext) :
      Path.language j.path = .ok rule := by
    rw [Path.language, hext]
    exact h
  refine ⟨idle, ?_, ?_⟩
  · intro tree j src hext hall hfile
    exact tree_runJob_of_render (rule_of_ext hext) hall (idle src) hfile
  · intro tree j hext hall
    rcases p.tree_runJob_cases tree j with e | ⟨b, o, -, he, -, hc⟩
    · rw [e, e]
    · obtain ⟨rule', t, hl, -, rfl⟩ := examine_eq_ok_iff.1 he
      obtain rfl : rule = rule' := by
        rw [rule_of_ext hext] at hl
        exact Except.ok.inj hl
      rw [hall] at hc
      exact tree_runJob_of_render (rule_of_ext hext) hall (idle t) (find_commit_self hc)

/-- Carriage returns that vanish between two runs do not matter. -/
theorem second_run_changes_nothing_slashes :
    let src := "a(); // b\r\n/* c */\r\nd //* TODO: e */\r\r\r\nf /* g".toList
    let p : Treatment := { preserve := ["TODO:".toList] }
    detect "js" = .ok slashes ∧ ((p.stripper slashes).run .all src).hasChanges = true ∧
      ((p.stripper slashes).run .all
        ((p.stripper slashes).run .all src).render).hasChanges = false := by
  intro src p
  have h : detect "js" = .ok slashes := rfl
  refine ⟨h, by decide +kernel, ?_⟩
  exact (second_run_changes_nothing h p (by decide +kernel) (by decide +kernel)).1 src

end Treatment
end Decomment
