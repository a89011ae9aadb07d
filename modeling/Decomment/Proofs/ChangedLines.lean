import Decomment.Proofs.RangeUnion
import Decomment.Proofs.TouchedFiles

/-!
# Only changed lines

A run over the changes in a repository visits a file once for every change of it, in the order of
the changes.  The ranges of all visits belong to the text before the run.  When all changes are
asked for, those of one file are merged, and a single visit strips the lines of all ranges.  The
staged changes and those that are not staged are not merged.  A file that is listed twice is then
visited twice, and where the first visit has removed lines the second one strips others than
those that were meant.

**Results.**
* `stripWhere_of_hasChanges`: a run that changes nothing leaves the lines as they are.
* `visits_eq`: when visits come to one visit of all their lines.
* `find_runJobs_of_ok`: jobs without a failure leave in a file what its visits leave.
* `find_run_changes`: a run over changes strips the lines of their ranges, and no others.
* `run_changes_twice`: two visits strip a line that is in no range.
-/

namespace Decomment

open Strip

namespace Stripper

section Visits

variable {s : Stripper} {ls : List Text}

/-- The lines after several visits, each of which strips the lines of a selection. -/
def visits (s : Stripper) (selections : List Selection) (ls : List Text) : List Text :=
  selections.foldl (fun ls selection => s.stripWhere selection.includes ls) ls

theorem filterMap_of_unchanged {chosen : Nat → Bool} : ∀ {es : List (Text × Nat)},
    (∀ e ∈ es, chosen e.2 = true → s.strip e.1 = .unchanged) →
      es.filterMap (fun (l, n) => if chosen n then (s.strip l).output l else some l) =
        es.map (·.1)
  | [], _ => rfl
  | (l, n) :: es, h => by
      have here : (if chosen n then (s.strip l).output l else some l) = some l := by
        split
        · rename_i hn
          rw [h _ List.mem_cons_self hn]
          rfl
        · rfl
      have rest := filterMap_of_unchanged fun e he => h e (List.mem_cons_of_mem _ he)
      simp only [List.filterMap_cons, List.map_cons, here, rest]

theorem stripWhere_of_unchanged {chosen : Nat → Bool}
    (h : ∀ e ∈ ls.zipIdx 1, chosen e.2 = true → s.strip e.1 = .unchanged) :
    s.stripWhere chosen ls = ls := by
  rw [stripWhere, filterMap_of_unchanged h, List.zipIdx_map_fst]

/-- A run that changes nothing leaves the lines as they are. -/
theorem stripWhere_of_hasChanges {selection : Selection} (hls : Text.AreClean ls)
    (h : (s.run selection (Text.unlines ls)).hasChanges = false) :
    s.stripWhere selection.includes ls = ls := by
  refine stripWhere_of_unchanged fun e he hn => ?_
  obtain ⟨l, n⟩ := e
  rw [Outcome.hasChanges, lines_run, Text.lines_unlines_of_areClean hls, List.any_map,
    List.any_eq_false] at h
  have hl : '\r' ∉ l := (hls l (List.fst_mem_of_mem_zipIdx he)).2
  have same := h (l, n) he
  simp only [Function.comp_apply, processLine, Text.dropCarriageReturn_of_not_mem hl] at same
  rw [if_pos hn] at same
  cases hs : s.strip l with
  | unchanged => rfl
  | shortened t => simp [hs, LineChange.differs] at same
  | removed => simp [hs, LineChange.differs] at same

/-- Several visits come to one visit of all their lines when there is but one, or where blank lines
are kept. -/
theorem visits_eq (hrule : ∀ m ∈ s.rule.markers, BlankFree m) {selections : List Selection}
    (h : selections.length ≤ 1 ∨
      (s.options.keepBlank = true ∧ IsSteady s.rule s.options.mode)) :
    s.visits selections ls = s.stripWhere (fun n => selections.any (·.includes n)) ls := by
  induction selections generalizing ls with
  | nil =>
      have none_chosen : s.stripWhere (fun _ => false) ls = ls :=
        stripWhere_of_unchanged fun e _ hn => absurd hn Bool.false_ne_true
      exact none_chosen.symm
  | cons selection rest ih =>
      rw [visits, List.foldl_cons]
      rcases h with hlen | ⟨hblank, hs⟩
      · obtain rfl : rest = [] := by simpa using hlen
        simp
      · rw [← visits, ih (.inr ⟨hblank, hs⟩), stripWhere_stripWhere hrule hs hblank]
        rfl

end Visits

end Stripper

namespace JobResult

theorem isFailure_of_failureOf {rs : List JobResult} (h : failureOf rs = none) :
    ∀ r ∈ rs, r.isFailure = false := by
  unfold failureOf at h
  split at h
  · cases h
  · rename_i hany
    intro r hr
    cases hf : r.isFailure with
    | false => rfl
    | true => exact absurd (List.any_eq_true.2 ⟨r, hr, hf⟩) hany

end JobResult

namespace Treatment

section Successes

variable {p : Treatment} {tree : Tree} {j : Job} {rule : Rule Char} {ls : List Text}

/-- A job without a failure commits what it has changed, and leaves the tree alone otherwise. -/
theorem runJob_of_ok (hdry : p.dryRun = false)
    (h : (p.runJob tree j).2.isFailure = false) :
    ∃ b o, p.examine tree j = .ok (b, o) ∧
      ((o.hasChanges = true ∧ p.commit tree j b o = .ok (p.runJob tree j).1) ∨
        (o.hasChanges = false ∧ (p.runJob tree j).1 = tree)) := by
  unfold runJob at h ⊢
  cases he : p.examine tree j with
  | error e => simp [he, JobResult.isFailure] at h
  | ok bo =>
      obtain ⟨b, o⟩ := bo
      refine ⟨b, o, rfl, ?_⟩
      simp only [he, hdry, Bool.false_eq_true, if_false] at h ⊢
      cases hc : o.hasChanges with
      | false =>
          right
          simp
      | true =>
          simp only [hc, if_true] at h ⊢
          cases hm : p.commit tree j b o with
          | error e => simp [hm, JobResult.isFailure] at h
          | ok tree' => simp

/-- A job without a failure leaves in its file what a visit leaves. -/
theorem find_runJob_of_ok (hdry : p.dryRun = false) (hls : Text.AreClean ls)
    (hrule : ∀ rule', Path.language j.path = .ok rule' → rule' = rule)
    (hfile : tree.find j.location = some (.file (String.ofList (Text.unlines ls)).toUTF8))
    (h : (p.runJob tree j).2.isFailure = false) :
    (p.runJob tree j).1.find j.location = some (.file (String.ofList (Text.unlines
      ((p.stripper rule).stripWhere j.selection.includes ls))).toUTF8) := by
  obtain ⟨b, o, he, hcases⟩ := runJob_of_ok hdry h
  obtain ⟨rule', t, hl, hr, rfl⟩ := examine_eq_ok_iff.1 he
  obtain rfl := hrule rule' hl
  obtain ⟨hb, ht⟩ := readJob_eq_ok_iff.1 hr
  obtain rfl := Entry.file.inj (Option.some.inj (hfile.symm.trans hb))
  rw [fromUTF8?_toUTF8, Option.map_some, String.toList_ofList] at ht
  obtain rfl := Option.some.inj ht
  rcases hcases with ⟨-, hc⟩ | ⟨hidle, e⟩
  · rw [find_commit_self hc, Stripper.render_run_unlines _ _ hls]
  · rw [e, Stripper.stripWhere_of_hasChanges hls hidle, hfile]

/-- Jobs without a failure leave in a file what its visits leave, if none of them saves another
file there. -/
theorem find_runJobs_of_ok (hdry : p.dryRun = false) {f : Location} : ∀ {js : List Job}
    {tree : Tree} {ls : List Text}, Text.AreClean ls →
    (∀ j ∈ js, j.location = f → ∀ rule', Path.language j.path = .ok rule' → rule' = rule) →
    (∀ j ∈ js, Job.backupLocation j.location ≠ f) →
    tree.find f = some (.file (String.ofList (Text.unlines ls)).toUTF8) →
    (∀ r ∈ (p.runJobs tree js).2, r.isFailure = false) →
    (p.runJobs tree js).1.find f = some (.file (String.ofList (Text.unlines
      ((p.stripper rule).visits ((js.filter (·.location = f)).map (·.selection)) ls))).toUTF8)
  | [], _, _, _, _, _, hfile, _ => hfile
  | j :: js, tree, ls, hls, hrule, hbackup, hfile, hok => by
      have hok₁ : (p.runJob tree j).2.isFailure = false := hok _ List.mem_cons_self
      have hoks : ∀ r ∈ (p.runJobs (p.runJob tree j).1 js).2, r.isFailure = false :=
        fun r hr => hok r (List.mem_cons_of_mem _ hr)
      have hrules := fun i hi => hrule i (List.mem_cons_of_mem j hi)
      have hbackups := fun i hi => hbackup i (List.mem_cons_of_mem j hi)
      rw [runJobs]
      by_cases hj : j.location = f
      · subst hj
        have visited := find_runJob_of_ok hdry hls (hrule j List.mem_cons_self rfl) hfile hok₁
        rw [List.filter_cons_of_pos (by simp)]
        exact find_runJobs_of_ok hdry (Stripper.areClean_stripWhere _ _ hls) hrules hbackups
          visited hoks
      · have untouched : (p.runJob tree j).1.find f = tree.find f := by
          refine find_runJob_of_not_mem fun hmem => ?_
          rcases Job.mem_footprint.1 hmem with e | e
          · exact hj e.symm
          · exact hbackup j List.mem_cons_self e.symm
        rw [List.filter_cons_of_neg (by simpa using hj)]
        exact find_runJobs_of_ok hdry hls hrules hbackups (untouched.trans hfile) hoks

end Successes

end Treatment

namespace Run

section Changes

variable {tree : Tree} {place : Place} {git : VersionControl} {r : RunRequest}
  {scope : ChangeFilter} {root : String} {cs : List Change} {f : Location}

/-- The changes whose paths lead to a file. -/
def changesAt (tree : Tree) (cwd : Location) (root : String) (f : Location) (cs : List Change) :
    List Change :=
  cs.filter fun c => tree.locateFile cwd (Path.join root c.path) = some f

/-- There is a rule for the path of the change, and it is not ignored. -/
def IsProcessed (tree : Tree) (place : Place) (root : String) (c : Change) : Prop :=
  Path.isSupported c.path = true ∧
    Ignore.verdictOrAbove (ignoreRules tree place root).1 (Ignore.relativeTo root c.path) ≠
      some .ignored

theorem jobOfChange_of_isProcessed {c : Change} (h : IsProcessed tree place root c)
    (hf : tree.locateFile place.cwd (Path.join root c.path) = some f) :
    (jobOfChange tree place.cwd root (ignoreRules tree place root).1 c).isSome = true := by
  simp [jobOfChange, h.1, h.2, hf]

/-- The jobs of a file have the selections of its changes. -/
theorem selections_changeJobs
    (h : ∀ c ∈ changesAt tree place.cwd root f cs, IsProcessed tree place root c) :
    ((changeJobs tree place root cs).filter (·.location = f)).map (·.selection) =
      (changesAt tree place.cwd root f cs).map (·.selection) := by
  induction cs with
  | nil => rfl
  | cons c cs ih =>
      have hrest : ∀ d ∈ changesAt tree place.cwd root f cs, IsProcessed tree place root d := by
        intro d hd
        obtain ⟨hmem, hlead⟩ := List.mem_filter.1 hd
        exact h d (List.mem_filter.2 ⟨List.mem_cons_of_mem c hmem, hlead⟩)
      have ih := ih hrest
      simp only [changeJobs, changesAt] at h ih ⊢
      cases hj : jobOfChange tree place.cwd root (ignoreRules tree place root).1 c with
      | none =>
          have elsewhere : tree.locateFile place.cwd (Path.join root c.path) ≠ some f := by
            intro hf
            have processed := h c (List.mem_filter.2 ⟨List.mem_cons_self, by simpa using hf⟩)
            have := jobOfChange_of_isProcessed processed hf
            rw [hj] at this
            cases this
          rw [List.filterMap_cons_none hj, List.filter_cons_of_neg (by simpa using elsewhere)]
          exact ih
      | some j =>
          obtain ⟨-, hpath, hselection, located⟩ := jobOfChange_eq_some hj
          rw [IsLocated, hpath] at located
          rw [List.filterMap_cons_some hj]
          by_cases hf : j.location = f
          · rw [List.filter_cons_of_pos (by simpa using hf),
              List.filter_cons_of_pos (by simpa [hf] using located), List.map_cons, List.map_cons,
              ih, hselection]
          · have elsewhere : tree.locateFile place.cwd (Path.join root c.path) ≠ some f := by
              rw [located]
              exact fun e => hf (Option.some.inj e)
            rw [List.filter_cons_of_neg (by simpa using hf),
              List.filter_cons_of_neg (by simpa using elsewhere), ih]

/-- All changes of plain paths hold at most one of a file, since they are merged. -/
theorem length_changesAt_all (h : changesFor tree place git .all = some (root, cs))
    (hplain : ∀ c ∈ changesAt tree place.cwd root f cs, Path.IsPlain c.path) :
    (changesAt tree place.cwd root f cs).length ≤ 1 := by
  obtain ⟨hroot, events, hc⟩ := changesFor_eq_some_iff.1 h
  obtain ⟨first, second, _, _, -, -, hmerge⟩ := Repository.exists_of_changes_all hc
  have merged : (changesAt tree place.cwd root f cs).Pairwise
      fun c d => Path.parts c.path ≠ Path.parts d.path := by
    refine List.Pairwise.filter _ (List.pairwise_map.1 ?_)
    rw [hmerge]
    exact Repository.paths_merge_nodup (first ++ second)
  have lead : ∀ c ∈ changesAt tree place.cwd root f cs,
      tree.locateFile place.cwd (Path.join root c.path) = some f :=
    fun c hc => of_decide_eq_true (List.mem_filter.1 hc).2
  match hl : changesAt tree place.cwd root f cs with
  | [] => simp
  | [c] => simp
  | c :: d :: rest =>
      rw [hl] at merged hplain lead
      have hd : d ∈ c :: d :: rest := List.mem_cons_of_mem c List.mem_cons_self
      exfalso
      exact (List.pairwise_cons.1 merged).1 d List.mem_cons_self
        (parts_eq_of_locateFile (Repository.ne_empty_of_findRoot hroot)
          (hplain c List.mem_cons_self) (hplain d hd) (lead c List.mem_cons_self) (lead d hd))

theorem failure_run_changes (htarget : r.target = .changes scope)
    (h : changesFor tree place git scope = some (root, cs)) :
    (run tree place git r).failure =
      JobResult.failureOf ((treatmentFor (configure tree place).1 r).runJobs tree
        (changeJobs tree place root cs)).2 := by
  rcases hc : configure tree place with ⟨c, events⟩
  simp only [run, hc, htarget]
  exact (onChanges_of_changesFor _ h).2

/-- A run over changes visits a file once for each change of it. -/
theorem find_run_visits {rule : Rule Char} {ls : List Text}
    (htarget : r.target = .changes scope) (hdry : r.dryRun = false)
    (hchanges : changesFor tree place git scope = some (root, cs))
    (hsuccess : (run tree place git r).failure = none)
    (hrule : Location.language f = .ok rule) (hls : Text.AreClean ls)
    (hfile : tree.find f = some (.file (String.ofList (Text.unlines ls)).toUTF8))
    (hprocessed : ∀ c ∈ changesAt tree place.cwd root f cs, IsProcessed tree place root c) :
    (run tree place git r).tree.find f = some (.file (String.ofList (Text.unlines
      (((treatmentFor (configure tree place).1 r).stripper rule).visits
        ((changesAt tree place.cwd root f cs).map (·.selection)) ls))).toUTF8) := by
  rw [failure_run_changes htarget hchanges] at hsuccess
  have hjobs : jobs tree place git r = changeJobs tree place root cs := by
    simp only [jobs, htarget, hchanges]
  rw [tree_run, hjobs, ← selections_changeJobs hprocessed]
  refine Treatment.find_runJobs_of_ok hdry hls ?_ ?_ hfile (JobResult.isFailure_of_failureOf hsuccess)
  · rintro j hj rfl rule' hl
    have located := (of_mem_changeJobs hj).1
    have same := Location.language_of_resolve located.resolve hl
    rw [hrule] at same
    exact (Except.ok.inj same).symm
  · rintro j hj rfl
    exact Location.not_isSupported_backupLocation _ ⟨rule, hrule⟩

end Changes

/-- **Only changed lines.**  After a successful run over changes, a file of which every change is
processed and names some lines, under a plain path, holds its old lines in their order: those in
one of the ranges stripped, and all others as they were.  This holds where all changes are asked
for, which are merged, for a file with a single change, and, with a steady rule, where blank lines
are kept. -/
theorem find_run_changes {tree : Tree} {place : Place} {git : VersionControl} {r : RunRequest}
    {scope : ChangeFilter} {root : String} {cs : List Change} {f : Location}
    {rule : Rule Char} {ls : List Text}
    (htarget : r.target = .changes scope) (hdry : r.dryRun = false)
    (hchanges : changesFor tree place git scope = some (root, cs))
    (hsuccess : (run tree place git r).failure = none)
    (hrule : Location.language f = .ok rule) (hls : Text.AreClean ls)
    (hfile : tree.find f = some (.file (String.ofList (Text.unlines ls)).toUTF8))
    (hprocessed : ∀ c ∈ changesAt tree place.cwd root f cs, IsProcessed tree place root c ∧
      Path.IsPlain c.path ∧ c.selection.ranges ≠ [])
    (honce : scope = .all ∨ (changesAt tree place.cwd root f cs).length ≤ 1 ∨
      (r.options.keepBlank = true ∧ IsSteady rule r.options.mode)) :
    let s := (treatmentFor (configure tree place).1 r).stripper rule
    (run tree place git r).tree.find f = some (.file (String.ofList (Text.unlines
      ((ls.zipIdx 1).filterMap fun (l, n) =>
        if (changesAt tree place.cwd root f cs).any (isCovered n ·.selection.ranges) then
          (s.strip l).output l
        else some l))).toUTF8) := by
  intro s
  have visited := find_run_visits htarget hdry hchanges hsuccess hrule hls hfile
    fun c hc => (hprocessed c hc).1
  have single : ((changesAt tree place.cwd root f cs).map (·.selection)).length ≤ 1 ∨
      (s.options.keepBlank = true ∧ IsSteady s.rule s.options.mode) := by
    rw [List.length_map]
    rcases honce with rfl | hlen | hsteady
    · exact .inl (length_changesAt_all hchanges fun c hc => (hprocessed c hc).2.1)
    · exact .inl hlen
    · exact .inr hsteady
  have blankFree : ∀ m ∈ rule.markers, BlankFree m :=
    Language.blankFree_of_mem_markers rule (Location.mem_rules_of_language hrule)
  -- No change stands for the whole file.
  have covered (n : Nat) :
      ((changesAt tree place.cwd root f cs).map (·.selection)).any (·.includes n) =
        (changesAt tree place.cwd root f cs).any (isCovered n ·.selection.ranges) := by
    rw [Bool.eq_iff_iff, List.any_map, List.any_eq_true, List.any_eq_true]
    refine exists_congr fun c => and_congr_right fun hc => ?_
    have named : c.selection.isAll = false := by
      simpa [Selection.isAll] using (hprocessed c hc).2.2
    rw [Function.comp_apply, Selection.includes, named, Bool.false_or]
  rw [visited, Stripper.visits_eq blankFree single]
  simp only [covered]
  rfl

/-- Staged and other changes of one file are merged. -/
theorem find_run_changes_merged :
    let ls : List Text := ["x # 1".toList, "y # 2".toList, "z # 3".toList]
    let tree : Tree := (Tree.empty.put ["w"] .directory).put ["w", "a.py"]
      (.file (String.ofList (Text.unlines ls)).toUTF8)
    let place : Place := ⟨["w"], "/"⟩
    let git : VersionControl := fun question => .ok
      ⟨if question = ["rev-parse", "--show-toplevel"] then "/w".toUTF8.toList
        else if question ∈ [["diff", "--cached", "--name-only"], ["diff", "--name-only"]] then
          "a.py".toUTF8.toList
        else if question = ["diff", "--cached", "--unified=0", "--", "a.py"] then
          "@@ -1 +1 @@".toUTF8.toList
        else if question = ["diff", "--unified=0", "--", "a.py"] then "@@ -3 +3 @@".toUTF8.toList
        else [], [], 0⟩
    let r : RunRequest := { target := .changes .all }
    let c : Change := ⟨"a.py", .staged, ⟨[⟨1, 1⟩, ⟨3, 3⟩]⟩⟩
    changesFor tree place git .all = some ("/w", [c]) ∧ IsProcessed tree place "/w" c ∧
      (run tree place git r).tree.find ["w", "a.py"] =
        some (.file (String.ofList "x\ny # 2\nz\n".toList).toUTF8) := by
  intro ls tree place git r c
  have hchanges : changesFor tree place git .all = some ("/w", [c]) := by decide +kernel
  have hprocessed : IsProcessed tree place "/w" c := by
    unfold IsProcessed
    decide +kernel
  refine ⟨hchanges, hprocessed, ?_⟩
  have hls : Text.AreClean ls := by
    unfold Text.AreClean
    decide +kernel
  have hentries : ∀ d ∈ changesAt tree place.cwd "/w" ["w", "a.py"] [c],
      IsProcessed tree place "/w" d ∧ Path.IsPlain d.path ∧ d.selection.ranges ≠ [] := by
    intro d hd
    obtain rfl := List.mem_singleton.1 (List.mem_filter.1 hd).1
    exact ⟨hprocessed, by decide +kernel, by decide⟩
  have hrule : Location.language ["w", "a.py"] = .ok Language.hash := rfl
  have hsuccess : (run tree place git r).failure = none := by decide +kernel
  have changed := find_run_changes rfl rfl hchanges hsuccess hrule hls rfl hentries (.inl rfl)
  refine changed.trans
    (congrArg (fun t : Text => some (Entry.file (String.ofList t).toUTF8)) ?_)
  decide +kernel

/-- A file that is listed twice is visited twice, and the second visit removes a line that is in
no range. -/
theorem run_changes_twice :
    let ls : List Text := ["# x".toList, "# y".toList]
    let tree : Tree := (Tree.empty.put ["w"] .directory).put ["w", "a.py"]
      (.file (String.ofList (Text.unlines ls)).toUTF8)
    let place : Place := ⟨["w"], "/"⟩
    let git : VersionControl := fun question => .ok
      ⟨if question = ["rev-parse", "--show-toplevel"] then "/w".toUTF8.toList
        else if question = ["diff", "--name-only"] then "a.py\na.py".toUTF8.toList
        else if question = ["diff", "--unified=0", "--", "a.py"] then "@@ -1 +1 @@".toUTF8.toList
        else [], [], 0⟩
    let r : RunRequest := { target := .changes .unstaged }
    let s := (treatmentFor (configure tree place).1 r).stripper Language.hash
    let c : Change := ⟨"a.py", .unstaged, ⟨[⟨1, 1⟩]⟩⟩
    changesFor tree place git .unstaged = some ("/w", [c, c]) ∧
      changesAt tree place.cwd "/w" ["w", "a.py"] [c, c] = [c, c] ∧
      IsProcessed tree place "/w" c ∧ Path.IsPlain c.path ∧
      (run tree place git r).failure = none ∧
      Text.unlines ((ls.zipIdx 1).filterMap fun (l, n) =>
        if [c, c].any (isCovered n ·.selection.ranges) then (s.strip l).output l else some l) =
          "# y\n".toList ∧
      (run tree place git r).tree.fileAt ["w", "a.py"] = some (String.ofList []).toUTF8 := by
  intro ls tree place git r s c
  refine ⟨by decide +kernel, by decide +kernel, ?_, by decide +kernel, by decide +kernel,
    by decide +kernel, by decide +kernel⟩
  unfold IsProcessed
  decide +kernel

end Run
end Decomment
