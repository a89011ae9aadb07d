import Decomment.Proofs.Footprint
import Decomment.Proofs.WalkedFiles
import Decomment.Run

/-!
# The jobs of a run

A run leaves the tree that its jobs leave.  A path stands for one job, or for one job for every
file that is collected below it.  A scope stands for one job for every change that is processed.
In a proper tree the files below a directory are different files, and so are merged changes whose
paths are plain.  So the jobs keep apart.

**Results.**
* `tree_run`: the tree that a run leaves is that of its jobs.
* `isLocated_of_mem_jobs`: the path of a job leads to its file.
* `pairwise_isApart_pathJobs`, `pairwise_isApart_changeJobs`: the jobs of a run keep apart.
-/

namespace Decomment

namespace Run

section Jobs

/-- The jobs for what stands at a path. -/
def pathJobs (tree : Tree) (place : Place) (path : String) (options : Walk.Options) : List Job :=
  match tree.stat place.cwd path with
  | .error _ => []
  | .ok (l, .file _) => [{ path := path, label := path, location := l }]
  | .ok (_, .directory) =>
      match Walk.collect tree place path options with
      | .error _ => []
      | .ok (paths, _) => jobsOf tree place.cwd paths

/-- The jobs for some changes in a repository. -/
def changeJobs (tree : Tree) (place : Place) (root : String) (cs : List Change) : List Job :=
  cs.filterMap (jobOfChange tree place.cwd root (ignoreRules tree place root).1)

/-- The root of the repository and the changes that a scope means there, if both are found. -/
def changesFor (tree : Tree) (place : Place) (git : VersionControl) (scope : ChangeFilter) :
    Option (String × List Change) :=
  match Repository.findRoot ⟨tree, place.cwd, git⟩ with
  | .error _ => none
  | .ok root => (Repository.changes ⟨tree, place.cwd, git⟩ root scope).2.toOption.map (root, ·)

/-- The jobs of a run. -/
def jobs (tree : Tree) (place : Place) (git : VersionControl) (r : RunRequest) : List Job :=
  match r.target with
  | .path path => pathJobs tree place path r.walk
  | .changes scope =>
      match changesFor tree place git scope with
      | none => []
      | some (root, cs) => changeJobs tree place root cs

theorem tree_onPath (p : Treatment) (tree : Tree) (place : Place) (path : String)
    (options : Walk.Options) :
    (onPath p tree place path options).tree =
      (p.runJobs tree (pathJobs tree place path options)).1 := by
  unfold onPath pathJobs
  rcases tree.stat place.cwd path with e | ⟨l, b | _⟩
  · rfl
  · rfl
  · simp only [onDirectory]
    rcases Walk.collect tree place path options with e | ⟨paths, events⟩
    · rfl
    · simp only
      split
      · rename_i h
        rw [List.isEmpty_iff.1 h]
        rfl
      · rfl

/-- What some changes come to is what their jobs come to. -/
theorem onChangeList_eq (p : Treatment) (tree : Tree) (place : Place) (root : String)
    (before : List Event) (cs : List Change) :
    (onChangeList p tree place root before cs).tree =
        (p.runJobs tree (changeJobs tree place root cs)).1 ∧
      (onChangeList p tree place root before cs).failure =
        JobResult.failureOf (p.runJobs tree (changeJobs tree place root cs)).2 := by
  unfold onChangeList changeJobs
  split
  · rename_i h
    rw [List.isEmpty_iff.1 h]
    exact ⟨rfl, rfl⟩
  · simp only
    split
    · rename_i h
      rw [List.isEmpty_iff.1 h]
      exact ⟨rfl, rfl⟩
    · exact ⟨rfl, rfl⟩

theorem changesFor_eq_some_iff {tree : Tree} {place : Place} {git : VersionControl}
    {scope : ChangeFilter} {root : String} {cs : List Change} :
    changesFor tree place git scope = some (root, cs) ↔
      Repository.findRoot ⟨tree, place.cwd, git⟩ = .ok root ∧
        ∃ events, Repository.changes ⟨tree, place.cwd, git⟩ root scope = (events, .ok cs) := by
  unfold changesFor
  cases hr : Repository.findRoot ⟨tree, place.cwd, git⟩ with
  | error e => simp
  | ok root' =>
      simp only [Except.ok.injEq]
      constructor
      · intro h
        rcases hc : Repository.changes ⟨tree, place.cwd, git⟩ root' scope with ⟨events, e | cs'⟩
        · rw [hc] at h
          cases h
        · rw [hc] at h
          obtain ⟨rfl, rfl⟩ := Prod.mk.inj (Option.some.inj h)
          exact ⟨rfl, events, hc⟩
      · rintro ⟨rfl, events, hc⟩
        rw [hc]
        rfl

/-- What the changes in a repository come to, once they are known. -/
theorem onChanges_of_changesFor {tree : Tree} {place : Place} {git : VersionControl}
    {scope : ChangeFilter} {root : String} {cs : List Change} (p : Treatment)
    (h : changesFor tree place git scope = some (root, cs)) :
    (onChanges p tree place git scope).tree =
        (p.runJobs tree (changeJobs tree place root cs)).1 ∧
      (onChanges p tree place git scope).failure =
        JobResult.failureOf (p.runJobs tree (changeJobs tree place root cs)).2 := by
  obtain ⟨hr, events, hc⟩ := changesFor_eq_some_iff.1 h
  unfold onChanges
  simp only [hr, hc]
  exact onChangeList_eq p tree place root _ cs

theorem tree_onChanges_of_changesFor {tree : Tree} {place : Place} {git : VersionControl}
    {scope : ChangeFilter} (p : Treatment) (h : changesFor tree place git scope = none) :
    (onChanges p tree place git scope).tree = tree := by
  unfold changesFor at h
  unfold onChanges
  cases hr : Repository.findRoot ⟨tree, place.cwd, git⟩ with
  | error e' => simp only [hr]
  | ok root =>
      simp only [hr] at h ⊢
      rcases hc : Repository.changes ⟨tree, place.cwd, git⟩ root scope with ⟨events, e' | cs⟩
      · simp only
      · rw [hc] at h
        cases h

/-- A run leaves the tree that its jobs leave. -/
theorem tree_run (tree : Tree) (place : Place) (git : VersionControl) (r : RunRequest) :
    (run tree place git r).tree =
      ((treatmentFor (configure tree place).1 r).runJobs tree (jobs tree place git r)).1 := by
  rcases hc : configure tree place with ⟨c, events⟩
  simp only [run, hc, jobs]
  cases r.target with
  | path path => exact tree_onPath _ _ _ _ _
  | changes scope =>
      simp only
      cases h : changesFor tree place git scope with
      | none => exact tree_onChanges_of_changesFor _ h
      | some found => exact (onChanges_of_changesFor _ h).1

end Jobs

section Located

variable {tree : Tree} {place : Place} {root : String} {j : Job}

/-- The path of the job leads to the file at its location. -/
def IsLocated (tree : Tree) (cwd : Location) (j : Job) : Prop :=
  tree.locateFile cwd j.path = some j.location

theorem jobAt_eq_some_iff {cwd : Location} {label path : String} :
    jobAt tree cwd label path = some j ↔
      ∃ l, tree.locateFile cwd path = some l ∧
        { path := path, label := label, location := l } = j := by
  simp [jobAt]

theorem exists_path_of_mem_jobsOf {cwd : Location} {paths : List String}
    (h : j ∈ jobsOf tree cwd paths) :
    j.path ∈ paths ∧ j.selection = .all ∧ IsLocated tree cwd j := by
  obtain ⟨path, hpath, hj⟩ := List.mem_filterMap.1 h
  obtain ⟨l, hl, rfl⟩ := jobAt_eq_some_iff.1 hj
  exact ⟨hpath, rfl, hl⟩

theorem jobOfChange_eq_some {cwd : Location} {rules : List Ignore.Rule} {c : Change}
    (h : jobOfChange tree cwd root rules c = some j) :
    Path.isSupported c.path = true ∧ j.path = Path.join root c.path ∧
      j.selection = c.selection ∧ IsLocated tree cwd j := by
  unfold jobOfChange at h
  simp only at h
  split at h
  · rename_i hc
    obtain ⟨l, hl, rfl⟩ := Option.map_eq_some_iff.1 h
    rw [Bool.and_eq_true] at hc
    exact ⟨hc.1, rfl, rfl, hl⟩
  · cases h

theorem of_mem_changeJobs {cs : List Change} (h : j ∈ changeJobs tree place root cs) :
    IsLocated tree place.cwd j ∧
      ∃ c ∈ cs, j.path = Path.join root c.path ∧ j.selection = c.selection := by
  obtain ⟨c, hc, hj⟩ := List.mem_filterMap.1 h
  obtain ⟨-, hpath, hselection, located⟩ := jobOfChange_eq_some hj
  exact ⟨located, c, hc, hpath, hselection⟩

theorem IsLocated.resolve {cwd : Location} (h : IsLocated tree cwd j) :
    tree.resolve cwd j.path = .ok j.location :=
  (Tree.locateFile_eq_some_iff.1 h).1

theorem IsLocated.file {cwd : Location} (h : IsLocated tree cwd j) :
    ∃ b, tree.find j.location = some (.file b) :=
  (Tree.locateFile_eq_some_iff.1 h).2

end Located

section Apart

variable {tree : Tree} {place : Place} {root : String}

/-- What is collected in a directory are different files below it. -/
theorem exists_of_collect {options : Walk.Options} {rootAt : Location} {paths : List String}
    {events : List Event} (hstat : tree.stat place.cwd root = .ok (rootAt, .directory))
    (h : Walk.collect tree place root options = .ok (paths, events)) :
    ∃ files : List (List String), files.Nodup ∧
      (∀ ns ∈ files, ns ≠ [] ∧ ∃ b, tree.find (rootAt ++ ns) = some (.file b)) ∧
      paths = Walk.supported (files.map (Walk.pathBelow root)) := by
  obtain ⟨globs, -, hpaths⟩ := (Walk.collects_iff hstat).1 ⟨events, h⟩
  exact ⟨_, Walk.nodup_walked, fun _ => Walk.exists_of_mem_walked, hpaths⟩

theorem location_of_jobAt_pathBelow {cwd rootAt : Location} {label : String}
    {ns : List String} {j : Job} (hroot : tree.resolve cwd root = .ok rootAt)
    (hns : ∀ s ∈ ns, Path.IsName s) (hne : ns ≠ [])
    (h : jobAt tree cwd label (Walk.pathBelow root ns) = some j) : j.location = rootAt ++ ns := by
  obtain ⟨l, hl, rfl⟩ := jobAt_eq_some_iff.1 h
  rw [Walk.pathBelow_of_ne_nil hne] at hl
  obtain ⟨m, hm, e⟩ := Tree.location_of_resolve_intercalate (Tree.ne_empty_of_resolve hroot)
    hns hne (Tree.locateFile_eq_some_iff.1 hl).1
  rw [hroot] at hm
  rw [e, Except.ok.inj hm]

/-- No job for the first path has the location of a job for the second one. -/
def LeadApart (tree : Tree) (cwd : Location) (path path' : String) : Prop :=
  ∀ j, jobAt tree cwd (Path.display path) path = some j →
    ∀ k, jobAt tree cwd (Path.display path') path' = some k → j.location ≠ k.location

theorem pairwise_leadApart (h : tree.IsProper) {rootAt : Location} {files : List (List String)}
    (hroot : tree.resolve place.cwd root = .ok rootAt) (distinct : files.Nodup)
    (hfiles : ∀ ns ∈ files, ns ≠ [] ∧ ∃ b, tree.find (rootAt ++ ns) = some (.file b)) :
    (Walk.supported (files.map (Walk.pathBelow root))).Pairwise
      (LeadApart tree place.cwd) := by
  have below {ns : List String} (hns : ns ∈ files) :
      ns ≠ [] ∧ ∀ s ∈ ns, Path.IsName s := by
    obtain ⟨hne, b, hb⟩ := hfiles ns hns
    exact ⟨hne, h.isName_of_find_append hb⟩
  have apart : (files.map (Walk.pathBelow root)).Pairwise (LeadApart tree place.cwd) := by
    rw [List.pairwise_map]
    refine distinct.imp_of_mem fun {ms ns} hms hns hne j hj k hk e => ?_
    rw [location_of_jobAt_pathBelow hroot (below hms).2 (below hms).1 hj,
      location_of_jobAt_pathBelow hroot (below hns).2 (below hns).1 hk] at e
    exact hne (List.append_cancel_left e)
  refine (apart.filter _).perm (List.mergeSort_perm _ _).symm fun {a b} hab => ?_
  exact fun j hj k hk => (hab k hk j hj).symm

/-- Plain paths that lead to one file have the same parts. -/
theorem parts_eq_of_locateFile {cwd l : Location} {p q : String} (hroot : root ≠ "")
    (hp : Path.IsPlain p) (hq : Path.IsPlain q)
    (hlp : tree.locateFile cwd (Path.join root p) = some l)
    (hlq : tree.locateFile cwd (Path.join root q) = some l) : Path.parts p = Path.parts q := by
  obtain ⟨m, hm, ep⟩ :=
    Tree.location_of_resolve_join hroot hp (Tree.locateFile_eq_some_iff.1 hlp).1
  obtain ⟨m', hm', eq⟩ :=
    Tree.location_of_resolve_join hroot hq (Tree.locateFile_eq_some_iff.1 hlq).1
  rw [hm] at hm'
  rw [← Except.ok.inj hm', ep] at eq
  exact Path.parts_eq_of_names_eq hp hq (List.append_cancel_left eq)

end Apart

end Run
end Decomment
