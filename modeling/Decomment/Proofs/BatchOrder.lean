import Decomment.Proofs.RunJobs

/-!
# Batches in any order

The jobs of a batch are for files at supported paths, no two of which lead to the same place.  A
failure of one job does not keep the next from being processed, and since the jobs keep apart, it
does not matter either which of them comes first: each of them does what it would do alone.

**Results.**
* `tree_runJobs_perm`: jobs that keep apart leave the same tree in any order.
* `failureOf_eq_none_iff`: a batch fails exactly if one of its jobs does.
* `isBatch_jobsOf_of_collect`: the files that are collected make up a batch.
* `batch_in_any_order`: a batch in any order does what its jobs do alone.
-/

namespace Decomment

namespace Tree

/-- Trees that hold the same everywhere are equal. -/
theorem ext_find {t u : Tree} (htop : t.nodes.find? [] = u.nodes.find? [])
    (h : ∀ l, t.find l = u.find l) : t = u := by
  have same : t.nodes = u.nodes := by
    refine Keyed.Map.ext_find? fun l => ?_
    cases l with
    | nil => exact htop
    | cons s l => exact h (s :: l)
  cases t
  cases u
  exact congrArg Tree.mk same

end Tree

namespace Treatment

variable {p : Treatment} {tree : Tree} {js js' : List Job}

theorem find?_nil_runJobs (p : Treatment) (tree : Tree) (js : List Job) :
    (p.runJobs tree js).1.nodes.find? [] = tree.nodes.find? [] := by
  refine runJobs_induction (motive := fun t => t.nodes.find? [] = tree.nodes.find? []) rfl ?_
  intro k hk t u l b hl hw ht
  rw [Tree.eq_put_of_writeAt hw, ← ht]
  exact t.nodes.find?_insert_of_ne _ (Tree.ne_nil_of_writeAt hw).symm

/-- Jobs that keep apart leave the same tree in any order. -/
theorem tree_runJobs_perm (hperm : js'.Perm js) (apart : js.Pairwise Job.IsApart)
    (hdir : ∀ j ∈ js, tree.find j.location.dropLast = some .directory) :
    (p.runJobs tree js').1 = (p.runJobs tree js).1 := by
  have apart' : js'.Pairwise Job.IsApart := apart.perm hperm.symm Job.IsApart.symm
  have hdir' : ∀ j ∈ js', tree.find j.location.dropLast = some .directory :=
    fun j hj => hdir j (hperm.mem_iff.1 hj)
  refine Tree.ext_find (by rw [find?_nil_runJobs, find?_nil_runJobs]) fun l => ?_
  by_cases hl : ∃ j ∈ js, l ∈ j.footprint
  · obtain ⟨j, hj, hl⟩ := hl
    rw [find_runJobs_of_apart apart hdir hj l hl,
      find_runJobs_of_apart apart' hdir' (hperm.mem_iff.2 hj) l hl]
  · have outside : ∀ j ∈ js, l ∉ j.footprint := fun j hj hmem => hl ⟨j, hj, hmem⟩
    rw [find_runJobs_of_not_mem outside,
      find_runJobs_of_not_mem fun j hj => outside j (hperm.mem_iff.1 hj)]

/-- The jobs `js'`, in this order, do what each of the jobs `js` does alone: they leave one tree
in both orders, with the same results; each file and its backup are as its job alone leaves them;
and there is a failure exactly if one of the jobs fails alone. -/
structure ActsAlone (p : Treatment) (tree : Tree) (js js' : List Job) : Prop where
  tree_eq : (p.runJobs tree js').1 = (p.runJobs tree js).1
  results : (p.runJobs tree js').2.Perm (p.runJobs tree js).2
  result : ∀ j ∈ js, (p.runJob tree j).2 ∈ (p.runJobs tree js').2
  find : ∀ j ∈ js, ∀ l ∈ j.footprint,
    (p.runJobs tree js').1.find l = (p.runJob tree j).1.find l
  fails : JobResult.failureOf (p.runJobs tree js').2 ≠ none ↔
    ∃ j ∈ js, (p.runJob tree j).2.isFailure = true

end Treatment

theorem JobResult.failureOf_eq_none_iff {rs : List JobResult} :
    JobResult.failureOf rs = none ↔ ∀ r ∈ rs, r.isFailure = false := by
  unfold failureOf
  cases h : rs.any JobResult.isFailure with
  | false =>
      simp only [Bool.false_eq_true, if_false, true_iff]
      exact fun r hr => by simpa using List.any_eq_false.1 h r hr
  | true =>
      obtain ⟨r, hr, hf⟩ := List.any_eq_true.1 h
      simp only [if_true, reduceCtorEq, false_iff]
      exact fun all => by simp [all r hr] at hf

namespace Run

/-- The jobs are for supported paths, no two of which lead to the same place. -/
structure IsBatch (tree : Tree) (cwd : Location) (js : List Job) : Prop where
  supported : ∀ j ∈ js, Path.isSupported j.path = true
  leads : ∀ j ∈ js, tree.resolve cwd j.path = .ok j.location
  distinct : js.Pairwise fun j k => j.location ≠ k.location

section Batches

variable {p : Treatment} {tree : Tree} {cwd : Location} {js js' : List Job}

theorem IsBatch.isApart (h : IsBatch tree cwd js) : js.Pairwise Job.IsApart := by
  have supported : ∀ j ∈ js, Location.IsSupported j.location := by
    intro j hj
    obtain ⟨rule, hrule⟩ := Path.exists_rule_of_isSupported (h.supported j hj)
    exact ⟨rule, Location.language_of_resolve (h.leads j hj) hrule⟩
  exact h.distinct.imp_of_mem fun {j k} hj hk =>
    Job.isApart_of_ne (supported j hj) (supported k hk)

theorem IsBatch.parent (h : IsBatch tree cwd js) :
    ∀ j ∈ js, tree.find j.location.dropLast = some .directory :=
  fun j hj => Location.find_parent_of_resolve (h.leads j hj) (h.supported j hj)

/-- A batch in any order does what its jobs do alone. -/
theorem IsBatch.actsAlone (h : IsBatch tree cwd js) (hperm : js'.Perm js) :
    p.ActsAlone tree js js' := by
  have apart := h.isApart
  have hdir := h.parent
  have results : (p.runJobs tree js').2 = js'.map fun j => (p.runJob tree j).2 :=
    Treatment.result_runJobs_of_apart (apart.perm hperm.symm Job.IsApart.symm)
      fun j hj => hdir j (hperm.mem_iff.1 hj)
  have tree_eq : (p.runJobs tree js').1 = (p.runJobs tree js).1 :=
    Treatment.tree_runJobs_perm hperm apart hdir
  refine ⟨tree_eq, ?_, ?_, ?_, ?_⟩
  · rw [results, Treatment.result_runJobs_of_apart apart hdir]
    exact hperm.map _
  · intro j hj
    rw [results]
    exact List.mem_map_of_mem (hperm.mem_iff.2 hj)
  · intro j hj l hl
    rw [tree_eq]
    exact Treatment.find_runJobs_of_apart apart hdir hj l hl
  · rw [Ne, JobResult.failureOf_eq_none_iff, results]
    simp only [List.forall_mem_map, hperm.mem_iff, Classical.not_forall, Bool.not_eq_false,
      exists_prop]

end Batches

section Collected

variable {p : Treatment} {tree : Tree} {place : Place} {root : String} {options : Walk.Options}
variable {paths : List String} {events : List Event}

/-- What is collected: nothing, the root itself, or some of the files below it. -/
theorem collect_cases (h : Walk.collect tree place root options = .ok (paths, events)) :
    paths = [] ∨
      (∃ l b, tree.stat place.cwd root = .ok (l, .file b) ∧ paths = Walk.supported [root]) ∨
      ∃ l, tree.stat place.cwd root = .ok (l, .directory) ∧
        ∃ files : List (List String), files.Nodup ∧
          (∀ ns ∈ files, ns ≠ [] ∧ ∃ b, tree.find (l ++ ns) = some (.file b)) ∧
          paths = Walk.supported (files.map (Walk.pathBelow root)) := by
  rcases hs : tree.stat place.cwd root with e | ⟨l, b | _⟩
  · left
    unfold Walk.collect at h
    cases hg : Walk.excludeGlobs options.excludes with
    | error e => rw [hg] at h; cases h
    | ok globs =>
        simp only [hg, hs, bind, Except.bind] at h
        split at h <;> exact (Prod.mk.inj (Except.ok.inj h)).1.symm
  · unfold Walk.collect at h
    cases hg : Walk.excludeGlobs options.excludes with
    | error e => rw [hg] at h; cases h
    | ok globs =>
        simp only [hg, hs, bind, Except.bind] at h
        split at h
        · exact .inl (Prod.mk.inj (Except.ok.inj h)).1.symm
        · exact .inr (.inl ⟨l, b, rfl, (Prod.mk.inj (Except.ok.inj h)).1.symm⟩)
  · exact .inr (.inr ⟨l, rfl, exists_of_collect hs h⟩)

theorem isSupported_of_collect (h : Walk.collect tree place root options = .ok (paths, events)) :
    ∀ path ∈ paths, Path.isSupported path = true := by
  rcases collect_cases h with rfl | ⟨l, b, -, rfl⟩ | ⟨l, -, files, -, -, rfl⟩
  · exact fun path hpath => by cases hpath
  · exact fun path hpath => (Walk.mem_supported_iff.1 hpath).2
  · exact fun path hpath => (Walk.mem_supported_iff.1 hpath).2

/-- The paths that are collected lead to files, and no two of them to the same place. -/
theorem leadApart_of_collect (htree : tree.IsProper)
    (h : Walk.collect tree place root options = .ok (paths, events)) :
    paths.Pairwise (LeadApart tree place.cwd) ∧
      ∀ path ∈ paths, ∃ l, tree.locateFile place.cwd path = some l := by
  rcases collect_cases h with rfl | ⟨l, b, hstat, rfl⟩ |
    ⟨l, hstat, files, distinct, hfiles, rfl⟩
  · exact ⟨List.Pairwise.nil, fun path hpath => by cases hpath⟩
  · constructor
    · exact (List.pairwise_singleton _ root).filter _ |>.perm (List.mergeSort_perm _ _).symm
        fun hpq j hj k hk => (hpq k hk j hj).symm
    · intro path hpath
      rw [List.mem_singleton.1 (Walk.mem_supported_iff.1 hpath).1]
      exact ⟨l, by rw [Tree.locateFile, hstat]⟩
  · have hroot := (Tree.stat_eq_ok_iff.1 hstat).1
    refine ⟨pairwise_leadApart htree hroot distinct hfiles, fun path hpath => ?_⟩
    obtain ⟨ns, hns, rfl⟩ := List.mem_map.1 (Walk.mem_supported_iff.1 hpath).1
    obtain ⟨hne, b, hb⟩ := hfiles ns hns
    exact ⟨l ++ ns, by rw [Tree.locateFile, Walk.stat_pathBelow htree hroot hne hb]⟩

theorem jobAt_of_locateFile {cwd l : Location} {label path : String}
    (h : tree.locateFile cwd path = some l) :
    jobAt tree cwd label path = some { path := path, label := label, location := l } := by
  rw [jobAt, h, Option.map_some]

/-- Every file has a job. -/
theorem map_path_jobsOf {cwd : Location}
    (h : ∀ path ∈ paths, ∃ l, tree.locateFile cwd path = some l) :
    (jobsOf tree cwd paths).map (·.path) = paths := by
  induction paths with
  | nil => rfl
  | cons path paths ih =>
      obtain ⟨l, hl⟩ := h path List.mem_cons_self
      have rest := ih fun q hq => h q (List.mem_cons_of_mem path hq)
      rw [jobsOf] at rest
      rw [jobsOf, List.filterMap_cons, jobAt_of_locateFile hl]
      simp only [List.map_cons, rest]

/-- The files that are collected make up a batch. -/
theorem isBatch_jobsOf_of_collect (htree : tree.IsProper)
    (h : Walk.collect tree place root options = .ok (paths, events)) :
    IsBatch tree place.cwd (jobsOf tree place.cwd paths) := by
  obtain ⟨apart, -⟩ := leadApart_of_collect htree h
  refine ⟨fun j hj => ?_, fun j hj => ?_, ?_⟩
  · exact isSupported_of_collect h j.path (exists_path_of_mem_jobsOf hj).1
  · exact (exists_path_of_mem_jobsOf hj).2.2.resolve
  · rw [jobsOf, List.pairwise_filterMap]
    exact apart.imp fun hpq j hj k hk => hpq j hj k hk

/-- A directory is processed as the batch of the files that are collected. -/
theorem onDirectory_of_collect (p : Treatment)
    (h : Walk.collect tree place root options = .ok (paths, events)) (hne : paths ≠ []) :
    (onDirectory p tree place root options).tree =
        (p.runJobs tree (jobsOf tree place.cwd paths)).1 ∧
      (onDirectory p tree place root options).failure =
        JobResult.failureOf (p.runJobs tree (jobsOf tree place.cwd paths)).2 := by
  unfold onDirectory
  simp only [h, List.isEmpty_iff, if_neg hne]
  exact ⟨rfl, rfl⟩

theorem nodup_of_collect (htree : tree.IsProper)
    (h : Walk.collect tree place root options = .ok (paths, events)) : paths.Nodup := by
  obtain ⟨apart, located⟩ := leadApart_of_collect htree h
  refine apart.imp_of_mem fun {path path'} hpath _ hne e => ?_
  subst e
  obtain ⟨l, hl⟩ := located path hpath
  exact hne _ (jobAt_of_locateFile hl) _ (jobAt_of_locateFile hl) rfl

end Collected

/-- **A batch in any order.**  Jobs for supported paths that lead to different places do, in any
order, what each of them does alone, so that the tree, the results and whether there is a failure
do not depend on the order.  Such are the jobs for the files that are collected in a proper tree,
one for each path, and a directory is processed as that batch. -/
theorem batch_in_any_order (p : Treatment) (tree : Tree) (place : Place) :
    (∀ js js' : List Job, IsBatch tree place.cwd js → js'.Perm js → p.ActsAlone tree js js') ∧
    (tree.IsProper → ∀ root options paths events,
      Walk.collect tree place root options = .ok (paths, events) →
        paths.Nodup ∧ (jobsOf tree place.cwd paths).map (·.path) = paths ∧
          IsBatch tree place.cwd (jobsOf tree place.cwd paths) ∧
          (paths ≠ [] →
            (onDirectory p tree place root options).tree =
                (p.runJobs tree (jobsOf tree place.cwd paths)).1 ∧
              (onDirectory p tree place root options).failure =
                JobResult.failureOf (p.runJobs tree (jobsOf tree place.cwd paths)).2)) := by
  constructor
  · intro js js' hjs hperm
    exact hjs.actsAlone hperm
  · intro htree root options paths events h
    exact ⟨nodup_of_collect htree h, map_path_jobsOf (leadApart_of_collect htree h).2,
      isBatch_jobsOf_of_collect htree h, onDirectory_of_collect p h⟩

/-- A file that is no text comes before one that is processed. -/
theorem batch_in_any_order_reversed :
    let tree : Tree := ((Tree.empty.put ["w"] .directory).put ["w", "a.py"]
      (.file "x # y\n".toUTF8)).put ["w", "b.py"] (.file ⟨#[255]⟩)
    let place : Place := ⟨["w"], "/"⟩
    let p : Treatment := { preserve := [], backup := true }
    let a : Job := { path := "./a.py", label := "a.py", location := ["w", "a.py"] }
    let b : Job := { path := "./b.py", label := "b.py", location := ["w", "b.py"] }
    tree.IsProper ∧
      (∃ events, Walk.collect tree place "." {} = .ok (["./a.py", "./b.py"], events)) ∧
      jobsOf tree place.cwd ["./a.py", "./b.py"] = [a, b] ∧
      (p.runJobs tree [b, a]).1.fileAt ["w", "a.py"] = some "x\n".toUTF8 ∧
      (p.runJobs tree [b, a]).1.fileAt ["w", "a.py.bak"] = some "x # y\n".toUTF8 ∧
      JobResult.failureOf (p.runJobs tree [b, a]).2 ≠ none := by
  intro tree place p a b
  have htree : tree.IsProper := by decide +kernel
  have hcollect : ∃ events,
      Walk.collect tree place "." {} = .ok (["./a.py", "./b.py"], events) := by
    have hstat : tree.stat place.cwd "." = .ok (["w"], .directory) :=
      Tree.locateDirectory_eq_some_iff.1 (by decide +kernel)
    have hinput : Walk.isStandardInput "." = false := by decide +kernel
    have sorted : Walk.supported ["./a.py", "./b.py"] = ["./a.py", "./b.py"] := by
      have all : ["./a.py", "./b.py"].filter Path.isSupported = ["./a.py", "./b.py"] := by
        decide +kernel
      rw [Walk.supported, all, Path.sort]
      exact List.mergeSort_of_pairwise (by decide +kernel)
    simp only [Walk.collect, hinput, hstat]
    refine ⟨_, congrArg Except.ok (Prod.ext ((congrArg Walk.supported ?_).trans sorted) rfl)⟩
    decide +kernel
  have hjobs : jobsOf tree place.cwd ["./a.py", "./b.py"] = [a, b] := by decide +kernel
  obtain ⟨any, collected⟩ := batch_in_any_order p tree place
  obtain ⟨events, h⟩ := hcollect
  obtain ⟨-, -, hbatch, -⟩ := collected htree _ _ _ _ h
  rw [hjobs] at hbatch
  have alone := any [a, b] [b, a] hbatch (List.Perm.swap a b [])
  have file := alone.find a (by decide) ["w", "a.py"] (by decide +kernel)
  have backup := alone.find a (by decide) ["w", "a.py.bak"] (by decide +kernel)
  refine ⟨htree, ⟨events, h⟩, hjobs, ?_, ?_, alone.fails.2 ⟨b, by decide, by decide +kernel⟩⟩
  · have hfile : (p.runJob tree a).1.fileAt ["w", "a.py"] = some "x\n".toUTF8 := by decide +kernel
    rwa [Tree.fileAt, file]
  · have hbackup : (p.runJob tree a).1.fileAt ["w", "a.py.bak"] = some "x # y\n".toUTF8 := by
      decide +kernel
    rwa [Tree.fileAt, backup]

end Run
end Decomment
