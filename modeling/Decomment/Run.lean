import Decomment.Configuration
import Decomment.Process
import Decomment.Repository
import Decomment.Walk

/-!
# Runs

A run processes one file, the files below a directory, or the changed lines in a repository.  In
a repository, a change is processed if its file is supported, not ignored and there.

**Results.**
* `tree_reportOn_dryRun`: a preview of jobs leaves the tree as it is.
-/

namespace Decomment

/-- What a run processes. -/
inductive Subject
  | path (p : String)
  | changes (scope : ChangeFilter)
deriving DecidableEq, Repr

/-- What is asked of a run. -/
structure RunRequest where
  target : Subject
  walk : Walk.Options := {}
  options : Removal := {}
  dryRun : Bool := false
  backup : Bool := false
  /-- The number of context lines, if it does not come from the configuration. -/
  contextLines : Option Nat := none
deriving DecidableEq, Repr

namespace Run

section Jobs

/-- The report on some jobs: what was said before, the jobs, and what is said after them. -/
def reportOn (p : Treatment) (tree : Tree) (before : List Event) (jobs : List Job)
    (after : List JobResult → List Event) : Report :=
  let (tree, rs) := p.runJobs tree jobs
  ⟨tree, before ++ rs.flatMap JobResult.report ++ after rs, JobResult.failureOf rs⟩

/-- The job for the whole file at a path. -/
def jobAt (tree : Tree) (cwd : Location) (label path : String) : Option Job :=
  (tree.locateFile cwd path).map fun l => { path := path, label := label, location := l }

theorem tree_runJobs_dryRun (p : Treatment) (h : p.dryRun = true) :
    ∀ (tree : Tree) (js : List Job), (p.runJobs tree js).1 = tree
  | _, [] => rfl
  | tree, j :: js => by
      rw [Treatment.runJobs]
      simp only
      rw [Treatment.tree_runJob_dryRun p h, tree_runJobs_dryRun p h tree js]

theorem tree_reportOn_dryRun (p : Treatment) (h : p.dryRun = true) (tree : Tree)
    (before : List Event) (jobs : List Job) (after : List JobResult → List Event) :
    (reportOn p tree before jobs after).tree = tree := by
  rw [reportOn]
  exact tree_runJobs_dryRun p h tree jobs

end Jobs

section Paths

def onFile (p : Treatment) (tree : Tree) (path : String) (l : Location) : Report :=
  let (tree, r) := p.runJob tree { path := path, label := path, location := l }
  ⟨tree, r.events,
    match r.result with
    | .ok _ => none
    | .error e => some e⟩

/-- The jobs for collected files. -/
def jobsOf (tree : Tree) (cwd : Location) (paths : List String) : List Job :=
  paths.filterMap fun path => jobAt tree cwd (Path.display path) path

/-- Processes the files below a directory. -/
def onDirectory (p : Treatment) (tree : Tree) (place : Place) (path : String)
    (options : Walk.Options) : Report :=
  match Walk.collect tree place path options with
  | .error e => ⟨tree, [], some e⟩
  | .ok (paths, events) =>
      if paths.isEmpty then ⟨tree, events, some (.nothingSupported path)⟩
      else
        let found : Event := .log .info ("found " ++ DryRun.showNat paths.length ++
          " supported files to process")
        reportOn p tree (events ++ [found]) (jobsOf tree place.cwd paths) fun _ => []

/-- Processes what stands at a path. -/
def onPath (p : Treatment) (tree : Tree) (place : Place) (path : String)
    (options : Walk.Options) : Report :=
  match tree.stat place.cwd path with
  | .error e => ⟨tree, [], some (.pathNotFound path e)⟩
  | .ok (_, .directory) => onDirectory p tree place path options
  | .ok (l, .file _) => onFile p tree path l

end Paths

section Changes

/-- The paths of the ignore files for a repository, in the order in which they are read. -/
def ignorePaths (place : Place) (root : String) : List String :=
  [Walk.everywherePath place.home, Path.join root Ignore.ownName,
    Path.join place.cwd.path Ignore.ownName]

/-- The paths without those that have the same parts as an earlier one. -/
def distinctPaths : (seen : List (List Path.Part)) → List String → List String
  | _, [] => []
  | seen, p :: ps =>
      if seen.contains (Path.parts p) then distinctPaths seen ps
      else p :: distinctPaths (Path.parts p :: seen) ps

/-- The ignore rules for a repository, and the warnings about their files.  Rules that cannot be
used together are left out. -/
def ignoreRules (tree : Tree) (place : Place) (root : String) : List Ignore.Rule × List Event :=
  let files := (distinctPaths [] (ignorePaths place root)).filterMap fun path =>
    (Ignore.readAt tree place.cwd path).map (path, ·)
  let (rules, faults) := Ignore.compile (files.flatMap fun (_, rules, _) => rules)
  (rules,
    (files.flatMap fun (path, _, faults) => Walk.warnMalformed path faults) ++
      faults.map fun f => .log .warning ("failed to build ignore rules: " ++ f.message))

/-- The job for a change, if it is to be processed. -/
def jobOfChange (tree : Tree) (cwd : Location) (root : String) (rules : List Ignore.Rule)
    (c : Change) : Option Job :=
  let path := Path.join root c.path
  if Path.isSupported c.path
      && Ignore.verdictOrAbove rules (Ignore.relativeTo root c.path) ≠ some .ignored then
    (tree.locateFile cwd path).map fun l => ⟨path, Path.display c.path, l, c.selection, true⟩
  else none

/-- The notes on changes that are not processed. -/
def noteSkipped (tree : Tree) (cwd : Location) (root : String) (rules : List Ignore.Rule)
    (cs : List Change) : List Event :=
  (cs.filter fun c => (jobOfChange tree cwd root rules c).isNone).map fun c =>
    .log .debug ("skipping " ++ c.path)

/-- The sums over all files, in a preview of some. -/
def showTally (p : Treatment) (rs : List JobResult) : List Event :=
  let t := JobResult.totals rs
  if p.dryRun && t.files ≠ 0 then DryRun.showTally t else []

/-- Processes some changes. -/
def onChangeList (p : Treatment) (tree : Tree) (place : Place) (root : String)
    (before : List Event) (cs : List Change) : Report :=
  if cs.isEmpty then ⟨tree, before ++ [.say "No changes found to process"], none⟩
  else
    let (rules, warnings) := ignoreRules tree place root
    let jobs := cs.filterMap (jobOfChange tree place.cwd root rules)
    let before := before ++ warnings ++ noteSkipped tree place.cwd root rules cs
    if jobs.isEmpty then ⟨tree, before ++ [.say "No supported files found to process"], none⟩
    else
      let found : Event := .log .info ("found " ++ DryRun.showNat jobs.length ++
        " supported files with changes")
      reportOn p tree (before ++ [found]) jobs (showTally p)

/-- Processes the changes in the repository around the current directory. -/
def onChanges (p : Treatment) (tree : Tree) (place : Place) (git : VersionControl)
    (scope : ChangeFilter) : Report :=
  let setting : Repository.Setting := ⟨tree, place.cwd, git⟩
  match Repository.findRoot setting with
  | .error e => ⟨tree, [], some e⟩
  | .ok root =>
      let found : Event := .log .info ("git repository detected: " ++ root)
      match Repository.changes setting root scope with
      | (events, .error e) => ⟨tree, found :: events, some (.changesUnavailable e)⟩
      | (events, .ok cs) => onChangeList p tree place root (found :: events) cs

end Changes

section All

/-- The configuration of a run, and what is said of it.  If it is invalid, the default one
holds. -/
def configure (tree : Tree) (place : Place) : Configuration × List Event :=
  match Configuration.loadNearest tree place with
  | .ok (c, some path) => (c, [.log .debug ("config: " ++ path)])
  | .ok (c, none) => (c, [.log .debug "config: built-in defaults"])
  | .error e =>
      (Configuration.default,
        [.log .warning ("failed to load config, using defaults: " ++ e.message),
         .log .debug "config: built-in defaults"])

/-- The treatment of files for a request under a configuration. -/
def treatmentFor (c : Configuration) (r : RunRequest) : Treatment :=
  ⟨c.patterns, r.options, r.dryRun, r.backup, r.contextLines.getD c.contextLines⟩

/-- Runs a request. -/
def run (tree : Tree) (place : Place) (git : VersionControl) (r : RunRequest) : Report :=
  let (c, events) := configure tree place
  let p := treatmentFor c r
  let report :=
    match r.target with
    | .changes scope => onChanges p tree place git scope
    | .path path => onPath p tree place path r.walk
  { report with events := events ++ report.events }

end All

end Run
end Decomment
