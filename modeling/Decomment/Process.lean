import Decomment.DryRun

/-!
# Processing files

A file is read, stripped, and written back if that changes it, or else previewed.  Every failure
comes before anything is written to the file.  Files are processed one after the other, and a
failure of one does not keep the next from being processed.

**Results.**
* `tree_runJob_dryRun`: a preview leaves the tree as it is.
* `tree_runJob_error`: so does a failure.
* `length_runJobs`: every job has a result.
-/

namespace Decomment

/-- What holds for all files of a run. -/
structure Treatment where
  preserve : List Text
  options : Removal := {}
  dryRun : Bool := false
  backup : Bool := false
  contextLines : Nat := 0

/-- A file to process: its path, the name under which it is reported, its location, the lines
that are processed, and whether these are the changed lines of a repository. -/
structure Job where
  path : String
  label : String
  location : Location
  selection : Selection := .all
  isScoped : Bool := false
deriving DecidableEq, Repr

/-- What came of a job. -/
structure JobResult where
  job : Job
  events : List Event
  result : Except Failure Outcome

namespace Job

/-- What is noted before a file is read. -/
def startEvents (j : Job) (rule : Rule Char) : List Event :=
  .log .debug ("processing " ++ j.label ++ " (" ++ Path.languageLabel j.path ++ "; " ++
      Language.describe rule ++ ")") ::
    if j.isScoped then
      if j.selection.isAll then [.log .debug "processing entire file (untracked)"]
      else [.log .debug ("processing " ++ DryRun.showNat j.selection.ranges.length ++
        " line ranges")]
    else []

/-- The location of the backup of a file. -/
def backupLocation (l : Location) : Location :=
  l.dropLast ++ [(l.getLast?.getD "") ++ ".bak"]

end Job

namespace Treatment

section One

def stripper (p : Treatment) (rule : Rule Char) : Stripper :=
  ⟨rule, p.preserve, p.options⟩

/-- The bytes and the text of the file of a job. -/
def readJob (tree : Tree) (j : Job) : Except Failure (ByteArray × Text) :=
  match tree.find j.location with
  | none => .error (.unreadable j.label .notFound)
  | some .directory => .error (.unreadable j.label .isADirectory)
  | some (.file b) =>
      match String.fromUTF8? b with
      | some s => .ok (b, s.toList)
      | none => .error (.notText j.label)

/-- The outcome of the file of a job, before anything is written, with its bytes. -/
def examine (p : Treatment) (tree : Tree) (j : Job) : Except Failure (ByteArray × Outcome) := do
  let rule ← Path.language j.path
  let (b, t) ← readJob tree j
  return (b, (p.stripper rule).run j.selection t)

/-- The tree with the new text of a file, and perhaps with its old bytes as a backup. -/
def commit (p : Treatment) (tree : Tree) (j : Job) (b : ByteArray) (o : Outcome) :
    Except Failure Tree := do
  let tree ←
    if p.backup then
      match tree.writeAt (Job.backupLocation j.location) b with
      | .ok tree => pure tree
      | .error e => throw (Failure.backupFailed j.label e)
    else pure tree
  match tree.writeAt j.location (String.ofList o.render).toUTF8 with
  | .ok tree => return tree
  | .error e => throw (Failure.unwritable j.label e)

/-- What is noted after a file was written. -/
def commitEvents (p : Treatment) (j : Job) : List Event :=
  (if p.backup then [.log .info ("✓ Backup created: " ++ j.path ++ ".bak")] else []) ++
    [.log .info ("✓ Comments removed from " ++ j.label)]

/-- What is noted before a file is read, if there is a rule for it. -/
def startEvents (j : Job) : List Event :=
  match Path.language j.path with
  | .ok rule => j.startEvents rule
  | .error _ => []

def runJob (p : Treatment) (tree : Tree) (j : Job) : Tree × JobResult :=
  let start := startEvents j
  match p.examine tree j with
  | .error e => (tree, ⟨j, start, .error e⟩)
  | .ok (b, o) =>
      if p.dryRun then
        let scope := if j.isScoped then some j.selection else none
        (tree, ⟨j, start ++ DryRun.showFile j.label o scope p.contextLines, .ok o⟩)
      else if o.hasChanges then
        match p.commit tree j b o with
        | .error e => (tree, ⟨j, start, .error e⟩)
        | .ok tree => (tree, ⟨j, start ++ p.commitEvents j, .ok o⟩)
      else (tree, ⟨j, start ++ [.log .info ("✓ No changes made to " ++ j.label)], .ok o⟩)

end One

section Many

/-- Processes files one after the other. -/
def runJobs (p : Treatment) (tree : Tree) : List Job → Tree × List JobResult
  | [] => (tree, [])
  | j :: js =>
      let (tree, r) := p.runJob tree j
      let (tree, rs) := p.runJobs tree js
      (tree, r :: rs)

end Many

end Treatment

namespace JobResult

def isFailure (r : JobResult) : Bool :=
  match r.result with
  | .ok _ => false
  | .error _ => true

/-- What is said of one job among several. -/
def report (r : JobResult) : List Event :=
  r.events ++
    match r.result with
    | .ok _ => []
    | .error e => [.complain ("Error processing " ++ r.job.label ++ ": " ++ e.message)]

/-- The outcome of the job, if it has one. -/
def outcome? (r : JobResult) : Option Outcome :=
  match r.result with
  | .ok o => some o
  | .error _ => none

def totals (rs : List JobResult) : Tally :=
  (rs.filterMap outcome?).foldl Tally.add {}

/-- The failure of a run in which some job failed. -/
def failureOf (rs : List JobResult) : Option Failure :=
  if rs.any isFailure then some .someFilesFailed else none

end JobResult

section Laws

namespace Treatment

theorem tree_runJob_dryRun (p : Treatment) (h : p.dryRun = true) (tree : Tree) (j : Job) :
    (p.runJob tree j).1 = tree := by
  unfold runJob
  simp only [h, if_true]
  split <;> rfl

theorem tree_runJob_error (p : Treatment) (tree : Tree) (j : Job) {e : Failure}
    (h : (p.runJob tree j).2.result = .error e) : (p.runJob tree j).1 = tree := by
  unfold runJob at h ⊢
  simp only at h ⊢
  split
  · rfl
  · rename_i b o he
    simp only [he] at h
    split
    · rfl
    · rename_i hd
      simp only [hd] at h
      split
      · rename_i hm
        simp only [hm, if_true] at h
        split
        · rfl
        · rename_i t hc
          simp [hc] at h
      · rfl

theorem length_runJobs (p : Treatment) : ∀ (tree : Tree) (js : List Job),
    (p.runJobs tree js).2.length = js.length
  | _, [] => rfl
  | tree, j :: js => by simp [runJobs, length_runJobs p _ js]

end Treatment

end Laws

end Decomment
