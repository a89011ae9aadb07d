import Decomment.Hunk
import Decomment.Console
import Decomment.Text.Utf8

/-!
# Changes in a repository

The version control program is asked for the names of changed files and for the difference of
each.  Its answers are a function of what it is asked.  The first question that fails ends the
inquiry.

Two changes of one path are merged: their lines are united, and a file that is untracked stays so.

**Results.**
* `paths_merge_nodup`: after merging, no two changes have the same path.
-/

namespace Decomment

/-- What the version control program answers: its two outputs and its exit code. -/
structure Reply where
  output : List UInt8
  complaint : List UInt8
  code : Nat
deriving DecidableEq, Repr

/-- The answers of the version control program, or why it cannot be started. -/
abbrev VersionControl := List String → Except FsError Reply

/-- Which changes are meant. -/
inductive ChangeFilter
  | all
  | staged
  | unstaged
deriving DecidableEq, Repr

/-- How a file has changed. -/
inductive ChangeStatus
  | staged
  | unstaged
  | untracked
deriving DecidableEq, Repr

/-- A changed file, its path seen from the root of the repository, and its changed lines. -/
structure Change where
  path : String
  status : ChangeStatus
  selection : Selection
deriving DecidableEq, Repr

namespace Repository

section Asking

/-- Where questions are asked: the tree and the directory that relative paths start from. -/
structure Setting where
  tree : Tree
  cwd : Location
  git : VersionControl

/-- Starts the program in a directory. -/
def start (s : Setting) (directory : String) (arguments : List String) : Except FsError Reply :=
  match s.tree.stat s.cwd directory with
  | .error e => .error e
  | .ok (_, .file _) => .error .notADirectory
  | .ok (_, .directory) => s.git arguments

/-- Asks a question in a directory. -/
def ask (s : Setting) (directory : String) (arguments : List String) : Except Failure Text :=
  let failed (reason : String) : Failure := .gitCommand (" ".intercalate arguments) reason
  match start s directory arguments with
  | .error e => .error (failed e.message)
  | .ok r =>
      if r.code = 0 then .ok (Text.decodeLossy r.output)
      else .error (failed (String.ofList (Text.trim (Text.decodeLossy r.complaint))))

/-- The root of the repository around the current directory. -/
def findRoot (s : Setting) : Except Failure String :=
  match ask s s.cwd.path ["rev-parse", "--show-toplevel"] with
  | .error _ => .error .notARepository
  | .ok t =>
      let root := Text.trim t
      if root.isEmpty then .error .notARepository else .ok (String.ofList root)

/-- The names in a list of names, one on a line. -/
def names (t : Text) : List String :=
  (((Text.lines t).map Text.trim).filter (!·.isEmpty)).map String.ofList

end Asking

section Differences

/-- The question for the names of changed files. -/
def listQuestion (status : ChangeStatus) : List String :=
  match status with
  | .staged => ["diff", "--cached", "--name-only"]
  | .unstaged => ["diff", "--name-only"]
  | .untracked => ["ls-files", "--others", "--exclude-standard"]

/-- The question for the changed lines of a file. -/
def diffQuestion (status : ChangeStatus) (file : String) : List String :=
  (if status = .staged then ["diff", "--cached"] else ["diff"]) ++ ["--unified=0", "--", file]

/-- The note on a difference that was read. -/
def noteDiff (file : String) (selection : Selection) : Event :=
  .log .debug ("parsed diff file=" ++ Console.quote file ++ " hunks=" ++
    String.ofList (Text.numeral selection.ranges.length))

/-- The changes of files with a status, and what is said meanwhile. -/
def readDiffs (s : Setting) (root : String) (status : ChangeStatus) :
    List String → List Event × Except Failure (List Change)
  | [] => ([], .ok [])
  | file :: files =>
      match ask s root (diffQuestion status file) with
      | .error e => ([], .error e)
      | .ok t =>
          let selection := Hunk.selection t
          let (events, rest) := readDiffs s root status files
          (noteDiff file selection :: events, rest.map (⟨file, status, selection⟩ :: ·))

/-- The tracked files that changed in a way. -/
def tracked (s : Setting) (root : String) (status : ChangeStatus) :
    List Event × Except Failure (List Change) :=
  match ask s root (listQuestion status) with
  | .error e => ([], .error e)
  | .ok t => readDiffs s root status (names t)

/-- The files that are not tracked, which count as a whole. -/
def untracked (s : Setting) (root : String) : Except Failure (List Change) :=
  (ask s root (listQuestion .untracked)).map fun t =>
    (names t).map fun file => ⟨file, .untracked, .all⟩

/-- The changes that are not staged, untracked files last. -/
def unstaged (s : Setting) (root : String) : List Event × Except Failure (List Change) :=
  match tracked s root .unstaged with
  | (events, .error e) => (events, .error e)
  | (events, .ok changes) => (events, (untracked s root).map (changes ++ ·))

end Differences

section Merging

/-- The paths of two changes have the same parts. -/
def samePath (c d : Change) : Bool :=
  Path.parts c.path = Path.parts d.path

/-- A change with what another one of the same path adds to it. -/
def absorb (c d : Change) : Change :=
  let status := if d.status = .untracked then d.status else c.status
  ⟨c.path, status, c.selection.union d.selection⟩

/-- The changes with one more, which joins the one of the same path. -/
def mergeInto : List Change → Change → List Change
  | [], d => [d]
  | c :: cs, d => if samePath c d then absorb c d :: cs else c :: mergeInto cs d

/-- The changes, one of each path. -/
def merge (cs : List Change) : List Change :=
  cs.foldl mergeInto []

/-- The changes that a scope means, and what is said meanwhile. -/
def changes (s : Setting) (root : String) : ChangeFilter →
    List Event × Except Failure (List Change)
  | .staged => tracked s root .staged
  | .unstaged => unstaged s root
  | .all =>
      match tracked s root .staged with
      | (events, .error e) => (events, .error e)
      | (events, .ok first) =>
          let (more, rest) := unstaged s root
          (events ++ more, rest.map fun second => merge (first ++ second))

end Merging

section Laws

theorem parts_mergeInto (cs : List Change) (d : Change) :
    (mergeInto cs d).map (Path.parts ·.path) =
      if Path.parts d.path ∈ cs.map (Path.parts ·.path) then cs.map (Path.parts ·.path)
      else cs.map (Path.parts ·.path) ++ [Path.parts d.path] := by
  induction cs with
  | nil => simp [mergeInto]
  | cons c cs ih =>
      rw [mergeInto]
      by_cases h : Path.parts c.path = Path.parts d.path
      · simp [samePath, h, absorb]
      · have h' : ¬Path.parts d.path = Path.parts c.path := fun e => h e.symm
        simp only [samePath, h, decide_false, Bool.false_eq_true, if_false, List.map_cons, ih,
          List.mem_cons, h', false_or]
        split <;> simp

theorem nodup_mergeInto {cs : List Change} {d : Change}
    (h : (cs.map (Path.parts ·.path)).Nodup) :
    ((mergeInto cs d).map (Path.parts ·.path)).Nodup := by
  rw [parts_mergeInto]
  split
  · exact h
  · rename_i hd
    rw [List.nodup_append]
    refine ⟨h, by simp, ?_⟩
    intro a ha b hb e
    rw [List.mem_singleton] at hb
    exact hd (hb ▸ e ▸ ha)

theorem nodup_foldl_mergeInto (ds : List Change) {cs : List Change}
    (h : (cs.map (Path.parts ·.path)).Nodup) :
    ((ds.foldl mergeInto cs).map (Path.parts ·.path)).Nodup := by
  induction ds generalizing cs with
  | nil => exact h
  | cons d ds ih => exact ih (nodup_mergeInto h)

theorem paths_merge_nodup (cs : List Change) : ((merge cs).map (Path.parts ·.path)).Nodup :=
  nodup_foldl_mergeInto cs (by simp)

end Laws

end Repository
end Decomment
