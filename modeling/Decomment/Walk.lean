import Decomment.Ignore.Level
import Decomment.Console

/-!
# Collecting files

A walk goes down from the root, into every directory that is let through, and yields the files that
are let through.  An entry is let through unless the ignore rules, its hidden name or an exclude
glob stop it.  A walk that is not recursive stays on the first level.

Every directory on the way to an entry is a level of ignore rules, and so is every directory above
the root.  The former are known by paths that start with the root as it was given, the latter by
their paths from the top.

**Results.**
* `mem_supported_iff`: the paths that are collected are the supported ones.
-/

namespace Decomment
namespace Walk

section Levels

/-- The path of the entry with some names below the root. -/
def pathBelow (root : String) (names : List String) : String :=
  if names.isEmpty then root else Path.join root ("/".intercalate names)

/-- The directories between the root and some files below it. -/
def directoriesOf (files : List (List String)) : List (List String) :=
  (files.flatMap fun names => Location.upward names.dropLast).eraseDups

/-- The directories above a location, nearest first. -/
def directoriesAbove (l : Location) : List Location :=
  if l.isEmpty then [] else Location.upward l.dropLast

/-- The ignore rules that a walk from a root meets. -/
structure Rules where
  root : String
  rootAt : Location
  /-- The levels from the root on, each with the names below the root. -/
  below : List (List String × Ignore.Level)
  /-- The levels above the root, nearest first. -/
  above : List Ignore.Level
  /-- What version control ignores everywhere. -/
  version : List Ignore.Rule
  /-- What we ignore everywhere. -/
  own : List Ignore.Rule

/-- The path of an entry as the levels above the root are given it: what follows the root is read
from where the root is. -/
def Rules.pathAbove (rs : Rules) (path : String) : String :=
  Path.join rs.rootAt.path
    (if Path.parts rs.root = [.here] then path else Ignore.dropBase (Ignore.dropDot rs.root) path)

/-- The levels from which an entry is seen, nearest first. -/
def Rules.sights (rs : Rules) (names : List String) : List Ignore.Sight :=
  let path := Ignore.dropDot (pathBelow rs.root names)
  ((Location.upward names.dropLast).filterMap fun d => (rs.below.lookup d).map (⟨·, path⟩))
    ++ rs.above.map (⟨·, rs.pathAbove path⟩)

/-- What the rules say of an entry.  Those that apply everywhere belong to the current
directory. -/
def Rules.verdict (rs : Rules) (cwd : Location) (names : List String) (isDirectory : Bool) :
    Option Ignore.Verdict :=
  let seen := Ignore.relativeTo cwd.path (Ignore.dropDot (pathBelow rs.root names))
  (Ignore.verdictOfAll (rs.sights names) isDirectory).or
    ((Ignore.verdict rs.version isDirectory seen).or (Ignore.verdict rs.own isDirectory seen))

end Levels

section Warnings

/-- The wording of some faults. -/
def describe (faults : List Ignore.Fault) : String :=
  "\n".intercalate (faults.map Ignore.Fault.message)

/-- The warning about the faults of an ignore file, if it has any. -/
def warnMalformed (path : String) (faults : List Ignore.Fault) : List Event :=
  if faults.isEmpty then []
  else [.log .warning ("ignoring malformed " ++ path ++ ": " ++ describe faults)]

/-- The warning about the faults of the levels above the root, outermost first. -/
def warnAbove (faults : List Ignore.Fault) : List Event :=
  if faults.isEmpty then [] else [.log .warning ("walk error: " ++ describe faults)]

end Warnings

section Excludes

/-- The patterns of exclude globs.  Blank ones do not count. -/
def readExcludes : List String → Except Failure (List (List Glob.Token))
  | [] => .ok []
  | p :: ps =>
      let t := Text.trim p.toList
      if t.isEmpty then readExcludes ps
      else
        match Glob.parse false t with
        | .error e => .error (.invalidExclude (String.ofList t) e)
        | .ok tokens =>
            match readExcludes ps with
            | .ok rest => .ok (tokens :: rest)
            | .error e => .error e

/-- The globs of exclude patterns, which are used together. -/
def excludeGlobs (patterns : List String) : Except Failure (List (List Glob.Token)) := do
  let globs ← readExcludes patterns
  match Glob.refusal false globs with
  | some e => .error (.unusableExcludes e)
  | none => .ok globs

/-- One of the globs matches the path. -/
def matchesAny (globs : List (List Glob.Token)) (path : String) : Bool :=
  globs.any fun g => Glob.matchesPath false g path

/-- The names below the root match a glob.  A directory that is not shown with a slash at its end
also matches with one. -/
def isExcluded (globs : List (List Glob.Token)) (names : List String) (isDirectory : Bool) :
    Bool :=
  let path := Path.display ("/".intercalate names)
  matchesAny globs path ||
    (isDirectory && path.toList.getLast? ≠ some '/' && matchesAny globs (path ++ "/"))

end Excludes

section Collecting

/-- How files are collected. -/
structure Options where
  isRecursive : Bool := false
  /-- Only our own ignore files are read. -/
  onlyOwn : Bool := false
  excludes : List String := []
deriving DecidableEq, Repr

def isHidden (names : List String) : Bool :=
  match names.getLast? with
  | some s => s.startsWith "."
  | none => false

/-- The ignore rules let the entry with some names below the root through. -/
def isAdmitted (rs : Rules) (cwd : Location) (names : List String) (isDirectory : Bool) : Bool :=
  match rs.verdict cwd names isDirectory with
  | some .ignored => false
  | some .admitted => true
  | none => !isHidden names

/-- The files that a walk finds through one entry of the directory with the names `passed`.  The
files of a directory are found by `below`. -/
def filesThrough (letsThrough : List String → Bool → Bool)
    (below : List String → List (List String)) (passed : List String) :
    String × Entry → List (List String)
  | (s, .file _) => if letsThrough (passed ++ [s]) false then [passed ++ [s]] else []
  | (s, .directory) => if letsThrough (passed ++ [s]) true then below (passed ++ [s]) else []

/-- The files that a walk finds in the directory with the names `passed`, going down at most
`depth` levels from there, as their names below the root. -/
def filesFrom (tree : Tree) (rootAt : Location) (letsThrough : List String → Bool → Bool) :
    (depth : Nat) → (passed : List String) → List (List String)
  | 0, _ => []
  | depth + 1, passed =>
      (tree.entriesIn (rootAt ++ passed)).flatMap
        (filesThrough letsThrough (filesFrom tree rootAt letsThrough depth) passed)

/-- The paths of the supported files among some, in order. -/
def supported (paths : List String) : List String :=
  Path.sort (paths.filter Path.isSupported)

/-- The notes on the files among some that are not supported, in order. -/
def noteUnsupported (paths : List String) : List Event :=
  Console.sortByError ((paths.filter fun p => !Path.isSupported p).map fun p =>
    .log .debug ("skipping unsupported file: " ++ p))

/-- The path of our ignore file for everything. -/
def everywherePath (home : String) : String :=
  Path.join (Path.join home ".config") Ignore.ownName

/-- The rules of our ignore file for everything, and the warning about its faults. -/
def ownEverywhere (tree : Tree) (place : Place) : List Ignore.Rule × List Event :=
  let path := everywherePath place.home
  match Ignore.readAt tree place.cwd path with
  | some read =>
      let (rules, faults) := Ignore.settle read
      (rules, warnMalformed path faults)
  | none => ([], [])

/-- The rules of the version control's ignore file for everything. -/
def versionEverywhere (tree : Tree) (place : Place) (onlyOwn : Bool) : List Ignore.Rule :=
  if onlyOwn then []
  else
    match Ignore.readAt tree place.cwd (Ignore.excludesPath tree place) with
    | some read => (Ignore.settle read).1
    | none => []

/-- The levels above a location, nearest first, and the faults of their files, outermost first.
Only directories from the root of a walk on count as those of repositories. -/
def levelsAbove (tree : Tree) (cwd : Location) (onlyOwn : Bool) (l : Location) :
    List Ignore.Level × List Ignore.Fault :=
  let ls := (directoriesAbove l).map fun d => Ignore.levelAt tree cwd onlyOwn d.path
  (ls.map fun (level, _) => { level with isRepository := false },
    ls.reverse.flatMap fun (_, faults) => faults)

/-- The levels between the root and some files below it. -/
def levelsBelow (tree : Tree) (cwd : Location) (onlyOwn : Bool) (root : String)
    (files : List (List String)) : List (List String × Ignore.Level) :=
  (directoriesOf files).map fun d => (d, (Ignore.levelAt tree cwd onlyOwn (pathBelow root d)).1)

/-- The ignore rules that a walk from a directory meets, and the faults of the files above it. -/
def rulesAt (tree : Tree) (place : Place) (root : String) (rootAt : Location) (onlyOwn : Bool) :
    Rules × List Ignore.Fault :=
  let files := (tree.filesBelow rootAt).map (·.1)
  let (above, faults) := levelsAbove tree place.cwd onlyOwn rootAt
  ({ root, rootAt, above
     below := levelsBelow tree place.cwd onlyOwn root files
     version := versionEverywhere tree place onlyOwn
     own := (ownEverywhere tree place).1 }, faults)

/-- The names below the root of the files that a walk yields. -/
def reached (tree : Tree) (rs : Rules) (cwd : Location) (isRecursive : Bool)
    (globs : List (List Glob.Token)) : List (List String) :=
  let letsThrough (names : List String) (isDirectory : Bool) : Bool :=
    isAdmitted rs cwd names isDirectory && !isExcluded globs names isDirectory
  filesFrom tree rs.rootAt letsThrough (if isRecursive then tree.height else 1) []

/-- The path stands for the standard input, which has no files below it. -/
def isStandardInput (root : String) : Bool :=
  Path.parts root = [.name "-"]

/-- The supported files that a walk from the root yields, as paths that start with the root, in
order, and what is said meanwhile. -/
def collect (tree : Tree) (place : Place) (root : String) (options : Options) :
    Except Failure (List String × List Event) := do
  let globs ← excludeGlobs options.excludes
  let warnings := (ownEverywhere tree place).2
  if isStandardInput root then .ok ([], warnings)
  else
    match tree.stat place.cwd root with
    | .error _ => .ok ([], warnings)
    | .ok (_, .file _) => .ok (supported [root], warnings ++ noteUnsupported [root])
    | .ok (rootAt, .directory) =>
        let (rs, faults) := rulesAt tree place root rootAt options.onlyOwn
        let paths := (reached tree rs place.cwd options.isRecursive globs).map (pathBelow root)
        .ok (supported paths, warnings ++ warnAbove faults ++ noteUnsupported paths)

end Collecting

section Laws

theorem mem_supported_iff {p : String} {paths : List String} :
    p ∈ supported paths ↔ p ∈ paths ∧ Path.isSupported p = true := by
  simp [supported, Path.sort]

end Laws

end Walk
end Decomment
