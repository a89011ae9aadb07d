import Decomment.Ignore.Exclude

/-!
# Levels of ignore rules

Each directory on the way to an entry is a level with rules of several kinds, in the order of
their rank.  Within a kind the nearest level with a verdict counts.  What version control says
does not reach into a repository from outside.

**Results.**
* `verdictOfKind_cons`: the nearest level is asked first.
-/

namespace Decomment
namespace Ignore

section Kinds

/-- A kind of ignore rules for a directory. -/
inductive Kind
  | own
  | plain
  | version
  | exclude
deriving DecidableEq, Repr

/-- The kinds in the order of their rank. -/
def Kind.all : List Kind :=
  [own, plain, version, exclude]

/-- The kind belongs to version control. -/
def Kind.isVersioned : Kind → Bool
  | own | plain => false
  | version | exclude => true

/-- The name of our own ignore files. -/
def ownName : String :=
  ".shushignore"

end Kinds

section Levels

/-- The rules that apply below a directory, which is known by a path. -/
structure Level where
  path : String
  own : List Rule
  plain : List Rule
  version : List Rule
  exclude : List Rule
  /-- The directory is that of a repository. -/
  isRepository : Bool

def Level.rules (l : Level) : Kind → List Rule
  | .own => l.own
  | .plain => l.plain
  | .version => l.version
  | .exclude => l.exclude

/-- The faults that are worth a warning: a line that is no text is not, if it is the only one. -/
def reported (faults : List Fault) : List Fault :=
  match faults with
  | [.line _ _ .notText] => []
  | faults => faults

/-- The rules and the faults of the file at a path.  It need not exist. -/
def levelFile (tree : Tree) (cwd : Location) (path : String) : List Rule × List Fault :=
  match readAt tree cwd path with
  | some (rules, faults) => settle (rules, reported faults)
  | none => ([], [])

/-- The rules and the faults of the exclude file for a directory. -/
def levelExclude (tree : Tree) (cwd : Location) (path : String) : List Rule × List Fault :=
  match storeOf tree cwd path with
  | .error e => ([], [e])
  | .ok none => ([], [])
  | .ok (some store) => levelFile tree cwd (Path.join store storedName)

/-- The level of the directory at a path, and the faults of its files. -/
def levelAt (tree : Tree) (cwd : Location) (onlyOwn : Bool) (path : String) :
    Level × List Fault :=
  let file (name : String) := levelFile tree cwd (Path.join path name)
  let (own, ownFaults) := file ownName
  if onlyOwn then (⟨path, own, [], [], [], false⟩, ownFaults)
  else
    let (plain, plainFaults) := file ".ignore"
    let (version, versionFaults) := file ".gitignore"
    let (exclude, excludeFaults) := levelExclude tree cwd path
    (⟨path, own, plain, version, exclude, isRepository tree cwd path⟩,
      ownFaults ++ plainFaults ++ versionFaults ++ excludeFaults)

end Levels

section Verdicts

/-- A level, and the path of an entry as it is given there. -/
structure Sight where
  level : Level
  path : String

/-- The levels up to the nearest repository. -/
def upToRepository : List Sight → List Sight
  | [] => []
  | s :: ss => s :: if s.level.isRepository then [] else upToRepository ss

/-- What the rules of a kind at a level say. -/
def Sight.verdict (s : Sight) (isDirectory : Bool) (kind : Kind) : Option Verdict :=
  Ignore.verdict (s.level.rules kind) isDirectory (relativeTo s.level.path s.path)

/-- What the rules of a kind say of an entry that is seen from some levels, nearest first. -/
def verdictOfKind (ss : List Sight) (isDirectory : Bool) (kind : Kind) : Option Verdict :=
  (if kind.isVersioned then upToRepository ss else ss).findSome? (·.verdict isDirectory kind)

/-- What the rules of all kinds say. -/
def verdictOfAll (ss : List Sight) (isDirectory : Bool) : Option Verdict :=
  Kind.all.findSome? (verdictOfKind ss isDirectory)

theorem verdictOfKind_cons {s : Sight} {ss : List Sight} {isDirectory : Bool} {kind : Kind}
    {v : Verdict} (h : s.verdict isDirectory kind = some v) :
    verdictOfKind (s :: ss) isDirectory kind = some v := by
  rw [verdictOfKind, upToRepository]
  split <;> simp [h]

end Verdicts

end Ignore
end Decomment
