import Decomment.Toml.Document
import Decomment.Keep
import Decomment.Tree

/-!
# Configuration

A configuration names the preserve patterns and the number of context lines of a preview.  It is
the nearest file of three: in the current directory, at the root of the repository, in the home
directory.  Without patterns of its own, the default patterns hold.

**Results.**
* `patterns_ne_nil`: a configuration that was read has patterns.
-/

namespace Decomment

/-- The preserve patterns, and the number of lines shown around a change. -/
structure Configuration where
  preserve : List String
  contextLines : Nat
deriving DecidableEq, Repr

namespace Configuration

section Reading

/-- The configuration where there is no file. -/
def default : Configuration :=
  ⟨Keep.defaults.map String.ofList, 0⟩

/-- A string. -/
def readPattern : Toml.Node → Option String
  | .string s => some s
  | _ => none

/-- The patterns that a member names, if it is there. -/
def readPatterns : Option Toml.Node → Option (List String)
  | none => some []
  | some (.array vs) => vs.mapM readPattern
  | some _ => none

/-- The number of lines that a member names, if it is there. -/
def readLines : Option Toml.Node → Option Nat
  | none => some 0
  | some (.integer n) => if 0 ≤ n then some n.toNat else none
  | some _ => none

/-- The configuration that a table stands for.  Other members do not matter. -/
def ofTable (t : Toml.Table) : Option Configuration := do
  let patterns ← readPatterns (t.lookup "preserve")
  let lines ← readLines (t.lookup "context_lines")
  return ⟨if patterns.isEmpty then default.preserve else patterns, lines⟩

/-- The configuration that a text stands for. -/
def ofText (t : Text) : Option Configuration :=
  (Toml.read t).bind ofTable

def patterns (c : Configuration) : List Text :=
  c.preserve.map String.toList

theorem patterns_ne_nil {t : Toml.Table} {c : Configuration} (h : ofTable t = some c) :
    c.patterns ≠ [] := by
  simp only [ofTable, Option.bind_eq_bind, Option.bind_eq_some_iff] at h
  obtain ⟨ps, -, n, -, h⟩ := h
  obtain rfl := Option.some.inj h
  cases ps <;> simp [patterns, default, Keep.defaults]

end Reading

section Files

/-- The name of a configuration file. -/
def fileName : String :=
  ".shush.toml"

def load (tree : Tree) (cwd : Location) (path : String) : Except Failure Configuration := do
  match tree.readText cwd path with
  | .error e => throw (.configUnreadable path e)
  | .ok t =>
      match ofText t with
      | some c => .ok c
      | none => throw (.configInvalid path)

/-- The nearest directory at or above the location that holds a repository. -/
def repositoryRoot (tree : Tree) (l : Location) : Option Location :=
  l.upward.find? fun m => (tree.find (m ++ [".git"])).isSome

/-- The path of the configuration for the whole home directory. -/
def globalPath (home : String) : String :=
  Path.join (Path.join home ".config") fileName

/-- The paths where a configuration may be, nearest first. -/
def candidates (tree : Tree) (place : Place) : List String :=
  [Path.join place.cwd.path fileName]
    ++ ((repositoryRoot tree place.cwd).map fun root => Path.join root.path fileName).toList
    ++ [globalPath place.home]

/-- The path of the nearest configuration. -/
def find (tree : Tree) (place : Place) : Option String :=
  (candidates tree place).find? fun p => (tree.locateFile place.cwd p).isSome

/-- The nearest configuration, or the default one, with the path of its file. -/
def loadNearest (tree : Tree) (place : Place) : Except Failure (Configuration × Option String) :=
  match find tree place with
  | some p => (load tree place.cwd p).map (·, some p)
  | none => .ok (default, none)

end Files

end Configuration
end Decomment
