import Decomment.CommandLine

/-!
# The program

The files that a command may read are gathered into a tree, the command is carried out on the
tree, and the files that differ afterwards are written.  Everything else is decided elsewhere.

The version control program is not started from here, so that every question to it fails.
-/

namespace Decomment
namespace Shell

/-- How deep directories are read. -/
def maxDepth : Nat :=
  64

/-- The names in a path of the operating system. -/
def locationOf (path : String) : Location :=
  (Path.pieces path).filter (· ≠ "")

/-- The tree with the file or directory at a location, if there is one. -/
def gather (t : Tree) (l : Location) : IO Tree := do
  let p := (← IO.currentDir) / l.path
  if ← p.isDir then
    return t.putDirectories [] l
  else if ← p.pathExists then
    return (t.putDirectories [] l.dropLast).put l (.file (← IO.FS.readBinFile p))
  else
    return t

/-- The tree with all that stands below a location, down to a depth. -/
def gatherBelow (t : Tree) (l : Location) : (depth : Nat) → IO Tree
  | 0 => return t
  | depth + 1 => do
      let mut t ← gather t l
      let p := (← IO.currentDir) / l.path
      if ← p.isDir then
        for e in ← p.readDir do
          t ← gatherBelow t (l ++ [e.fileName]) depth
      return t

/-- The names of the files in a directory that decide how files below it are processed. -/
def settingNames : List (List String) :=
  [[Configuration.fileName], [Ignore.ownName], [".ignore"], [".gitignore"],
    locationOf (Path.join Ignore.storeName Ignore.storedName)]
    ++ Ignore.repositoryMarks.map ([·])

/-- The locations, other than those of the files to process, that a command may read. -/
def settingLocations (place : Place) (root : Location) : List Location :=
  let above := (place.cwd.upward ++ root.upward).flatMap fun d => settingNames.map (d ++ ·)
  let home := [[".claude", "settings.json"], [".config", Configuration.fileName],
    [".config", Ignore.ownName]].map (locationOf place.home ++ ·)
  above ++ home ++ (Ignore.settingsPaths place.home).map locationOf
    ++ [place.cwd ++ [".claude", "settings.json"]]

/-- The paths of files that others in the tree point to. -/
def pointedTo (place : Place) (t : Tree) (directories : List Location) : List String :=
  Ignore.excludesPath t place :: directories.flatMap fun d =>
    match Ignore.pointer t place.cwd (Path.join d.path Ignore.storeName) with
    | .ok (some line) =>
        let store := String.ofList ((Ignore.dropStart "gitdir: ".toList line).getD [])
        match Ignore.sharedStore t place.cwd store with
        | .ok (some shared) => [Path.join shared Ignore.storedName]
        | _ => [Path.join store "commondir"]
    | _ => []

/-- The location at which a path ends, where relative paths start from the current directory. -/
def locate (place : Place) (path : String) : Location :=
  (Path.pieces path).foldl Tree.descend (if Path.isAbsolute path then [] else place.cwd)

/-- The tree of all that a command with some words may read. -/
def gatherAll (place : Place) (words : List String) : IO Tree := do
  let targets := (words.filter fun w => !CommandLine.looksLikeName w).map (locate place)
  let mut t : Tree := Tree.empty.putDirectories [] place.cwd
  for l in targets do
    t ← gatherBelow t l maxDepth
    for m in settingLocations place l do
      t ← gather t m
  for m in settingLocations place place.cwd do
    t ← gather t m
  for _ in [Ignore.storeName, Ignore.storedName] do
    let directories := t.nodes.entries.map fun (l, _) => l.dropLast
    for p in pointedTo place t directories.eraseDups do
      t ← gather t (locate place p)
  return t

/-- Writes the files of the second tree that differ from those of the first. -/
def writeChanges (before after : Tree) : IO Unit := do
  for (names, b) in after.filesBelow [] do
    unless before.fileAt names == some b do
      let l : Location := names
      IO.FS.createDirAll (Location.path l.dropLast)
      IO.FS.writeBinFile l.path b

/-- Colours are wanted: they are asked for, or the output goes to a terminal. -/
def wantsColor : IO Bool := do
  let forced := (← IO.getEnv "CLICOLOR_FORCE").any (· ≠ "0")
  let refused := (← IO.getEnv "NO_COLOR").isSome
  return forced || (!refused && (← (← IO.getStdout).isTty))

/-- What is said to those who ask for help. -/
def help : Text :=
  "Remove comments from source code files

Usage: shush [OPTIONS] [PATH]

  --inline, --block              only line comments, only block comments
  -r, --recursive                process directories recursively
  --dry-run, -c N                show what would change, with N lines of context
  --backup                       keep the old file with the ending .bak
  --preserve-lines               keep lines that held nothing but a comment
  -E, --exclude GLOB             leave out what matches
  --no-gitignore                 do not read .gitignore and .ignore files
  --changes-only, --staged, --unstaged
                                 only lines that changed in git
  --install-hook, --uninstall-hook, --list-hooks, --hook-status, -s SCOPE
                                 editor hooks of the user or the project
  --config, --create-config      show the configuration, write an example
  --verbose, -h, -V              detailed output, this help, the version
".toList

/-- Carries out the words of a command line. -/
def run (words : List String) : IO UInt32 := do
  let cwd := locationOf (← IO.currentDir).toString
  let place : Place := ⟨cwd, (← IO.getEnv "HOME").getD "/"⟩
  let tree ← gatherAll place words
  let git : VersionControl := fun _ => .error .notFound
  let done := CommandLine.execute tree place git (← wantsColor) help words
  writeChanges tree done.tree
  (← IO.getStdout).putStr (String.ofList done.output)
  (← IO.getStderr).putStr (String.ofList done.errors)
  return UInt32.ofNat done.code

end Shell
end Decomment

/-- The program. -/
def main (words : List String) : IO UInt32 :=
  Decomment.Shell.run words
