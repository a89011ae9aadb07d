import Decomment.Run
import Decomment.Configuration.Commands
import Decomment.Editor.Commands

/-!
# The command line

Words are read from left to right, and the first that makes no sense ends the reading, as does a
call for help or for the version.  Flags and options stand once; only excludes may be repeated.
A word after two dashes is a path, whatever it looks like.

Some combinations make no sense though each word does; these are refused afterwards.

**Results.**
* `findConflict_eq_none`: with nothing but a path, nothing is refused.
-/

namespace Decomment
namespace CommandLine

section Words

/-- A flag. -/
inductive Flag
  | inlineOnly
  | blockOnly
  | recursive
  | dryRun
  | backup
  | verbose
  | keepLines
  | noGitignore
  | changesOnly
  | staged
  | unstaged
  | installHook
  | uninstallHook
  | listHooks
  | hookStatus
  | config
  | createConfig
deriving DecidableEq, Repr

/-- An option that takes a value. -/
inductive Valued
  | contextLines
  | exclude
  | hookScope
deriving DecidableEq, Repr

/-- What a name on the command line stands for. -/
inductive Meaning
  | flag (f : Flag)
  | option (o : Valued)
  | help
  | version
deriving DecidableEq, Repr

def longNames : List (String × Meaning) :=
  [("inline", .flag .inlineOnly), ("block", .flag .blockOnly), ("recursive", .flag .recursive),
   ("dry-run", .flag .dryRun), ("backup", .flag .backup), ("verbose", .flag .verbose),
   ("preserve-lines", .flag .keepLines), ("context-lines", .option .contextLines),
   ("exclude", .option .exclude), ("no-gitignore", .flag .noGitignore),
   ("changes-only", .flag .changesOnly), ("staged", .flag .staged),
   ("unstaged", .flag .unstaged), ("install-hook", .flag .installHook),
   ("uninstall-hook", .flag .uninstallHook), ("list-hooks", .flag .listHooks),
   ("hook-status", .flag .hookStatus), ("hook-scope", .option .hookScope),
   ("config", .flag .config), ("create-config", .flag .createConfig), ("help", .help),
   ("version", .version)]

def shortNames : List (Char × Meaning) :=
  [('r', .flag .recursive), ('c', .option .contextLines), ('E', .option .exclude),
   ('s', .option .hookScope), ('h', .help), ('V', .version)]

/-- The words of a command line, read. -/
structure Arguments where
  flags : List Flag := []
  path : Option String := none
  contextLines : Option Nat := none
  excludes : List String := []
  hookScope : Option Editor.Scope := none
deriving DecidableEq, Repr

/-- What a command line asks for. -/
inductive Parsed
  | arguments (a : Arguments)
  | help
  | version
  | invalid
deriving DecidableEq, Repr

end Words

namespace Arguments

def has (a : Arguments) (f : Flag) : Bool :=
  a.flags.contains f

/-- The arguments with one more flag. -/
def addFlag (a : Arguments) (f : Flag) : Option Arguments :=
  if a.has f then none else some { a with flags := f :: a.flags }

def readScope (s : String) : Option Editor.Scope :=
  if s = "user" then some .user else if s = "project" then some .project else none

/-- The arguments with the value of an option. -/
def addValue (a : Arguments) (o : Valued) (v : String) : Option Arguments :=
  match o with
  | .contextLines =>
      if a.contextLines.isSome then none
      else (Text.readCount v.toList).map fun n => { a with contextLines := some n }
  | .exclude =>
      some { a with excludes := a.excludes ++ (v.toList.splitOn ',').map String.ofList }
  | .hookScope =>
      if a.hookScope.isSome then none
      else (readScope v).map fun s => { a with hookScope := some s }

def addPath (a : Arguments) (p : String) : Option Arguments :=
  if a.path.isSome || p = "" then none else some { a with path := some p }

end Arguments

section Reading

/-- Where reading stands after a word. -/
inductive Progress
  | ready (a : Arguments)
  | wants (a : Arguments) (o : Valued)
  | stop (p : Parsed)

/-- Goes on with arguments, if there are any. -/
def Progress.ofOption : Option Arguments → Progress
  | some a => .ready a
  | none => .stop .invalid

/-- The word is a name, and no value or path. -/
def looksLikeName (w : String) : Bool :=
  w.startsWith "-" && w ≠ "-"

/-- Reads the letters after one dash. -/
def readLetters (a : Arguments) : List Char → Progress
  | [] => .ready a
  | c :: cs =>
      match shortNames.lookup c with
      | none => .stop .invalid
      | some .help => .stop .help
      | some .version => .stop .version
      | some (.flag f) =>
          match a.addFlag f with
          | some a => readLetters a cs
          | none => .stop .invalid
      | some (.option o) =>
          match cs with
          | [] => .wants a o
          | '=' :: v => .ofOption (a.addValue o (String.ofList v))
          | v => .ofOption (a.addValue o (String.ofList v))

/-- Reads the letters after two dashes: a name, and perhaps a value after an equals sign. -/
def readLong (a : Arguments) (t : List Char) : Progress :=
  let value :=
    match t.dropWhile (· != '=') with
    | _ :: v => some (String.ofList v)
    | [] => none
  match longNames.lookup (String.ofList (t.takeWhile (· != '='))), value with
  | none, _ => .stop .invalid
  | some (.option o), some v => .ofOption (a.addValue o v)
  | some (.option o), none => .wants a o
  | some _, some _ => .stop .invalid
  | some (.flag f), none => .ofOption (a.addFlag f)
  | some .help, none => .stop .help
  | some .version, none => .stop .version

/-- Reads a word that may be a name. -/
def readWord (a : Arguments) (w : String) : Progress :=
  match w.toList with
  | '-' :: '-' :: t => readLong a t
  | '-' :: c :: t => readLetters a (c :: t)
  | _ => .ofOption (a.addPath w)

/-- Reads words that are all paths. -/
def readPaths (a : Arguments) : List String → Parsed
  | [] => .arguments a
  | w :: ws =>
      match a.addPath w with
      | some a => readPaths a ws
      | none => .invalid

mutual

/-- Reads words. -/
def readWords (a : Arguments) : List String → Parsed
  | [] => .arguments a
  | w :: ws =>
      if w = "--" then readPaths a ws
      else
        match readWord a w with
        | .ready a => readWords a ws
        | .wants a o => readValue a o ws
        | .stop p => p

/-- Reads the value of an option, and the words after it. -/
def readValue (a : Arguments) (o : Valued) : List String → Parsed
  | [] => .invalid
  | w :: ws =>
      if looksLikeName w then .invalid
      else
        match a.addValue o w with
        | some a => readWords a ws
        | none => .invalid

end

/-- Reads the words of a command line. -/
def parse (ws : List String) : Parsed :=
  readWords {} ws

end Reading

section Requests

namespace Arguments

/-- The flags that ask for something other than processing. -/
def utilities : List Flag :=
  [.installHook, .uninstallHook, .listHooks, .hookStatus, .config, .createConfig]

/-- The flags that have no meaning beside those. -/
def processing : List Flag :=
  [.recursive, .inlineOnly, .blockOnly, .dryRun, .backup, .verbose]

/-- The flags that ask for changes in a repository. -/
def scopes : List Flag :=
  [.changesOnly, .staged, .unstaged]

/-- The number of flags among some that are set. -/
def countOf (a : Arguments) (fs : List Flag) : Nat :=
  fs.countP a.has

/-- What is wrong with the combination of the arguments, if anything. -/
def findConflict (a : Arguments) : Option UsageError :=
  let asked := a.countOf utilities
  let inGit := a.countOf scopes
  if 1 < asked then some .severalUtilities
  else if 0 < asked then
    if 0 < a.countOf processing then some .utilityWithProcessing
    else if 0 < inGit then some .utilityWithGit
    else none
  else if 1 < inGit then some .severalGitScopes
  else if 0 < inGit && a.path.isSome then some .gitWithPath
  else if 0 < inGit && a.has .recursive then some .gitWithRecursive
  else if inGit = 0 && a.path.isNone then some .noPath
  else if a.has .inlineOnly && a.has .blockOnly then some .inlineAndBlock
  else none

def mode (a : Arguments) : Mode :=
  if a.has .inlineOnly then .lineOnly else if a.has .blockOnly then .blockOnly else .both

def target (a : Arguments) : Option Subject :=
  if a.has .changesOnly then some (.changes .all)
  else if a.has .staged then some (.changes .staged)
  else if a.has .unstaged then some (.changes .unstaged)
  else a.path.map .path

/-- The run that the arguments ask for. -/
def request (a : Arguments) (target : Subject) : RunRequest where
  target := target
  walk := ⟨a.has .recursive, a.has .noGitignore, a.excludes⟩
  options := ⟨a.mode, a.has .keepLines⟩
  dryRun := a.has .dryRun
  backup := a.has .backup
  contextLines := a.contextLines

/-- Carries out what the arguments ask for. -/
def perform (a : Arguments) (tree : Tree) (place : Place) (git : VersionControl) : Report :=
  let scope := a.hookScope.getD .user
  match a.findConflict with
  | some e => ⟨tree, [], some (.usage e)⟩
  | none =>
      if a.has .installHook then Editor.install tree place scope
      else if a.has .uninstallHook then Editor.uninstall tree place scope
      else if a.has .listHooks then Editor.list tree place
      else if a.has .hookStatus then Editor.status tree place
      else if a.has .config then Configuration.list tree place
      else if a.has .createConfig then Configuration.create tree place
      else
        match a.target with
        | some target => Run.run tree place git (a.request target)
        | none => ⟨tree, [], some (.usage .noPath)⟩

theorem findConflict_eq_none (p : String) : findConflict { path := some p } = none := by
  rfl

end Arguments

end Requests

section Execution

/-- What a command leaves behind: the tree, its two outputs and its exit code. -/
structure Execution where
  tree : Tree
  output : Text
  errors : Text
  code : Nat

/-- The line that tells the version. -/
def versionLine : Text :=
  "shush 0.2.0\n".toList

/-- The outputs and the exit code of a report. -/
def conclude (color verbose : Bool) (r : Report) : Execution :=
  let complaint : List Event :=
    match r.failure with
    | some e => [.complain ("Error: " ++ e.message)]
    | none => []
  let events := r.events ++ complaint
  ⟨r.tree, Console.output color events, Console.errors verbose events,
    if r.failure.isSome then 1 else 0⟩

/-- Carries out a command line.  Help goes to standard output; for words that make no sense
nothing is done. -/
def execute (tree : Tree) (place : Place) (git : VersionControl) (color : Bool) (help : Text)
    (ws : List String) : Execution :=
  match parse ws with
  | .arguments a => conclude color (a.has .verbose) (a.perform tree place git)
  | .version => ⟨tree, versionLine, [], 0⟩
  | .help => ⟨tree, help, [], 0⟩
  | .invalid => ⟨tree, [], [], 2⟩

end Execution

end CommandLine
end Decomment
