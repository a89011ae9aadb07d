import Decomment.Editor.Format
import Decomment.Console

/-!
# Commands on hooks

There are two settings files, one of the user and one of the project in the current directory.
A command reads the files it needs and writes at most the one of its scope, in a directory that is
made for it if it is missing.

**Results.**
* `load_of_missing`: a file that does not exist stands for empty settings.
-/

namespace Decomment
namespace Editor

/-- Whose settings are meant. -/
inductive Scope
  | user
  | project
deriving DecidableEq, Repr

def Scope.label : Scope → String
  | user => "user-wide"
  | project => "project"

section Files

/-- The directory of a settings file. -/
def registryDirectory (place : Place) : Scope → String
  | .user => Path.join place.home ".claude"
  | .project => Path.join place.cwd.path ".claude"

/-- The path of a settings file. -/
def registryPath (place : Place) (scope : Scope) : String :=
  Path.join (registryDirectory place scope) "settings.json"

/-- The settings in a file.  A missing file has none. -/
def load (tree : Tree) (cwd : Location) (path : String) : Except Failure Registry :=
  match tree.readText cwd path with
  | .ok t =>
      match Registry.ofText t with
      | some s => .ok s
      | none => .error (.settingsInvalid path)
  | .error .notFound => .ok .empty
  | .error e => .error (.settingsUnreadable path e)

/-- Writes the settings of a scope, whose directory is made if it is missing.  A failure can leave
directories behind. -/
def save (tree : Tree) (place : Place) (scope : Scope) (s : Registry) : Tree × Option Failure :=
  let directory := registryDirectory place scope
  match tree.makeDirectories place.cwd directory with
  | (tree, some e) => (tree, some (.directoryNotCreated directory e))
  | (tree, none) =>
      match tree.writeText place.cwd (registryPath place scope) s.toText with
      | .error e => (tree, some (.settingsUnwritable (registryPath place scope) e))
      | .ok tree => (tree, none)

/-- The settings of a scope can be read and have our hook. -/
def isInstalledAt (tree : Tree) (place : Place) (scope : Scope) : Bool :=
  match load tree place.cwd (registryPath place scope) with
  | .ok s => s.isInstalled
  | .error _ => false

theorem load_of_missing {tree : Tree} {cwd : Location} {path : String}
    (h : tree.readText cwd path = .error .notFound) : load tree cwd path = .ok .empty := by
  simp [load, h]

end Files

section Commands

/-- The path at which our hook is in the way of an installation. -/
def conflict (tree : Tree) (place : Place) (scope : Scope) : Option String :=
  if isInstalledAt tree place .user then some (registryPath place .user)
  else if scope = .project && isInstalledAt tree place .project then
    some (registryPath place .project)
  else none

/-- What is said of project hooks when the hook is installed for the user. -/
def besideProject (tree : Tree) (place : Place) (scope : Scope) : List Event :=
  if scope = .user && isInstalledAt tree place .project then
    [.say ("ℹ  Project-specific hooks found at " ++ registryPath place .project),
     .say "   User-wide hooks will run in addition to project hooks"]
  else []

/-- Installs our hook in a scope. -/
def install (tree : Tree) (place : Place) (scope : Scope) : Report :=
  match conflict tree place scope with
  | some path => ⟨tree, [], some (.hookAlreadyInstalled path)⟩
  | none =>
      let events := besideProject tree place scope
      let path := registryPath place scope
      match load tree place.cwd path with
      | .error e => ⟨tree, events, some e⟩
      | .ok s =>
          match save tree place scope (s.add.getD s) with
          | (tree, some e) => ⟨tree, events, some e⟩
          | (tree, none) =>
              ⟨tree, events ++
                [.say ("✓ Hooks installed for " ++ scope.label ++ " scope at " ++ path),
                 .say "  Auto-cleanup will run after files are modified"], none⟩

/-- Takes our hook out of a scope. -/
def uninstall (tree : Tree) (place : Place) (scope : Scope) : Report :=
  let path := registryPath place scope
  match load tree place.cwd path with
  | .error e => ⟨tree, [], some e⟩
  | .ok s =>
      match s.remove with
      | none => ⟨tree, [], some (.hookNotFound path)⟩
      | some s =>
          match save tree place scope s with
          | (tree, some e) => ⟨tree, [], some e⟩
          | (tree, none) =>
              ⟨tree, [.say ("✓ Hooks uninstalled for " ++ scope.label ++ " scope at " ++ path)],
                none⟩

/-- What is listed for a scope. -/
def listingOf (tree : Tree) (place : Place) (scope : Scope) : List Event :=
  let path := registryPath place scope
  let body : List Event :=
    match load tree place.cwd path with
    | .error e => [.say ("  Unreadable: " ++ e.message)]
    | .ok s =>
        if s.listing.isEmpty then [.say "  No hooks configured"]
        else
          s.listing.map (fun (event, matcher, command) =>
            .say ("  ✓ " ++ command ++ " (" ++ event ++ ": " ++ matcher ++ ")"))
          ++ (if s.isInstalled then [] else [.say "  (No shush hooks found)"])
  .say (scope.label ++ " (" ++ path ++ "):") :: body

/-- Lists the hooks of both scopes. -/
def list (tree : Tree) (place : Place) : Report :=
  ⟨tree, .say "Hooks configuration:" ::
    (listingOf tree place .user ++ listingOf tree place .project), none⟩

/-- One line on our hook in a scope. -/
def statusOf (tree : Tree) (place : Place) (scope : Scope) : Event :=
  let path := registryPath place scope
  let state :=
    match load tree place.cwd path with
    | .ok s => if s.isInstalled then "✓ Installed" else "Not installed"
    | .error _ => "Not configured"
  .say (scope.label ++ " (" ++ path ++ "): " ++ state)

/-- What follows from where our hook is installed. -/
def advice (user project : Bool) : List Event :=
  match user, project with
  | true, true =>
      [.say "\n⚠  Both user-wide and project hooks are installed",
       .say "   shush will run twice on every file modification",
       .say "   Consider: shush --uninstall-hook -s project"]
  | true, false => [.say "\n✓ User-wide hooks cover all projects"]
  | false, true => [.say "\n✓ Project-specific hooks active for this project only"]
  | false, false => []

/-- Tells in which scopes our hook is installed. -/
def status (tree : Tree) (place : Place) : Report :=
  ⟨tree, .say "Shush hooks status:" :: statusOf tree place .user ::
    statusOf tree place .project ::
    advice (isInstalledAt tree place .user) (isInstalledAt tree place .project), none⟩

end Commands

end Editor
end Decomment
