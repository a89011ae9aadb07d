import Decomment.Repository
import Mathlib.Data.List.Basic
import Mathlib.Data.List.Induction

/-!
# Merged changes

Changes are merged one at a time: a change joins the one of its path that is already there, or comes
last.  So the merged changes have the paths of all changes, each where it was first met, and a merged
change is the sum of the changes of its path.  A sum has the lines of all its parts, and the
whole file is a sum's only if it is that of a part.

**Results.**
* `mem_mergeInto_cases`: what becomes of the merged changes when one more comes.
* `isSum_absorb`: a change that joins a sum is one more part of it.
* `pairwise_idxOf_merge`: the paths stand where they were first met.
* `merge_sums`: merging loses nothing and makes up nothing.
-/

namespace Decomment
namespace Repository

section Defs

/-- The paths of some changes, each as its parts. -/
def paths (cs : List Change) : List (List Path.Part) :=
  cs.map fun c => Path.parts c.path

/-- The changes of the path of `e`, in their order. -/
def changesOf (e : Change) (cs : List Change) : List Change :=
  cs.filter fun c => samePath e c

/-- The change `e` is what the changes `ds` come to together. -/
structure IsSum (e : Change) (ds : List Change) : Prop where
  /-- It is written as the first of them is, and has its status unless one is untracked. -/
  first : ∃ d, ds.head? = some d ∧ e.path = d.path ∧
    ((∀ c ∈ ds, c.status ≠ .untracked) → e.status = d.status)
  untracked : e.status = .untracked ↔ ∃ c ∈ ds, c.status = .untracked
  includes : ∀ n, e.selection.includes n = true ↔ ∃ c ∈ ds, c.selection.includes n = true
  isAll : e.selection.isAll = true ↔ ∃ c ∈ ds, c.selection.isAll = true

end Defs

section Steps

variable {cs ds : List Change} {c d e : Change}

theorem samePath_iff : samePath c d = true ↔ Path.parts c.path = Path.parts d.path := by
  simp [samePath]

theorem merge_concat (cs : List Change) (d : Change) :
    merge (cs ++ [d]) = mergeInto (merge cs) d := by
  simp [merge]

/-- A change alone is the sum of itself. -/
theorem isSum_singleton (d : Change) : IsSum d [d] where
  first := ⟨d, rfl, rfl, fun _ => rfl⟩
  untracked := by simp
  includes := by simp
  isAll := by simp

theorem exists_mem_concat {P : Change → Prop} (ds : List Change) (d : Change) :
    (∃ c ∈ ds ++ [d], P c) ↔ (∃ c ∈ ds, P c) ∨ P d := by
  simp only [List.mem_append, List.mem_singleton, or_and_right, exists_or, exists_eq_left]

/-- A change that joins a sum is one more part of it. -/
theorem isSum_absorb (h : IsSum e ds) (d : Change) : IsSum (absorb e d) (ds ++ [d]) where
  first := by
    obtain ⟨c, hc, hpath, hstatus⟩ := h.first
    refine ⟨c, ?_, hpath, fun tracked => ?_⟩
    · rw [List.head?_append, hc, Option.some_or]
    · have last : d.status ≠ .untracked := tracked d (by simp)
      rw [absorb, if_neg last]
      exact hstatus fun b hb => tracked b (List.mem_append_left _ hb)
  untracked := by
    rw [exists_mem_concat, ← h.untracked]
    by_cases hd : d.status = .untracked <;> simp [absorb, hd]
  includes n := by
    rw [exists_mem_concat, ← h.includes n, absorb, Selection.includes_union, Bool.or_eq_true]
  isAll := by
    rw [exists_mem_concat, ← h.isAll, absorb, Selection.isAll_union, Bool.or_eq_true]

/-- When one more change comes, the merged changes of other paths stay, and the one of its path
takes it in, or else it comes in itself. -/
theorem mem_mergeInto_cases (hcs : (paths cs).Nodup) (h : e ∈ mergeInto cs d) :
    (e ∈ cs ∧ samePath e d = false) ∨
      (∃ c ∈ cs, samePath c d = true ∧ e = absorb c d) ∨
        (e = d ∧ ∀ c ∈ cs, samePath c d = false) := by
  induction cs with
  | nil => exact .inr (.inr ⟨List.mem_singleton.1 h, nofun⟩)
  | cons c cs ih =>
      obtain ⟨fresh, nodup⟩ := List.nodup_cons.1 hcs
      rw [mergeInto] at h
      cases hc : samePath c d with
      | true =>
          rw [hc, if_pos rfl] at h
          rcases List.mem_cons.1 h with rfl | h
          · exact .inr (.inl ⟨c, List.mem_cons_self, hc, rfl⟩)
          · left
            -- All paths are different, so no other change has the path of `d`.
            refine ⟨List.mem_cons_of_mem c h, ?_⟩
            rw [← Bool.not_eq_true, samePath_iff, ← samePath_iff.1 hc]
            exact fun same => fresh (List.mem_map.2 ⟨e, h, same⟩)
      | false =>
          rw [hc, if_neg Bool.false_ne_true] at h
          rcases List.mem_cons.1 h with rfl | h
          · exact .inl ⟨List.mem_cons_self, hc⟩
          · rcases ih nodup h with ⟨he, hed⟩ | ⟨b, hb, hbd, rfl⟩ | ⟨rfl, new⟩
            · exact .inl ⟨List.mem_cons_of_mem c he, hed⟩
            · exact .inr (.inl ⟨b, List.mem_cons_of_mem c hb, hbd, rfl⟩)
            · exact .inr (.inr ⟨rfl, List.forall_mem_cons.2 ⟨hc, new⟩⟩)

end Steps

section Runs

variable {e : Change}

theorem paths_concat (cs : List Change) (d : Change) :
    paths (cs ++ [d]) = paths cs ++ [Path.parts d.path] := by
  simp [paths]

theorem paths_merge_concat (cs : List Change) (d : Change) :
    paths (merge (cs ++ [d])) =
      if Path.parts d.path ∈ paths (merge cs) then paths (merge cs)
      else paths (merge cs) ++ [Path.parts d.path] := by
  rw [merge_concat]
  exact parts_mergeInto (merge cs) d

/-- Merging keeps all paths and makes up no path. -/
theorem mem_paths_merge_iff {p : List Path.Part} (cs : List Change) :
    p ∈ paths (merge cs) ↔ p ∈ paths cs := by
  induction cs using List.reverseRecOn with
  | nil => rfl
  | append_singleton cs d ih =>
      rw [paths_merge_concat, paths_concat, List.mem_append, List.mem_singleton, ← ih]
      split
      · rename_i hd
        exact ⟨.inl, fun h => h.elim id fun e => e ▸ hd⟩
      · rw [List.mem_append, List.mem_singleton]

/-- The paths stand in the order in which they were first met. -/
theorem pairwise_idxOf_merge (cs : List Change) :
    (paths (merge cs)).Pairwise fun p q => (paths cs).idxOf p < (paths cs).idxOf q := by
  induction cs using List.reverseRecOn with
  | nil => exact List.Pairwise.nil
  | append_singleton cs d ih =>
      have kept : (paths (merge cs)).Pairwise fun p q =>
          (paths (cs ++ [d])).idxOf p < (paths (cs ++ [d])).idxOf q := by
        refine ih.imp_of_mem fun {p q} hp hq hpq => ?_
        rw [mem_paths_merge_iff] at hp hq
        rwa [paths_concat, List.idxOf_append_of_mem hp, List.idxOf_append_of_mem hq]
      rw [paths_merge_concat]
      split
      · exact kept
      · rename_i new
        refine List.pairwise_append.2 ⟨kept, List.pairwise_singleton _ _, fun p hp q hq => ?_⟩
        rw [List.mem_singleton.1 hq]
        rw [mem_paths_merge_iff] at hp new
        rw [paths_concat, List.idxOf_append_of_mem hp, List.idxOf_append_of_notMem new]
        exact Nat.lt_add_right _ (List.idxOf_lt_length_of_mem hp)

/-- A merged change is the sum of the changes of its path. -/
theorem isSum_of_mem_merge {cs : List Change} (h : e ∈ merge cs) : IsSum e (changesOf e cs) := by
  induction cs using List.reverseRecOn generalizing e with
  | nil => cases h
  | append_singleton cs d ih =>
      rw [merge_concat] at h
      rw [changesOf, List.filter_append]
      rcases mem_mergeInto_cases (paths_merge_nodup cs) h with
        ⟨he, other⟩ | ⟨c, hc, same, rfl⟩ | ⟨rfl, new⟩
      · simpa [changesOf, other] using ih he
      · have joins : samePath (absorb c d) d = true := same
        rw [List.filter_cons_of_pos joins]
        exact isSum_absorb (ih hc) d
      · -- A path that is not among the merged ones has not been met at all.
        have fresh : Path.parts e.path ∉ paths cs := by
          rw [← mem_paths_merge_iff]
          intro hmem
          obtain ⟨c, hc, same⟩ := List.mem_map.1 hmem
          exact Bool.false_ne_true ((new c hc).symm.trans (samePath_iff.2 same))
        have alone : cs.filter (samePath e ·) = [] := by
          refine List.filter_eq_nil_iff.2 fun c hc same => fresh ?_
          exact List.mem_map.2 ⟨c, hc, (samePath_iff.1 same).symm⟩
        have own : samePath e e = true := samePath_iff.2 rfl
        rw [alone, List.filter_cons_of_pos own]
        exact isSum_singleton e

end Runs

/-- **Merging loses nothing and makes up nothing.**  The merged changes have different paths, which
are those of the changes in the order in which they are first met.  Each of them is the sum of the
changes of its path: its lines are theirs, it is the whole file or untracked if one of them is, and
otherwise it has the status of the first one. -/
theorem merge_sums (cs : List Change) :
    (paths (merge cs)).Nodup ∧
    (paths (merge cs)).Pairwise (fun p q => (paths cs).idxOf p < (paths cs).idxOf q) ∧
    (∀ p, p ∈ paths (merge cs) ↔ p ∈ paths cs) ∧
    ∀ e ∈ merge cs, IsSum e (changesOf e cs) :=
  ⟨paths_merge_nodup cs, pairwise_idxOf_merge cs, fun _ => mem_paths_merge_iff cs,
    fun _ => isSum_of_mem_merge⟩

/-- Ranges that meet the whole file, before and after other ranges of its path. -/
theorem merge_sums_interleaved :
    let cs : List Change :=
      [⟨"x/b.py", .staged, ⟨[⟨1, 2⟩]⟩⟩, ⟨"a.py", .staged, ⟨[⟨5, 5⟩]⟩⟩,
        ⟨"x//b.py", .unstaged, ⟨[⟨4, 4⟩]⟩⟩, ⟨"a.py", .untracked, .all⟩,
        ⟨"a.py", .unstaged, ⟨[⟨9, 9⟩]⟩⟩]
    let a : Change := ⟨"a.py", .untracked, .all⟩
    let b : Change := ⟨"x/b.py", .staged, ⟨[⟨1, 2⟩, ⟨4, 4⟩]⟩⟩
    merge cs = [b, a] ∧ IsSum a [cs[1], cs[3], cs[4]] ∧ IsSum b [cs[0], cs[2]] := by
  intro cs a b
  have merged : merge cs = [b, a] := by decide +kernel
  obtain ⟨-, -, -, sums⟩ := merge_sums cs
  have ofA : changesOf a cs = [cs[1], cs[3], cs[4]] := by decide +kernel
  have ofB : changesOf b cs = [cs[0], cs[2]] := by decide +kernel
  exact ⟨merged, ofA ▸ sums a (by simp [merged]), ofB ▸ sums b (by simp [merged])⟩

end Repository
end Decomment
