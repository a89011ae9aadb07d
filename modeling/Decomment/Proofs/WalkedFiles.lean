import Decomment.Proofs.Locations
import Decomment.Walk
import Mathlib.Data.List.Nodup

/-!
# The files that a walk finds

A walk goes into a directory only if it is let in there, so it finds a file exactly if it is let
through at every step of the way: into all directories between the root and the file, and to the
file itself.  It never comes to a file twice.

**Results.**
* `mem_filesFrom_iff`: which files a walk finds.
* `nodup_filesFrom`: a walk finds no file twice.
* `stat_pathBelow`: where the path of a file below the root leads.
* `collects_iff`: what is collected in a directory.
-/

namespace Decomment
namespace Walk

section Finding

variable {tree : Tree} {rootAt : Location} {letsThrough : List String → Bool → Bool}
variable {depth : Nat} {passed names rest : List String} {s : String}

/-- From the directory with the names `passed`, all directories on the way to a file with the names
`rest` there let the walk in. -/
def IsOpen (tree : Tree) (rootAt : Location) (letsThrough : List String → Bool → Bool)
    (passed rest : List String) : Prop :=
  ∀ n, 0 < n → n < rest.length →
    tree.find (rootAt ++ (passed ++ rest.take n)) = some .directory ∧
      letsThrough (passed ++ rest.take n) true = true

theorem isOpen_singleton : IsOpen tree rootAt letsThrough passed [s] := by
  intro n hpos hlt
  simp only [List.length_singleton] at hlt
  omega

/-- The first directory on the way lets the walk in, and then the others do. -/
theorem isOpen_cons (hne : rest ≠ []) :
    IsOpen tree rootAt letsThrough passed (s :: rest) ↔
      (tree.find (rootAt ++ (passed ++ [s])) = some .directory ∧
        letsThrough (passed ++ [s]) true = true) ∧
      IsOpen tree rootAt letsThrough (passed ++ [s]) rest := by
  have further (n : Nat) : passed ++ (s :: rest).take (n + 1) = passed ++ [s] ++ rest.take n := by
    rw [List.take_succ_cons, List.append_cons]
  constructor
  · intro h
    refine ⟨h 1 Nat.zero_lt_one (by simpa using List.length_pos_iff.2 hne), fun n _ hlt => ?_⟩
    rw [← further]
    exact h (n + 1) (Nat.zero_lt_succ n) (Nat.succ_lt_succ hlt)
  · rintro ⟨first, others⟩ n hpos hlt
    obtain ⟨n, rfl⟩ := Nat.exists_eq_succ_of_ne_zero (Nat.ne_of_gt hpos)
    rw [Nat.succ_eq_add_one, further]
    rcases Nat.eq_zero_or_pos n with rfl | hpos
    · rwa [List.take_zero, List.append_nil]
    · exact others n hpos (Nat.lt_of_succ_lt_succ hlt)

/-- A walk finds a file of a directory itself, or finds it further down. -/
theorem mem_filesThrough_iff {below : List String → List (List String)} {e : Entry} :
    names ∈ filesThrough letsThrough below passed (s, e) ↔
      ((∃ b, e = .file b) ∧ letsThrough (passed ++ [s]) false = true ∧ names = passed ++ [s]) ∨
        (e = .directory ∧ letsThrough (passed ++ [s]) true = true ∧
          names ∈ below (passed ++ [s])) := by
  cases e with
  | file b => simp [filesThrough]
  | directory => simp [filesThrough]

/-- A walk finds a file exactly if it is near enough, the way to it is open, and the file is let
through. -/
theorem mem_filesFrom_iff : names ∈ filesFrom tree rootAt letsThrough depth passed ↔
    ∃ rest, names = passed ++ rest ∧ rest ≠ [] ∧ rest.length ≤ depth ∧
      (∃ b, tree.find (rootAt ++ names) = some (.file b)) ∧
      IsOpen tree rootAt letsThrough passed rest ∧ letsThrough names false = true := by
  induction depth generalizing passed with
  | zero =>
      refine ⟨fun h => (List.not_mem_nil h).elim, ?_⟩
      rintro ⟨rest, -, hne, hlen, -⟩
      exact absurd (List.length_eq_zero_iff.1 (Nat.le_zero.1 hlen)) hne
  | succ depth ih =>
      rw [filesFrom, List.mem_flatMap]
      constructor
      · rintro ⟨⟨s, e⟩, hentry, h⟩
        rw [Tree.mem_entriesIn_iff, List.append_assoc] at hentry
        rcases mem_filesThrough_iff.1 h with ⟨⟨b, rfl⟩, hlet, rfl⟩ | ⟨rfl, hlet, h⟩
        · exact ⟨[s], rfl, by simp, by simp, ⟨b, hentry⟩, isOpen_singleton, hlet⟩
        · obtain ⟨rest, rfl, hne, hlen, hfile, hopen, hlast⟩ := ih.1 h
          refine ⟨s :: rest, by simp, by simp, Nat.succ_le_succ hlen, hfile, ?_, hlast⟩
          exact (isOpen_cons hne).2 ⟨⟨hentry, hlet⟩, hopen⟩
      · rintro ⟨rest, rfl, hne, hlen, ⟨b, hfile⟩, hopen, hlast⟩
        obtain ⟨s, rest, rfl⟩ := List.exists_cons_of_ne_nil hne
        by_cases hrest : rest = []
        · subst hrest
          refine ⟨(s, .file b), ?_, mem_filesThrough_iff.2 (.inl ⟨⟨b, rfl⟩, hlast, rfl⟩)⟩
          rwa [Tree.mem_entriesIn_iff, List.append_assoc]
        · obtain ⟨⟨hdir, hlet⟩, hopen⟩ := (isOpen_cons hrest).1 hopen
          have further : passed ++ s :: rest ∈
              filesFrom tree rootAt letsThrough depth (passed ++ [s]) :=
            ih.2 ⟨rest, by simp, hrest, Nat.le_of_succ_le_succ hlen, ⟨b, hfile⟩, hopen, hlast⟩
          refine ⟨(s, .directory), ?_, mem_filesThrough_iff.2 (.inr ⟨rfl, hlet, further⟩)⟩
          rwa [Tree.mem_entriesIn_iff, List.append_assoc]

/-- What a walk finds are files. -/
theorem exists_of_mem_filesFrom (h : names ∈ filesFrom tree rootAt letsThrough depth []) :
    names ≠ [] ∧ ∃ b, tree.find (rootAt ++ names) = some (.file b) := by
  obtain ⟨rest, rfl, hne, -, hfile, -⟩ := mem_filesFrom_iff.1 h
  exact ⟨hne, hfile⟩

/-- A walk finds no file twice. -/
theorem nodup_filesFrom : (filesFrom tree rootAt letsThrough depth passed).Nodup := by
  induction depth generalizing passed with
  | zero => exact List.nodup_nil
  | succ depth ih =>
      rw [filesFrom, List.nodup_flatMap]
      constructor
      · rintro ⟨s, b | _⟩ -
        · rw [filesThrough]
          split
          · exact List.nodup_singleton _
          · exact List.nodup_nil
        · rw [filesThrough]
          split
          · exact ih
          · exact List.nodup_nil
      · -- What is found through an entry starts with its name.
        have starts {names : List String} {s : String} {e : Entry}
            (h : names ∈ filesThrough letsThrough (filesFrom tree rootAt letsThrough depth)
              passed (s, e)) : ∃ rest, names = passed ++ s :: rest := by
          rcases mem_filesThrough_iff.1 h with ⟨-, -, rfl⟩ | ⟨-, -, h⟩
          · exact ⟨[], rfl⟩
          · obtain ⟨rest, rfl, -⟩ := mem_filesFrom_iff.1 h
            exact ⟨rest, by simp⟩
        refine (List.pairwise_map.1 (tree.nodup_entriesIn _)).imp fun {d e} hne names hd he => ?_
        obtain ⟨rest, rfl⟩ := starts hd
        obtain ⟨rest', same⟩ := starts he
        exact hne (List.cons.inj (List.append_cancel_left same)).1

end Finding

section Paths

variable {tree : Tree} {cwd rootAt : Location} {root : String} {names : List String}

theorem pathBelow_of_ne_nil (h : names ≠ []) :
    pathBelow root names = Path.join root ("/".intercalate names) := by
  rw [pathBelow, if_neg (by simpa using h)]

/-- The path of a file below the root leads to it. -/
theorem stat_pathBelow (htree : tree.IsProper) (hroot : tree.resolve cwd root = .ok rootAt)
    (hne : names ≠ []) {b : ByteArray} (hb : tree.find (rootAt ++ names) = some (.file b)) :
    tree.stat cwd (pathBelow root names) = .ok (rootAt ++ names, .file b) := by
  rw [pathBelow_of_ne_nil hne, Tree.stat_eq_ok_iff]
  have hnames := htree.isName_of_find_append hb
  exact ⟨Tree.resolve_join_intercalate htree hroot hnames hne hb, hb⟩

end Paths

section Collected

/-- The paths are what is collected from a root. -/
def Collects (tree : Tree) (place : Place) (root : String) (options : Options)
    (paths : List String) : Prop :=
  ∃ events, collect tree place root options = .ok (paths, events)

/-- The files that a walk from a directory reaches, of which the standard input has none. -/
def walked (tree : Tree) (place : Place) (root : String) (rootAt : Location) (options : Options)
    (globs : List (List Glob.Token)) : List (List String) :=
  if isStandardInput root then []
  else
    reached tree (rulesAt tree place root rootAt options.onlyOwn).1 place.cwd options.isRecursive
      globs

variable {tree : Tree} {place : Place} {root : String} {options : Options} {rootAt : Location}
variable {paths names : List String} {globs : List (List Glob.Token)}

/-- What is collected in a directory are the supported files that a walk reaches there. -/
theorem collects_iff (hstat : tree.stat place.cwd root = .ok (rootAt, .directory)) :
    Collects tree place root options paths ↔
      ∃ globs, excludeGlobs options.excludes = .ok globs ∧
        paths = supported ((walked tree place root rootAt options globs).map (pathBelow root)) := by
  unfold Collects collect
  cases hg : excludeGlobs options.excludes with
  | error e => simp [bind, Except.bind]
  | ok globs =>
      simp only [hstat, bind, Except.bind, walked, Except.ok.injEq, exists_eq_left']
      cases isStandardInput root with
      | true => simp [supported, Path.sort, eq_comm]
      | false => simp [eq_comm]

/-- What a walk reaches are files. -/
theorem exists_of_mem_walked (h : names ∈ walked tree place root rootAt options globs) :
    names ≠ [] ∧ ∃ b, tree.find (rootAt ++ names) = some (.file b) := by
  rw [walked] at h
  split at h
  · cases h
  · exact exists_of_mem_filesFrom h

theorem nodup_walked : (walked tree place root rootAt options globs).Nodup := by
  rw [walked]
  split
  · exact List.nodup_nil
  · exact nodup_filesFrom

end Collected

end Walk
end Decomment
