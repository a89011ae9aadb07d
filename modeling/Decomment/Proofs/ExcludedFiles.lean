import Decomment.Proofs.PathOrder
import Decomment.Proofs.WalkedFiles

/-!
# Excludes and depth are filters

Exclude globs keep a walk out of directories, so that it never sees what is below them.  It comes
to the same as walking everywhere and then leaving out the files that a glob matches, or matches a
directory on the way to.  Likewise a walk that is not recursive finds what a recursive one finds on
the first level.

**Results.**
* `matchesAny_iff`: what the globs of some patterns match.
* `mem_reached_iff`: excludes take a file from a walk exactly if they match on the way to it.
* `mem_reached_flat_iff`: a walk that is not recursive finds the files of the first level.
* `areFiles_supported`: what is collected are different supported files, in order.
* `excludes_filter_walk`: excludes and depth are filters of what is collected.
-/

namespace Decomment
namespace Walk

section Patterns

variable {patterns : List String} {globs : List (List Glob.Token)} {path : String}

/-- The patterns can be used as excludes. -/
def AreValid (patterns : List String) : Prop :=
  ∃ globs, excludeGlobs patterns = .ok globs

instance (patterns : List String) : Decidable (AreValid patterns) :=
  match h : excludeGlobs patterns with
  | .ok globs => isTrue ⟨globs, h⟩
  | .error _ => isFalse fun ⟨_, e⟩ => by rw [h] at e; cases e

/-- A glob matches a path. -/
def globMatches (glob : Text) (path : String) : Bool :=
  match Glob.parse false glob with
  | .ok tokens => Glob.matchesPath false tokens path
  | .error _ => false

/-- One of the patterns that are not blank matches a path. -/
def MatchesSome (patterns : List String) (path : String) : Prop :=
  ∃ p ∈ patterns, Text.trim p.toList ≠ [] ∧ globMatches (Text.trim p.toList) path = true

instance (patterns : List String) (path : String) : Decidable (MatchesSome patterns path) :=
  inferInstanceAs (Decidable (∃ p ∈ patterns, _ ∧ _))

/-- The path of an entry below the root, as it is matched. -/
def shown (names : List String) : String :=
  Path.display ("/".intercalate names)

/-- The path with a slash at its end. -/
def withSlash (path : String) : String :=
  if path.toList.getLast? = some '/' then path else path ++ "/"

/-- The patterns match the path of a file below the root, or that of a directory on the way to it,
with or without a slash at its end. -/
def Excludes (patterns : List String) (names : List String) : Prop :=
  MatchesSome patterns (shown names) ∨
    ∃ n, n < names.length ∧ 0 < n ∧
      (MatchesSome patterns (shown (names.take n)) ∨
        MatchesSome patterns (withSlash (shown (names.take n))))

instance (patterns names : List String) : Decidable (Excludes patterns names) :=
  inferInstanceAs (Decidable (_ ∨ ∃ n, n < names.length ∧ _))

theorem matchesSome_cons {p : String} : MatchesSome (p :: patterns) path ↔
    (Text.trim p.toList ≠ [] ∧ globMatches (Text.trim p.toList) path = true) ∨
      MatchesSome patterns path := by
  simp [MatchesSome]

theorem matchesAny_readExcludes : ∀ {patterns : List String} {globs : List (List Glob.Token)},
    readExcludes patterns = .ok globs → (matchesAny globs path = true ↔ MatchesSome patterns path)
  | [], globs, h => by
      rw [← Except.ok.inj h]
      simp [matchesAny, MatchesSome]
  | p :: patterns, globs, h => by
      rw [readExcludes] at h
      rw [matchesSome_cons]
      split at h
      · rename_i blank
        rw [matchesAny_readExcludes h, List.isEmpty_iff.1 blank]
        simp
      · rename_i written
        split at h
        · cases h
        · rename_i tokens parsed
          split at h
          · rename_i rest others
            rw [← Except.ok.inj h, ← matchesAny_readExcludes others]
            simp only [matchesAny, List.any_cons, Bool.or_eq_true, globMatches, parsed,
              ne_eq, List.isEmpty_iff] at written ⊢
            simp [written]
          · cases h

/-- The globs of some patterns match what the patterns match. -/
theorem matchesAny_iff (h : excludeGlobs patterns = .ok globs) :
    matchesAny globs path = true ↔ MatchesSome patterns path := by
  unfold excludeGlobs at h
  cases hread : readExcludes patterns with
  | error e => rw [hread] at h; cases h
  | ok globs' =>
      simp only [hread, bind, Except.bind] at h
      split at h
      · cases h
      · rw [← Except.ok.inj h]
        exact matchesAny_readExcludes hread

theorem excludeGlobs_nil : excludeGlobs [] = .ok [] :=
  rfl

theorem isExcluded_nil (names : List String) (isDirectory : Bool) :
    isExcluded [] names isDirectory = false := by
  cases isDirectory <;> simp [isExcluded, matchesAny]

theorem isExcluded_file_iff (h : excludeGlobs patterns = .ok globs) {names : List String} :
    isExcluded globs names false = true ↔ MatchesSome patterns (shown names) := by
  rw [isExcluded, Bool.false_and, Bool.false_and, Bool.or_false]
  exact matchesAny_iff h

theorem isExcluded_directory_iff (h : excludeGlobs patterns = .ok globs) {names : List String} :
    isExcluded globs names true = true ↔
      MatchesSome patterns (shown names) ∨ MatchesSome patterns (withSlash (shown names)) := by
  rw [isExcluded, Bool.or_eq_true, matchesAny_iff h, Bool.true_and, Bool.and_eq_true,
    matchesAny_iff h, decide_eq_true_eq]
  change MatchesSome patterns (shown names) ∨ (shown names).toList.getLast? ≠ some '/' ∧
    MatchesSome patterns (shown names ++ "/") ↔ _
  rw [withSlash]
  split
  · rename_i slash
    simp [slash]
  · rename_i plain
    simp [plain]

/-- Patterns exclude a file exactly if they stop a walk on the way to it. -/
theorem excludes_iff (h : excludeGlobs patterns = .ok globs) {names : List String} :
    Excludes patterns names ↔ isExcluded globs names false = true ∨
      ∃ n, n < names.length ∧ 0 < n ∧ isExcluded globs (names.take n) true = true := by
  simp only [Excludes, isExcluded_file_iff h, isExcluded_directory_iff h]

end Patterns

section Reaching

variable {tree : Tree} {rs : Rules} {cwd : Location} {isRecursive : Bool}
variable {patterns : List String} {globs : List (List Glob.Token)} {names : List String}

/-- A walk stays out of what excludes match, and finds everything else that it finds without
them. -/
theorem mem_reached_iff (h : excludeGlobs patterns = .ok globs) :
    names ∈ reached tree rs cwd isRecursive globs ↔
      names ∈ reached tree rs cwd isRecursive [] ∧ ¬Excludes patterns names := by
  simp only [excludes_iff h, reached, mem_filesFrom_iff, IsOpen, isExcluded_nil, Bool.and_eq_true,
    Bool.not_false, Bool.not_eq_true', and_true, not_or, not_exists, not_and, List.nil_append,
    Bool.not_eq_true]
  constructor
  · rintro ⟨rest, rfl, hne, hlen, hfile, hopen, hlast, hout⟩
    refine ⟨⟨names, rfl, hne, hlen, hfile, fun n hpos hlt => ?_, hlast⟩, hout, fun n hlt hpos => ?_⟩
    · exact ⟨(hopen n hpos hlt).1, (hopen n hpos hlt).2.1⟩
    · exact (hopen n hpos hlt).2.2
  · rintro ⟨⟨rest, rfl, hne, hlen, hfile, hopen, hlast⟩, hout, away⟩
    refine ⟨names, rfl, hne, hlen, hfile, fun n hpos hlt => ?_, hlast, hout⟩
    exact ⟨(hopen n hpos hlt).1, (hopen n hpos hlt).2, away n hlt hpos⟩

/-- A walk that is not recursive finds the files of the first level. -/
theorem mem_reached_flat_iff :
    names ∈ reached tree rs cwd false globs ↔
      names ∈ reached tree rs cwd true globs ∧ names.length = 1 := by
  simp only [reached, mem_filesFrom_iff, List.nil_append, Bool.false_eq_true, if_false, if_true]
  constructor
  · rintro ⟨rest, rfl, hne, hlen, ⟨b, hb⟩, hopen, hlast⟩
    have below : names.length ≤ tree.height := by
      have := Tree.length_le_height hb
      rw [List.length_append] at this
      omega
    have pos := List.length_pos_iff.2 hne
    exact ⟨⟨names, rfl, hne, below, ⟨b, hb⟩, hopen, hlast⟩, by omega⟩
  · rintro ⟨⟨rest, rfl, hne, -, hfile, hopen, hlast⟩, one⟩
    exact ⟨names, rfl, hne, Nat.le_of_eq one, hfile, hopen, hlast⟩

end Reaching

section Paths

variable {tree : Tree} {place : Place} {root : String} {rootAt : Location}
variable {files : List (List String)} {names : List String}

/-- The names of a path below a root that it starts with. -/
def namesBelow (root path : String) : List String :=
  (Path.names path).drop (Path.names root).length

/-- The paths are those of different supported files below a root, in order. -/
structure AreFiles (tree : Tree) (cwd : Location) (root : String) (rootAt : Location)
    (paths : List String) : Prop where
  increasing : paths.Pairwise fun p q => Path.before p q = true
  below : ∀ path ∈ paths,
    Path.parts path = Path.parts root ++ (namesBelow root path).map .name
  file : ∀ path ∈ paths, ∃ b, tree.stat cwd path = .ok (rootAt ++ namesBelow root path, .file b)
  supported : ∀ path ∈ paths, Path.isSupported path = true

section Root

variable (htree : tree.IsProper)
  (hstat : tree.stat place.cwd root = .ok (rootAt, .directory))
include htree hstat

/-- The path of a file below the root has the parts of the root and the names of the file. -/
theorem parts_pathBelow (hne : names ≠ []) {b : ByteArray}
    (hb : tree.find (rootAt ++ names) = some (.file b)) :
    Path.parts (pathBelow root names) = Path.parts root ++ names.map .name ∧
      namesBelow root (pathBelow root names) = names := by
  have hroot : root ≠ "" := Tree.ne_empty_of_resolve (Tree.stat_eq_ok_iff.1 hstat).1
  have hnames := htree.isName_of_find_append hb
  rw [pathBelow_of_ne_nil hne, namesBelow, Path.names_join_intercalate hroot hnames hne,
    List.drop_left]
  exact ⟨Path.parts_join_intercalate hroot hnames hne, rfl⟩

/-- Of different files below the root, the supported ones are put in order. -/
theorem areFiles_supported (distinct : files.Nodup)
    (hfiles : ∀ names ∈ files, names ≠ [] ∧ ∃ b, tree.find (rootAt ++ names) = some (.file b)) :
    AreFiles tree place.cwd root rootAt (supported (files.map (pathBelow root))) := by
  have parts : ∀ names ∈ files,
      Path.parts (pathBelow root names) = Path.parts root ++ names.map .name ∧
        namesBelow root (pathBelow root names) = names := by
    intro names h
    obtain ⟨hne, b, hb⟩ := hfiles names h
    exact parts_pathBelow htree hstat hne hb
  refine ⟨Path.pairwise_sort (List.Pairwise.filter _ ?_), fun path hpath => ?_,
    fun path hpath => ?_, fun path hpath => (mem_supported_iff.1 hpath).2⟩
  · rw [List.pairwise_map]
    refine distinct.imp_of_mem fun {ms ns} hms hns hne same => hne ?_
    rw [(parts ms hms).1, (parts ns hns).1] at same
    exact List.map_injective_iff.2 (fun _ _ => Path.Part.name.inj) (List.append_cancel_left same)
  · obtain ⟨names, hnames, rfl⟩ := List.mem_map.1 (mem_supported_iff.1 hpath).1
    rw [(parts names hnames).2]
    exact (parts names hnames).1
  · obtain ⟨names, hmem, rfl⟩ := List.mem_map.1 (mem_supported_iff.1 hpath).1
    obtain ⟨hne, b, hb⟩ := hfiles names hmem
    rw [(parts names hmem).2]
    exact ⟨b, stat_pathBelow htree (Tree.stat_eq_ok_iff.1 hstat).1 hne hb⟩

/-- The supported ones of some of the files are some of the supported ones. -/
theorem supported_filter {gs : List (List String)} {P : List String → Prop} [DecidablePred P]
    (hfiles : ∀ names ∈ files, names ≠ [] ∧ ∃ b, tree.find (rootAt ++ names) = some (.file b))
    (distinct : files.Nodup) (distinct' : gs.Nodup)
    (h : ∀ names, names ∈ gs ↔ names ∈ files ∧ P names) :
    supported (gs.map (pathBelow root)) =
      (supported (files.map (pathBelow root))).filter fun path => P (namesBelow root path) := by
  have increasing := (areFiles_supported htree hstat distinct hfiles).increasing
  have increasing' := (areFiles_supported htree hstat distinct' fun names hnames =>
    hfiles names ((h names).1 hnames).1).increasing
  have back (names) (hnames : names ∈ files) : namesBelow root (pathBelow root names) = names := by
    obtain ⟨hne, b, hb⟩ := hfiles names hnames
    exact (parts_pathBelow htree hstat hne hb).2
  refine Path.eq_of_mem_iff increasing' (increasing.filter _) fun path => ?_
  simp only [List.mem_filter, mem_supported_iff, List.mem_map, decide_eq_true_eq]
  constructor
  · rintro ⟨⟨names, hnames, rfl⟩, hsupported⟩
    obtain ⟨hmem, hP⟩ := (h names).1 hnames
    exact ⟨⟨⟨names, hmem, rfl⟩, hsupported⟩, by rwa [back names hmem]⟩
  · rintro ⟨⟨⟨names, hmem, rfl⟩, hsupported⟩, hP⟩
    rw [back names hmem] at hP
    exact ⟨⟨names, (h names).2 ⟨hmem, hP⟩, rfl⟩, hsupported⟩

end Root

end Paths

section Reached

variable {tree : Tree} {place : Place} {root : String} {rootAt : Location} (options : Options)
variable {globs : List (List Glob.Token)} {names : List String}

theorem mem_walked_iff (h : excludeGlobs options.excludes = .ok globs) :
    names ∈ walked tree place root rootAt options globs ↔
      names ∈ walked tree place root rootAt { options with excludes := [] } [] ∧
        ¬Excludes options.excludes names := by
  rw [walked, walked]
  split
  · simp
  · exact mem_reached_iff h

theorem mem_walked_flat_iff :
    names ∈ walked tree place root rootAt { options with isRecursive := false } globs ↔
      names ∈ walked tree place root rootAt { options with isRecursive := true } globs ∧
        names.length = 1 := by
  rw [walked, walked]
  split
  · simp
  · exact mem_reached_flat_iff

end Reached

/-- **Excludes and depth are filters.**  From a directory of a proper tree, a walk with valid
excludes collects of the files that it collects without them those that the patterns do not match,
nor any directory on the way to them; and a walk that is not recursive collects the files of a
recursive one that stand in the directory itself.  The paths that are collected are those of
different supported files, in order. -/
theorem excludes_filter_walk {tree : Tree} {place : Place} {root : String} {rootAt : Location}
    {patterns : List String} (htree : tree.IsProper)
    (hstat : tree.stat place.cwd root = .ok (rootAt, .directory)) (hvalid : AreValid patterns)
    (onlyOwn : Bool) :
    ∃ paths free : Bool → List String,
      (∀ isRecursive,
        Collects tree place root { isRecursive, onlyOwn, excludes := patterns }
          (paths isRecursive) ∧
        Collects tree place root { isRecursive, onlyOwn } (free isRecursive) ∧
        paths isRecursive =
          (free isRecursive).filter (fun path => ¬Excludes patterns (namesBelow root path)) ∧
        AreFiles tree place.cwd root rootAt (paths isRecursive)) ∧
      paths false = (paths true).filter fun path => (namesBelow root path).length = 1 := by
  obtain ⟨globs, hglobs⟩ := hvalid
  let options (isRecursive : Bool) : Options := { isRecursive, onlyOwn, excludes := patterns }
  let files (isRecursive : Bool) := walked tree place root rootAt (options isRecursive) globs
  let all (isRecursive : Bool) := walked tree place root rootAt { isRecursive, onlyOwn } []
  have distinct (r : Bool) : (files r).Nodup := nodup_walked
  refine ⟨fun r => supported ((files r).map (pathBelow root)),
    fun r => supported ((all r).map (pathBelow root)), fun r => ⟨?_, ?_, ?_, ?_⟩, ?_⟩
  · exact (collects_iff hstat).2 ⟨globs, hglobs, rfl⟩
  · exact (collects_iff hstat).2 ⟨[], excludeGlobs_nil, rfl⟩
  · exact supported_filter htree hstat (fun _ => exists_of_mem_walked) nodup_walked (distinct r)
      fun names => mem_walked_iff (options r) hglobs
  · exact areFiles_supported htree hstat (distinct r) fun _ => exists_of_mem_walked
  · exact supported_filter htree hstat (fun _ => exists_of_mem_walked) (distinct true)
      (distinct false) fun names => mem_walked_flat_iff (options true)

/-- A directory is excluded, by a pattern with blanks around it, and with it the file in it. -/
theorem excludes_filter_walk_directory :
    let tree : Tree := (((Tree.empty.put ["w"] .directory).put ["w", "a.py"] (.file ⟨#[]⟩)).put
      ["w", "d"] .directory).put ["w", "d", "b.py"] (.file ⟨#[]⟩)
    let place : Place := ⟨["w"], "/"⟩
    tree.IsProper ∧ AreValid ["", " d "] ∧
      ∃ paths, Collects tree place "." { isRecursive := true, excludes := ["", " d "] } paths ∧
        ∀ path ∈ paths, namesBelow "." path ≠ ["d", "b.py"] := by
  intro tree place
  have htree : tree.IsProper := by decide +kernel
  have hstat : tree.stat place.cwd "." = .ok (["w"], .directory) :=
    Tree.locateDirectory_eq_some_iff.1 (by decide +kernel)
  have hvalid : AreValid ["", " d "] := by decide +kernel
  have matched : globMatches (Text.trim " d ".toList) (shown ["d"]) = true := by
    have parsed : Glob.parse false (Text.trim " d ".toList) = .ok [.literal 'd'] := by
      rw [show Text.trim " d ".toList = ['d'] by decide +kernel]
      simp [Glob.parse, Glob.readFrom, Glob.State.push, Glob.State.finish, Glob.State.isGrouped]
    have left : Glob.afterTokens false [(shown ["d"]).toUTF8.toList] [.literal 'd'] = [[]] := by
      simp only [Glob.afterTokens, Glob.afterEach, Glob.after]
      decide +kernel
    rw [globMatches, parsed]
    simp only [Glob.matchesPath, Glob.matchesTokens, left]
    decide +kernel
  have excluded : Excludes ["", " d "] ["d", "b.py"] :=
    .inr ⟨1, by decide, by decide, .inl ⟨" d ", by decide, by decide +kernel, matched⟩⟩
  obtain ⟨paths, free, each, -⟩ := excludes_filter_walk htree hstat hvalid false
  obtain ⟨collects, -, filtered, -⟩ := each true
  refine ⟨htree, hvalid, paths true, collects, fun path hpath same => ?_⟩
  rw [filtered, List.mem_filter, same] at hpath
  exact of_decide_eq_true hpath.2 excluded

end Walk
end Decomment
