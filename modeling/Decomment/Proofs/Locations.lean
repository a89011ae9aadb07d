import Decomment.Process

/-!
# Where paths lead

A path that can be followed leads to the location that its pieces spell out, whatever stands on the
way.  So the file at its end has the name that the path ends with, and a path of plain names, read
from another path, leads straight down from there.

**Results.**
* `eq_foldl_of_follow`: following pieces goes to the location that they spell out.
* `language_of_resolve`: the rule for a path is that for the name at its location.
* `resolve_join`: a joined path is followed through the place of its first part.
* `location_of_resolve_join`: a plain path leads straight down.
* `not_isSupported_backupLocation`: there is no rule for a backup.
* `location_of_resolve_intercalate`: where the path of an entry of a proper tree leads.
* `resolve_join_intercalate`: an entry of a proper tree is found under its names.
* `mem_entriesIn_iff`: the entries of a directory stand below it.
* `find_parent_of_resolve`: a path that ends with a name leads into a directory.
-/

namespace Decomment

namespace Path

section Names

/-- The names among the parts of a path. -/
def names (p : String) : List String :=
  (parts p).filterMap fun
    | .name s => some s
    | _ => none

/-- All parts of the path are names. -/
def IsPlain (p : String) : Prop :=
  parts p = (names p).map .name

instance (p : String) : Decidable (IsPlain p) :=
  inferInstanceAs (Decidable (_ = _))

/-- The text is a name of an entry in a directory. -/
def IsName (s : String) : Prop :=
  partOfPiece s = some (.name s) ∧ '/' ∉ s.toList

instance (s : String) : Decidable (IsName s) :=
  inferInstanceAs (Decidable (_ ∧ _))

theorem isAbsolute_of_isPlain {p : String} (h : IsPlain p) : isAbsolute p = false := by
  cases ha : isAbsolute p with
  | false => rfl
  | true =>
      have hroot : Part.root ∈ (names p).map Part.name := by
        rw [← h, parts, ha]
        simp
      simp at hroot

theorem filterMap_pieces_of_isPlain {p : String} (h : IsPlain p) :
    (pieces p).filterMap partOfPiece = (names p).map .name := by
  have hparts : parts p = (names p).map .name := h
  rw [parts, if_neg (by simp [isAbsolute_of_isPlain h])] at hparts
  split at hparts
  · have hhere : Part.here ∈ (names p).map Part.name := by
      rw [← hparts]
      simp
    simp at hhere
  · exact hparts

/-- Plain paths with the same names have the same parts. -/
theorem parts_eq_of_names_eq {p q : String} (hp : IsPlain p) (hq : IsPlain q)
    (h : names p = names q) : parts p = parts q := by
  rw [hp, hq, h]

/-- The name that a path ends with comes from its last piece that counts. -/
theorem getLast?_filterMap_pieces {p s : String} (h : fileName p = some s) :
    ((pieces p).filterMap partOfPiece).getLast? = some (.name s) := by
  have hlast : (parts p).getLast? = some (.name s) := by
    unfold fileName at h
    split at h
    · rename_i e
      rw [e, Option.some.inj h]
    · cases h
  rw [parts, List.getLast?_append] at hlast
  cases e : ((pieces p).filterMap partOfPiece).getLast? with
  | some a => simpa [e] using hlast
  | none =>
      rw [e, Option.none_or] at hlast
      split at hlast
      · simp at hlast
      · split at hlast <;> simp at hlast

end Names

section Joining

theorem pieces_append_slash {p u v : String} (h : p.toList = u.toList ++ '/' :: v.toList) :
    pieces p = pieces u ++ pieces v := by
  rw [pieces, h, List.splitOn, List.splitOnP_append_cons _ _ (by simp), List.map_append]
  rfl

theorem pieces_intercalate {ns : List String} (hns : ∀ s ∈ ns, '/' ∉ s.toList) (h : ns ≠ []) :
    pieces ("/".intercalate ns) = ns := by
  have e : ("/".intercalate ns).toList = ['/'].intercalate (ns.map String.toList) :=
    String.toList_intercalate
  rw [pieces, e, List.splitOn_intercalate]
  · simp
  · intro l hl
    obtain ⟨s, hs, rfl⟩ := List.mem_map.1 hl
    exact hns s hs
  · simpa using h

theorem pieces_of_isAbsolute {p : String} (h : isAbsolute p = true) :
    ∃ ps, pieces p = "" :: ps := by
  obtain ⟨cs, e⟩ := List.head?_eq_some_iff.1 (of_decide_eq_true h)
  exact ⟨_, pieces_append_slash (u := "") (v := String.ofList cs) (by simp [e])⟩

theorem filterMap_partOfPiece : ∀ {ns : List String}, (∀ s ∈ ns, IsName s) →
    ns.filterMap partOfPiece = ns.map .name
  | [], _ => rfl
  | s :: ns, h => by
      rw [List.filterMap_cons_some (h s List.mem_cons_self).1, List.map_cons,
        filterMap_partOfPiece fun r hr => h r (List.mem_cons_of_mem s hr)]

/-- Names with separators between them are a plain path of these names. -/
theorem isPlain_intercalate {ns : List String} (hns : ∀ s ∈ ns, IsName s) (h : ns ≠ []) :
    IsPlain ("/".intercalate ns) ∧ names ("/".intercalate ns) = ns := by
  have hpieces := pieces_intercalate (fun s hs => (hns s hs).2) h
  have habs : isAbsolute ("/".intercalate ns) = false := by
    cases ha : isAbsolute ("/".intercalate ns) with
    | false => rfl
    | true =>
        obtain ⟨ps, e⟩ := pieces_of_isAbsolute ha
        have hempty := hns "" (by rw [← hpieces, e]; exact List.mem_cons_self)
        exact absurd hempty (by decide)
  have hhere : ns.head? ≠ some "." := by
    intro e
    exact absurd (hns "." (List.mem_of_head? e)) (by decide)
  have hparts : parts ("/".intercalate ns) = ns.map .name := by
    rw [parts, habs, hpieces, if_neg Bool.false_ne_true, if_neg hhere, List.nil_append,
      filterMap_partOfPiece hns]
  have hnames : names ("/".intercalate ns) = ns := by
    rw [names, hparts, List.filterMap_map]
    exact List.filterMap_some
  exact ⟨by rw [IsPlain, hnames, hparts], hnames⟩

theorem isAbsolute_append {p : String} (h : p ≠ "") (q : String) :
    isAbsolute (p ++ q) = isAbsolute p := by
  have hne : p.toList ≠ [] := by simpa using h
  obtain ⟨c, cs, e⟩ := List.exists_cons_of_ne_nil hne
  simp [isAbsolute, e]

/-- A joined path has the pieces of both paths, but one at the end of the first that does not
count. -/
theorem pieces_join {p q : String} (hp : p ≠ "") (hq : isAbsolute q = false) :
    join p q ≠ "" ∧ isAbsolute (join p q) = isAbsolute p ∧
      ∃ ps, pieces (join p q) = ps ++ pieces q ∧ (pieces p = ps ∨ pieces p = ps ++ [""]) := by
  have nonempty (s : String) : p ++ s ≠ "" := by
    intro e
    exact hp (String.append_eq_empty_iff.1 e).1
  by_cases hlast : p.toList.getLast? = some '/'
  · have e : join p q = p ++ q := by simp [join, hq, hlast]
    obtain ⟨u, hu⟩ := List.getLast?_eq_some_iff.1 hlast
    refine ⟨e ▸ nonempty q, by rw [e, isAbsolute_append hp], pieces (String.ofList u), ?_, .inr ?_⟩
    · rw [e]
      exact pieces_append_slash (by simp [hu])
    · exact pieces_append_slash (v := "") (by simp [hu])
  · have e : join p q = p ++ ("/" ++ q) := by simp [join, hq, hlast, hp, String.append_assoc]
    refine ⟨e ▸ nonempty _, by rw [e, isAbsolute_append hp], pieces p, ?_, .inl rfl⟩
    rw [e]
    exact pieces_append_slash (by simp)

end Joining

/-- A supported path has a rule. -/
theorem exists_rule_of_isSupported {p : String} (h : isSupported p = true) :
    ∃ rule, language p = .ok rule := by
  unfold isSupported at h
  split at h
  · rename_i rule hrule
    exact ⟨rule, hrule⟩
  · cases h

end Path

namespace Tree

section Following

theorem directoryError_eq_none_iff {t : Tree} {l : Location} :
    t.directoryError l = none ↔ t.find l = some .directory := by
  unfold directoryError
  split <;> rename_i h <;> simp [h]

theorem descend_of_idle {s : String} (h : Path.partOfPiece s = none) (l : Location) :
    descend l s = l := by
  unfold Path.partOfPiece at h
  split at h
  · rename_i idle
    simp [descend, idle]
  · split at h <;> cases h

theorem descend_of_name {s n : String} (h : Path.partOfPiece s = some (.name n))
    (l : Location) : descend l s = l ++ [n] := by
  unfold Path.partOfPiece at h
  split at h
  · cases h
  · rename_i idle
    split at h
    · cases h
    · rename_i up
      cases h
      simp [descend, idle, up]

theorem follow_append (t : Tree) (qs : List String) : ∀ (ps : List String) (l : Location),
    t.follow l (ps ++ qs) = (t.follow l ps).bind (t.follow · qs)
  | [], _ => rfl
  | p :: ps, l => by
      rw [List.cons_append, follow, follow]
      cases t.directoryError l with
      | some e => rfl
      | none => exact follow_append t qs ps (descend l p)

theorem eq_foldl_of_follow (t : Tree) : ∀ {ps : List String} {l m : Location},
    t.follow l ps = .ok m → m = ps.foldl descend l
  | [], _, _, h => (Except.ok.inj h).symm
  | p :: ps, l, m, h => by
      rw [follow] at h
      cases hd : t.directoryError l with
      | some e => rw [hd] at h; cases h
      | none =>
          rw [hd] at h
          exact eq_foldl_of_follow t (l := descend l p) h

/-- Pieces that stand for names lead straight down. -/
theorem foldl_descend_of_names : ∀ {ps ns : List String} (l : Location),
    ps.filterMap Path.partOfPiece = ns.map .name → ps.foldl descend l = l ++ ns
  | [], ns, l, h => by
      obtain rfl : ns = [] := by simpa using h.symm
      simp
  | p :: ps, ns, l, h => by
      rw [List.foldl_cons]
      cases hp : Path.partOfPiece p with
      | none =>
          rw [descend_of_idle hp]
          exact foldl_descend_of_names l (by simpa [List.filterMap_cons, hp] using h)
      | some a =>
          rw [List.filterMap_cons_some hp] at h
          cases ns with
          | nil => cases h
          | cons n ns =>
              obtain ⟨rfl, hns⟩ := List.cons.inj h
              rw [descend_of_name hp, foldl_descend_of_names _ hns]
              simp

theorem getLast?_foldl_descend {s : String} : ∀ {ps : List String} (l : Location),
    (ps.filterMap Path.partOfPiece).getLast? = some (.name s) →
      (ps.foldl descend l).getLast? = some s
  | [], _, h => by cases h
  | p :: ps, l, h => by
      rw [List.foldl_cons]
      cases hrest : ps.filterMap Path.partOfPiece with
      | cons a as =>
          refine getLast?_foldl_descend (descend l p) ?_
          rw [List.filterMap_cons] at h
          split at h
          · exact h
          · rw [hrest] at h ⊢
            rwa [List.getLast?_cons_cons] at h
      | nil =>
          have below : ps.foldl descend (descend l p) = descend l p ++ [] :=
            foldl_descend_of_names _ hrest
          cases hp : Path.partOfPiece p with
          | none =>
              rw [List.filterMap_cons_none hp, hrest] at h
              cases h
          | some a =>
              rw [List.filterMap_cons_some hp, hrest] at h
              obtain rfl : a = .name s := by simpa using h
              rw [below, descend_of_name hp]
              simp

/-- Pieces that end with a name are followed into a directory. -/
theorem find_parent_of_follow {t : Tree} {s : String} {ps : List String} {l m : Location}
    (hps : (ps.filterMap Path.partOfPiece).getLast? = some (.name s))
    (h : t.follow l ps = .ok m) : t.find m.dropLast = some .directory := by
  induction ps generalizing l with
  | nil => cases hps
  | cons p ps ih =>
      rw [follow] at h
      cases hd : t.directoryError l with
      | some e => rw [hd] at h; cases h
      | none =>
          rw [hd] at h
          cases hrest : ps.filterMap Path.partOfPiece with
          | cons a as =>
              refine ih ?_ h
              rw [List.filterMap_cons] at hps
              split at hps
              · exact hps
              · rw [hrest] at hps ⊢
                rwa [List.getLast?_cons_cons] at hps
          | nil =>
              -- Nothing after the name counts.
              have below : ps.foldl descend (descend l p) = descend l p ++ [] :=
                foldl_descend_of_names _ hrest
              rw [List.filterMap_cons, hrest] at hps
              rw [t.eq_foldl_of_follow h, below, List.append_nil]
              split at hps
              · cases hps
              · rename_i a ha
                obtain rfl : a = .name s := by simpa using hps
                rw [descend_of_name ha, List.dropLast_concat]
                exact directoryError_eq_none_iff.1 hd

end Following

section Resolving

variable {t : Tree} {cwd l m : Location} {p q : String}

/-- A joined path is followed through the place of its first part. -/
theorem resolve_join (hp : p ≠ "") (hq : Path.isAbsolute q = false)
    (h : t.resolve cwd (Path.join p q) = .ok m) :
    ∃ l, t.resolve cwd p = .ok l ∧ t.follow l (Path.pieces q) = .ok m := by
  obtain ⟨hne, habs, ps, hpieces, hps⟩ := Path.pieces_join hp hq
  rw [resolve, if_neg hne, habs, hpieces, follow_append] at h
  cases hl : t.follow (if Path.isAbsolute p then [] else cwd) ps with
  | error e => rw [hl] at h; cases h
  | ok l =>
      rw [hl] at h
      change t.follow l (Path.pieces q) = .ok m at h
      refine ⟨l, ?_, h⟩
      rw [resolve, if_neg hp]
      rcases hps with e | e
      · rw [e, hl]
      · -- What follows is followed from a directory, so that an empty piece leads there too.
        have hdir : t.directoryError l = none := by
          obtain ⟨r, rs, er⟩ := List.exists_cons_of_ne_nil (Path.pieces_ne_nil q)
          rw [er, follow] at h
          split at h
          · cases h
          · assumption
        rw [e, follow_append, hl]
        change t.follow l [""] = .ok l
        rw [follow, hdir]
        rfl

/-- A plain path leads straight down from where it is read. -/
theorem location_of_resolve_join (hp : p ≠ "") (hq : Path.IsPlain q)
    (h : t.resolve cwd (Path.join p q) = .ok m) :
    ∃ l, t.resolve cwd p = .ok l ∧ m = l ++ Path.names q := by
  obtain ⟨l, hl, hm⟩ := resolve_join hp (Path.isAbsolute_of_isPlain hq) h
  refine ⟨l, hl, ?_⟩
  rw [t.eq_foldl_of_follow hm]
  exact foldl_descend_of_names l (Path.filterMap_pieces_of_isPlain hq)

theorem ne_empty_of_resolve (h : t.resolve cwd p = .ok l) : p ≠ "" := by
  rintro rfl
  cases h

theorem stat_eq_ok_iff {e : Entry} :
    t.stat cwd p = .ok (l, e) ↔ t.resolve cwd p = .ok l ∧ t.find l = some e := by
  unfold stat
  cases hr : t.resolve cwd p with
  | error f => simp [bind, Except.bind]
  | ok m =>
      simp only [bind, Except.bind, Except.ok.injEq]
      cases hm : t.find m with
      | none =>
          simp only [reduceCtorEq, false_iff, not_and]
          rintro rfl
          simp [hm]
      | some d =>
          simp only [Except.ok.injEq, Prod.mk.injEq]
          constructor
          · rintro ⟨rfl, rfl⟩
            exact ⟨rfl, hm⟩
          · rintro ⟨rfl, he⟩
            exact ⟨rfl, Option.some.inj (hm.symm.trans he)⟩

theorem locateFile_eq_some_iff :
    t.locateFile cwd p = some l ↔
      t.resolve cwd p = .ok l ∧ ∃ b, t.find l = some (.file b) := by
  rw [← exists_and_left]
  simp only [← stat_eq_ok_iff, locateFile]
  constructor
  · intro h
    split at h
    · rename_i m b hm
      exact ⟨b, by rw [hm, Option.some.inj h]⟩
    · cases h
  · rintro ⟨b, hb⟩
    rw [hb]

theorem locateDirectory_eq_some_iff :
    t.locateDirectory cwd p = some l ↔ t.stat cwd p = .ok (l, .directory) := by
  unfold locateDirectory
  split
  · rename_i m h
    rw [h]
    simp
  · rename_i h
    constructor
    · intro e
      cases e
    · intro e
      exact absurd e (h l)

/-- The names of an entry, read from a path, lead straight down to it. -/
theorem location_of_resolve_intercalate {ns : List String} (hp : p ≠ "")
    (hns : ∀ s ∈ ns, Path.IsName s) (hne : ns ≠ [])
    (h : t.resolve cwd (Path.join p ("/".intercalate ns)) = .ok m) :
    ∃ l, t.resolve cwd p = .ok l ∧ m = l ++ ns := by
  obtain ⟨plain, names⟩ := Path.isPlain_intercalate hns hne
  obtain ⟨l, hl, hm⟩ := location_of_resolve_join hp plain h
  exact ⟨l, hl, by rw [hm, names]⟩

end Resolving

section Proper

/-- Every entry has names that can stand in a directory, and stands in a directory. -/
structure IsProper (t : Tree) : Prop where
  names : ∀ e ∈ t.nodes.entries, ∀ s ∈ e.1, Path.IsName s
  parents : ∀ e ∈ t.nodes.entries, e.1 ≠ [] ∧ t.isDirectoryAt e.1.dropLast = true

instance (t : Tree) : Decidable t.IsProper :=
  decidable_of_iff
    ((∀ e ∈ t.nodes.entries, ∀ s ∈ e.1, Path.IsName s) ∧
      ∀ e ∈ t.nodes.entries, e.1 ≠ [] ∧ t.isDirectoryAt e.1.dropLast = true)
    ⟨fun h => ⟨h.1, h.2⟩, fun h => ⟨h.1, h.2⟩⟩

variable {t : Tree} {l : Location}

theorem isDirectoryAt_iff : t.isDirectoryAt l = true ↔ t.find l = some .directory := by
  unfold isDirectoryAt
  split
  · rename_i h
    simp [h]
  · rename_i h
    exact ⟨fun e => absurd e Bool.false_ne_true, fun e => absurd e h⟩

theorem IsProper.isName_of_find (h : t.IsProper) {e : Entry} (he : t.find l = some e) :
    ∀ s ∈ l, Path.IsName s := by
  by_cases hl : l = []
  · subst hl
    exact nofun
  · rw [find_of_ne_nil t hl] at he
    exact h.names _ (Keyed.Map.mem_entries_of_find? he)

theorem IsProper.isName_of_find_append (h : t.IsProper) {ns : List String} {e : Entry}
    (he : t.find (l ++ ns) = some e) : ∀ s ∈ ns, Path.IsName s :=
  fun s hs => h.isName_of_find he s (List.mem_append_right l hs)

theorem find_parent_of_isProper (h : t.IsProper) {e : Entry} (he : t.find l = some e) :
    t.find l.dropLast = some .directory := by
  by_cases hl : l = []
  · subst hl
    rfl
  · rw [find_of_ne_nil t hl] at he
    exact isDirectoryAt_iff.1 (h.parents _ (Keyed.Map.mem_entries_of_find? he)).2

/-- Above an entry stand directories. -/
theorem find_prefix_of_isProper (h : t.IsProper) {ns : List String} {e : Entry} (hne : ns ≠ [])
    (he : t.find (l ++ ns) = some e) : t.find l = some .directory := by
  induction ns generalizing l with
  | nil => exact absurd rfl hne
  | cons n ns ih =>
      have first : ∃ d, t.find (l ++ [n]) = some d := by
        by_cases hns : ns = []
        · exact ⟨e, by rwa [hns] at he⟩
        · exact ⟨_, ih (l := l ++ [n]) hns (by rwa [List.append_assoc])⟩
      obtain ⟨d, hd⟩ := first
      have parent := find_parent_of_isProper h hd
      rwa [List.dropLast_concat] at parent

/-- Pieces that spell out the names of an entry, and end with one, are followed to it. -/
theorem follow_of_find (h : t.IsProper) {ps ns : List String} {e : Entry}
    (hps : ps.filterMap Path.partOfPiece = ns.map .name)
    (hlast : ∀ s, ps.getLast? = some s → Path.partOfPiece s ≠ none)
    (he : t.find (l ++ ns) = some e) : t.follow l ps = .ok (l ++ ns) := by
  induction ps generalizing l ns with
  | nil =>
      obtain rfl : ns = [] := by simpa using hps.symm
      rw [follow, List.append_nil]
  | cons p ps ih =>
      have hne : ns ≠ [] := by
        rintro rfl
        have hs := List.getLast?_eq_some_getLast (List.cons_ne_nil p ps)
        exact hlast _ hs (List.filterMap_eq_nil_iff.1 hps _ (List.mem_of_getLast? hs))
      have later : ∀ s, ps.getLast? = some s → Path.partOfPiece s ≠ none := by
        intro s hs
        cases ps with
        | nil => cases hs
        | cons q ps => exact hlast s (by rwa [List.getLast?_cons_cons])
      rw [follow, directoryError_eq_none_iff.2 (find_prefix_of_isProper h hne he)]
      cases hp : Path.partOfPiece p with
      | none =>
          rw [descend_of_idle hp]
          exact ih (by rwa [List.filterMap_cons_none hp] at hps) later he
      | some a =>
          rw [List.filterMap_cons_some hp] at hps
          cases ns with
          | nil => cases hps
          | cons n ns =>
              obtain ⟨rfl, hns⟩ := List.cons.inj hps
              rw [descend_of_name hp, ih hns later (by rwa [List.append_assoc])]
              simp

/-- An entry of a proper tree is found under its names. -/
theorem resolve_join_intercalate (h : t.IsProper) {cwd : Location} {p : String}
    {ns : List String} {e : Entry} (hp : t.resolve cwd p = .ok l)
    (hns : ∀ s ∈ ns, Path.IsName s) (hne : ns ≠ []) (he : t.find (l ++ ns) = some e) :
    t.resolve cwd (Path.join p ("/".intercalate ns)) = .ok (l ++ ns) := by
  have hempty := ne_empty_of_resolve hp
  have plain := (Path.isPlain_intercalate hns hne).1
  obtain ⟨hjoin, habs, ps, hpieces, hps⟩ :=
    Path.pieces_join hempty (Path.isAbsolute_of_isPlain plain)
  have names : t.follow l ns = .ok (l ++ ns) := by
    refine follow_of_find h (Path.filterMap_partOfPiece hns) (fun s hs => ?_) he
    rw [(hns s (List.mem_of_getLast? hs)).1]
    simp
  rw [resolve, if_neg hempty] at hp
  rw [resolve, if_neg hjoin, habs, hpieces, Path.pieces_intercalate (fun s hs => (hns s hs).2) hne,
    follow_append]
  rcases hps with e | e
  · rw [← e, hp]
    exact names
  · -- The empty piece at the end of the first path leads to where it is read.
    rw [e, follow_append] at hp
    cases hl : t.follow (if Path.isAbsolute p then [] else cwd) ps with
    | error e => rw [hl] at hp; cases hp
    | ok m =>
        rw [hl] at hp
        have hm : t.follow m [""] = .ok l := hp
        rw [follow] at hm
        split at hm
        · cases hm
        · obtain rfl : m = l := Except.ok.inj hm
          exact names

end Proper

section Entries

variable {t : Tree} {l : Location}

theorem mem_entriesIn_iff {s : String} {e : Entry} :
    (s, e) ∈ t.entriesIn l ↔ t.find (l ++ [s]) = some e := by
  rw [entriesIn, List.mem_filterMap, find_of_ne_nil t (by simp)]
  constructor
  · rintro ⟨⟨m, d⟩, hm, h⟩
    simp only [Option.ite_none_right_eq_some, Option.map_eq_some_iff, Prod.mk.injEq] at h
    obtain ⟨rfl, s', hlast, rfl, rfl⟩ := h
    obtain ⟨init, rfl⟩ := List.getLast?_eq_some_iff.1 hlast
    rw [List.dropLast_concat]
    exact Keyed.Map.find?_of_mem_entries hm
  · intro h
    exact ⟨_, Keyed.Map.mem_entries_of_find? h, by simp⟩

/-- No two entries of a directory have the same name. -/
theorem nodup_entriesIn (t : Tree) (l : Location) : ((t.entriesIn l).map (·.1)).Nodup := by
  rw [List.Nodup, List.pairwise_map, entriesIn, List.pairwise_filterMap]
  refine t.nodes.sorted.imp fun {d e} hlt x hx y hy hxy => ?_
  simp only [Option.ite_none_right_eq_some, Option.map_eq_some_iff] at hx hy
  obtain ⟨hd, s, hs, rfl⟩ := hx
  obtain ⟨he, s', hs', rfl⟩ := hy
  obtain rfl : s = s' := hxy
  obtain ⟨m, hm⟩ := List.getLast?_eq_some_iff.1 hs
  obtain ⟨n, hn⟩ := List.getLast?_eq_some_iff.1 hs'
  rw [hm, List.dropLast_concat] at hd
  rw [hn, List.dropLast_concat] at he
  rw [hm, hn, hd, he] at hlt
  exact Keyed.StrictTotal.irrefl _ hlt

theorem length_le_height {e : Entry} (h : t.find l = some e) : l.length ≤ t.height := by
  by_cases hl : l = []
  · rw [hl]
    exact Nat.zero_le _
  · rw [find_of_ne_nil t hl] at h
    have hmem := Keyed.Map.mem_entries_of_find? h
    rw [height]
    generalize t.nodes.entries = es at hmem
    induction es with
    | nil => cases hmem
    | cons d es ih =>
        rw [List.foldr_cons]
        rcases List.mem_cons.1 hmem with rfl | hmem
        · exact Nat.le_max_left _ _
        · exact Nat.le_trans (ih hmem) (Nat.le_max_right _ _)

end Entries

end Tree

namespace Location

/-- The rule for the name at the end of a location. -/
def language (l : Location) : Except Failure (Rule Char) :=
  match l.getLast?.bind Path.extensionOfName with
  | some ext => Language.detect ext
  | none => .error .noExtension

/-- There is a rule for the name at the end of the location. -/
def IsSupported (l : Location) : Prop :=
  ∃ rule, language l = .ok rule

theorem ne_nil_of_isSupported {l : Location} (h : IsSupported l) : l ≠ [] := by
  rintro rfl
  obtain ⟨rule, h⟩ := h
  cases h

theorem mem_rules_of_language {l : Location} {rule : Rule Char} (h : language l = .ok rule) :
    rule ∈ Language.rules := by
  unfold language at h
  split at h
  · exact Language.mem_rules_of_detect h
  · cases h

theorem language_foldl_descend {p : String} {rule : Rule Char} (l : Location)
    (hrule : Path.language p = .ok rule) :
    language ((Path.pieces p).foldl Tree.descend l) = .ok rule := by
  unfold Path.language Path.extension at hrule
  cases hs : Path.fileName p with
  | none => rw [hs] at hrule; cases hrule
  | some s =>
      rw [hs] at hrule
      rw [language, Tree.getLast?_foldl_descend l (Path.getLast?_filterMap_pieces hs)]
      exact hrule

/-- The rule for a path is that for the name at its location. -/
theorem language_of_resolve {t : Tree} {cwd l : Location} {p : String} {rule : Rule Char}
    (h : t.resolve cwd p = .ok l) (hrule : Path.language p = .ok rule) :
    language l = .ok rule := by
  rw [Tree.resolve] at h
  split at h
  · cases h
  · rw [t.eq_foldl_of_follow h]
    exact language_foldl_descend _ hrule

/-- A path with a rule leads into a directory. -/
theorem find_parent_of_resolve {t : Tree} {cwd l : Location} {p : String}
    (h : t.resolve cwd p = .ok l) (hp : Path.isSupported p = true) :
    t.find l.dropLast = some .directory := by
  obtain ⟨rule, hrule⟩ := Path.exists_rule_of_isSupported hp
  unfold Path.language Path.extension at hrule
  rw [Tree.resolve] at h
  split at h
  · cases h
  · cases hs : Path.fileName p with
    | none => rw [hs] at hrule; cases hrule
    | some s => exact Tree.find_parent_of_follow (Path.getLast?_filterMap_pieces hs) h

section Backups

theorem extensionOfName_bak (s : String) :
    Path.extensionOfName (s ++ ".bak") = some "bak" ∨
      Path.extensionOfName (s ++ ".bak") = none := by
  have e : (s ++ ".bak").toList.reverse.span (· != '.') =
      (['k', 'a', 'b'], '.' :: s.toList.reverse) := by
    rw [String.toList_append, List.reverse_append]
    rfl
  unfold Path.extensionOfName
  rw [e]
  cases s.toList.reverse with
  | nil => exact .inr rfl
  | cons c cs => exact .inl rfl

theorem not_isSupported_backupLocation (l : Location) : ¬ IsSupported (Job.backupLocation l) := by
  rintro ⟨rule, h⟩
  rw [language, Job.backupLocation, List.getLast?_concat] at h
  rcases extensionOfName_bak (l.getLast?.getD "") with e | e
  · have unknown : Language.detect "bak" = .error (.unsupportedExtension "bak") := rfl
    rw [Option.bind_some, e] at h
    simp only [unknown, reduceCtorEq] at h
  · rw [Option.bind_some, e] at h
    cases h

theorem backupLocation_inj {l m : Location} (hl : l ≠ []) (hm : m ≠ [])
    (h : Job.backupLocation l = Job.backupLocation m) : l = m := by
  rw [Job.backupLocation, Job.backupLocation, List.getLast?_eq_some_getLast hl,
    List.getLast?_eq_some_getLast hm, Option.getD_some, Option.getD_some] at h
  obtain ⟨hinit, hlast⟩ := List.append_inj' h rfl
  have hname : l.getLast hl = m.getLast hm := by
    exact (String.append_left_inj ".bak").1 (List.singleton_inj.1 hlast)
  rw [← List.dropLast_concat_getLast hl, ← List.dropLast_concat_getLast hm, hinit, hname]

end Backups

end Location
end Decomment
