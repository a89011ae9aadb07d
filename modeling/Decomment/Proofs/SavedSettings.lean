import Decomment.Editor.Commands
import Decomment.Proofs.JobWrites
import Decomment.Proofs.Locations
import Decomment.Proofs.SettingsText
import Decomment.Text.Utf8

/-!
# Settings that were saved

A text that was written to a path is read from that path, since the directories on the way there
stay.  So settings that were saved are loaded again, and saving them once more changes nothing.

**Results.**
* `readText_writeText`, `writeText_writeText`: a text that was written is read, and written again
  without a change.
* `resolve_registryPath_eq`: the settings file stands in the settings directory.
* `load_of_save`, `save_of_save`: settings that were saved are loaded, and saved again without a
  change.
* `settings_survive`: settings that were loaded, and perhaps changed, are read back from their text.
-/

namespace Decomment

namespace Tree

section Writing

variable {t u : Tree} {cwd k l m : Location} {p : String} {s : Text}

/-- What is put where no directory stands is not in the way. -/
theorem follow_put (hl : t.find l ≠ some .directory) (e : Entry) {ps : List String}
    (h : t.follow k ps = .ok m) : (t.put l e).follow k ps = .ok m := by
  induction ps generalizing k with
  | nil => exact h
  | cons p ps ih =>
      rw [follow] at h ⊢
      cases hd : t.directoryError k with
      | some e => rw [hd] at h; cases h
      | none =>
          rw [hd] at h
          have dir : t.find k = some .directory := directoryError_eq_none_iff.1 hd
          have hne : k ≠ l := by
            rintro rfl
            exact hl dir
          have still : (t.put l e).directoryError k = none := by
            rw [directoryError_eq_none_iff, t.find_put_of_ne hne, dir]
          rw [still]
          exact ih h

theorem resolve_put (hl : t.find l ≠ some .directory) (e : Entry)
    (h : t.resolve cwd p = .ok m) : (t.put l e).resolve cwd p = .ok m := by
  have hp := ne_empty_of_resolve h
  rw [resolve, if_neg hp] at h ⊢
  exact follow_put hl e h

theorem put_of_find {e : Entry} (hl : l ≠ []) (h : t.find l = some e) : t.put l e = t := by
  rw [find_of_ne_nil t hl] at h
  rw [put, Keyed.Map.insert_of_find? h]

theorem not_directory_of_writeAt {b : ByteArray} (h : t.writeAt l b = .ok u) :
    t.find l ≠ some .directory := by
  intro hd
  simp [writeAt, hd] at h

theorem writeText_eq_ok_iff : t.writeText cwd p s = .ok u ↔
    ∃ l, t.resolve cwd p = .ok l ∧ t.writeAt l (String.ofList s).toUTF8 = .ok u := by
  unfold writeText
  cases t.resolve cwd p with
  | error e => simp [bind, Except.bind]
  | ok l => simp [bind, Except.bind]

/-- A path leads where it has led before something was written there. -/
theorem resolve_of_writeText (h : t.writeText cwd p s = .ok u) :
    ∃ l, t.resolve cwd p = .ok l ∧ u.resolve cwd p = .ok l ∧
      u = t.put l (.file (String.ofList s).toUTF8) ∧
      u.find l = some (.file (String.ofList s).toUTF8) := by
  obtain ⟨l, hl, hw⟩ := writeText_eq_ok_iff.1 h
  obtain rfl := eq_put_of_writeAt hw
  exact ⟨l, hl, resolve_put (not_directory_of_writeAt hw) _ hl, rfl, find_writeAt_self hw⟩

theorem readText_of_find (hl : t.resolve cwd p = .ok l)
    (hf : t.find l = some (.file (String.ofList s).toUTF8)) : t.readText cwd p = .ok s := by
  have hstat : t.stat cwd p = .ok (l, .file (String.ofList s).toUTF8) :=
    stat_eq_ok_iff.2 ⟨hl, hf⟩
  simp only [readText, read, hstat, bind, Except.bind, fromUTF8?_toUTF8, String.toList_ofList]

/-- A text that was written is read. -/
theorem readText_writeText (h : t.writeText cwd p s = .ok u) : u.readText cwd p = .ok s := by
  obtain ⟨l, -, hl, -, hf⟩ := resolve_of_writeText h
  exact readText_of_find hl hf

/-- Written again, it changes nothing. -/
theorem writeText_writeText (h : t.writeText cwd p s = .ok u) : u.writeText cwd p s = .ok u := by
  obtain ⟨l, -, hl, -, hf⟩ := resolve_of_writeText h
  obtain ⟨l', hl', hw⟩ := writeText_eq_ok_iff.1 h
  have hne : l ≠ [] := by
    rintro rfl
    cases hf
  refine writeText_eq_ok_iff.2 ⟨l, hl, ?_⟩
  rw [writeAt, hf]
  exact congrArg Except.ok (put_of_find hne hf)

end Writing

end Tree

namespace Editor

section Paths

variable {t : Tree} {place : Place} {scope : Scope} {m : Location}

/-- The path below which the settings directory of a scope stands. -/
def basePath (place : Place) : Scope → String
  | .user => place.home
  | .project => place.cwd.path

theorem registryDirectory_eq (place : Place) (scope : Scope) :
    registryDirectory place scope = Path.join (basePath place scope) ".claude" := by
  cases scope <;> rfl

/-- The path of the settings directory ends with its name. -/
theorem getLast?_registryDirectory (place : Place) (scope : Scope) :
    (registryDirectory place scope).toList.getLast? = some 'e' := by
  have relative : Path.isAbsolute ".claude" = false := by decide +kernel
  have last : (".claude" : String).toList.getLast? = some 'e' := by decide +kernel
  rw [registryDirectory_eq, Path.join, relative, if_neg Bool.false_ne_true]
  split <;> simp

/-- The settings file is one more piece. -/
theorem registryPath_eq (place : Place) (scope : Scope) :
    registryDirectory place scope ≠ "" ∧
      registryPath place scope = registryDirectory place scope ++ ("/" ++ "settings.json") := by
  have last := getLast?_registryDirectory place scope
  have nonempty : registryDirectory place scope ≠ "" := by
    intro e
    rw [e] at last
    cases last
  have relative : Path.isAbsolute "settings.json" = false := by decide +kernel
  refine ⟨nonempty, ?_⟩
  rw [registryPath, Path.join, relative, if_neg Bool.false_ne_true, String.append_assoc]
  simp [nonempty, last]

theorem resolve_registryPath (t : Tree) (place : Place) (scope : Scope) :
    t.resolve place.cwd (registryPath place scope) =
      (t.resolve place.cwd (registryDirectory place scope)).bind
        (t.follow · ["settings.json"]) := by
  obtain ⟨nonempty, joined⟩ := registryPath_eq place scope
  have single : Path.pieces "settings.json" = ["settings.json"] := by decide +kernel
  have split : Path.pieces (registryPath place scope) =
      Path.pieces (registryDirectory place scope) ++ ["settings.json"] := by
    rw [← single]
    exact Path.pieces_append_slash (by simp [joined])
  have hne : registryPath place scope ≠ "" := by
    rw [joined]
    exact fun e => nonempty (String.append_eq_empty_iff.1 e).1
  have start : Path.isAbsolute (registryPath place scope) =
      Path.isAbsolute (registryDirectory place scope) := by
    rw [joined, Path.isAbsolute_append nonempty]
  rw [Tree.resolve, if_neg hne, Tree.resolve, if_neg nonempty, split, start, Tree.follow_append]

/-- The settings file stands in the settings directory. -/
theorem resolve_registryPath_eq (t : Tree) (place : Place) (scope : Scope) :
    t.resolve place.cwd (registryPath place scope) =
      match t.stat place.cwd (registryDirectory place scope) with
      | .error e => .error e
      | .ok (_, .file _) => .error .notADirectory
      | .ok (d, .directory) => .ok (d ++ ["settings.json"]) := by
  have name : Path.partOfPiece "settings.json" = some (.name "settings.json") := by
    decide +kernel
  rw [resolve_registryPath, Tree.stat]
  cases t.resolve place.cwd (registryDirectory place scope) with
  | error e => rfl
  | ok d =>
      simp only [Except.bind, bind, Tree.follow, Tree.directoryError, Tree.descend_of_name name]
      rcases t.find d with _ | _ | _ <;> rfl

theorem stat_of_resolve_registryPath
    (h : t.resolve place.cwd (registryPath place scope) = .ok m) :
    ∃ d, t.stat place.cwd (registryDirectory place scope) = .ok (d, .directory) ∧
      m = d ++ ["settings.json"] := by
  rw [resolve_registryPath_eq] at h
  split at h
  · cases h
  · cases h
  · rename_i d hstat
    exact ⟨d, hstat, (Except.ok.inj h).symm⟩

end Paths

section Saving

variable {tree after : Tree} {place : Place} {scope : Scope} {s : Registry}

theorem save_eq_none_iff : save tree place scope s = (after, none) ↔
    ∃ made, tree.makeDirectories place.cwd (registryDirectory place scope) = (made, none) ∧
      made.writeText place.cwd (registryPath place scope) s.toText = .ok after := by
  simp only [save]
  rcases tree.makeDirectories place.cwd (registryDirectory place scope) with ⟨made, _ | e⟩
  · simp only
    cases hw : made.writeText place.cwd (registryPath place scope) s.toText with
    | error e => simp [hw]
    | ok written => simp [hw]
  · simp

/-- Settings that were saved are loaded. -/
theorem load_of_save (hs : s.IsSound innermost) (hexact : s.IsExact)
    (h : save tree place scope s = (after, none)) :
    load after place.cwd (registryPath place scope) = .ok s := by
  obtain ⟨made, -, hw⟩ := save_eq_none_iff.1 h
  rw [load, Tree.readText_writeText hw]
  simp only [ofText_toText hs hexact]

/-- Saved again, they change nothing. -/
theorem save_of_save (h : save tree place scope s = (after, none)) :
    save after place scope s = (after, none) := by
  obtain ⟨made, -, hw⟩ := save_eq_none_iff.1 h
  refine save_eq_none_iff.2 ⟨after, ?_, Tree.writeText_writeText hw⟩
  obtain ⟨l, -, hl, -⟩ := Tree.resolve_of_writeText hw
  obtain ⟨d, hd, -⟩ := stat_of_resolve_registryPath hl
  simp only [Tree.makeDirectories, hd]

/-- Settings that were loaded are sound. -/
theorem isSound_of_load {cwd : Location} {path : String} (h : load tree cwd path = .ok s) :
    s.IsSound innermost := by
  unfold load at h
  split at h
  · split at h
    · rename_i t _ s' hs
      obtain rfl := Except.ok.inj h
      exact isSound_ofText hs
    · cases h
  · obtain rfl := Except.ok.inj h
    exact isSound_empty _
  · cases h

theorem isSound_foldl_apply (hs : s.IsSound innermost) (edits : List Edit) :
    (edits.foldl Edit.apply s).IsSound innermost := by
  induction edits generalizing s with
  | nil => exact hs
  | cons e edits ih => exact ih (isSound_apply hs e)

end Saving

/-- **Settings survive.**  Settings that were loaded, after any changes and without doubles, are
read back from their text with all events, groups, hooks and members.  Once they are saved, they are
loaded again, and saving them again leaves every byte as it is. -/
theorem settings_survive {tree : Tree} {cwd : Location} {path : String} {loaded : Registry}
    (h : load tree cwd path = .ok loaded) (edits : List Edit)
    (hexact : (edits.foldl Edit.apply loaded).IsExact) :
    let s := edits.foldl Edit.apply loaded
    Registry.ofText s.toText = some s ∧
      ∀ before place scope after, save before place scope s = (after, none) →
        load after place.cwd (registryPath place scope) = .ok s ∧
          after.readText place.cwd (registryPath place scope) = .ok s.toText ∧
          save after place scope s = (after, none) := by
  intro s
  have sound : s.IsSound innermost := isSound_foldl_apply (isSound_of_load h) edits
  refine ⟨ofText_toText sound hexact, fun before place scope after hsave => ?_⟩
  obtain ⟨made, -, hw⟩ := save_eq_none_iff.1 hsave
  exact ⟨load_of_save sound hexact hsave, Tree.readText_writeText hw, save_of_save hsave⟩

/-- A hook, its group and the settings have members without a meaning. -/
theorem settings_survive_unknown :
    let text := "\x7b\"x\": \x7b\"b\": 1, \"a\": -2\x7d, " ++
      "\"hooks\": \x7b\"Stop\": [\x7b\"y\": \"\\u00e4\", " ++
      "\"hooks\": [\x7b\"command\": \"c\", \"z\": []\x7d]\x7d]\x7d\x7d"
    let tree : Tree := ((Tree.empty.put ["w"] .directory).put ["w", ".claude"] .directory).put
      ["w", ".claude", "settings.json"] (.file text.toUTF8)
    let place : Place := ⟨["w"], "/"⟩
    ∃ loaded, load tree place.cwd (registryPath place .project) = .ok loaded ∧
      (loaded.other.find? "x").isSome = true ∧
      Registry.ofText (Edit.apply loaded .add).toText = some (Edit.apply loaded .add) := by
  intro text tree place
  have facts : ((load tree place.cwd (registryPath place .project)).toOption.any fun s =>
      decide (Edit.apply s .add).IsExact && (s.other.find? "x").isSome) = true := by
    decide +kernel
  obtain ⟨loaded, hload, facts⟩ := (Option.any_eq_true _ _).1 facts
  obtain ⟨hexact, hother⟩ := Bool.and_eq_true_iff.1 facts
  have hload : load tree place.cwd (registryPath place .project) = .ok loaded := by
    cases h : load tree place.cwd (registryPath place .project) with
    | error e => rw [h] at hload; cases hload
    | ok s => rw [h] at hload; rw [Option.some.inj hload]
  exact ⟨loaded, hload, hother, (settings_survive hload [.add] (of_decide_eq_true hexact)).1⟩

end Editor
end Decomment
