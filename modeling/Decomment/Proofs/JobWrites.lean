import Decomment.Process

/-!
# What a job writes

A job either leaves the tree as it is or has found something to change in a file of text.  In the
second case it writes the new text, and perhaps the old bytes beside it.

**Results.**
* `find_writeAt_self`: a write leaves its bytes at its location.
* `examine_eq_ok_iff`: what was examined is the text of a file, under the rule for its path.
* `tree_runJob_cases`: a job leaves the tree alone or commits an outcome with changes.
* `find_commit_self`: what was committed stands in the file.
-/

namespace Decomment

namespace Tree

theorem ne_nil_of_writeAt {t u : Tree} {l : Location} {b : ByteArray}
    (h : t.writeAt l b = .ok u) : l ≠ [] := by
  rintro rfl
  simp [writeAt] at h

/-- A write that succeeds puts a file at its location. -/
theorem eq_put_of_writeAt {t u : Tree} {l : Location} {b : ByteArray}
    (h : t.writeAt l b = .ok u) : u = t.put l (.file b) := by
  unfold writeAt at h
  split at h
  · cases h
  · cases h
    rfl
  · split at h
    · cases h
    · cases h
      rfl

theorem find_writeAt_self {t u : Tree} {l : Location} {b : ByteArray}
    (h : t.writeAt l b = .ok u) : u.find l = some (.file b) := by
  rw [eq_put_of_writeAt h]
  exact t.find_put_self (ne_nil_of_writeAt h) _

end Tree

namespace Treatment

variable {p : Treatment} {tree : Tree} {j : Job}

theorem readJob_eq_ok_iff {b : ByteArray} {t : Text} :
    readJob tree j = .ok (b, t) ↔
      tree.find j.location = some (.file b) ∧ (String.fromUTF8? b).map String.toList = some t := by
  unfold readJob
  split
  · rename_i h
    simp [h]
  · rename_i h
    simp [h]
  · rename_i c h
    cases hs : String.fromUTF8? c with
    | none =>
        simp only [reduceCtorEq, h, Option.some.injEq, Entry.file.injEq, false_iff, not_and]
        rintro rfl
        simp [hs]
    | some s =>
        simp only [Except.ok.injEq, Prod.mk.injEq, h, Option.some.injEq, Entry.file.injEq]
        constructor
        · rintro ⟨rfl, rfl⟩
          simp [hs]
        · rintro ⟨rfl, ht⟩
          simpa [hs] using ht

theorem examine_eq_ok_iff {b : ByteArray} {o : Outcome} :
    p.examine tree j = .ok (b, o) ↔
      ∃ rule t, Path.language j.path = .ok rule ∧ readJob tree j = .ok (b, t) ∧
        o = (p.stripper rule).run j.selection t := by
  unfold examine
  cases hl : Path.language j.path with
  | error e => simp [bind, Except.bind]
  | ok rule =>
      cases hr : readJob tree j with
      | error e => simp [bind, Except.bind]
      | ok bt =>
          obtain ⟨c, t⟩ := bt
          simp only [bind, Except.bind, pure, Except.pure, Except.ok.injEq, Prod.mk.injEq]
          constructor
          · rintro ⟨rfl, rfl⟩
            exact ⟨rule, t, rfl, ⟨rfl, rfl⟩, rfl⟩
          · rintro ⟨_, _, rfl, ⟨rfl, rfl⟩, rfl⟩
            exact ⟨rfl, rfl⟩

/-- A commit writes the backup first, if there is to be one, and then the new text. -/
theorem commit_eq_ok_iff {b : ByteArray} {o : Outcome} {tree' : Tree} :
    p.commit tree j b o = .ok tree' ↔
      ∃ saved, (if p.backup then tree.writeAt (Job.backupLocation j.location) b = .ok saved
          else saved = tree) ∧
        saved.writeAt j.location (String.ofList o.render).toUTF8 = .ok tree' := by
  unfold commit
  cases hb : p.backup with
  | false =>
      simp only [Bool.false_eq_true, if_false, pure, Except.pure, bind, Except.bind,
        exists_eq_left]
      cases tree.writeAt j.location (String.ofList o.render).toUTF8 with
      | ok written => simp
      | error e => simp [throw, throwThe, MonadExceptOf.throw]
  | true =>
      simp only [if_true, pure, Except.pure, bind, Except.bind]
      cases tree.writeAt (Job.backupLocation j.location) b with
      | ok saved =>
          simp only [Except.ok.injEq, exists_eq_left']
          cases saved.writeAt j.location (String.ofList o.render).toUTF8 with
          | ok written => simp
          | error e => simp [throw, throwThe, MonadExceptOf.throw]
      | error e => simp [throw, throwThe, MonadExceptOf.throw]

theorem find_commit_self {b : ByteArray} {o : Outcome} {tree' : Tree}
    (h : p.commit tree j b o = .ok tree') :
    tree'.find j.location = some (.file (String.ofList o.render).toUTF8) := by
  obtain ⟨saved, -, hw⟩ := commit_eq_ok_iff.1 h
  exact Tree.find_writeAt_self hw

theorem tree_runJob_cases (p : Treatment) (tree : Tree) (j : Job) :
    (p.runJob tree j).1 = tree ∨
      ∃ b o, p.dryRun = false ∧ p.examine tree j = .ok (b, o) ∧ o.hasChanges = true ∧
        p.commit tree j b o = .ok (p.runJob tree j).1 := by
  unfold runJob
  cases he : p.examine tree j with
  | error e => exact .inl rfl
  | ok bo =>
      obtain ⟨b, o⟩ := bo
      cases hd : p.dryRun with
      | true => exact .inl rfl
      | false =>
          cases hc : o.hasChanges with
          | false => left; simp [hc]
          | true =>
              cases hm : p.commit tree j b o with
              | error e => left; simp [hc, hm]
              | ok tree' => right; exact ⟨b, o, rfl, rfl, hc, by simp [hc, hm]⟩

/-- A job whose file would not change leaves the tree as it is. -/
theorem tree_runJob_of_hasChanges (h : ∀ b o, p.examine tree j = .ok (b, o) →
    o.hasChanges = false) : (p.runJob tree j).1 = tree := by
  rcases p.tree_runJob_cases tree j with e | ⟨b, o, -, he, hc, -⟩
  · exact e
  · rw [h b o he] at hc
    cases hc

end Treatment
end Decomment
