import Decomment.Proofs.JobWrites
import Decomment.Proofs.Locations

/-!
# Jobs that keep apart

A job writes at the location of its file and at that of its backup, and at no other.  What it
does depends on what stands there, and on the directory around.  So when no two jobs have a location
in common, each of them does in a row of jobs what it would do alone.

**Results.**
* `isApart_of_ne`: jobs for different supported files keep apart.
* `find_runJob_of_not_mem`, `find_runJobs_of_not_mem`: everything else stays as it is.
* `find_runJob_directory`: a directory stays a directory.
* `runJob_congr`: what a job does depends on its surroundings.
* `result_runJobs_of_apart`, `find_runJobs_of_apart`: jobs that keep apart act as if alone.
-/

namespace Decomment

namespace Job

/-- The locations of the file of a job and of its backup. -/
def footprint (j : Job) : List Location :=
  [j.location, backupLocation j.location]

/-- The locations that matter to a job. -/
def surroundings (j : Job) : List Location :=
  j.location.dropLast :: j.footprint

/-- The jobs have no location in common. -/
def IsApart (j k : Job) : Prop :=
  ∀ l ∈ j.footprint, l ∉ k.footprint

theorem location_mem_footprint (j : Job) : j.location ∈ j.footprint :=
  List.mem_cons_self

theorem backupLocation_mem_footprint (j : Job) : backupLocation j.location ∈ j.footprint :=
  List.mem_cons_of_mem _ List.mem_cons_self

theorem mem_footprint {j : Job} {l : Location} :
    l ∈ j.footprint ↔ l = j.location ∨ l = backupLocation j.location := by
  simp [footprint]

theorem IsApart.symm {j k : Job} (h : IsApart j k) : IsApart k j :=
  fun l hk hj => h l hj hk

/-- Jobs for different supported files keep apart, since no backup is supported. -/
theorem isApart_of_ne {j k : Job} (hj : Location.IsSupported j.location)
    (hk : Location.IsSupported k.location) (h : j.location ≠ k.location) : IsApart j k := by
  intro l hlj hlk
  rcases mem_footprint.1 hlj with rfl | rfl
  · rcases mem_footprint.1 hlk with e | e
    · exact h e
    · rw [e] at hj
      exact Location.not_isSupported_backupLocation _ hj
  · rcases mem_footprint.1 hlk with e | e
    · rw [← e] at hk
      exact Location.not_isSupported_backupLocation _ hk
    · exact h (Location.backupLocation_inj (Location.ne_nil_of_isSupported hj)
        (Location.ne_nil_of_isSupported hk) e)

end Job

namespace Tree

variable {t u : Tree} {l m : Location} {b : ByteArray}

theorem find_writeAt_of_ne (h : t.writeAt l b = .ok u) (hm : m ≠ l) : u.find m = t.find m := by
  rw [eq_put_of_writeAt h]
  exact t.find_put_of_ne hm _

/-- Nothing is written where a directory stands. -/
theorem find_writeAt_directory (h : t.writeAt l b = .ok u) (hm : t.find m = some .directory) :
    u.find m = some .directory := by
  have hne : m ≠ l := by
    rintro rfl
    simp [writeAt, hm] at h
  rw [find_writeAt_of_ne h hne, hm]

theorem find_put_congr (h : t.find m = u.find m) (l : Location) (e : Entry) :
    (t.put l e).find m = (u.put l e).find m := by
  cases m with
  | nil => rfl
  | cons s ms =>
      by_cases hm : s :: ms = l
      · subst hm
        rw [find_put_self _ (List.cons_ne_nil s ms), find_put_self _ (List.cons_ne_nil s ms)]
      · rw [find_put_of_ne _ hm, find_put_of_ne _ hm, h]

/-- A write fails in both trees, or puts the file in both. -/
theorem writeAt_congr (hl : t.find l = u.find l) (hd : t.find l.dropLast = u.find l.dropLast)
    (b : ByteArray) :
    (∃ e, t.writeAt l b = .error e ∧ u.writeAt l b = .error e) ∨
      (t.writeAt l b = .ok (t.put l (.file b)) ∧ u.writeAt l b = .ok (u.put l (.file b))) := by
  have habove : t.directoryError l.dropLast = u.directoryError l.dropLast := by
    rw [directoryError, directoryError, hd]
  unfold writeAt
  rw [← hl, ← habove]
  rcases t.find l with _ | _ | _
  · cases t.directoryError l.dropLast with
    | some e => exact .inl ⟨e, rfl, rfl⟩
    | none => exact .inr ⟨rfl, rfl⟩
  · exact .inr ⟨rfl, rfl⟩
  · exact .inl ⟨_, rfl, rfl⟩

end Tree

namespace Treatment

variable {p : Treatment} {tree : Tree} {j : Job}

section Frame

/-- What every write of a job preserves is preserved by the job. -/
theorem runJob_induction {motive : Tree → Prop} (start : motive tree)
    (write : ∀ t u l b, l ∈ j.footprint → t.writeAt l b = .ok u → motive t → motive u) :
    motive (p.runJob tree j).1 := by
  rcases p.tree_runJob_cases tree j with e | ⟨b, o, -, -, -, hc⟩
  · rwa [e]
  · obtain ⟨saved, hbackup, hfile⟩ := commit_eq_ok_iff.1 hc
    refine write _ _ _ _ j.location_mem_footprint hfile ?_
    cases hb : p.backup with
    | true =>
        rw [hb, if_pos rfl] at hbackup
        exact write _ _ _ _ j.backupLocation_mem_footprint hbackup start
    | false =>
        rw [hb, if_neg Bool.false_ne_true] at hbackup
        rwa [hbackup]

/-- The same for jobs in a row. -/
theorem runJobs_induction {motive : Tree → Prop} : ∀ {js : List Job} {tree : Tree},
    motive tree → (∀ k ∈ js, ∀ t u l b, l ∈ k.footprint → t.writeAt l b = .ok u →
      motive t → motive u) → motive (p.runJobs tree js).1
  | [], _, start, _ => start
  | k :: ks, _, start, write => by
      rw [runJobs]
      have first := runJob_induction (p := p) start (write k List.mem_cons_self)
      exact runJobs_induction first fun i hi => write i (List.mem_cons_of_mem k hi)

theorem find_runJob_of_not_mem {l : Location} (h : l ∉ j.footprint) :
    (p.runJob tree j).1.find l = tree.find l := by
  refine runJob_induction (motive := fun t => t.find l = tree.find l) rfl ?_
  intro t u m b hm hw ht
  have hne : l ≠ m := fun e => h (e ▸ hm)
  rw [Tree.find_writeAt_of_ne hw hne, ht]

theorem find_runJobs_of_not_mem {js : List Job} {l : Location}
    (h : ∀ k ∈ js, l ∉ k.footprint) : (p.runJobs tree js).1.find l = tree.find l := by
  refine runJobs_induction (motive := fun t => t.find l = tree.find l) rfl ?_
  intro k hk t u m b hm hw ht
  have hne : l ≠ m := fun e => h k hk (e ▸ hm)
  rw [Tree.find_writeAt_of_ne hw hne, ht]

theorem find_runJob_directory {l : Location} (h : tree.find l = some .directory) :
    (p.runJob tree j).1.find l = some .directory :=
  runJob_induction (motive := fun t => t.find l = some .directory) h
    fun _ _ _ _ _ hw ht => Tree.find_writeAt_directory hw ht

end Frame

section Congruence

variable {t u : Tree}

theorem examine_congr (h : t.find j.location = u.find j.location) :
    p.examine t j = p.examine u j := by
  unfold examine readJob
  rw [h]

/-- A write of a job fails in both trees, or changes both in the same way. -/
theorem writeAt_congr (h : ∀ l ∈ j.surroundings, t.find l = u.find l) {l : Location}
    (hl : l ∈ j.footprint) (b : ByteArray) :
    (∃ e, t.writeAt l b = .error e ∧ u.writeAt l b = .error e) ∨
      ∃ t' u', t.writeAt l b = .ok t' ∧ u.writeAt l b = .ok u' ∧
        ∀ m, t.find m = u.find m → t'.find m = u'.find m := by
  have above : l.dropLast ∈ j.surroundings := by
    rcases Job.mem_footprint.1 hl with rfl | rfl <;> simp [Job.surroundings, Job.backupLocation]
  rcases Tree.writeAt_congr (h l (List.mem_cons_of_mem _ hl)) (h _ above) b with failed | ⟨ht, hu⟩
  · exact .inl failed
  · exact .inr ⟨_, _, ht, hu, fun m hm => Tree.find_put_congr hm _ _⟩

theorem commit_congr (h : ∀ l ∈ j.surroundings, t.find l = u.find l) (b : ByteArray)
    (o : Outcome) :
    (∃ e, p.commit t j b o = .error e ∧ p.commit u j b o = .error e) ∨
      ∃ t' u', p.commit t j b o = .ok t' ∧ p.commit u j b o = .ok u' ∧
        ∀ m, t.find m = u.find m → t'.find m = u'.find m := by
  unfold commit
  cases p.backup with
  | false =>
      simp only [Bool.false_eq_true, if_false, bind, Except.bind, pure, Except.pure]
      rcases writeAt_congr h j.location_mem_footprint (String.ofList o.render).toUTF8 with
        ⟨e, ht, hu⟩ | ⟨t', u', ht, hu, hfind⟩
      · rw [ht, hu]
        exact .inl ⟨_, rfl, rfl⟩
      · rw [ht, hu]
        exact .inr ⟨t', u', rfl, rfl, hfind⟩
  | true =>
      simp only [if_true, bind, Except.bind, pure, Except.pure]
      rcases writeAt_congr h j.backupLocation_mem_footprint b with
        ⟨e, ht, hu⟩ | ⟨t₁, u₁, ht, hu, hfind₁⟩
      · rw [ht, hu]
        exact .inl ⟨_, rfl, rfl⟩
      · rw [ht, hu]
        -- The trees with the backup still agree around the job.
        have h₁ : ∀ l ∈ j.surroundings, t₁.find l = u₁.find l := fun l hl => hfind₁ l (h l hl)
        rcases writeAt_congr h₁ j.location_mem_footprint (String.ofList o.render).toUTF8 with
          ⟨e, ht, hu⟩ | ⟨t', u', ht, hu, hfind⟩
        · simp only [ht, hu]
          exact .inl ⟨_, rfl, rfl⟩
        · simp only [ht, hu]
          exact .inr ⟨t', u', rfl, rfl, fun m hm => hfind m (hfind₁ m hm)⟩

/-- What a job does depends on its surroundings only. -/
theorem runJob_congr (h : ∀ l ∈ j.surroundings, t.find l = u.find l) :
    (p.runJob t j).2 = (p.runJob u j).2 ∧
      ∀ m, t.find m = u.find m → (p.runJob t j).1.find m = (p.runJob u j).1.find m := by
  have hfile : j.location ∈ j.surroundings := List.mem_cons_of_mem _ j.location_mem_footprint
  unfold runJob
  rw [examine_congr (h _ hfile)]
  cases p.examine u j with
  | error e => exact ⟨rfl, fun m hm => hm⟩
  | ok bo =>
      obtain ⟨b, o⟩ := bo
      simp only
      split
      · exact ⟨rfl, fun m hm => hm⟩
      · split
        · rcases commit_congr (p := p) h b o with ⟨e, ht, hu⟩ | ⟨t', u', ht, hu, hfind⟩
          · rw [ht, hu]
            exact ⟨rfl, fun m hm => hm⟩
          · rw [ht, hu]
            exact ⟨rfl, hfind⟩
        · exact ⟨rfl, fun m hm => hm⟩

end Congruence

section Rows

/-- A job that keeps apart from another one does the same after it. -/
theorem runJob_after (k : Job) (hjk : Job.IsApart j k)
    (hdir : tree.find j.location.dropLast = some .directory) :
    (p.runJob (p.runJob tree k).1 j).2 = (p.runJob tree j).2 ∧
      ∀ l ∈ j.footprint,
        (p.runJob (p.runJob tree k).1 j).1.find l = (p.runJob tree j).1.find l := by
  have untouched : ∀ l ∈ j.footprint, (p.runJob tree k).1.find l = tree.find l :=
    fun l hl => find_runJob_of_not_mem (hjk l hl)
  have around : ∀ l ∈ j.surroundings, (p.runJob tree k).1.find l = tree.find l := by
    intro l hl
    rcases List.mem_cons.1 hl with rfl | hl
    · rw [find_runJob_directory hdir, hdir]
    · exact untouched l hl
  obtain ⟨same, find⟩ := runJob_congr (p := p) around
  exact ⟨same, fun l hl => find l (untouched l hl)⟩

variable {js : List Job}

theorem result_runJobs_of_apart (h : js.Pairwise Job.IsApart)
    (hdir : ∀ j ∈ js, tree.find j.location.dropLast = some .directory) :
    (p.runJobs tree js).2 = js.map fun j => (p.runJob tree j).2 := by
  induction js generalizing tree with
  | nil => rfl
  | cons k ks ih =>
      obtain ⟨hk, hks⟩ := List.pairwise_cons.1 h
      have later : ∀ j ∈ ks, (p.runJob tree k).1.find j.location.dropLast = some .directory :=
        fun j hj => find_runJob_directory (hdir j (List.mem_cons_of_mem k hj))
      rw [runJobs, List.map_cons]
      simp only
      rw [ih hks later]
      refine congrArg _ (List.map_congr_left fun j hj => ?_)
      exact (runJob_after k (hk j hj).symm (hdir j (List.mem_cons_of_mem k hj))).1

/-- Jobs that keep apart leave what each of them leaves alone. -/
theorem find_runJobs_of_apart (h : js.Pairwise Job.IsApart)
    (hdir : ∀ j ∈ js, tree.find j.location.dropLast = some .directory) {j : Job} (hj : j ∈ js) :
    ∀ l ∈ j.footprint, (p.runJobs tree js).1.find l = (p.runJob tree j).1.find l := by
  intro l hl
  induction js generalizing tree with
  | nil => cases hj
  | cons k ks ih =>
      obtain ⟨hk, hks⟩ := List.pairwise_cons.1 h
      rw [runJobs]
      rcases List.mem_cons.1 hj with rfl | hj'
      · exact find_runJobs_of_not_mem fun i hi => hk i hi l hl
      · have later : ∀ i ∈ ks, (p.runJob tree k).1.find i.location.dropLast = some .directory :=
          fun i hi => find_runJob_directory (hdir i (List.mem_cons_of_mem k hi))
        exact (ih hks later hj').trans
          ((runJob_after k (hk j hj').symm (hdir j hj)).2 l hl)

end Rows

end Treatment
end Decomment
