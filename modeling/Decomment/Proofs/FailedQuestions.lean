import Decomment.Proofs.RunJobs

/-!
# Questions that fail

Version control is asked one question after the other: for the root of the repository, for the names
of changed files, and after each list of names for the difference of every file in it.  Staged
changes come before the others, and the files that are not tracked come last.  The first question
that fails is the last one that is asked.  Its failure ends the run, and since no file is processed
before all changes are known, nothing has been written by then.

**Results.**
* `ask_eq_error_iff`: what a question that fails leads to.
* `firstFailure_eq_some_iff`: the first of several questions that fails.
* `failure?_changes`: the changes cannot be read exactly when a question fails, and the first one
  that does says why.
* `run_of_failed_question`: a run with a question that fails writes nothing.
-/

namespace Decomment
namespace Repository

section Defs

/-- The question has no answer, for the reason given: the program cannot be started, or its exit code
is not zero. -/
inductive FailsFor (s : Setting) (directory : String) (question : List String) : String → Prop
  | notStarted {e : FsError} : start s directory question = .error e →
      FailsFor s directory question e.message
  | exitCode {r : Reply} : start s directory question = .ok r → r.code ≠ 0 →
      FailsFor s directory question (String.ofList (Text.trim (Text.decodeLossy r.complaint)))

/-- The question for the root of the repository. -/
def rootQuestion : List String :=
  ["rev-parse", "--show-toplevel"]

/-- The failure of a question that failed for a reason. -/
def failureFor (question : List String) (reason : String) : Failure :=
  .gitCommand (" ".intercalate question) reason

/-- The names that are listed for a status.  Without an answer there are none. -/
def listed (s : Setting) (root : String) (status : ChangeStatus) : List String :=
  match ask s root (listQuestion status) with
  | .ok t => names t
  | .error _ => []

/-- The questions about tracked files, in their order. -/
def trackedQuestions (s : Setting) (root : String) (status : ChangeStatus) : List (List String) :=
  listQuestion status :: (listed s root status).map (diffQuestion status)

/-- The questions about the changes of a scope, in their order. -/
def questions (s : Setting) (root : String) : ChangeFilter → List (List String)
  | .staged => trackedQuestions s root .staged
  | .unstaged => trackedQuestions s root .unstaged ++ [listQuestion .untracked]
  | .all =>
      trackedQuestions s root .staged ++
        (trackedQuestions s root .unstaged ++ [listQuestion .untracked])

/-- The question is the first one that fails, and it fails for the reason. -/
def FirstFailsFor (s : Setting) (root : String) (qs : List (List String)) (question : List String)
    (reason : String) : Prop :=
  ∃ before after, qs = before ++ question :: after ∧
    (∀ q ∈ before, ∀ why, ¬ FailsFor s root q why) ∧ FailsFor s root question reason

/-- Why something failed, if it did. -/
def failure? {α : Type} : Except Failure α → Option Failure
  | .ok _ => none
  | .error e => some e

/-- The failure of the first question that fails. -/
def firstFailure (s : Setting) (root : String) (qs : List (List String)) : Option Failure :=
  qs.findSome? fun q => failure? (ask s root q)

end Defs

section Questions

variable {s : Setting} {root question : String} {q : List String} {qs : List (List String)}
  {e : Failure}

theorem failure?_map {α β : Type} (f : α → β) (x : Except Failure α) :
    failure? (x.map f) = failure? x := by
  cases x <;> rfl

theorem failure?_eq_some_iff {α : Type} {x : Except Failure α} :
    failure? x = some e ↔ x = .error e := by
  cases x <;> simp [failure?]

/-- A question that fails leads to its failure. -/
theorem ask_eq_error_iff :
    ask s root q = .error e ↔ ∃ reason, FailsFor s root q reason ∧ e = failureFor q reason := by
  unfold ask failureFor
  constructor
  · intro h
    split at h
    · rename_i e' hstart
      exact ⟨_, .notStarted hstart, (Except.error.inj h).symm⟩
    · rename_i r hstart
      split at h
      · cases h
      · rename_i hcode
        exact ⟨_, .exitCode hstart hcode, (Except.error.inj h).symm⟩
  · rintro ⟨_, hstart | ⟨hstart, hcode⟩, rfl⟩
    · simp only [hstart]
    · simp only [hstart, if_neg hcode]

theorem failure?_ask_eq_none_iff :
    failure? (ask s root q) = none ↔ ∀ reason, ¬ FailsFor s root q reason := by
  rw [Option.eq_none_iff_forall_ne_some]
  constructor
  · intro h reason hfails
    exact h _ (failure?_eq_some_iff.2 (ask_eq_error_iff.2 ⟨reason, hfails, rfl⟩))
  · intro h e he
    obtain ⟨reason, hfails, -⟩ := ask_eq_error_iff.1 (failure?_eq_some_iff.1 he)
    exact h reason hfails

/-- The first failure is that of the first question that fails. -/
theorem firstFailure_eq_some_iff : firstFailure s root qs = some e ↔
    ∃ q reason, FirstFailsFor s root qs q reason ∧ e = failureFor q reason := by
  simp only [firstFailure, List.findSome?_eq_some_iff, failure?_ask_eq_none_iff,
    failure?_eq_some_iff, ask_eq_error_iff]
  constructor
  · rintro ⟨before, q, after, rfl, ⟨reason, hfails, rfl⟩, answered⟩
    exact ⟨q, reason, ⟨before, after, rfl, answered, hfails⟩, rfl⟩
  · rintro ⟨q, reason, ⟨before, after, rfl, answered, hfails⟩, rfl⟩
    exact ⟨before, q, after, rfl, ⟨reason, hfails, rfl⟩, answered⟩

/-- Where a question fails, there is a first one that does. -/
theorem exists_firstFailsFor (hq : q ∈ qs) {reason : String} (h : FailsFor s root q reason) :
    ∃ p why, FirstFailsFor s root qs p why ∧ firstFailure s root qs = some (failureFor p why) := by
  cases hfirst : firstFailure s root qs with
  | none =>
      have answered := List.findSome?_eq_none_iff.1 hfirst q hq
      exact absurd h (failure?_ask_eq_none_iff.1 answered reason)
  | some e =>
      obtain ⟨p, why, first, rfl⟩ := firstFailure_eq_some_iff.1 hfirst
      exact ⟨p, why, first, rfl⟩

end Questions

section Changes

variable (s : Setting) (root : String)

theorem firstFailure_append (ps qs : List (List String)) :
    firstFailure s root (ps ++ qs) = (firstFailure s root ps).or (firstFailure s root qs) :=
  List.findSome?_append

theorem failure?_readDiffs (status : ChangeStatus) : ∀ files : List String,
    failure? (readDiffs s root status files).2 =
      firstFailure s root (files.map (diffQuestion status))
  | [] => rfl
  | file :: files => by
      rw [readDiffs, List.map_cons, firstFailure, List.findSome?_cons]
      cases ha : ask s root (diffQuestion status file) with
      | error e => rfl
      | ok t =>
          simp only [failure?_map]
          exact failure?_readDiffs status files

theorem failure?_tracked (status : ChangeStatus) :
    failure? (tracked s root status).2 = firstFailure s root (trackedQuestions s root status) := by
  rw [tracked, trackedQuestions, firstFailure, List.findSome?_cons, listed]
  cases ha : ask s root (listQuestion status) with
  | error e => rfl
  | ok t => exact failure?_readDiffs s root status (names t)

theorem failure?_unstaged :
    failure? (unstaged s root).2 = firstFailure s root
      (trackedQuestions s root .unstaged ++ [listQuestion .untracked]) := by
  rw [firstFailure_append, ← failure?_tracked, unstaged]
  rcases tracked s root .unstaged with ⟨events, e | changes⟩
  · rfl
  · simp only [untracked, failure?_map]
    rw [firstFailure, List.findSome?_singleton]
    rfl

/-- The changes of a scope cannot be read exactly when a question about them fails, and the first one
that does says why. -/
theorem failure?_changes (scope : ChangeFilter) :
    failure? (changes s root scope).2 = firstFailure s root (questions s root scope) := by
  cases scope with
  | staged => exact failure?_tracked s root .staged
  | unstaged => exact failure?_unstaged s root
  | all =>
      rw [questions, firstFailure_append, ← failure?_tracked, ← failure?_unstaged, changes]
      -- Merging comes last and cannot fail.
      rcases tracked s root .staged with ⟨events, e | first⟩
      · rfl
      · simp only [failure?_map]
        rfl

end Changes

end Repository

namespace Run

open Repository

section Failures

variable {tree : Tree} {place : Place} {git : VersionControl} {r : RunRequest}
  {scope : ChangeFilter} {root : String} {e : Failure}

theorem findRoot_of_failsFor {s : Setting} {reason : String}
    (h : FailsFor s s.cwd.path rootQuestion reason) : findRoot s = .error .notARepository := by
  have failed : ask s s.cwd.path ["rev-parse", "--show-toplevel"] =
      .error (failureFor rootQuestion reason) := ask_eq_error_iff.2 ⟨reason, h, rfl⟩
  simp only [findRoot, failed]

theorem onChanges_of_findRoot (p : Treatment)
    (h : findRoot ⟨tree, place.cwd, git⟩ = .error e) :
    onChanges p tree place git scope = ⟨tree, [], some e⟩ := by
  simp only [onChanges, h]

/-- Changes that cannot be read end a run before any file is processed. -/
theorem onChanges_of_failure (p : Treatment)
    (hroot : findRoot ⟨tree, place.cwd, git⟩ = .ok root)
    (h : failure? (changes ⟨tree, place.cwd, git⟩ root scope).2 = some e) :
    (onChanges p tree place git scope).tree = tree ∧
      (onChanges p tree place git scope).failure = some (.changesUnavailable e) := by
  have hread := failure?_eq_some_iff.1 h
  rcases hc : changes ⟨tree, place.cwd, git⟩ root scope with ⟨events, result⟩
  rw [hc] at hread
  obtain rfl : result = .error e := hread
  simp only [onChanges, hroot, hc, and_self]

/-- A run over changes ends as what it does with the changes. -/
theorem run_changes (tree : Tree) (place : Place) (git : VersionControl)
    (htarget : r.target = .changes scope) :
    ∃ p, (run tree place git r).tree = (onChanges p tree place git scope).tree ∧
      (run tree place git r).failure = (onChanges p tree place git scope).failure := by
  rcases hc : configure tree place with ⟨c, events⟩
  refine ⟨treatmentFor c r, ?_, ?_⟩
  · simp only [run, hc, htarget]
  · simp only [run, hc, htarget]

end Failures

/-- **A failed question ends a run before anything is written.**  Where the question for the root
fails, the run says that there is no repository.  Where a question about the changes fails, it says
why the first one that does has failed.  Either way the tree is as it was. -/
theorem run_of_failed_question {tree : Tree} {place : Place} {git : VersionControl}
    {r : RunRequest} {scope : ChangeFilter} (htarget : r.target = .changes scope) :
    let s : Setting := ⟨tree, place.cwd, git⟩
    let report := run tree place git r
    ((∃ reason, FailsFor s place.cwd.path rootQuestion reason) →
      report.tree = tree ∧ report.failure = some .notARepository) ∧
    ∀ root, findRoot s = .ok root → ∀ q ∈ questions s root scope,
      (∃ reason, FailsFor s root q reason) →
        report.tree = tree ∧
          ∃ p why, FirstFailsFor s root (questions s root scope) p why ∧
            report.failure = some (.changesUnavailable (failureFor p why)) := by
  intro s report
  obtain ⟨p, htree, hfailure⟩ := run_changes tree place git htarget
  constructor
  · rintro ⟨reason, hfails⟩
    have ended : onChanges p tree place git scope = ⟨tree, [], some .notARepository⟩ :=
      onChanges_of_findRoot p (findRoot_of_failsFor (s := s) hfails)
    rw [htree, hfailure, ended]
    exact ⟨rfl, rfl⟩
  · rintro root hroot q hq ⟨reason, hfails⟩
    obtain ⟨first, why, hfirst, hread⟩ := exists_firstFailsFor hq hfails
    rw [← failure?_changes] at hread
    obtain ⟨same, failed⟩ := onChanges_of_failure p hroot hread
    exact ⟨htree.trans same, first, why, hfirst, hfailure.trans failed⟩

/-- The difference of the second file fails after that of the first was read, and so would the list
that is never asked for. -/
theorem run_of_failed_question_late :
    let tree : Tree := (Tree.empty.put ["w"] .directory).put ["w", "a.py"]
      (.file (String.ofList "x # 1\n".toList).toUTF8)
    let place : Place := ⟨["w"], "/"⟩
    let git : VersionControl := fun question => .ok <|
      if question = rootQuestion then ⟨"/w".toUTF8.toList, [], 0⟩
      else if question = listQuestion .unstaged then ⟨"a.py\nb.py\n".toUTF8.toList, [], 0⟩
      else if question = diffQuestion .unstaged "a.py" then ⟨"@@ -1 +1 @@".toUTF8.toList, [], 0⟩
      else ⟨[], "fatal: no\n".toUTF8.toList, 128⟩
    let r : RunRequest := { target := .changes .unstaged }
    let s : Setting := ⟨tree, place.cwd, git⟩
    findRoot s = .ok "/w" ∧ listQuestion .untracked ∈ questions s "/w" .unstaged ∧
      FailsFor s "/w" (listQuestion .untracked) "fatal: no" ∧
      (run tree place git r).tree = tree ∧
      (run tree place git r).failure = some (.changesUnavailable
        (failureFor (diffQuestion .unstaged "b.py") "fatal: no")) := by
  intro tree place git r s
  have hroot : findRoot s = .ok "/w" := by
    have found : (findRoot s).toOption = some "/w" := by decide +kernel
    cases h : findRoot s with
    | error e => rw [h] at found; cases found
    | ok root => rw [h] at found; rw [Option.some.inj found]
  have hasked : listQuestion .untracked ∈ questions s "/w" .unstaged := by
    decide +kernel
  have answer : start s "/w" (listQuestion .untracked) =
      .ok ⟨[], "fatal: no\n".toUTF8.toList, 128⟩ := by rfl
  have complaint : String.ofList (Text.trim (Text.decodeLossy "fatal: no\n".toUTF8.toList)) =
      "fatal: no" := by decide +kernel
  have hfails : FailsFor s "/w" (listQuestion .untracked) "fatal: no" :=
    complaint ▸ .exitCode answer (by decide)
  obtain ⟨same, -⟩ :=
    (run_of_failed_question (r := r) rfl).2 "/w" hroot _ hasked ⟨_, hfails⟩
  exact ⟨hroot, hasked, hfails, same, by decide +kernel⟩

end Run
end Decomment
