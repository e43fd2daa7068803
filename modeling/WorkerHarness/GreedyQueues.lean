import Mathlib.Data.Finset.Basic

/-!
# First come, first served, on numbered resources

A queue of jobs of given sizes is served from its head: a job takes the first resources that nobody
holds, or stops the service when there are too few. A job keeps its resources or gives them back.
-/

namespace WorkerHarness.GreedyQueues

variable {J R : Type} [DecidableEq R]

def unheld (available : List R) (held : Finset R) : List R := available.filter fun r => r ∉ held

/-- The jobs that are served, each with its resources. -/
def dispatch (size : J → ℕ) (keeps : J → Bool) (available : List R) : List J → Finset R → List (J × List R)
  | [], _ => []
  | head :: queue, held =>
    let free := unheld available held
    if size head > free.length then []
    else
      let assigned := free.take (size head)
      (head, assigned) :: dispatch size keeps available queue
        (if keeps head then held ∪ assigned.toFinset else held)

end WorkerHarness.GreedyQueues
