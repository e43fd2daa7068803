import WorkerHarness.FleetEffects
import WorkerHarness.ManagerCalls

/-!
# Routes of the job queue

The routes of the control server that enqueue, edit and stop queued jobs, the registration route of the
workers, and the passes that refresh and dispatch jobs, as coroutines over the job manager.
-/

namespace WorkerHarness.QueueRoutes

open Coroutines SharedTransactions Database JobManager

/-- An HTTP error; one route adds a hint to its detail. -/
structure Refusal where
  status : ℕ
  message : String
  hint : String := ""
  deriving DecidableEq, Repr

abbrev Reply (α : Type) := Except Refusal α

/-- A refusal as the reply of a route. -/
def refuse {α : Type} (status : ℕ) (message : String) : ManagerM (Reply α) :=
  .ret (.error { status := status, message := message })

/-- `str.lower`. -/
abbrev Lower := String → String

def resolveWorker (lower : Lower) (workerIdOrName : String) : ManagerM (Option Worker) := do
  match ← database (getWorker workerIdOrName) with
  | some worker => return some worker
  | none =>
    let workers ← database listWorkers
    return workers.find? fun worker => lower worker.name = lower workerIdOrName

/-- `POST /register`. -/
def register (reg : WorkerRegistration) : ManagerM Worker := do
  let now ← Prog.call .now
  database (upsertWorker reg now)

structure JobEnqueueRequest where
  workerId : String
  command : String
  name : String
  expectedSeconds : ℕ
  gpuCount : ℕ := 1
  noPty : Bool := false
  name_ne : strip name ≠ "" := by decide
  expectedSeconds_pos : 1 ≤ expectedSeconds := by decide
  gpuCount_pos : 1 ≤ gpuCount := by decide

/-- `POST /api/v1/jobs/queue`. -/
def jobsQueueCreate (lower : Lower) (fuel manager : ℕ) (payload : JobEnqueueRequest) : ManagerM (Reply Job) := do
  match ← resolveWorker lower payload.workerId with
  | none => refuse 404 ("Worker not found: " ++ payload.workerId)
  | some worker =>
    if payload.gpuCount > worker.gpuCount then
      refuse 422 ("gpu_count exceeds worker capacity (" ++ toString worker.gpuCount ++ ")")
    else
      let job ← enqueueJob fuel manager worker payload.command payload.name payload.expectedSeconds payload.gpuCount
        (!payload.noPty)
      return .ok job

/-- An edit of a queued job; the request model rejects blank names, counts below 1 and empty edits. -/
structure QueuedJobUpdateRequest where
  workerId : Option String := none
  position : Option ℕ := none
  name : Option String := none
  expectedSeconds : Option ℕ := none
  gpuCount : Option ℕ := none
  position_pos : ∀ n, position = some n → 1 ≤ n := by decide
  name_ne : ∀ s, name = some s → strip s ≠ "" := by decide
  expectedSeconds_pos : ∀ n, expectedSeconds = some n → 1 ≤ n := by decide
  gpuCount_pos : ∀ n, gpuCount = some n → 1 ≤ n := by decide
  supplied : workerId ≠ none ∨ position ≠ none ∨ name ≠ none ∨ expectedSeconds ≠ none ∨ gpuCount ≠ none := by decide

/-- `{worker.id: worker for worker in (source, destination)}`: one record for each worker. -/
def dispatchWorkers (sourceWorker : Option Worker) (destinationWorker : Worker) : List Worker :=
  match sourceWorker with
  | none => [destinationWorker]
  | some source => if source.id = destinationWorker.id then [destinationWorker] else [source, destinationWorker]

def destinationWorker (lower : Lower) (payload : QueuedJobUpdateRequest) (sourceWorker : Option Worker)
    (job : Job) :
    ManagerM (Reply (Worker × Option String)) := do
  match payload.workerId with
  | some workerId =>
    match ← resolveWorker lower workerId with
    | none => refuse 404 ("Worker not found: " ++ workerId)
    | some worker => return .ok (worker, some worker.id)
  | none =>
    match sourceWorker with
    | none => refuse 404 ("Worker not found: " ++ job.workerId.getD "None")
    | some worker => return .ok (worker, none)

def editJob (fuel manager : ℕ) (payload : QueuedJobUpdateRequest) (jobId : String) (sourceWorker : Option Worker)
    (destination : Worker) (destinationWorkerId : Option String) : ManagerM (Reply Unit) := do
  let updated ← Prog.call (.updatePendingJob jobId destinationWorkerId payload.position payload.name
    payload.expectedSeconds payload.gpuCount)
  match updated with
  | .error (.keyError _) => refuse 404 ("Job not found: " ++ jobId)
  | .error (.valueError message) => refuse 409 message
  | .error e => .raise (.database e)
  | .ok _ =>
    Prog.forEach (fun worker => (dispatchWorker fuel manager worker).bind fun _ => .ret ())
      (dispatchWorkers sourceWorker destination)
    return .ok ()

/-- `PATCH /api/v1/jobs/{job_id}/queue`, up to the rendering of its reply. -/
def jobsQueueUpdate (lower : Lower) (fuel manager : ℕ) (jobId : String) (payload : QueuedJobUpdateRequest) :
    ManagerM (Reply Unit) := do
  match ← getJob jobId with
  | none => refuse 404 ("Job not found: " ++ jobId)
  | some job =>
    if !job.queueManaged || job.status ≠ .pending then refuse 409 "only pending queued jobs can be updated" else
    let sourceWorker ← database (getWorker (job.workerId.getD ""))
    match ← destinationWorker lower payload sourceWorker job with
    | .error refusal => return .error refusal
    | .ok (destination, destinationWorkerId) =>
      -- `payload.gpu_count or job.gpu_count`
      let requested := match payload.gpuCount with
        | some n => if n = 0 then job.gpuCount else n
        | none => job.gpuCount
      if requested > destination.gpuCount then
        refuse 422 ("gpu_count exceeds worker capacity (" ++ toString destination.gpuCount ++ ")")
      else editJob fuel manager payload jobId sourceWorker destination destinationWorkerId

/-- `DELETE /api/v1/jobs/{job_id}`, up to the rendering of its reply. -/
def jobsDelete (fuel manager : ℕ) (jobId : String) : ManagerM (Reply Unit) := do
  match ← getJob jobId with
  | none => refuse 404 ("Job not found: " ++ jobId)
  | some job =>
    if job.workerId.getD "" = "" then refuse 404 ("Job not found: " ++ jobId) else
    if job.status = .done ∨ job.status = .failed then return .ok () else
    match ← database (getWorker (job.workerId.getD "")) with
    | none => refuse 404 ("Worker not found: " ++ job.workerId.getD "")
    | some worker =>
      let stopped ← stopJob fuel manager worker jobId
      if stopped then return .ok () else
      return .error
        { status := 500
          message := "Failed to stop job: " ++ jobId
          hint := "Job may have already exited; refresh job status and retry." }

/-- One coroutine of `reconcile_active_ssh_jobs`, with the jobs that it takes from the common list. -/
def reconcileWorker (fuel manager : ℕ) (jobs : List (Worker × Job)) : ManagerM Unit :=
  Prog.forEach (fun (worker, job) => logged (refreshJobStatus fuel manager worker job)) jobs

end WorkerHarness.QueueRoutes
