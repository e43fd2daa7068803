import WorkerHarness.AtomicMethods
import WorkerHarness.Binary64
import WorkerHarness.CoroutinePools
import Mathlib.Algebra.Order.Field.Rat

/-!
# The job manager

`JobManager` and `reconcile_queued_jobs` as coroutines that suspend at every awaited call:
a database method, which is one step here, or an SSH command, whose outcome comes from
outside. Any number of managers share one database; the dispatch locks of a manager are
its own. The state has the database, the launches that really happened on the workers, and
history that only theorems look at.
-/

namespace WorkerHarness

open Coroutines SharedTransactions Database SortedLists

abbrev DispatchLock := ℕ × String

inductive JobError where
  | database (e : DbError)
  | laneTimeout
  | cancelled
  | runtimeError (message : String)
  deriving DecidableEq, Repr

/-- What a job manager awaits. `none` as the answer of an SSH command is a raised exception;
`readLog` answers with the line that becomes the summary of a failure. -/
inductive JobCall : Type → Type 1 where
  | database {β : Type} (method : DbM β) : JobCall (Except DbError β)
  | getJob (jobId : String) : JobCall (Option Job)
  | insertJob (job : Job) : JobCall (Except DbError Unit)
  | claimQueuedJob (jobId : String) (gpuIndices : List ℕ) (startedAt : ℕ) (workerId : String) :
      JobCall (Except DbError (Option Job))
  | updateJob (job : Job) : JobCall (Except DbError Unit)
  | updatePendingJob (jobId : String) (workerId : Option String) (position : Option ℕ) (name : Option String)
      (expectedSeconds gpuCount : Option ℕ) : JobCall (Except DbError Job)
  | now : JobCall ℕ
  | newId : JobCall String
  | launch (workerId jobId : String) : JobCall Bool
  | launchReply (workerId jobId : String) (launched : Bool) : JobCall (Option Int)
  | jobStarted (workerId jobId : String) : JobCall (Option (Option Bool))
  | tmuxKill (workerId jobId : String) : JobCall (Option Bool)
  | tmuxRunning (workerId jobId : String) : JobCall (Option (Option Bool))
  | getExitCode (workerId jobId : String) : JobCall (Option (Option Int))
  | readLog (workerId jobId : String) : JobCall (Option String)

/-- The answers from outside; each call looks at its own field. -/
structure Answer where
  time : ℕ := 0
  id : String := ""
  launches : Bool := false
  code : Option Int := none
  evidence : Option (Option Bool) := none
  stopped : Option Bool := none
  running : Option (Option Bool) := none
  exitCode : Option (Option Int) := none
  log : Option String := none
  deriving DecidableEq, Repr

/-- The database, the ids given out, and each launch that happened, as worker and job. The rest is
history: `seen` is the row that a thread read or claimed last, `edits` the rows that accepted
edits have written since then, `requeued` the jobs that a recovery has returned to their queue
since then, and `place` the worker on which a job was claimed last. -/
structure World where
  db : Tables := {}
  issued : List String := []
  started : List (String × String) := []
  seen : ℕ → Option Job := fun _ => none
  edits : ℕ → List Job := fun _ => []
  requeued : ℕ → List String := fun _ => []
  place : String → Option String := fun _ => none

/-- The jobs that wait after a step and did not wait before it. -/
def returnedToQueue (d d' : Tables) : List String :=
  (d'.jobs.filter fun j => decide (j ∉ d.jobs) && decide (j.status = .pending) &&
    d.jobs.any fun j' => decide (j'.id = j.id) && decide (j'.status ≠ .pending)).map (·.id)

theorem returnedToQueue_self (d : Tables) : returnedToQueue d d = [] := by
  rw [returnedToQueue, List.filter_eq_nil_iff.mpr fun j hj => by simp [hj], List.map_nil]

namespace World

/-- Remember the row that thread `t` has read. -/
def read (s : World) (t : ℕ) (row : Option Job) : World :=
  { s with
    seen := fun t' => if t' = t then row else s.seen t'
    edits := fun t' => if t' = t then [] else s.edits t'
    requeued := fun t' => if t' = t then [] else s.requeued t' }

def edited (s : World) (rows : List Job) : World := { s with edits := fun t => rows ++ s.edits t }

/-- Remember where a job was claimed. -/
def placed (s : World) (jobId : String) (workerId : Option String) : World :=
  { s with place := fun id => if id = jobId then workerId else s.place id }

def withDb (s : World) (db : Tables) : World :=
  { s with db := db, requeued := fun t => returnedToQueue s.db db ++ s.requeued t }

@[simp] theorem withDb_self (s : World) : s.withDb s.db = s := by
  simp [withDb, returnedToQueue_self]

end World

/-- A return code fits what happened: 0 only after a launch, another code from 1 to 254 only
without one; 255, a negative code and an exception say nothing. -/
def codeFits (launched : Bool) (code : Option Int) : Bool :=
  match code with
  | none => true
  | some code =>
    if code = 0 then launched else if 0 < code ∧ code ≠ 255 then !launched else true

def probeFits (evidence : Bool) (answer : Option (Option Bool)) : Bool :=
  match answer with
  | some (some seen) => decide (seen = evidence)
  | _ => true

def jobInterp : Interp JobCall World Answer where
  handle
    | .database method, _, _, s => some (s.withDb (atomically method s.db).2, (atomically method s.db).1)
    | .getJob jobId, t, _, s => some (s.read t (findJob s.db jobId), findJob s.db jobId)
    | .insertJob job, t, _, s =>
      let r := atomically (Database.insertJob job) s.db
      match r.1 with
      | .ok () => some (((s.withDb r.2).read t (some job)).placed job.id job.workerId, .ok ())
      | .error e => some (s.withDb r.2, .error e)
    | .claimQueuedJob jobId gpuIndices startedAt workerId, t, _, s =>
      let r := atomically (Database.claimQueuedJob jobId gpuIndices startedAt workerId) s.db
      match r.1 with
      | .ok (some job) => some (((s.withDb r.2).read t (some job)).placed jobId (some workerId), .ok (some job))
      | r' => some (s.withDb r.2, r')
    | .updateJob job, _, _, s =>
      some (s.withDb (atomically (Database.updateJob job) s.db).2, (atomically (Database.updateJob job) s.db).1)
    | .updatePendingJob jobId workerId position name expectedSeconds gpuCount, _, _, s =>
      let r := atomically (Database.updatePendingJob jobId workerId position name expectedSeconds gpuCount) s.db
      match r.1 with
      | .ok row => some ((s.withDb r.2).edited (row :: r.2.jobs.filter fun j => decide (j ∉ s.db.jobs)), .ok row)
      | .error e => some (s.withDb r.2, .error e)
    | .now, _, a, s => some (s, a.time)
    | .newId, _, a, s => if a.id ∈ s.issued then none else some ({ s with issued := a.id :: s.issued }, a.id)
    | .launch workerId jobId, _, a, s =>
      if a.launches then some ({ s with started := (workerId, jobId) :: s.started }, true) else some (s, false)
    | .launchReply _ _ launched, _, a, s => if codeFits launched a.code then some (s, a.code) else none
    | .jobStarted workerId jobId, _, a, s =>
      if probeFits (decide ((workerId, jobId) ∈ s.started)) a.evidence then some (s, a.evidence) else none
    | .tmuxKill _ _, _, a, s => some (s, a.stopped)
    | .tmuxRunning _ _, _, a, s => some (s, a.running)
    | .getExitCode _ _, _, a, s => some (s, a.exitCode)
    | .readLog _ _, _, a, s => some (s, a.log)

abbrev ManagerM (α : Type) := Prog JobCall DispatchLock JobError α

namespace JobManager

def orRaise {β : Type} : Except DbError β → ManagerM β
  | .ok b => .ret b
  | .error e => .raise (.database e)

def database {β : Type} (method : DbM β) : ManagerM β := do orRaise (← Prog.call (.database method))

def getJob (jobId : String) : ManagerM (Option Job) := Prog.call (.getJob jobId)

def updateJob (job : Job) : ManagerM Unit := do orRaise (← Prog.call (.updateJob job))

def ssh {β : Type} (command : JobCall (Option β)) : ManagerM β := do
  match ← Prog.call command with
  | some b => return b
  | none => .raise .laneTimeout

/-- Everything between a claim and the status write. -/
def launchJob (worker : Worker) (job : Job) : ManagerM Job := do
  let launched ← Prog.call (.launch worker.id job.id)
  let code ← ssh (.launchReply worker.id job.id launched)
  if code < 0 ∨ code = 255 then
    return job
  else if code ≠ 0 then
    let finishedAt ← Prog.call .now
    let job := { job with status := .failed, exitCode := some (-1), finishedAt := finishedAt }
    updateJob job
    return job
  else
    let job := { job with status := .running }
    updateJob job
    return job

def startJob (manager : ℕ) (worker : Worker) (command : String) (name : Option String) (ptyEnabled : Bool) :
    ManagerM Job := do
  let id ← Prog.call .newId
  let startedAt ← Prog.call .now
  let job : Job :=
    { id := id
      workerId := some worker.id
      name := name.getD ""
      command := command
      status := .starting
      ptyEnabled := ptyEnabled
      startedAt := startedAt
      tmuxSession := "wh_" ++ id }
  Prog.withLock (manager, worker.id) do
    orRaise (← Prog.call (.insertJob job))
    launchJob worker job

/-- `used <= max(0.5, total * 0.1)` of two floats, whose product is rounded. -/
def MostlyFree (total used : ℚ) : Prop := used ≤ max (1 / 2) (Binary64.nearest (total * Binary64.nearest (1 / 10)))

instance (total used : ℚ) : Decidable (MostlyFree total used) := inferInstanceAs (Decidable (_ ≤ _))

def freeGpuIndices (worker : Worker) : List ℕ :=
  if worker.status ≠ .online then [] else
    (List.range worker.gpuCount).filter fun index =>
      match (worker.gpuBusy[index]?).join with
      | some busy => !busy
      | none =>
        match worker.gpuVramGb[index]?, worker.gpuUsedVramGb[index]? with
        | some total, some used => decide (MostlyFree total used)
        | _, _ => false

/-- `while True` of `dispatch_worker`, for at most `fuel` rounds. -/
def dispatchLoop (worker : Worker) (available : List ℕ) : ℕ → ManagerM (List Job)
  | 0 => return []
  | fuel + 1 => do
    let claimedIndices ← database (runningQueueGpuIndices worker.id)
    let free := available.filter fun index => index ∉ claimedIndices
    let jobs ← database (listQueuedJobs (some worker.id))
    match jobs.find? fun job => job.status = .pending with
    | none => return []
    | some head =>
      if head.gpuCount > free.length then return [] else
      let startedAt ← Prog.call .now
      let claimed ← orRaise (← Prog.call (.claimQueuedJob head.id (free.take head.gpuCount) startedAt worker.id))
      match claimed with
      | none => dispatchLoop worker available fuel
      | some claimed =>
        let result ← launchJob worker claimed
        let launched ← dispatchLoop worker available fuel
        return result :: launched

def dispatchWorker (fuel manager : ℕ) (worker : Worker) : ManagerM (List Job) :=
  if worker.status ≠ .online then return [] else
    Prog.withLock (manager, worker.id) (dispatchLoop worker (freeGpuIndices worker) fuel)

def enqueueJob (fuel manager : ℕ) (worker : Worker) (command name : String) (expectedSeconds gpuCount : ℕ)
    (ptyEnabled : Bool) : ManagerM Job := do
  let id ← Prog.call .newId
  let _ ← database (insertQueuedJob
    { id := id
      workerId := some worker.id
      name := name
      command := command
      status := .pending
      queueManaged := true
      expectedSeconds := expectedSeconds
      gpuCount := gpuCount
      ptyEnabled := ptyEnabled
      tmuxSession := "wh_" ++ id })
  let _ ← dispatchWorker fuel manager worker
  match ← getJob id with
  | none => .raise (.runtimeError "queued job disappeared after enqueue")
  | some persisted => return persisted

def reconcileStartingJob (manager : ℕ) (worker : Worker) (job : Job) : ManagerM Job :=
  Prog.withLock (manager, worker.id) do
    match ← getJob job.id with
    | none => return job
    | some persisted =>
      if persisted.status ≠ .starting then return persisted else
      match ← ssh (.jobStarted worker.id job.id) with
      | none => return persisted
      | some launchObserved =>
        let now ← Prog.call .now
        let reconciled ← database (Database.reconcileStartingJob job.id launchObserved now)
        return reconciled.getD persisted

def stoppable (status : JobStatus) : Bool := status = .starting || status = .running || status = .pending

def stopJob (fuel manager : ℕ) (worker : Worker) (jobId : String) : ManagerM Bool := do
  let (success, shouldDispatch, early) ← Prog.withLock (manager, worker.id) do
    let job ← getJob jobId
    if job.any fun job => job.workerId ≠ some worker.id then return (false, false, true)
    else if job.any fun job => job.status = .done || job.status = .failed then return (true, false, true)
    else if job.any fun job => job.queueManaged && decide (job.status = .pending) then
      let finishedAt ← Prog.call .now
      let stopped ← database (failPendingJob jobId finishedAt)
      return (stopped.isSome, stopped.isSome, false)
    else
      let success ← ssh (.tmuxKill worker.id jobId)
      if !success then return (false, false, false) else
      match ← getJob jobId with
      | none => return (true, false, false)
      | some job =>
        if !stoppable job.status then return (true, false, false) else
        let finishedAt ← Prog.call .now
        updateJob { job with status := .failed, exitCode := some (-1), finishedAt := finishedAt }
        return (true, job.queueManaged, false)
  if !early && shouldDispatch then
    let _ ← dispatchWorker fuel manager worker
  return success

def recordFailure (worker : Worker) (job : Job) : ManagerM Unit := do
  let summary ← ssh (.readLog worker.id job.id)
  let timestamp ← Prog.call .now
  database (insertFailure
    { jobId := job.id
      workerId := worker.id
      exitCode := match job.exitCode with
        | some code => if code = 0 then -1 else code
        | none => -1
      timestamp := timestamp
      summary := summary })

/-- The part of `refresh_job_status` under the lock; the flag says that the job has finished. -/
def refreshUnderLock (worker : Worker) (job : Job) : ManagerM (Job × Bool) := do
  match ← getJob job.id with
  | none => return (job, false)
  | some job =>
    if job.workerId ≠ some worker.id then return (job, false) else
    if job.status ≠ .running ∧ job.status ≠ .pending then return (job, false) else
    if job.queueManaged ∧ job.status = .pending then return (job, false) else
    let isRunning ← ssh (.tmuxRunning worker.id job.id)
    if isRunning ≠ some false then return (job, false) else
    match ← ssh (.getExitCode worker.id job.id) with
    | none => return (job, false)
    | some exitCode =>
      let finishedAt ← Prog.call .now
      let job := { job with
        status := if exitCode ≠ 0 then .failed else .done
        exitCode := some exitCode
        finishedAt := finishedAt }
      updateJob job
      return (job, true)

def refreshJobStatus (fuel manager : ℕ) (worker : Worker) (job : Job) : ManagerM Job := do
  let (job, finished) ← Prog.withLock (manager, worker.id) (refreshUnderLock worker job)
  if !finished then return job else
  if job.status = .failed then
    recordFailure worker job
  if job.queueManaged then
    let _ ← dispatchWorker fuel manager worker
  return job

end JobManager

def recoveryKey (j : Job) : ℕ ×ₗ ℕ ×ₗ String := toLex (j.startedAt, toLex (j.queueOrder, j.id))

/-- `try: … except Exception: log`. -/
def logged {α : Type} (p : ManagerM α) : ManagerM Unit := p.attempt.bind fun _ => .ret ()

def onlineWorkers (workers : List Worker) : List Worker := workers.filter fun worker => worker.status = .online

def recoverable (workers : List Worker) (jobs : List Job) : List Job :=
  jobs.filter fun job =>
    decide (job.kind = .ssh) && workers.any fun worker => decide (job.workerId = some worker.id)

def recoverOne (manager : ℕ) (workers : List Worker) (job : Job) : ManagerM Unit :=
  match workers.find? fun worker => decide (job.workerId = some worker.id) with
  | none => .ret ()
  | some worker => logged (JobManager.reconcileStartingJob manager worker job)

def recoverStarting (manager : ℕ) : ManagerM (List Worker) := do
  let rows ← JobManager.database listWorkers
  let jobs ← JobManager.database (listJobs none (some .starting))
  Prog.forEach (recoverOne manager (onlineWorkers rows))
    (sortOn recoveryKey (recoverable (onlineWorkers rows) jobs)).reverse
  return onlineWorkers rows

def reconcileQueuedJobs (fuel manager : ℕ) : ManagerM Unit := do
  let workers ← recoverStarting manager
  Prog.forEach (fun worker => logged (JobManager.dispatchWorker fuel manager worker)) workers

end WorkerHarness
