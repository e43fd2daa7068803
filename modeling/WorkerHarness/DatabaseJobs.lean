import WorkerHarness.DatabaseTables

/-!
# Worker and job methods of the database

Each method of `db.py` as a coroutine over the shared connection, with one effect for
every awaited statement, commit and rollback.
-/

namespace WorkerHarness

open Coroutines SharedTransactions SortedLists

namespace Job

/-- A job as `insert_queued_job` stores it. -/
def enqueued (queueOrder : ℕ) (j : Job) : Job :=
  { j with
    queueManaged := true
    status := .pending
    gpuIndices := []
    queueOrder := queueOrder
    startedAt := 0
    finishedAt := 0 }

def claimed (gpuIndices : List ℕ) (startedAt : ℕ) (j : Job) : Job :=
  { j with status := .starting, gpuIndices := gpuIndices, startedAt := startedAt }

/-- An edit of a pending job that read the row `row`; `none` keeps the value read. -/
def edited (row : Job) (workerId : Option String) (name : Option String)
    (expectedSeconds gpuCount : Option ℕ) (j : Job) : Job :=
  { j with
    workerId := workerId
    name := name.getD row.name
    expectedSeconds := expectedSeconds.getD row.expectedSeconds
    gpuCount := gpuCount.getD row.gpuCount }

def cancelled (finishedAt : ℕ) (j : Job) : Job :=
  { j with status := .failed, exitCode := some (-1), finishedAt := finishedAt, queueOrder := 0 }

def launched (j : Job) : Job := { j with status := .running }

/-- Back to the front of the queue, without a claim. -/
def recovered (j : Job) : Job :=
  { j with status := .pending, gpuIndices := [], startedAt := 0, queueOrder := 1 }

def neverLaunched (now : ℕ) (j : Job) : Job :=
  { j with status := .failed, exitCode := some (-1), finishedAt := now }

def withOrder (n : ℕ) (j : Job) : Job := { j with queueOrder := n }

/-- `ORDER BY queue_order, id`. -/
def orderKey (j : Job) : ℕ ×ₗ String := toLex (j.queueOrder, j.id)

end Job

namespace Database

/-- `executemany("UPDATE jobs SET queue_order = ? WHERE id = ?", enumerate(ids, n))`. -/
def renumberFrom (n : ℕ) : List String → List Job → List Job
  | [], jobs => jobs
  | id :: ids, jobs =>
    renumberFrom (n + 1) ids (updateRows (fun j => j.id = id) (Job.withOrder n) jobs)

theorem renumberFrom_of_absent (n : ℕ) (ids : List String) (jobs : List Job)
    (h : ∀ j ∈ jobs, j.id ∉ ids) : renumberFrom n ids jobs = jobs := by
  induction ids generalizing n with
  | nil => rfl
  | cons id ids ih =>
    rw [renumberFrom, updateRows_of_none fun j hj => by simp [show j.id ≠ id from fun he => h j hj (by simp [he])]]
    exact ih (n + 1) fun j hj hmem => h j hj (List.mem_cons_of_mem _ hmem)

def renumber (ids : List String) : Statement Tables where
  apply d := { d with jobs := renumberFrom 1 ids d.jobs }
  rowcount d := (d.jobs.filter fun j => decide (j.id ∈ ids)).length
  unchanged d h := by
    have hp : ∀ j ∈ d.jobs, j.id ∉ ids := by
      simpa [List.length_eq_zero_iff, List.filter_eq_nil_iff] using h
    rw [renumberFrom_of_absent 1 ids d.jobs hp]

def findJob (d : Tables) (id : String) : Option Job := d.jobs.find? fun j => j.id = id

def findWorker (d : Tables) (id : String) : Option Worker := d.workers.find? fun w => w.id = id

/-- The pending rows of worker `w` in queue order. -/
def queueOf (jobs : List Job) (w : String) : List Job := sortOn Job.orderKey (jobs.filter (Job.pendingOn w))

def pendingQueue (d : Tables) (w : String) : List Job := queueOf d.jobs w

/-- The same for a nullable worker column: a comparison with `NULL` selects no row. -/
def pendingIds (d : Tables) : Option String → List String
  | none => []
  | some w => (pendingQueue d w).map (·.id)

/-- `COALESCE(MAX(queue_order), 0)` over the waiting and active rows of a worker. -/
def topQueueOrder (d : Tables) : Option String → ℕ
  | none => 0
  | some w => ((d.jobs.filter fun j => j.pendingOn w || j.activeOn w).map (·.queueOrder)).foldr max 0

/-- An active row of `w` already holds one of the indices. -/
def indexTaken (d : Tables) (w : String) (indices : List ℕ) : Bool :=
  d.jobs.any fun j => j.activeOn w && j.gpuIndices.any fun i => decide (i ∈ indices)

/-- `id = ? AND queue_managed = 1 AND status = 'pending'`. -/
def pendingRow (jobId : String) (j : Job) : Bool :=
  decide (j.id = jobId) && j.queueManaged && decide (j.status = .pending)

/-- `id = ? AND status = 'starting'`. -/
def startingRow (jobId : String) (j : Job) : Bool := decide (j.id = jobId) && decide (j.status = .starting)

/-- `ORDER BY` key of `list_queued_jobs`. -/
def queuedKey (j : Job) : ℕ ×ₗ String ×ₗ ℕ ×ₗ ℕ ×ₗ ℕ ×ₗ String :=
  toLex (if j.workerId = none then 0 else 1, toLex (j.workerId.getD "",
    toLex (match j.status with
      | .starting => 0
      | .running => 1
      | _ => 2,
    toLex (if j.status = .pending then j.queueOrder else j.startedAt, toLex (j.queueOrder, j.id)))))

def queuedRows (d : Tables) (workerId : Option String) : List Job :=
  sortOn queuedKey (d.jobs.filter fun j => j.queueManaged &&
    (decide (j.status = .starting) || decide (j.status = .running) || decide (j.status = .pending)) &&
    (workerId.isNone || decide (j.workerId = workerId)))

def claimedIndices (d : Tables) (w : String) : List ℕ :=
  (d.jobs.filter (Job.activeOn w)).flatMap (·.gpuIndices)

def getWorker (workerId : String) : DbM (Option Worker) := query (findWorker · workerId)

def listWorkers : DbM (List Worker) :=
  query fun d => sortOn (·.name) d.workers

def upsertWorker (reg : WorkerRegistration) (now : ℕ) : DbM Worker := do
  let existing ← getWorker reg.workerId
  match existing with
  | some worker =>
    let updated := worker.updateFromRegistration reg now
    let _ ← execute (update workersTable (fun _ w => w.id = updated.id) fun w =>
      { updated with id := w.id, createdAt := w.createdAt })
    commit
    return updated
  | none =>
    let worker := Worker.fromRegistration reg now
    insertRow (insertInto workersTable (·.id) worker)
    commit
    return worker

def markWorkersOffline (cutoffTs : ℕ) : DbM ℕ := do
  let rowcount ← execute (update workersTable
    (fun _ w => decide (w.lastHeartbeatTs < cutoffTs) && decide (w.status ≠ .offline))
    fun w => { w with status := .offline })
  commit
  return rowcount

def setWorkerStatus (workerId : String) (status : WorkerStatus) : DbM Unit := do
  let _ ← execute (update workersTable (fun _ w => w.id = workerId) fun w => { w with status := status })
  commit

def deleteWorker (workerId : String) : DbM Bool := do
  let _ ← execute (deleteFrom jobsTable fun j => decide (j.workerId = some workerId))
  let rowcount ← execute (deleteFrom workersTable fun w => w.id = workerId)
  commit
  return decide (rowcount > 0)

def pruneWorkers (olderThanTs : ℕ) : DbM ℕ := do
  let rowcount ← execute (deleteFrom workersTable fun w => decide (w.lastHeartbeatTs < olderThanTs))
  commit
  return rowcount

def insertJob (job : Job) : DbM Unit := do
  insertRow (insertInto jobsTable (·.id) job)
  commit

/-- A full-row update: every column takes the value of the job object. -/
def updateJob (job : Job) : DbM Unit := do
  let _ ← execute (update jobsTable (fun _ j => j.id = job.id) fun _ => job)
  commit

def getJob (jobId : String) : DbM (Option Job) := query (findJob · jobId)

/-- The rows of `list_jobs`, newest start first. -/
def jobRows (d : Tables) (workerId : Option String) (status : Option JobStatus) : List Job :=
  sortOn (fun j => OrderDual.toDual j.startedAt) (d.jobs.filter fun j =>
    (workerId.isNone || decide (j.workerId = workerId)) && (status.isNone || decide (some j.status = status)))

def listJobs (workerId : Option String) (status : Option JobStatus) : DbM (List Job) :=
  query (jobRows · workerId status)

def insertQueuedJob (job : Job) : DbM Job := Prog.withLock .queue do
  let top ← query (topQueueOrder · job.workerId)
  let job := job.enqueued (top + 1)
  insertRow (insertInto jobsTable (·.id) job)
  commit
  return job

def listQueuedJobs (workerId : Option String) : DbM (List Job) := query (queuedRows · workerId)

/-- The `WHERE` clause of the claim: the row waits on this worker, asks for as many GPUs as
are offered, is the head of its queue, and no active row of the worker holds one of them. -/
def claimable (jobId : String) (gpuIndices : List ℕ) (workerId : String) (d : Tables) (j : Job) : Bool :=
  decide (j.id = jobId) && j.pendingOn workerId && decide (j.gpuCount = gpuIndices.length) &&
    decide (some j.id = (pendingQueue d workerId).head?.map (·.id)) && !indexTaken d workerId gpuIndices

def claimQueuedJob (jobId : String) (gpuIndices : List ℕ) (startedAt : ℕ) (workerId : String) :
    DbM (Option Job) := Prog.withLock .queue do
  let rowcount ← execute (update jobsTable (claimable jobId gpuIndices workerId)
    (Job.claimed gpuIndices startedAt))
  if rowcount = 0 then
    rollback
    return none
  else
    commit
    getJob jobId

/-- `AND id != ?` over a queue. -/
def otherIds (jobId : String) (ids : List String) : List String := ids.filter fun id => id ≠ jobId

/-- `list.insert` at a requested position, or at the end. -/
def placedAt (position : Option ℕ) (jobId : String) (ids : List String) : List String :=
  match position with
  | none => ids.insertIdx ids.length jobId
  | some position => ids.insertIdx (min (position - 1) ids.length) jobId

/-- The destination list of `update_pending_job` with the job inserted. -/
def destinationIds (jobId : String) (position : Option ℕ) (sourceWorkerId destinationWorkerId : Option String)
    (sourceIds : List String) : DbM (List String) :=
  if destinationWorkerId = sourceWorkerId then
    if position = none then do
      let originalIds ← query (pendingIds · sourceWorkerId)
      match originalIds.findIdx? fun id => id = jobId with
      | none => .raise (.runtimeError "coroutine raised StopIteration")
      | some index => return sourceIds.insertIdx index jobId
    else return placedAt position jobId sourceIds
  else do
    let ids ← query (pendingIds · destinationWorkerId)
    return placedAt position jobId ids

/-- `worker_id if worker_id is not None else row["worker_id"]`. -/
def destinationOf (workerId : Option String) (row : Job) : Option String :=
  if workerId.isSome then workerId else row.workerId

def updatePendingJob (jobId : String) (workerId : Option String) (position : Option ℕ)
    (name : Option String) (expectedSeconds gpuCount : Option ℕ) : DbM Job :=
  Prog.withLock .queue do
    let row ← query fun d => d.jobs.find? fun j => decide (j.id = jobId) && j.queueManaged
    match row with
    | none => .raise (.keyError jobId)
    | some row =>
      if row.status ≠ .pending then .raise (.valueError "queued job is not pending") else
      let destinationWorkerId := destinationOf workerId row
      let destinationWorker ← query fun d => destinationWorkerId.bind (findWorker d)
      match destinationWorker with
      | none => .raise (.valueError "destination worker no longer exists")
      | some destination =>
        if gpuCount.getD row.gpuCount > destination.gpuCount then
          .raise (.valueError "gpu_count exceeds destination worker capacity") else
        let sourceIds ← query fun d => otherIds jobId (pendingIds d row.workerId)
        let ids ← destinationIds jobId position row.workerId destinationWorkerId sourceIds
        let rowcount ← execute (update jobsTable
          (fun _ => pendingRow jobId) (Job.edited row destinationWorkerId name expectedSeconds gpuCount))
        if rowcount = 0 then
          rollback
          .raise (.valueError "queued job is not pending")
        else
          if destinationWorkerId ≠ row.workerId then
            let _ ← execute (renumber sourceIds)
          let _ ← execute (renumber ids)
          commit
          let updated ← getJob jobId
          match updated with
          | none => .raise (.runtimeError "queued job disappeared after update")
          | some updated => return updated

def failPendingJob (jobId : String) (finishedAt : ℕ) : DbM (Option Job) := Prog.withLock .queue do
  let row ← query fun d => d.jobs.find? (pendingRow jobId)
  match row with
  | none => return none
  | some row =>
    let rowcount ← execute (update jobsTable (fun _ => pendingRow jobId) (Job.cancelled finishedAt))
    if rowcount = 0 then
      rollback
      return none
    else
      let pending ← query (pendingIds · row.workerId)
      let _ ← execute (renumber pending)
      commit
      getJob jobId

def runningQueueGpuIndices (workerId : String) : DbM (List ℕ) := query (claimedIndices · workerId)

/-- `now` is the `unixepoch()` of the SQL text. -/
def reconcileStartingJob (jobId : String) (launchObserved : Bool) (now : ℕ) : DbM (Option Job) :=
  Prog.withLock .queue do
    let row ← query fun d => d.jobs.find? (startingRow jobId)
    match row with
    | none => return none
    | some row =>
      let rowcount ←
        if launchObserved then
          execute (update jobsTable (fun _ => startingRow jobId) Job.launched)
        else if row.queueManaged then do
          let _ ← execute (update jobsTable
            (fun _ j => row.workerId.any fun w => j.pendingOn w) fun j => j.withOrder (j.queueOrder + 1))
          execute (update jobsTable (fun _ j => startingRow jobId j && j.queueManaged) Job.recovered)
        else
          execute (update jobsTable (fun _ => startingRow jobId) (Job.neverLaunched now))
      if rowcount = 0 then
        rollback
        return none
      else
        commit
        getJob jobId

def insertFailure (failure : Failure) : DbM Unit := do
  let _ ← execute (appendTo failuresTable failure)
  commit

def reportedJob (workerId : String) (report : WorkerJobReport) : Job where
  id := report.id
  workerId := some workerId
  tmuxSession := report.tmuxSession
  command := report.command
  status := report.status
  exitCode := report.exitCode
  ptyEnabled := report.ptyEnabled
  kind := .delegated
  originSessionId := some report.originSessionId
  reportRevision := report.reportRevision
  startedAt := report.startedAt
  finishedAt := report.finishedAt

/-- `INSERT … ON CONFLICT(id) DO UPDATE … WHERE` of a report: the stored row changes only when
it belongs to the same worker and session, is delegated and has an older revision. -/
def upsertReport (workerId : String) (report : WorkerJobReport) : Statement Tables where
  apply d :=
    if d.jobs.any (fun j => j.id = report.id) then
      { d with jobs := updateRows reported overwrite d.jobs }
    else { d with jobs := d.jobs ++ [reportedJob workerId report] }
  rowcount d :=
    if d.jobs.any (fun j => j.id = report.id) then (d.jobs.filter fun j => reported j).length else 1
  unchanged d h := by
    split at h
    · next hany =>
      have hp : ∀ j ∈ d.jobs, reported j = false := by
        simpa [List.length_eq_zero_iff, List.filter_eq_nil_iff] using h
      rw [if_pos hany, updateRows_of_none hp]
    · cases h
where
  reported (j : Job) : Bool :=
    decide (j.id = report.id) && decide (j.workerId = some workerId) &&
      decide (j.originSessionId = some report.originSessionId) && decide (j.kind = .delegated) &&
      decide (j.reportRevision < report.reportRevision)
  overwrite (j : Job) : Job :=
    { reportedJob workerId report with
      workerId := j.workerId, kind := j.kind, originSessionId := j.originSessionId }

def upsertReportedWorkerJob (workerId : String) (report : WorkerJobReport) : DbM (Job × Bool) :=
  Prog.withLock .workerJobReport do
    let session ← query fun d => d.sessions.find? fun s => s.id = report.originSessionId
    match session with
    | none => .raise (.keyError report.originSessionId)
    | some session =>
      if session.workerId ≠ some workerId then
        .raise (.valueError "origin session not found for worker") else
      let rowcount ← execute (upsertReport workerId report)
      let changed := decide (rowcount ≠ 0)
      let row ← query (findJob · report.id)
      match row with
      | none =>
        rollback
        .raise (.runtimeError "worker job report was not persisted")
      | some job =>
        if job.workerId ≠ some workerId ∨ job.originSessionId ≠ some report.originSessionId then
          rollback
          .raise (.valueError "job identity does not belong to worker origin session")
        else
          commit
          return (job, changed)

end Database

end WorkerHarness
