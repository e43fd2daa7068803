import WorkerHarness.ExitMarkers
import WorkerHarness.JobLifecycles

/-!
# Verdicts on jobs

Any number of job managers, the control server's and those of the command line, read the logs of the jobs and
write what they read into the rows. Whatever the order of their steps, and whatever gets lost, a row that says that
a job has ended with a status of its own is right, if the job prints no line that starts like the marker.
-/

namespace WorkerHarness.JobVerdicts

open Coroutines SharedTransactions Database JobManager JobMoves JobContracts JobLifecycles QueueRoutes ExitMarkers
open WorkerReports (applyReports receiveReports)

/-- What each job prints on its worker, and the status with which its command has ended. -/
structure Host where
  output : String → Output
  status : String → Option (Fin 256)

variable {host : Host} {α β : Type} {jobId : String} {j job : Job} {worker : Worker} {s₀ : World}

def Host.Log (host : Host) (jobId : String) : CodePoints.Str → Prop :=
  Moment (host.output jobId).val (host.status jobId)

def Host.Marks (host : Host) (jobId : String) : Prop := StartsLine inUnixLine marker (host.output jobId).val

/-- The commands that read a log fail, or they read it. -/
def FromLogs (host : Host) : (β : Type) → JobCall β → β → Prop
  | _, .tmuxRunning _ jobId, answer => ∀ isRunning, answer = some (some isRunning) →
      ∃ log, host.Log jobId log ∧ isRunning = sshTmuxRunning log
  | _, .getExitCode _ jobId, answer => ∀ code, answer = some (some code) →
      ∃ log, host.Log jobId log ∧ sshGetExitCode log = some code
  | _, _, _ => True

/-- The row has no verdict, a failure that the manager made up, or the status of the command. -/
structure Truthful (host : Host) (j : Job) : Prop where
  done : j.status = .done → j.exitCode = some 0 ∧ host.status j.id = some 0
  failed : j.status = .failed →
    j.exitCode = some (-1) ∨ ∃ code : Fin 256, code ≠ 0 ∧ host.status j.id = some code ∧
      j.exitCode = some (code : ℤ)

def Judged (host : Host) (j : Job) : Prop := j.kind = .ssh → ¬host.Marks j.id → Truthful host j

theorem judged_of_active (h : j.status ≠ .done) (h' : j.status ≠ .failed) : Judged host j :=
  fun _ _ => ⟨fun hs => absurd hs h, fun hs => absurd hs h'⟩

theorem judged_of_delegated (h : j.kind = .delegated) : Judged host j :=
  fun hssh => absurd (h.symm.trans hssh) (by simp)

theorem judged_of_madeUp (hs : j.status = .failed) (hcode : j.exitCode = some (-1)) : Judged host j :=
  fun _ _ => ⟨fun hdone => by simp [hs] at hdone, fun _ => .inl hcode⟩

theorem judged_withOrder (n : ℕ) (h : Judged host j) : Judged host (j.withOrder n) := fun hssh hmarks =>
  ⟨(h hssh hmarks).done, (h hssh hmarks).failed⟩

/-- The verdict of a refresh. -/
theorem judged_of_exitCode {code : ℤ} {finishedAt : ℕ}
    (hlog : FromLogs host _ (.getExitCode worker.id job.id) (some (some code))) :
    Judged host
      { job with status := if code ≠ 0 then .failed else .done, exitCode := some code, finishedAt := finishedAt } :=
  by
  intro _ hmarks
  obtain ⟨log, hmoment, hread⟩ := hlog code rfl
  obtain ⟨status, hstatus, rfl⟩ := hmoment.exitCode_eq hmarks hread
  by_cases hcode : status = 0
  · subst hcode
    exact ⟨fun _ => ⟨rfl, hstatus⟩, fun hs => by simp at hs⟩
  · exact ⟨fun hs => absurd (by simpa using hs) hcode, fun _ => .inr ⟨status, hcode, hstatus, rfl⟩⟩

def AllJudged (host : Host) (d : Tables) : Prop := ∀ j ∈ d.jobs, Judged host j

def KeepsJudged (host : Host) (method : DbM β) : Prop :=
  ∀ d, AllJudged host d → AllJudged host (atomically method d).2

theorem keepsJudged_of_keepsJobs {method : DbM β} (h : KeepsJobs method) : KeepsJudged host method := fun d hd => by
  unfold AllJudged
  rw [h d]
  exact hd

theorem keepsJudged_query (q : Tables → β) : KeepsJudged host (query q) := keepsJudged_of_keepsJobs fun _ => rfl

section Rows

variable {p : Job → Bool} {f : Job → Job} {jobs : List Job}

theorem judged_updateRows (h : ∀ j ∈ jobs, Judged host j) (hf : ∀ j ∈ jobs, p j = true → Judged host (f j)) :
    ∀ j ∈ updateRows p f jobs, Judged host j := by
  intro j hj
  obtain ⟨row, hrow, rfl⟩ := List.mem_map.mp hj
  split
  · next hp => exact hf row hrow hp
  · exact h row hrow

theorem judged_renumberFrom (h : ∀ j ∈ jobs, Judged host j) (n : ℕ) (ids : List String) :
    ∀ j ∈ renumberFrom n ids jobs, Judged host j := by
  induction ids generalizing n jobs with
  | nil => exact h
  | cons id ids ih => exact ih (judged_updateRows h fun j hj _ => judged_withOrder n (h j hj)) (n + 1)

theorem judged_append (h : ∀ j ∈ jobs, Judged host j) (hjob : Judged host job) :
    ∀ j ∈ jobs ++ [job], Judged host j := by
  intro j hj
  rcases List.mem_append.mp hj with hj | hj
  · exact h j hj
  · exact List.mem_singleton.mp hj ▸ hjob

end Rows

theorem allJudged_insertJob (hjob : Judged host job) : KeepsJudged host (Database.insertJob job) := by
  intro d hd
  rw [atomically_insertJob]
  split
  · exact hd
  · exact judged_append hd hjob

theorem allJudged_updateJob (hjob : Judged host job) : KeepsJudged host (Database.updateJob job) := by
  intro d hd
  rw [atomically_updateJob]
  exact judged_updateRows hd fun _ _ _ => hjob

theorem keepsJudged_insertQueuedJob (job : Job) : KeepsJudged host (insertQueuedJob job) := by
  intro d hd
  rw [atomically_insertQueuedJob]
  split
  · exact hd
  · exact judged_append hd (judged_of_active (by simp [Job.enqueued]) (by simp [Job.enqueued]))

theorem keepsJudged_claimQueuedJob (jobId : String) (gpuIndices : List ℕ) (startedAt : ℕ) (workerId : String) :
    KeepsJudged host (claimQueuedJob jobId gpuIndices startedAt workerId) := by
  intro d hd
  rw [atomically_claimQueuedJob]
  split
  · exact judged_updateRows hd fun _ _ _ => judged_of_active (by simp [Job.claimed]) (by simp [Job.claimed])
  · exact hd

theorem keepsJudged_failPendingJob (jobId : String) (finishedAt : ℕ) :
    KeepsJudged host (failPendingJob jobId finishedAt) := by
  intro d hd
  rw [atomically_failPendingJob]
  split
  · exact hd
  · exact judged_renumberFrom (judged_updateRows hd fun _ _ _ => judged_of_madeUp rfl rfl) 1 _

theorem keepsJudged_reconcileStartingJob (jobId : String) (launchObserved : Bool) (now : ℕ) :
    KeepsJudged host (Database.reconcileStartingJob jobId launchObserved now) := by
  intro d hd
  rw [atomically_reconcileStartingJob]
  split
  · exact hd
  · next row _ =>
    change ∀ j ∈ (reconciledTables row launchObserved now d).jobs, Judged host j
    unfold reconciledTables
    rw [withJobs_jobs]
    split
    · exact judged_updateRows hd fun _ _ _ => judged_of_active (by simp [Job.launched]) (by simp [Job.launched])
    · split
      · refine judged_updateRows ?_ fun _ _ _ => judged_of_active (by simp [Job.recovered])
          (by simp [Job.recovered])
        exact judged_updateRows hd fun j hj _ => judged_withOrder _ (hd j hj)
      · exact judged_updateRows hd fun _ _ _ => judged_of_madeUp rfl rfl

theorem keepsJudged_updatePendingJob (jobId : String) (workerId : Option String) (position : Option ℕ)
    (name : Option String) (expectedSeconds gpuCount : Option ℕ) :
    KeepsJudged host (updatePendingJob jobId workerId position name expectedSeconds gpuCount) := by
  intro d hd
  have hedited : ∀ (row : Job) (destination : Option String) (ids : List String),
    AllJudged host (editedTables row destination ids name expectedSeconds gpuCount d) := by
    intro row destination ids
    have hrows : ∀ j ∈ updateRows (pendingRow row.id) (Job.edited row destination name expectedSeconds gpuCount)
        d.jobs,
        Judged host j := by
      refine judged_updateRows hd fun j _ hp => ?_
      have hs : (row.edited destination name expectedSeconds gpuCount j).status = .pending :=
        (pendingRow_iff.mp hp).2.2
      exact judged_of_active (by simp [hs]) (by simp [hs])
    unfold AllJudged editedTables editedJobs
    rw [withJobs_jobs]
    refine judged_renumberFrom ?_ 1 ids
    split
    · exact judged_renumberFrom hrows 1 _
    · exact hrows
  rw [atomically_updatePendingJob]
  dsimp only
  split
  · exact hd
  · split
    · exact hd
    · split
      · exact hd
      · split
        · exact hd
        · split
          · exact hd
          · split <;> exact hedited _ _ _

theorem keepsJudged_upsertReportedWorkerJob (workerId : String) (report : WorkerJobReport) :
    KeepsJudged host (upsertReportedWorkerJob workerId report) := by
  intro d hd
  unfold AllJudged
  rcases jobs_upsertReportedWorkerJob workerId report d with hjobs | hjobs
  · rw [hjobs]
    exact hd
  · rw [hjobs, jobs_upsertReport]
    split
    · refine judged_updateRows hd fun j _ hp => judged_of_delegated ?_
      simp only [upsertReport.reported, Bool.and_eq_true, decide_eq_true_eq] at hp
      exact hp.1.2
    · exact judged_append hd (judged_of_delegated rfl)

theorem keepsJudged_deleteWorker (workerId : String) : KeepsJudged host (Database.deleteWorker workerId) := by
  intro d hd j hj
  refine hd j ?_
  have hjobs : (atomically (Database.deleteWorker workerId) d).2.jobs =
      d.jobs.filter fun j => !decide (j.workerId = some workerId) := by
    simp [atomically, Database.deleteWorker, deleteFrom, jobsTable, workersTable]
  exact List.mem_of_mem_filter (hjobs ▸ hj)

/-- What the managers may ask for. -/
def Keeps (host : Host) : (β : Type) → JobCall β → Prop
  | _, .database method => KeepsJudged host method
  | _, .insertJob job => Judged host job
  | _, .updateJob job => Judged host job
  | _, _ => True

abbrev Honest (host : Host) (p : ManagerM α) : Prop := p.Issues (FromLogs host) (Keeps host) fun _ => True

theorem honest_orRaise {r : Except DbError α} : Honest host (orRaise r) := by
  cases r <;> trivial

theorem honest_database {method : DbM α} (h : KeepsJudged host method) : Honest host (database method) :=
  ⟨h, fun _ _ => honest_orRaise⟩

theorem honest_query (q : Tables → α) : Honest host (database (query q)) := honest_database (keepsJudged_query q)

theorem honest_updateJob (h : Judged host job) : Honest host (JobManager.updateJob job) :=
  ⟨h, fun _ _ => honest_orRaise⟩

theorem honest_ssh {command : JobCall (Option α)} {f : α → ManagerM β} (hcommand : Keeps host _ command)
    (hf : ∀ a, FromLogs host _ command (some a) → Honest host (f a)) : Honest host ((ssh command).bind f) := by
  refine ⟨hcommand, fun answer hanswer => ?_⟩
  cases answer with
  | none => trivial
  | some a => exact hf a hanswer

theorem honest_getJob (jobId : String) : Honest host (JobManager.getJob jobId) := ⟨trivial, fun _ _ => trivial⟩

theorem honest_discard {p : ManagerM α} (h : Honest host p) : Honest host (JobLifecycles.discard p) :=
  h.bind fun _ _ => trivial

theorem honest_logged {p : ManagerM α} (h : Honest host p) : Honest host (logged p) :=
  h.attempt.bind fun _ _ => trivial

theorem honest_forEach {f : α → ManagerM Unit} (h : ∀ a, Honest host (f a)) (as : List α) :
    Honest host (Prog.forEach f as) := by
  induction as with
  | nil => trivial
  | cons a as ih => exact (h a).bind fun _ _ => ih

theorem honest_launchJob (worker : Worker) (job : Job) : Honest host (launchJob worker job) := by
  refine ⟨trivial, fun launched _ => honest_ssh trivial fun code _ => ?_⟩
  split
  · trivial
  · split
    · exact ⟨trivial, fun _ _ => (honest_updateJob (judged_of_madeUp rfl rfl)).bind fun _ _ => trivial⟩
    · exact (honest_updateJob (judged_of_active (by simp) (by simp))).bind fun _ _ => trivial

theorem honest_startJob (manager : ℕ) (worker : Worker) (command : String) (name : Option String)
    (ptyEnabled : Bool) :
    Honest host (startJob manager worker command name ptyEnabled) := by
  refine ⟨trivial, fun id _ => ⟨trivial, fun startedAt _ => Prog.Issues.withLock ?_⟩⟩
  refine ⟨judged_of_active (by simp) (by simp), fun r _ => honest_orRaise.bind fun _ _ => ?_⟩
  exact honest_launchJob worker _

theorem honest_dispatchLoop (worker : Worker) (available : List ℕ) (fuel : ℕ) :
    Honest host (dispatchLoop worker available fuel) := by
  induction fuel with
  | zero => trivial
  | succ fuel ih =>
    refine (honest_query _).bind fun claimed _ => (honest_query _).bind fun jobs _ => ?_
    split
    · trivial
    · split
      · trivial
      · refine ⟨trivial, fun startedAt _ => ⟨trivial, fun r _ => honest_orRaise.bind fun claimed _ => ?_⟩⟩
        cases claimed with
        | none => exact ih
        | some job => exact (honest_launchJob worker job).bind fun _ _ => ih.bind fun _ _ => trivial

theorem honest_dispatchWorker (fuel manager : ℕ) (worker : Worker) :
    Honest host (dispatchWorker fuel manager worker) := by
  unfold dispatchWorker
  split
  · trivial
  · exact (honest_dispatchLoop worker _ fuel).withLock

theorem honest_enqueueJob (fuel manager : ℕ) (worker : Worker) (command name : String)
    (expectedSeconds gpuCount : ℕ)
    (ptyEnabled : Bool) : Honest host (enqueueJob fuel manager worker command name expectedSeconds gpuCount
      ptyEnabled) := by
  refine ⟨trivial, fun id _ => (honest_database (keepsJudged_insertQueuedJob _)).bind fun _ _ => ?_⟩
  refine (honest_dispatchWorker fuel manager worker).bind fun _ _ => (honest_getJob id).bind fun persisted _ => ?_
  cases persisted <;> trivial

theorem honest_reconcileStartingJob (manager : ℕ) (worker : Worker) (job : Job) :
    Honest host (JobManager.reconcileStartingJob manager worker job) := by
  refine Prog.Issues.withLock ((honest_getJob job.id).bind fun persisted _ => ?_)
  cases persisted with
  | none => trivial
  | some persisted =>
    dsimp only
    split
    · trivial
    · refine honest_ssh trivial fun observed _ => ?_
      cases observed with
      | none => trivial
      | some launchObserved =>
        refine ⟨trivial, fun now _ => ?_⟩
        exact (honest_database (keepsJudged_reconcileStartingJob _ _ _)).bind fun _ _ => trivial

theorem honest_recordFailure (worker : Worker) (job : Job) : Honest host (recordFailure worker job) := by
  refine honest_ssh trivial fun summary _ => ⟨trivial, fun timestamp _ => ?_⟩
  exact honest_database (keepsJudged_of_keepsJobs (keepsJobs_insertFailure _))

/-- What a refresh writes comes from the log. -/
theorem honest_refreshUnderLock (worker : Worker) (job : Job) : Honest host (refreshUnderLock worker job) := by
  refine (honest_getJob job.id).bind fun persisted _ => ?_
  cases persisted with
  | none => trivial
  | some job =>
    dsimp only
    split
    · trivial
    split
    · trivial
    split
    · trivial
    refine honest_ssh trivial fun isRunning _ => ?_
    split
    · trivial
    refine honest_ssh trivial fun exitCode hlog => ?_
    cases exitCode with
    | none => trivial
    | some exitCode =>
      refine ⟨trivial, fun finishedAt _ => ?_⟩
      exact (honest_updateJob (judged_of_exitCode hlog)).bind fun _ _ => trivial

theorem honest_refreshJobStatus (fuel manager : ℕ) (worker : Worker) (job : Job) :
    Honest host (refreshJobStatus fuel manager worker job) := by
  refine (honest_refreshUnderLock worker job).withLock.bind fun result _ => ?_
  obtain ⟨job, finished⟩ := result
  have hdispatch : Honest host (do
      if job.queueManaged then
        let _ ← dispatchWorker fuel manager worker
      return job) := by
    split
    · exact (honest_dispatchWorker fuel manager worker).bind fun _ _ => trivial
    · trivial
  dsimp only
  split
  · trivial
  split
  · exact (honest_recordFailure worker job).bind fun _ _ => hdispatch
  · exact hdispatch

theorem honest_stopJob (fuel manager : ℕ) (worker : Worker) (jobId : String) :
    Honest host (stopJob fuel manager worker jobId) := by
  unfold stopJob
  refine (Prog.Issues.withLock (R := fun _ => True) ?_).bind fun result _ => ?_
  · refine (honest_getJob jobId).bind fun job _ => ?_
    split
    · trivial
    split
    · trivial
    split
    · refine ⟨trivial, fun finishedAt _ => ?_⟩
      exact (honest_database (keepsJudged_failPendingJob _ _)).bind fun _ _ => trivial
    · refine honest_ssh trivial fun success _ => ?_
      split
      · trivial
      refine (honest_getJob jobId).bind fun job _ => ?_
      cases job with
      | none => trivial
      | some job =>
        dsimp only
        split
        · trivial
        · refine ⟨trivial, fun finishedAt _ => ?_⟩
          exact (honest_updateJob (judged_of_madeUp rfl rfl)).bind fun _ _ => trivial
  · obtain ⟨success, shouldDispatch, early⟩ := result
    dsimp only
    split
    · exact (honest_dispatchWorker fuel manager worker).bind fun _ _ => trivial
    · trivial

theorem honest_resolveWorker (lower : Lower) (workerIdOrName : String) :
    Honest host (resolveWorker lower workerIdOrName) := by
  refine (honest_query _).bind fun found _ => ?_
  split
  · trivial
  · exact (honest_query _).bind fun _ _ => trivial

theorem honest_pollJob (fuel manager : ℕ) (worker : Worker) (polls : ℕ) (job : Job) :
    Honest host (pollJob fuel manager worker polls job) := by
  induction polls generalizing job with
  | zero => trivial
  | succ polls ih =>
    refine (honest_refreshJobStatus fuel manager worker job).bind fun job _ => ?_
    split
    · trivial
    · exact ih job

theorem honest_jobsCreate (lower : Lower) (fuel manager polls : ℕ) (payload : JobCreateRequest) :
    Honest host (jobsCreate lower fuel manager polls payload) := by
  refine (honest_resolveWorker lower _).bind fun found _ => ?_
  cases found with
  | none => trivial
  | some worker =>
    refine (honest_startJob manager worker _ _ _).bind fun job _ => ?_
    split
    · trivial
    · exact (honest_pollJob fuel manager worker polls job).bind fun _ _ => trivial

theorem honest_applyReports (workerId : String) (jobs : List WorkerJobReport) (applied : ℕ) :
    Honest host (applyReports (upsert workerId) jobs applied) := by
  induction jobs generalizing applied with
  | nil => trivial
  | cons report jobs ih =>
    refine ⟨keepsJudged_upsertReportedWorkerJob workerId report, fun r _ => ?_⟩
    dsimp only [Prog.ret_bind]
    split
    · exact ih _
    · trivial

theorem honest_workerPiJobs (workerId : String) (jobs : List WorkerJobReport) :
    Honest host (workerPiJobs workerId jobs) := by
  have hreceived : Honest host
      (receiveReports (upsert workerId) (database (getWorker workerId)) (fun e => .raise (.database e)) jobs) := by
    refine (honest_query _).bind fun found _ => ?_
    split
    · trivial
    · refine (honest_applyReports workerId jobs 0).bind fun result _ => ?_
      split
      · trivial
      · trivial
      · trivial
      · trivial
  refine hreceived.bind fun reply _ => ?_
  cases reply <;> trivial

theorem honest_jobsQueueCreate (lower : Lower) (fuel manager : ℕ) (payload : JobEnqueueRequest) :
    Honest host (jobsQueueCreate lower fuel manager payload) := by
  refine (honest_resolveWorker lower _).bind fun found _ => ?_
  cases found with
  | none => trivial
  | some worker =>
    dsimp only
    split
    · trivial
    · exact (honest_enqueueJob fuel manager worker _ _ _ _ _).bind fun _ _ => trivial

theorem honest_destinationWorker (lower : Lower) (payload : QueuedJobUpdateRequest) (sourceWorker : Option Worker)
    (job : Job) :
    Honest host (destinationWorker lower payload sourceWorker job) := by
  unfold destinationWorker
  split
  · refine (honest_resolveWorker lower _).bind fun found _ => ?_
    cases found <;> trivial
  · split <;> trivial

theorem honest_editJob (fuel manager : ℕ) (payload : QueuedJobUpdateRequest) (jobId : String)
    (sourceWorker : Option Worker)
    (destination : Worker) (destinationWorkerId : Option String) :
    Honest host (editJob fuel manager payload jobId sourceWorker destination destinationWorkerId) := by
  refine ⟨trivial, fun updated _ => ?_⟩
  dsimp only [Prog.ret_bind]
  split
  · trivial
  · trivial
  · trivial
  · refine (honest_forEach (fun worker => ?_) _).bind fun _ _ => trivial
    exact (honest_dispatchWorker fuel manager worker).bind fun _ _ => trivial

theorem honest_jobsQueueUpdate (lower : Lower) (fuel manager : ℕ) (jobId : String)
    (payload : QueuedJobUpdateRequest) :
    Honest host (jobsQueueUpdate lower fuel manager jobId payload) := by
  refine (honest_getJob jobId).bind fun found _ => ?_
  cases found with
  | none => trivial
  | some job =>
    dsimp only
    split
    · trivial
    refine (honest_query _).bind fun sourceWorker _ =>
      (honest_destinationWorker lower payload _ job).bind fun reply _ => ?_
    cases reply with
    | error refusal => trivial
    | ok found =>
      obtain ⟨destination, destinationWorkerId⟩ := found
      have hunless (requested : ℕ) : Honest host
          (if requested > destination.gpuCount then
            refuse 422 ("gpu_count exceeds worker capacity (" ++ toString destination.gpuCount ++ ")")
          else editJob fuel manager payload jobId sourceWorker destination destinationWorkerId) := by
        split
        · trivial
        · exact honest_editJob fuel manager payload jobId _ _ _
      exact hunless _

theorem honest_jobsDelete (fuel manager : ℕ) (jobId : String) : Honest host (jobsDelete fuel manager jobId) := by
  refine (honest_getJob jobId).bind fun found _ => ?_
  cases found with
  | none => trivial
  | some job =>
    dsimp only
    split
    · trivial
    split
    · trivial
    refine (honest_query _).bind fun worker _ => ?_
    cases worker with
    | none => trivial
    | some worker =>
      refine (honest_stopJob fuel manager worker jobId).bind fun stopped _ => ?_
      split <;> trivial

theorem honest_recoverOne (manager : ℕ) (workers : List Worker) (job : Job) :
    Honest host (recoverOne manager workers job) := by
  unfold recoverOne
  split
  · trivial
  · exact honest_logged (honest_reconcileStartingJob manager _ job)

theorem honest_reconcileQueuedJobs (fuel manager : ℕ) : Honest host (reconcileQueuedJobs fuel manager) := by
  refine Prog.Issues.bind (R := fun _ => True) ?_ fun workers _ =>
    honest_forEach (fun worker => honest_logged (honest_dispatchWorker fuel manager worker)) workers
  refine (honest_query _).bind fun rows _ => (honest_query _).bind fun jobs _ => ?_
  exact (honest_forEach (honest_recoverOne manager _) _).bind fun _ _ => trivial

theorem honest_program (lower : Lower) (fuel manager : ℕ) (op : Operation) :
    Honest host (op.program lower fuel manager) := by
  cases op with
  | register reg =>
    refine honest_discard ⟨trivial, fun now _ => ?_⟩
    exact honest_database (keepsJudged_of_keepsJobs (keepsJobs_upsertWorker reg now))
  | setWorkerStatus workerId status =>
    exact honest_database (keepsJudged_of_keepsJobs (keepsJobs_setWorkerStatus workerId status))
  | markWorkersOffline cutoffTs =>
    exact honest_discard (honest_database (keepsJudged_of_keepsJobs (keepsJobs_markWorkersOffline cutoffTs)))
  | pruneWorkers olderThanTs =>
    exact honest_discard (honest_database (keepsJudged_of_keepsJobs (keepsJobs_pruneWorkers olderThanTs)))
  | deleteWorker workerId => exact honest_discard (honest_database (keepsJudged_deleteWorker workerId))
  | report workerId jobs => exact honest_discard (honest_workerPiJobs workerId jobs)
  | create polls payload => exact honest_discard (honest_jobsCreate lower fuel manager polls payload)
  | enqueue payload => exact honest_discard (honest_jobsQueueCreate lower fuel manager payload)
  | update jobId payload => exact honest_discard (honest_jobsQueueUpdate lower fuel manager jobId payload)
  | stop jobId => exact honest_discard (honest_jobsDelete fuel manager jobId)
  | refresh jobs =>
    exact honest_forEach (fun job => honest_logged (honest_refreshJobStatus fuel manager job.1 job.2)) jobs
  | reconcile => exact honest_reconcileQueuedJobs fuel manager

/-- Any number of managers work; the commands that read the logs read them. -/
def ServesLogs (host : Host) (c : ServerPool) : ServerEvent → Prop
  | .spawn p => ∃ lower fuel manager op, p = Operation.program lower fuel manager op
  | .go t a => ∀ (β : Type) (e : JobCall β) k held s b, c.threads[t]? = some ⟨.perform e k, held⟩ →
      jobInterp.handle e t a c.state = some (s, b) → FromLogs host β e b
  | _ => True

theorem allJudged_of_handle {t : ℕ} {a : Answer} {s s' : World} {e : JobCall β} {b : β} (h : AllJudged host s.db)
    (he : Keeps host β e) (hh : jobInterp.handle e t a s = some (s', b)) : AllJudged host s'.db := by
  have hquiet : Quiet e → AllJudged host s'.db := fun hq => by
    rw [(quiet_of_handle hq hh).1]
    exact h
  cases e with
  | database method =>
    cases hh
    exact he s.db h
  | getJob jobId =>
    cases hh
    exact h
  | insertJob job =>
    have hrows := allJudged_insertJob he s.db h
    simp only [jobInterp] at hh
    split at hh <;> cases hh <;> exact hrows
  | claimQueuedJob jobId gpuIndices startedAt workerId =>
    have hrows := keepsJudged_claimQueuedJob jobId gpuIndices startedAt workerId s.db h
    simp only [jobInterp] at hh
    split at hh <;> cases hh <;> exact hrows
  | updateJob job =>
    cases hh
    exact allJudged_updateJob he s.db h
  | updatePendingJob jobId workerId position name expectedSeconds gpuCount =>
    have hrows := keepsJudged_updatePendingJob jobId workerId position name expectedSeconds gpuCount s.db h
    simp only [jobInterp] at hh
    split at hh <;> cases hh <;> exact hrows
  | launch workerId jobId =>
    simp only [jobInterp] at hh
    split at hh <;> cases hh <;> exact h
  | _ => exact hquiet trivial

/-- In every run of any number of managers, a row of an SSH job whose output starts no line like the marker says of
the job's end nothing but the truth. -/
theorem verdicts_true (h₀ : AllJudged host s₀.db) {c : ServerPool}
    (hc : Pool.Reachable jobInterp (ServesLogs host) s₀ c) :
    ∀ j ∈ c.state.db.jobs, j.kind = .ssh → ¬host.Marks j.id → Truthful host j := by
  refine (Pool.Reachable.issues (V := FromLogs host) (P := Keeps host)
    (J := fun s => AllJudged host s.db) h₀ ?_ ?_ hc).1
  · rintro c p ⟨lower, fuel, manager, op, rfl⟩ -
    exact honest_program lower fuel manager op
  · intro c t a β e k held s b hok ht hj he hh
    exact ⟨hok β e k held s b ht hh, allJudged_of_handle hj he hh⟩

/-- Every job prints a line and ends with the status 3. -/
def threes : Host where
  output _ := ⟨CodePoints.str "hi\n", by decide⟩
  status _ := some 3

def ended : Answer :=
  { time := 1, launches := true, code := some 0, running := some (some false), exitCode := some (some 3) }

theorem log_threes (jobId : String) : threes.Log jobId (CodePoints.str "hi\n" ++ exitLine 3) := .ended rfl

/-- The commands of the model read the logs of these jobs. -/
theorem fromLogs_ended {t : ℕ} {s s' : World} {e : JobCall β} {b : β}
    (hh : jobInterp.handle e t ended s = some (s', b)) :
    FromLogs threes β e b := by
  cases e with
  | tmuxRunning workerId jobId =>
    cases hh
    intro isRunning heq
    cases heq
    exact ⟨_, log_threes jobId, by decide +kernel⟩
  | getExitCode workerId jobId =>
    cases hh
    intro code heq
    cases heq
    exact ⟨_, log_threes jobId, by decide +kernel⟩
  | _ => trivial

def launchAndRefresh : List ServerEvent :=
  pass :: turns 20 0 ended ++
    .spawn (Operation.program id 3 1
      (.refresh [({ id := "w", name := "w", status := .offline }, { id := "a" })])) :: turns 8 1 ended

theorem servesLogs_of_mem {c : ServerPool} {ev : ServerEvent} (hev : ev ∈ launchAndRefresh) :
    ServesLogs threes c ev := by
  have hgo : ∀ t, ServesLogs threes c (.go t ended) := fun t β e k held s b _ hh => fromLogs_ended hh
  rcases List.mem_append.mp hev with hev | hev
  · rcases List.mem_cons.mp hev with rfl | hev
    · exact ⟨id, 3, 0, .reconcile, rfl⟩
    · rw [List.eq_of_mem_replicate hev]
      exact hgo 0
  · rcases List.mem_cons.mp hev with rfl | hev
    · exact ⟨id, 3, 1, _, rfl⟩
    · rw [List.eq_of_mem_replicate hev]
      exact hgo 1

/-- The row of the first job gets the status of its command. -/
theorem verdicts_true_failed : ∃ c, Pool.Reachable jobInterp (ServesLogs threes) twoQueued c ∧
    (c.state.db.jobs.map fun j => (j.status, j.exitCode)) = [(.failed, some 3), (.running, none)] ∧
    ∀ j ∈ c.state.db.jobs, j.kind = .ssh → ¬threes.Marks j.id → Truthful threes j := by
  have hrun : ((Pool.run jobInterp ⟨twoQueued, []⟩ launchAndRefresh).map fun c : ServerPool =>
      c.state.db.jobs.map fun j => (j.status, j.exitCode)) =
        some [(.failed, some 3), (.running, none)] := by decide +kernel
  obtain ⟨c, hc, hjobs⟩ := Option.map_eq_some_iff.mp hrun
  have hreach : Pool.Reachable jobInterp (ServesLogs threes) twoQueued c :=
    .run .init (fun _ _ => servesLogs_of_mem) hc
  have h₀ : AllJudged threes twoQueued.db := by
    intro j hj
    exact judged_of_active (by revert j; decide) (by revert j; decide)
  exact ⟨c, hreach, hjobs, verdicts_true h₀ hreach⟩

end WorkerHarness.JobVerdicts
