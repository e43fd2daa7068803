import WorkerHarness.CoroutineEffects
import WorkerHarness.JobManager

/-!
# What the job manager asks for

Every method of the job manager, as a bound on its calls: which database methods it uses, and which
GPUs of which workers it claims. A claim, and the launch after it, is for the worker of the record
that the dispatcher was given, and only if that record is online.
-/

namespace WorkerHarness.ManagerCalls

open Coroutines SharedTransactions Database

/-- The database methods are in `K`, claims are in `C` and launches in `G`. -/
def Only (K : (β : Type) → DbM β → Prop) (C : List ℕ → String → Prop) (G : String → Prop) : (β : Type) →
    JobCall β → Prop
  | _, .database method => K _ method
  | _, .claimQueuedJob _ gpuIndices _ workerId => C gpuIndices workerId
  | _, .launch workerId _ => G workerId
  | _, _ => True

/-- The program only makes calls in the bounds, and what it returns is in `R`. -/
abbrev Within {α : Type} (V : (β : Type) → JobCall β → β → Prop) (K : (β : Type) → DbM β → Prop)
    (C : List ℕ → String → Prop) (G : String → Prop) (R : α → Prop) (p : ManagerM α) : Prop :=
  p.Issues V (Only K C G) R

variable {V : (β : Type) → JobCall β → β → Prop} {K : (β : Type) → DbM β → Prop} {C : List ℕ → String → Prop}
  {G : String → Prop} {α : Type} {worker : Worker}

def KeepsWorkers {β : Type} (method : DbM β) : Prop := ∀ d, (atomically method d).2.workers = d.workers

theorem keepsWorkers_query (q : Tables → α) : KeepsWorkers (query q) := fun _ => rfl

theorem keepsWorkers_insertQueuedJob (job : Job) : KeepsWorkers (insertQueuedJob job) := fun d => by
  rw [atomically_insertQueuedJob]
  split <;> rfl

theorem keepsWorkers_failPendingJob (jobId : String) (finishedAt : ℕ) :
    KeepsWorkers (failPendingJob jobId finishedAt) :=
  fun d => by
    rw [atomically_failPendingJob]
    split <;> rfl

theorem keepsWorkers_reconcileStartingJob (jobId : String) (launchObserved : Bool) (now : ℕ) :
    KeepsWorkers (reconcileStartingJob jobId launchObserved now) := fun d => by
  rw [atomically_reconcileStartingJob]
  split <;> rfl

theorem keepsWorkers_insertFailure (failure : Failure) : KeepsWorkers (insertFailure failure) := fun d => by
  simp [atomically, insertFailure, appendTo, failuresTable]

theorem keepsWorkers_insertJob (job : Job) : KeepsWorkers (insertJob job) := fun d => by
  rw [atomically_insertJob]
  split <;> rfl

theorem keepsWorkers_claimQueuedJob (jobId : String) (gpuIndices : List ℕ) (startedAt : ℕ) (workerId : String) :
    KeepsWorkers (claimQueuedJob jobId gpuIndices startedAt workerId) := fun d => by
  rw [atomically_claimQueuedJob]
  split <;> rfl

theorem keepsWorkers_updateJob (job : Job) : KeepsWorkers (updateJob job) := fun d => by
  rw [atomically_updateJob]
  rfl

theorem keepsWorkers_updatePendingJob (jobId : String) (workerId : Option String) (position : Option ℕ)
    (name : Option String) (expectedSeconds gpuCount : Option ℕ) :
    KeepsWorkers (updatePendingJob jobId workerId position name expectedSeconds gpuCount) := fun d => by
  rw [atomically_updatePendingJob]
  dsimp only
  repeat' split
  all_goals rfl

structure Serves (K : (β : Type) → DbM β → Prop) (C : List ℕ → String → Prop) (G : String → Prop)
    (worker : Worker) :
    Prop where
  method : ∀ β (method : DbM β), KeepsWorkers method → K β method
  claim : worker.status = .online → ∀ indices : List ℕ, indices.Sublist (JobManager.freeGpuIndices worker) →
    C indices worker.id
  launch : worker.status = .online → G worker.id

theorem within_orRaise {r : Except DbError α} : Within V K C G (fun _ => True) (JobManager.orRaise r) := by
  cases r <;> trivial

theorem within_database {method : DbM α} (h : K _ method) :
    Within V K C G (fun _ => True) (JobManager.database method) :=
  ⟨h, fun _ _ => within_orRaise⟩

theorem within_updateJob (job : Job) : Within V K C G (fun _ => True) (JobManager.updateJob job) :=
  ⟨trivial, fun _ _ => within_orRaise⟩

theorem within_ssh {command : JobCall (Option α)} (h : Only K C G _ command) :
    Within V K C G (fun _ => True) (JobManager.ssh command) :=
  ⟨h, fun b _ => by cases b <;> trivial⟩

theorem within_launchJob (job : Job) (hlaunch : G worker.id) :
    Within V K C G (fun _ => True) (JobManager.launchJob worker job) := by
  refine ⟨hlaunch, fun launched _ => ?_⟩
  refine (within_ssh (show Only K C G _ (.launchReply worker.id job.id launched) from trivial)).bind fun code _ =>
    ?_
  split
  · trivial
  · split
    · exact ⟨trivial, fun _ _ => (within_updateJob _).bind fun _ _ => trivial⟩
    · exact (within_updateJob _).bind fun _ _ => trivial

theorem within_getJob (jobId : String) : Within V K C G (fun _ => True) (JobManager.getJob jobId) :=
  ⟨trivial, fun _ _ => trivial⟩

theorem within_now {f : ℕ → ManagerM α} {R : α → Prop} (h : ∀ time, Within V K C G R (f time)) :
    Within V K C G R ((Prog.call .now).bind f) :=
  ⟨trivial, fun time _ => h time⟩

theorem within_dispatchLoop (available : List ℕ) (hqueries : ∀ β (q : Tables → β), K β (query q))
    (hclaim : ∀ indices : List ℕ, indices.Sublist available → C indices worker.id) (hlaunch : G worker.id)
    (fuel : ℕ) :
    Within V K C G (fun _ => True) (JobManager.dispatchLoop worker available fuel) := by
  induction fuel with
  | zero => trivial
  | succ fuel ih =>
    refine (within_database (hqueries _ _)).bind fun claimed _ =>
      (within_database (hqueries _ _)).bind fun jobs _ => ?_
    split
    · trivial
    · next head _ =>
      split
      · trivial
      · refine within_now fun startedAt =>
          ⟨hclaim _ ((List.take_sublist _ _).trans List.filter_sublist), fun r _ => ?_⟩
        refine within_orRaise.bind fun claimed _ => ?_
        cases claimed with
        | none => exact ih
        | some job => exact (within_launchJob job hlaunch).bind fun _ _ => ih.bind fun _ _ => trivial

theorem within_dispatchWorker (h : Serves K C G worker) (fuel manager : ℕ) :
    Within V K C G (fun _ => True) (JobManager.dispatchWorker fuel manager worker) := by
  unfold JobManager.dispatchWorker
  split
  · trivial
  · next honline =>
    have honline := not_not.mp honline
    exact (within_dispatchLoop _ (fun β q => h.method β _ (keepsWorkers_query q)) (h.claim honline)
      (h.launch honline)
      fuel).withLock

theorem within_enqueueJob (h : Serves K C G worker) (fuel manager : ℕ) (command name : String)
    (expectedSeconds gpuCount : ℕ) (ptyEnabled : Bool) : Within V K C G (fun _ => True)
      (JobManager.enqueueJob fuel manager worker command name expectedSeconds gpuCount ptyEnabled) := by
  refine ⟨trivial, fun id _ => ?_⟩
  refine (within_database (h.method _ _ (keepsWorkers_insertQueuedJob _))).bind fun _ _ => ?_
  refine (within_dispatchWorker h fuel manager).bind fun _ _ => (within_getJob id).bind fun persisted _ => ?_
  cases persisted <;> trivial

theorem within_reconcileStartingJob (h : Serves K C G worker) (manager : ℕ) (job : Job) :
    Within V K C G (fun _ => True) (JobManager.reconcileStartingJob manager worker job) := by
  refine Prog.Issues.withLock ((within_getJob job.id).bind fun persisted _ => ?_)
  cases persisted with
  | none => trivial
  | some persisted =>
    dsimp only
    split
    · trivial
    · refine (within_ssh (show Only K C G _ (.jobStarted worker.id job.id) from trivial)).bind fun observed _ => ?_
      cases observed with
      | none => trivial
      | some launchObserved =>
        refine within_now fun now => ?_
        exact (within_database (h.method _ _ (keepsWorkers_reconcileStartingJob _ _ _))).bind fun _ _ => trivial

theorem within_recordFailure (h : Serves K C G worker) (job : Job) :
    Within V K C G (fun _ => True) (JobManager.recordFailure worker job) := by
  refine (within_ssh (show Only K C G _ (.readLog worker.id job.id) from trivial)).bind fun summary _ => ?_
  exact within_now fun _ => within_database (h.method _ _ (keepsWorkers_insertFailure _))

theorem within_refreshUnderLock (job : Job) :
    Within V K C G (fun _ => True) (JobManager.refreshUnderLock worker job) := by
  refine (within_getJob job.id).bind fun persisted _ => ?_
  cases persisted with
  | none => trivial
  | some job =>
    dsimp only
    split
    · trivial
    split
    · trivial
    split
    · trivial
    refine (within_ssh (show Only K C G _ (.tmuxRunning worker.id job.id) from trivial)).bind fun isRunning _ => ?_
    split
    · trivial
    refine (within_ssh (show Only K C G _ (.getExitCode worker.id job.id) from trivial)).bind fun exitCode _ => ?_
    cases exitCode with
    | none => trivial
    | some exitCode => exact within_now fun _ => (within_updateJob _).bind fun _ _ => trivial

theorem within_refreshJobStatus (h : Serves K C G worker) (fuel manager : ℕ) (job : Job) :
    Within V K C G (fun _ => True) (JobManager.refreshJobStatus fuel manager worker job) := by
  refine (within_refreshUnderLock job).withLock.bind fun result _ => ?_
  obtain ⟨job, finished⟩ := result
  have hdispatch : Within V K C G (fun _ => True) (do
      if job.queueManaged then
        let _ ← JobManager.dispatchWorker fuel manager worker
      return job) := by
    split
    · exact (within_dispatchWorker h fuel manager).bind fun _ _ => trivial
    · trivial
  dsimp only
  split
  · trivial
  split
  · exact (within_recordFailure h job).bind fun _ _ => hdispatch
  · exact hdispatch

theorem within_stopJob (h : Serves K C G worker) (fuel manager : ℕ) (jobId : String) :
    Within V K C G (fun _ => True) (JobManager.stopJob fuel manager worker jobId) := by
  unfold JobManager.stopJob
  refine (Prog.Issues.withLock (R := fun _ => True) ?_).bind fun result _ => ?_
  · refine (within_getJob jobId).bind fun job _ => ?_
    split
    · trivial
    split
    · trivial
    split
    · refine within_now fun _ => ?_
      exact (within_database (h.method _ _ (keepsWorkers_failPendingJob _ _))).bind fun _ _ => trivial
    · refine (within_ssh (show Only K C G _ (.tmuxKill worker.id jobId) from trivial)).bind fun success _ => ?_
      split
      · trivial
      refine (within_getJob jobId).bind fun job _ => ?_
      cases job with
      | none => trivial
      | some job =>
        dsimp only
        split
        · trivial
        · exact within_now fun _ => (within_updateJob _).bind fun _ _ => trivial
  · obtain ⟨success, shouldDispatch, early⟩ := result
    dsimp only
    split
    · exact (within_dispatchWorker h fuel manager).bind fun _ _ => trivial
    · trivial

theorem within_logged {p : ManagerM α} {R : α → Prop} (hp : Within V K C G R p) :
    Within V K C G (fun _ => True) (logged p) :=
  hp.attempt.bind fun _ _ => trivial

theorem within_forEach {f : α → ManagerM Unit} {as : List α} (h : ∀ a ∈ as, Within V K C G (fun _ => True) (f a)) :
    Within V K C G (fun _ => True) (Prog.forEach f as) := by
  induction as with
  | nil => trivial
  | cons a as ih => exact (h a (by simp)).bind fun _ _ => ih fun a' ha' => h a' (by simp [ha'])

end WorkerHarness.ManagerCalls
