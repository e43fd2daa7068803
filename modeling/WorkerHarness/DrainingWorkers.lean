import WorkerHarness.QueueRoutes
import WorkerHarness.WorkerRecords

/-!
# Draining workers

The dispatcher claims jobs for workers that are online. A worker that the operator sets to draining gets
no job, whatever runs on the server, until it registers again: the registration puts it back online.
-/

namespace WorkerHarness.DrainingWorkers

open Coroutines SharedTransactions Database JobManager ManagerCalls QueueRoutes WorkerRecords

inductive Operation where
  | register (reg : WorkerRegistration)
  | markWorkersOffline (cutoffTs : ℕ)
  | enqueue (payload : JobEnqueueRequest)
  | update (jobId : String) (payload : QueuedJobUpdateRequest)
  | stop (jobId : String)
  | refresh (jobs : List (Worker × Job))
  | reconcile

namespace Operation

def program (lower : Lower) (fuel manager : ℕ) : Operation → ManagerM Unit
  | register reg => (QueueRoutes.register reg).bind fun _ => .ret ()
  | markWorkersOffline cutoffTs => (database (Database.markWorkersOffline cutoffTs)).bind fun _ => .ret ()
  | enqueue payload => (jobsQueueCreate lower fuel manager payload).bind fun _ => .ret ()
  | update jobId payload => (jobsQueueUpdate lower fuel manager jobId payload).bind fun _ => .ret ()
  | stop jobId => (jobsDelete fuel manager jobId).bind fun _ => .ret ()
  | refresh jobs => reconcileWorker fuel manager jobs
  | reconcile => reconcileQueuedJobs fuel manager

/-- The worker records that a refresh starts with are those of the database. -/
def Current (d : Tables) : Operation → Prop
  | refresh jobs => ∀ job ∈ jobs, job.1 ∈ d.workers
  | _ => True

def Quiet (w : String) : Operation → Prop
  | register reg => reg.workerId ≠ w
  | _ => True

end Operation

abbrev ManagerPool := Pool JobCall DispatchLock JobError Unit World

/-- Coroutines start with the allowed operations; they run, fail and end in any order. -/
def Follows (allowed : Operation → Prop) (c : ManagerPool) : Event JobCall DispatchLock JobError Unit Answer → Prop
  | .spawn p => ∃ lower fuel manager op, allowed op ∧ op.Current c.state.db ∧ p = op.program lower fuel manager
  | _ => True

def Retired (w : String) (workers : List Worker) : Prop :=
  ∀ worker ∈ workers, worker.id = w → worker.status ≠ .online

def Answers (w : String) : (β : Type) → JobCall β → β → Prop
  | _, .database method, r => ∃ d, Retired w d.workers ∧ r = (atomically method d).1
  | _, _, _ => True

def Keeps (w : String) (β : Type) (method : DbM β) : Prop :=
  ∀ d, Retired w d.workers → Retired w (atomically method d).2.workers

/-- The coroutine claims and launches for other workers only. -/
abbrev Spares {α : Type} (w : String) (R : α → Prop) (p : ManagerM α) : Prop :=
  Within (Answers w) (Keeps w) (fun _ workerId => workerId ≠ w) (fun workerId => workerId ≠ w) R p

variable {w : String} {α β : Type} {worker : Worker}

def Idle (w : String) (worker : Worker) : Prop := worker.id = w → worker.status ≠ .online

theorem keeps_of_keepsWorkers {method : DbM β} (h : KeepsWorkers method) : Keeps w β method := fun d hd => by
  rw [h]
  exact hd

theorem serves (h : Idle w worker) :
    Serves (Keeps w) (fun _ workerId => workerId ≠ w) (fun workerId => workerId ≠ w) worker where
  method _ _ h := keeps_of_keepsWorkers h
  claim honline _ _ hid := h hid honline
  launch honline hid := h hid honline

theorem spares_query {q : Tables → α} {R : α → Prop} (hR : ∀ d, Retired w d.workers → R (q d)) :
    Spares w R (database (query q)) := by
  refine ⟨keeps_of_keepsWorkers (keepsWorkers_query q), fun r hr => ?_⟩
  obtain ⟨d, hd, rfl⟩ := hr
  exact hR d hd

theorem spares_getWorker (workerId : String) :
    Spares w (fun worker => ∀ found, worker = some found → Idle w found) (database (getWorker workerId)) :=
  spares_query fun _ hd found hfound => hd found (List.mem_of_find?_eq_some hfound)

theorem spares_listWorkers : Spares w (fun workers => ∀ worker ∈ workers, Idle w worker) (database listWorkers) :=
  spares_query fun _ hd worker hworker => hd worker (SortedLists.mem_sortOn.mp hworker)

theorem spares_resolveWorker (lower : Lower) (workerIdOrName : String) :
    Spares w (fun worker => ∀ found, worker = some found → Idle w found) (resolveWorker lower workerIdOrName) := by
  refine (spares_getWorker workerIdOrName).bind fun found hfound => ?_
  cases found with
  | some worker => exact hfound
  | none => exact spares_listWorkers.bind fun workers hworkers found hf =>
    hworkers found (List.mem_of_find?_eq_some hf)

theorem spares_jobsQueueCreate (lower : Lower) (fuel manager : ℕ) (payload : JobEnqueueRequest) :
    Spares w (fun _ => True) (jobsQueueCreate lower fuel manager payload) := by
  refine (spares_resolveWorker lower payload.workerId).bind fun found hfound => ?_
  cases found with
  | none => trivial
  | some worker =>
    dsimp only
    split
    · trivial
    · exact (within_enqueueJob (serves (hfound worker rfl)) fuel manager _ _ _ _ _).bind fun _ _ => trivial

theorem spares_destinationWorker (lower : Lower) (payload : QueuedJobUpdateRequest) {sourceWorker : Option Worker}
    (job : Job)
    (hsource : ∀ found, sourceWorker = some found → Idle w found) :
    Spares w (fun reply => ∀ found, reply = .ok found → Idle w found.1)
    (destinationWorker lower payload sourceWorker job) := by
  unfold destinationWorker
  split
  · next workerId _ =>
    refine (spares_resolveWorker lower workerId).bind fun found hfound => ?_
    cases found with
    | none => exact fun found hf => nomatch hf
    | some worker =>
      intro found hf
      cases hf
      exact hfound worker rfl
  · split
    · exact fun found hf => nomatch hf
    · intro found hf
      cases hf
      exact hsource _ rfl

theorem idle_dispatchWorkers {sourceWorker : Option Worker} {destination : Worker}
    (hsource : ∀ found, sourceWorker = some found → Idle w found) (hdestination : Idle w destination) :
    ∀ worker ∈ dispatchWorkers sourceWorker destination, Idle w worker := by
  intro worker hworker
  unfold dispatchWorkers at hworker
  split at hworker
  · rw [List.mem_singleton.mp hworker]
    exact hdestination
  · split at hworker
    · rw [List.mem_singleton.mp hworker]
      exact hdestination
    · simp only [List.mem_cons, List.not_mem_nil, or_false] at hworker
      rcases hworker with rfl | rfl
      · exact hsource _ rfl
      · exact hdestination

theorem spares_editJob (fuel manager : ℕ) (payload : QueuedJobUpdateRequest) (jobId : String)
    {sourceWorker : Option Worker}
    {destination : Worker} (destinationWorkerId : Option String)
    (hsource : ∀ found, sourceWorker = some found → Idle w found) (hdestination : Idle w destination) :
    Spares w (fun _ => True) (editJob fuel manager payload jobId sourceWorker destination destinationWorkerId) := by
  refine ⟨trivial, fun updated _ => ?_⟩
  simp only [Prog.ret_bind]
  split
  · trivial
  · trivial
  · trivial
  · refine (within_forEach fun worker hworker => ?_).bind fun _ _ => trivial
    have hidle := idle_dispatchWorkers hsource hdestination worker hworker
    exact (within_dispatchWorker (serves hidle) fuel manager).bind fun _ _ => trivial

theorem spares_jobsQueueUpdate (lower : Lower) (fuel manager : ℕ) (jobId : String)
    (payload : QueuedJobUpdateRequest) :
    Spares w (fun _ => True) (jobsQueueUpdate lower fuel manager jobId payload) := by
  refine (within_getJob jobId).bind fun job _ => ?_
  cases job with
  | none => trivial
  | some job =>
    dsimp only
    split
    · trivial
    refine (spares_getWorker _).bind fun sourceWorker hsource => ?_
    refine (spares_destinationWorker lower payload job hsource).bind fun reply hreply => ?_
    cases reply with
    | error refusal => trivial
    | ok found =>
      have hunless (requested : ℕ) : Spares w (fun _ => True)
          (if requested > found.1.gpuCount then
            refuse 422 ("gpu_count exceeds worker capacity (" ++ toString found.1.gpuCount ++ ")")
          else editJob fuel manager payload jobId sourceWorker found.1 found.2) := by
        split
        · trivial
        · exact spares_editJob fuel manager payload jobId found.2 hsource (hreply found rfl)
      dsimp only
      cases payload.gpuCount with
      | none => exact hunless job.gpuCount
      | some n => exact hunless (if n = 0 then job.gpuCount else n)

theorem spares_jobsDelete (fuel manager : ℕ) (jobId : String) :
    Spares w (fun _ => True) (jobsDelete fuel manager jobId) := by
  refine (within_getJob jobId).bind fun job _ => ?_
  cases job with
  | none => trivial
  | some job =>
    dsimp only
    split
    · trivial
    split
    · trivial
    refine (spares_getWorker _).bind fun found hfound => ?_
    cases found with
    | none => trivial
    | some worker =>
      refine (within_stopJob (serves (hfound worker rfl)) fuel manager jobId).bind fun stopped _ => ?_
      split <;> trivial

theorem spares_recoverOne (manager : ℕ) {workers : List Worker} (hworkers : ∀ worker ∈ workers, Idle w worker)
    (job : Job) :
    Spares w (fun _ => True) (recoverOne manager workers job) := by
  unfold recoverOne
  split
  · trivial
  · next worker hfound =>
    exact within_logged (within_reconcileStartingJob (serves (hworkers worker (List.mem_of_find?_eq_some hfound)))
      manager job)

theorem spares_reconcileQueuedJobs (fuel manager : ℕ) :
    Spares w (fun _ => True) (reconcileQueuedJobs fuel manager) := by
  refine Prog.Issues.bind (R := fun workers => ∀ worker ∈ workers, Idle w worker) ?_ fun workers hworkers => ?_
  · refine spares_listWorkers.bind fun rows hrows =>
      (spares_query (R := fun _ => True) fun _ _ => trivial).bind fun jobs _ => ?_
    have honline : ∀ worker ∈ onlineWorkers rows, Idle w worker := fun worker hworker =>
      hrows worker (List.mem_of_mem_filter hworker)
    exact (within_forEach fun job _ => spares_recoverOne manager honline job).bind fun _ _ => honline
  · exact within_forEach fun worker hworker => within_logged
      (within_dispatchWorker (serves (hworkers worker hworker)) fuel manager)

theorem keeps_upsertWorker {reg : WorkerRegistration} (hreg : reg.workerId ≠ w) (now : ℕ) :
    Keeps w Worker (upsertWorker reg now) := by
  intro d hd worker hworker hid
  rcases row_upsertWorker hworker with ⟨hid', -, -⟩ | ⟨hworker, -⟩
  · exact absurd (hid'.symm.trans hid) hreg
  · exact hd worker hworker hid

theorem keeps_markWorkersOffline (cutoffTs : ℕ) : Keeps w ℕ (Database.markWorkersOffline cutoffTs) := by
  intro d hd worker hworker hid
  rw [workers_markWorkersOffline] at hworker
  rcases of_mem_updateRows hworker with ⟨worker, -, -, rfl⟩ | ⟨hworker, -⟩
  · exact nofun
  · exact hd worker hworker hid

theorem spares_program {op : Operation} {d : Tables} (hquiet : op.Quiet w) (hcurrent : op.Current d)
    (hd : Retired w d.workers) (lower : Lower) (fuel manager : ℕ) :
    Spares w (fun _ => True) (op.program lower fuel manager) := by
  cases op with
  | register reg =>
    refine Prog.Issues.bind (R := fun _ => True) (within_now fun now => ?_) fun _ _ => trivial
    exact within_database (keeps_upsertWorker hquiet now)
  | markWorkersOffline cutoffTs =>
    exact (within_database (keeps_markWorkersOffline cutoffTs)).bind fun _ _ => trivial
  | enqueue payload => exact (spares_jobsQueueCreate lower fuel manager payload).bind fun _ _ => trivial
  | update jobId payload => exact (spares_jobsQueueUpdate lower fuel manager jobId payload).bind fun _ _ => trivial
  | stop jobId => exact (spares_jobsDelete fuel manager jobId).bind fun _ _ => trivial
  | refresh jobs =>
    exact within_forEach fun job hjob =>
      within_logged (within_refreshJobStatus (serves (hd job.1 (hcurrent job hjob))) fuel manager job.2)
  | reconcile => exact spares_reconcileQueuedJobs fuel manager

def launchesOn (w : String) (s : World) : List (String × String) := s.started.filter fun launch => launch.1 = w

def Shelved (w : String) (s₀ s : World) : Prop := Retired w s.db.workers ∧ launchesOn w s = launchesOn w s₀

theorem retired_setWorkerStatus (d : Tables) :
    Retired w (atomically (setWorkerStatus w .draining) d).2.workers := by
  intro worker hworker hid
  rw [workers_setWorkerStatus] at hworker
  rcases of_mem_updateRows hworker with ⟨worker, -, -, rfl⟩ | ⟨-, hne⟩
  · exact nofun
  · exact absurd hid (of_decide_eq_false hne)

theorem Shelved.method {s₀ s : World} (h : Shelved w s₀ s) {method : DbM β} (hkeeps : Keeps w β method) :
    Shelved w s₀ (s.withDb (atomically method s.db).2) := ⟨hkeeps s.db h.1, h.2⟩

/-- A call within the bounds keeps the worker retired and launches nothing on it. -/
theorem shelved_of_handle {s₀ s s' : World} {e : JobCall β} {b : β} {t : ℕ} {a : Answer} (h : Shelved w s₀ s)
    (honly : Only (Keeps w) (fun _ workerId => workerId ≠ w) (fun workerId => workerId ≠ w) β e)
    (hh : jobInterp.handle e t a s = some (s', b)) : Answers w β e b ∧ Shelved w s₀ s' := by
  cases e with
  | database method =>
    cases hh
    exact ⟨⟨s.db, h.1, rfl⟩, h.method honly⟩
  | insertJob job =>
    have hthis := h.method (keeps_of_keepsWorkers (keepsWorkers_insertJob job))
    simp only [jobInterp] at hh
    split at hh <;> cases hh <;> exact ⟨trivial, hthis⟩
  | claimQueuedJob jobId gpuIndices startedAt workerId =>
    have hthis := h.method (keeps_of_keepsWorkers (keepsWorkers_claimQueuedJob jobId gpuIndices startedAt workerId))
    simp only [jobInterp] at hh
    split at hh <;> cases hh <;> exact ⟨trivial, hthis⟩
  | updateJob job =>
    have hthis := h.method (keeps_of_keepsWorkers (keepsWorkers_updateJob job))
    cases hh
    exact ⟨trivial, hthis⟩
  | updatePendingJob jobId workerId position name expectedSeconds gpuCount =>
    have hthis := h.method (keeps_of_keepsWorkers
      (keepsWorkers_updatePendingJob jobId workerId position name expectedSeconds gpuCount))
    simp only [jobInterp] at hh
    split at hh <;> cases hh <;> exact ⟨trivial, hthis⟩
  | launch workerId jobId =>
    have hne : workerId ≠ w := honly
    simp only [jobInterp] at hh
    split at hh
    · cases hh
      refine ⟨trivial, h.1, ?_⟩
      rw [launchesOn, List.filter_cons_of_neg (by simpa using hne)]
      exact h.2
    · cases hh
      exact ⟨trivial, h⟩
  | newId =>
    simp only [jobInterp] at hh
    split at hh
    · cases hh
    · cases hh
      exact ⟨trivial, h⟩
  | launchReply workerId jobId launched =>
    simp only [jobInterp] at hh
    split at hh
    · cases hh
      exact ⟨trivial, h⟩
    · cases hh
  | jobStarted workerId jobId =>
    simp only [jobInterp] at hh
    split at hh
    · cases hh
      exact ⟨trivial, h⟩
    · cases hh
  | getJob _ | now | tmuxKill _ _ | tmuxRunning _ _ | getExitCode _ _ | readLog _ _ =>
    cases hh
    exact ⟨trivial, h⟩

/-- No launch on the worker since the first state, and none under way. -/
def Unlaunched (w : String) (s₀ : World) (c : ManagerPool) : Prop :=
  launchesOn w c.state = launchesOn w s₀ ∧ ∀ th ∈ c.threads, ∀ jobId k, th.prog ≠ .perform (.launch w jobId) k

/-- After the command, and as long as the worker does not register, nothing is launched on it. -/
theorem draining_unlaunched {d : Tables} {s₀ : World} {c : ManagerPool}
    (hdrain : s₀.db = (atomically (setWorkerStatus w .draining) d).2)
    (hc : Pool.Reachable jobInterp (Follows (Operation.Quiet w)) s₀ c) : Unlaunched w s₀ c := by
  have hissues := Pool.Reachable.issues (V := Answers w) (J := Shelved w s₀)
    (P := Only (Keeps w) (fun _ workerId => workerId ≠ w) fun workerId => workerId ≠ w)
    ⟨hdrain ▸ retired_setWorkerStatus d, rfl⟩ (fun c p hp hshelved => ?_)
    (fun c t a β e k held s b _ _ hshelved honly hh => shelved_of_handle hshelved honly hh) hc
  · refine ⟨hissues.1.2, fun th hth jobId k hprog => ?_⟩
    have hthread := hissues.2 th hth
    rw [hprog] at hthread
    exact hthread.1 rfl
  · obtain ⟨lower, fuel, manager, op, hquiet, hcurrent, rfl⟩ := hp
    exact spares_program hquiet hcurrent hshelved.1 lower fuel manager

def oneQueued : Tables where
  workers := [{ id := "w", name := "w", gpuCount := 1,
                gpuVramGb := [16], gpuUsedVramGb := [0], gpuBusy := [some false] }]
  jobs := [{ id := "job", workerId := some "w", status := .pending, queueManaged := true, gpuCount := 1 }]

def drained : World := { db := (atomically (setWorkerStatus "w" .draining) oneQueued).2 }

def started (op : Operation) : Event JobCall DispatchLock JobError Unit Answer := .spawn (op.program id 1 0)

def steps (n t : ℕ) : List (Event JobCall DispatchLock JobError Unit Answer) :=
  List.replicate n (.go t { time := 1, launches := true })

/-- A sweep, and then one pass of the reconciler. -/
def sweepThenReconcile : List (Event JobCall DispatchLock JobError Unit Answer) :=
  started (.markWorkersOffline 0) :: steps 1 0 ++ started .reconcile :: steps 2 1

def heartbeatThenReconcile : List (Event JobCall DispatchLock JobError Unit Answer) :=
  started (.register { workerId := "w", name := "w", gpuCount := 1, gpus := [⟨0, 16, 0, some false⟩] }) ::
    steps 2 0 ++
    started .reconcile :: steps 8 1

theorem follows_of_mem {allowed : Operation → Prop} (op op' : Operation) {n n' : ℕ}
    (hop : allowed op ∧ ∀ d, op.Current d)
    (hop' : allowed op' ∧ ∀ d, op'.Current d) (c : ManagerPool) :
    ∀ ev ∈ started op :: steps n 0 ++ started op' :: steps n' 1, Follows allowed c ev := by
  intro ev hev
  simp only [List.cons_append, List.mem_cons, List.mem_append, steps, List.mem_replicate] at hev
  rcases hev with rfl | ⟨-, rfl⟩ | rfl | ⟨-, rfl⟩
  · exact ⟨id, 1, 0, op, hop.1, hop.2 _, rfl⟩
  · trivial
  · exact ⟨id, 1, 0, op', hop'.1, hop'.2 _, rfl⟩
  · trivial

/-- The pass finds no online worker. -/
theorem draining_unlaunched_sweep : ∃ c, Pool.Reachable jobInterp (Follows (Operation.Quiet "w")) drained c ∧
    (∀ th ∈ c.threads, th.prog matches .ret _) ∧ Unlaunched "w" drained c := by
  have hrun : ((Pool.run jobInterp ⟨drained, []⟩ sweepThenReconcile).map fun c : ManagerPool =>
      c.threads.all fun th => th.prog matches .ret _) = some true := by decide +kernel
  obtain ⟨c, hc, hended⟩ := Option.map_eq_some_iff.mp hrun
  have hreach : Pool.Reachable jobInterp (Follows (Operation.Quiet "w")) drained c :=
    .run .init (follows_of_mem (.markWorkersOffline 0) .reconcile ⟨trivial, fun _ => trivial⟩
      ⟨trivial, fun _ => trivial⟩) hc
  exact ⟨c, hreach, by simpa using hended, draining_unlaunched (d := oneQueued) rfl hreach⟩

/-- The heartbeat puts the worker back online, and the pass launches the waiting job on it. -/
theorem not_draining_unlaunched : ∃ d s₀ c jobId, s₀.db = (atomically (setWorkerStatus "w" .draining) d).2 ∧
    (∃ job, findJob s₀.db jobId = some job ∧ job.queueManaged = true ∧ job.status = .pending) ∧
    Pool.Reachable jobInterp (Follows fun _ => True) s₀ c ∧
    ("w", jobId) ∉ s₀.started ∧ ("w", jobId) ∈ c.state.started := by
  have hrun : ((Pool.run jobInterp ⟨drained, []⟩ heartbeatThenReconcile).map fun c : ManagerPool =>
    c.state.started) =
      some [("w", "job")] := by decide +kernel
  obtain ⟨c, hc, hstarted⟩ := Option.map_eq_some_iff.mp hrun
  refine ⟨oneQueued, drained, c, "job", rfl, ⟨_, rfl, rfl, rfl⟩, ?_, List.not_mem_nil, ?_⟩
  · exact .run .init (follows_of_mem (.register _) .reconcile ⟨trivial, fun _ => trivial⟩
      ⟨trivial, fun _ => trivial⟩) hc
  · rw [hstarted]
    exact List.mem_singleton.mpr rfl

end WorkerHarness.DrainingWorkers
