import WorkerHarness.JobThreads
import WorkerHarness.WorkerReports

/-!
# Lives of jobs

The control server with its job manager, in every interleaving of its routes, its reconciler, the worker
registrations, the delegated reports and the operator's commands, with cancellations and crashes. The jobs that
run on a worker have different GPUs. In the runs whose recoveries probe the worker that has the job, every row
goes through the life of a job, and no job is launched twice.
-/

namespace WorkerHarness.JobLifecycles

open Coroutines SharedTransactions Database JobQueues JobRows JobMoves JobManager JobContracts JobThreads
  QueueRoutes
open WorkerReports (applyReports receiveReports)

/-- A job to start at once; a synchronous request waits for its end. -/
structure JobCreateRequest where
  workerId : String
  command : String
  name : Option String := none
  noPty : Bool := false
  sync : Bool := false

/-- The polls of a synchronous request, until the job has ended or the time is over. -/
def pollJob (fuel manager : ℕ) (worker : Worker) : ℕ → Job → ManagerM Job
  | 0, job => return job
  | polls + 1, job => do
    let job ← refreshJobStatus fuel manager worker job
    if job.status = .done ∨ job.status = .failed then return job else pollJob fuel manager worker polls job

/-- `POST /api/v1/jobs`, up to the rendering of its reply; the deadline is after `polls` polls. -/
def jobsCreate (lower : Lower) (fuel manager polls : ℕ) (payload : JobCreateRequest) : ManagerM (Reply Job) := do
  match ← resolveWorker lower payload.workerId with
  | none => refuse 404 ("Worker not found: " ++ payload.workerId)
  | some worker =>
    let job ← startJob manager worker payload.command payload.name (!payload.noPty)
    if !payload.sync then return .ok job else
    let job ← pollJob fuel manager worker polls job
    return .ok job

-- A method of the database whose exception the route looks at.
def upsert (workerId : String) (report : WorkerJobReport) : ManagerM (Except DbError (Job × Bool)) :=
  Prog.call (.database (upsertReportedWorkerJob workerId report))

/-- `POST /pi/worker/{worker_id}/jobs`: how many reports came, and how many were applied. -/
def workerPiJobs (workerId : String) (jobs : List WorkerJobReport) : ManagerM (Reply (ℕ × ℕ)) := do
  match ← receiveReports (upsert workerId) (database (getWorker workerId)) (fun e => .raise (.database e)) jobs with
  | .ok counts => return .ok counts
  | .error (status, detail) => refuse status detail

/-- What the control server does with jobs, and what others do with its database. -/
inductive Operation where
  | register (reg : WorkerRegistration)
  | setWorkerStatus (workerId : String) (status : WorkerStatus)
  | markWorkersOffline (cutoffTs : ℕ)
  | pruneWorkers (olderThanTs : ℕ)
  | deleteWorker (workerId : String)
  | report (workerId : String) (jobs : List WorkerJobReport)
  | create (polls : ℕ) (payload : JobCreateRequest)
  | enqueue (payload : JobEnqueueRequest)
  | update (jobId : String) (payload : QueuedJobUpdateRequest)
  | stop (jobId : String)
  | refresh (jobs : List (Worker × Job))
  | reconcile

def discard {α : Type} (p : ManagerM α) : ManagerM Unit := p.bind fun _ => .ret ()

namespace Operation

def program (lower : Lower) (fuel manager : ℕ) : Operation → ManagerM Unit
  | register reg => discard (QueueRoutes.register reg)
  | setWorkerStatus workerId status => database (Database.setWorkerStatus workerId status)
  | markWorkersOffline cutoffTs => discard (database (Database.markWorkersOffline cutoffTs))
  | pruneWorkers olderThanTs => discard (database (Database.pruneWorkers olderThanTs))
  | deleteWorker workerId => discard (database (Database.deleteWorker workerId))
  | report workerId jobs => discard (workerPiJobs workerId jobs)
  | create polls payload => discard (jobsCreate lower fuel manager polls payload)
  | enqueue payload => discard (jobsQueueCreate lower fuel manager payload)
  | update jobId payload => discard (jobsQueueUpdate lower fuel manager jobId payload)
  | stop jobId => discard (jobsDelete fuel manager jobId)
  | refresh jobs => reconcileWorker fuel manager jobs
  | reconcile => reconcileQueuedJobs fuel manager

def KeepsRows : Operation → Prop
  | deleteWorker _ => False
  | _ => True

end Operation

variable {placed : Prop} {m : ℕ} {h : List DispatchLock} {s s' : World} {t : ℕ} {w jobId : String} {j j' job : Job}
  {worker : Worker} {α : Type}

theorem safe_discard {p : ManagerM α} (hp : SafeTo placed m t h Any p s) : SafeTo placed m t h Any (discard p) s :=
  safe_then hp fun _ _ _ => safe_any

theorem safe_resolveWorker (lower : Lower) (workerIdOrName : String) (s : World) :
    SafeTo placed m t h Any (resolveWorker lower workerIdOrName) s := by
  refine safe_query stable_true trivial fun s₁ _ _ => ?_
  split
  · exact safe_any
  · exact safe_query stable_true trivial fun _ _ _ => safe_any

theorem safe_pollJob (fuel : ℕ) (worker : Worker) (polls : ℕ) (job : Job) (s : World) :
    SafeTo placed m t h Any (pollJob fuel m worker polls job) s := by
  induction polls generalizing job s with
  | zero => exact safe_any
  | succ polls ih =>
    refine safe_then (safe_refreshJobStatus fuel worker job s) fun job' s' _ => ?_
    split
    · exact safe_any
    · exact ih job' s'

theorem safe_jobsCreate (lower : Lower) (fuel polls : ℕ) (payload : JobCreateRequest) (s : World) :
    SafeTo placed m t h Any (jobsCreate lower fuel m polls payload) s := by
  refine safe_then (safe_resolveWorker lower payload.workerId s) fun found s₁ _ => ?_
  cases found with
  | none => exact safe_any
  | some worker =>
    refine safe_then (safe_startJob worker payload.command payload.name (!payload.noPty) s₁) fun job s₂ _ => ?_
    split
    · exact safe_any
    · exact safe_then (safe_pollJob fuel worker polls job s₂) fun _ _ _ => safe_any

theorem safe_applyReports (workerId : String) (jobs : List WorkerJobReport) (applied : ℕ) (s : World) :
    SafeTo placed m t h Any (applyReports (upsert workerId) jobs applied) s := by
  induction jobs generalizing applied s with
  | nil => exact safe_any
  | cons report jobs ih =>
    refine safe_perform stable_true trivial fun s₁ a s₂ b hi₁ _ hh => ?_
    cases hh
    refine ⟨writes_upsertReportedWorkerJob hi₁ workerId report, rfl, fun _ _ => rfl, fun _ => ?_⟩
    dsimp only [Prog.ret_bind]
    split
    · exact ih _ _
    · exact safe_any

theorem safe_workerPiJobs (workerId : String) (jobs : List WorkerJobReport) (s : World) :
    SafeTo placed m t h Any (workerPiJobs workerId jobs) s := by
  have hreceived : SafeTo placed m t h Any
      (receiveReports (upsert workerId) (database (getWorker workerId)) (fun e => .raise (.database e)) jobs)
      s := by
    refine safe_query stable_true trivial fun s₁ _ _ => ?_
    split
    · exact safe_any
    · refine safe_then (safe_applyReports workerId jobs 0 s₁) fun result _ _ => ?_
      split
      · exact safe_any
      · exact safe_any
      · exact safe_any
      · exact safe_raise
  refine safe_then hreceived fun reply _ _ => ?_
  cases reply <;> exact safe_any

theorem safe_jobsQueueCreate (lower : Lower) (fuel : ℕ) (payload : JobEnqueueRequest) (s : World) :
    SafeTo placed m t h Any (jobsQueueCreate lower fuel m payload) s := by
  refine safe_then (safe_resolveWorker lower payload.workerId s) fun found s₁ _ => ?_
  cases found with
  | none => exact safe_any
  | some worker =>
    dsimp only
    split
    · exact safe_any
    · exact safe_then (safe_enqueueJob fuel worker _ _ _ _ _ s₁) fun _ _ _ => safe_any

theorem safe_destinationWorker (lower : Lower) (payload : QueuedJobUpdateRequest) (sourceWorker : Option Worker)
    (job : Job)
    (s : World) : SafeTo placed m t h Any (destinationWorker lower payload sourceWorker job) s := by
  unfold destinationWorker
  split
  · refine safe_then (safe_resolveWorker lower _ s) fun found s₁ _ => ?_
    cases found <;> exact safe_any
  · split <;> exact safe_any

theorem safe_editJob (fuel : ℕ) (payload : QueuedJobUpdateRequest) (jobId : String) (sourceWorker : Option Worker)
    (destination : Worker) (destinationWorkerId : Option String) (s : World) :
    SafeTo placed m t h Any (editJob fuel m payload jobId sourceWorker destination destinationWorkerId) s := by
  refine safe_perform stable_true trivial fun s₁ a s₂ b hi₁ _ hh => ?_
  have hwrites := writes_updatePendingJob (m := m) (h := h) hi₁ jobId destinationWorkerId payload.position
    payload.name
    payload.expectedSeconds payload.gpuCount
  have hstep : s₂.db = (atomically (updatePendingJob jobId destinationWorkerId payload.position payload.name
      payload.expectedSeconds payload.gpuCount) s₁.db).2 ∧ s₂.started = s₁.started ∧ s₂.seen = s₁.seen := by
    simp only [jobInterp] at hh
    split at hh <;> cases hh <;> exact ⟨rfl, rfl, rfl⟩
  obtain ⟨hdb, hstarted, hseen⟩ := hstep
  refine ⟨hdb ▸ hwrites, hstarted, fun _ _ => by rw [hseen], fun _ => ?_⟩
  dsimp only [Prog.ret_bind]
  split
  · exact safe_any
  · exact safe_any
  · exact safe_raise
  · refine safe_then (safe_forEach (fun worker s => ?_) _ s₂) fun _ _ _ => safe_any
    exact safe_then (safe_dispatchWorker fuel worker s) fun _ _ _ => safe_any

theorem safe_jobsQueueUpdate (lower : Lower) (fuel : ℕ) (jobId : String) (payload : QueuedJobUpdateRequest)
    (s : World) :
    SafeTo placed m t h Any (jobsQueueUpdate lower fuel m jobId payload) s := by
  refine safe_getJob stable_true trivial fun s₁ _ _ _ => ?_
  cases findJob s₁.db jobId with
  | none => exact safe_any
  | some job =>
    dsimp only
    split
    · exact safe_any
    refine safe_query stable_true trivial fun s₂ _ _ => ?_
    refine safe_then (safe_destinationWorker lower payload _ job s₂) fun reply s₃ _ => ?_
    cases reply with
    | error refusal => exact safe_any
    | ok found =>
      have hunless (requested : ℕ) : SafeTo placed m t h Any
          (if requested > found.1.gpuCount then
            refuse 422 ("gpu_count exceeds worker capacity (" ++ toString found.1.gpuCount ++ ")")
          else editJob fuel m payload jobId (findWorker s₂.db (job.workerId.getD "")) found.1 found.2) s₃ := by
        split
        · exact safe_any
        · exact safe_editJob fuel payload jobId _ found.1 found.2 s₃
      dsimp only
      cases payload.gpuCount with
      | none => exact hunless job.gpuCount
      | some n => exact hunless (if n = 0 then job.gpuCount else n)

theorem safe_jobsDelete (fuel : ℕ) (jobId : String) (s : World) :
    SafeTo placed m t h Any (jobsDelete fuel m jobId) s := by
  refine safe_getJob stable_true trivial fun s₁ hi₁ _ _ => ?_
  cases hfind : findJob s₁.db jobId with
  | none => exact safe_any
  | some job =>
    have hpresent : Present placed jobId s₁ := fun _ => ⟨job, (findJob_eq_some hi₁.assigned.nodup).mp hfind⟩
    dsimp only
    split
    · exact safe_any
    split
    · exact safe_any
    refine safe_query (stable_present jobId) hpresent fun s₂ _ hp₂ => ?_
    cases findWorker s₂.db (job.workerId.getD "") with
    | none => exact safe_any
    | some worker =>
      refine safe_then (safe_stopJob fuel worker jobId hp₂) fun stopped _ _ => ?_
      split <;> exact safe_any

theorem safe_recoverOne (workers : List Worker) (job : Job) (s : World) :
    SafeTo placed m t h Any (recoverOne m workers job) s := by
  unfold recoverOne
  split
  · exact safe_any
  · exact safe_logged (safe_reconcileStartingJob _ job s)

theorem safe_reconcileQueuedJobs (fuel : ℕ) (s : World) :
    SafeTo placed m t h Any (reconcileQueuedJobs fuel m) s := by
  refine safe_then (f := fun workers => Prog.forEach (fun worker => logged (dispatchWorker fuel m worker)) workers)
    ?_
    fun workers s₁ _ => safe_forEach (fun worker s => safe_logged (safe_dispatchWorker fuel worker s)) workers s₁
  refine safe_query stable_true trivial fun s₁ _ _ => safe_query stable_true trivial fun s₂ _ _ => ?_
  exact safe_then (safe_forEach (fun job s => safe_recoverOne _ job s) _ s₂) fun _ _ _ => safe_any

/-- The jobs of a worker that is deleted go with it. -/
theorem writes_deleteWorker (hi : Inv placed s) (hplaced : ¬placed) (workerId : String) :
    Writes placed m h s (atomically (Database.deleteWorker workerId) s.db).2 := by
  have hjobs : (atomically (Database.deleteWorker workerId) s.db).2.jobs =
      s.db.jobs.filter fun j => !decide (j.workerId = some workerId) := by
    simp [atomically, Database.deleteWorker, deleteFrom, jobsTable, workersTable]
  have hmem : ∀ j ∈ (atomically (Database.deleteWorker workerId) s.db).2.jobs, j ∈ s.db.jobs := fun j hj =>
    List.mem_of_mem_filter (hjobs ▸ hj)
  refine ⟨⟨?_, fun j hj => hi.assigned.sized j (hmem j hj),
    fun w a ha b hb => hi.assigned.apart w a (hmem a ha) b (hmem b hb)⟩,
    fun w _ j hj ha => ⟨j, hmem j hj, ha, rfl, rfl⟩, fun hp => absurd hp hplaced⟩
  rw [hjobs]
  exact hi.assigned.nodup.sublist (List.filter_sublist.map _)

/-- Every operation keeps the contract. -/
theorem safe_program (lower : Lower) (fuel : ℕ) {op : Operation} (hop : placed → op.KeepsRows) (s : World) :
    SafeTo placed m t h Any (op.program lower fuel m) s := by
  cases op with
  | register reg =>
    refine safe_discard (safe_quiet trivial stable_true trivial fun now s₁ _ _ => ?_)
    exact safe_method fun _ hi => writes_of_keepsJobs (keepsJobs_upsertWorker reg now) hi
  | setWorkerStatus workerId status =>
    exact safe_method fun _ hi => writes_of_keepsJobs (keepsJobs_setWorkerStatus workerId status) hi
  | markWorkersOffline cutoffTs =>
    exact safe_discard (safe_method fun _ hi => writes_of_keepsJobs (keepsJobs_markWorkersOffline cutoffTs) hi)
  | pruneWorkers olderThanTs =>
    exact safe_discard (safe_method fun _ hi => writes_of_keepsJobs (keepsJobs_pruneWorkers olderThanTs) hi)
  | deleteWorker workerId =>
    exact safe_discard (safe_method fun _ hi => writes_deleteWorker hi (fun hp => hop hp) workerId)
  | report workerId jobs => exact safe_discard (safe_workerPiJobs workerId jobs s)
  | create polls payload => exact safe_discard (safe_jobsCreate lower fuel polls payload s)
  | enqueue payload => exact safe_discard (safe_jobsQueueCreate lower fuel payload s)
  | update jobId payload => exact safe_discard (safe_jobsQueueUpdate lower fuel jobId payload s)
  | stop jobId => exact safe_discard (safe_jobsDelete fuel jobId s)
  | refresh jobs => exact safe_forEach (fun job s => safe_logged (safe_refreshJobStatus fuel job.1 job.2 s)) jobs s
  | reconcile => exact safe_reconcileQueuedJobs fuel s

abbrev ServerPool := Pool JobCall DispatchLock JobError Unit World

abbrev ServerEvent := Event JobCall DispatchLock JobError Unit Answer

/-- The coroutines of one server start with the allowed operations; they run, fail and end in any order. -/
def Serves (m : ℕ) (allowed : Operation → Prop) (_c : ServerPool) : ServerEvent → Prop
  | .spawn p => ∃ lower fuel op, allowed op ∧ p = op.program lower fuel m
  | _ => True

/-- A recovery probes the worker only on which its job was claimed when it read the row. -/
def probesPlaced (c : ServerPool) : ServerEvent → Bool
  | .go t _ =>
    match c.threads[t]? with
    | some ⟨.perform e _, _⟩ => placedProbe e (c.state.seen t)
    | _ => true
  | _ => true

/-- A run without deleted rows where recoveries probe the right worker. -/
def ServesPlaced (m : ℕ) (c : ServerPool) (ev : ServerEvent) : Prop :=
  Serves m Operation.KeepsRows c ev ∧ probesPlaced c ev = true

theorem placedProbe_of_probesPlaced {c : ServerPool} {a : Answer} {β : Type} {e : JobCall β} {k : β → ManagerM Unit}
    {held : List DispatchLock} (hprobes : probesPlaced c (.go t a) = true)
    (ht : c.threads[t]? = some ⟨.perform e k, held⟩) : placedProbe e (c.state.seen t) = true := by
  simpa only [probesPlaced, ht] using hprobes

/-- Every pool of one server is sound under the contract. -/
theorem sound_of_reachable {ok : ServerPool → ServerEvent → Prop} {s₀ : World} (h₀ : Inv placed s₀)
    (hspawn : ∀ c p, ok c (.spawn p) → ∃ lower fuel op, (placed → Operation.KeepsRows op) ∧
      p = op.program lower fuel m)
    (hprobes : placed → ∀ c ev, ok c ev → probesPlaced c ev = true) {c : ServerPool}
    (hc : Pool.Reachable jobInterp ok s₀ c) :
    Pool.Sound jobInterp (contract placed m) (fun _ => Ends [] Any) c := by
  refine Pool.Reachable.sound (contract_coherent placed m) h₀ (fun _ => trivial)
    (fun _ => trivial) ?_ ?_ ?_ ?_ ?_ hc
  · intro c p hp t s _ _
    obtain ⟨lower, fuel, op, hop, rfl⟩ := hspawn c p hp
    exact safe_program lower fuel hop s
  · intro c t a β e k held hok ht
    exact fun hp => placedProbe_of_probesPlaced (hprobes hp c _ hok) ht
  · exact fun _ _ _ _ _ _ => ⟨rfl, fun _ ha => by cases ha⟩
  · exact fun _ _ _ _ _ _ => ⟨rfl, fun _ ha => by cases ha⟩
  · exact fun _ _ _ => trivial

/-- In every run the queue jobs that a worker runs have different GPUs, each job as many as it asks for, and
the waiting ones none. -/
theorem gpus_exclusive {s₀ : World} (h₀ : Assigned s₀.db.jobs) {c : ServerPool}
    (hc : Pool.Reachable jobInterp (Serves m fun _ => True) s₀ c) : Assigned c.state.db.jobs := by
  have hsound : Pool.Sound jobInterp (contract False m) (fun _ => Ends [] Any) c := by
    refine sound_of_reachable ⟨h₀, False.elim⟩ (fun c p hp => ?_) False.elim hc
    obtain ⟨lower, fuel, op, -, rfl⟩ := hp
    exact ⟨lower, fuel, op, False.elim, rfl⟩
  exact hsound.inv.assigned

/-- A queue of waiting jobs. -/
theorem assigned_of_waits {jobs : List Job} (hn : (jobs.map (·.id)).Nodup)
    (hw : ∀ j ∈ jobs, j.kind = .ssh ∧ Waits j ∧ j.gpuIndices = []) : Assigned jobs := by
  refine ⟨hn, fun j hj => ?_, fun w j hj _ _ ha => ?_⟩
  · obtain ⟨hkind, hwaits, hgpus⟩ := hw j hj
    exact ⟨fun _ => hgpus, fun _ ha => by simp [hwaits.2] at ha, fun hd => absurd (hkind.symm.trans hd) (by simp)⟩
  · simp [Job.activeOn, Job.active, (hw j hj).2.1.2] at ha

def twoQueued : World where
  db :=
    { workers := [{ id := "w", name := "w", gpuCount := 2, gpuVramGb := [16, 16], gpuUsedVramGb := [0, 0],
                    gpuBusy := [some false, some false], status := .online }]
      jobs := [{ id := "a", workerId := some "w", status := .pending, queueManaged := true, gpuCount := 1,
                 queueOrder := 1 },
               { id := "b", workerId := some "w", status := .pending, queueManaged := true, gpuCount := 1,
                 queueOrder := 2 }] }

theorem assigned_twoQueued : Assigned twoQueued.db.jobs :=
  assigned_of_waits (by decide) (by simp [twoQueued, Waits])

def pass : ServerEvent := .spawn (Operation.reconcile.program id 3 0)

def turns (n t : ℕ) (a : Answer) : List ServerEvent := List.replicate n (.go t a)

theorem serves_of_mem {allowed : Operation → Prop} (hallowed : allowed .reconcile) {c : ServerPool} {n t : ℕ}
    {a : Answer} :
    ∀ ev ∈ pass :: turns n t a, Serves 0 allowed c ev := by
  intro ev hev
  rcases List.mem_cons.mp hev with rfl | hev
  · exact ⟨id, 3, .reconcile, hallowed, rfl⟩
  · rw [List.eq_of_mem_replicate hev]
    trivial

/-- Both jobs run after one pass, on different GPUs. -/
theorem gpus_exclusive_pass : ∃ c, Pool.Reachable jobInterp (Serves 0 fun _ => True) twoQueued c ∧
    (c.state.db.jobs.map fun j => (j.status, j.gpuIndices)) = [(.running, [0]), (.running, [1])] ∧
    Assigned c.state.db.jobs := by
  have hrun : ((Pool.run jobInterp ⟨twoQueued, []⟩
    (pass :: turns 20 0 { time := 1, launches := true, code := some 0 })).map
      fun c : ServerPool => c.state.db.jobs.map fun j => (j.status, j.gpuIndices)) =
        some [(.running, [0]), (.running, [1])] := by decide +kernel
  obtain ⟨c, hc, hjobs⟩ := Option.map_eq_some_iff.mp hrun
  have hreach : Pool.Reachable jobInterp (Serves 0 fun _ => True) twoQueued c :=
    .run .init (fun _ => serves_of_mem trivial) hc
  exact ⟨c, hreach, hjobs, gpus_exclusive assigned_twoQueued hreach⟩

inductive Edge : JobStatus → JobStatus → Prop where
  | claimed : Edge .pending .starting
  | cancelled : Edge .pending .failed
  | launched : Edge .starting .running
  | neverLaunched : Edge .starting .failed
  | recovered : Edge .starting .pending
  | done : Edge .running .done
  | failed : Edge .running .failed

/-- `j'` is the row `j` after one step: its status follows an edge, a row that has ended stays as it is, and only
an edit of a waiting job changes what the operator can edit. -/
structure Lives (j j' : Job) : Prop where
  status : j'.status = j.status ∨ Edge j.status j'.status
  ended : j.status = .done ∨ j.status = .failed → j' = j
  edits : ¬Waits j ∨ ¬Waits j' →
    j'.name = j.name ∧ j'.expectedSeconds = j.expectedSeconds ∧ j'.gpuCount = j.gpuCount ∧ j'.workerId = j.workerId
  order : ¬Waits j → ¬Waits j' → j'.queueOrder = j.queueOrder

variable {mine : String → Prop} {started : List (String × String)}

theorem lives_refl (j : Job) : Lives j j := ⟨.inl rfl, fun _ => rfl, fun _ => ⟨rfl, rfl, rfl, rfl⟩, fun _ _ => rfl⟩

theorem lives_of_edge (he : Edge j.status j'.status)
    (hedits : j'.name = j.name ∧ j'.expectedSeconds = j.expectedSeconds ∧ j'.gpuCount = j.gpuCount ∧
      j'.workerId = j.workerId)
    (horder : ¬Waits j → ¬Waits j' → j'.queueOrder = j.queueOrder) : Lives j j' := by
  refine ⟨.inr he, fun hended => ?_, fun _ => hedits, horder⟩
  rcases hended with hs | hs
  · rw [hs] at he
    cases he
  · rw [hs] at he
    cases he

/-- A step of a waiting job that goes on waiting. -/
theorem lives_of_waits (hw : Waits j) (hs : j'.status = j.status) (hw' : Waits j') : Lives j j' := by
  refine ⟨.inl hs, fun hended => ?_, fun hleft => ?_, fun hleft => absurd hw hleft⟩
  · rcases hended with hs | hs <;> simp [hw.2] at hs
  · rcases hleft with hleft | hleft
    · exact absurd hw hleft
    · exact absurd hw' hleft

/-- A move of a row of an SSH job is a step of its life. -/
theorem lives_of_rowMove (h : RowMove mine started j j') (hkind : j.kind = .ssh)
    (hwaiting : j.status = .pending → Waits j) :
    Lives j j' := by
  cases h with
  | same => exact lives_refl j
  | reordered n hp => exact lives_of_waits (hwaiting hp) rfl (hwaiting hp)
  | edited row workerId name expectedSeconds gpuCount n hw => exact lives_of_waits hw rfl hw
  | cancelled finishedAt hw =>
    exact lives_of_edge (hw.2 ▸ .cancelled) ⟨rfl, rfl, rfl, rfl⟩ fun hw' => absurd hw hw'
  | claimed gpuIndices startedAt _ _ hw =>
    exact lives_of_edge (hw.2 ▸ .claimed) ⟨rfl, rfl, rfl, rfl⟩ fun hw' => absurd hw hw'
  | launched _ hr hs => exact lives_of_edge (hs ▸ .launched) ⟨rfl, rfl, rfl, rfl⟩ fun _ _ => rfl
  | recovered _ hr hs hq =>
    exact lives_of_edge (hs ▸ .recovered) ⟨rfl, rfl, rfl, rfl⟩ fun _ hw' => absurd ⟨hq, rfl⟩ hw'
  | neverLaunched now _ hr hs => exact lives_of_edge (hs ▸ .neverLaunched) ⟨rfl, rfl, rfl, rfl⟩ fun _ _ => rfl
  | stopped finishedAt _ hr =>
    refine lives_of_edge ?_ ⟨rfl, rfl, rfl, rfl⟩ fun _ _ => rfl
    rcases hr.active with hs | hs
    · exact hs ▸ .neverLaunched
    · exact hs ▸ .failed
  | finished exitCode finishedAt _ hr hs =>
    refine lives_of_edge ?_ ⟨rfl, rfl, rfl, rfl⟩ fun _ _ => rfl
    rw [hs]
    dsimp only
    split
    · exact .failed
    · exact .done
  | reported _ hd => exact absurd (hkind.symm.trans hd) (by simp)

/-- What the runs with placed probes keep. -/
theorem sound_of_servesPlaced {s₀ : World} (h₀ : Assigned s₀.db.jobs) (h₀' : Launched s₀.db.jobs s₀.started)
    {c : ServerPool}
    (hc : Pool.Reachable jobInterp (ServesPlaced m) s₀ c) :
    Pool.Sound jobInterp (contract True m) (fun _ => Ends [] Any) c := by
  refine sound_of_reachable ⟨h₀, fun _ => h₀'⟩ (fun c p hp => ?_) (fun _ c ev hok => hok.2) hc
  obtain ⟨lower, fuel, op, hop, rfl⟩ := hp.1
  exact ⟨lower, fuel, op, fun _ => hop, rfl⟩

/-- Where recoveries probe the worker that has the job, no row disappears, and every step of the run is a step
in the life of each SSH job. -/
theorem rows_live {s₀ : World} (h₀ : Assigned s₀.db.jobs) (h₀' : Launched s₀.db.jobs s₀.started) {c c' : ServerPool}
    {ev : ServerEvent} (hc : Pool.Reachable jobInterp (ServesPlaced m) s₀ c) (hok : ServesPlaced m c ev)
    (hstep : c.step jobInterp ev = some c') :
    ∀ j ∈ c.state.db.jobs, j.kind = .ssh → ∃ j' ∈ c'.state.db.jobs, j'.id = j.id ∧ Lives j j' := by
  intro j hj hkind
  have hsound := sound_of_servesPlaced h₀ h₀' hc
  have hplaced : ∀ t a β (e : JobCall β) k held, ev = .go t a → c.threads[t]? = some ⟨.perform e k, held⟩ →
      True → placedProbe e (c.state.seen t) = true := by
    rintro t a β e k held rfl ht -
    exact placedProbe_of_probesPlaced hok.2 ht
  rcases hsound.guar (contract_coherent True m) hplaced hstep with hstate | ⟨t, held, hguar⟩
  · exact ⟨j, hstate ▸ hj, rfl, lives_refl j⟩
  · obtain ⟨j', hj', hmove⟩ := (hguar.2.moves trivial).exists_left hj
    have hwaiting : j.status = .pending → Waits j :=
      fun hs => ⟨(hsound.inv.launched trivial).waiting j hj hkind hs, hs⟩
    exact ⟨j', hj', hmove.id_eq, lives_of_rowMove hmove hkind hwaiting⟩

theorem launched_twoQueued : Launched twoQueued.db.jobs twoQueued.started :=
  ⟨by simp [twoQueued], List.nodup_nil, fun _ hl => by cases hl⟩

def nothingFound : Answer := { time := 2, launches := true, code := some 0, evidence := some (some false) }

def unknownLaunches (n : ℕ) : List ServerEvent :=
  pass :: turns 18 0 { time := 1, code := some 255 } ++ pass :: turns n 1 nothingFound

theorem servesPlaced_of_mem {n : ℕ} (c : ServerPool) {ev : ServerEvent} (hev : ev ∈ unknownLaunches n)
    (hprobes : probesPlaced c ev = true) : ServesPlaced 0 c ev := by
  refine ⟨?_, hprobes⟩
  rcases List.mem_append.mp hev with hev | hev
  · exact serves_of_mem trivial ev hev
  · exact serves_of_mem trivial ev hev

/-- The recovery returns the second job to the queue. -/
theorem rows_live_recovered : ∃ c c' ev, Pool.Reachable jobInterp (ServesPlaced 0) twoQueued c ∧
    c.step jobInterp ev = some c' ∧
    (c.state.db.jobs.map (·.status)) = [.starting, .starting] ∧
    (c'.state.db.jobs.map (·.status)) = [.starting, .pending] ∧
    ∀ j ∈ c.state.db.jobs, j.kind = .ssh → ∃ j' ∈ c'.state.db.jobs, j'.id = j.id ∧ Lives j j' := by
  have hrun : ((Pool.checkedRun jobInterp probesPlaced ⟨twoQueued, []⟩
    (unknownLaunches 6)).map fun c : ServerPool =>
      (c.state.db.jobs.map (·.status), probesPlaced c (.go 1 nothingFound),
        (c.step jobInterp (.go 1 nothingFound)).map fun c' : ServerPool => c'.state.db.jobs.map (·.status))) =
      some ([.starting, .starting], true, some [.starting, .pending]) := by decide +kernel
  obtain ⟨c, hc, hview⟩ := Option.map_eq_some_iff.mp hrun
  simp only [Prod.mk.injEq] at hview
  obtain ⟨hbefore, hprobes, hafter⟩ := hview
  obtain ⟨c', hstep, hafter⟩ := Option.map_eq_some_iff.mp hafter
  have hreach : Pool.Reachable jobInterp (ServesPlaced 0) twoQueued c :=
    .checkedRun .init (fun d _ hev => servesPlaced_of_mem d hev) hc
  have hok : ServesPlaced 0 c (.go 1 nothingFound) := ⟨trivial, hprobes⟩
  exact ⟨c, c', .go 1 nothingFound, hreach, hstep, hbefore, hafter,
    rows_live assigned_twoQueued launched_twoQueued hreach hok hstep⟩

/-- Where recoveries probe the worker that has the job, no job is launched twice, and no job that waits was
ever launched. -/
theorem launched_once {s₀ : World} (h₀ : Assigned s₀.db.jobs) (h₀' : Launched s₀.db.jobs s₀.started)
    {c : ServerPool}
    (hc : Pool.Reachable jobInterp (ServesPlaced m) s₀ c) :
    (c.state.started.map (·.2)).Nodup ∧
      ∀ j ∈ c.state.db.jobs, j.status = .pending → ∀ launch ∈ c.state.started, launch.2 ≠ j.id := by
  have hinv := (sound_of_servesPlaced h₀ h₀' hc).inv
  have hlaunched := hinv.launched trivial
  exact ⟨hlaunched.once, fun j hj hs => hlaunched.unstarted hinv.assigned.nodup hj hs⟩

/-- The second pass launches both jobs. -/
theorem launched_once_recovered : ∃ c, Pool.Reachable jobInterp (ServesPlaced 0) twoQueued c ∧
    c.state.started = [("w", "b"), ("w", "a")] ∧ (c.state.started.map (·.2)).Nodup ∧
      ∀ j ∈ c.state.db.jobs, j.status = .pending → ∀ launch ∈ c.state.started, launch.2 ≠ j.id := by
  have hrun : ((Pool.checkedRun jobInterp probesPlaced ⟨twoQueued, []⟩
    (unknownLaunches 29)).map fun c : ServerPool =>
      c.state.started) = some [("w", "b"), ("w", "a")] := by decide +kernel
  obtain ⟨c, hc, hstarted⟩ := Option.map_eq_some_iff.mp hrun
  have hreach : Pool.Reachable jobInterp (ServesPlaced 0) twoQueued c :=
    .checkedRun .init (fun d _ hev => servesPlaced_of_mem d hev) hc
  exact ⟨c, hreach, hstarted, launched_once assigned_twoQueued launched_twoQueued hreach⟩

end WorkerHarness.JobLifecycles
