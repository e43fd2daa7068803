import WorkerHarness.JobMoves
import WorkerHarness.QueueRoutes

/-!
# The contract of the dispatch locks

A thread with the dispatch lock of a worker relies on the jobs that run there: nobody else changes their rows,
launches them, or claims GPUs on the worker. That holds for the claims in every run. For the rows it takes
that a recovery only probes the worker on which its job was claimed; `placed` says whether the run is one of
these.
-/

namespace WorkerHarness.JobContracts

open Coroutines SharedTransactions Database JobQueues JobRows JobMoves JobManager QueueRoutes

structure Inv (placed : Prop) (s : World) : Prop where
  assigned : Assigned s.db.jobs
  launched : placed → Launched s.db.jobs s.started

/-- What the others leave alone. -/
structure Undisturbed (placed : Prop) (m : ℕ) (h : List DispatchLock) (s s' : World) : Prop where
  active : ∀ w, (m, w) ∈ h → KeepsActive w s.db.jobs s'.db.jobs
  running : placed → ∀ w, (m, w) ∈ h → ∀ j ∈ s.db.jobs, RunsOn w j → j ∈ s'.db.jobs ∧
    ∀ launch ∈ s'.started, launch.2 = j.id → launch ∈ s.started
  rows : placed → ∀ j ∈ s.db.jobs, ∃ j' ∈ s'.db.jobs, j'.id = j.id ∧ j'.kind = j.kind

structure Acts (placed : Prop) (m : ℕ) (h : List DispatchLock) (s s' : World) : Prop where
  active : ∀ w, (m, w) ∉ h → KeepsActive w s.db.jobs s'.db.jobs
  moves : placed → Moves (fun w => (m, w) ∈ h) s.started s.db.jobs s'.db.jobs
  launches : placed → ∀ launch ∈ s'.started, launch ∈ s.started ∨
    (m, launch.1) ∈ h ∧ ∃ j ∈ s.db.jobs, RunsOn launch.1 j ∧ j.id = launch.2

def placedProbe {β : Type} (e : JobCall β) (seen : Option Job) : Bool :=
  match e with
  | .jobStarted workerId _ => seen.all fun row => row.workerId = some workerId
  | _ => true

def contract (placed : Prop) (m : ℕ) : Contract JobCall DispatchLock World where
  inv := Inv placed
  fresh _ _ := True
  rely t h s s' := s'.seen t = s.seen t ∧ Undisturbed placed m h s s'
  guar t h s s' := (∀ t', t' ≠ t → s'.seen t' = s.seen t') ∧ Acts placed m h s s'
  assume e t s := placed → placedProbe e (s.seen t) = true
  pre _ _ _ _ := True

variable {placed : Prop} {m : ℕ} {h : List DispatchLock} {s s' s'' : World} {t : ℕ} {w : String} {j job : Job}

theorem Undisturbed.refl (s : World) : Undisturbed placed m h s s where
  active w _ := .refl w _
  running _ _ _ _ hj _ := ⟨hj, fun _ hl _ => hl⟩
  rows _ j hj := ⟨j, hj, rfl, rfl⟩

theorem Undisturbed.trans (hu : Undisturbed placed m h s s') (hu' : Undisturbed placed m h s' s'') :
    Undisturbed placed m h s s'' where
  active w hl := (hu.active w hl).trans (hu'.active w hl)
  running hp w hl j hj hr := by
    obtain ⟨hj', hstarted⟩ := hu.running hp w hl j hj hr
    obtain ⟨hj'', hstarted'⟩ := hu'.running hp w hl j hj' hr
    exact ⟨hj'', fun launch hlaunch hid => hstarted launch (hstarted' launch hlaunch hid) hid⟩
  rows hp j hj := by
    obtain ⟨j', hj', hid, hkind⟩ := hu.rows hp j hj
    obtain ⟨j'', hj'', hid', hkind'⟩ := hu'.rows hp j' hj'
    exact ⟨j'', hj'', hid'.trans hid, hkind'.trans hkind⟩

theorem Undisturbed.of_eq (hdb : s'.db = s.db) (hstarted : s'.started = s.started) :
    Undisturbed placed m h s s' where
  active w _ := hdb ▸ .refl w _
  running _ _ _ _ hj _ := ⟨hdb ▸ hj, fun _ hl _ => hstarted ▸ hl⟩
  rows _ j hj := ⟨j, hdb ▸ hj, rfl, rfl⟩

/-- What one thread does, the holders of other locks can rely on. -/
theorem Acts.undisturbed {h' : List DispatchLock} (hd : ∀ l ∈ h, l ∉ h') (hi : Inv placed s)
    (ha : Acts placed m h s s') :
    Undisturbed placed m h' s s' where
  active w hl := ha.active w fun hl' => hd _ hl' hl
  running hp w hl j hj hr := by
    obtain ⟨j', hj', hmove⟩ := (ha.moves hp).exists_left hj
    refine ⟨hmove.eq_of_runsOn hr (fun hl' => hd _ hl' hl) ▸ hj', fun launch hlaunch hid => ?_⟩
    rcases ha.launches hp launch hlaunch with hold | ⟨hl', a, ha, hr', hid'⟩
    · exact hold
    · -- The launched job is this one, so that both threads would have the lock of its worker.
      rw [eq_of_id_eq hi.assigned.nodup ha hj (hid'.trans hid)] at hr'
      have hw : launch.1 = w := Option.some.inj (hr'.worker.symm.trans hr.worker)
      exact absurd hl (hd _ (hw ▸ hl'))
  rows hp j hj := by
    obtain ⟨j', hj', hmove⟩ := (ha.moves hp).exists_left hj
    exact ⟨j', hj', hmove.id_eq, hmove.kind_eq⟩

theorem contract_coherent (placed : Prop) (m : ℕ) : (contract placed m).Coherent where
  rely_refl _ _ s := ⟨rfl, .refl s⟩
  rely_trans h h' := ⟨h'.1.trans h.1, h.2.trans h'.2⟩
  guar_rely hne hd hi _ hg := ⟨hg.1 _ (Ne.symm hne), hg.2.undisturbed hd hi⟩
  guar_fresh _ _ _ _ := trivial
  guar_res _ _ _ _ _ := trivial

/-- The other threads cannot spoil the fact. -/
def Stable (placed : Prop) (m : ℕ) (h : List DispatchLock) (J : World → Prop) : Prop :=
  ∀ s s', J s → Undisturbed placed m h s s' → J s'

/-- How a thread may leave the tables. -/
structure Writes (placed : Prop) (m : ℕ) (h : List DispatchLock) (s : World) (d' : Tables) : Prop where
  assigned : Assigned d'.jobs
  active : ∀ w, (m, w) ∉ h → KeepsActive w s.db.jobs d'.jobs
  moves : placed → Moves (fun w => (m, w) ∈ h) s.started s.db.jobs d'.jobs

theorem Writes.of_eq {d' : Tables} (hi : Inv placed s) (hd : d'.jobs = s.db.jobs) : Writes placed m h s d' where
  assigned := hd ▸ hi.assigned
  active w _ := hd ▸ .refl w _
  moves _ := hd ▸ moves_refl _

theorem Writes.inv (hi : Inv placed s) (hw : Writes placed m h s s'.db) (hstarted : s'.started = s.started) :
    Inv placed s' :=
  ⟨hw.assigned, fun hp => hstarted ▸ (hi.launched hp).moves (hw.moves hp)⟩

theorem Writes.acts (hw : Writes placed m h s s'.db) (hstarted : s'.started = s.started) : Acts placed m h s s' :=
  ⟨hw.active, hw.moves, fun _ _ hl => .inl (hstarted ▸ hl)⟩

variable {α β : Type} {J : World → Prop} {R : α → World → Prop}
    {Q : Except JobError α → List DispatchLock → World → Prop}

/-- The end of a coroutine: the locks are as before, and a result is in `R`. -/
def Ends (h : List DispatchLock) (R : α → World → Prop) (r : Except JobError α) (h' : List DispatchLock)
    (s : World) : Prop :=
  h' = h ∧ ∀ a, r = .ok a → R a s

abbrev Any {α : Type} : α → World → Prop := fun _ _ => True

abbrev SafeTo (placed : Prop) (m t : ℕ) (h : List DispatchLock) (R : α → World → Prop) (p : ManagerM α)
    (s : World) : Prop :=
  Safe jobInterp (contract placed m) t (Ends h R) p h s

theorem safe_ret {a : α} (hR : ∀ s', Inv placed s' → Undisturbed placed m h s s' → R a s') :
    SafeTo placed m t h R (.ret a) s := by
  refine fun s' hr hi => ⟨rfl, fun a' ha => ?_⟩
  cases ha
  exact hR s' hi hr.2

theorem safe_any {a : α} : SafeTo placed m t h Any (.ret a) s := safe_ret fun _ _ _ => trivial

theorem safe_raise {e : JobError} : SafeTo placed m t h R (.raise e) s :=
  fun _ _ _ => ⟨rfl, fun _ ha => by cases ha⟩

theorem safe_bind {R' : β → World → Prop} {p : ManagerM α} {f : α → ManagerM β} (hp : SafeTo placed m t h R p s)
    (hf : ∀ a s', Inv placed s' → R a s' → SafeTo placed m t h R' (f a) s') :
    SafeTo placed m t h R' (p.bind f) s := by
  refine Safe.bind (contract_coherent placed m) (Safe.mono ?_ hp)
  rintro r h' s' hi ⟨rfl, hr⟩
  cases r with
  | ok a => exact hf a s' hi (hr a rfl)
  | error e => exact fun _ _ _ => ⟨rfl, fun _ ha => by cases ha⟩

theorem safe_then {p : ManagerM α} {f : α → ManagerM β} (hp : SafeTo placed m t h Any p s)
    (hf : ∀ a s', Inv placed s' → SafeTo placed m t h Any (f a) s') : SafeTo placed m t h Any (p.bind f) s :=
  safe_bind hp fun a s' hi _ => hf a s' hi

theorem safe_withLock {l : DispatchLock} {p : ManagerM α}
    (hp : ∀ s', Inv placed s' → Undisturbed placed m h s s' → SafeTo placed m t (l :: h) Any p s') :
    SafeTo placed m t h Any (Prog.withLock l p) s := by
  refine Safe.withLock (contract_coherent placed m) (fun s₁ hr hi _ _ => ?_) fun s s' hr => ⟨hr.1, ?_⟩
  · refine Safe.mono ?_ (hp s₁ hi hr.2)
    rintro r h' s' - ⟨rfl, -⟩
    exact ⟨rfl, fun _ _ _ => trivial, fun _ _ _ => ⟨rfl, fun _ _ => trivial⟩⟩
  · have hu : Undisturbed placed m (l :: h) s s' := hr.2
    exact ⟨fun w hl => hu.active w (by simp [hl]), fun hp w hl => hu.running hp w (by simp [hl]), hu.rows⟩

theorem safe_logged {p : ManagerM α} (hp : SafeTo placed m t h Any p s) : SafeTo placed m t h Any (logged p) s :=
  safe_then (Safe.attempt (Safe.mono (fun _ _ _ _ hr => ⟨hr.1, fun _ _ => trivial⟩) hp)) fun _ _ _ => safe_any

theorem safe_forEach {f : α → ManagerM Unit} (hf : ∀ a s, SafeTo placed m t h Any (f a) s) (as : List α)
    (s : World) :
    SafeTo placed m t h Any (Prog.forEach f as) s := by
  induction as generalizing s with
  | nil => exact safe_any
  | cons a as ih => exact safe_then (hf a s) fun _ s' _ => ih s'

/-- A call that launches nothing. -/
theorem safe_perform {e : JobCall β} {k : β → ManagerM α} (hJ : Stable placed m h J) (hs : J s)
    (hstep : ∀ s₁ a s₂ b, Inv placed s₁ → J s₁ → jobInterp.handle e t a s₁ = some (s₂, b) →
      Writes placed m h s₁ s₂.db ∧ s₂.started = s₁.started ∧ (∀ t', t' ≠ t → s₂.seen t' = s₁.seen t') ∧
        (Inv placed s₂ → SafeTo placed m t h R (k b) s₂)) :
    SafeTo placed m t h R (.perform e k) s := by
  intro s₁ hr hi _
  refine ⟨trivial, fun a s₂ b hh => ?_⟩
  obtain ⟨hwrites, hstarted, hseen, hk⟩ := hstep s₁ a s₂ b hi (hJ s s₁ hs hr.2) hh
  have hi₂ := hwrites.inv hi hstarted
  exact ⟨⟨hseen, hwrites.acts hstarted⟩, hi₂, hk hi₂⟩

/-- The call leaves the world alone. -/
def Quiet {β : Type} : JobCall β → Prop
  | .now | .newId | .launchReply _ _ _ | .jobStarted _ _ | .tmuxKill _ _ | .tmuxRunning _ _ | .getExitCode _ _ |
    .readLog _ _ => True
  | _ => False

theorem quiet_of_handle {e : JobCall β} {a : Answer} {b : β} (he : Quiet e)
    (hh : jobInterp.handle e t a s = some (s', b)) :
    s'.db = s.db ∧ s'.started = s.started ∧ s'.seen = s.seen := by
  cases e with
  | now | tmuxKill _ _ | tmuxRunning _ _ | getExitCode _ _ | readLog _ _ =>
    cases hh
    exact ⟨rfl, rfl, rfl⟩
  | newId =>
    simp only [jobInterp] at hh
    split at hh
    · cases hh
    · cases hh
      exact ⟨rfl, rfl, rfl⟩
  | launchReply workerId jobId launched =>
    simp only [jobInterp] at hh
    split at hh
    · cases hh
      exact ⟨rfl, rfl, rfl⟩
    · cases hh
  | jobStarted workerId jobId =>
    simp only [jobInterp] at hh
    split at hh
    · cases hh
      exact ⟨rfl, rfl, rfl⟩
    · cases hh
  | _ => exact he.elim

theorem stable_true : Stable placed m h fun _ => True := fun _ _ _ _ => trivial

theorem safe_quiet {e : JobCall β} {k : β → ManagerM α} (he : Quiet e) (hJ : Stable placed m h J) (hs : J s)
    (hk : ∀ b s', Inv placed s' → J s' → SafeTo placed m t h R (k b) s') :
    SafeTo placed m t h R (.perform e k) s := by
  refine safe_perform hJ hs fun s₁ a s₂ b hi hs₁ hh => ?_
  obtain ⟨hdb, hstarted, hseen⟩ := quiet_of_handle he hh
  refine ⟨.of_eq hi (by rw [hdb]), hstarted, fun _ _ => by rw [hseen], fun hi₂ => hk b s₂ hi₂ ?_⟩
  exact hJ s₁ s₂ hs₁ (.of_eq hdb hstarted)

theorem safe_ssh {command : JobCall (Option β)} {f : β → ManagerM α} (he : Quiet command) (hJ : Stable placed m h J)
    (hs : J s) (hk : ∀ b s', Inv placed s' → J s' → SafeTo placed m t h R (f b) s') :
    SafeTo placed m t h R ((ssh command).bind f) s := by
  refine safe_quiet he hJ hs fun b s' hi hs' => ?_
  cases b with
  | none => exact safe_raise
  | some b => exact hk b s' hi hs'

theorem safe_database {method : DbM β} {f : β → ManagerM α} (hJ : Stable placed m h J) (hs : J s)
    (hwrites : ∀ s, Inv placed s → J s → Writes placed m h s (atomically method s.db).2)
    (hk : ∀ b s' s'', J s' → s'' = s'.withDb (atomically method s'.db).2 → (atomically method s'.db).1 = .ok b →
      Inv placed s'' → SafeTo placed m t h R (f b) s'') :
    SafeTo placed m t h R ((database method).bind f) s := by
  refine safe_perform hJ hs fun s₁ a s₂ b hi hs₁ hh => ?_
  cases hh
  refine ⟨hwrites s₁ hi hs₁, rfl, fun _ _ => rfl, fun hi₂ => ?_⟩
  cases hr : (atomically method s₁.db).1 with
  | error e => exact safe_raise
  | ok b => exact hk b s₁ _ hs₁ rfl hr hi₂

theorem safe_method {method : DbM β} (hwrites : ∀ s, Inv placed s →
      Writes placed m h s (atomically method s.db).2) :
    SafeTo placed m t h Any (database method) s := by
  have hthen : SafeTo placed m t h Any ((database method).bind .ret) s :=
    safe_database stable_true trivial (fun s hi _ => hwrites s hi) fun _ _ _ _ _ _ _ => safe_any
  rwa [Prog.bind_ret] at hthen

theorem safe_updateJob {f : Unit → ManagerM α} (hJ : Stable placed m h J) (hs : J s)
    (hwrites : ∀ s, Inv placed s → J s → Writes placed m h s (atomically (Database.updateJob job) s.db).2)
    (hk : ∀ s', Inv placed s' → SafeTo placed m t h R (f ()) s') :
    SafeTo placed m t h R ((JobManager.updateJob job).bind f) s := by
  refine safe_perform hJ hs fun s₁ a s₂ b hi hs₁ hh => ?_
  cases hh
  refine ⟨hwrites s₁ hi hs₁, rfl, fun _ _ => rfl, fun hi₂ => ?_⟩
  rw [atomically_updateJob]
  exact hk _ hi₂

theorem safe_query {q : Tables → β} {f : β → ManagerM α} (hJ : Stable placed m h J) (hs : J s)
    (hk : ∀ s', Inv placed s' → J s' → SafeTo placed m t h R (f (q s'.db)) s') :
    SafeTo placed m t h R ((database (query q)).bind f) s := by
  refine safe_database hJ hs (fun s hi _ => .of_eq hi rfl) fun b s₁ s₂ hs₁ hs₂ hb hi₂ => ?_
  have hsame : s₂ = s₁ := hs₂.trans (World.withDb_self s₁)
  subst hsame
  cases hb
  exact hk s₂ hi₂ hs₁

theorem safe_getJob {jobId : String} {f : Option Job → ManagerM α} (hJ : Stable placed m h J) (hs : J s)
    (hk : ∀ s', Inv placed s' → J s' → s'.seen t = findJob s'.db jobId →
      SafeTo placed m t h R (f (findJob s'.db jobId)) s') :
    SafeTo placed m t h R ((JobManager.getJob jobId).bind f) s := by
  refine safe_perform hJ hs fun s₁ a s₂ b hi hs₁ hh => ?_
  cases hh
  refine ⟨.of_eq hi rfl, rfl, fun t' ht => if_neg ht, fun hi₂ => ?_⟩
  exact hk (s₁.read t (findJob s₁.db jobId)) hi₂ (hJ s₁ _ hs₁ (.of_eq rfl rfl)) (if_pos rfl)

def KeepsJobs {β : Type} (method : DbM β) : Prop := ∀ d, (atomically method d).2.jobs = d.jobs

theorem keepsJobs_upsertWorker (reg : WorkerRegistration) (now : ℕ) : KeepsJobs (upsertWorker reg now) := by
  intro d
  simp only [atomically, upsertWorker, getWorker, Prog.bind_eq, alone_query, alone_bind]
  split
  · simp [update, workersTable]
  · by_cases hany : ∃ w ∈ d.workers, w.id = (Worker.fromRegistration reg now).id <;>
      simp [insertInto, workersTable, hany]

theorem keepsJobs_markWorkersOffline (cutoffTs : ℕ) : KeepsJobs (markWorkersOffline cutoffTs) := fun d => by
  simp [atomically, markWorkersOffline, update, workersTable]

theorem keepsJobs_setWorkerStatus (workerId : String) (status : WorkerStatus) :
    KeepsJobs (setWorkerStatus workerId status) :=
  fun d => by simp [atomically, setWorkerStatus, update, workersTable]

theorem keepsJobs_pruneWorkers (olderThanTs : ℕ) : KeepsJobs (pruneWorkers olderThanTs) := fun d => by
  simp [atomically, pruneWorkers, deleteFrom, workersTable]

theorem keepsJobs_insertFailure (failure : Failure) : KeepsJobs (insertFailure failure) := fun d => by
  simp [atomically, insertFailure, appendTo, failuresTable]

theorem writes_of_keepsJobs {method : DbM β} (hmethod : KeepsJobs method) (hi : Inv placed s) :
    Writes placed m h s (atomically method s.db).2 := .of_eq hi (hmethod s.db)

theorem writes_of_pendingSteps {d' : Tables} {jobId : String} (hi : Inv placed s)
    (hsteps : List.Forall₂ (PendingStep jobId) s.db.jobs d'.jobs) : Writes placed m h s d' := by
  have htame : List.Forall₂ Tame s.db.jobs d'.jobs :=
    forall₂_imp_of_mem hsteps fun j hj j' hstep => tame_pendingStep hstep (hi.assigned.sized j hj)
  exact ⟨hi.assigned.tame htame, fun w _ => keepsActive_of_tame htame,
    fun _ => .of_forall₂ (hsteps.imp fun _ _ hstep => .of_pendingStep hstep)⟩

theorem writes_failPendingJob (hi : Inv placed s) (jobId : String) (finishedAt : ℕ) :
    Writes placed m h s (atomically (failPendingJob jobId finishedAt) s.db).2 :=
  writes_of_pendingSteps hi (pendingSteps_failPendingJob hi.assigned.nodup jobId finishedAt)

theorem writes_updatePendingJob (hi : Inv placed s) (jobId : String) (workerId : Option String)
    (position : Option ℕ)
    (name : Option String) (expectedSeconds gpuCount : Option ℕ) :
    Writes placed m h s
      (atomically (updatePendingJob jobId workerId position name expectedSeconds gpuCount) s.db).2 :=
  writes_of_pendingSteps hi
    (pendingSteps_updatePendingJob hi.assigned.nodup jobId workerId position name expectedSeconds gpuCount)

theorem writes_insertQueuedJob (hi : Inv placed s) (hkind : job.kind = .ssh) :
    Writes placed m h s (atomically (insertQueuedJob job) s.db).2 := by
  rw [atomically_insertQueuedJob]
  split
  · exact .of_eq hi rfl
  · next hany =>
    have hid : ∀ j ∈ s.db.jobs, j.id ≠ job.id := by simpa using hany
    generalize topQueueOrder s.db job.workerId + 1 = n
    have hsized : Sized (job.enqueued n) :=
      ⟨fun _ => rfl, (fun _ ha => by cases ha), (fun hd => absurd (hkind.symm.trans hd) (by simp))⟩
    have hidle : ∀ w, (job.enqueued n).activeOn w = false := fun w => by
      simp [Job.enqueued, Job.activeOn, Job.active]
    exact ⟨hi.assigned.append hid hsized hidle, fun w _ => keepsActive_append (hidle w),
      fun _ => .of_append (.enqueued hkind ⟨rfl, rfl⟩) hid⟩

/-- A job that is started directly is none of the queue. -/
theorem writes_insertJob (hi : Inv placed s) (hl : (m, w) ∈ h) (hr : RunsOn w job) (hq : job.queueManaged = false) :
    Writes placed m h s (atomically (insertJob job) s.db).2 := by
  rw [atomically_insertJob]
  split
  · exact .of_eq hi rfl
  · next hany =>
    have hid : ∀ j ∈ s.db.jobs, j.id ≠ job.id := by simpa using hany
    have hidle := not_activeOn_of_unmanaged hq
    exact ⟨hi.assigned.append hid (sized_of_unmanaged hq) hidle, fun w _ => keepsActive_append (hidle w),
      fun _ => .of_append (.started hl hr) hid⟩

theorem writes_upsertReportedWorkerJob (hi : Inv placed s) (workerId : String) (report : WorkerJobReport) :
    Writes placed m h s (atomically (upsertReportedWorkerJob workerId report) s.db).2 := by
  rcases jobs_upsertReportedWorkerJob workerId report s.db with hjobs | hjobs
  · exact .of_eq hi hjobs
  · obtain ⟨hassigned, hactive⟩ := assigned_upsertReport hi.assigned workerId report
    exact ⟨hjobs ▸ hassigned, fun w _ => hjobs ▸ hactive w,
      fun _ => hjobs ▸ upsertReport_moves workerId report s.db⟩

/-- The end of a claim whose worker was probed under its lock. -/
theorem writes_reconcileStartingJob (hi : Inv placed s) {jobId : String} {launchObserved : Bool} (now : ℕ)
    (hl : (m, w) ∈ h)
    (hruns : placed → ∀ j ∈ s.db.jobs, j.id = jobId → j.status = .starting → j.kind = .delegated ∨ RunsOn w j)
    (hunstarted : placed → launchObserved = false → ∀ j ∈ s.db.jobs, j.id = jobId → j.kind = .ssh →
      ∀ launch ∈ s.started, launch.2 ≠ jobId) :
    Writes placed m h s (atomically (Database.reconcileStartingJob jobId launchObserved now) s.db).2 := by
  have hsteps := settleSteps_reconcileStartingJob hi.assigned.nodup jobId launchObserved now
  have htame : List.Forall₂ Tame s.db.jobs
    (atomically (Database.reconcileStartingJob jobId launchObserved now) s.db).2.jobs :=
    forall₂_imp_of_mem hsteps fun j hj j' hstep => tame_settleStep hstep (hi.assigned.sized j hj)
  refine ⟨hi.assigned.tame htame, fun w _ => keepsActive_of_tame htame, fun hp => .of_forall₂ ?_⟩
  refine forall₂_imp_of_mem hsteps fun j hj j' hstep => ?_
  by_cases hid : j.id = jobId
  · exact .of_settleStep hstep hl (fun _ => hruns hp j hj hid)
      fun hobserved hkind => hunstarted hp hobserved j hj hid hkind
  · exact .of_settleStep_other hstep hid

/-- A full-row write of a job that runs on a worker whose lock the thread has, or of one that has ended. -/
theorem writes_updateJob (hi : Inv placed s) (hsized : Sized job)
    (hgpus : (∀ w, job.activeOn w = false) ∨ (m, w) ∈ h ∧ job.workerId = some w ∧
      (job.queueManaged = true → Reserved w job.id job.gpuIndices s.db.jobs))
    (hmove : placed → ∃ j ∈ s.db.jobs, RowMove (fun w => (m, w) ∈ h) s.started j job) :
    Writes placed m h s (atomically (Database.updateJob job) s.db).2 := by
  rw [atomically_updateJob]
  change Writes placed m h s (withJobs s.db (written job s.db.jobs))
  have hmoves : placed → Moves (fun w => (m, w) ∈ h) s.started s.db.jobs (written job s.db.jobs) := by
    intro hp
    obtain ⟨j, hj, hmove⟩ := hmove hp
    exact moves_written hi.assigned.nodup hj hmove
  rcases hgpus with hidle | ⟨hl, hworker, hreserved⟩
  · exact ⟨assigned_written_idle hi.assigned hsized hidle, fun w _ => keepsActive_written (hidle w), hmoves⟩
  · refine ⟨assigned_written hi.assigned hsized hworker hreserved, fun w' hw' => keepsActive_written ?_, hmoves⟩
    rw [Bool.eq_false_iff]
    intro ha
    have hw : w' = w := Option.some.inj ((Job.activeOn_iff.mp ha).2.1.symm.trans hworker)
    exact hw' (hw ▸ hl)

end WorkerHarness.JobContracts
