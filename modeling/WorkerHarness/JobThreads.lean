import WorkerHarness.JobContracts

/-!
# The job manager keeps its contract

Every method of the job manager, as a thread under the contract of the dispatch locks: the claim and the launch
of a job, its recovery, a stop and a refresh. A method reads a row under the lock of a worker, waits for the
worker, and writes the row back.
-/

namespace WorkerHarness.JobThreads

open Coroutines SharedTransactions Database JobQueues JobRows JobMoves JobManager JobContracts

variable {placed : Prop} {m : ℕ} {h : List DispatchLock} {s s' : World} {t : ℕ} {w jobId : String} {j job : Job}
  {worker : Worker}

/-- The row that the thread has read is the one of the table, unless it is a delegated one. -/
def Owned (placed : Prop) (w : String) (job : Job) (s : World) : Prop :=
  placed → job.kind = .delegated ∧ (∃ j ∈ s.db.jobs, j.id = job.id ∧ j.kind = .delegated) ∨
    RunsOn w job ∧ job ∈ s.db.jobs

def Unlaunched (placed : Prop) (job : Job) (s : World) : Prop :=
  placed → job.kind = .ssh → ∀ launch ∈ s.started, launch.2 ≠ job.id

theorem stable_owned (hl : (m, w) ∈ h) (job : Job) : Stable placed m h (Owned placed w job) := by
  intro s s' hs hu hp
  rcases hs hp with ⟨hkind, j, hj, hid, hj'⟩ | ⟨hr, hmem⟩
  · obtain ⟨j', hj', hid', hkind'⟩ := hu.rows hp j hj
    exact .inl ⟨hkind, j', hj', hid'.trans hid, hkind'.trans ‹_›⟩
  · exact .inr ⟨hr, (hu.running hp w hl job hmem hr).1⟩

theorem stable_unlaunched (hl : (m, w) ∈ h) (job : Job) :
    Stable placed m h fun s => Owned placed w job s ∧ Unlaunched placed job s := by
  intro s s' hs hu
  refine ⟨stable_owned hl job s s' hs.1 hu, fun hp hkind launch hlaunch hid => ?_⟩
  rcases hs.1 hp with ⟨hd, -⟩ | ⟨hr, hmem⟩
  · exact absurd (hkind.symm.trans hd) (by simp)
  · exact hs.2 hp hkind launch ((hu.running hp w hl job hmem hr).2 launch hlaunch hid) hid

theorem Owned.of_runsOn (hr : RunsOn w job) (hmem : placed → job ∈ s.db.jobs) : Owned placed w job s :=
  fun hp => .inr ⟨hr, hmem hp⟩

/-- A row that the thread reads again. -/
theorem Owned.reread (hn : (s.db.jobs.map (·.id)).Nodup) (ho : Owned placed w job s)
    (hfind : findJob s.db job.id = some j) :
    Owned placed w j s := by
  obtain ⟨hj, hid⟩ := (findJob_eq_some hn).mp hfind
  intro hp
  rcases ho hp with ⟨-, a, ha, hida, hkind⟩ | ⟨hr, hmem⟩
  · rw [eq_of_id_eq hn ha hj (hida.trans hid.symm)] at hkind
    exact .inl ⟨hkind, j, hj, rfl, hkind⟩
  · rw [eq_of_id_eq hn hmem hj hid.symm] at hr
    exact .inr ⟨hr, hj⟩

/-- The end of a job, written over its row. -/
theorem writes_ended {job' : Job} (hi : Inv placed s) (ho : Owned placed w job s) (hid : job'.id = job.id)
    (hkind : job'.kind = job.kind) (hs : job'.status = .done ∨ job'.status = .failed)
    (hd : job'.kind = .delegated → job'.queueManaged = false)
    (hmove : placed → RunsOn w job → RowMove (fun w => (m, w) ∈ h) s.started job job') :
    Writes placed m h s (atomically (Database.updateJob job') s.db).2 := by
  refine writes_updateJob (w := w) hi (sized_of_ended hs hd) (.inl (not_activeOn_of_ended hs)) fun hp => ?_
  rcases ho hp with ⟨hdelegated, j, hj, hidj, hkindj⟩ | ⟨hr, hmem⟩
  · exact ⟨j, hj, .reported _ hkindj (hkind.trans hdelegated) (hid.trans hidj.symm)⟩
  · exact ⟨job, hmem, hmove hp hr⟩

structure Claimed (placed : Prop) (w : String) (job : Job) (s : World) : Prop where
  reserved : job.queueManaged = true → Reserved w job.id job.gpuIndices s.db.jobs
  owned : Owned placed w job s

theorem stable_claimed (hl : (m, w) ∈ h) (job : Job) : Stable placed m h (Claimed placed w job) :=
  fun s s' hs hu => ⟨fun hq => (hs.reserved hq).keepsActive (hu.active w hl), stable_owned hl job s s' hs.owned hu⟩

theorem safe_launchJob (hl : (m, worker.id) ∈ h) (hr : RunsOn worker.id job) (hs : job.status = .starting)
    (hsized : Sized job) (hc : Claimed placed worker.id job s) (hun : Unlaunched placed job s) :
    SafeTo placed m t h Any (launchJob worker job) s := by
  intro s₁ hr₁ hi₁ _
  have hc₁ : Claimed placed worker.id job s₁ := stable_claimed hl job s s₁ hc hr₁.2
  have hun₁ : Unlaunched placed job s₁ := (stable_unlaunched hl job s s₁ ⟨hc.owned, hun⟩ hr₁.2).2
  refine ⟨trivial, fun a s₂ b hh => ?_⟩
  -- The launch happens or not; either way the row stays.
  have hstep : (contract placed m).guar t h s₁ s₂ ∧ Inv placed s₂ ∧ Claimed placed worker.id job s₂ := by
    have hmem : placed → job ∈ s₁.db.jobs := fun hp => by
      rcases hc₁.owned hp with ⟨hd, -⟩ | ⟨-, hmem⟩
      · exact absurd (hr.kind.symm.trans hd) (by simp)
      · exact hmem
    simp only [jobInterp] at hh
    split at hh
    · cases hh
      refine ⟨⟨fun _ _ => rfl, ⟨fun w _ => .refl w _, fun _ => moves_refl _, fun hp launch hlaunch => ?_⟩⟩,
        ⟨hi₁.assigned, fun hp => (hi₁.launched hp).cons (hmem hp) hr (hun₁ hp hr.kind)⟩, ⟨hc₁.reserved, hc₁.owned⟩⟩
      rcases List.mem_cons.mp hlaunch with rfl | hlaunch
      · exact .inr ⟨hl, job, hmem hp, hr, rfl⟩
      · exact .inl hlaunch
    · cases hh
      exact ⟨⟨fun _ _ => rfl, (Writes.of_eq hi₁ rfl).acts rfl⟩, hi₁, hc₁⟩
  obtain ⟨hg, hi₂, hc₂⟩ := hstep
  refine ⟨hg, hi₂, safe_ssh trivial (stable_claimed hl job) hc₂ fun code s₃ hi₃ hc₃ => ?_⟩
  split
  · exact safe_any
  split
  · refine safe_quiet trivial (stable_claimed hl job) hc₃ fun finishedAt s₄ _ hc₄ => ?_
    refine safe_updateJob (stable_claimed hl job) hc₄ (fun s₅ hi₅ hc₅ => ?_) fun _ _ => safe_any
    exact writes_ended hi₅ hc₅.owned rfl rfl (.inr rfl) hsized.delegated fun _ _ =>
      .neverLaunched finishedAt hl hr hs
  · refine safe_updateJob (stable_claimed hl job) hc₃ (fun s₄ hi₄ hc₄ => ?_) fun _ _ => safe_any
    have hsized' : Sized { job with status := .running } :=
      ⟨(fun hw => by cases hw.2), fun hq _ => hsized.active hq (by simp [hs]), hsized.delegated⟩
    refine writes_updateJob hi₄ hsized' (.inr ⟨hl, hr.worker, hc₄.reserved⟩) fun hp => ?_
    rcases hc₄.owned hp with ⟨hd, -⟩ | ⟨-, hmem⟩
    · exact absurd (hr.kind.symm.trans hd) (by simp)
    · exact ⟨job, hmem, .launched hl hr hs⟩

/-- A claim takes free GPUs of the worker. -/
theorem writes_claim {row : Job} {d' : Tables} {gpuIndices : List ℕ} {startedAt : ℕ} (hi : Inv placed s)
    (hl : (m, w) ∈ h)
    (hrow : row ∈ s.db.jobs) (hc : claimable jobId gpuIndices w s.db row = true) (hnodup : gpuIndices.Nodup)
    (hsteps : List.Forall₂ (ClaimStep row gpuIndices startedAt) s.db.jobs d'.jobs) : Writes placed m h s d' := by
  have hpending := (claimable_iff.mp hc).2.1
  refine ⟨(assigned_of_claim hi.assigned hrow hc hnodup hsteps).1, fun w' hw' => ?_,
    fun _ => moves_of_claim hl hpending hsteps⟩
  refine keepsActive_of_claim (Job.pendingOn_iff.mp hpending).2.1 (fun heq => hw' (heq ▸ hl)) hsteps

theorem freeGpuIndices_nodup (worker : Worker) : (freeGpuIndices worker).Nodup := by
  unfold freeGpuIndices
  split
  · exact List.nodup_nil
  · exact List.nodup_range.filter _

/-- The launch of a job that the thread has just claimed. -/
theorem safe_launchClaimed {row : Job} {d : Tables} {gpuIndices : List ℕ} {startedAt : ℕ} (hl : (m, worker.id) ∈ h)
    (hi : Inv placed s) (hi' : Inv placed s') (hd : s.db = d) (hstarted : s'.started = s.started)
    (hrow : row ∈ d.jobs)
    (hc : claimable jobId gpuIndices worker.id d row = true) (hnodup : gpuIndices.Nodup)
    (hsteps : List.Forall₂ (ClaimStep row gpuIndices startedAt) d.jobs s'.db.jobs) :
    SafeTo placed m t h Any (launchJob worker (row.claimed gpuIndices startedAt)) s' := by
  subst hd
  obtain ⟨hq, hworker, hs⟩ := Job.pendingOn_iff.mp (claimable_iff.mp hc).2.1
  have hsized := hi.assigned.sized row hrow
  have hkind : row.kind = .ssh := by
    cases hk : row.kind with
    | ssh => rfl
    | delegated => exact absurd (hq.symm.trans (hsized.delegated hk)) (by simp)
  have hmem : row.claimed gpuIndices startedAt ∈ s'.db.jobs := by
    obtain ⟨j', hj', ⟨hne, -⟩ | ⟨-, rfl⟩⟩ := exists_of_mem_left hsteps hrow
    · exact absurd rfl hne
    · exact hj'
  have hreserved := (assigned_of_claim hi.assigned hrow hc hnodup hsteps).2
  refine safe_launchJob hl ⟨hkind, hworker, .inl rfl⟩ rfl (hi'.assigned.sized _ hmem)
    ⟨fun _ => hreserved, .of_runsOn ⟨hkind, hworker, .inl rfl⟩ fun _ => hmem⟩ fun hp _ => ?_
  rw [hstarted]
  exact (hi.launched hp).unstarted (j := row) hi.assigned.nodup hrow hs

theorem safe_dispatchLoop (hl : (m, worker.id) ∈ h) {available : List ℕ} (hn : available.Nodup) (fuel : ℕ)
    (s : World) :
    SafeTo placed m t h Any (dispatchLoop worker available fuel) s := by
  induction fuel generalizing s with
  | zero => exact safe_any
  | succ fuel ih =>
    refine safe_query stable_true trivial fun s₁ _ _ => safe_query stable_true trivial fun s₂ _ _ => ?_
    split
    · exact safe_any
    · next head _ =>
      split
      · exact safe_any
      · refine safe_quiet trivial stable_true trivial fun startedAt s₃ _ _ => ?_
        generalize hindices :
          ((available.filter fun index => index ∉ claimedIndices s₁.db worker.id).take head.gpuCount) = indices
        have hnodup : indices.Nodup := hindices ▸ (hn.filter _).sublist (List.take_sublist _ _)
        refine safe_perform stable_true trivial fun s₄ a s₅ b hi₄ _ hh => ?_
        rcases claimQueuedJob_cases hi₄.assigned.nodup head.id indices startedAt worker.id with
          hnone | ⟨row, hrow, hc, hres, hsteps⟩
        · simp only [jobInterp, hnone] at hh
          cases hh
          exact ⟨.of_eq hi₄ rfl, rfl, fun _ _ => rfl, fun _ => ih _⟩
        · simp only [jobInterp, hres] at hh
          cases hh
          refine ⟨writes_claim hi₄ hl hrow hc hnodup hsteps, rfl, fun t' ht => if_neg ht, fun hi₅ => ?_⟩
          exact safe_then (p := launchJob worker (row.claimed indices startedAt))
            (safe_launchClaimed hl hi₄ hi₅ rfl rfl hrow hc hnodup hsteps) fun _ s _ =>
              safe_then (ih s) fun _ _ _ => safe_any

theorem safe_dispatchWorker (fuel : ℕ) (worker : Worker) (s : World) :
    SafeTo placed m t h Any (dispatchWorker fuel m worker) s := by
  unfold dispatchWorker
  split
  · exact safe_any
  · exact safe_withLock fun s' _ _ => safe_dispatchLoop (List.mem_cons_self ..)
      (freeGpuIndices_nodup worker) fuel s'

theorem safe_enqueueJob (fuel : ℕ) (worker : Worker) (command name : String) (expectedSeconds gpuCount : ℕ)
    (ptyEnabled : Bool) (s : World) :
    SafeTo placed m t h Any (enqueueJob fuel m worker command name expectedSeconds gpuCount ptyEnabled) s := by
  refine safe_quiet trivial stable_true trivial fun id s₁ _ _ => ?_
  refine safe_database stable_true trivial (fun s hi _ => writes_insertQueuedJob hi rfl) fun _ _ s₂ _ _ _ _ => ?_
  refine safe_then (safe_dispatchWorker fuel worker s₂) fun _ s₃ _ => ?_
  refine safe_getJob stable_true trivial fun s₄ _ _ _ => ?_
  split
  · exact safe_raise
  · exact safe_any

/-- A job that is started at once, under the lock of its worker. -/
theorem safe_insertAndLaunch (hl : (m, worker.id) ∈ h) (hr : RunsOn worker.id job) (hs : job.status = .starting)
    (hq : job.queueManaged = false) (s : World) :
    SafeTo placed m t h Any ((Prog.call (.insertJob job)).bind fun r => (orRaise r).bind fun _ =>
      launchJob worker job) s := by
  refine safe_perform stable_true trivial fun s₁ a s₂ b hi₁ _ hh => ?_
  have hwrites : Writes placed m h s₁ (atomically (insertJob job) s₁.db).2 := writes_insertJob hi₁ hl hr hq
  by_cases hany : (s₁.db.jobs.any fun j => j.id = job.id) = true
  · have hinsert : atomically (insertJob job) s₁.db = (.error .integrityError, s₁.db) := by
      rw [atomically_insertJob, if_pos hany]
    simp only [jobInterp, hinsert] at hh
    cases hh
    exact ⟨.of_eq hi₁ rfl, rfl, fun _ _ => rfl, fun _ => safe_raise⟩
  · have hinsert : atomically (insertJob job) s₁.db = (.ok (), withJobs s₁.db (s₁.db.jobs ++ [job])) := by
      rw [atomically_insertJob, if_neg hany]
    rw [hinsert] at hwrites
    simp only [jobInterp, hinsert] at hh
    cases hh
    refine ⟨hwrites, rfl, fun t' ht => if_neg ht, fun hi₂ => ?_⟩
    have hmem : job ∈ s₁.db.jobs ++ [job] := by simp
    refine safe_launchJob hl hr hs (sized_of_unmanaged hq)
      ⟨fun hq' => absurd (hq.symm.trans hq') (by simp), .of_runsOn hr fun _ => hmem⟩ fun hp _ launch hlaunch hid =>
        ?_
    -- A launch belongs to a row, and the id of the job is new.
    obtain ⟨j, hj, hidj, -⟩ := (hi₁.launched hp).rows launch hlaunch
    exact hany (List.any_eq_true.mpr ⟨j, hj, decide_eq_true (hidj.trans hid)⟩)

theorem safe_startJob (worker : Worker) (command : String) (name : Option String) (ptyEnabled : Bool) (s : World) :
    SafeTo placed m t h Any (startJob m worker command name ptyEnabled) s := by
  refine safe_quiet trivial stable_true trivial fun id s₁ _ _ => ?_
  refine safe_quiet trivial stable_true trivial fun startedAt s₂ _ _ => ?_
  exact safe_withLock fun s₃ _ _ => safe_insertAndLaunch (List.mem_cons_self ..) ⟨rfl, rfl, .inl rfl⟩ rfl rfl s₃

/-- A probe that finds nothing shows that a claimed job was never launched. -/
theorem unlaunched_of_probe (hi : Inv placed s) (hr : RunsOn w job) (hs : job.status = .starting)
    (hmem : job ∈ s.db.jobs)
    (hp : placed) (hnone : (w, job.id) ∉ s.started) : ∀ launch ∈ s.started, launch.2 ≠ job.id := by
  intro launch hlaunch hid
  obtain ⟨j, hj, hidj, -, -, hworker⟩ := (hi.launched hp).rows launch hlaunch
  rw [eq_of_id_eq hi.assigned.nodup hj hmem (hidj.trans hid)] at hworker
  have hw : launch.1 = w := Option.some.inj ((hworker hs).symm.trans hr.worker)
  rw [← hw, ← hid] at hnone
  exact hnone hlaunch

/-- The row of a recovery after the probe: nothing was launched if nothing was found. -/
def Probed (placed : Prop) (w : String) (job : Job) (launchObserved : Bool) (s : World) : Prop :=
  Owned placed w job s ∧ (launchObserved = false → Unlaunched placed job s)

theorem stable_probed (hl : (m, w) ∈ h) (job : Job) (launchObserved : Bool) :
    Stable placed m h (Probed placed w job launchObserved) :=
  fun s s' hs hu => ⟨stable_owned hl job s s' hs.1 hu,
    fun hobserved => (stable_unlaunched hl job s s' ⟨hs.1, hs.2 hobserved⟩ hu).2⟩

theorem writes_probed {launchObserved : Bool} (hi : Inv placed s) (hl : (m, w) ∈ h) (now : ℕ)
    (hp : Probed placed w job launchObserved s) :
    Writes placed m h s (atomically (Database.reconcileStartingJob job.id launchObserved now) s.db).2 := by
  have hrow : placed → ∀ j ∈ s.db.jobs, j.id = job.id → j.kind = .delegated ∨ RunsOn w j ∧ j = job := by
    intro hplaced j hj hid
    rcases hp.1 hplaced with ⟨-, a, ha, hida, hkind⟩ | ⟨hr, hmem⟩
    · rw [eq_of_id_eq hi.assigned.nodup hj ha (hid.trans hida.symm)]
      exact .inl hkind
    · rw [eq_of_id_eq hi.assigned.nodup hj hmem hid]
      exact .inr ⟨hr, rfl⟩
  refine writes_reconcileStartingJob hi now hl
    (fun hplaced j hj hid _ => (hrow hplaced j hj hid).imp id And.left) ?_
  intro hplaced hobserved j hj hid hkind
  rcases hrow hplaced j hj hid with hd | ⟨hr, rfl⟩
  · exact absurd (hkind.symm.trans hd) (by simp)
  · exact hp.2 hobserved hplaced hkind

theorem safe_reconcileStartingJob (worker : Worker) (job : Job) (s : World) :
    SafeTo placed m t h Any (JobManager.reconcileStartingJob m worker job) s := by
  refine safe_withLock fun s₁ _ _ => safe_getJob stable_true trivial fun s₂ hi₂ _ hseen => ?_
  have hl : (m, worker.id) ∈ (m, worker.id) :: h := List.mem_cons_self ..
  cases hfind : findJob s₂.db job.id with
  | none => exact safe_any
  | some persisted =>
    obtain ⟨hmem, hid⟩ := (findJob_eq_some hi₂.assigned.nodup).mp hfind
    dsimp only
    split
    · exact safe_any
    · next hs =>
      have hs := not_not.mp hs
      intro s₃ hr₃ hi₃ hassume
      -- The run lets a recovery probe the worker that has the job only.
      have hworker : placed → persisted.workerId = some worker.id := fun hp => by
        have hprobe : placedProbe (.jobStarted worker.id job.id) (s₃.seen t) = true := hassume hp
        rw [(hr₃.1.trans hseen).trans hfind] at hprobe
        exact of_decide_eq_true hprobe
      have howned : Owned placed worker.id persisted s₃ := by
        intro hp
        cases hkind : persisted.kind with
        | ssh =>
          have hr : RunsOn worker.id persisted := ⟨hkind, hworker hp, .inl hs⟩
          exact .inr ⟨hr, (hr₃.2.running hp worker.id hl persisted hmem hr).1⟩
        | delegated =>
          obtain ⟨j', hj', hid', hkind'⟩ := hr₃.2.rows hp persisted hmem
          exact .inl ⟨rfl, j', hj', hid', hkind'.trans hkind⟩
      refine ⟨trivial, fun a s₄ b hh => ?_⟩
      simp only [jobInterp] at hh
      split at hh
      · next hfits =>
        cases hh
        refine ⟨⟨fun _ _ => rfl, (Writes.of_eq hi₃ rfl).acts rfl⟩, hi₃, ?_⟩
        cases he : a.evidence with
        | none => exact safe_raise
        | some found =>
          cases found with
          | none => exact safe_any
          | some launchObserved =>
            have hprobed : Probed placed worker.id persisted launchObserved s₃ := by
              refine ⟨howned, fun hobserved hp hkind => ?_⟩
              rcases howned hp with ⟨hd, -⟩ | ⟨hr, hmem₃⟩
              · exact absurd (hkind.symm.trans hd) (by simp)
              · refine unlaunched_of_probe hi₃ hr hs hmem₃ hp ?_
                simpa [probeFits, he, hobserved, hid] using hfits
            refine safe_quiet trivial (stable_probed hl persisted launchObserved) hprobed fun now s₄ _ hp₄ => ?_
            refine safe_database (stable_probed hl persisted launchObserved) hp₄
              (fun s hi hp => ?_) fun _ _ _ _ _ _ _ => safe_any
            exact hid ▸ writes_probed hi hl now hp
      · cases hh

def Present (placed : Prop) (jobId : String) (s : World) : Prop := placed → ∃ j ∈ s.db.jobs, j.id = jobId

theorem stable_present (jobId : String) : Stable placed m h (Present placed jobId) := by
  intro s s' hs hu hp
  obtain ⟨j, hj, hid⟩ := hs hp
  obtain ⟨j', hj', hid', -⟩ := hu.rows hp j hj
  exact ⟨j', hj', hid'.trans hid⟩

/-- The thread has read the row of the job, and it may write it back. -/
def Guarded (placed : Prop) (w jobId : String) (s : World) : Prop :=
  placed → ∃ job, job.id = jobId ∧ Owned placed w job s

theorem stable_guarded (hl : (m, w) ∈ h) (jobId : String) : Stable placed m h (Guarded placed w jobId) := by
  intro s s' hs hu hp
  obtain ⟨job, hid, ho⟩ := hs hp
  exact ⟨job, hid, stable_owned hl job s s' ho hu⟩

theorem Guarded.reread (hi : Inv placed s) (hg : Guarded placed w jobId s) (hfind : findJob s.db jobId = some j) :
    Owned placed w j s := by
  intro hp
  obtain ⟨job, rfl, ho⟩ := hg hp
  exact ho.reread hi.assigned.nodup hfind hp

/-- A row of the worker that has not ended and does not wait in the queue. -/
theorem owned_of_row (hi : Inv placed s) (hmem : job ∈ s.db.jobs) (hworker : job.workerId = some w)
    (hended : ¬(job.status = .done ∨ job.status = .failed))
    (hwaits : ¬(job.queueManaged = true ∧ job.status = .pending)) :
    Owned placed w job s := by
  intro hp
  cases hkind : job.kind with
  | delegated => exact .inl ⟨rfl, job, hmem, rfl, hkind⟩
  | ssh =>
    refine .inr ⟨⟨hkind, hworker, ?_⟩, hmem⟩
    cases hs : job.status with
    | pending => exact absurd ⟨(hi.launched hp).waiting job hmem hkind hs, hs⟩ hwaits
    | starting => exact .inl rfl
    | running => exact .inr rfl
    | done => exact absurd (.inl hs) hended
    | failed => exact absurd (.inr hs) hended

/-- What a stop does under the lock after it has killed the session. -/
theorem safe_stopKilled (hl : (m, worker.id) ∈ h) (hg : Guarded placed worker.id jobId s) :
    SafeTo placed m t h Any
      (do
        let success ← ssh (.tmuxKill worker.id jobId)
        if !success then return (false, false, false) else
        match ← JobManager.getJob jobId with
        | none => return (true, false, false)
        | some job =>
          if !stoppable job.status then return (true, false, false) else
          let finishedAt ← Prog.call .now
          JobManager.updateJob { job with status := .failed, exitCode := some (-1), finishedAt := finishedAt }
          return (true, job.queueManaged, false)) s := by
  refine safe_ssh trivial (stable_guarded hl jobId) hg fun success s₁ _ hg₁ => ?_
  split
  · exact safe_any
  refine safe_getJob (stable_guarded hl jobId) hg₁ fun s₂ hi₂ hg₂ _ => ?_
  cases hfind : findJob s₂.db jobId with
  | none => exact safe_any
  | some job =>
    have howned := hg₂.reread hi₂ hfind
    have hsized := hi₂.assigned.sized job ((findJob_eq_some hi₂.assigned.nodup).mp hfind).1
    dsimp only
    split
    · exact safe_any
    refine safe_quiet trivial (stable_owned hl job) howned fun finishedAt s₃ _ ho₃ => ?_
    refine safe_updateJob (stable_owned hl job) ho₃ (fun s₄ hi₄ ho₄ => ?_) fun _ _ => safe_any
    exact writes_ended hi₄ ho₄ rfl rfl (.inr rfl) hsized.delegated fun _ hr => .stopped finishedAt hl hr

theorem safe_stopJob (fuel : ℕ) (worker : Worker) (jobId : String) (hpresent : Present placed jobId s) :
    SafeTo placed m t h Any (stopJob fuel m worker jobId) s := by
  unfold stopJob
  refine safe_then (safe_withLock fun s₁ _ hu => ?_) fun result s₂ _ => ?_
  · have hl : (m, worker.id) ∈ (m, worker.id) :: h := List.mem_cons_self ..
    refine safe_getJob (stable_present jobId) (stable_present jobId s s₁ hpresent hu) fun s₂ hi₂ hp₂ _ => ?_
    cases hfind : findJob s₂.db jobId with
    | none =>
      -- The job has a row in these runs.
      have hg : Guarded placed worker.id jobId s₂ := by
        intro hp
        obtain ⟨j, hj, hid⟩ := hp₂ hp
        exact absurd hid (by simpa using List.find?_eq_none.mp hfind j hj)
      exact safe_stopKilled hl hg
    | some job =>
      obtain ⟨hmem, hid⟩ := (findJob_eq_some hi₂.assigned.nodup).mp hfind
      simp only [Option.any_some]
      split
      · exact safe_any
      split
      · exact safe_any
      split
      · refine safe_quiet trivial stable_true trivial fun finishedAt s₃ _ _ => ?_
        exact safe_database stable_true trivial
          (fun s hi _ => writes_failPendingJob hi jobId finishedAt) fun _ _ _ _ _ _ _ =>
          safe_any
      · next hworker hended hwaits =>
        refine safe_stopKilled hl fun _ => ⟨job, hid, owned_of_row hi₂ hmem ?_ ?_ ?_⟩
        · simpa using hworker
        · simpa using hended
        · simpa using hwaits
  · obtain ⟨success, shouldDispatch, early⟩ := result
    dsimp only
    split
    · exact safe_then (safe_dispatchWorker fuel worker s₂) fun _ _ _ => safe_any
    · exact safe_any

theorem safe_recordFailure (worker : Worker) (job : Job) (s : World) :
    SafeTo placed m t h Any (recordFailure worker job) s := by
  refine safe_ssh trivial stable_true trivial fun summary s₁ _ _ => ?_
  refine safe_quiet trivial stable_true trivial fun timestamp s₂ _ _ => ?_
  exact safe_method fun _ hi => writes_of_keepsJobs (keepsJobs_insertFailure _) hi

theorem safe_refreshUnderLock (hl : (m, worker.id) ∈ h) (job : Job) (s : World) :
    SafeTo placed m t h Any (refreshUnderLock worker job) s := by
  refine safe_getJob stable_true trivial fun s₁ hi₁ _ _ => ?_
  cases hfind : findJob s₁.db job.id with
  | none => exact safe_any
  | some job =>
    have hmem := ((findJob_eq_some hi₁.assigned.nodup).mp hfind).1
    have hsized := hi₁.assigned.sized job hmem
    dsimp only
    split
    · exact safe_any
    split
    · exact safe_any
    split
    · exact safe_any
    next hworker hactive hwaits =>
    have hended : ¬(job.status = .done ∨ job.status = .failed) := by
      rintro (hs | hs) <;> simp [hs] at hactive
    have howned : Owned placed worker.id job s₁ := owned_of_row hi₁ hmem (not_not.mp hworker) hended hwaits
    refine safe_ssh trivial (stable_owned hl job) howned fun isRunning s₂ _ ho₂ => ?_
    split
    · exact safe_any
    refine safe_ssh trivial (stable_owned hl job) ho₂ fun exitCode s₃ _ ho₃ => ?_
    cases exitCode with
    | none => exact safe_any
    | some exitCode =>
      refine safe_quiet trivial (stable_owned hl job) ho₃ fun finishedAt s₄ _ ho₄ => ?_
      refine safe_updateJob (stable_owned hl job) ho₄ (fun s₅ hi₅ ho₅ => ?_) fun _ _ => safe_any
      refine writes_ended hi₅ ho₅ rfl rfl ?_ hsized.delegated fun hp hr => .finished exitCode finishedAt hl hr ?_
      · dsimp only
        split <;> simp
      · rcases hr.active with hs | hs
        · simp [hs] at hactive
        · exact hs

theorem safe_refreshJobStatus (fuel : ℕ) (worker : Worker) (job : Job) (s : World) :
    SafeTo placed m t h Any (refreshJobStatus fuel m worker job) s := by
  refine safe_then (safe_withLock fun s₁ _ _ => safe_refreshUnderLock
    (List.mem_cons_self ..) job s₁) fun result s₂ _ => ?_
  obtain ⟨job, finished⟩ := result
  have hdispatch : ∀ s, SafeTo placed m t h Any (do
      if job.queueManaged then
        let _ ← dispatchWorker fuel m worker
      return job) s := by
    intro s
    split
    · exact safe_then (safe_dispatchWorker fuel worker s) fun _ _ _ => safe_any
    · exact safe_any
  dsimp only
  split
  · exact safe_any
  split
  · exact safe_then (safe_recordFailure worker job s₂) fun _ s _ => hdispatch s
  · exact hdispatch s₂

end WorkerHarness.JobThreads
