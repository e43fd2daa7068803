import WorkerHarness.GreedyQueues
import WorkerHarness.JobManager
import WorkerHarness.QueueRefinement
import WorkerHarness.UndisturbedRuns
import Mathlib.Data.Finset.Dedup

/-!
# The order in which a queue is dispatched

Undisturbed, `dispatch_worker` serves the queue of its worker from the head: every launch is the
next one of the greedy service, on the first GPUs that telemetry and the job table leave free.
-/

namespace WorkerHarness.DispatchOrder

open Coroutines SharedTransactions Database SortedLists JobQueues QueueRefinement GreedyQueues

/-- How the launch of a job ends. -/
inductive Outcome where
  | running
  | failed
  | unknown
  deriving DecidableEq, Repr

def Outcome.fits : Outcome → Option Int → Bool
  | _, none => false
  | .running, some code => decide (code = 0)
  | .failed, some code => decide (0 < code ∧ code ≠ 255)
  | .unknown, some code => decide (code < 0 ∨ code = 255)

/-- Whether the job was started, in an outcome. -/
def Outcome.allows : Outcome → Bool → Bool
  | .running, launched => launched
  | .failed, launched => !launched
  | .unknown, _ => true

def scripted (outcome : String → Outcome) : Interp JobCall World Answer where
  handle
    | .launch workerId jobId, t, a, s =>
      if (outcome jobId).allows a.launches then jobInterp.handle (.launch workerId jobId) t a s else none
    | .launchReply workerId jobId launched, t, a, s =>
      if (outcome jobId).fits a.code then jobInterp.handle (.launchReply workerId jobId launched) t a s else none
    | e, t, a, s => jobInterp.handle e t a s

def Claims : (β : Type) → JobCall β → β → Prop
  | _, .claimQueuedJob _ _ _ _, r => ∃ job, r = .ok (some job)
  | _, _, _ => True

def ReportsFree (worker : Worker) (index : ℕ) : Prop :=
  (worker.gpuBusy[index]?).join = some false ∨
    (worker.gpuBusy[index]?).join = none ∧ ∃ total used, worker.gpuVramGb[index]? = some total ∧
      worker.gpuUsedVramGb[index]? = some used ∧ JobManager.MostlyFree total used

theorem mem_freeGpuIndices {worker : Worker} (honline : worker.status = .online) {index : ℕ} :
    index ∈ JobManager.freeGpuIndices worker ↔ index < worker.gpuCount ∧ ReportsFree worker index := by
  simp only [JobManager.freeGpuIndices, honline, ne_eq, not_true_eq_false, if_false, List.mem_filter,
    List.mem_range,
    ReportsFree]
  refine and_congr_right fun _ => ?_
  cases (worker.gpuBusy[index]?).join with
  | some busy => cases busy <;> simp
  | none => cases worker.gpuVramGb[index]? <;> cases worker.gpuUsedVramGb[index]? <;> simp

theorem freeGpuIndices_increasing (worker : Worker) : (JobManager.freeGpuIndices worker).Pairwise (· < ·) := by
  unfold JobManager.freeGpuIndices
  split
  · exact List.Pairwise.nil
  · exact List.pairwise_lt_range.filter _

def heldBy (d : Tables) (w : String) : Finset ℕ := (claimedIndices d w).toFinset

theorem mem_heldBy {d : Tables} {w : String} {i : ℕ} :
    i ∈ heldBy d w ↔ ∃ j ∈ d.jobs, j.activeOn w = true ∧ i ∈ j.gpuIndices := by
  simp [heldBy, claimedIndices, and_assoc]

theorem unheld_heldBy (available : List ℕ) (d : Tables) (w : String) :
    (available.filter fun index => index ∉ claimedIndices d w) = unheld available (heldBy d w) :=
  List.filter_congr fun i _ => by simp [heldBy]

variable {d : Tables} {w : String}

theorem queuedKeys_nodup {jobs : List Job} (h : (jobs.map (·.id)).Nodup) : (jobs.map queuedKey).Nodup := by
  refine List.Nodup.of_map (fun key => (ofLex (ofLex (ofLex (ofLex (ofLex key).2).2).2).2).2) ?_
  rw [List.map_map]
  exact h

theorem queuedKey_le {a b : Job} (ha : a.pendingOn w = true) (hb : b.pendingOn w = true) :
    a.orderKey ≤ b.orderKey ↔ queuedKey a ≤ queuedKey b := by
  obtain ⟨-, hwa, hsa⟩ := Job.pendingOn_iff.mp ha
  obtain ⟨-, hwb, hsb⟩ := Job.pendingOn_iff.mp hb
  simp only [queuedKey, hwa, hsa, hwb, hsb, orderKey_le, Prod.Lex.toLex_le_toLex]
  simp only [Option.getD_some, lt_self_iff_false, true_and, false_or, if_true]
  tauto

/-- The first pending row of `list_queued_jobs` is the head of the queue. -/
theorem find_pending (h : (d.jobs.map (·.id)).Nodup) (w : String) :
    ((queuedRows d (some w)).find? fun job => job.status = .pending) = (pendingQueue d w).head? := by
  have hfilter : (d.jobs.filter fun j => j.queueManaged &&
      (decide (j.status = .starting) || decide (j.status = .running) || decide (j.status = .pending)) &&
      ((some w).isNone || decide (j.workerId = some w))).filter (fun job => decide (job.status = .pending)) =
      d.jobs.filter (Job.pendingOn w) := by
    rw [List.filter_filter]
    refine List.filter_congr fun j _ => ?_
    cases hs : j.status <;> simp [Job.pendingOn, hs]
  have hkeys : sortOn queuedKey ((d.jobs.filter (Job.pendingOn w)).map id) =
      (sortOn Job.orderKey (d.jobs.filter (Job.pendingOn w))).map id :=
    sortOn_map fun a ha b hb => queuedKey_le (List.of_mem_filter ha) (List.of_mem_filter hb)
  rw [List.map_id, List.map_id] at hkeys
  rw [← List.head?_filter, queuedRows, ← sortOn_filter _ (queuedKeys_nodup (h.sublist (List.filter_sublist.map _))),
    hfilter, hkeys]
  rfl

/-- The row of a job whose launch has ended. -/
def settled (outcome : String → Outcome) (finishedAt : ℕ) (job : Job) : Job :=
  match outcome job.id with
  | .running => { job with status := .running }
  | .failed => { job with status := .failed, exitCode := some (-1), finishedAt := finishedAt }
  | .unknown => job

/-- The head of the queue, in the table. -/
theorem head_spec (h : (d.jobs.map (·.id)).Nodup) {head : Job} {rest : List Job}
    (hqueue : pendingQueue d w = head :: rest) :
    head ∈ d.jobs ∧ head.pendingOn w = true ∧ rest = (pendingQueue d w).filter fun j => j.id ≠ head.id := by
  have hmem : head ∈ queueOf d.jobs w := by
    rw [show queueOf d.jobs w = head :: rest from hqueue]
    exact List.mem_cons_self
  obtain ⟨hmem, hpending⟩ := mem_queueOf.mp hmem
  refine ⟨hmem, hpending, ?_⟩
  have hnodup := queueIds_nodup (w := w) h
  rw [queueIds, show queueOf d.jobs w = head :: rest from hqueue, List.map_cons, List.nodup_cons] at hnodup
  have hrest : ∀ j ∈ rest, j.id ≠ head.id := fun j hj hid => hnodup.1 (List.mem_map.mpr ⟨j, hj, hid⟩)
  rw [hqueue, List.filter_cons_of_neg (by simp), List.filter_eq_self.mpr fun j hj => by simpa using hrest j hj]

theorem setRow_const {jobs : List Job} (h : (jobs.map (·.id)).Nodup) {job : Job} (hjob : job ∈ jobs)
    (f : Job → Job) :
    setRow job.id f jobs = setRow job.id (fun _ => f job) jobs :=
  List.map_congr_left fun j hj => by
    by_cases hid : j.id = job.id
    · rw [eq_of_id_eq h hj hjob hid]
    · simp [hid]

def withRow (d : Tables) (row : Job) : Tables := withJobs d (setRow row.id (fun _ => row) d.jobs)

/-- The job still holds its claim, or has given it up. -/
theorem settled_spec (outcome : String → Outcome) (finishedAt : ℕ) (job : Job) (hstatus : job.status = .starting) :
    (settled outcome finishedAt job).id = job.id ∧ (settled outcome finishedAt job).queueManaged =
    job.queueManaged ∧
      (settled outcome finishedAt job).workerId = job.workerId ∧
      (settled outcome finishedAt job).gpuIndices = job.gpuIndices ∧
      (settled outcome finishedAt job).status ≠ .pending ∧
      (settled outcome finishedAt job).active = decide (outcome job.id ≠ .failed) := by
  cases ho : outcome job.id <;> simp [settled, ho, hstatus, Job.active]

/-- The claim of the head succeeds with any resources that no active job holds. -/
theorem claim_head (h : (d.jobs.map (·.id)).Nodup) {head : Job} {rest : List Job}
    (hqueue : pendingQueue d w = head :: rest)
    {indices : List ℕ} (hlen : head.gpuCount = indices.length) (hfree : ∀ i ∈ indices, i ∉ heldBy d w)
    (startedAt : ℕ) :
    atomically (claimQueuedJob head.id indices startedAt w) d =
      (.ok (some (head.claimed indices startedAt)), withRow d (head.claimed indices startedAt)) := by
  obtain ⟨hmem, hpending, -⟩ := head_spec h hqueue
  have hclaim : claimable head.id indices w d head = true := by
    refine claimable_iff.mpr ⟨rfl, hpending, hlen, ?_, fun a ha hactive i hi hindex => ?_⟩
    · rw [queueIds, show queueOf d.jobs w = head :: rest from hqueue, List.map_cons, List.head?_cons]
    · exact hfree i hindex (mem_heldBy.mpr ⟨a, ha, hactive, hi⟩)
  have htables : claimedTables head.id indices startedAt w d =
      withJobs d (setRow head.id (Job.claimed indices startedAt) d.jobs) := by
    rw [claimedTables, updateRows_eq_setRow h hmem hclaim fun a ha => (claimable_iff.mp ha).1]
  have hfind : findJob (withJobs d (setRow head.id (Job.claimed indices startedAt) d.jobs)) head.id =
      some (head.claimed indices startedAt) := by
    have hrow := findJob_map (g := atRow head.id (Job.claimed indices startedAt)) h hmem
      (atRow_id (f := Job.claimed indices startedAt) (fun _ => rfl) head.id)
    rwa [← setRow_eq_map, atRow_self] at hrow
  rw [atomically_claimQueuedJob, if_pos ⟨head, hmem, hclaim⟩, htables, hfind, setRow_const h hmem]
  rfl

theorem withRow_withRow (d : Tables) {row row' : Job} (hid : row'.id = row.id) :
    withRow (withRow d row) row' = withRow d row' := by
  simp only [withRow, withJobs_jobs, withJobs_withJobs, setRow, updateRows, List.map_map, hid]
  refine congrArg _ (List.map_congr_left fun j _ => ?_)
  by_cases hj : j.id = row.id <;> simp [hj]

theorem ids_withRow (d : Tables) (row : Job) : (withRow d row).jobs.map (·.id) = d.jobs.map (·.id) := by
  rw [withRow, withJobs_jobs, setRow_eq_map]
  refine map_ids fun j _ => ?_
  unfold atRow
  split
  · next hid => exact hid.symm
  · rfl

theorem mem_withRow {d : Tables} {row head j : Job} (h : (d.jobs.map (·.id)).Nodup) (hhead : head ∈ d.jobs)
    (hid : row.id = head.id) : j ∈ (withRow d row).jobs ↔ j = row ∨ j ∈ d.jobs ∧ j ≠ head := by
  simp only [withRow, withJobs_jobs, setRow, updateRows, List.mem_map, hid, decide_eq_true_eq]
  constructor
  · rintro ⟨a, ha, rfl⟩
    by_cases haid : a.id = head.id
    · exact .inl (if_pos haid)
    · rw [if_neg haid]
      exact .inr ⟨ha, fun heq => haid (congrArg _ heq)⟩
  · rintro (rfl | ⟨hj, hne⟩)
    · exact ⟨head, hhead, if_pos rfl⟩
    · exact ⟨j, hj, if_neg fun heq => hne (eq_of_id_eq h hj hhead heq)⟩

/-- The head of the queue has left it, with the GPUs it still holds. -/
theorem withRow_head (h : (d.jobs.map (·.id)).Nodup) {head : Job} {rest : List Job}
    (hqueue : pendingQueue d w = head :: rest)
    {row : Job} (hid : row.id = head.id) (hmanaged : row.queueManaged = true) (hworker : row.workerId = some w)
    (hstatus : row.status ≠ .pending) :
    pendingQueue (withRow d row) w = rest ∧
      heldBy (withRow d row) w = if row.active then heldBy d w ∪ row.gpuIndices.toFinset else heldBy d w := by
  obtain ⟨hmem, hpending, hrest⟩ := head_spec h hqueue
  constructor
  · rw [hrest]
    refine queueOf_map_remove h (fun j hj => ?_) fun j hj hne => ?_
    · by_cases hj' : j.id = head.id <;> simp [hid, hj', Job.pendingOn, hstatus]
    · simp [hid, hne]
  · have hinactive : head.activeOn w = false := by
      simp [Job.activeOn, Job.active, (Job.pendingOn_iff.mp hpending).2.2]
    have hactive : row.activeOn w = row.active := by simp [Job.activeOn, hmanaged, hworker]
    have hrow : ∀ i, i ∈ heldBy (withRow d row) w ↔ row.active = true ∧ i ∈ row.gpuIndices ∨ i ∈ heldBy d w := by
      intro i
      simp only [mem_heldBy, mem_withRow h hmem hid]
      constructor
      · rintro ⟨j, rfl | ⟨hj, -⟩, hjactive, hi⟩
        · exact .inl ⟨hactive ▸ hjactive, hi⟩
        · exact .inr ⟨j, hj, hjactive, hi⟩
      · rintro (⟨hjactive, hi⟩ | ⟨j, hj, hjactive, hi⟩)
        · exact ⟨row, .inl rfl, hactive.trans hjactive, hi⟩
        · refine ⟨j, .inr ⟨hj, ?_⟩, hjactive, hi⟩
          rintro rfl
          rw [hinactive] at hjactive
          cases hjactive
    ext i
    rw [hrow]
    split
    · next ha => simp [ha, or_comm]
    · next ha => simp [ha]

variable {outcome : String → Outcome} {t : ℕ}

theorem always_updateJob {α : Type} {Q : Except JobError α → World → Prop} {job : Job} {f : Unit → ManagerM α}
    {s : World}
    (h : ∀ s', s'.db = withRow s.db job → (f ()).Always (scripted outcome) t Claims Q s') :
    ((JobManager.updateJob job).bind f).Always (scripted outcome) t Claims Q s := by
  simp only [JobManager.updateJob, Prog.bind_eq, Prog.call_bind]
  refine ⟨⟨{}, _, rfl⟩, fun a s' b hh => ⟨trivial, ?_⟩⟩
  simp only [scripted, jobInterp, atomically_updateJob, Option.some.injEq, Prod.mk.injEq] at hh
  obtain ⟨rfl, rfl⟩ := hh
  exact h _ rfl

theorem always_now {α : Type} {Q : Except JobError α → World → Prop} {f : ℕ → ManagerM α} {s : World}
    (h : ∀ time, (f time).Always (scripted outcome) t Claims Q s) :
    ((Prog.call .now).bind f).Always (scripted outcome) t Claims Q s := by
  refine ⟨⟨{}, _, rfl⟩, fun a s' time hh => ⟨trivial, ?_⟩⟩
  cases hh
  exact h _

/-- A query of the database. -/
theorem always_database {α β : Type} {Q : Except JobError α → World → Prop} {method : DbM β} {b : β}
    {f : β → ManagerM α} {s : World} (hmethod : atomically method s.db = (.ok b, s.db))
    (h : (f b).Always (scripted outcome) t Claims Q s) :
    ((JobManager.database method).bind f).Always (scripted outcome) t Claims Q s := by
  simp only [JobManager.database, Prog.bind_eq, Prog.call_bind]
  refine ⟨⟨{}, _, rfl⟩, fun a s' r hh => ⟨trivial, ?_⟩⟩
  simp only [scripted, jobInterp, hmethod, World.withDb_self, Option.some.injEq, Prod.mk.injEq] at hh
  obtain ⟨rfl, rfl⟩ := hh
  exact h

theorem jobInterp_claim {jobId : String} {indices : List ℕ} {startedAt : ℕ} {workerId : String} {job : Job}
    {d : Tables}
    {s : World} (hclaim : atomically (claimQueuedJob jobId indices startedAt workerId) s.db = (.ok (some job), d))
    (a : Answer) :
    jobInterp.handle (.claimQueuedJob jobId indices startedAt workerId) t a s =
      some (((s.withDb d).read t (some job)).placed jobId (some workerId), .ok (some job)) := by
  simp only [jobInterp, hclaim]

theorem always_claim {α : Type} {Q : Except JobError α → World → Prop} {jobId : String} {indices : List ℕ}
    {startedAt : ℕ} {workerId : String} {job : Job} {d : Tables} {f : Option Job → ManagerM α} {s : World}
    (hclaim : atomically (claimQueuedJob jobId indices startedAt workerId) s.db = (.ok (some job), d))
    (h : ∀ s', s'.db = d → (f (some job)).Always (scripted outcome) t Claims Q s') :
    ((Prog.call (.claimQueuedJob jobId indices startedAt workerId)).bind fun r =>
      (JobManager.orRaise r).bind f).Always
      (scripted outcome) t Claims Q s := by
  refine ⟨⟨{}, _, jobInterp_claim hclaim {}⟩, fun a s' r hh => ?_⟩
  cases hh.symm.trans (jobInterp_claim hclaim a)
  exact ⟨⟨job, rfl⟩, h _ rfl⟩

theorem always_launch {workerId jobId : String} {s : World} {Q : Except JobError Bool → World → Prop}
    (h : ∀ launched s', (outcome jobId).allows launched = true → s'.db = s.db → Q (.ok launched) s') :
    (Prog.call (.launch workerId jobId) : ManagerM Bool).Always (scripted outcome) t Claims Q s := by
  refine ⟨⟨{ launches := decide (outcome jobId = .running) }, ?_⟩, fun a s' launched hh => ⟨trivial, ?_⟩⟩
  · cases ho : outcome jobId <;> exact ⟨_, by simp only [scripted, ho]; rfl⟩
  · simp only [scripted, jobInterp] at hh
    split at hh
    · next hallows =>
      split at hh <;> cases hh
      · next hl => exact h true _ (hl ▸ hallows) rfl
      · next hl => exact h false _ (Bool.eq_false_iff.mpr hl ▸ hallows) rfl
    · cases hh

theorem always_launchReply {workerId jobId : String} {launched : Bool} {s : World}
    {Q : Except JobError Int → World → Prop}
    (hallows : (outcome jobId).allows launched = true)
    (h : ∀ code, (outcome jobId).fits (some code) = true → Q (.ok code) s) :
    (JobManager.ssh (.launchReply workerId jobId launched)).Always (scripted outcome) t Claims Q s := by
  have hcode : ∃ code, (outcome jobId).fits (some code) = true ∧ codeFits launched (some code) = true := by
    cases ho : outcome jobId with
    | running => exact ⟨0, rfl, by simpa [codeFits, Outcome.allows, ho] using hallows⟩
    | failed => exact ⟨1, rfl, by simpa [codeFits, Outcome.allows, ho] using hallows⟩
    | unknown => exact ⟨-1, rfl, rfl⟩
  obtain ⟨code, hfits, hcode⟩ := hcode
  simp only [JobManager.ssh, Prog.bind_eq, Prog.call_bind]
  refine ⟨⟨{ code := some code }, (s, some code), by simp [scripted, jobInterp, hfits, hcode]⟩,
    fun a s' answer hh => ⟨trivial, ?_⟩⟩
  simp only [scripted, jobInterp] at hh
  split at hh
  · next hfits =>
    split at hh <;> cases hh
    cases hanswer : a.code with
    | none => simp [hanswer, Outcome.fits] at hfits
    | some code => exact h code (hanswer ▸ hfits)
  · cases hh

theorem always_launchJob {worker : Worker} {job : Job} {s : World} {Q : Except JobError Job → World → Prop}
    (hrow : withRow s.db job = s.db)
    (h : ∀ finishedAt s', s'.db = withRow s.db (settled outcome finishedAt job) →
      Q (.ok (settled outcome finishedAt job)) s') :
    (JobManager.launchJob worker job).Always (scripted outcome) t Claims Q s := by
  simp only [JobManager.launchJob, Prog.bind_eq]
  refine Prog.always_bind.mpr (always_launch fun launched s₁ hallows hdb => ?_)
  refine Prog.always_bind.mpr (always_launchReply hallows fun code hfits => ?_)
  dsimp only
  have hsame : withRow s₁.db job = s₁.db := by rw [hdb, hrow]
  cases ho : outcome job.id with
  | running =>
    have hzero : code = 0 := by simpa [ho, Outcome.fits] using hfits
    rw [if_neg (by omega), if_neg (by simp [hzero])]
    refine always_updateJob fun s₂ hs₂ => ?_
    have := h 0 s₂
    simp only [settled, ho] at this
    exact this (hdb ▸ hs₂)
  | failed =>
    have hpos : 0 < code ∧ code ≠ 255 := by simpa [ho, Outcome.fits] using hfits
    rw [if_neg (by omega), if_pos (by omega)]
    refine always_now fun finishedAt => always_updateJob fun s₂ hs₂ => ?_
    have := h finishedAt s₂
    simp only [settled, ho] at this
    exact this (hdb ▸ hs₂)
  | unknown =>
    have hneg : code < 0 ∨ code = 255 := by simpa [ho, Outcome.fits] using hfits
    rw [if_pos hneg]
    have := h 0 s₁
    simp only [settled, ho] at this
    exact this (hsame ▸ hdb ▸ rfl)

/-- What the dispatcher returns, and what it leaves behind. -/
def Dispatched (outcome : String → Outcome) (worker : Worker) (available : List ℕ) (queue : List Job)
    (held : Finset ℕ)
    (r : Except JobError (List Job)) (s : World) : Prop :=
  ∃ launched, r = .ok launched ∧
    (launched.map fun j => (j.id, j.gpuIndices)) =
      (dispatch Job.gpuCount (fun j => outcome j.id ≠ .failed) available queue held).map (fun x => (x.1.id, x.2)) ∧
    queue.map (·.id) = launched.map (·.id) ++ queueIds s.db.jobs worker.id ∧
    ∀ head, (pendingQueue s.db worker.id).head? = some head →
      (unheld available (heldBy s.db worker.id)).length < head.gpuCount

theorem always_dispatchLoop (worker : Worker) (available : List ℕ) (fuel : ℕ) {s : World}
    (hnodup : (s.db.jobs.map (·.id)).Nodup) (hfuel : (pendingQueue s.db worker.id).length < fuel) :
    (JobManager.dispatchLoop worker available fuel).Always (scripted outcome) t Claims
      (Dispatched outcome worker available (pendingQueue s.db worker.id) (heldBy s.db worker.id)) s := by
  induction fuel generalizing s with
  | zero => cases hfuel
  | succ fuel ih =>
    simp only [JobManager.dispatchLoop, Prog.bind_eq]
    refine always_database (b := claimedIndices s.db worker.id) rfl ?_
    refine always_database (b := queuedRows s.db (some worker.id)) rfl ?_
    rw [find_pending hnodup, unheld_heldBy]
    cases hqueue : pendingQueue s.db worker.id with
    | nil =>
      refine ⟨[], rfl, rfl, ?_, fun head hhead => ?_⟩
      · simp [queueIds, show queueOf s.db.jobs worker.id = [] from hqueue]
      · rw [hqueue] at hhead
        cases hhead
    | cons head rest =>
      obtain ⟨hmem, hpending, -⟩ := head_spec hnodup hqueue
      obtain ⟨hmanaged, hworker, hstatus⟩ := Job.pendingOn_iff.mp hpending
      simp only [List.head?_cons]
      by_cases hfit : head.gpuCount > (unheld available (heldBy s.db worker.id)).length
      · rw [if_pos hfit]
        refine ⟨[], rfl, by simp [dispatch, hfit], ?_, fun head' hhead => ?_⟩
        · simp [queueIds, show queueOf s.db.jobs worker.id = head :: rest from hqueue]
        · rw [hqueue, List.head?_cons] at hhead
          cases hhead
          exact hfit
      · rw [if_neg hfit]
        set assigned := (unheld available (heldBy s.db worker.id)).take head.gpuCount with hassigned
        have hlen : head.gpuCount = assigned.length := by
          rw [hassigned, List.length_take, Nat.min_eq_left (Nat.le_of_not_lt hfit)]
        have hfree : ∀ i ∈ assigned, i ∉ heldBy s.db worker.id := fun i hi => by
          simpa using List.of_mem_filter (List.mem_of_mem_take hi)
        refine always_now fun startedAt => always_claim
          (claim_head hnodup hqueue hlen hfree startedAt) fun s₁ hs₁ => ?_
        refine Prog.always_bind.mpr (always_launchJob
          (by rw [hs₁, withRow_withRow s.db rfl]) fun finishedAt s₂ hs₂ => ?_)
        obtain ⟨hid, hmanaged', hworker', hindices, hstatus', hactive⟩ :=
          settled_spec outcome finishedAt (head.claimed assigned startedAt) rfl
        generalize settled outcome finishedAt (head.claimed assigned startedAt) = row at *
        rw [hs₁, withRow_withRow s.db hid] at hs₂
        obtain ⟨hrest, hheld⟩ := withRow_head hnodup hqueue hid (hmanaged'.trans hmanaged)
          (hworker'.trans hworker) hstatus'
        rw [← hs₂] at hrest hheld
        have hnodup₂ : (s₂.db.jobs.map (·.id)).Nodup := by rwa [hs₂, ids_withRow]
        have hfuel₂ : (pendingQueue s₂.db worker.id).length < fuel := by
          rw [hqueue, List.length_cons] at hfuel
          rw [hrest]
          omega
        refine Prog.always_bind.mpr (Prog.Always.mono (fun r s₃ hdispatched => ?_) (ih hnodup₂ hfuel₂))
        obtain ⟨launched, rfl, hlaunched, hids, hstop⟩ := hdispatched
        refine ⟨row :: launched, rfl, ?_, ?_, hstop⟩
        · have hindices : row.gpuIndices = assigned := hindices
          have hactive : row.active = decide (outcome head.id ≠ .failed) := hactive
          rw [hrest, hheld, hindices, hactive] at hlaunched
          simp only [dispatch, hfit, if_false, List.map_cons, hlaunched, hindices, hid]
          rfl
        · rw [hrest] at hids
          simp only [List.map_cons, hids, hid]
          rfl

theorem always_dispatchWorker (outcome : String → Outcome) (manager t fuel : ℕ) (worker : Worker) {s : World}
    (honline : worker.status = .online)
    (hnodup : (s.db.jobs.map (·.id)).Nodup) (hfuel : (pendingQueue s.db worker.id).length < fuel) :
    (JobManager.dispatchWorker fuel manager worker).Always (scripted outcome) t Claims
      (Dispatched outcome worker (JobManager.freeGpuIndices worker) (pendingQueue s.db worker.id)
        (heldBy s.db worker.id)) s := by
  rw [JobManager.dispatchWorker, if_neg (by simp [honline])]
  exact Prog.always_withLock.mpr (always_dispatchLoop worker _ fuel hnodup hfuel)

/-- `dispatch_worker` ends within one round more than jobs wait, gets the job of each of its claims, and
launches what the greedy service of the queue launches; it stops with an empty queue, or with a head
that needs more GPUs than are free. -/
theorem dispatch_greedy (outcome : String → Outcome) (manager t fuel : ℕ) (worker : Worker) {s : World}
    (honline : worker.status = .online) (hnodup : (s.db.jobs.map (·.id)).Nodup)
    (hfuel : (pendingQueue s.db worker.id).length < fuel) :
    ((JobManager.freeGpuIndices worker).Pairwise (· < ·) ∧
      ∀ index, index ∈ JobManager.freeGpuIndices worker ↔ index < worker.gpuCount ∧ ReportsFree worker index) ∧
    (JobManager.dispatchWorker fuel manager worker).Always (scripted outcome) t Claims (fun _ _ => True) s ∧
    (∃ r s', (JobManager.dispatchWorker fuel manager worker).Runs (scripted outcome) t (fun _ => True) s r s') ∧
    ∀ r s', (JobManager.dispatchWorker fuel manager worker).Runs (scripted outcome) t (fun _ => True) s r s' →
      Dispatched outcome worker (JobManager.freeGpuIndices worker) (pendingQueue s.db worker.id)
        (heldBy s.db worker.id) r s' := by
  have halways := always_dispatchWorker outcome manager t fuel worker honline hnodup hfuel
  refine ⟨⟨freeGpuIndices_increasing worker, fun index => mem_freeGpuIndices honline⟩,
    halways.mono fun _ _ _ => trivial, ?_, fun r s' hrun => halways.of_runs hrun⟩
  obtain ⟨r, s', hrun, -⟩ := halways.exists_run
  exact ⟨r, s', hrun⟩

/-- The second job does not fit beside the first. -/
theorem dispatch_greedy_twoJobs :
    let worker : Worker :=
  { id := "w", name := "w", status := .online, gpuCount := 2, gpuBusy := [some false, some false] }
    let row (id : String) (order count : ℕ) : Job :=
      { id := id, workerId := some "w", status := .pending,
        queueManaged := true, gpuCount := count, queueOrder := order }
    ∃ launched s', (JobManager.dispatchWorker 3 0 worker).Runs (scripted fun _ => .running) 0 (fun _ => True)
        { db := { jobs := [row "b" 2 2, row "a" 1 1] } } (.ok launched) s' ∧
      (launched.map fun j => (j.id, j.gpuIndices)) = [("a", [0])] := by
  intro worker row
  obtain ⟨-, -, ⟨r, s', hrun⟩, hruns⟩ := dispatch_greedy (fun _ => .running) 0 0 3 worker
    (s := { db := { jobs := [row "b" 2 2, row "a" 1 1] } }) rfl (by decide) (by decide)
  obtain ⟨launched, rfl, hlaunched, -⟩ := hruns r s' hrun
  exact ⟨launched, s', hrun, hlaunched.trans (by decide)⟩

end WorkerHarness.DispatchOrder
