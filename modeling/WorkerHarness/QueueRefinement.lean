import WorkerHarness.AtomicMethods
import Mathlib.Data.List.MinMax
import Mathlib.Order.Nat

/-!
# The queue table as one list of jobs for each worker

The abstract state of the managed queue has the job rows without their positions and, for
each worker, the list of its waiting jobs. Its operations are list operations. The job
table refines it: every database method, run as one step, does to the table what the list
operation does to the abstract state, with the same result.
-/

namespace WorkerHarness.QueueRefinement

open SortedLists Database JobQueues

/-- The queue as its users see it. -/
structure QueueState where
  jobs : List Job
  queue : String → List String

def unplaced (j : Job) : Job := j.withOrder 0

def queueState (d : Tables) : QueueState := ⟨d.jobs.map unplaced, queueIds d.jobs⟩

def setRow (id : String) (f : Job → Job) (jobs : List Job) : List Job := updateRows (fun j => j.id = id) f jobs

/-- Replace the list of one worker; a missing worker has no list. -/
def onQueue (w : Option String) (f : List String → List String) (queue : String → List String) :
    String → List String :=
  fun w' => if w = some w' then f (queue w') else queue w'

namespace QueueState

/-- Append the job to the list of its worker. -/
def insertQueued (job : Job) (q : QueueState) : Except DbError (Option Job) × QueueState :=
  if q.jobs.any (fun j => j.id = job.id) then (.error .integrityError, q)
  else
    (.ok (some (unplaced (job.enqueued 0))),
      ⟨q.jobs ++ [unplaced (job.enqueued 0)], onQueue job.workerId (fun ids => ids ++ [job.id]) q.queue⟩)

/-- Remove the head of the list, when it is this job, asks for as many GPUs as are offered,
and no active job of the worker holds one of them. -/
def claim (jobId : String) (gpuIndices : List ℕ) (startedAt : ℕ) (workerId : String) (q : QueueState) :
    Except DbError (Option Job) × QueueState :=
  match q.jobs.find? fun j => j.id = jobId with
  | none => (.ok none, q)
  | some row =>
    if (q.queue workerId).head? = some jobId ∧ row.gpuCount = gpuIndices.length ∧
        ∀ j ∈ q.jobs, j.activeOn workerId = true → ∀ i ∈ j.gpuIndices, i ∉ gpuIndices then
      (.ok (some (row.claimed gpuIndices startedAt)),
        ⟨setRow jobId (Job.claimed gpuIndices startedAt) q.jobs, onQueue (some workerId) List.tail q.queue⟩)
    else (.ok none, q)

/-- Take the job out of its list and put it at its new place; without a position it keeps its
place on the same worker and goes to the end on another. -/
def edit (workers : List Worker) (jobId : String) (workerId : Option String) (position : Option ℕ)
    (name : Option String) (expectedSeconds gpuCount : Option ℕ) (q : QueueState) :
    Except DbError (Option Job) × QueueState :=
  match q.jobs.find? fun j => decide (j.id = jobId) && j.queueManaged with
  | none => (.error (.keyError jobId), q)
  | some row =>
    if row.status ≠ .pending then (.error (.valueError "queued job is not pending"), q) else
    match (destinationOf workerId row).bind fun w => workers.find? fun wk => wk.id = w with
    | none => (.error (.valueError "destination worker no longer exists"), q)
    | some destination =>
      if gpuCount.getD row.gpuCount > destination.gpuCount then
        (.error (.valueError "gpu_count exceeds destination worker capacity"), q)
      else
        let queue :=
          if destinationOf workerId row = row.workerId ∧ position = none then q.queue
          else onQueue (destinationOf workerId row) (placedAt position jobId)
            (onQueue row.workerId (otherIds jobId) q.queue)
        (.ok (some (row.edited (destinationOf workerId row) name expectedSeconds gpuCount row)),
          ⟨setRow jobId (Job.edited row (destinationOf workerId row) name expectedSeconds gpuCount) q.jobs, queue⟩)

/-- Take the job out of its list. -/
def failPending (jobId : String) (finishedAt : ℕ) (q : QueueState) : Except DbError (Option Job) × QueueState :=
  match q.jobs.find? (pendingRow jobId) with
  | none => (.ok none, q)
  | some row =>
    (.ok (some (row.cancelled finishedAt)),
      ⟨setRow jobId (Job.cancelled finishedAt) q.jobs, onQueue row.workerId (otherIds jobId) q.queue⟩)

/-- Resolve a claim: the job runs, goes to the front of its list, or has failed. -/
def reconcile (jobId : String) (launchObserved : Bool) (now : ℕ) (q : QueueState) :
    Except DbError (Option Job) × QueueState :=
  match q.jobs.find? (startingRow jobId) with
  | none => (.ok none, q)
  | some row =>
    if launchObserved then (.ok (some row.launched), ⟨setRow jobId Job.launched q.jobs, q.queue⟩)
    else if row.queueManaged then
      (.ok (some (unplaced row.recovered)),
        ⟨setRow jobId (unplaced ∘ Job.recovered) q.jobs, onQueue row.workerId (fun ids => jobId :: ids) q.queue⟩)
    else (.ok (some (row.neverLaunched now)), ⟨setRow jobId (Job.neverLaunched now) q.jobs, q.queue⟩)

def insertJob (job : Job) (q : QueueState) : Except DbError (Option Job) × QueueState :=
  if q.jobs.any (fun j => j.id = job.id) then (.error .integrityError, q)
  else (.ok none, ⟨q.jobs ++ [unplaced job], q.queue⟩)

def updateJob (job : Job) (q : QueueState) : Except DbError (Option Job) × QueueState :=
  (.ok none, ⟨setRow job.id (fun _ => unplaced job) q.jobs, q.queue⟩)

def deleteWorker (workerId : String) (q : QueueState) : QueueState :=
  ⟨q.jobs.filter fun j => j.workerId ≠ some workerId, onQueue (some workerId) (fun _ => []) q.queue⟩

end QueueState

inductive QueueOp where
  | insertQueuedJob (job : Job)
  | claimQueuedJob (jobId : String) (gpuIndices : List ℕ) (startedAt : ℕ) (workerId : String)
  | updatePendingJob (jobId : String) (workerId : Option String) (position : Option ℕ) (name : Option String)
      (expectedSeconds gpuCount : Option ℕ)
  | failPendingJob (jobId : String) (finishedAt : ℕ)
  | reconcileStartingJob (jobId : String) (launchObserved : Bool) (now : ℕ)
  | insertJob (job : Job)
  | updateJob (job : Job)
  | upsertWorker (reg : WorkerRegistration) (now : ℕ)
  | pruneWorkers (olderThanTs : ℕ)
  | deleteWorker (workerId : String)

/-- The job that a result names, without its position. -/
def shown {α : Type} (f : α → Option Job) (r : Except DbError α × Tables) : Except DbError (Option Job) × Tables :=
  (r.1.map fun a => (f a).map unplaced, r.2)

namespace QueueOp

def run (d : Tables) : QueueOp → Except DbError (Option Job) × Tables
  | insertQueuedJob job => shown some (atomically (Database.insertQueuedJob job) d)
  | claimQueuedJob jobId gpuIndices startedAt workerId =>
    shown (fun j => j) (atomically (Database.claimQueuedJob jobId gpuIndices startedAt workerId) d)
  | updatePendingJob jobId workerId position name expectedSeconds gpuCount =>
    shown some (atomically (Database.updatePendingJob jobId workerId position name expectedSeconds gpuCount) d)
  | failPendingJob jobId finishedAt => shown (fun j => j) (atomically (Database.failPendingJob jobId finishedAt) d)
  | reconcileStartingJob jobId launchObserved now =>
    shown (fun j => j) (atomically (Database.reconcileStartingJob jobId launchObserved now) d)
  | insertJob job => shown (fun _ => none) (atomically (Database.insertJob job) d)
  | updateJob job => shown (fun _ => none) (atomically (Database.updateJob job) d)
  | upsertWorker reg now => shown (fun _ => none) (atomically (Database.upsertWorker reg now) d)
  | pruneWorkers olderThanTs => shown (fun _ => none) (atomically (Database.pruneWorkers olderThanTs) d)
  | deleteWorker workerId => shown (fun _ => none) (atomically (Database.deleteWorker workerId) d)

/-- The same operation on the lists. -/
def spec (workers : List Worker) (q : QueueState) : QueueOp → Except DbError (Option Job) × QueueState
  | insertQueuedJob job => q.insertQueued job
  | claimQueuedJob jobId gpuIndices startedAt workerId => q.claim jobId gpuIndices startedAt workerId
  | updatePendingJob jobId workerId position name expectedSeconds gpuCount =>
    q.edit workers jobId workerId position name expectedSeconds gpuCount
  | failPendingJob jobId finishedAt => q.failPending jobId finishedAt
  | reconcileStartingJob jobId launchObserved now => q.reconcile jobId launchObserved now
  | insertJob job => q.insertJob job
  | updateJob job => q.updateJob job
  | upsertWorker _ _ => (.ok none, q)
  | pruneWorkers _ => (.ok none, q)
  | deleteWorker workerId => (.ok none, q.deleteWorker workerId)

/-- What the callers promise: positions from 1, jobs inserted directly are not queue-managed,
and status writes are neither about waiting jobs nor make a job wait. -/
def Valid (d : Tables) : QueueOp → Prop
  | updatePendingJob _ _ position _ _ _ => ∀ p, position = some p → 1 ≤ p
  | insertJob job => job.queueManaged = false
  | updateJob job => ∀ w, job.pendingOn w = false ∧ ∀ j ∈ d.jobs, j.id = job.id → j.pendingOn w = false
  | _ => True

end QueueOp

inductive QueueRun : Tables → Prop where
  | empty : QueueRun {}
  | step {d : Tables} {op : QueueOp} : QueueRun d → op.Valid d → QueueRun (op.run d).2

/-- One operation keeps the rows well ordered and refines its list operation. -/
def Refines (op : QueueOp) (d : Tables) : Prop :=
  WellOrdered (op.run d).2.jobs ∧ ((op.run d).1, queueState (op.run d).2) = op.spec d.workers (queueState d)

@[simp] theorem unplaced_id (j : Job) : (unplaced j).id = j.id := rfl

@[simp] theorem unplaced_status (j : Job) : (unplaced j).status = j.status := rfl

@[simp] theorem unplaced_queueManaged (j : Job) : (unplaced j).queueManaged = j.queueManaged := rfl

@[simp] theorem unplaced_workerId (j : Job) : (unplaced j).workerId = j.workerId := rfl

@[simp] theorem unplaced_gpuCount (j : Job) : (unplaced j).gpuCount = j.gpuCount := rfl

@[simp] theorem unplaced_gpuIndices (j : Job) : (unplaced j).gpuIndices = j.gpuIndices := rfl

@[simp] theorem unplaced_activeOn (w : String) (j : Job) : (unplaced j).activeOn w = j.activeOn w := rfl

@[simp] theorem unplaced_withOrder (n : ℕ) (j : Job) : unplaced (j.withOrder n) = unplaced j := rfl

theorem unplaced_renumbered (n : ℕ) (ids : List String) (j : Job) : unplaced (renumbered n ids j) = unplaced j := by
  unfold renumbered
  split <;> rfl

/-- A search that does not look at positions finds the same row. -/
theorem find?_unplaced {p : Job → Bool} (h : ∀ j, p (unplaced j) = p j) (jobs : List Job) :
    (jobs.map unplaced).find? p = (jobs.find? p).map unplaced := by
  rw [List.find?_map]
  exact congrArg (fun p => (jobs.find? p).map unplaced) (funext h)

/-- Among rows with distinct ids, a condition that holds of `j` and of no other id selects `j`. -/
theorem updateRows_eq_setRow {jobs : List Job} (h : (jobs.map (·.id)).Nodup) {p : Job → Bool} {j : Job}
    (hj : j ∈ jobs) (hpj : p j = true) (hp : ∀ a, p a = true → a.id = j.id) (f : Job → Job) :
    updateRows p f jobs = setRow j.id f jobs := by
  refine List.map_congr_left fun a ha => ?_
  by_cases ha' : a.id = j.id
  · simp [eq_of_id_eq h ha hj ha', hpj]
  · simp [ha', show p a = false from Bool.eq_false_iff.mpr fun hpa => ha' (hp a hpa)]

theorem setRow_unplaced {f f' : Job → Job} (hf : ∀ j, unplaced (f j) = f' (unplaced j)) (id : String)
    (jobs : List Job) : (setRow id f jobs).map unplaced = setRow id f' (jobs.map unplaced) := by
  simp only [setRow, updateRows, List.map_map]
  refine List.map_congr_left fun j _ => ?_
  by_cases h : j.id = id <;> simp [h, hf]

/-- The row change of `setRow` as a function of one row. -/
def atRow (id : String) (f : Job → Job) (j : Job) : Job := if j.id = id then f j else j

theorem setRow_eq_map (id : String) (f : Job → Job) (jobs : List Job) :
    setRow id f jobs = jobs.map (atRow id f) := by
  simp [setRow, updateRows, atRow]

theorem atRow_self (f : Job → Job) (j : Job) : atRow j.id f j = f j := if_pos rfl

theorem atRow_of_ne {id : String} (f : Job → Job) {j : Job} (h : j.id ≠ id) : atRow id f j = j := if_neg h

theorem atRow_id {f : Job → Job} (hf : ∀ j, (f j).id = j.id) (id : String) (j : Job) :
    (atRow id f j).id = j.id := by
  unfold atRow
  split
  · exact hf j
  · rfl

/-- After row changes that keep all ids, a row is found by its id. -/
theorem findJob_map {d : Tables} {j : Job} {g : Job → Job} (h : (d.jobs.map (·.id)).Nodup) (hj : j ∈ d.jobs)
    (hg : ∀ a, (g a).id = a.id) : findJob (withJobs d (d.jobs.map g)) j.id = some (g j) := by
  refine (findJob_eq_some ?_).mpr ⟨List.mem_map.mpr ⟨j, hj, rfl⟩, hg j⟩
  rw [withJobs_jobs, map_ids fun a _ => hg a]
  exact h

theorem le_topQueueOrder {d : Tables} {w : String} {j : Job} (hj : j ∈ d.jobs) (hp : j.pendingOn w = true) :
    j.queueOrder ≤ topQueueOrder d (some w) := by
  have hmem : j.queueOrder ∈ (d.jobs.filter fun j => j.pendingOn w || j.activeOn w).map (·.queueOrder) :=
    List.mem_map.mpr ⟨j, List.mem_filter.mpr ⟨hj, by simp [hp]⟩, rfl⟩
  exact List.le_max_of_le hmem le_rfl

theorem any_unplaced (jobs : List Job) (id : String) :
    (jobs.map unplaced).any (fun j => j.id = id) = jobs.any fun j => j.id = id := by
  rw [List.any_map]
  rfl

theorem wellOrdered_append {jobs : List Job} {row : Job} (h : WellOrdered jobs)
    (hid : jobs.any (fun j => j.id = row.id) = false)
    (hrow : ∀ w, row.pendingOn w = true →
      1 ≤ row.queueOrder ∧ ∀ a ∈ jobs, a.pendingOn w = true → a.queueOrder < row.queueOrder) :
    WellOrdered (jobs ++ [row]) := by
  refine ⟨?_, fun w => (h.ordered w).append (fun hp => (hrow w hp).2) fun hp => (hrow w hp).1⟩
  have hnot : ∀ j ∈ jobs, j.id ≠ row.id := by simpa using hid
  rw [List.map_append, List.nodup_append]
  refine ⟨h.ids, List.nodup_singleton _, ?_⟩
  intro a ha b hb
  obtain ⟨j, hj, rfl⟩ := List.mem_map.mp ha
  rw [List.mem_singleton.mp hb]
  exact hnot j hj

theorem refines_insertQueuedJob {d : Tables} (h : WellOrdered d.jobs) (job : Job) :
    Refines (.insertQueuedJob job) d := by
  cases hany : d.jobs.any fun j => j.id = job.id with
  | true =>
    simp only [Refines, QueueOp.run, QueueOp.spec, QueueState.insertQueued, atomically_insertQueuedJob, shown,
      queueState, any_unplaced, hany, if_true]
    exact ⟨h, rfl⟩
  | false =>
    have hlt : ∀ w, (job.enqueued (topQueueOrder d job.workerId + 1)).pendingOn w = true →
        ∀ a ∈ d.jobs, a.pendingOn w = true → a.queueOrder < topQueueOrder d job.workerId + 1 := by
      intro w hp a ha hpa
      have hw : job.workerId = some w := (Job.pendingOn_iff.mp hp).2.1
      rw [hw]
      exact Nat.lt_succ_of_le (le_topQueueOrder ha hpa)
    have hq : queueIds (d.jobs ++ [job.enqueued (topQueueOrder d job.workerId + 1)]) =
        onQueue job.workerId (fun ids => ids ++ [job.id]) (queueIds d.jobs) := by
      funext w
      by_cases hw : job.workerId = some w
      · have hp : (job.enqueued (topQueueOrder d job.workerId + 1)).pendingOn w = true := by
          simp [Job.enqueued, Job.pendingOn, hw]
        rw [queueIds, queueOf_append_waiting h.ids hp (hlt w hp), onQueue, if_pos hw, List.map_append]
        rfl
      · have hp : (job.enqueued (topQueueOrder d job.workerId + 1)).pendingOn w = false := by
          simp [Job.enqueued, Job.pendingOn, hw]
        rw [queueIds, queueOf_append_other hp, onQueue, if_neg hw]
        rfl
    refine ⟨?_, ?_⟩
    · simp only [QueueOp.run, shown, atomically_insertQueuedJob, hany, Bool.false_eq_true, if_false, withJobs_jobs]
      exact wellOrdered_append h hany fun w hp => ⟨Nat.succ_pos _, hlt w hp⟩
    · simp only [QueueOp.run, QueueOp.spec, QueueState.insertQueued, atomically_insertQueuedJob, shown, queueState,
        any_unplaced, hany, Bool.false_eq_true, if_false, withJobs_jobs, hq, List.map_append]
      rfl

/-- The row change of an operation on one row keeps the table well ordered when the row does
not wait afterwards. -/
theorem wellOrdered_setRow {jobs : List Job} (h : WellOrdered jobs) {f : Job → Job} {id : String}
    (hf : ∀ j, (f j).id = j.id) (hno : ∀ j w, (f j).pendingOn w = false) : WellOrdered (jobs.map (atRow id f)) := by
  refine ⟨by rw [map_ids fun a _ => atRow_id hf id a]; exact h.ids, fun w => ?_⟩
  refine (h.ordered w).map 0 (fun j _ => atRow_id hf id j) fun j _ hp => ?_
  by_cases hj : j.id = id
  · rw [atRow, if_pos hj, hno] at hp
    cases hp
  · rw [atRow_of_ne f hj] at hp ⊢
    exact ⟨hp, rfl⟩

/-- The list of `w` after a row of the list of `source` no longer waits on `w`. -/
theorem queueIds_setRow_leaving {jobs : List Job} (h : (jobs.map (·.id)).Nodup) {f : Job → Job} {j : Job}
    (hj : j ∈ jobs) (source : Option String) (hsource : ∀ w, source = some w ↔ j.pendingOn w = true) {w : String}
    (hno : (f j).pendingOn w = false) :
    queueIds (jobs.map (atRow j.id f)) w = onQueue source (otherIds j.id) (queueIds jobs) w := by
  have hremove : queueOf (jobs.map (atRow j.id f)) w = (queueOf jobs w).filter fun a => a.id ≠ j.id := by
    refine queueOf_map_remove h (fun a hmem => ?_) fun a _ hne => atRow_of_ne f hne
    by_cases ha : a.id = j.id
    · rw [eq_of_id_eq h hmem hj ha, atRow_self, hno]
      simp
    · rw [atRow_of_ne f ha]
      simp [ha]
  have hmap : ∀ l : List Job, (l.filter fun a => a.id ≠ j.id).map (·.id) = otherIds j.id (l.map (·.id)) :=
    fun l => by rw [otherIds, List.filter_map]; rfl
  rw [queueIds, hremove, hmap, onQueue]
  by_cases hw : source = some w
  · rw [if_pos hw]
    rfl
  · rw [if_neg hw]
    -- A list that the job is not on does not change.
    refine List.filter_eq_self.mpr fun id hid => ?_
    obtain ⟨a, ha, hpa, rfl⟩ := mem_queueIds.mp hid
    rw [decide_eq_true_eq]
    intro haj
    rw [eq_of_id_eq h ha hj haj] at hpa
    exact hw ((hsource w).mpr hpa)

theorem pendingOn_source {j : Job} {w : String} (hp : j.pendingOn w = true) (w' : String) :
    some w = some w' ↔ j.pendingOn w' = true := by
  constructor
  · rintro ⟨⟩
    exact hp
  · intro hp'
    rw [← (Job.pendingOn_iff.mp hp).2.1, (Job.pendingOn_iff.mp hp').2.1]

/-- The head of a queue is a waiting row of the worker. -/
theorem exists_of_head {jobs : List Job} {w jobId : String} (h : (queueIds jobs w).head? = some jobId) :
    ∃ j ∈ jobs, j.pendingOn w = true ∧ j.id = jobId :=
  mem_queueIds.mp (List.mem_of_head? h)

theorem otherIds_head {ids : List String} {jobId : String} (hd : ids.Nodup) (h : ids.head? = some jobId) :
    otherIds jobId ids = ids.tail := by
  cases ids with
  | nil => cases h
  | cons id ids =>
    cases h
    obtain ⟨hnot, -⟩ := List.nodup_cons.mp hd
    simp only [otherIds, List.tail_cons]
    rw [List.filter_cons_of_neg (by simp)]
    exact List.filter_eq_self.mpr fun id' hid' => by simpa using fun he : id' = jobId => hnot (he ▸ hid')

theorem find?_id {jobs : List Job} (h : (jobs.map (·.id)).Nodup) {j : Job} (hj : j ∈ jobs) :
    jobs.find? (fun a => a.id = j.id) = some j :=
  show findJob (withJobs {} jobs) j.id = some j from (findJob_eq_some h).mpr ⟨hj, rfl⟩

/-- To show refinement, name the result and the rows that the method leaves. -/
theorem refines_of {op : QueueOp} {d : Tables} (r : Except DbError (Option Job)) (jobs : List Job)
    (hrun : op.run d = (r, withJobs d jobs)) (hwf : WellOrdered jobs)
    (hspec : op.spec d.workers (queueState d) = (r, ⟨jobs.map unplaced, queueIds jobs⟩)) : Refines op d := by
  rw [Refines, hrun, hspec]
  exact ⟨hwf, rfl⟩

theorem map_atRow_unplaced (f f' : Job → Job) (hf : ∀ j, unplaced (f j) = f' (unplaced j)) (id : String)
    (jobs : List Job) : (jobs.map (atRow id f)).map unplaced = setRow id f' (jobs.map unplaced) := by
  rw [← setRow_eq_map, setRow_unplaced hf]

theorem refines_claimQueuedJob {d : Tables} (h : WellOrdered d.jobs) (jobId : String) (gpuIndices : List ℕ)
    (startedAt : ℕ) (workerId : String) : Refines (.claimQueuedJob jobId gpuIndices startedAt workerId) d := by
  have hfind : (queueState d).jobs.find? (fun j => j.id = jobId) =
      (d.jobs.find? fun j => j.id = jobId).map unplaced := find?_unplaced (fun j => rfl) d.jobs
  have hactive : (∀ j ∈ (queueState d).jobs, j.activeOn workerId = true → ∀ i ∈ j.gpuIndices, i ∉ gpuIndices) ↔
      ∀ a ∈ d.jobs, a.activeOn workerId = true → ∀ i ∈ a.gpuIndices, i ∉ gpuIndices := by
    simp [queueState]
  by_cases hc : ∃ j ∈ d.jobs, claimable jobId gpuIndices workerId d j = true
  · obtain ⟨j, hj, hc⟩ := hc
    obtain ⟨rfl, hp, hcount, hhead, hact⟩ := claimable_iff.mp hc
    have hf : ∀ a : Job, (a.claimed gpuIndices startedAt).id = a.id := fun _ => rfl
    have htables : claimedTables j.id gpuIndices startedAt workerId d =
        withJobs d (d.jobs.map (atRow j.id (Job.claimed gpuIndices startedAt))) := by
      rw [claimedTables, updateRows_eq_setRow h.ids hj hc (fun a ha => (claimable_iff.mp ha).1), setRow_eq_map]
    have hqueue : queueIds (d.jobs.map (atRow j.id (Job.claimed gpuIndices startedAt))) =
        onQueue (some workerId) List.tail (queueIds d.jobs) := by
      funext w
      rw [queueIds_setRow_leaving h.ids hj (some workerId) (pendingOn_source hp) (by
        simp [Job.claimed, Job.pendingOn])]
      by_cases hw : some workerId = some w
      · cases hw
        simp only [onQueue, if_true]
        exact otherIds_head (queueIds_nodup h.ids) hhead
      · simp only [onQueue, if_neg hw]
    have hrows : (d.jobs.map (atRow j.id (Job.claimed gpuIndices startedAt))).map unplaced =
        setRow j.id (Job.claimed gpuIndices startedAt) (d.jobs.map unplaced) :=
      map_atRow_unplaced (Job.claimed gpuIndices startedAt) (Job.claimed gpuIndices startedAt) (fun _ => rfl) _ _
    refine refines_of (.ok (some (unplaced (j.claimed gpuIndices startedAt))))
      (d.jobs.map (atRow j.id (Job.claimed gpuIndices startedAt))) ?_
        (wellOrdered_setRow h hf fun a w => by simp [Job.claimed, Job.pendingOn]) ?_
    · rw [QueueOp.run, atomically_claimQueuedJob, if_pos ⟨j, hj, hc⟩, htables,
        findJob_map h.ids hj (atRow_id hf j.id), atRow_self]
      rfl
    · rw [QueueOp.spec, QueueState.claim, hfind, find?_id h.ids hj]
      simp only [Option.map_some]
      rw [if_pos ⟨hhead, hcount, hactive.mpr hact⟩, hrows, hqueue]
      rfl
  · refine refines_of (.ok none) d.jobs ?_ h ?_
    · rw [QueueOp.run, atomically_claimQueuedJob, if_neg hc]
      rfl
    · rw [QueueOp.spec, QueueState.claim, hfind]
      cases hrow : d.jobs.find? fun j => j.id = jobId with
      | none => rfl
      | some row =>
        refine if_neg fun hcond => hc ?_
        obtain ⟨hhead, hcount, hact⟩ := hcond
        have hrow' := List.mem_of_find?_eq_some hrow
        have hid : row.id = jobId := by simpa using List.find?_some hrow
        obtain ⟨j, hj, hp, hjid⟩ := exists_of_head hhead
        have hjr : j = row := eq_of_id_eq h.ids hj hrow' (hjid.trans hid.symm)
        subst hjr
        exact ⟨j, hj, claimable_iff.mpr ⟨hid, hp, hcount, by rw [hid]; exact hhead, hactive.mp hact⟩⟩

/-- Renumbering one list changes its order and no other list. -/
theorem queueIds_renumbered_at {jobs : List Job} (h : (jobs.map (·.id)).Nodup) {w : String} {ids : List String}
    (hd : ids.Nodup) (hp : ids.Perm ((jobs.filter (Job.pendingOn w)).map (·.id))) :
    queueIds (jobs.map (renumbered 1 ids)) = onQueue (some w) (fun _ => ids) (queueIds jobs) := by
  funext w'
  by_cases hw : some w = some w'
  · cases hw
    simp only [onQueue, if_true]
    exact queueIds_renumbered 1 hd hp
  · simp only [onQueue, if_neg hw]
    rw [queueIds, queueOf_renumbered_other 1 (notMem_of_other h hp hw), queueIds]

theorem ordered_renumbered_at {jobs : List Job} (h : (jobs.map (·.id)).Nodup) {w : String} {ids : List String}
    (hp : ids.Perm ((jobs.filter (Job.pendingOn w)).map (·.id)))
    (ho : ∀ w', some w ≠ some w' → OrderedOn jobs w') : WellOrdered (jobs.map (renumbered 1 ids)) := by
  refine ⟨by rw [map_ids fun a _ => renumbered_id 1 ids a]; exact h, fun w' => ?_⟩
  by_cases hw : some w = some w'
  · cases hw
    refine OrderedOn.of_renumbered fun j hj hpj => ?_
    exact hp.mem_iff.mpr (List.mem_map.mpr ⟨j, List.mem_filter.mpr ⟨hj, hpj⟩, rfl⟩)
  · exact (ho w' hw).of_renumbered_other (notMem_of_other h hp hw)

theorem map_renumbered_unplaced (n : ℕ) (ids : List String) (jobs : List Job) :
    (jobs.map (renumbered n ids)).map unplaced = jobs.map unplaced := by
  rw [List.map_map]
  exact List.map_congr_left fun j _ => unplaced_renumbered n ids j

/-- Renumbering a list in the order that it has already. -/
theorem renumber_in_place {jobs : List Job} (h : (jobs.map (·.id)).Nodup) (d : Tables) (source : Option String) :
    ∃ ids, renumberFrom 1 (pendingIds (withJobs d jobs) source) jobs = jobs.map (renumbered 1 ids) ∧
      queueIds (jobs.map (renumbered 1 ids)) = queueIds jobs ∧
      ∀ w, OrderedOn jobs w → OrderedOn (jobs.map (renumbered 1 ids)) w := by
  cases source with
  | none =>
    have hnil : jobs.map (renumbered 1 []) = jobs := map_eq_self fun j _ => renumbered_of_notMem List.not_mem_nil
    exact ⟨[], by rw [hnil]; rfl, by rw [hnil], by rw [hnil]; exact fun w hw => hw⟩
  | some w =>
    have hp := queueIds_perm jobs w
    refine ⟨queueIds jobs w, renumberFrom_eq (queueIds_nodup h) 1 jobs, ?_, fun w' hw' => ?_⟩
    · rw [queueIds_renumbered_at h (queueIds_nodup h) hp]
      funext w'
      by_cases hw : some w = some w'
      · cases hw
        simp only [onQueue, if_true]
      · simp only [onQueue, if_neg hw]
    · by_cases hw : some w = some w'
      · cases hw
        exact OrderedOn.of_renumbered fun j hj hpj => mem_queueIds.mpr ⟨j, hj, hpj, rfl⟩
      · exact hw'.of_renumbered_other (notMem_of_other h hp hw)

theorem refines_failPendingJob {d : Tables} (h : WellOrdered d.jobs) (jobId : String) (finishedAt : ℕ) :
    Refines (.failPendingJob jobId finishedAt) d := by
  have hfind : (queueState d).jobs.find? (pendingRow jobId) = (d.jobs.find? (pendingRow jobId)).map unplaced :=
    find?_unplaced (fun j => rfl) d.jobs
  cases hrow : d.jobs.find? (pendingRow jobId) with
  | none =>
    refine refines_of (.ok none) d.jobs ?_ h ?_
    · rw [QueueOp.run, atomically_failPendingJob, hrow]
      rfl
    · rw [QueueOp.spec, QueueState.failPending, hfind, hrow]
      rfl
  | some row =>
    have hj := List.mem_of_find?_eq_some hrow
    obtain ⟨rfl, hm, hs⟩ := pendingRow_iff.mp (List.find?_some hrow)
    have hf : ∀ a : Job, (a.cancelled finishedAt).id = a.id := fun _ => rfl
    have hno : ∀ (a : Job) (w : String), (a.cancelled finishedAt).pendingOn w = false := fun a w => by
      simp [Job.cancelled, Job.pendingOn]
    have hcancel : cancelledJobs row.id finishedAt d.jobs =
      d.jobs.map (atRow row.id (Job.cancelled finishedAt)) := by
      rw [cancelledJobs, updateRows_eq_setRow h.ids hj (List.find?_some hrow)
        (fun a ha => (pendingRow_iff.mp ha).1),
        setRow_eq_map]
    have hrows := map_atRow_unplaced (Job.cancelled finishedAt) (Job.cancelled finishedAt)
      (fun _ => rfl) row.id d.jobs
    -- The list without the job is renumbered in the order that it has.
    have hwf₁ : WellOrdered (d.jobs.map (atRow row.id (Job.cancelled finishedAt))) := wellOrdered_setRow h hf hno
    obtain ⟨ids, hren, hqueue, hord⟩ := renumber_in_place hwf₁.ids d row.workerId
    have hwf : WellOrdered ((d.jobs.map (atRow row.id (Job.cancelled finishedAt))).map (renumbered 1 ids)) :=
      ⟨by rw [map_ids fun a _ => renumbered_id 1 ids a]; exact hwf₁.ids, fun w => hord w (hwf₁.ordered w)⟩
    have htables : cancelledTables row.id finishedAt row.workerId d =
        withJobs d ((d.jobs.map (atRow row.id (Job.cancelled finishedAt))).map (renumbered 1 ids)) := by
      rw [cancelledTables, hcancel, hren]
    refine refines_of (.ok (some (unplaced (row.cancelled finishedAt)))) _ ?_ hwf ?_
    · rw [QueueOp.run, atomically_failPendingJob, hrow]
      simp only [htables]
      rw [List.map_map, findJob_map h.ids hj fun a => by simp [atRow_id hf], Function.comp_apply, atRow_self]
      simp only [shown, Except.map, Option.map_some, unplaced_renumbered]
    · rw [QueueOp.spec, QueueState.failPending, hfind, hrow, map_renumbered_unplaced, hrows, hqueue]
      simp only [Option.map_some]
      congr 2
      funext w
      exact (queueIds_setRow_leaving h.ids hj row.workerId (fun w => by simp [hm, hs]) (hno row w)).symm

/-- The waiting rows of the worker move back by one. -/
def shifted (source : Option String) (j : Job) : Job :=
  if source.any fun w => j.pendingOn w then j.withOrder (j.queueOrder + 1) else j

theorem shifted_id (source : Option String) (j : Job) : (shifted source j).id = j.id := by
  unfold shifted
  split <;> rfl

theorem shifted_pendingOn (source : Option String) (j : Job) (w : String) :
    (shifted source j).pendingOn w = j.pendingOn w := by
  unfold shifted
  split <;> rfl

theorem unplaced_shifted (source : Option String) (j : Job) : unplaced (shifted source j) = unplaced j := by
  unfold shifted
  split <;> rfl

theorem shifted_queueOrder {source : Option String} {j : Job} {w : String} (hp : j.pendingOn w = true) :
    (shifted source j).queueOrder = j.queueOrder + if source = some w then 1 else 0 := by
  have hw : j.workerId = some w := (Job.pendingOn_iff.mp hp).2.1
  unfold shifted
  cases source with
  | none => simp
  | some w' =>
    by_cases hw' : w' = w
    · simp [hw', hp]
    · have hno : j.pendingOn w' = false := by
        simp only [Job.pendingOn, hw, Option.some.injEq, Ne.symm hw', decide_false, Bool.and_false, Bool.false_and]
      simp [hno, hw']

/-- A recovered job takes position 1 in front of jobs at later positions. -/
theorem prepend_recovered {jobs : List Job} (h : WellOrdered jobs) {row : Job} (hj : row ∈ jobs)
    (hm : row.queueManaged = true) (hs : row.status = .starting)
    (hlater : ∀ w, row.workerId = some w → ∀ a ∈ jobs, a.pendingOn w = true → 1 < a.queueOrder) :
    WellOrdered (jobs.map (atRow row.id Job.recovered)) ∧
      queueIds (jobs.map (atRow row.id Job.recovered)) =
        onQueue row.workerId (fun ids => row.id :: ids) (queueIds jobs) := by
  have hnot : ∀ w, row.pendingOn w = false := fun w => by simp [Job.pendingOn, hs]
  have hfid : ∀ a : Job, a.recovered.id = a.id := fun _ => rfl
  have hid := atRow_id hfid row.id
  have hother : ∀ a ∈ jobs, ∀ w, a.pendingOn w = true → atRow row.id Job.recovered a = a := by
    intro a ha w hpa
    refine atRow_of_ne _ fun har => ?_
    rw [eq_of_id_eq h.ids ha hj har, hnot] at hpa
    cases hpa
  have hrec : ∀ w, row.recovered.pendingOn w = true ↔ row.workerId = some w := fun w => by
    simp [Job.recovered, hm]
  -- A row that waits afterwards is the recovered one, or waited before at a later position.
  have hcases : ∀ a ∈ jobs, ∀ w, (atRow row.id Job.recovered a).pendingOn w = true →
      a = row ∧ (atRow row.id Job.recovered a).queueOrder = 1 ∨ atRow row.id Job.recovered a = a ∧
        a.pendingOn w = true ∧ (row.workerId = some w → 1 < a.queueOrder) := by
    intro a ha w hp
    by_cases har : a.id = row.id
    · cases eq_of_id_eq h.ids ha hj har
      exact .inl ⟨rfl, by rw [atRow_self]; rfl⟩
    · rw [atRow_of_ne _ har] at hp ⊢
      exact .inr ⟨rfl, hp, fun hw => hlater w hw a ha hp⟩
  have hwait : ∀ w, (atRow row.id Job.recovered row).pendingOn w = true → row.workerId = some w := fun w hp =>
    (hrec w).mp (by rwa [atRow_self] at hp)
  refine ⟨⟨by rw [map_ids fun a _ => hid a]; exact h.ids, fun w => ⟨?_, ?_⟩⟩, ?_⟩
  · intro b hb hpb
    obtain ⟨a, ha, rfl⟩ := List.mem_map.mp hb
    rcases hcases a ha w hpb with ⟨-, ho⟩ | ⟨heq, hpa, -⟩
    · omega
    · rw [heq]
      exact (h.ordered w).positive a ha hpa
  · intro b hb c hc hpb hpc hbc
    obtain ⟨a, ha, rfl⟩ := List.mem_map.mp hb
    obtain ⟨a', ha', rfl⟩ := List.mem_map.mp hc
    rcases hcases a ha w hpb with ⟨rfl, ho⟩ | ⟨heq, hpa, hlt⟩ <;>
      rcases hcases a' ha' w hpc with ⟨rfl, ho'⟩ | ⟨heq', hpa', hlt'⟩
    · rfl
    · have := hlt' (hwait w hpb)
      rw [heq'] at hbc
      omega
    · have := hlt (hwait w hpc)
      rw [heq] at hbc
      omega
    · rw [heq, heq'] at hbc ⊢
      exact (h.ordered w).distinct a ha a' ha' hpa hpa' hbc
  · funext w
    by_cases hw : row.workerId = some w
    · have hp : ∀ a ∈ jobs, (atRow row.id Job.recovered a).pendingOn w =
        (decide (a.id = row.id) || a.pendingOn w) := by
        intro a ha
        by_cases har : a.id = row.id
        · rw [eq_of_id_eq h.ids ha hj har, atRow_self, (hrec w).mpr hw]
          simp
        · rw [atRow_of_ne _ har]
          simp [har]
      rw [queueIds, queueOf_map_prepend h.ids hj 0 hp (hnot w) (fun a _ => hid a)
        (fun a ha hpa => by rw [hother a ha w hpa, Nat.add_zero])
        fun a ha hpa => by rw [hother a ha w hpa, atRow_self]; exact hlater w hw a ha hpa,
        onQueue, if_pos hw, List.map_cons, hid, List.map_map]
      exact congrArg _ (List.map_congr_left fun a _ => hid a)
    · rw [queueIds_setRow_leaving h.ids hj none (fun w => by simp [hnot]) ?_, onQueue, onQueue, if_neg hw]
      · rfl
      · exact Bool.eq_false_iff.mpr fun hp => hw ((hrec w).mp hp)

/-- Settling a claim without a return to the queue changes no list. -/
theorem refines_settle {op : QueueOp} {d : Tables} (h : WellOrdered d.jobs) {row : Job} (hj : row ∈ d.jobs)
    (hs : row.status = .starting) (f : Job → Job) (hf : ∀ a, (f a).id = a.id)
    (hno : ∀ a w, (f a).pendingOn w = false) (hfu : ∀ a, unplaced (f a) = f (unplaced a))
    (hrun : op.run d = shown (fun j => j) (.ok (findJob (withJobs d (setRow row.id f d.jobs)) row.id),
      withJobs d (setRow row.id f d.jobs)))
    (hspec : op.spec d.workers (queueState d) =
      (.ok (some (f (unplaced row))), ⟨setRow row.id f (queueState d).jobs, (queueState d).queue⟩)) :
    Refines op d := by
  refine refines_of (.ok (some (f (unplaced row)))) (d.jobs.map (atRow row.id f)) ?_
    (wellOrdered_setRow h hf hno) ?_
  · rw [hrun, setRow_eq_map, findJob_map h.ids hj (atRow_id hf row.id), atRow_self]
    simp only [shown, Except.map, Option.map_some, hfu]
  · have hqueue : queueIds (d.jobs.map (atRow row.id f)) = queueIds d.jobs := by
      funext w
      exact queueIds_setRow_leaving h.ids hj none (fun w => by simp [hs]) (hno row w)
    rw [hspec, map_atRow_unplaced f f hfu, hqueue]
    rfl

theorem refines_reconcileStartingJob {d : Tables} (h : WellOrdered d.jobs) (jobId : String) (launchObserved : Bool)
    (now : ℕ) : Refines (.reconcileStartingJob jobId launchObserved now) d := by
  have hfind : (queueState d).jobs.find? (startingRow jobId) = (d.jobs.find? (startingRow jobId)).map unplaced :=
    find?_unplaced (fun j => rfl) d.jobs
  cases hrow : d.jobs.find? (startingRow jobId) with
  | none =>
    refine refines_of (.ok none) d.jobs ?_ h ?_
    · rw [QueueOp.run, atomically_reconcileStartingJob, hrow]
      rfl
    · rw [QueueOp.spec, QueueState.reconcile, hfind, hrow]
      rfl
  | some row =>
    have hj := List.mem_of_find?_eq_some hrow
    have hst := List.find?_some hrow
    obtain ⟨rfl, hs⟩ := startingRow_iff.mp hst
    have hset : ∀ f, updateRows (startingRow row.id) f d.jobs = setRow row.id f d.jobs :=
      updateRows_eq_setRow h.ids hj hst fun a ha => (startingRow_iff.mp ha).1
    cases launchObserved with
    | true =>
      refine refines_settle h hj hs Job.launched (fun _ => rfl) (fun a w => by simp [Job.launched, Job.pendingOn])
        (fun _ => rfl) ?_ ?_
      · rw [QueueOp.run, atomically_reconcileStartingJob, hrow]
        simp only [reconciledTables, if_true, hset]
      · rw [QueueOp.spec, QueueState.reconcile, hfind, hrow]
        rfl
    | false =>
      cases hm : row.queueManaged with
      | false =>
        refine refines_settle h hj hs (Job.neverLaunched now) (fun _ => rfl)
          (fun a w => by simp [Job.neverLaunched, Job.pendingOn]) (fun _ => rfl) ?_ ?_
        · rw [QueueOp.run, atomically_reconcileStartingJob, hrow]
          simp only [reconciledTables, hm, Bool.false_eq_true, if_false, hset]
        · rw [QueueOp.spec, QueueState.reconcile, hfind, hrow]
          simp [hm]
      | true =>
        -- The waiting rows move back, then the job takes position 1.
        have hnot : ∀ w, row.pendingOn w = false := fun w => by simp [Job.pendingOn, hs]
        have hwf : WellOrdered (d.jobs.map (shifted row.workerId)) := by
          refine ⟨by rw [map_ids fun a _ => shifted_id row.workerId a]; exact h.ids, fun w => ?_⟩
          refine (h.ordered w).map (if row.workerId = some w then 1 else 0) (fun a _ => shifted_id row.workerId a)
            fun a _ hp => ?_
          rw [shifted_pendingOn] at hp
          exact ⟨hp, shifted_queueOrder hp⟩
        have hqueue : queueIds (d.jobs.map (shifted row.workerId)) = queueIds d.jobs := by
          funext w
          rw [queueIds, queueOf_map_shift (if row.workerId = some w then 1 else 0)
            (fun a _ => shifted_pendingOn row.workerId a w) (fun a _ => shifted_id row.workerId a)
            fun a _ hp => shifted_queueOrder hp, List.map_map]
          exact List.map_congr_left fun a _ => shifted_id row.workerId a
        have hself : shifted row.workerId row = row := by
          rw [shifted, if_neg (by cases row.workerId <;> simp [hnot])]
        have hj' : row ∈ d.jobs.map (shifted row.workerId) := List.mem_map.mpr ⟨row, hj, hself⟩
        obtain ⟨hwf', hqueue'⟩ := prepend_recovered hwf hj' hm hs fun w hw a ha hp => by
          obtain ⟨b, hb, rfl⟩ := List.mem_map.mp ha
          rw [shifted_pendingOn] at hp
          have := (h.ordered w).positive b hb hp
          rw [shifted_queueOrder hp, if_pos hw]
          omega
        have hrows : ((d.jobs.map (shifted row.workerId)).map (atRow row.id Job.recovered)).map unplaced =
            setRow row.id (unplaced ∘ Job.recovered) (d.jobs.map unplaced) := by
          rw [map_atRow_unplaced Job.recovered (unplaced ∘ Job.recovered) fun _ => rfl, List.map_map]
          exact congrArg _ (List.map_congr_left fun a _ => unplaced_shifted row.workerId a)
        have hsel : updateRows (fun j => startingRow row.id j && j.queueManaged) Job.recovered
            (d.jobs.map (shifted row.workerId)) = setRow row.id Job.recovered (d.jobs.map (shifted row.workerId)) :=
          updateRows_eq_setRow hwf.ids hj' (by simp [hst, hm])
            (fun a ha => (startingRow_iff.mp (Bool.and_eq_true_iff.mp ha).1).1) _
        have hids : ∀ a, ((atRow row.id Job.recovered ∘ shifted row.workerId) a).id = a.id := fun a => by
          have hfid : ∀ a : Job, a.recovered.id = a.id := fun _ => rfl
          rw [Function.comp_apply, atRow_id hfid, shifted_id]
        refine refines_of (.ok (some (unplaced row.recovered))) _ ?_ hwf' ?_
        · have htables : reconciledTables row false now d =
              withJobs d ((d.jobs.map (shifted row.workerId)).map (atRow row.id Job.recovered)) := by
            simp only [reconciledTables, hm, Bool.false_eq_true, if_false, if_true]
            rw [← setRow_eq_map, ← hsel]
            rfl
          rw [QueueOp.run, atomically_reconcileStartingJob, hrow]
          simp only [htables]
          rw [List.map_map, findJob_map h.ids hj hids,
            Function.comp_apply, hself, atRow_self]
          rfl
        · rw [QueueOp.spec, QueueState.reconcile, hfind, hrow, hrows, hqueue', hqueue]
          simp only [Option.map_some, Bool.false_eq_true, if_false, unplaced_queueManaged, hm, if_true]
          rfl

theorem placedAt_perm (position : Option ℕ) (id : String) (ids : List String) :
    (placedAt position id ids).Perm (id :: ids) := by
  unfold placedAt
  split
  · exact List.perm_insertIdx id ids le_rfl
  · exact List.perm_insertIdx id ids (min_le_right _ _)

theorem otherIds_perm {id : String} {ids : List String} (hd : ids.Nodup) (h : id ∈ ids) :
    (id :: otherIds id ids).Perm ids := by
  have herase : otherIds id ids = ids.erase id := by
    rw [hd.erase_eq_filter, otherIds]
    refine List.filter_congr fun a _ => ?_
    by_cases ha : a = id <;> simp [ha]
  rw [herase]
  exact (List.perm_cons_erase h).symm

theorem otherIds_nodup {id : String} {ids : List String} (hd : ids.Nodup) : (id :: otherIds id ids).Nodup :=
  List.nodup_cons.mpr ⟨fun h => by simpa using (List.mem_filter.mp h).2, hd.filter _⟩

/-- Putting a job back at the index where it was found changes nothing. -/
theorem insertIdx_otherIds {id : String} {ids : List String} {index : ℕ} (hd : ids.Nodup)
    (h : ids.findIdx? (fun a => a = id) = some index) : (otherIds id ids).insertIdx index id = ids := by
  induction ids generalizing index with
  | nil => simp at h
  | cons a ids ih =>
    obtain ⟨hnot, hd⟩ := List.nodup_cons.mp hd
    rw [List.findIdx?_cons] at h
    by_cases ha : a = id
    · subst ha
      have hsame : otherIds a (a :: ids) = ids := by
        rw [otherIds, List.filter_cons_of_neg (by simp)]
        exact List.filter_eq_self.mpr fun b hb => by simpa using fun he : b = a => hnot (he ▸ hb)
      simp only [decide_true, if_true, Option.some.injEq] at h
      rw [hsame, ← h, List.insertIdx_zero]
    · simp only [ha, decide_false, Bool.false_eq_true, if_false, Option.map_eq_some_iff] at h
      obtain ⟨i, hi, rfl⟩ := h
      have hrest : otherIds id (a :: ids) = a :: otherIds id ids := by
        rw [otherIds, List.filter_cons_of_pos (by simpa using ha), otherIds]
      rw [hrest, List.insertIdx_succ_cons, ih hd hi]

/-- The waiting rows of the destination after a row has arrived there. -/
theorem pending_arriving {jobs : List Job} (h : (jobs.map (·.id)).Nodup) {f : Job → Job} {j : Job} (hj : j ∈ jobs)
    (hf : ∀ a, (f a).id = a.id) {w : String} (hw : (f j).pendingOn w = true) :
    (((jobs.map (atRow j.id f)).filter (Job.pendingOn w)).map (·.id)).Perm
    (j.id :: otherIds j.id (queueIds jobs w)) := by
  have hnodup : (((jobs.map (atRow j.id f)).filter (Job.pendingOn w)).map (·.id)).Nodup := by
    have hall : ((jobs.map (atRow j.id f)).map (·.id)).Nodup := by
      rw [map_ids fun a _ => atRow_id hf j.id a]
      exact h
    exact hall.sublist (List.filter_sublist.map _)
  refine (List.perm_ext_iff_of_nodup hnodup (otherIds_nodup (queueIds_nodup h))).mpr fun id => ?_
  simp only [List.mem_map, List.mem_filter, List.mem_cons, otherIds, decide_eq_true_eq, mem_queueIds]
  constructor
  · rintro ⟨_, ⟨⟨a, ha, rfl⟩, hp⟩, rfl⟩
    by_cases haj : a.id = j.id
    · exact .inl (by rw [atRow_id hf, haj])
    · rw [atRow_of_ne f haj] at hp ⊢
      exact .inr ⟨⟨a, ha, hp, rfl⟩, haj⟩
  · rintro (rfl | ⟨⟨a, ha, hp, rfl⟩, haj⟩)
    · exact ⟨f j, ⟨⟨j, hj, atRow_self f j⟩, hw⟩, hf j⟩
    · exact ⟨a, ⟨⟨a, ha, atRow_of_ne f haj⟩, hp⟩, rfl⟩

structure EditEffect (row : Job) (f : Job → Job) (jobs jobs' : List Job) (queue : String → List String) : Prop where
  rows : ∃ g : Job → Job, jobs' = jobs.map g ∧ (∀ a, (g a).id = a.id) ∧
    ∀ a, unplaced (g a) = unplaced (atRow row.id f a)
  queue : queueIds jobs' = queue
  wellOrdered : WellOrdered jobs'

/-- Renumbering the destination list completes an edit. -/
theorem EditEffect.of_renumbered {jobs : List Job} (h : (jobs.map (·.id)).Nodup) {row : Job} {f g : Job → Job}
    (hg : ∀ a, (g a).id = a.id) (hgu : ∀ a, unplaced (g a) = unplaced (atRow row.id f a)) {w : String}
    {ids : List String} (hd : ids.Nodup)
    (hp : ids.Perm (((jobs.map g).filter (Job.pendingOn w)).map (·.id)))
    (ho : ∀ w', some w ≠ some w' → OrderedOn (jobs.map g) w') :
    EditEffect row f jobs ((jobs.map g).map (renumbered 1 ids))
      (onQueue (some w) (fun _ => ids) (queueIds (jobs.map g))) := by
  have hids : ((jobs.map g).map (·.id)).Nodup := by
    rw [map_ids fun a _ => hg a]
    exact h
  refine ⟨⟨renumbered 1 ids ∘ g, List.map_map, fun a => ?_, fun a => ?_⟩, queueIds_renumbered_at hids hd hp,
    ordered_renumbered_at hids hp ho⟩
  · rw [Function.comp_apply, renumbered_id, hg]
  · rw [Function.comp_apply, unplaced_renumbered, hgu]

section Edits

variable {d : Tables} (h : WellOrdered d.jobs) {row : Job} (hj : row ∈ d.jobs) (hm : row.queueManaged = true)
  (hs : row.status = .pending) (position : Option ℕ) (name : Option String) (expectedSeconds gpuCount : Option ℕ)

include h hj hm hs

theorem edited_rows (destination : Option String) :
    updateRows (pendingRow row.id) (Job.edited row destination name expectedSeconds gpuCount) d.jobs =
      d.jobs.map (atRow row.id (Job.edited row destination name expectedSeconds gpuCount)) := by
  rw [updateRows_eq_setRow h.ids hj (pendingRow_iff.mpr ⟨rfl, hm, hs⟩) (fun a ha => (pendingRow_iff.mp ha).1),
    setRow_eq_map]

/-- An edit on the same worker rewrites its list. -/
theorem edit_in_place {w : String} (hw : row.workerId = some w) {ids : List String}
    (hp : ids.Perm (queueIds d.jobs w)) (sourceIds : List String) :
    EditEffect row (Job.edited row (some w) name expectedSeconds gpuCount) d.jobs
      (editedJobs row (some w) sourceIds ids name expectedSeconds gpuCount d.jobs)
      (onQueue (some w) (fun _ => ids) (queueIds d.jobs)) := by
  have hd : ids.Nodup := hp.nodup_iff.mpr (queueIds_nodup h.ids)
  have hf : ∀ a, (Job.edited row (some w) name expectedSeconds gpuCount a).id = a.id := fun _ => rfl
  have hself : ∀ a ∈ d.jobs, ∀ w',
    (atRow row.id (Job.edited row (some w) name expectedSeconds gpuCount) a).pendingOn w' =
      a.pendingOn w' := by
    intro a ha w'
    by_cases har : a.id = row.id
    · rw [eq_of_id_eq h.ids ha hj har, atRow_self]
      exact Bool.eq_iff_iff.mpr (by simp [Job.edited, hw])
    · rw [atRow_of_ne _ har]
  have horder : ∀ a, (atRow row.id (Job.edited row (some w) name expectedSeconds gpuCount) a).queueOrder =
      a.queueOrder + 0 := by
    intro a
    unfold atRow
    split <;> rfl
  have hqueue : queueIds (d.jobs.map (atRow row.id (Job.edited row (some w) name expectedSeconds gpuCount))) =
      queueIds d.jobs := by
    funext w'
    rw [queueIds, queueOf_map_shift 0 (fun a ha => hself a ha w') (fun a _ => atRow_id hf row.id a)
      fun a _ _ => horder a, List.map_map]
    exact List.map_congr_left fun a _ => atRow_id hf row.id a
  have hperm : ids.Perm (((d.jobs.map (atRow row.id (Job.edited row (some w) name expectedSeconds gpuCount))).filter
      (Job.pendingOn w)).map (·.id)) := by
    refine hp.trans ?_
    rw [← hqueue]
    exact queueIds_perm _ w
  have heffect := EditEffect.of_renumbered h.ids (atRow_id hf row.id) (fun _ => rfl) hd hperm fun w' _ =>
    (h.ordered w').map 0 (fun a _ => atRow_id hf row.id a) fun a ha hpa =>
      ⟨by rwa [hself a ha w'] at hpa, horder a⟩
  rw [hqueue] at heffect
  rw [editedJobs, edited_rows h hj hm hs, hw]
  simp only [ne_eq, not_true_eq_false, if_false]
  rwa [renumberFrom_eq hd]

/-- A move rewrites the list that the job leaves and the list that it joins. -/
theorem edit_moved {w : String} (hw : row.workerId ≠ some w) :
    EditEffect row (Job.edited row (some w) name expectedSeconds gpuCount) d.jobs
      (editedJobs row (some w) (otherIds row.id (pendingIds d row.workerId))
        (placedAt position row.id (queueIds d.jobs w))
        name expectedSeconds gpuCount d.jobs)
      (onQueue (some w) (placedAt position row.id) (onQueue row.workerId (otherIds row.id) (queueIds d.jobs))) := by
  have hf : ∀ a, (Job.edited row (some w) name expectedSeconds gpuCount a).id = a.id := fun _ => rfl
  have hrow : ∀ w', (Job.edited row (some w) name expectedSeconds gpuCount row).pendingOn w' = true ↔
      some w = some w' := fun w' => by simp [Job.edited, hm, hs]
  have hsource : ∀ w', row.workerId = some w' ↔ row.pendingOn w' = true := fun w' => by simp [hm, hs]
  -- Before any renumbering: every list but the destination has lost the job.
  have hleave : ∀ w', some w ≠ some w' →
      queueIds (d.jobs.map (atRow row.id (Job.edited row (some w) name expectedSeconds gpuCount))) w' =
        onQueue row.workerId (otherIds row.id) (queueIds d.jobs) w' := fun w' hw' =>
    queueIds_setRow_leaving h.ids hj row.workerId hsource (Bool.eq_false_iff.mpr fun hp => hw' ((hrow w').mp hp))
  have hsourceIds : pendingIds (withJobs d (d.jobs.map
      (atRow row.id (Job.edited row (some w) name expectedSeconds gpuCount)))) row.workerId =
      otherIds row.id (pendingIds d row.workerId) := by
    cases hr : row.workerId with
    | none => rfl
    | some ws =>
      have hl := hleave ws fun he => hw (hr.trans he.symm)
      rw [hr, onQueue, if_pos rfl] at hl
      exact hl
  have hids₁ : ((d.jobs.map (atRow row.id (Job.edited row (some w) name expectedSeconds gpuCount))).map
      (·.id)).Nodup := by
    rw [map_ids fun a _ => atRow_id hf row.id a]
    exact h.ids
  obtain ⟨ids₁, hren, hqueue₁, hord₁⟩ := renumber_in_place hids₁ d row.workerId
  rw [hsourceIds] at hren
  rw [List.map_map] at hqueue₁ hren hord₁
  have hw' : otherIds row.id (queueIds d.jobs w) = queueIds d.jobs w := by
    refine List.filter_eq_self.mpr fun id hid => ?_
    obtain ⟨a, ha, hpa, rfl⟩ := mem_queueIds.mp hid
    rw [decide_eq_true_eq]
    intro har
    rw [eq_of_id_eq h.ids ha hj har] at hpa
    exact hw ((hsource w).mpr hpa)
  have hnew : (row.id :: queueIds d.jobs w).Perm
      (((d.jobs.map (renumbered 1 ids₁ ∘ atRow row.id
        (Job.edited row (some w) name expectedSeconds gpuCount))).filter
        (Job.pendingOn w)).map (·.id)) := by
    have harrive := pending_arriving h.ids hj hf ((hrow w).mpr rfl)
    rw [hw'] at harrive
    refine harrive.symm.trans ((queueIds_perm _ w).symm.trans ?_)
    rw [← hqueue₁]
    exact queueIds_perm _ w
  have hplaced := (placedAt_perm position row.id (queueIds d.jobs w)).trans hnew
  have hd : (placedAt position row.id (queueIds d.jobs w)).Nodup := by
    refine (placedAt_perm position row.id (queueIds d.jobs w)).nodup_iff.mpr ?_
    rw [← hw']
    exact otherIds_nodup (queueIds_nodup h.ids)
  have heffect := EditEffect.of_renumbered (f := Job.edited row (some w) name expectedSeconds gpuCount) h.ids
    (fun a => by rw [Function.comp_apply, renumbered_id, atRow_id hf row.id])
    (fun a => by rw [Function.comp_apply, unplaced_renumbered]) hd hplaced fun w'' hw'' =>
      hord₁ w'' ((h.ordered w'').map 0 (fun a _ => atRow_id hf row.id a) fun a ha hpa => by
        by_cases har : a.id = row.id
        · rw [eq_of_id_eq h.ids ha hj har, atRow_self] at hpa
          exact absurd ((hrow w'').mp hpa) hw''
        · rw [atRow_of_ne _ har] at hpa ⊢
          exact ⟨hpa, rfl⟩)
  have hqueue : onQueue (some w) (fun _ => placedAt position row.id (queueIds d.jobs w))
      (queueIds (d.jobs.map (renumbered 1 ids₁ ∘ atRow row.id
        (Job.edited row (some w) name expectedSeconds gpuCount)))) =
      onQueue (some w) (placedAt position row.id) (onQueue row.workerId (otherIds row.id) (queueIds d.jobs)) := by
    rw [hqueue₁]
    funext w''
    by_cases hw'' : some w = some w''
    · cases hw''
      simp only [onQueue, if_true, if_neg hw]
    · rw [onQueue, if_neg hw'', hleave w'' hw'']
      conv_rhs => rw [onQueue, if_neg hw'']
  rw [hqueue] at heffect
  rw [editedJobs, edited_rows h hj hm hs]
  simp only [ne_eq, if_pos (show ¬some w = row.workerId from fun he => hw he.symm)]
  rwa [hren, renumberFrom_eq hd]

end Edits

/-- An edit whose row changes are known refines the list operation. -/
theorem refines_of_editEffect {d : Tables} (h : WellOrdered d.jobs) {op : QueueOp} {row : Job} (hj : row ∈ d.jobs)
    {f : Job → Job} (hfu : ∀ a, unplaced (f a) = f (unplaced a)) {jobs : List Job} {queue : String → List String}
    (heff : EditEffect row f d.jobs jobs queue)
    (hrun : ∀ updated, findJob (withJobs d jobs) row.id = some updated →
      op.run d = (.ok (some (unplaced updated)), withJobs d jobs))
    (hspec : op.spec d.workers (queueState d) =
      (.ok (some (f (unplaced row))), ⟨setRow row.id f (queueState d).jobs, queue⟩)) : Refines op d := by
  obtain ⟨⟨g, rfl, hg, hgu⟩, hqueue, hwf⟩ := heff
  refine refines_of (.ok (some (f (unplaced row)))) _ ?_ hwf ?_
  · rw [hrun (g row) (findJob_map h.ids hj hg), hgu, atRow_self, hfu]
  · rw [hspec, hqueue]
    have hrows : (d.jobs.map g).map unplaced = (d.jobs.map (atRow row.id f)).map unplaced := by
      rw [List.map_map, List.map_map]
      exact List.map_congr_left fun a _ => hgu a
    rw [hrows, map_atRow_unplaced f f hfu]
    rfl

/-- On the same worker the planned list is a reordering of the list. -/
theorem planned_in_place {d : Tables} (h : WellOrdered d.jobs) {id w : String} (hmem : id ∈ queueIds d.jobs w)
    (position : Option ℕ) : ∃ ids, plannedIds id position (some w) (some w) d = some ids ∧
      ids.Perm (queueIds d.jobs w) ∧
      (if some w = some w ∧ position = none then queueIds d.jobs
        else onQueue (some w) (placedAt position id) (onQueue (some w) (otherIds id) (queueIds d.jobs))) =
      onQueue (some w) (fun _ => ids) (queueIds d.jobs) := by
  have hd := queueIds_nodup h.ids (w := w)
  by_cases hpos : position = none
  · have hsome : ((queueIds d.jobs w).findIdx? fun a => a = id).isSome := by simpa using hmem
    obtain ⟨index, hindex⟩ := Option.isSome_iff_exists.mp hsome
    have hindex' : (pendingIds d (some w)).findIdx? (fun a => a = id) = some index := hindex
    refine ⟨queueIds d.jobs w, ?_, List.Perm.refl _, ?_⟩
    · rw [plannedIds, if_pos rfl, if_pos hpos, hindex', Option.map_some]
      exact congrArg some (insertIdx_otherIds hd hindex)
    · rw [if_pos ⟨rfl, hpos⟩]
      funext w'
      by_cases hw' : some w = some w'
      · cases hw'
        simp only [onQueue, if_true]
      · simp only [onQueue, if_neg hw']
  · refine ⟨placedAt position id (otherIds id (queueIds d.jobs w)), ?_,
      (placedAt_perm position id _).trans (otherIds_perm hd hmem), ?_⟩
    · rw [plannedIds, if_pos rfl, if_neg hpos]
      rfl
    · rw [if_neg fun hc => hpos hc.2]
      funext w'
      by_cases hw' : some w = some w'
      · cases hw'
        simp only [onQueue, if_true]
      · simp only [onQueue, if_neg hw']

theorem refines_updatePendingJob {d : Tables} (h : WellOrdered d.jobs) (jobId : String) (workerId : Option String)
    (position : Option ℕ) (name : Option String) (expectedSeconds gpuCount : Option ℕ) :
    Refines (.updatePendingJob jobId workerId position name expectedSeconds gpuCount) d := by
  have hfind : (queueState d).jobs.find? (fun j => decide (j.id = jobId) && j.queueManaged) =
      (d.jobs.find? fun j => decide (j.id = jobId) && j.queueManaged).map unplaced :=
    find?_unplaced (fun j => rfl) d.jobs
  have hrun : QueueOp.run d (.updatePendingJob jobId workerId position name expectedSeconds gpuCount) =
      shown some (atomically (updatePendingJob jobId workerId position name expectedSeconds gpuCount) d) := rfl
  have hspec : QueueOp.spec d.workers (queueState d)
      (.updatePendingJob jobId workerId position name expectedSeconds gpuCount) =
      (queueState d).edit d.workers jobId workerId position name expectedSeconds gpuCount := rfl
  rw [atomically_updatePendingJob] at hrun
  rw [QueueState.edit, hfind] at hspec
  cases hrow : d.jobs.find? fun j => decide (j.id = jobId) && j.queueManaged with
  | none =>
    rw [hrow] at hrun hspec
    exact refines_of (.error (.keyError jobId)) d.jobs hrun h hspec
  | some row =>
    have hj := List.mem_of_find?_eq_some hrow
    have hid := List.find?_some hrow
    simp only [Bool.and_eq_true, decide_eq_true_eq] at hid
    obtain ⟨rfl, hm⟩ := hid
    rw [hrow] at hrun hspec
    simp only [Option.map_some] at hrun hspec
    by_cases hs : row.status = .pending
    swap
    · rw [if_pos hs] at hrun
      rw [if_pos (show (unplaced row).status ≠ .pending from hs)] at hspec
      exact refines_of _ d.jobs hrun h hspec
    rw [if_neg (not_not_intro hs)] at hrun
    rw [if_neg (show ¬(unplaced row).status ≠ .pending from not_not_intro hs)] at hspec
    cases hdest : (destinationOf workerId row).bind (findWorker d) with
    | none =>
      have hdest' : (destinationOf workerId (unplaced row)).bind
          (fun w => d.workers.find? fun wk => wk.id = w) = none := hdest
      rw [hdest] at hrun
      rw [hdest'] at hspec
      exact refines_of _ d.jobs hrun h hspec
    | some destination =>
      have hdest' : (destinationOf workerId (unplaced row)).bind
          (fun w => d.workers.find? fun wk => wk.id = w) = some destination := hdest
      rw [hdest] at hrun
      rw [hdest'] at hspec
      simp only at hrun hspec
      by_cases hcap : gpuCount.getD row.gpuCount > destination.gpuCount
      · rw [if_pos hcap] at hrun
        rw [if_pos (show gpuCount.getD (unplaced row).gpuCount > destination.gpuCount from hcap)] at hspec
        exact refines_of _ d.jobs hrun h hspec
      rw [if_neg hcap] at hrun
      rw [if_neg (show ¬gpuCount.getD (unplaced row).gpuCount > destination.gpuCount from hcap)] at hspec
      -- The destination worker exists, so the destination is one.
      obtain ⟨w, hw, -⟩ := Option.bind_eq_some_iff.mp hdest
      rw [hw] at hrun
      have hfu : ∀ a, unplaced (Job.edited row (some w) name expectedSeconds gpuCount a) =
          Job.edited row (some w) name expectedSeconds gpuCount (unplaced a) := fun _ => rfl
      have hspec' : QueueOp.spec d.workers (queueState d)
          (.updatePendingJob row.id workerId position name expectedSeconds gpuCount) =
          (.ok (some (Job.edited row (some w) name expectedSeconds gpuCount (unplaced row))),
            ⟨setRow row.id (Job.edited row (some w) name expectedSeconds gpuCount) (queueState d).jobs,
              if some w = row.workerId ∧ position = none then queueIds d.jobs
              else onQueue (some w) (placedAt position row.id)
                (onQueue row.workerId (otherIds row.id) (queueIds d.jobs))⟩) := by
        rw [← hw]
        exact hspec
      by_cases hmoved : some w = row.workerId
      · have hmem : row.id ∈ queueIds d.jobs w :=
          mem_queueIds.mpr ⟨row, hj, by simp [hm, hs, ← hmoved], rfl⟩
        obtain ⟨ids, hplan, hperm, hqueue⟩ := planned_in_place h hmem position
        rw [← hmoved, hplan] at hrun
        rw [← hmoved, hqueue] at hspec'
        refine refines_of_editEffect h hj hfu
          (edit_in_place h hj hm hs name expectedSeconds gpuCount hmoved.symm hperm
          (otherIds row.id (pendingIds d row.workerId))) ?_ hspec'
        intro updated hup
        have hup' : findJob (editedTables row (some w) ids name expectedSeconds gpuCount d) row.id =
          some updated := hup
        rw [hrun]
        simp only [hup']
        rfl
      · have hne : row.workerId ≠ some w := fun he => hmoved he.symm
        rw [if_neg fun hc => hmoved hc.1] at hspec'
        rw [plannedIds, if_neg hmoved] at hrun
        refine refines_of_editEffect h hj hfu
          (edit_moved h hj hm hs position name expectedSeconds gpuCount hne) ?_ hspec'
        intro updated hup
        rw [hrun]
        simp only
        have hup' : findJob (editedTables row (some w) (placedAt position row.id (pendingIds d (some w))) name
          expectedSeconds gpuCount d) row.id = some updated := hup
        rw [hup']
        rfl

theorem refines_insertJob {d : Tables} (h : WellOrdered d.jobs) {job : Job} (hjob : job.queueManaged = false) :
    Refines (.insertJob job) d := by
  have hno : ∀ w, job.pendingOn w = false := fun w => by simp [Job.pendingOn, hjob]
  have hspec : QueueOp.spec d.workers (queueState d) (.insertJob job) = (queueState d).insertJob job := rfl
  have hany : (queueState d).jobs.any (fun j => j.id = job.id) = d.jobs.any fun j => j.id = job.id :=
    any_unplaced d.jobs job.id
  rw [QueueState.insertJob, hany] at hspec
  have hrun : QueueOp.run d (.insertJob job) = shown (fun _ => none) (atomically (Database.insertJob job) d) := rfl
  rw [atomically_insertJob] at hrun
  cases htaken : d.jobs.any fun j => j.id = job.id with
  | true =>
    rw [if_pos htaken] at hrun hspec
    exact refines_of (.error .integrityError) d.jobs hrun h hspec
  | false =>
    rw [if_neg (by simp [htaken])] at hrun hspec
    refine refines_of (.ok none) (d.jobs ++ [job]) hrun
      (wellOrdered_append h htaken fun w hp => by simp [hno w] at hp) ?_
    have hqueue : queueIds (d.jobs ++ [job]) = queueIds d.jobs := by
      funext w
      rw [queueIds, queueOf_append_other (hno w), queueIds]
    rw [hspec, hqueue, List.map_append]
    rfl

theorem refines_updateJob {d : Tables} (h : WellOrdered d.jobs) {job : Job}
    (hjob : ∀ w, job.pendingOn w = false ∧ ∀ j ∈ d.jobs, j.id = job.id → j.pendingOn w = false) :
    Refines (.updateJob job) d := by
  have hrow : ∀ j ∈ d.jobs, ∀ w, (atRow job.id (fun _ => job) j).pendingOn w = j.pendingOn w := by
    intro j hj w
    by_cases hid : j.id = job.id
    · rw [atRow, if_pos hid, (hjob w).1, (hjob w).2 j hj hid]
    · rw [atRow_of_ne _ hid]
  have hids : ∀ j, (atRow job.id (fun _ => job) j).id = j.id := by
    intro j
    by_cases hid : j.id = job.id
    · rw [atRow, if_pos hid, hid]
    · rw [atRow_of_ne _ hid]
  have hfix : ∀ j ∈ d.jobs, ∀ w, j.pendingOn w = true → atRow job.id (fun _ => job) j = j := by
    intro j hj w hp
    refine atRow_of_ne _ fun hid => ?_
    rw [(hjob w).2 j hj hid] at hp
    cases hp
  refine refines_of (.ok none) (d.jobs.map (atRow job.id fun _ => job)) ?_ ?_ ?_
  · rw [QueueOp.run, atomically_updateJob, ← setRow_eq_map]
    rfl
  · refine ⟨by rw [map_ids fun a _ => hids a]; exact h.ids, fun w => (h.ordered w).map 0 (fun a _ => hids a)
      fun a ha hp => ?_⟩
    rw [hrow a ha w] at hp
    exact ⟨hp, by rw [hfix a ha w hp, Nat.add_zero]⟩
  · have hqueue : queueIds (d.jobs.map (atRow job.id fun _ => job)) = queueIds d.jobs := by
      funext w
      rw [queueIds, queueOf_map_of_fixed (fun j hj => hrow j hj w) fun j hj => hfix j hj w, queueIds]
    rw [map_atRow_unplaced (fun _ => job) (fun _ => unplaced job) fun _ => rfl, hqueue]
    rfl

/-- A method that leaves the job table as it is. -/
theorem refines_of_jobs_eq {op : QueueOp} {d : Tables} (h : WellOrdered d.jobs) (hok : (op.run d).1 = .ok none)
    (hjobs : (op.run d).2.jobs = d.jobs) (hspec : op.spec d.workers (queueState d) = (.ok none, queueState d)) :
    Refines op d := by
  rw [Refines, hspec, hok, queueState, hjobs]
  exact ⟨h, rfl⟩

theorem refines_upsertWorker {d : Tables} (h : WellOrdered d.jobs) (reg : WorkerRegistration) (now : ℕ) :
    Refines (.upsertWorker reg now) d := by
  cases hw : findWorker d reg.workerId with
  | some worker =>
    refine refines_of_jobs_eq h ?_ ?_ rfl <;>
      simp [QueueOp.run, shown, atomically, upsertWorker, getWorker, hw, update, workersTable, Except.map]
  | none =>
    have hfree : ¬∃ w ∈ d.workers, w.id = (Worker.fromRegistration reg now).id := by
      rintro ⟨w, hmem, hid⟩
      have := List.find?_eq_none.mp hw w hmem
      simp [hid, Worker.fromRegistration] at this
    refine refines_of_jobs_eq h ?_ ?_ rfl <;>
      simp [QueueOp.run, shown, atomically, upsertWorker, getWorker, hw, insertInto, workersTable,
        Except.map, hfree]

theorem refines_deleteWorker {d : Tables} (h : WellOrdered d.jobs) (workerId : String) :
    Refines (.deleteWorker workerId) d := by
  let keep : Job → Bool := fun j => !decide (j.workerId = some workerId)
  have hqueue : queueIds (d.jobs.filter keep) = onQueue (some workerId) (fun _ => []) (queueIds d.jobs) := by
    funext w
    by_cases hw : some workerId = some w
    · cases hw
      have hnil : (d.jobs.filter keep).filter (Job.pendingOn workerId) = [] := by
        simp only [List.filter_filter, List.filter_eq_nil_iff, keep]
        intro j _
        simp only [Bool.and_eq_true, Bool.not_eq_true', decide_eq_false_iff_not, Job.pendingOn_iff]
        exact fun hc => hc.2 hc.1.2.1
      simp only [onQueue, if_true, queueIds, queueOf, hnil]
      rfl
    · have hsame : (d.jobs.filter keep).filter (Job.pendingOn w) = d.jobs.filter (Job.pendingOn w) := by
        rw [List.filter_filter]
        refine List.filter_congr fun j _ => ?_
        cases hp : j.pendingOn w with
        | false => rfl
        | true =>
          have hjw : j.workerId = some w := (Job.pendingOn_iff.mp hp).2.1
          simp only [keep, hjw, Bool.true_and, Bool.not_eq_true', decide_eq_false_iff_not]
          exact fun he => hw he.symm
      simp only [onQueue, if_neg hw, queueIds, queueOf, hsame]
  have hwf : WellOrdered (d.jobs.filter keep) := by
    refine ⟨h.ids.sublist (List.filter_sublist.map _), fun w => ⟨fun j hj hp => ?_, fun a ha b hb => ?_⟩⟩
    · exact (h.ordered w).positive j (List.mem_of_mem_filter hj) hp
    · exact (h.ordered w).distinct a (List.mem_of_mem_filter ha) b (List.mem_of_mem_filter hb)
  have hjobs : (QueueOp.run d (.deleteWorker workerId)).2.jobs = d.jobs.filter keep := rfl
  have hok : (QueueOp.run d (.deleteWorker workerId)).1 = .ok none := rfl
  rw [Refines, hjobs, hok, queueState, hjobs, hqueue]
  refine ⟨hwf, ?_⟩
  have hrows : (d.jobs.filter keep).map unplaced = (d.jobs.map unplaced).filter fun j =>
    j.workerId ≠ some workerId := by
    rw [List.filter_map]
    exact congrArg _ (List.filter_congr fun j _ => by by_cases hj : j.workerId = some workerId <;> simp [keep, hj])
  rw [hrows]
  rfl

/-- Every operation, from well-ordered rows, refines its list operation. -/
theorem refines_of_valid {d : Tables} (h : WellOrdered d.jobs) {op : QueueOp} (hop : op.Valid d) :
    Refines op d := by
  cases op with
  | insertQueuedJob job => exact refines_insertQueuedJob h job
  | claimQueuedJob jobId gpuIndices startedAt workerId =>
    exact refines_claimQueuedJob h jobId gpuIndices startedAt workerId
  | updatePendingJob jobId workerId position name expectedSeconds gpuCount =>
    exact refines_updatePendingJob h jobId workerId position name expectedSeconds gpuCount
  | failPendingJob jobId finishedAt => exact refines_failPendingJob h jobId finishedAt
  | reconcileStartingJob jobId launchObserved now => exact refines_reconcileStartingJob h jobId launchObserved now
  | insertJob job => exact refines_insertJob h hop
  | updateJob job => exact refines_updateJob h hop
  | upsertWorker reg now => exact refines_upsertWorker h reg now
  | pruneWorkers olderThanTs => exact refines_of_jobs_eq h rfl rfl rfl
  | deleteWorker workerId => exact refines_deleteWorker h workerId

/-- Every table that valid operations produce is well ordered. -/
theorem QueueRun.wellOrdered {d : Tables} (h : QueueRun d) : WellOrdered d.jobs := by
  induction h with
  | empty => exact ⟨List.nodup_nil, fun w => ⟨by simp, by simp⟩⟩
  | step _ hop ih => exact (refines_of_valid ih hop).1

/-- A raising edit leaves the tables as they were. -/
theorem updatePendingJob_error {d : Tables} (h : WellOrdered d.jobs) {jobId : String} {workerId : Option String}
    {position : Option ℕ} {name : Option String} {expectedSeconds gpuCount : Option ℕ} {e : DbError}
    (he : (QueueOp.run d (.updatePendingJob jobId workerId position name expectedSeconds gpuCount)).1 = .error e) :
    (QueueOp.run d (.updatePendingJob jobId workerId position name expectedSeconds gpuCount)).2 = d := by
  have hrefines := congrArg Prod.fst
    (refines_updatePendingJob h jobId workerId position name expectedSeconds gpuCount).2
  -- The list operation never reports a job that disappeared.
  have hspec : (QueueOp.spec d.workers (queueState d)
      (.updatePendingJob jobId workerId position name expectedSeconds gpuCount)).1 ≠
      .error (.runtimeError "queued job disappeared after update") := by
    simp only [QueueOp.spec, QueueState.edit]
    repeat' split
    all_goals simp
  rw [← hrefines] at hspec
  simp only [QueueOp.run, atomically_updatePendingJob] at he hspec ⊢
  revert he hspec
  repeat' split
  all_goals simp [shown, Except.map]

theorem error_unchanged {d : Tables} (h : WellOrdered d.jobs) {op : QueueOp} {e : DbError}
    (he : (op.run d).1 = .error e) : (op.run d).2 = d := by
  cases op with
  | insertQueuedJob job =>
    simp only [QueueOp.run, atomically_insertQueuedJob] at he ⊢
    split at he <;> simp_all [shown, Except.map]
  | insertJob job =>
    simp only [QueueOp.run, atomically_insertJob] at he ⊢
    split at he <;> simp_all [shown, Except.map]
  | claimQueuedJob jobId gpuIndices startedAt workerId =>
    simp only [QueueOp.run, atomically_claimQueuedJob] at he ⊢
    split at he <;> simp_all [shown, Except.map]
  | updatePendingJob jobId workerId position name expectedSeconds gpuCount => exact updatePendingJob_error h he
  | failPendingJob jobId finishedAt =>
    simp only [QueueOp.run, atomically_failPendingJob] at he ⊢
    split at he <;> simp_all [shown, Except.map]
  | reconcileStartingJob jobId launchObserved now =>
    simp only [QueueOp.run, atomically_reconcileStartingJob] at he ⊢
    split at he <;> simp_all [shown, Except.map]
  | updateJob job => simp [QueueOp.run, atomically_updateJob, shown, Except.map] at he
  | upsertWorker reg now =>
    have := congrArg Prod.fst (refines_upsertWorker h reg now).2
    simp [he, QueueOp.spec] at this
  | pruneWorkers olderThanTs => cases he
  | deleteWorker workerId => cases he

/-- A claim that returns no job leaves the tables as they were. -/
theorem claim_none_unchanged {d : Tables} (h : WellOrdered d.jobs) {jobId : String} {gpuIndices : List ℕ}
    {startedAt : ℕ} {workerId : String}
    (hnone : (QueueOp.run d (.claimQueuedJob jobId gpuIndices startedAt workerId)).1 = .ok none) :
    (QueueOp.run d (.claimQueuedJob jobId gpuIndices startedAt workerId)).2 = d := by
  simp only [QueueOp.run, atomically_claimQueuedJob] at hnone ⊢
  by_cases hc : ∃ j ∈ d.jobs, claimable jobId gpuIndices workerId d j = true
  · obtain ⟨j, hj, hcj⟩ := hc
    obtain ⟨rfl, -⟩ := claimable_iff.mp hcj
    have hf : ∀ a : Job, (a.claimed gpuIndices startedAt).id = a.id := fun _ => rfl
    rw [if_pos ⟨j, hj, hcj⟩, claimedTables,
      updateRows_eq_setRow h.ids hj hcj (fun a ha => (claimable_iff.mp ha).1), setRow_eq_map,
      findJob_map h.ids hj (atRow_id hf j.id)] at hnone
    simp [shown, Except.map] at hnone
  · rw [if_neg hc]
    rfl

def twoWaiting : Tables :=
  (QueueOp.run (QueueOp.run (QueueOp.run {} (.upsertWorker { workerId := "w", name := "w", gpuCount := 2 } 7)).2
    (.insertQueuedJob { id := "a", workerId := some "w", gpuCount := 1 })).2
    (.insertQueuedJob { id := "b", workerId := some "w" })).2

end WorkerHarness.QueueRefinement
