import WorkerHarness.JobQueues

/-!
# Database methods as single steps

A method that no other coroutine interrupts maps the tables to a result and new tables.
Each job method gets its equation here; later modules use the equations and do not unfold
the coroutines.
-/

namespace WorkerHarness.Database

open Coroutines SharedTransactions JobQueues

variable {α β R : Type}

@[simp] theorem alone_ret (a : α) (d w : Tables) : alone (.ret a : DbM α) d w = (.ok a, d, w) := rfl

@[simp] theorem alone_raise (e : DbError) (d w : Tables) :
    alone (.raise e : DbM α) d w = (.error e, d, w) := rfl

@[simp] theorem alone_query (q : Tables → α) (d w : Tables) : alone (query q) d w = (.ok (q w), d, w) := rfl

@[simp] theorem alone_execute (s : Statement Tables) (d w : Tables) :
    alone (execute s) d w = (.ok (s.rowcount w), d, s.apply w) := rfl

@[simp] theorem alone_commit (d w : Tables) : alone commit d w = (.ok (), w, w) := rfl

@[simp] theorem alone_rollback (d w : Tables) : alone rollback d w = (.ok (), d, d) := rfl

@[simp] theorem alone_ofExcept (r : Except DbError α) (d w : Tables) :
    alone (Prog.ofExcept r : DbM α) d w = (r, d, w) := by
  cases r <;> rfl

def atomically (p : DbM α) (d : Tables) : Except DbError α × Tables := ((alone p d d).1, (alone p d d).2.2)

@[simp] theorem alone_ite (c : Prop) [Decidable c] (p q : DbM α) (d w : Tables) :
    alone (if c then p else q) d w = if c then alone p d w else alone q d w := by
  split <;> rfl

@[simp] theorem alone_insertRow (s : Statement Tables) (d w : Tables) :
    alone (insertRow s) d w =
      if s.rowcount w = 0 then (.error .integrityError, d, s.apply w) else (.ok (), d, s.apply w) := by
  simp [insertRow]

theorem update_rowcount_eq_zero {T : Table R} {p : Tables → R → Bool} {f : R → R} {d : Tables} :
    (update T p f).rowcount d = 0 ↔ ∀ r ∈ T.rows d, p d r = false := by
  simp [update, List.length_eq_zero_iff, List.filter_eq_nil_iff]

theorem update_rowcount_ne_zero {T : Table R} {p : Tables → R → Bool} {f : R → R} {d : Tables} {r : R}
    (hr : r ∈ T.rows d) (hp : p d r = true) : (update T p f).rowcount d ≠ 0 := by
  rw [Ne, update_rowcount_eq_zero]
  exact fun h => by simp [h r hr] at hp

def withJobs (d : Tables) (jobs : List Job) : Tables := { d with jobs := jobs }

@[simp] theorem withJobs_jobs (d : Tables) (jobs : List Job) : (withJobs d jobs).jobs = jobs := rfl

@[simp] theorem withJobs_workers (d : Tables) (jobs : List Job) : (withJobs d jobs).workers = d.workers := rfl

@[simp] theorem withJobs_withJobs (d : Tables) (jobs jobs' : List Job) :
    withJobs (withJobs d jobs) jobs' = withJobs d jobs' := rfl

@[simp] theorem withJobs_self (d : Tables) : withJobs d d.jobs = d := rfl

@[simp] theorem update_jobs_apply (p : Tables → Job → Bool) (f : Job → Job) (d : Tables) :
    (update jobsTable p f).apply d = withJobs d (updateRows (p d) f d.jobs) := rfl

@[simp] theorem renumber_apply (ids : List String) (d : Tables) :
    (renumber ids).apply d = withJobs d (renumberFrom 1 ids d.jobs) := rfl

theorem findJob_eq_some {d : Tables} {id : String} {j : Job} (h : (d.jobs.map (·.id)).Nodup) :
    findJob d id = some j ↔ j ∈ d.jobs ∧ j.id = id := by
  constructor
  · intro hf
    exact ⟨List.mem_of_find?_eq_some hf, by simpa using List.find?_some hf⟩
  · rintro ⟨hj, rfl⟩
    cases hf : findJob d j.id with
    | none => simpa using List.find?_eq_none.mp hf j hj
    | some a =>
      have ha : a ∈ d.jobs ∧ a.id = j.id := ⟨List.mem_of_find?_eq_some hf, by simpa using List.find?_some hf⟩
      rw [eq_of_id_eq h ha.1 hj ha.2]

theorem pendingRow_iff {id : String} {j : Job} :
    pendingRow id j = true ↔ j.id = id ∧ j.queueManaged = true ∧ j.status = .pending := by
  simp [pendingRow, and_assoc]

theorem startingRow_iff {id : String} {j : Job} : startingRow id j = true ↔ j.id = id ∧ j.status = .starting := by
  simp [startingRow]

theorem claimable_iff {jobId : String} {gpuIndices : List ℕ} {w : String} {d : Tables} {j : Job} :
    claimable jobId gpuIndices w d j = true ↔ j.id = jobId ∧ j.pendingOn w = true ∧
      j.gpuCount = gpuIndices.length ∧ (queueIds d.jobs w).head? = some j.id ∧
      ∀ a ∈ d.jobs, a.activeOn w = true → ∀ i ∈ a.gpuIndices, i ∉ gpuIndices := by
  have hhead : some j.id = (pendingQueue d w).head?.map (·.id) ↔ (queueIds d.jobs w).head? = some j.id := by
    rw [eq_comm, queueIds, List.head?_map]
    rfl
  simp only [claimable, Bool.and_eq_true, decide_eq_true_eq, and_assoc, Bool.not_eq_true', indexTaken,
    List.any_eq_false, hhead]
  simp

theorem atomically_insertJob (job : Job) (d : Tables) :
    atomically (insertJob job) d =
      if d.jobs.any (fun j => j.id = job.id) then (.error .integrityError, d)
      else (.ok (), withJobs d (d.jobs ++ [job])) := by
  by_cases h : ∃ j ∈ d.jobs, j.id = job.id <;>
    simp [atomically, insertJob, insertInto, jobsTable, withJobs, h]

theorem atomically_updateJob (job : Job) (d : Tables) :
    atomically (updateJob job) d =
      (.ok (), withJobs d (updateRows (fun j => j.id = job.id) (fun _ => job) d.jobs)) := by
  simp [atomically, updateJob]

theorem atomically_insertQueuedJob (job : Job) (d : Tables) :
    atomically (insertQueuedJob job) d =
      if d.jobs.any (fun j => j.id = job.id) then (.error .integrityError, d)
      else (.ok (job.enqueued (topQueueOrder d job.workerId + 1)),
        withJobs d (d.jobs ++ [job.enqueued (topQueueOrder d job.workerId + 1)])) := by
  have hid : (job.enqueued (topQueueOrder d job.workerId + 1)).id = job.id := rfl
  by_cases h : ∃ j ∈ d.jobs, j.id = job.id <;>
    simp [atomically, insertQueuedJob, insertInto, jobsTable, withJobs, hid, h]

def claimedTables (jobId : String) (gpuIndices : List ℕ) (startedAt : ℕ) (workerId : String)
    (d : Tables) : Tables :=
  withJobs d (updateRows (claimable jobId gpuIndices workerId d) (Job.claimed gpuIndices startedAt) d.jobs)

theorem atomically_claimQueuedJob (jobId : String) (gpuIndices : List ℕ) (startedAt : ℕ) (workerId : String)
    (d : Tables) :
    atomically (claimQueuedJob jobId gpuIndices startedAt workerId) d =
      if ∃ j ∈ d.jobs, claimable jobId gpuIndices workerId d j = true then
        (.ok (findJob (claimedTables jobId gpuIndices startedAt workerId d) jobId),
          claimedTables jobId gpuIndices startedAt workerId d)
      else (.ok none, d) := by
  by_cases h : ∃ j ∈ d.jobs, claimable jobId gpuIndices workerId d j = true
  · obtain ⟨j, hj, hc⟩ := h
    have hrow : (update jobsTable (claimable jobId gpuIndices workerId) (Job.claimed gpuIndices startedAt)).rowcount
      d
        ≠ 0 := update_rowcount_ne_zero hj hc
    rw [if_pos ⟨j, hj, hc⟩]
    simp [atomically, claimQueuedJob, hrow, getJob, claimedTables]
  · have hrow : (update jobsTable (claimable jobId gpuIndices workerId) (Job.claimed gpuIndices startedAt)).rowcount
      d
        = 0 := update_rowcount_eq_zero.mpr fun j hj => by
      simpa using fun hc => h ⟨j, hj, hc⟩
    rw [if_neg h]
    simp [atomically, claimQueuedJob, hrow]

def cancelledJobs (jobId : String) (finishedAt : ℕ) (jobs : List Job) : List Job :=
  updateRows (pendingRow jobId) (Job.cancelled finishedAt) jobs

def cancelledTables (jobId : String) (finishedAt : ℕ) (workerId : Option String) (d : Tables) : Tables :=
  withJobs d (renumberFrom 1 (pendingIds (withJobs d (cancelledJobs jobId finishedAt d.jobs)) workerId)
    (cancelledJobs jobId finishedAt d.jobs))

theorem atomically_failPendingJob (jobId : String) (finishedAt : ℕ) (d : Tables) :
    atomically (failPendingJob jobId finishedAt) d =
      match d.jobs.find? (pendingRow jobId) with
      | none => (.ok none, d)
      | some row => (.ok (findJob (cancelledTables jobId finishedAt row.workerId d) jobId),
          cancelledTables jobId finishedAt row.workerId d) := by
  cases h : d.jobs.find? (pendingRow jobId) with
  | none => simp [atomically, failPendingJob, h]
  | some row =>
    have hrow : (update jobsTable (fun _ => pendingRow jobId) (Job.cancelled finishedAt)).rowcount d ≠ 0 :=
      update_rowcount_ne_zero (List.mem_of_find?_eq_some h) (List.find?_some h)
    simp [atomically, failPendingJob, h, hrow, getJob, cancelledTables, cancelledJobs]

def reconciledTables (row : Job) (launchObserved : Bool) (now : ℕ) (d : Tables) : Tables :=
  withJobs d <|
    if launchObserved then updateRows (startingRow row.id) Job.launched d.jobs
    else if row.queueManaged then
      updateRows (fun j => startingRow row.id j && j.queueManaged) Job.recovered
        (updateRows (fun j => row.workerId.any fun w => j.pendingOn w)
          (fun j => j.withOrder (j.queueOrder + 1)) d.jobs)
    else updateRows (startingRow row.id) (Job.neverLaunched now) d.jobs

theorem atomically_reconcileStartingJob (jobId : String) (launchObserved : Bool) (now : ℕ) (d : Tables) :
    atomically (reconcileStartingJob jobId launchObserved now) d =
      match d.jobs.find? (startingRow jobId) with
      | none => (.ok none, d)
      | some row => (.ok (findJob (reconciledTables row launchObserved now d) jobId),
          reconciledTables row launchObserved now d) := by
  cases h : d.jobs.find? (startingRow jobId) with
  | none => simp [atomically, reconcileStartingJob, h]
  | some row =>
    have hmem := List.mem_of_find?_eq_some h
    have hs := List.find?_some h
    have hid : row.id = jobId := (startingRow_iff.mp hs).1
    cases launchObserved with
    | true =>
      have hrow : (update jobsTable (fun _ => startingRow jobId) Job.launched).rowcount d ≠ 0 :=
        update_rowcount_ne_zero hmem hs
      simp [atomically, reconcileStartingJob, h, hrow, getJob, reconciledTables, hid]
    | false =>
      cases hm : row.queueManaged with
      | true =>
        -- The row itself is not waiting, so the shift of the waiting rows leaves it as it is.
        have hstart : row.status = .starting := (startingRow_iff.mp hs).2
        have hmem' : row ∈ updateRows (fun j => row.workerId.any fun w => j.pendingOn w)
            (fun j => j.withOrder (j.queueOrder + 1)) d.jobs := by
          refine List.mem_map.mpr ⟨row, hmem, if_neg ?_⟩
          cases row.workerId <;> simp [Job.pendingOn, hstart]
        have hrow : (update jobsTable (fun _ j => startingRow jobId j && j.queueManaged) Job.recovered).rowcount
            (withJobs d (updateRows (fun j => row.workerId.any fun w => j.pendingOn w)
              (fun j => j.withOrder (j.queueOrder + 1)) d.jobs)) ≠ 0 :=
          update_rowcount_ne_zero hmem' (by simp [hs, hm])
        simp [atomically, reconcileStartingJob, h, hm, hrow, getJob, reconciledTables, hid]
      | false =>
        have hrow : (update jobsTable (fun _ => startingRow jobId) (Job.neverLaunched now)).rowcount d ≠ 0 :=
          update_rowcount_ne_zero hmem hs
        simp [atomically, reconcileStartingJob, h, hm, hrow, getJob, reconciledTables, hid]

def plannedIds (jobId : String) (position : Option ℕ) (source destination : Option String) (d : Tables) :
    Option (List String) :=
  if destination = source then
    if position = none then
      ((pendingIds d source).findIdx? fun id => id = jobId).map fun index =>
        (otherIds jobId (pendingIds d source)).insertIdx index jobId
    else some (placedAt position jobId (otherIds jobId (pendingIds d source)))
  else some (placedAt position jobId (pendingIds d destination))

theorem alone_destinationIds (jobId : String) (position : Option ℕ) (source destination : Option String)
    (d w : Tables) :
    alone (destinationIds jobId position source destination (otherIds jobId (pendingIds w source))) d w =
      (match plannedIds jobId position source destination w with
        | none => .error (.runtimeError "coroutine raised StopIteration")
        | some ids => .ok ids, d, w) := by
  unfold destinationIds plannedIds
  by_cases hd : destination = source
  · by_cases hp : position = none
    · cases hi : (pendingIds w source).findIdx? fun id => id = jobId <;> simp [hd, hp, hi]
    · simp [hd, hp]
  · simp [hd]

/-- The job rows after an edit that read the row `row`. -/
def editedJobs (row : Job) (destination : Option String) (sourceIds ids : List String) (name : Option String)
    (expectedSeconds gpuCount : Option ℕ) (jobs : List Job) : List Job :=
  let edited := updateRows (pendingRow row.id) (Job.edited row destination name expectedSeconds gpuCount) jobs
  renumberFrom 1 ids (if destination ≠ row.workerId then renumberFrom 1 sourceIds edited else edited)

def editedTables (row : Job) (destination : Option String) (ids : List String) (name : Option String)
    (expectedSeconds gpuCount : Option ℕ) (d : Tables) : Tables :=
  withJobs d (editedJobs row destination (otherIds row.id (pendingIds d row.workerId)) ids name expectedSeconds
    gpuCount d.jobs)

theorem atomically_updatePendingJob (jobId : String) (workerId : Option String) (position : Option ℕ)
    (name : Option String) (expectedSeconds gpuCount : Option ℕ) (d : Tables) :
    atomically (updatePendingJob jobId workerId position name expectedSeconds gpuCount) d =
      match d.jobs.find? fun j => decide (j.id = jobId) && j.queueManaged with
      | none => (.error (.keyError jobId), d)
      | some row =>
        if row.status ≠ .pending then (.error (.valueError "queued job is not pending"), d) else
        match (destinationOf workerId row).bind (findWorker d) with
        | none => (.error (.valueError "destination worker no longer exists"), d)
        | some destination =>
          if gpuCount.getD row.gpuCount > destination.gpuCount then
            (.error (.valueError "gpu_count exceeds destination worker capacity"), d) else
          match plannedIds jobId position row.workerId (destinationOf workerId row) d with
          | none => (.error (.runtimeError "coroutine raised StopIteration"), d)
          | some ids =>
            let d' := editedTables row (destinationOf workerId row) ids name expectedSeconds gpuCount d
            match findJob d' jobId with
            | none => (.error (.runtimeError "queued job disappeared after update"), d')
            | some updated => (.ok updated, d') := by
  cases hrow : d.jobs.find? fun j => decide (j.id = jobId) && j.queueManaged with
  | none => simp [atomically, updatePendingJob, hrow]
  | some row =>
    have hmem := List.mem_of_find?_eq_some hrow
    have hid := List.find?_some hrow
    simp only [Bool.and_eq_true, decide_eq_true_eq] at hid
    obtain ⟨hid, hm⟩ := hid
    by_cases hp : row.status = .pending
    swap
    · simp [atomically, updatePendingJob, hrow, hp]
    generalize hto : destinationOf workerId row = target
    cases hdest : target.bind (findWorker d) with
    | none => simp [atomically, updatePendingJob, hrow, hp, hto, hdest]
    | some destination =>
      by_cases hcap : gpuCount.getD row.gpuCount > destination.gpuCount
      · simp [atomically, updatePendingJob, hrow, hp, hto, hdest, hcap]
      cases hids : plannedIds jobId position row.workerId target d with
      | none => simp [atomically, updatePendingJob, hrow, hp, hto, hdest, hcap, alone_destinationIds, hids]
      | some ids =>
        have hrc : (update jobsTable (fun _ => pendingRow jobId)
            (Job.edited row target name expectedSeconds gpuCount)).rowcount d ≠ 0 :=
          update_rowcount_ne_zero hmem (by simp [pendingRow, hid, hm, hp])
        -- Only a move renumbers the source list as well.
        by_cases hmoved : target = row.workerId
        · subst hmoved
          cases hf : findJob (editedTables row row.workerId ids name expectedSeconds gpuCount d) jobId <;>
            simp [editedTables, editedJobs, hid] at hf <;>
            simp [atomically, updatePendingJob, hrow, hp, hto, hdest, hcap, alone_destinationIds, hids, hrc,
              editedTables, editedJobs, hid, getJob, hf]
        · cases hf : findJob (editedTables row target ids name expectedSeconds gpuCount d) jobId <;>
            simp [editedTables, editedJobs, hid, hmoved] at hf <;>
            simp [atomically, updatePendingJob, hrow, hp, hto, hdest, hcap, alone_destinationIds, hids, hrc,
              editedTables, editedJobs, hid, getJob, hf, hmoved]

end WorkerHarness.Database
