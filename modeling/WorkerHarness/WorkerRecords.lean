import WorkerHarness.AtomicMethods

/-!
# Worker records

What the methods of the database do to the table of workers, and what a worker record keeps of the
registration that wrote it.
-/

namespace WorkerHarness.WorkerRecords

open Coroutines SharedTransactions Database

variable {reg : WorkerRegistration} {d : Tables} {w : Worker}

theorem of_mem_updateRows {p : Worker → Bool} {f : Worker → Worker} {ws : List Worker} (h : w ∈ updateRows p f ws) :
    (∃ w' ∈ ws, p w' = true ∧ w = f w') ∨ w ∈ ws ∧ p w = false := by
  obtain ⟨w', hw', rfl⟩ := List.mem_map.mp h
  cases hp : p w' with
  | true => exact .inl ⟨w', hw', hp, if_pos rfl⟩
  | false => exact .inr ⟨hw', hp⟩

def registered (reg : WorkerRegistration) (now : ℕ) (existing w : Worker) : Worker :=
  { existing.updateFromRegistration reg now with id := w.id, createdAt := w.createdAt }

theorem workers_upsertWorker (reg : WorkerRegistration) (now : ℕ) (d : Tables) :
    (atomically (upsertWorker reg now) d).2.workers =
      match findWorker d reg.workerId with
      | some existing => updateRows (fun w => w.id = reg.workerId) (registered reg now existing) d.workers
      | none => d.workers ++ [.fromRegistration reg now] := by
  cases hw : findWorker d reg.workerId with
  | some existing =>
    have hid : existing.id = reg.workerId := by simpa using List.find?_some hw
    simp only [atomically, upsertWorker, getWorker, Prog.bind_eq, alone_bind, alone_query, hw]
    simp [update, workersTable, Worker.updateFromRegistration, hid]
    rfl
  | none =>
    have hfree : ¬∃ w ∈ d.workers, w.id = (Worker.fromRegistration reg now).id := by
      rintro ⟨w, hmem, hid⟩
      have := List.find?_eq_none.mp hw w hmem
      simp [hid, Worker.fromRegistration] at this
    simp [atomically, upsertWorker, getWorker, hw, insertInto, workersTable, hfree]

theorem workers_markWorkersOffline (cutoffTs : ℕ) (d : Tables) :
    (atomically (markWorkersOffline cutoffTs) d).2.workers =
      updateRows (fun w => decide (w.lastHeartbeatTs < cutoffTs) && decide (w.status ≠ .offline))
        (fun w => { w with status := .offline }) d.workers := by
  simp [atomically, markWorkersOffline, update, workersTable]

theorem workers_setWorkerStatus (workerId : String) (status : WorkerStatus) (d : Tables) :
    (atomically (setWorkerStatus workerId status) d).2.workers =
      updateRows (fun w => w.id = workerId) (fun w => { w with status := status }) d.workers := by
  simp [atomically, setWorkerStatus, update, workersTable]

theorem workers_deleteWorker (workerId : String) (d : Tables) :
    (atomically (deleteWorker workerId) d).2.workers = d.workers.filter fun w => w.id ≠ workerId := by
  simp [atomically, deleteWorker, deleteFrom, workersTable, jobsTable]

theorem workers_pruneWorkers (olderThanTs : ℕ) (d : Tables) :
    (atomically (pruneWorkers olderThanTs) d).2.workers =
      d.workers.filter fun w => !decide (w.lastHeartbeatTs < olderThanTs) := by
  simp [atomically, pruneWorkers, deleteFrom, workersTable]

/-- The record has the telemetry of the registration. -/
structure Reported (reg : WorkerRegistration) (worker : Worker) : Prop where
  gpuCount : worker.gpuCount = reg.gpuCount
  gpuVramGb : worker.gpuVramGb = reg.gpus.map (·.vramTotalGb)
  gpuUsedVramGb : worker.gpuUsedVramGb = reg.gpus.map (·.vramUsedGb)
  gpuBusy : worker.gpuBusy = reg.gpus.map (·.busy)

inductive Registered (reg : WorkerRegistration) : Tables → Prop where
  | upsertWorker (d : Tables) (now : ℕ) : Registered reg (atomically (upsertWorker reg now) d).2
  | another {d : Tables} {reg' : WorkerRegistration} (now : ℕ) : Registered reg d → reg'.workerId ≠ reg.workerId →
      Registered reg (atomically (Database.upsertWorker reg' now) d).2
  | markWorkersOffline {d : Tables} (cutoffTs : ℕ) : Registered reg d →
      Registered reg (atomically (Database.markWorkersOffline cutoffTs) d).2
  | setWorkerStatus {d : Tables} (workerId : String) (status : WorkerStatus) : Registered reg d →
      Registered reg (atomically (Database.setWorkerStatus workerId status) d).2
  | deleteWorker {d : Tables} (workerId : String) : Registered reg d →
      Registered reg (atomically (Database.deleteWorker workerId) d).2
  | pruneWorkers {d : Tables} (olderThanTs : ℕ) : Registered reg d →
      Registered reg (atomically (Database.pruneWorkers olderThanTs) d).2
  | other {d d' : Tables} : Registered reg d → d'.workers = d.workers → Registered reg d'

theorem reported_fromRegistration (reg : WorkerRegistration) (now : ℕ) : Reported reg (.fromRegistration reg now) :=
  ⟨rfl, rfl, rfl, rfl⟩

theorem reported_registered (reg : WorkerRegistration) (now : ℕ) (existing w : Worker) :
    Reported reg (registered reg now existing w) := ⟨rfl, rfl, rfl, rfl⟩

theorem Reported.status (h : Reported reg w) (status : WorkerStatus) : Reported reg { w with status := status } :=
  ⟨h.gpuCount, h.gpuVramGb, h.gpuUsedVramGb, h.gpuBusy⟩

/-- A registration writes its telemetry to the rows of its worker, and to no others. -/
theorem row_upsertWorker {now : ℕ} (h : w ∈ (atomically (upsertWorker reg now) d).2.workers) :
    w.id = reg.workerId ∧ Reported reg w ∧ w.status = .online ∨ w ∈ d.workers ∧ w.id ≠ reg.workerId := by
  rw [workers_upsertWorker] at h
  split at h
  · next existing _ =>
    rcases of_mem_updateRows h with ⟨w', -, hid, rfl⟩ | ⟨hw, hid⟩
    · exact .inl ⟨of_decide_eq_true hid, reported_registered reg now existing w', rfl⟩
    · exact .inr ⟨hw, of_decide_eq_false hid⟩
  · next hnone =>
    rcases List.mem_append.mp h with hw | hw
    · exact .inr ⟨hw, by simpa using List.find?_eq_none.mp hnone w hw⟩
    · rw [List.mem_singleton.mp hw]
      exact .inl ⟨rfl, reported_fromRegistration reg now, rfl⟩

/-- The record of the worker has the telemetry of its latest registration. -/
theorem Registered.reported (h : Registered reg d) : ∀ w ∈ d.workers, w.id = reg.workerId → Reported reg w := by
  induction h with
  | upsertWorker d now =>
    intro w hw hid
    rcases row_upsertWorker hw with ⟨-, hreported, -⟩ | ⟨-, hne⟩
    · exact hreported
    · exact absurd hid hne
  | another now _ hne ih =>
    intro w hw hid
    rcases row_upsertWorker hw with ⟨hid', -, -⟩ | ⟨hw, -⟩
    · exact absurd (hid'.symm.trans hid) hne
    · exact ih w hw hid
  | markWorkersOffline cutoffTs _ ih =>
    intro w hw hid
    rw [workers_markWorkersOffline] at hw
    rcases of_mem_updateRows hw with ⟨w', hw', -, rfl⟩ | ⟨hw, -⟩
    · exact (ih w' hw' hid).status _
    · exact ih w hw hid
  | setWorkerStatus workerId status _ ih =>
    intro w hw hid
    rw [workers_setWorkerStatus] at hw
    rcases of_mem_updateRows hw with ⟨w', hw', -, rfl⟩ | ⟨hw, -⟩
    · exact (ih w' hw' hid).status _
    · exact ih w hw hid
  | deleteWorker workerId _ ih =>
    intro w hw
    rw [workers_deleteWorker] at hw
    exact ih w (List.mem_of_mem_filter hw)
  | pruneWorkers olderThanTs _ ih =>
    intro w hw
    rw [workers_pruneWorkers] at hw
    exact ih w (List.mem_of_mem_filter hw)
  | other _ heq ih => exact heq ▸ ih

end WorkerHarness.WorkerRecords
