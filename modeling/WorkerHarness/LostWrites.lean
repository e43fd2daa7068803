import WorkerHarness.AtomicSessions

/-!
# Row changes and results of the database methods

Every listed method changes rows only before its commit, reports success only after the
commit or without a row change, and reports a failure only when it has committed nothing.
The rows that a method reads back after its commit are still there, because no method
deletes a job or a session. So in every run in which rollbacks are confined to the method
that executes them, results and durable data agree; without that condition an enqueue
loses its command to the rollback of a failing claim.
-/

namespace WorkerHarness.LostWrites

open Coroutines SharedTransactions Database

inductive DatabaseOp where
  | claimQueuedJob (jobId : String) (gpuIndices : List ℕ) (startedAt : ℕ) (workerId : String)
  | insertQueuedJob (job : Job)
  | updatePendingJob (jobId : String) (workerId : Option String) (position : Option ℕ) (name : Option String)
      (expectedSeconds gpuCount : Option ℕ)
  | failPendingJob (jobId : String) (finishedAt : ℕ)
  | reconcileStartingJob (jobId : String) (launchObserved : Bool) (now : ℕ)
  | enqueuePiSessionCommand (command : PiSessionCommand) (now : ℕ)
  | applyInteractivePiEvents (sessionId : String) (payload : PiBridgeEventBatch) (now : ℕ) (uuid : ℕ → String)
  | registerInteractivePiSession (payload : PiBridgeRegister) (now : ℕ) (uuid : ℕ → String)
  | ackPiSessionCommand (sessionId commandId incarnation : String) (now : ℕ)
  | finishPiSession (sessionId : String) (state : PiSessionState) (detail : String) (now : ℕ)
  | insertPiSessionEvent (event : PiSessionEvent)
  | upsertReportedWorkerJob (workerId : String) (report : WorkerJobReport)
  | insertJob (job : Job)
  | updateJob (job : Job)
  | upsertWorker (reg : WorkerRegistration) (now : ℕ)

def reporting {α : Type} (p : DbM α) (ok : α → Bool) : DbM Bool := p.bind fun a => .ret (ok a)

/-- `None` and `False` report a failure, like an exception. -/
def DatabaseOp.prog : DatabaseOp → DbM Bool
  | .claimQueuedJob jobId gpuIndices startedAt workerId =>
    reporting (Database.claimQueuedJob jobId gpuIndices startedAt workerId) Option.isSome
  | .insertQueuedJob job => reporting (Database.insertQueuedJob job) fun _ => true
  | .updatePendingJob jobId workerId position name expectedSeconds gpuCount =>
    reporting (Database.updatePendingJob jobId workerId position name expectedSeconds gpuCount) fun _ => true
  | .failPendingJob jobId finishedAt => reporting (Database.failPendingJob jobId finishedAt) Option.isSome
  | .reconcileStartingJob jobId launchObserved now =>
    reporting (Database.reconcileStartingJob jobId launchObserved now) Option.isSome
  | .enqueuePiSessionCommand command now => reporting (Database.enqueuePiSessionCommand command now) fun _ => true
  | .applyInteractivePiEvents sessionId payload now uuid =>
    reporting (Database.applyInteractivePiEvents sessionId payload now uuid) fun _ => true
  | .registerInteractivePiSession payload now uuid =>
    reporting (Database.registerInteractivePiSession payload now uuid) fun _ => true
  | .ackPiSessionCommand sessionId commandId incarnation now =>
    reporting (Database.ackPiSessionCommand sessionId commandId incarnation now) id
  | .finishPiSession sessionId state detail now =>
    reporting (Database.finishPiSession sessionId state detail now) fun _ => true
  | .insertPiSessionEvent event => reporting (Database.insertPiSessionEvent event) fun _ => true
  | .upsertReportedWorkerJob workerId report =>
    reporting (Database.upsertReportedWorkerJob workerId report) fun _ => true
  | .insertJob job => reporting (Database.insertJob job) fun _ => true
  | .updateJob job => reporting (Database.updateJob job) fun _ => true
  | .upsertWorker reg now => reporting (Database.upsertWorker reg now) fun _ => true

abbrev DatabasePool := Pool (Sql Tables) DbLock DbError Bool (Connection Tables)

def listed : Set (DbM Bool) := Set.range DatabaseOp.prog

/-- A result reports success. -/
def success : Except DbError Bool → Bool
  | .ok b => b
  | .error _ => false

def idsKept : Growth Tables where
  le d d' := d.jobs.map (·.id) ⊆ d'.jobs.map (·.id) ∧ d.sessions.map (·.id) ⊆ d'.sessions.map (·.id)
  refl _ := ⟨List.Subset.refl _, List.Subset.refl _⟩
  trans h h' := ⟨List.Subset.trans h.1 h'.1, List.Subset.trans h.2 h'.2⟩

def KeepsIds (s : Statement Tables) : Prop := ∀ d, idsKept.le d (s.apply d)

theorem map_key_updateRows {R : Type} (key : R → String) {p : R → Bool} (f : R → R)
    (hf : ∀ r, p r = true → key (f r) = key r) (rs : List R) : (updateRows p f rs).map key = rs.map key := by
  rw [updateRows, List.map_map]
  refine List.map_congr_left fun r _ => ?_
  simp only [Function.comp]
  split
  · next hp => exact hf r hp
  · rfl

theorem keepsIds_updateJobs {p : Tables → Job → Bool} {f : Job → Job} (hf : ∀ d j, p d j = true → (f j).id = j.id) :
    KeepsIds (update jobsTable p f) := by
  intro d
  refine ⟨?_, List.Subset.refl _⟩
  rw [update_jobs_apply, withJobs_jobs, map_key_updateRows Job.id f (hf d)]
  exact List.Subset.refl _

theorem keepsIds_updateSessions {p : Tables → PiSession → Bool} {f : PiSession → PiSession}
    (hf : ∀ s, (f s).id = s.id) : KeepsIds (update sessionsTable p f) := by
  intro d
  refine ⟨List.Subset.refl _, ?_⟩
  rw [update_sessions_apply, withSessions_sessions, map_key_updateRows PiSession.id f fun s _ => hf s]
  exact List.Subset.refl _

theorem keepsIds_updateCommands (p : Tables → PiSessionCommand → Bool) (f : PiSessionCommand → PiSessionCommand) :
    KeepsIds (update commandsTable p f) := fun _ => ⟨List.Subset.refl _, List.Subset.refl _⟩

theorem keepsIds_updateWorkers (p : Tables → Worker → Bool) (f : Worker → Worker) :
    KeepsIds (update workersTable p f) := fun _ => ⟨List.Subset.refl _, List.Subset.refl _⟩

theorem keepsIds_insertJob (job : Job) : KeepsIds (insertInto jobsTable (·.id) job) := by
  intro d
  simp only [insertInto]
  split
  · exact idsKept.refl d
  · exact ⟨by simp [jobsTable], List.Subset.refl _⟩

theorem keepsIds_insertCommand (command : PiSessionCommand) :
    KeepsIds (insertInto commandsTable (·.id) command) := by
  intro d
  simp only [insertInto]
  split
  · exact idsKept.refl d
  · exact ⟨List.Subset.refl _, List.Subset.refl _⟩

theorem keepsIds_insertWorker (worker : Worker) : KeepsIds (insertInto workersTable (·.id) worker) := by
  intro d
  simp only [insertInto]
  split
  · exact idsKept.refl d
  · exact ⟨List.Subset.refl _, List.Subset.refl _⟩

theorem map_id_renumberFrom (n : ℕ) (ids : List String) (jobs : List Job) :
    (renumberFrom n ids jobs).map (·.id) = jobs.map (·.id) := by
  induction ids generalizing n jobs with
  | nil => rfl
  | cons id ids ih => rw [renumberFrom, ih, map_key_updateRows Job.id (Job.withOrder n) fun j _ => rfl]

theorem keepsIds_renumber (ids : List String) : KeepsIds (renumber ids) := by
  intro d
  refine ⟨?_, List.Subset.refl _⟩
  rw [renumber_apply, withJobs_jobs, map_id_renumberFrom]
  exact List.Subset.refl _

theorem keepsIds_insertEvent (event : PiSessionEvent) : KeepsIds (insertEvent event) := by
  intro d
  obtain ⟨events, h⟩ := insertEvent_apply event d
  rw [h]
  exact ⟨List.Subset.refl _, List.Subset.refl _⟩

theorem keepsIds_upsertSession (payload : PiBridgeRegister) (now createdAt : ℕ) :
    KeepsIds (upsertSession payload now createdAt) := by
  intro d
  refine ⟨List.Subset.refl _, ?_⟩
  rw [upsertSession_apply, withSessions_sessions, upsertedSessions]
  split
  · rw [map_key_updateRows PiSession.id (reregisteredSession payload now) fun s _ => rfl]
    exact List.Subset.refl _
  · simp

theorem keepsIds_upsertReport (workerId : String) (report : WorkerJobReport) :
    KeepsIds (upsertReport workerId report) := by
  intro d
  simp only [upsertReport]
  split
  · refine ⟨?_, List.Subset.refl _⟩
    rw [map_key_updateRows Job.id (upsertReport.overwrite workerId report) fun j hj => ?_]
    · exact List.Subset.refl _
    · simp only [upsertReport.reported, Bool.and_eq_true, decide_eq_true_eq] at hj
      exact hj.1.1.1.1.symm
  · exact ⟨by simp, List.Subset.refl _⟩

variable {α β : Type} {G : Growth Tables}

@[simp] theorem disciplined_ret {post : Except DbError α → Phase → Tables → Prop} (a : α) (ph : Phase)
    (d₀ : Tables) :
    Disciplined G post (.ret a : DbM α) ph d₀ ↔ post (.ok a) ph d₀ := Iff.rfl

@[simp] theorem disciplined_raise {post : Except DbError α → Phase → Tables → Prop} (e : DbError) (ph : Phase)
    (d₀ : Tables) : Disciplined G post (.raise e : DbM α) ph d₀ ↔ post (.error e) ph d₀ := Iff.rfl

@[simp] theorem disciplined_ofExcept {post : Except DbError α → Phase → Tables → Prop} (r : Except DbError α)
    (ph : Phase) (d₀ : Tables) : Disciplined G post (Prog.ofExcept r : DbM α) ph d₀ ↔ post r ph d₀ := by
  cases r <;> rfl

theorem disciplined_query {post : Except DbError α → Phase → Tables → Prop} {q : Tables → β} {f : β → DbM α}
    {ph : Phase} {d₀ : Tables} (h : ∀ d, ph.Bounds G d₀ d → Disciplined G post (f (q d)) ph d₀) :
    Disciplined G post ((query q).bind f) ph d₀ := h

/-- A statement that keeps the ids may be executed before the commit. -/
theorem disciplined_execute {post : Except DbError α → Phase → Tables → Prop} {s : Statement Tables} {f : ℕ → DbM α}
    {ph : Phase} {d₀ : Tables} (hs : KeepsIds s) (hph : ph = .clean ∨ ph = .dirty)
    (hnone : ∀ d, ph.Bounds idsKept d₀ d → s.rowcount d = 0 → Disciplined idsKept post (f 0) ph d₀)
    (hrows : ∀ d, ph.Bounds idsKept d₀ d → s.rowcount d ≠ 0 →
      Disciplined idsKept post (f (s.rowcount d)) .dirty (s.apply d)) :
    Disciplined idsKept post ((execute s).bind f) ph d₀ := by
  refine ⟨hph, hs, fun d hd => ?_⟩
  split
  · next h => exact hnone d hd h
  · next h => exact hrows d hd h

@[simp] theorem disciplined_commit {post : Except DbError Unit → Phase → Tables → Prop} (ph : Phase) (d₀ : Tables) :
    Disciplined G post commit ph d₀ ↔ post (.ok ()) (if ph = .dirty then .committed else ph) d₀ := Iff.rfl

@[simp] theorem disciplined_rollback {post : Except DbError Unit → Phase → Tables → Prop} (ph : Phase)
    (d₀ : Tables) :
    Disciplined G post rollback ph d₀ ↔ post (.ok ()) (if ph = .dirty then .aborted else ph) d₀ := Iff.rfl

/-- A result with its success, for a method of any type. -/
def outcome (ok : α → Bool) : Except DbError α → Bool
  | .ok a => ok a
  | .error _ => false

def Honest (p : DbM α) (ok : α → Bool) : Prop := ∀ d₀, Disciplined idsKept (EndsWell (outcome ok)) p .clean d₀

theorem disciplined_reporting {p : DbM α} {ok : α → Bool} (h : Honest p ok) (d₀ : Tables) :
    Disciplined idsKept (EndsWell success) (reporting p ok) .clean d₀ := by
  rw [reporting, disciplined_bind]
  refine (h d₀).mono fun r ph d hr => ?_
  cases r with
  | ok a => exact hr
  | error e => exact hr

@[simp] theorem endsWell_ok (ok : α → Bool) (a : α) (ph : Phase) (d : Tables) :
    EndsWell (outcome ok) (.ok a) ph d ↔
      if ok a then ph = .clean ∨ ph = .committed else ph = .clean ∨ ph = .aborted := Iff.rfl

@[simp] theorem endsWell_error (ok : α → Bool) (e : DbError) (ph : Phase) (d : Tables) :
    EndsWell (outcome ok) (.error e) ph d ↔ ph = .clean ∨ ph = .aborted := Iff.rfl

/-- A plain insert raises before it has changed a row. -/
theorem disciplined_insertRow {ok : α → Bool} {s : Statement Tables} {f : Unit → DbM α} {d₀ : Tables}
    (hs : KeepsIds s)
    (hrows : ∀ d, Disciplined idsKept (EndsWell (outcome ok)) (f ()) .dirty (s.apply d)) :
    Disciplined idsKept (EndsWell (outcome ok)) ((insertRow s).bind f) .clean d₀ := by
  simp only [insertRow, Prog.bind_eq, Prog.bind_assoc]
  refine disciplined_execute hs (.inl rfl) (fun d _ h => ?_) (fun d _ h => ?_)
  · simp
  · simpa [h] using hrows d

theorem honest_insertJob (job : Job) : Honest (Database.insertJob job) fun _ => true := by
  intro d₀
  refine disciplined_insertRow (keepsIds_insertJob job) fun d => ?_
  simp

theorem honest_updateJob (job : Job) : Honest (Database.updateJob job) fun _ => true := by
  intro d₀
  refine disciplined_execute (keepsIds_updateJobs fun d j hj => ?_) (.inl rfl) (fun d _ h => ?_) (fun d _ h => ?_)
  · exact (of_decide_eq_true hj).symm
  · simp
  · simp

theorem honest_insertQueuedJob (job : Job) : Honest (Database.insertQueuedJob job) fun _ => true := by
  intro d₀
  rw [Database.insertQueuedJob, disciplined_withLock]
  refine disciplined_query fun d _ => disciplined_insertRow (keepsIds_insertJob _) fun d => ?_
  simp

/-- A job that an update has selected is found as long as no job disappears. -/
theorem findJob_of_kept {p : Tables → Job → Bool} {f : Job → Job} {jobId : String} {d d' : Tables}
    (hrow : (update jobsTable p f).rowcount d ≠ 0) (hd : idsKept.le ((update jobsTable p f).apply d) d')
    (hp : ∀ d j, p d j = true → j.id = jobId) (hf : ∀ j, (f j).id = j.id) :
    ∃ j, findJob d' jobId = some j := by
  have hex : ∃ j ∈ d.jobs, p d j = true := by
    by_contra hno
    refine hrow (update_rowcount_eq_zero.mpr fun j hj => ?_)
    exact Bool.eq_false_iff.mpr fun hp => hno ⟨j, hj, hp⟩
  obtain ⟨j, hj, hpj⟩ := hex
  have hid : j.id = jobId := hp d j hpj
  have hmem : jobId ∈ ((update jobsTable p f).apply d).jobs.map (·.id) := by
    rw [update_jobs_apply, withJobs_jobs, map_key_updateRows Job.id f fun j _ => hf j]
    exact List.mem_map.mpr ⟨j, hj, hid⟩
  obtain ⟨j', hj', hid'⟩ := List.mem_map.mp (hd.1 hmem)
  rw [← Option.isSome_iff_exists, findJob, List.find?_isSome]
  exact ⟨j', hj', by simpa using hid'⟩

/-- Commit, then read a job back that cannot have disappeared. -/
theorem disciplined_readBack {ok : α → Bool} {f : Option Job → DbM α} {jobId : String} {d₀ : Tables}
    (hfound : ∀ d, idsKept.le d₀ d → ∃ j, findJob d jobId = some j)
    (hf : ∀ j, Disciplined idsKept (EndsWell (outcome ok)) (f (some j)) .committed d₀) :
    Disciplined idsKept (EndsWell (outcome ok))
    (commit.bind fun _ => (Database.getJob jobId).bind f) .dirty d₀ := by
  rw [disciplined_bind, disciplined_commit, if_pos rfl]
  refine disciplined_query fun d hd => ?_
  obtain ⟨j, hj⟩ := hfound d hd
  rw [hj]
  exact hf j

/-- Update the row of a job, then commit and read it back, or roll back when it has changed. -/
theorem disciplined_changeRow {p : Tables → Job → Bool} {f : Job → Job} {jobId : String} {ph : Phase} {d₀ : Tables}
    (hp : ∀ d j, p d j = true → j.id = jobId) (hf : ∀ j, (f j).id = j.id) (hph : ph = .clean ∨ ph = .dirty) :
    Disciplined idsKept (EndsWell (outcome Option.isSome))
      ((execute (update jobsTable p f)).bind fun rowcount =>
        if rowcount = 0 then rollback.bind fun _ => .ret none
        else commit.bind fun _ => Database.getJob jobId) ph d₀ := by
  refine disciplined_execute (keepsIds_updateJobs fun d j _ => hf j) hph (fun d _ h => ?_) (fun d _ h => ?_)
  · rcases hph with rfl | rfl <;> simp
  · rw [if_neg h, ← Prog.bind_ret (Database.getJob jobId)]
    exact disciplined_readBack (fun d' hd' => findJob_of_kept h hd' hp hf) fun j => by simp

theorem honest_claimQueuedJob (jobId : String) (gpuIndices : List ℕ) (startedAt : ℕ) (workerId : String) :
    Honest (Database.claimQueuedJob jobId gpuIndices startedAt workerId) Option.isSome := by
  intro d₀
  rw [Database.claimQueuedJob, disciplined_withLock]
  exact disciplined_changeRow (fun _ _ hj => (claimable_iff.mp hj).1) (fun _ => rfl) (.inl rfl)

/-- Another statement with own changes pending. -/
theorem disciplined_pending {post : Except DbError α → Phase → Tables → Prop} {s : Statement Tables} {f : ℕ → DbM α}
    {d₀ : Tables} (hs : KeepsIds s) (h : ∀ n d, idsKept.le d₀ d → Disciplined idsKept post (f n) .dirty d) :
    Disciplined idsKept post ((execute s).bind f) .dirty d₀ :=
  disciplined_execute hs (.inr rfl) (fun _ _ _ => h 0 d₀ (idsKept.refl d₀))
    fun d hd _ => h _ _ (idsKept.trans hd (hs d))

theorem honest_failPendingJob (jobId : String) (finishedAt : ℕ) :
    Honest (Database.failPendingJob jobId finishedAt) Option.isSome := by
  intro d₀
  rw [Database.failPendingJob, disciplined_withLock]
  refine disciplined_query fun d _ => ?_
  split
  · simp
  · next row hrow =>
    refine disciplined_execute (keepsIds_updateJobs fun d j _ => rfl) (.inl rfl) (fun d _ h => ?_) (fun d _ h => ?_)
    · simp
    · rw [if_neg h]
      refine disciplined_query fun d' _ => disciplined_pending (keepsIds_renumber _) fun n d'' hd'' => ?_
      rw [← Prog.bind_ret (Database.getJob jobId)]
      refine disciplined_readBack (fun d₃ hd₃ => ?_) fun j => by simp
      exact findJob_of_kept h (idsKept.trans hd'' hd₃) (fun _ _ hj => (pendingRow_iff.mp hj).1) fun _ => rfl

theorem honest_reconcileStartingJob (jobId : String) (launchObserved : Bool) (now : ℕ) :
    Honest (Database.reconcileStartingJob jobId launchObserved now) Option.isSome := by
  intro d₀
  have hstarting : ∀ (_ : Tables) (j : Job), startingRow jobId j = true → j.id = jobId :=
    fun _ _ hj => (startingRow_iff.mp hj).1
  rw [Database.reconcileStartingJob, disciplined_withLock]
  refine disciplined_query fun d _ => ?_
  split
  · simp
  · next row hrow =>
    cases launchObserved with
    | true => exact disciplined_changeRow hstarting (fun _ => rfl) (.inl rfl)
    | false =>
      by_cases hm : row.queueManaged = true
      · -- The shift of the waiting rows may be pending when the row itself turns out to be gone.
        have hrecovered : ∀ (_ : Tables) (j : Job), (startingRow jobId j && j.queueManaged) = true → j.id = jobId :=
          fun _ j hj => (startingRow_iff.mp (Bool.and_eq_true _ _ ▸ hj).1).1
        simp only [Bool.false_eq_true, if_false, hm, if_true, Prog.bind_eq]
        refine disciplined_execute (keepsIds_updateJobs fun d j _ => rfl) (.inl rfl) (fun d _ h => ?_)
          (fun d _ h => ?_)
        · exact disciplined_changeRow hrecovered (fun _ => rfl) (.inl rfl)
        · exact disciplined_changeRow hrecovered (fun _ => rfl) (.inr rfl)
      · simp only [Bool.false_eq_true, if_false, hm]
        exact disciplined_changeRow hstarting (fun _ => rfl) (.inl rfl)

/-- The destination list is computed from queries only. -/
theorem disciplined_destinationIds {post : Except DbError α → Phase → Tables → Prop} {jobId : String}
    {position : Option ℕ} {source destination : Option String} {sourceIds : List String} {f : List String → DbM α}
    {d₀ : Tables} (h : ∀ ids, Disciplined idsKept post (f ids) .clean d₀) (herr : ∀ e, post (.error e) .clean d₀) :
    Disciplined idsKept post ((destinationIds jobId position source destination sourceIds).bind f) .clean d₀ := by
  unfold destinationIds
  split
  · split
    · simp only [Prog.bind_eq, Prog.bind_assoc]
      refine disciplined_query fun d _ => ?_
      split
      · exact herr _
      · exact h _
    · exact h _
  · exact disciplined_query fun d _ => h _

/-- An edit that took effect, up to its answer. -/
theorem disciplined_edited {jobId : String} {ids : List String} {d₀ d : Tables}
    (hfound : ∀ d', idsKept.le d₀ d' → ∃ j, findJob d' jobId = some j) (hd : idsKept.le d₀ d) :
    Disciplined idsKept (EndsWell (outcome fun _ => true)) (do
      let _ ← execute (renumber ids)
      commit
      let updated ← Database.getJob jobId
      match updated with
      | none => .raise (.runtimeError "queued job disappeared after update")
      | some updated => return updated) .dirty d := by
  refine disciplined_pending (keepsIds_renumber _) fun n d₁ hd₁ =>
    disciplined_readBack (fun d₂ hd₂ => ?_) fun j => by simp
  exact hfound d₂ (idsKept.trans hd (idsKept.trans hd₁ hd₂))

theorem honest_updatePendingJob (jobId : String) (workerId : Option String) (position : Option ℕ)
    (name : Option String) (expectedSeconds gpuCount : Option ℕ) :
    Honest (Database.updatePendingJob jobId workerId position name expectedSeconds gpuCount) fun _ => true := by
  intro d₀
  rw [Database.updatePendingJob, disciplined_withLock]
  refine disciplined_query fun d _ => ?_
  split
  · simp
  · next row hrow =>
    split
    · simp
    · refine disciplined_query fun d _ => ?_
      split
      · simp
      · next destination hdestination =>
        split
        · simp
        · refine disciplined_query fun d _ => disciplined_destinationIds (fun ids => ?_) fun e => by simp
          refine disciplined_execute (keepsIds_updateJobs fun d j _ => rfl) (.inl rfl) (fun d _ h => ?_)
            (fun d _ h => ?_)
          · simp
          · rw [if_neg h]
            have hfound : ∀ d', idsKept.le ((update jobsTable (fun _ => pendingRow jobId)
                (Job.edited row (destinationOf workerId row) name expectedSeconds gpuCount)).apply d) d' →
                ∃ j, findJob d' jobId = some j :=
              fun d' hd' => findJob_of_kept h hd' (fun _ _ hj => (pendingRow_iff.mp hj).1) fun _ => rfl
            split
            · simp only [Prog.bind_eq]
              exact disciplined_pending (keepsIds_renumber _) fun n d₁ hd₁ => disciplined_edited hfound hd₁
            · exact disciplined_edited hfound (idsKept.refl _)

theorem honest_upsertWorker (reg : WorkerRegistration) (now : ℕ) :
    Honest (Database.upsertWorker reg now) fun _ => true := by
  intro d₀
  refine disciplined_query fun d _ => ?_
  split
  · refine disciplined_execute (keepsIds_updateWorkers _ _) (.inl rfl) (fun d _ h => ?_) (fun d _ h => ?_)
    · simp
    · simp
  · refine disciplined_insertRow (keepsIds_insertWorker _) fun d => ?_
    simp

/-- A report that was upserted, up to its answer. -/
theorem disciplined_reported (workerId : String) (report : WorkerJobReport) {ph : Phase} (d : Tables)
    (changed : Bool)
    (hph : ph = .clean ∨ ph = .dirty) : Disciplined idsKept (EndsWell (outcome fun _ => true)) (do
      let row ← query (findJob · report.id)
      match row with
      | none =>
        rollback
        .raise (.runtimeError "worker job report was not persisted")
      | some job =>
        if job.workerId ≠ some workerId ∨ job.originSessionId ≠ some report.originSessionId then
          rollback
          .raise (.valueError "job identity does not belong to worker origin session")
        else
          commit
          return (job, changed)) ph d := by
  refine disciplined_query fun d _ => ?_
  split
  · rcases hph with rfl | rfl <;> simp
  · split
    · rcases hph with rfl | rfl <;> simp
    · rcases hph with rfl | rfl <;> simp

theorem honest_upsertReportedWorkerJob (workerId : String) (report : WorkerJobReport) :
    Honest (Database.upsertReportedWorkerJob workerId report) fun _ => true := by
  intro d₀
  rw [Database.upsertReportedWorkerJob, disciplined_withLock]
  refine disciplined_query fun d _ => ?_
  split
  · simp
  · next session hsession =>
    split
    · simp
    · exact disciplined_execute (keepsIds_upsertReport workerId report) (.inl rfl)
        (fun d _ h => disciplined_reported workerId report _ _ (.inl rfl))
        (fun d _ h => disciplined_reported workerId report _ _ (.inr rfl))

theorem honest_insertPiSessionEvent (event : PiSessionEvent) :
    Honest (Database.insertPiSessionEvent event) fun _ => true := by
  intro d₀
  refine disciplined_execute (keepsIds_insertEvent event) (.inl rfl) (fun d _ h => ?_) (fun d _ h => ?_)
  · simp
  · simp

theorem honest_finishPiSession (sessionId : String) (state : PiSessionState) (detail : String) (now : ℕ) :
    Honest (Database.finishPiSession sessionId state detail now) fun _ => true := by
  intro d₀
  rw [Database.finishPiSession, disciplined_withLock]
  refine disciplined_execute (keepsIds_updateSessions fun _ => rfl) (.inl rfl) (fun d _ h => ?_) (fun d _ h => ?_)
  · simp
  · simp

theorem honest_enqueuePiSessionCommand (command : PiSessionCommand) (now : ℕ) :
    Honest (Database.enqueuePiSessionCommand command now) fun _ => true := by
  intro d₀
  rw [Database.enqueuePiSessionCommand, disciplined_withLock]
  refine disciplined_insertRow (keepsIds_insertCommand command) fun d => ?_
  refine disciplined_execute (keepsIds_updateSessions fun _ => rfl) (.inr rfl) (fun d _ h => ?_) (fun d _ h => ?_)
  · simp
  · simp

/-- A failed check raises before any row has changed. -/
theorem disciplined_check {ok : α → Bool} {r : Except DbError β} {f : β → DbM α} {d₀ : Tables}
    (h : ∀ b, Disciplined idsKept (EndsWell (outcome ok)) (f b) .clean d₀) :
    Disciplined idsKept (EndsWell (outcome ok)) ((Prog.ofExcept r).bind f) .clean d₀ := by
  cases r with
  | ok b => exact h b
  | error e => exact .inl rfl

theorem honest_ackPiSessionCommand (sessionId commandId incarnation : String) (now : ℕ) :
    Honest (Database.ackPiSessionCommand sessionId commandId incarnation now) id := by
  intro d₀
  rw [Database.ackPiSessionCommand, disciplined_withLock]
  refine disciplined_query fun d _ => disciplined_check fun session => disciplined_query fun d _ => ?_
  refine disciplined_execute (keepsIds_updateCommands _ _) (.inl rfl) (fun d _ h => ?_) (fun d _ h => ?_)
  · simp
  · split
    · refine disciplined_execute (keepsIds_updateSessions fun _ => rfl) (.inr rfl) (fun d' _ _ => ?_)
        (fun d' _ _ => ?_)
      · simp [h]
      · simp [h]
    · simp [h]

/-- The inserts of a batch leave the transaction open. -/
theorem disciplined_insertBatchEvents {post : Except DbError α → Phase → Tables → Prop}
    {sessionId : String} {now : ℕ}
    {uuid : ℕ → String} (es : List (PiIngestEvent × ℕ)) {f : List PiSessionEvent → DbM α} {ph : Phase} {d₀ : Tables}
    (hph : ph = .clean ∨ ph = .dirty)
    (h : ∀ rows ph' d', ph' = .clean ∨ ph' = .dirty → Disciplined idsKept post (f rows) ph' d') :
    Disciplined idsKept post ((insertBatchEvents sessionId now uuid es).bind f) ph d₀ := by
  induction es generalizing f ph d₀ with
  | nil => exact h [] ph d₀ hph
  | cons e es ih =>
    simp only [insertBatchEvents, Prog.bind_eq, Prog.bind_assoc]
    exact disciplined_execute (keepsIds_insertEvent _) hph
      (fun d _ _ => ih hph fun rows ph' d' hph' => h _ ph' d' hph')
      (fun d _ _ => ih (.inr rfl) fun rows ph' d' hph' => h _ ph' d' hph')

theorem honest_applyInteractivePiEvents (sessionId : String) (payload : PiBridgeEventBatch) (now : ℕ)
    (uuid : ℕ → String) : Honest (Database.applyInteractivePiEvents sessionId payload now uuid) fun _ => true := by
  intro d₀
  rw [Database.applyInteractivePiEvents, disciplined_withLock]
  refine disciplined_query fun d _ => disciplined_check fun session => ?_
  refine disciplined_insertBatchEvents _ (.inl rfl) fun rows ph d' hph => ?_
  have hend : ∀ session' : PiSession, Disciplined idsKept (EndsWell (outcome fun _ => true)) (do
      let _ ← execute (update sessionsTable (fun _ s => s.id = sessionId) (PiSession.reported session' now))
      commit
      return (session', rows)) ph d' := by
    intro session'
    refine disciplined_execute (keepsIds_updateSessions fun _ => rfl) hph (fun d _ _ => ?_) (fun d _ _ => ?_)
    · rcases hph with rfl | rfl <;> simp
    · simp
  split
  · exact disciplined_query fun d _ => hend _
  · exact hend _

/-- A snapshot message adds at most one event. -/
theorem disciplined_insertInitialEvent {post : Except DbError Unit → Phase → Tables → Prop} {sessionId : String}
    {now : ℕ} {event : PiIngestEvent} {uuid : String} {d₀ : Tables}
    (h : ∀ d, idsKept.le d₀ d → post (.ok ()) .dirty d) :
    Disciplined idsKept post (insertInitialEvent sessionId now event uuid) .dirty d₀ := by
  have hd₀ := h d₀ (idsKept.refl d₀)
  unfold insertInitialEvent
  split
  · exact hd₀
  · split
    · exact hd₀
    · split
      · exact hd₀
      · refine disciplined_query fun d _ => ?_
        split
        · exact hd₀
        · exact disciplined_execute (keepsIds_insertEvent _) (.inr rfl) (fun d _ _ => hd₀)
            fun d hd _ => h _ (idsKept.trans hd (keepsIds_insertEvent _ d))

/-- A session that was inserted or updated is found as long as no session disappears. -/
theorem findSession_of_upserted {payload : PiBridgeRegister} {now createdAt : ℕ} {d d' : Tables}
    (hd : idsKept.le ((upsertSession payload now createdAt).apply d) d') :
    ∃ s, findSession d' payload.sessionId = some s := by
  have hfind := find?_upsertedSessions payload now createdAt d.sessions payload.sessionId
  rw [if_pos rfl] at hfind
  have hsome : ((upsertedSessions payload now createdAt d.sessions).find? fun s => s.id =
    payload.sessionId).isSome =
      true := by
    rw [hfind]
    split <;> rfl
  obtain ⟨s, hs, hid⟩ := List.find?_isSome.mp hsome
  obtain ⟨s', hs', hid'⟩ := List.mem_map.mp (hd.2 (List.mem_map.mpr ⟨s, hs, of_decide_eq_true hid⟩))
  rw [← Option.isSome_iff_exists, findSession, List.find?_isSome]
  exact ⟨s', hs', decide_eq_true hid'⟩

/-- A registration once its row is written, up to its answer. -/
theorem disciplined_registered (payload : PiBridgeRegister) (now : ℕ) (uuid : ℕ → String) {d₁ d : Tables}
    (hsession : ∀ d', idsKept.le d₁ d' → ∃ s, findSession d' payload.sessionId = some s) (hd : idsKept.le d₁ d) :
    Disciplined idsKept (EndsWell (outcome fun _ => true)) (do
      let _ ← execute (update commandsTable
        (fun _ => PiSessionCommand.heldByOther payload.sessionId payload.incarnation) PiSessionCommand.released)
      Prog.forEach (fun e => insertInitialEvent payload.sessionId now e.1 (uuid e.2)) payload.initialEvents.zipIdx
      commit
      let session ← getPiSession payload.sessionId
      match session with
      | none => .raise .assertionError
      | some session => return session) .dirty d := by
  refine disciplined_pending (keepsIds_updateCommands _ _) fun n d₂ hd₂ => ?_
  simp only [Prog.bind_eq]
  rw [disciplined_bind]
  refine Disciplined.forEach (J := fun ph d => ph = .dirty ∧ idsKept.le d₁ d) ?_ ?_ _ ⟨rfl, idsKept.trans hd hd₂⟩
  · rintro e ph d ⟨rfl, hd⟩
    exact disciplined_insertInitialEvent fun d'' hd'' => ⟨rfl, idsKept.trans hd hd''⟩
  · rintro ph d ⟨rfl, hd⟩
    simp only
    rw [disciplined_bind, disciplined_commit, if_pos rfl]
    refine disciplined_query fun d'' hd'' => ?_
    obtain ⟨s, hs⟩ := hsession d'' (idsKept.trans hd hd'')
    simp [hs]

theorem honest_registerInteractivePiSession (payload : PiBridgeRegister) (now : ℕ) (uuid : ℕ → String) :
    Honest (Database.registerInteractivePiSession payload now uuid) fun _ => true := by
  intro d₀
  rw [Database.registerInteractivePiSession, disciplined_withLock]
  refine disciplined_query fun d _ => ?_
  split
  · simp
  · refine disciplined_execute (keepsIds_upsertSession _ _ _) (.inl rfl) (fun d _ h => by cases h) (fun d _ _ => ?_)
    generalize hd₁ : (upsertSession payload now _).apply d = d₁
    -- The session is there from now on, so the read after the commit finds it.
    have hsession : ∀ d', idsKept.le d₁ d' → ∃ s, findSession d' payload.sessionId = some s := fun d' hd' =>
      findSession_of_upserted (hd₁ ▸ hd')
    split
    · simp only [Prog.bind_eq]
      exact disciplined_pending (keepsIds_updateSessions fun _ => rfl) fun n d' hd' =>
        disciplined_registered payload now uuid hsession hd'
    · exact disciplined_registered payload now uuid hsession (idsKept.refl d₁)

theorem honest_listed {p : DbM Bool} (h : p ∈ listed) (d₀ : Tables) :
    Disciplined idsKept (EndsWell success) p .clean d₀ := by
  obtain ⟨op, rfl⟩ := h
  cases op with
  | claimQueuedJob jobId gpuIndices startedAt workerId =>
    exact disciplined_reporting (honest_claimQueuedJob _ _ _ _) d₀
  | insertQueuedJob job => exact disciplined_reporting (honest_insertQueuedJob job) d₀
  | updatePendingJob jobId workerId position name expectedSeconds gpuCount =>
    exact disciplined_reporting (honest_updatePendingJob _ _ _ _ _ _) d₀
  | failPendingJob jobId finishedAt => exact disciplined_reporting (honest_failPendingJob _ _) d₀
  | reconcileStartingJob jobId launchObserved now =>
    exact disciplined_reporting (honest_reconcileStartingJob _ _ _) d₀
  | enqueuePiSessionCommand command now => exact disciplined_reporting (honest_enqueuePiSessionCommand _ _) d₀
  | applyInteractivePiEvents sessionId payload now uuid =>
    exact disciplined_reporting (honest_applyInteractivePiEvents _ _ _ _) d₀
  | registerInteractivePiSession payload now uuid =>
    exact disciplined_reporting (honest_registerInteractivePiSession _ _ _) d₀
  | ackPiSessionCommand sessionId commandId incarnation now =>
    exact disciplined_reporting (honest_ackPiSessionCommand _ _ _ _) d₀
  | finishPiSession sessionId state detail now => exact disciplined_reporting (honest_finishPiSession _ _ _ _) d₀
  | insertPiSessionEvent event => exact disciplined_reporting (honest_insertPiSessionEvent event) d₀
  | upsertReportedWorkerJob workerId report => exact disciplined_reporting (honest_upsertReportedWorkerJob _ _) d₀
  | insertJob job => exact disciplined_reporting (honest_insertJob job) d₀
  | updateJob job => exact disciplined_reporting (honest_updateJob job) d₀
  | upsertWorker reg now => exact disciplined_reporting (honest_upsertWorker reg now) d₀

/-- In every run of listed methods in which each rollback is confined to the method that executes
it, a reported success has all of its row changes in the durable data, and a reported failure
has none. -/
theorem results_durable {d : Tables} {c : DatabasePool}
    (h : Pool.Reachable interp (Confined listed) ⟨d, [], [], []⟩ c) : KeepsPromises success c :=
  keepsPromises_of_disciplined (fun _ hp d₀ => honest_listed hp d₀) h

def twoSessions : Tables :=
  { sessions := [{ id := "s", bridgeIncarnation := some "A" }, { id := "t", bridgeIncarnation := some "B" }] }

def enqueueAndClaim (schedule : List ℕ) : List (Event (Sql Tables) DbLock DbError Bool Unit) :=
  .spawn (DatabaseOp.enqueuePiSessionCommand { id := "c", sessionId := "s" } 1).prog ::
    .spawn (DatabaseOp.claimQueuedJob "j" [] 1 "w").prog :: schedule.map fun t => .go t ()

theorem enqueueAndClaim_listed (schedule : List ℕ) (c : DatabasePool) :
    ∀ ev ∈ enqueueAndClaim schedule, Interleaved listed c ev := by
  intro ev hev
  simp only [enqueueAndClaim, List.mem_cons, List.mem_map] at hev
  rcases hev with rfl | rfl | ⟨t, -, rfl⟩
  · exact ⟨_, rfl⟩
  · exact ⟨_, rfl⟩
  · trivial

/-- The enqueue commits between the claim's update and its rollback. -/
theorem results_durable_enqueueAndClaim : ∃ c : DatabasePool,
    c.Finished 0 (.ok true) ∧ c.Finished 1 (.ok false) ∧ c.state.AllDurable 0 ∧ c.state.NoneDurable 1 := by
  have hrun : ((Pool.checkedRun interp confinedAt ⟨⟨twoSessions, [], [], []⟩, []⟩
      (enqueueAndClaim [0, 0, 1, 1, 0, 0, 0, 1, 1])).map fun c : DatabasePool => (c.result 0, c.result 1)) =
        some (some (.ok true), some (.ok false)) := by decide
  obtain ⟨c, hc, hobs⟩ := Option.map_eq_some_iff.mp hrun
  simp only [Prod.mk.injEq] at hobs
  have h₀ := Pool.finished_of_result hobs.1
  have h₁ := Pool.finished_of_result hobs.2
  have hkeeps := results_durable (Pool.Reachable.checkedRun .init
    (fun d ev hev => confined_of_confinedAt (enqueueAndClaim_listed _ d ev hev)) hc)
  exact ⟨c, h₀, h₁, hkeeps 0 _ h₀, hkeeps 1 _ h₁⟩

/-- The enqueue reports success, and its command is in no durable data: the claim has rolled the
insert back. -/
theorem enqueue_loses_command : ∃ c : DatabasePool,
    Pool.Reachable interp (Interleaved listed) ⟨twoSessions, [], [], []⟩ c ∧ c.Finished 0 (.ok true) ∧
      c.state.durable.commands = [] ∧ ¬KeepsPromises success c := by
  have hrun : ((Pool.run interp ⟨⟨twoSessions, [], [], []⟩, []⟩ (enqueueAndClaim [0, 0, 1, 1, 1, 1, 0, 0, 0])).map
      fun c : DatabasePool => (c.result 0, c.state.durable.commands, (ofOp 0 c.state.journal).length,
        (ofOp 0 c.state.executed).length)) = some (some (.ok true), [], 1, 2) := by decide
  obtain ⟨c, hc, hobs⟩ := Option.map_eq_some_iff.mp hrun
  simp only [Prod.mk.injEq] at hobs
  obtain ⟨hres, hcommands, hjournal, hexecuted⟩ := hobs
  have hfin := Pool.finished_of_result hres
  refine ⟨c, Pool.Reachable.run .init (enqueueAndClaim_listed _) hc, hfin, hcommands, fun hk => ?_⟩
  have hall : c.state.AllDurable 0 := hk 0 _ hfin
  have hlen := congrArg List.length hall.1
  omega

end WorkerHarness.LostWrites
