import WorkerHarness.JobManager
import WorkerHarness.QueueRefinement

/-!
# Recovery and the order of claims

A history of the managed queue with the log of its successful claims. The reconciler
returns the claimed jobs of a worker to its queue in the order of `(started_at,
queue_order, id)`. That is the order of the log exactly when, among jobs claimed in one
second, the earlier claim has the smaller queue order.
-/

namespace WorkerHarness.RecoveryOrder

open Coroutines SortedLists Database JobQueues QueueRefinement

/-- Inserts of SSH jobs, claims at a clock that does not go back, edits, moves, cancellations,
settled claims, and changes of the worker table. -/
def Allowed (clock : ℕ) : QueueOp → Prop
  | .insertQueuedJob job => job.kind = .ssh
  | .claimQueuedJob _ _ startedAt _ => clock ≤ startedAt
  | .updatePendingJob _ _ position _ _ _ => ∀ p, position = some p → 1 ≤ p
  | .failPendingJob _ _ => True
  | .reconcileStartingJob _ _ _ => True
  | .upsertWorker _ _ => True
  | .pruneWorkers _ => True
  | _ => False

def clockAfter (clock : ℕ) : QueueOp → ℕ
  | .claimQueuedJob _ _ startedAt _ => startedAt
  | _ => clock

def logAfter (d : Tables) (log : List String) (op : QueueOp) : List String :=
  match op with
  | .claimQueuedJob jobId _ _ _ => if (op.run d).1 = .ok none then log else otherIds jobId log ++ [jobId]
  | _ => log

/-- The tables of a history, its clock, and the ids of the claimed jobs in the order of their
last claims. -/
inductive History : Tables → ℕ → List String → Prop where
  | empty : History {} 0 []
  | step {d : Tables} {clock : ℕ} {log : List String} {op : QueueOp} :
      History d clock log → Allowed clock op → History (op.run d).2 (clockAfter clock op) (logAfter d log op)
  | workers {d : Tables} {clock : ℕ} {log : List String} (ws : List Worker) :
      History d clock log → History { d with workers := ws } clock log

def replayHistory (ops : List QueueOp) : Tables × ℕ × List String :=
  ops.foldl (fun h op => ((op.run h.1).2, clockAfter h.2.1 op, logAfter h.1 h.2.2 op)) ({}, 0, [])

def AllAllowed : ℕ → List QueueOp → Prop
  | _, [] => True
  | clock, op :: ops => Allowed clock op ∧ AllAllowed (clockAfter clock op) ops

theorem History.of_replay {ops : List QueueOp} (hops : AllAllowed 0 ops) :
    History (replayHistory ops).1 (replayHistory ops).2.1 (replayHistory ops).2.2 := by
  suffices hfold : ∀ (ops : List QueueOp) (h : Tables × ℕ × List String), History h.1 h.2.1 h.2.2 →
      AllAllowed h.2.1 ops → ∀ h', h' = ops.foldl
        (fun h op => ((op.run h.1).2, clockAfter h.2.1 op, logAfter h.1 h.2.2 op)) h →
          History h'.1 h'.2.1 h'.2.2 from
    hfold ops ({}, 0, []) .empty hops _ rfl
  intro ops
  induction ops with
  | nil =>
    rintro h hh - _ rfl
    exact hh
  | cons op ops ih =>
    rintro h hh ⟨hop, hops⟩ _ rfl
    exact ih _ (hh.step hop) hops _ rfl

def claimedRows (log : List String) (d : Tables) (w : String) : List Job :=
  log.filterMap fun id => d.jobs.find? fun j =>
    decide (j.id = id) && decide (j.status = .starting) && decide (j.workerId = some w)

/-- What a history says about the rows, whatever their positions: all are managed SSH jobs, the
claimed ones are in the log, and their claim times follow the log and the clock. -/
structure Chronicle (jobs : List Job) (clock : ℕ) (log : List String) : Prop where
  rows : ∀ j ∈ jobs, j.queueManaged = true ∧ j.kind = .ssh
  nodup : log.Nodup
  logged : ∀ j ∈ jobs, j.status = .starting → j.id ∈ log
  past : ∀ j ∈ jobs, j.status = .starting → j.startedAt ≤ clock
  ordered : log.Pairwise fun a b => ∀ ja ∈ jobs, ∀ jb ∈ jobs, ja.id = a → jb.id = b →
    ja.status = .starting → jb.status = .starting → ja.startedAt ≤ jb.startedAt

variable {jobs jobs' : List Job} {clock : ℕ} {log : List String}

/-- A change that claims nothing. -/
theorem Chronicle.quiet (h : Chronicle jobs clock log)
    (hq : ∀ j ∈ jobs', j ∈ jobs ∨ j.status ≠ .starting ∧ j.queueManaged = true ∧ j.kind = .ssh) :
    Chronicle jobs' clock log := by
  have hold : ∀ j ∈ jobs', j.status = .starting → j ∈ jobs := fun j hj hs =>
    (hq j hj).resolve_right fun hn => hn.1 hs
  refine ⟨fun j hj => ?_, h.nodup, fun j hj hs => h.logged j (hold j hj hs) hs,
    fun j hj hs => h.past j (hold j hj hs) hs, h.ordered.imp fun hab ja ha jb hb hia hib hsa hsb =>
      hab ja (hold ja ha hsa) jb (hold jb hb hsb) hia hib hsa hsb⟩
  rcases hq j hj with hj | ⟨-, hm, hk⟩
  · exact h.rows j hj
  · exact ⟨hm, hk⟩

theorem mem_setRow {id : String} {f : Job → Job} {j' : Job} (h : j' ∈ setRow id f jobs) :
    j' ∈ jobs ∧ j'.id ≠ id ∨ ∃ j ∈ jobs, j.id = id ∧ j' = f j := by
  obtain ⟨j, hj, rfl⟩ := List.mem_map.mp h
  by_cases hid : j.id = id
  · exact .inr ⟨j, hj, hid, by simp [hid]⟩
  · rw [if_neg (by simpa using hid)]
    exact .inl ⟨hj, hid⟩

/-- A claim at the current time goes to the end of the log. -/
theorem Chronicle.claim (h : Chronicle jobs clock log) {jobId : String} {gpuIndices : List ℕ} {startedAt : ℕ}
    (ht : clock ≤ startedAt) :
    Chronicle (setRow jobId (Job.claimed gpuIndices startedAt) jobs) startedAt (otherIds jobId log ++ [jobId]) := by
  refine ⟨fun j hj => ?_, ?_, fun j hj hs => ?_, fun j hj hs => ?_, ?_⟩
  · rcases mem_setRow hj with ⟨hj, -⟩ | ⟨a, ha, -, rfl⟩
    · exact h.rows j hj
    · exact h.rows a ha
  · refine List.nodup_append.mpr ⟨h.nodup.filter _, List.nodup_singleton _, fun a ha b hb => ?_⟩
    rw [List.mem_singleton.mp hb]
    exact of_decide_eq_true (List.mem_filter.mp ha).2
  · rcases mem_setRow hj with ⟨hj, hne⟩ | ⟨a, -, hid, rfl⟩
    · exact List.mem_append_left _ (List.mem_filter.mpr ⟨h.logged j hj hs, by simpa using hne⟩)
    · exact List.mem_append_right _ (List.mem_singleton.mpr hid)
  · rcases mem_setRow hj with ⟨hj, -⟩ | ⟨a, -, -, rfl⟩
    · exact (h.past j hj hs).trans ht
    · exact le_rfl
  · refine List.pairwise_append.mpr ⟨?_, List.pairwise_singleton _ _, ?_⟩
    · refine (h.ordered.filter _).imp_of_mem fun ha hb hab ja hja jb hjb hia hib => ?_
      have hna := (List.mem_filter.mp ha).2
      have hnb := (List.mem_filter.mp hb).2
      simp only [decide_eq_true_eq] at hna hnb
      have hja' := (mem_setRow hja).resolve_right fun ⟨a, _, hid, heq⟩ => hna (by rw [← hia, heq]; exact hid)
      have hjb' := (mem_setRow hjb).resolve_right fun ⟨a, _, hid, heq⟩ => hnb (by rw [← hib, heq]; exact hid)
      exact hab ja hja'.1 jb hjb'.1 hia hib
    · intro a ha b hb ja hja jb hjb hia hib hsa hsb
      have hna := (List.mem_filter.mp ha).2
      simp only [decide_eq_true_eq] at hna
      have hja' := (mem_setRow hja).resolve_right fun ⟨a, _, hid, heq⟩ => hna (by rw [← hia, heq]; exact hid)
      have hpast := (h.past ja hja'.1 hsa).trans ht
      rcases mem_setRow hjb with ⟨-, hne⟩ | ⟨c, -, -, rfl⟩
      · exact absurd (hib.trans (List.mem_singleton.mp hb)) hne
      · exact hpast

theorem Allowed.valid {d : Tables} {op : QueueOp} (h : Allowed clock op) : op.Valid d := by
  cases op <;> first | exact h | trivial

/-- A row found by its id is the only row with that id. -/
theorem eq_of_find? (h : (jobs.map (·.id)).Nodup) {p : Job → Bool} {row a : Job} (hrow : jobs.find? p = some row)
    (ha : a ∈ jobs) (hid : a.id = row.id) : a = row :=
  eq_of_id_eq h ha (List.mem_of_find?_eq_some hrow) hid

theorem Chronicle.step {d : Tables} (hwo : WellOrdered d.jobs) (h : Chronicle (queueState d).jobs clock log)
    {op : QueueOp} (hop : Allowed clock op) :
    Chronicle (queueState (op.run d).2).jobs (clockAfter clock op) (logAfter d log op) := by
  have hrefines := (refines_of_valid hwo hop.valid).2
  have hfst : (op.run d).1 = (op.spec d.workers (queueState d)).1 := congrArg Prod.fst hrefines
  have hsnd : queueState (op.run d).2 = (op.spec d.workers (queueState d)).2 := congrArg Prod.snd hrefines
  have hids : ((queueState d).jobs.map (·.id)).Nodup := by
    rw [queueState, map_ids fun j _ => unplaced_id j]
    exact hwo.ids
  have hsame : ∀ j ∈ (queueState d).jobs, j ∈ (queueState d).jobs ∨
      j.status ≠ .starting ∧ j.queueManaged = true ∧ j.kind = .ssh := fun j hj => .inl hj
  rw [hsnd]
  cases op with
  | insertQueuedJob job =>
    simp only [QueueOp.spec, QueueState.insertQueued, clockAfter, logAfter]
    split
    · exact h
    · refine h.quiet fun j hj => ?_
      rcases List.mem_append.mp hj with hj | hj
      · exact .inl hj
      · rw [List.mem_singleton.mp hj]
        exact .inr ⟨by simp [Job.enqueued], rfl, hop⟩
  | claimQueuedJob jobId gpuIndices startedAt workerId =>
    simp only [QueueOp.spec, QueueState.claim] at hfst ⊢
    have hlater : Chronicle (queueState d).jobs startedAt log :=
      ⟨h.rows, h.nodup, h.logged, fun j hj hs => (h.past j hj hs).trans hop, h.ordered⟩
    simp only [logAfter, clockAfter, hfst]
    split
    · exact hlater
    · split
      · exact h.claim hop
      · exact hlater
  | updatePendingJob jobId workerId position name expectedSeconds gpuCount =>
    simp only [QueueOp.spec, QueueState.edit, clockAfter, logAfter]
    cases hrow : (queueState d).jobs.find? fun j => decide (j.id = jobId) && j.queueManaged with
    | none => exact h
    | some row =>
      have hrid : row.id = jobId := by
        have := List.find?_some hrow
        simp only [Bool.and_eq_true, decide_eq_true_eq] at this
        exact this.1
      simp only
      split
      · exact h
      · next hs =>
        split
        · exact h
        · split
          · exact h
          · refine h.quiet fun j hj => ?_
            rcases mem_setRow hj with ⟨hj, -⟩ | ⟨a, ha, hid, rfl⟩
            · exact .inl hj
            · cases eq_of_find? hids hrow ha (hid.trans hrid.symm)
              refine .inr ⟨?_, (h.rows row ha).1, (h.rows row ha).2⟩
              show row.status ≠ .starting
              rw [not_not.mp hs]
              decide
  | failPendingJob jobId finishedAt =>
    simp only [QueueOp.spec, QueueState.failPending, clockAfter, logAfter]
    split
    · exact h
    · refine h.quiet fun j hj => ?_
      rcases mem_setRow hj with ⟨hj, -⟩ | ⟨a, ha, -, rfl⟩
      · exact .inl hj
      · exact .inr ⟨by simp [Job.cancelled], (h.rows a ha).1, (h.rows a ha).2⟩
  | reconcileStartingJob jobId launchObserved now =>
    simp only [QueueOp.spec, QueueState.reconcile, clockAfter, logAfter]
    split
    · exact h
    · split
      · refine h.quiet fun j hj => ?_
        rcases mem_setRow hj with ⟨hj, -⟩ | ⟨a, ha, -, rfl⟩
        · exact .inl hj
        · exact .inr ⟨by simp [Job.launched], (h.rows a ha).1, (h.rows a ha).2⟩
      · split
        · refine h.quiet fun j hj => ?_
          rcases mem_setRow hj with ⟨hj, -⟩ | ⟨a, ha, -, rfl⟩
          · exact .inl hj
          · exact .inr ⟨by simp [Job.recovered], (h.rows a ha).1, (h.rows a ha).2⟩
        · refine h.quiet fun j hj => ?_
          rcases mem_setRow hj with ⟨hj, -⟩ | ⟨a, ha, -, rfl⟩
          · exact .inl hj
          · exact .inr ⟨by simp [Job.neverLaunched], (h.rows a ha).1, (h.rows a ha).2⟩
  | upsertWorker reg now => exact h
  | pruneWorkers olderThanTs => exact h
  | insertJob job => cases hop
  | updateJob job => cases hop
  | deleteWorker workerId => cases hop

theorem History.sound {d : Tables} (h : History d clock log) :
    WellOrdered d.jobs ∧ Chronicle (queueState d).jobs clock log := by
  induction h with
  | empty =>
    refine ⟨⟨List.nodup_nil, fun w => ⟨by simp, by simp⟩⟩, ?_⟩
    exact ⟨by simp [queueState], List.nodup_nil, by simp [queueState], by simp [queueState], List.Pairwise.nil⟩
  | step _ hop ih => exact ⟨(refines_of_valid ih.1 hop.valid).1, ih.2.step ih.1 hop⟩
  | workers ws _ ih => exact ih

def Absent (a : Answer) : Prop := a.evidence = some (some false)

def Ready (q : QueueState) (j : Job) : Prop :=
  ∃ row ∈ q.jobs, row.id = j.id ∧ row.status = .starting ∧ row.queueManaged = true ∧ row.workerId = j.workerId

/-- Giving up one claim puts the job in front of its queue and leaves the other claims. -/
theorem reconcile_ready {d : Tables} (hwo : WellOrdered d.jobs) {j : Job} (hr : Ready (queueState d) j) (now : ℕ) :
    WellOrdered (atomically (reconcileStartingJob j.id false now) d).2.jobs ∧
      queueIds (atomically (reconcileStartingJob j.id false now) d).2.jobs =
        onQueue j.workerId (fun ids => j.id :: ids) (queueIds d.jobs) ∧
      ∀ j', j'.id ≠ j.id → Ready (queueState d) j' →
        Ready (queueState (atomically (reconcileStartingJob j.id false now) d).2) j' := by
  obtain ⟨row, hrow, hid, hs, hm, hw⟩ := hr
  have hids : ((queueState d).jobs.map (·.id)).Nodup := by
    rw [queueState, map_ids fun j _ => unplaced_id j]
    exact hwo.ids
  have hfind : (queueState d).jobs.find? (startingRow j.id) = some row := by
    cases hf : (queueState d).jobs.find? (startingRow j.id) with
    | none => simpa [startingRow, hid, hs] using List.find?_eq_none.mp hf row hrow
    | some a =>
      have ha := (startingRow_iff.mp (List.find?_some hf)).1
      rw [eq_of_find? hids hf hrow (hid.trans ha.symm)]
  obtain ⟨hwo', hrefines⟩ := refines_reconcileStartingJob hwo j.id false now
  have hstate : queueState (atomically (reconcileStartingJob j.id false now) d).2 =
      ((queueState d).reconcile j.id false now).2 := congrArg Prod.snd hrefines
  rw [QueueState.reconcile, hfind] at hstate
  simp only [Bool.false_eq_true, if_false, hm, if_true, hw] at hstate
  refine ⟨hwo', congrArg QueueState.queue hstate, fun j' hne hready => ?_⟩
  obtain ⟨row', hrow', hid', hs', hm', hw'⟩ := hready
  refine ⟨row', ?_, hid', hs', hm', hw'⟩
  rw [hstate]
  exact List.mem_map.mpr ⟨row', hrow', if_neg (by simpa [hid'] using hne)⟩

theorem findJob_of_ready {d : Tables} (hwo : WellOrdered d.jobs) {j : Job} (hr : Ready (queueState d) j) :
    ∃ row, findJob d j.id = some row ∧ row.status = .starting := by
  obtain ⟨u, hu, hid, hs, -, -⟩ := hr
  obtain ⟨row, hrow, rfl⟩ := List.mem_map.mp hu
  exact ⟨row, (findJob_eq_some hwo.ids).mpr ⟨hrow, hid⟩, hs⟩

/-- A database method in an undisturbed run. -/
theorem runs_database {α β : Type} {t : ℕ} {ok : Answer → Prop} {m : DbM β} {f : β → ManagerM α} {s s' : World}
    {r : Except JobError α} (h : ((JobManager.database m).bind f).Runs jobInterp t ok s r s') :
    (∃ b, (atomically m s.db).1 = .ok b ∧ (f b).Runs jobInterp t ok (s.withDb (atomically m s.db).2) r s') ∨
      ∃ e, (atomically m s.db).1 = .error e ∧ s' = s.withDb (atomically m s.db).2 ∧ r = .error (.database e) := by
  simp only [JobManager.database, Prog.bind_eq, Prog.call_bind] at h
  cases h with
  | perform _ hh h =>
    simp only [jobInterp, Option.some.injEq, Prod.mk.injEq] at hh
    obtain ⟨rfl, rfl⟩ := hh
    cases hm : (atomically m s.db).1 with
    | ok b =>
      rw [hm] at h
      exact .inl ⟨b, rfl, h⟩
    | error e =>
      rw [hm] at h
      cases h
      exact .inr ⟨e, rfl, rfl, rfl⟩

/-- The manager gives up the claim of a job whose probe answers absent. -/
theorem runs_reconcileStartingJob {manager t : ℕ} {worker : Worker} {j : Job} {s s' : World}
    {r : Except JobError Job}
    (h : (JobManager.reconcileStartingJob manager worker j).Runs jobInterp t Absent s r s')
    (hwo : WellOrdered s.db.jobs) (hr : Ready (queueState s.db) j) :
    ∃ now, s'.db = (atomically (reconcileStartingJob j.id false now) s.db).2 := by
  obtain ⟨row, hfind, hstatus⟩ := findJob_of_ready hwo hr
  have h := h.of_withLock
  simp only [JobManager.getJob, Prog.bind_eq, Prog.call_bind] at h
  cases h with
  | perform _ hh h =>
    simp only [jobInterp, Option.some.injEq, Prod.mk.injEq] at hh
    obtain ⟨rfl, rfl⟩ := hh
    rw [hfind] at h
    simp only [hstatus, ne_eq, not_true_eq_false, if_false, JobManager.ssh, Prog.bind_eq, Prog.call_bind] at h
    cases h with
    | perform hok hh h =>
      simp only [jobInterp] at hh
      split at hh
      · simp only [Option.some.injEq, Prod.mk.injEq] at hh
        obtain ⟨rfl, rfl⟩ := hh
        rw [show _ = _ from hok] at h
        simp only [Prog.pure_eq, Prog.ret_bind] at h
        cases h with
        | perform _ hh h =>
          simp only [jobInterp, Option.some.injEq, Prod.mk.injEq] at hh
          obtain ⟨rfl, -⟩ := hh
          obtain ⟨b, -, h⟩ | ⟨e, -, hs', -⟩ := runs_database h
          · cases h
            exact ⟨_, rfl⟩
          · rw [hs']
            exact ⟨_, rfl⟩
      · cases hh

/-- Recovering a list of claimed jobs one after the other reverses it into the queues. -/
theorem runs_recover {manager t : ℕ} {workers : List Worker} {js : List Job} {s s' : World}
    {r : Except JobError Unit}
    (h : (Prog.forEach (recoverOne manager workers) js).Runs jobInterp t Absent s r s')
    (hwo : WellOrdered s.db.jobs) (hready : ∀ j ∈ js, Ready (queueState s.db) j)
    (hworker : ∀ j ∈ js, ∃ worker ∈ workers, j.workerId = some worker.id) (hd : (js.map (·.id)).Nodup)
    (w : String) :
    queueIds s'.db.jobs w =
      ((js.filter fun j => j.workerId = some w).map (·.id)).reverse ++ queueIds s.db.jobs w := by
  induction js generalizing s with
  | nil =>
    cases h
    rfl
  | cons j js ih =>
    obtain ⟨hnot, hd⟩ := List.nodup_cons.mp hd
    have hfound : ∃ worker, workers.find? (fun worker => decide (j.workerId = some worker.id)) = some worker := by
      obtain ⟨worker, hmem, hw⟩ := hworker j (by simp)
      exact Option.isSome_iff_exists.mp (List.find?_isSome.mpr ⟨worker, hmem, by simpa using hw⟩)
    obtain ⟨worker, hfound⟩ := hfound
    simp only [Prog.forEach, recoverOne, hfound, logged] at h
    -- Whatever the reconciliation of `j` returns, the loop goes on with the other jobs.
    obtain ⟨now, s₁, hs₁, hrest⟩ : ∃ now s₁, s₁.db = (atomically (reconcileStartingJob j.id false now) s.db).2 ∧
        (Prog.forEach (recoverOne manager workers) js).Runs jobInterp t Absent s₁ r s' := by
      rw [Prog.bind_assoc] at h
      rcases h.of_bind with ⟨r₁, s₁, hatt, h⟩ | ⟨e, hatt, -⟩
      · obtain ⟨r', hrun, -⟩ := hatt.of_attempt
        obtain ⟨now, hs₁⟩ := runs_reconcileStartingJob hrun hwo (hready j (by simp))
        exact ⟨now, s₁, hs₁, h⟩
      · obtain ⟨r', -, hr⟩ := hatt.of_attempt
        cases hr
    obtain ⟨hwo', hqueue, hkeep⟩ := reconcile_ready hwo (hready j (by simp)) now
    rw [← hs₁] at hwo' hqueue hkeep
    have hne : ∀ j' ∈ js, j'.id ≠ j.id := fun j' hj' he => hnot (List.mem_map.mpr ⟨j', hj', he⟩)
    rw [ih hrest hwo' (fun j' hj' => hkeep j' (hne j' hj') (hready j' (by simp [hj'])))
      (fun j' hj' => hworker j' (by simp [hj'])) hd, hqueue]
    by_cases hw : j.workerId = some w
    · simp [hw, onQueue]
    · simp [hw, onQueue]

def startingRows (d : Tables) (w : String) : List Job :=
  d.jobs.filter fun j => decide (j.status = .starting) && decide (j.workerId = some w)

theorem mem_startingRows {d : Tables} {w : String} {j : Job} :
    j ∈ startingRows d w ↔ j ∈ d.jobs ∧ j.status = .starting ∧ j.workerId = some w := by
  simp [startingRows]

theorem mem_claimedRows {d : Tables} (hwo : WellOrdered d.jobs) (hc : Chronicle (queueState d).jobs clock log)
    {w : String} {j : Job} : j ∈ claimedRows log d w ↔ j ∈ startingRows d w := by
  rw [mem_startingRows, claimedRows, List.mem_filterMap]
  constructor
  · rintro ⟨id, -, hf⟩
    have hp := List.find?_some hf
    simp only [Bool.and_eq_true, decide_eq_true_eq] at hp
    exact ⟨List.mem_of_find?_eq_some hf, hp.1.2, hp.2⟩
  · rintro ⟨hj, hs, hw⟩
    refine ⟨j.id, hc.logged (unplaced j) (List.mem_map_of_mem hj) hs, ?_⟩
    cases hf : d.jobs.find? fun a =>
        decide (a.id = j.id) && decide (a.status = .starting) && decide (a.workerId = some w) with
    | none => simpa [hs, hw] using List.find?_eq_none.mp hf j hj
    | some a =>
      have hp := List.find?_some hf
      simp only [Bool.and_eq_true, decide_eq_true_eq] at hp
      rw [eq_of_id_eq hwo.ids (List.mem_of_find?_eq_some hf) hj hp.1.1]

/-- A pairwise fact about the log is one about the claimed rows. -/
theorem claimedRows_pairwise {d : Tables} {w : String} {R : String → String → Prop} {S : Job → Job → Prop}
    (h : log.Pairwise R) (hRS : ∀ a ∈ d.jobs, ∀ b ∈ d.jobs, a.status = .starting → b.status = .starting →
      R a.id b.id → S a b) : (claimedRows log d w).Pairwise S := by
  refine List.pairwise_filterMap.mpr (h.imp fun {x y} hxy a ha b hb => ?_)
  have hpa := List.find?_some ha
  have hpb := List.find?_some hb
  simp only [Bool.and_eq_true, decide_eq_true_eq] at hpa hpb
  refine hRS a (List.mem_of_find?_eq_some ha) b (List.mem_of_find?_eq_some hb) hpa.1.2 hpb.1.2 ?_
  rw [hpa.1.1, hpb.1.1]
  exact hxy

theorem claimedRows_perm {d : Tables} (hwo : WellOrdered d.jobs) (hc : Chronicle (queueState d).jobs clock log)
    (w : String) : (claimedRows log d w).Perm (startingRows d w) := by
  have hnodup : (claimedRows log d w).Nodup :=
    claimedRows_pairwise hc.nodup fun a _ b _ _ _ hab he => hab (congrArg Job.id he)
  exact (List.perm_ext_iff_of_nodup hnodup (hwo.ids.of_map.filter _)).mpr fun j => mem_claimedRows hwo hc

theorem recoveryKey_lt {a b : Job} : recoveryKey a < recoveryKey b ↔
    a.startedAt < b.startedAt ∨ a.startedAt = b.startedAt ∧ a.orderKey < b.orderKey := by
  simp [recoveryKey, Job.orderKey, Prod.Lex.toLex_lt_toLex]

theorem recoveryKeys_nodup {l : List Job} (h : (l.map (·.id)).Nodup) : (l.map recoveryKey).Nodup := by
  refine List.Nodup.of_map (fun key : ℕ ×ₗ ℕ ×ₗ String => (ofLex (ofLex key).2).2) ?_
  rw [List.map_map]
  exact h

/-- Rows of one table are determined by their ids. -/
theorem eq_of_map_id_eq (h : (jobs.map (·.id)).Nodup) {l l' : List Job} (hl : ∀ a ∈ l, a ∈ jobs)
    (hl' : ∀ a ∈ l', a ∈ jobs) (he : l.map (·.id) = l'.map (·.id)) : l = l' := by
  induction l generalizing l' with
  | nil => exact (List.map_eq_nil_iff.mp he.symm).symm
  | cons a l ih =>
    cases l' with
    | nil => cases he
    | cons b l' =>
      obtain ⟨hid, hrest⟩ := List.cons.inj he
      rw [eq_of_id_eq h (hl a (by simp)) (hl' b (by simp)) hid,
        ih (fun a ha => hl a (by simp [ha])) (fun a ha => hl' a (by simp [ha])) hrest]

/-- The recovery order is the claim order exactly when the queue orders settle the ties. -/
theorem recoveryOrder_eq_iff {d : Tables} (hwo : WellOrdered d.jobs) (hc : Chronicle (queueState d).jobs clock log)
    (w : String) : (sortOn recoveryKey (startingRows d w)).map (·.id) = (claimedRows log d w).map (·.id) ↔
      (claimedRows log d w).Pairwise fun a b => a.startedAt = b.startedAt → a.orderKey < b.orderKey := by
  have hperm := claimedRows_perm hwo hc w
  have hkeys : ((startingRows d w).map recoveryKey).Nodup :=
    recoveryKeys_nodup (hwo.ids.sublist (List.filter_sublist.map _))
  constructor
  · intro he
    have heq : sortOn recoveryKey (startingRows d w) = claimedRows log d w :=
      eq_of_map_id_eq hwo.ids (fun a ha => (mem_startingRows.mp (mem_sortOn.mp ha)).1)
        (fun a ha => (mem_startingRows.mp (hperm.mem_iff.mp ha)).1) he
    rw [← heq]
    refine (sortOn_pairwise_lt hkeys).imp fun hlt hsame => ?_
    rcases recoveryKey_lt.mp hlt with hlt | ⟨-, hlt⟩
    · omega
    · exact hlt
  · intro hties
    have hmono : (claimedRows log d w).Pairwise fun a b => a.startedAt ≤ b.startedAt :=
      claimedRows_pairwise hc.ordered fun a ha b hb hsa hsb hab =>
        hab (unplaced a) (List.mem_map_of_mem ha) (unplaced b) (List.mem_map_of_mem hb) rfl rfl hsa hsb
    refine congrArg _ (sortOn_eq hperm ((hmono.and hties).imp fun ⟨hle, htie⟩ => recoveryKey_lt.mpr ?_))
    rcases Nat.lt_or_eq_of_le hle with hlt | heq
    · exact .inl hlt
    · exact .inr ⟨heq, htie heq⟩

/-- The recovery phase puts the claimed rows of an online worker, in recovery order, in front of
its queue. -/
theorem runs_recoverStarting {manager t : ℕ} {s s' : World} {r : Except JobError (List Worker)}
    (h : (recoverStarting manager).Runs jobInterp t Absent s r s') (hwo : WellOrdered s.db.jobs)
    (hc : Chronicle (queueState s.db).jobs clock log) {worker : Worker} (hw : worker ∈ s.db.workers)
    (honline : worker.status = .online) :
    queueIds s'.db.jobs worker.id =
      (sortOn recoveryKey (startingRows s.db worker.id)).map (·.id) ++ queueIds s.db.jobs worker.id := by
  unfold recoverStarting at h
  simp only [Prog.bind_eq, Prog.pure_eq] at h
  obtain ⟨rows, hrows, h⟩ | ⟨e, he, -⟩ := runs_database h
  swap
  · cases he
  obtain ⟨jobs, hjobs, h⟩ | ⟨e, he, -⟩ := runs_database h
  swap
  · cases he
  cases hrows
  cases hjobs
  have hdb : (s.withDb (atomically listWorkers s.db).2).withDb
      (atomically (listJobs none (some .starting)) (s.withDb (atomically listWorkers s.db).2).db).2 = s :=
    (congrArg (fun s' => s'.withDb s.db) s.withDb_self).trans s.withDb_self
  rw [hdb] at h
  -- The objects that the loop recovers, restricted to this worker, are its claimed rows.
  have hmem : ∀ j, j ∈ recoverable (onlineWorkers (sortOn (·.name) s.db.workers))
    (jobRows s.db none (some .starting)) ↔
      j ∈ s.db.jobs ∧ j.status = .starting ∧
        ∃ worker ∈ onlineWorkers (sortOn (·.name) s.db.workers), j.workerId = some worker.id := by
    intro j
    simp only [recoverable, jobRows, List.mem_filter, mem_sortOn, Bool.and_eq_true, decide_eq_true_eq,
      List.any_eq_true]
    simp only [Option.isNone_none, Bool.true_or, true_and, Option.isNone_some, Bool.false_or, decide_eq_true_eq,
      Option.some.injEq, and_assoc]
    constructor
    · rintro ⟨hj, hs, -, hworker⟩
      exact ⟨hj, hs, hworker⟩
    · rintro ⟨hj, hs, hworker⟩
      exact ⟨hj, hs, (hc.rows (unplaced j) (List.mem_map_of_mem hj)).2, hworker⟩
  have hnodup : ((recoverable (onlineWorkers (sortOn (·.name) s.db.workers))
      (jobRows s.db none (some .starting))).map (·.id)).Nodup := by
    have hrows : ((jobRows s.db none (some .starting)).map (·.id)).Nodup := by
      unfold jobRows
      exact ((sortOn_perm _ _).map Job.id).nodup_iff.mpr (hwo.ids.sublist (List.filter_sublist.map _))
    exact hrows.sublist (List.filter_sublist.map _)
  have hloop : ∃ r', (Prog.forEach (recoverOne manager (onlineWorkers (sortOn (·.name) s.db.workers)))
      (sortOn recoveryKey (recoverable (onlineWorkers (sortOn (·.name) s.db.workers))
        (jobRows s.db none (some .starting)))).reverse).Runs jobInterp t Absent s r' s' := by
    rcases h.of_bind with ⟨_, s₁, hloop, hret⟩ | ⟨e, hloop, -⟩
    · cases hret
      exact ⟨_, hloop⟩
    · exact ⟨_, hloop⟩
  generalize recoverable (onlineWorkers (sortOn (·.name) s.db.workers)) (jobRows s.db none (some .starting)) =
    objects at hmem hnodup hloop
  obtain ⟨r', hloop⟩ := hloop
  have hobjects : ∀ j, j ∈ (sortOn recoveryKey objects).reverse ↔ j ∈ objects := fun j => by
    rw [List.mem_reverse, mem_sortOn]
  have hids : (((sortOn recoveryKey objects).reverse).map (·.id)).Nodup := by
    rw [List.map_reverse, List.nodup_reverse]
    exact ((sortOn_perm _ _).map _).nodup_iff.mpr hnodup
  have hready : ∀ j ∈ (sortOn recoveryKey objects).reverse, Ready (queueState s.db) j := by
    intro j hj
    obtain ⟨hjobs, hs, -⟩ := (hmem j).mp ((hobjects j).mp hj)
    exact ⟨unplaced j, List.mem_map_of_mem hjobs, rfl, hs,
      (hc.rows (unplaced j) (List.mem_map_of_mem hjobs)).1, rfl⟩
  have hrestrict : (objects.filter fun j => j.workerId = some worker.id).Perm (startingRows s.db worker.id) := by
    refine (List.perm_ext_iff_of_nodup (hnodup.of_map.filter _) (hwo.ids.of_map.filter _)).mpr fun j => ?_
    rw [List.mem_filter, hmem, decide_eq_true_eq, ← startingRows, mem_startingRows, and_assoc, and_assoc]
    refine and_congr_right fun _ => and_congr_right fun _ => and_iff_right_of_imp fun hwj => ?_
    exact ⟨worker, List.mem_filter.mpr ⟨mem_sortOn.mpr hw, by simpa using honline⟩, hwj⟩
  have hkeys : ((objects.filter fun j => j.workerId = some worker.id).map recoveryKey).Nodup :=
    recoveryKeys_nodup (hnodup.sublist (List.filter_sublist.map _))
  rw [runs_recover hloop hwo hready (fun j hj => ((hmem j).mp ((hobjects j).mp hj)).2.2) hids worker.id,
    List.filter_reverse, List.map_reverse, List.reverse_reverse, ← sortOn_filter _ (recoveryKeys_nodup hnodup),
    sortOn_congr hkeys hrestrict]

/-- After the recovery phase, with every probe absent, the queue of an online worker is its
claimed jobs in claim order followed by the jobs that waited before, exactly when among the
jobs claimed in one second the earlier claim has the smaller queue order. -/
theorem recovered_queue_eq_iff {d : Tables} (h : History d clock log) {manager t : ℕ} {s s' : World}
    {r : Except JobError (List Worker)} (hs : s.db = d)
    (hrun : (recoverStarting manager).Runs jobInterp t Absent s r s') {worker : Worker} (hw : worker ∈ d.workers)
    (honline : worker.status = .online) :
    queueIds s'.db.jobs worker.id =
        (claimedRows log d worker.id).map (·.id) ++ queueIds d.jobs worker.id ↔
      (claimedRows log d worker.id).Pairwise fun a b => a.startedAt = b.startedAt → a.orderKey < b.orderKey := by
  subst hs
  obtain ⟨hwo, hc⟩ := h.sound
  rw [runs_recoverStarting hrun hwo hc hw honline, List.append_left_inj, recoveryOrder_eq_iff hwo hc]

def orderedClaims : List QueueOp :=
  [.upsertWorker { workerId := "w", name := "w", gpuCount := 2 } 7,
    .insertQueuedJob { id := "z", workerId := some "w", gpuCount := 1 },
    .insertQueuedJob { id := "a", workerId := some "w", gpuCount := 1 },
    .claimQueuedJob "z" [0] 100 "w",
    .claimQueuedJob "a" [1] 100 "w"]

theorem orderedClaims_allowed : AllAllowed 0 orderedClaims := by
  simp [AllAllowed, orderedClaims, Allowed, clockAfter]

def orderedWorld : World := { db := (replayHistory orderedClaims).1 }

/-- The answers of an undisturbed recovery of two jobs without launch evidence. -/
def absentAnswers : List Answer := List.replicate 10 { evidence := some (some false) }

theorem absent_of_mem_absentAnswers {a : Answer} (ha : a ∈ absentAnswers) : Absent a := by
  rw [List.eq_of_mem_replicate ha]
  rfl

/-- Without a cancellation in between, the reconciler keeps the order of two such claims. -/
theorem recovered_queue_eq_iff_orderedClaims : ∃ (s' : World) (r : Except JobError (List Worker)),
    (recoverStarting 0).Runs jobInterp 0 Absent orderedWorld r s' ∧ queueIds s'.db.jobs "w" = ["z", "a"] := by
  have hrun : ((recoverStarting 0).replay jobInterp 0 orderedWorld absentAnswers).isSome = true := by decide
  obtain ⟨⟨r, s'⟩, hreplay⟩ := Option.isSome_iff_exists.mp hrun
  have hruns := Prog.runs_of_replay (fun a => absent_of_mem_absentAnswers) hreplay
  have hlog : (replayHistory orderedClaims).2 = (100, ["z", "a"]) := by decide
  have hhist := History.of_replay orderedClaims_allowed
  rw [hlog] at hhist
  have hworker : Worker.fromRegistration { workerId := "w", name := "w", gpuCount := 2 } 7 ∈
    orderedWorld.db.workers := by
    decide
  have hqueue := (recovered_queue_eq_iff hhist rfl hruns hworker rfl).mpr (by decide)
  exact ⟨s', r, hruns, hqueue.trans (by decide)⟩

/-- Two jobs are claimed in one second, with a cancellation in between that gives the second
claim the queue order of the first. -/
def tiedClaims : List QueueOp :=
  [.upsertWorker { workerId := "w", name := "w", gpuCount := 2 } 7,
    .insertQueuedJob { id := "z", workerId := some "w", gpuCount := 1 },
    .insertQueuedJob { id := "x", workerId := some "w", gpuCount := 1 },
    .insertQueuedJob { id := "a", workerId := some "w", gpuCount := 1 },
    .claimQueuedJob "z" [0] 100 "w",
    .failPendingJob "x" 100,
    .claimQueuedJob "a" [1] 100 "w"]

theorem tiedClaims_allowed : AllAllowed 0 tiedClaims := by
  simp [AllAllowed, tiedClaims, Allowed, clockAfter]

def tiedWorld : World := { db := (replayHistory tiedClaims).1 }

/-- The reconciler reverses two jobs that were claimed in one second. -/
theorem recovery_reverses_tied_claims : ∃ (s' : World) (r : Except JobError (List Worker)) (worker : Worker),
    History tiedWorld.db 100 ["z", "a"] ∧ (recoverStarting 0).Runs jobInterp 0 Absent tiedWorld r s' ∧
      worker ∈ tiedWorld.db.workers ∧ worker.status = .online ∧
      (claimedRows ["z", "a"] tiedWorld.db worker.id).map (·.id) = ["z", "a"] ∧
      queueIds tiedWorld.db.jobs worker.id = [] ∧ queueIds s'.db.jobs worker.id = ["a", "z"] := by
  have hrun : ((recoverStarting 0).replay jobInterp 0 tiedWorld absentAnswers).map
      (fun r => queueIds r.2.db.jobs "w") = some ["a", "z"] := by decide
  obtain ⟨⟨r, s'⟩, hreplay, hqueue⟩ := Option.map_eq_some_iff.mp hrun
  have hlog : (replayHistory tiedClaims).2 = (100, ["z", "a"]) := by decide
  have hhist := History.of_replay tiedClaims_allowed
  rw [hlog] at hhist
  refine ⟨s', r, Worker.fromRegistration { workerId := "w", name := "w", gpuCount := 2 } 7, hhist,
    Prog.runs_of_replay (fun a => absent_of_mem_absentAnswers) hreplay,
      by decide, rfl, by decide, by decide, hqueue⟩

end WorkerHarness.RecoveryOrder
