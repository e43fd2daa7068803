import WorkerHarness.AtomicSessions
import WorkerHarness.RevisionRegisters

/-!
# Reports of delegated jobs

The row of a delegated job is a register for the reports of its worker: it keeps the highest revision,
whatever the order in which the reports come in. No report of another worker or session touches it.
-/

namespace WorkerHarness.WorkerReports

open Coroutines SharedTransactions Database RevisionRegisters JobQueues

section Route

variable {M : Type → Type*} [Monad M] (upsert : WorkerJobReport → M (Except DbError (Job × Bool)))

/-- The loop over a batch, up to the first report that is refused, with the count of those that changed a row. -/
def applyReports : List WorkerJobReport → ℕ → M (Except DbError ℕ)
  | [], applied => return .ok applied
  | report :: jobs, applied => do
    match ← upsert report with
    | .ok (_, changed) => applyReports jobs (applied + changed.toNat)
    | .error e => return .error e

/-- `POST /pi/worker/{worker_id}/jobs` over the methods of the database: how many reports were received and applied,
or the status and the detail of the refusal. -/
def receiveReports (getWorker : M (Option Worker)) (raise : DbError → M (Except (ℕ × String) (ℕ × ℕ)))
    (jobs : List WorkerJobReport) :
    M (Except (ℕ × String) (ℕ × ℕ)) := do
  match ← getWorker with
  | none => return .error (404, "worker not found")
  | some _ =>
    match ← applyReports upsert jobs 0 with
    | .ok applied => return .ok (jobs.length, applied)
    | .error (.keyError _) => return .error (410, "origin session projection is gone")
    | .error (.valueError message) => return .error (404, message)
    | .error e => raise e

end Route

-- A method of the database whose exception the route looks at.
def upsert (workerId : String) (report : WorkerJobReport) : DbM (Except DbError (Job × Bool)) :=
  (upsertReportedWorkerJob workerId report).attempt

def workerPiJobs (workerId : String) (jobs : List WorkerJobReport) : DbM (Except (ℕ × String) (ℕ × ℕ)) :=
  receiveReports (upsert workerId) (getWorker workerId) .raise jobs

variable {workerId id : String} {report : WorkerJobReport} {d d' d'' : Tables} {j : Job}

def deliver (workerId : String) (report : WorkerJobReport) (d : Tables) : Except DbError (Job × Bool) × Tables :=
  atomically (upsertReportedWorkerJob workerId report) d

def SameOrigin (workerId : String) (report : WorkerJobReport) (j : Job) : Prop :=
  j.workerId = some workerId ∧ j.originSessionId = some report.originSessionId

def replaced (workerId : String) (report : WorkerJobReport) (d : Tables) : Tables :=
  withJobs d (updateRows (fun j => j.id = report.id) (fun _ => reportedJob workerId report) d.jobs)

inductive Delivery (workerId : String) (report : WorkerJobReport) (d : Tables) :
    Except DbError (Job × Bool) → Tables → Prop where
  | rejected (e : DbError) : Delivery workerId report d (.error e) d
  | inserted : findJob d report.id = none → Delivery workerId report d (.ok (reportedJob workerId report, true))
      (withJobs d (d.jobs ++ [reportedJob workerId report]))
  | updated (j : Job) : findJob d report.id = some j → SameOrigin workerId report j → j.kind = .delegated →
      j.reportRevision < report.reportRevision →
        Delivery workerId report d (.ok (reportedJob workerId report, true)) (replaced workerId report d)
  | kept (j : Job) : findJob d report.id = some j → SameOrigin workerId report j →
      (j.kind = .delegated → report.reportRevision ≤ j.reportRevision) →
        Delivery workerId report d (.ok (j, false)) d

theorem findJob_append_new (row : Job) (h : findJob d row.id = none) :
    findJob (withJobs d (d.jobs ++ [row])) row.id = some row := by
  have hnone : (d.jobs.find? fun j => decide (j.id = row.id)) = none := h
  simp [findJob, List.find?_append, hnone]

theorem findJob_replaced (d : Tables) (id : String) : findJob (replaced workerId report d) id =
    if id = report.id then (findJob d id).map fun _ => reportedJob workerId report else findJob d id := by
  have hq : (fun j : Job => decide (j.id = id)) ∘ (fun j => if decide (j.id = report.id) = true then
      reportedJob workerId report else j) = fun j => decide (j.id = id) := by
    funext j
    by_cases hj : j.id = report.id <;> simp [hj, reportedJob]
  simp only [findJob, replaced, withJobs_jobs, updateRows, List.find?_map, hq]
  cases hf : d.jobs.find? fun j => decide (j.id = id) with
  | none => simp
  | some j =>
    have hid : j.id = id := by simpa using List.find?_some hf
    by_cases h : id = report.id <;> simp [hid, h]

theorem ids_replaced (d : Tables) : (replaced workerId report d).jobs.map (·.id) = d.jobs.map (·.id) := by
  simp only [replaced, withJobs_jobs, updateRows, List.map_map]
  refine List.map_congr_left fun j _ => ?_
  simp only [Function.comp]
  split
  · next h => exact (of_decide_eq_true h).symm
  · rfl

theorem atomically_upsertReportedWorkerJob (workerId : String) (report : WorkerJobReport) (d : Tables) :
    deliver workerId report d =
      match d.sessions.find? fun s => s.id = report.originSessionId with
      | none => (.error (.keyError report.originSessionId), d)
      | some session =>
        if session.workerId ≠ some workerId then (.error (.valueError "origin session not found for worker"), d)
        else
          match findJob ((upsertReport workerId report).apply d) report.id with
          | none => (.error (.runtimeError "worker job report was not persisted"), d)
          | some job =>
            if job.workerId ≠ some workerId ∨ job.originSessionId ≠ some report.originSessionId then
              (.error (.valueError "job identity does not belong to worker origin session"), d)
            else (.ok (job, decide ((upsertReport workerId report).rowcount d ≠ 0)),
              (upsertReport workerId report).apply d) := by
  simp only [deliver, atomically, upsertReportedWorkerJob, alone_withLock]
  cases hs : d.sessions.find? fun s => decide (s.id = report.originSessionId) with
  | none => simp [hs]
  | some session =>
    by_cases hw : session.workerId = some workerId
    · cases hf : findJob ((upsertReport workerId report).apply d) report.id with
      | none => simp [hs, hw, hf]
      | some job =>
        by_cases hj : job.workerId ≠ some workerId ∨ job.originSessionId ≠ some report.originSessionId <;>
          simp [hs, hw, hf, hj]
    · simp [hs, hw]

/-- The statement on a new job. -/
theorem upsertReport_new (workerId : String) (h : findJob d report.id = none) :
    (upsertReport workerId report).apply d = withJobs d (d.jobs ++ [reportedJob workerId report]) ∧
      (upsertReport workerId report).rowcount d = 1 := by
  have hany : ¬(d.jobs.any fun j => j.id = report.id) = true := by
    simpa [findJob, List.find?_eq_none] using h
  exact ⟨if_neg hany, if_neg hany⟩

/-- The statement on a stored job that the report may replace. -/
theorem upsertReport_replaces (hnodup : (d.jobs.map (·.id)).Nodup) (h : findJob d report.id = some j)
    (hj : upsertReport.reported workerId report j = true) :
    (upsertReport workerId report).apply d = replaced workerId report d ∧
      (upsertReport workerId report).rowcount d ≠ 0 := by
  obtain ⟨hmem, hid⟩ := (findJob_eq_some hnodup).mp h
  have hany : (d.jobs.any fun j => j.id = report.id) = true := List.any_eq_true.mpr ⟨j, hmem, decide_eq_true hid⟩
  have hrows : updateRows (upsertReport.reported workerId report) (upsertReport.overwrite workerId report) d.jobs =
      updateRows (fun j => j.id = report.id) (fun _ => reportedJob workerId report) d.jobs := by
    refine List.map_congr_left fun j' hj' => ?_
    by_cases heq : j'.id = report.id
    · have hsame : j' = j := eq_of_id_eq hnodup hj' hmem (heq.trans hid.symm)
      subst hsame
      simp only [upsertReport.reported, Bool.and_eq_true, decide_eq_true_eq] at hj
      obtain ⟨⟨⟨⟨-, hworker⟩, horigin⟩, hkind⟩, hrevision⟩ := hj
      simp [upsertReport.reported, upsertReport.overwrite, heq, hworker, horigin, hkind, hrevision, reportedJob]
    · simp [upsertReport.reported, heq]
  refine ⟨(if_pos hany).trans (congrArg (withJobs d) hrows), ?_⟩
  change (if _ then _ else _) ≠ 0
  rw [if_pos hany]
  exact Nat.pos_iff_ne_zero.mp (List.length_pos_of_mem (List.mem_filter.mpr ⟨hmem, hj⟩))

/-- The statement on any other stored job. -/
theorem upsertReport_keeps (hnodup : (d.jobs.map (·.id)).Nodup) (h : findJob d report.id = some j)
    (hj : upsertReport.reported workerId report j = false) :
    (upsertReport workerId report).apply d = d ∧ (upsertReport workerId report).rowcount d = 0 := by
  obtain ⟨hmem, hid⟩ := (findJob_eq_some hnodup).mp h
  have hnone : ∀ j' ∈ d.jobs, upsertReport.reported workerId report j' = false := fun j' hj' => by
    by_cases heq : j'.id = report.id
    · rw [eq_of_id_eq hnodup hj' hmem (heq.trans hid.symm), hj]
    · simp [upsertReport.reported, heq]
  have hany : (d.jobs.any fun j => j.id = report.id) = true := List.any_eq_true.mpr ⟨j, hmem, decide_eq_true hid⟩
  have hcount : (upsertReport workerId report).rowcount d = 0 := by
    change (if _ then _ else _) = 0
    rw [if_pos hany, List.length_eq_zero_iff, List.filter_eq_nil_iff]
    exact fun j' hj' => Bool.eq_false_iff.mp (hnone j' hj')
  exact ⟨(upsertReport workerId report).unchanged d hcount, hcount⟩

theorem delivery_deliver (workerId : String) (report : WorkerJobReport) (hnodup : (d.jobs.map (·.id)).Nodup) :
    Delivery workerId report d (deliver workerId report d).1 (deliver workerId report d).2 := by
  rw [atomically_upsertReportedWorkerJob]
  split
  · exact .rejected _
  split
  · exact .rejected _
  cases hf : findJob d report.id with
  | none =>
    obtain ⟨happly, hcount⟩ := upsertReport_new workerId hf
    have hrow : findJob (withJobs d (d.jobs ++ [reportedJob workerId report])) report.id =
        some (reportedJob workerId report) := findJob_append_new (reportedJob workerId report) hf
    rw [happly, hcount, hrow]
    dsimp only
    rw [if_neg (by simp [reportedJob])]
    exact .inserted hf
  | some j =>
    cases hj : upsertReport.reported workerId report j with
    | true =>
      obtain ⟨happly, hcount⟩ := upsertReport_replaces hnodup hf hj
      have hrow : findJob (replaced workerId report d) report.id = some (reportedJob workerId report) := by
        rw [findJob_replaced, if_pos rfl, hf, Option.map_some]
      simp only [upsertReport.reported, Bool.and_eq_true, decide_eq_true_eq] at hj
      obtain ⟨⟨⟨⟨-, hworker⟩, horigin⟩, hkind⟩, hrevision⟩ := hj
      rw [happly, hrow, decide_eq_true hcount]
      dsimp only
      rw [if_neg (by simp [reportedJob])]
      exact .updated j hf ⟨hworker, horigin⟩ hkind hrevision
    | false =>
      obtain ⟨happly, hcount⟩ := upsertReport_keeps hnodup hf hj
      rw [happly, hcount, hf]
      dsimp only
      split
      · exact .rejected _
      · next hsame =>
        simp only [not_or, not_not] at hsame
        refine .kept j hf hsame fun hkind => Nat.le_of_not_lt fun hlt => ?_
        have hid := ((findJob_eq_some hnodup).mp hf).2
        simp [upsertReport.reported, hid, hsame.1, hsame.2, hkind, hlt] at hj

theorem Delivery.nodup {r : Except DbError (Job × Bool)} (h : Delivery workerId report d r d')
    (hnodup : (d.jobs.map (·.id)).Nodup) : (d'.jobs.map (·.id)).Nodup := by
  cases h with
  | rejected e => exact hnodup
  | inserted hnone =>
    rw [withJobs_jobs, List.map_append]
    refine List.nodup_append'.mpr ⟨hnodup, List.nodup_singleton _, fun i hi hnew => ?_⟩
    obtain ⟨j, hj, rfl⟩ := List.mem_map.mp hi
    have hfound := (findJob_eq_some hnodup).mpr ⟨hj, List.mem_singleton.mp hnew⟩
    exact absurd (hnone.symm.trans hfound) (by simp)
  | updated j _ _ _ _ =>
    rw [ids_replaced]
    exact hnodup
  | kept j _ _ _ => exact hnodup

/-- A delivery touches no other job. -/
theorem Delivery.findJob_other {r : Except DbError (Job × Bool)} (h : Delivery workerId report d r d')
    (hne : report.id ≠ id) : findJob d' id = findJob d id := by
  cases h with
  | rejected e => rfl
  | inserted _ =>
    have hnew : (reportedJob workerId report).id ≠ id := hne
    simp [findJob, List.find?_append, hnew]
  | updated j _ _ _ _ => rw [findJob_replaced, if_neg (Ne.symm hne)]
  | kept j _ _ _ => rfl

structure Accepted where
  workerId : String
  report : WorkerJobReport
  changed : Bool
  deriving DecidableEq, Repr

def acceptedOf (workerId : String) (report : WorkerJobReport) : Except DbError (Job × Bool) → List Accepted
  | .ok (_, changed) => [⟨workerId, report, changed⟩]
  | .error _ => []

/-- Reports of any workers come in, for any jobs; meanwhile anything may happen to what is not the row
of the job `id`. -/
inductive History (id : String) : Tables → List Accepted → Tables → Prop where
  | start (d : Tables) : History id d [] d
  | delivered {d d' : Tables} {trace : List Accepted} (workerId : String) (report : WorkerJobReport) :
      History id d trace d' →
        History id d (trace ++ acceptedOf workerId report (deliver workerId report d').1)
          (deliver workerId report d').2
  | other {d d' d'' : Tables} {trace : List Accepted} : History id d trace d' → findJob d'' id = findJob d' id →
      (d''.jobs.map (·.id)).Nodup → History id d trace d''

def revision (a : Accepted) : ℕ := a.report.reportRevision

def own (id : String) (trace : List Accepted) : List Accepted := trace.filter fun a => a.report.id = id

structure Converged (id : String) (trace : List Accepted) (d : Tables) : Prop where
  nodup : (d.jobs.map (·.id)).Nodup
  row : findJob d id = (latest revision (own id trace)).map fun a => reportedJob a.workerId a.report
  identity : ∀ a ∈ own id trace, ∀ b ∈ own id trace,
    a.workerId = b.workerId ∧ a.report.originSessionId = b.report.originSessionId
  changed : ∀ before a after, own id trace = before ++ a :: after →
    (a.changed = true ↔ ∀ b ∈ before, revision b < revision a)

theorem Converged.append {trace : List Accepted} {a : Accepted} (h : Converged id trace d)
    (hnodup : (d'.jobs.map (·.id)).Nodup) (hid : a.report.id = id)
    (hrow : findJob d' id = (write revision (latest revision (own id trace)) a).map fun a =>
      reportedJob a.workerId a.report)
    (hidentity : ∀ b, latest revision (own id trace) = some b →
      b.workerId = a.workerId ∧ b.report.originSessionId = a.report.originSessionId)
    (hchanged : a.changed = newer revision (latest revision (own id trace)) a) :
    Converged id (trace ++ [a]) d' := by
  have hown : own id (trace ++ [a]) = own id trace ++ [a] := by simp [own, hid]
  have hlast : ∀ b ∈ own id trace, b.workerId = a.workerId ∧
    b.report.originSessionId = a.report.originSessionId := by
    intro b hb
    cases hl : latest revision (own id trace) with
    | none =>
      rw [(latest_spec _).1.mp hl] at hb
      cases hb
    | some c =>
      obtain ⟨hw, ho⟩ := h.identity b hb c (mem_of_latest hl)
      obtain ⟨hw', ho'⟩ := hidentity c hl
      exact ⟨hw.trans hw', ho.trans ho'⟩
  refine ⟨hnodup, ?_, fun b hb c hc => ?_, fun before b after hsplit => ?_⟩
  · rw [hown, latest_concat]
    exact hrow
  · rw [hown, List.mem_append, List.mem_singleton] at hb hc
    rcases hb with hb | rfl <;> rcases hc with hc | rfl
    · exact h.identity b hb c hc
    · exact hlast b hb
    · exact ⟨(hlast c hc).1.symm, (hlast c hc).2.symm⟩
    · exact ⟨rfl, rfl⟩
  · rw [hown] at hsplit
    -- The new report is the last one, or the split is one of the old reports.
    rcases List.eq_nil_or_concat' after with rfl | ⟨after', last, rfl⟩
    · obtain ⟨hbefore, hb⟩ := List.append_inj' hsplit rfl
      cases hb
      rw [← hbefore, hchanged]
      exact newer_latest_iff
    · rw [← List.cons_append, ← List.append_assoc] at hsplit
      exact h.changed before b after' (List.append_inj' hsplit rfl).1

theorem Converged.same_own {trace trace' : List Accepted} (h : Converged id trace d)
    (hown : own id trace' = own id trace)
    (hrow : findJob d' id = findJob d id) (hnodup : (d'.jobs.map (·.id)).Nodup) : Converged id trace' d' :=
  ⟨hnodup, by rw [hrow, hown]; exact h.row, by rw [hown]; exact h.identity, by rw [hown]; exact h.changed⟩

/-- A delivery writes the register of its job. -/
theorem Converged.delivered {trace : List Accepted} (h : Converged id trace d) {r : Except DbError (Job × Bool)}
    (hd : Delivery workerId report d r d') : Converged id (trace ++ acceptedOf workerId report r) d' := by
  have hnodup := hd.nodup h.nodup
  by_cases hid : report.id = id
  · subst hid
    cases hd with
    | rejected e => exact h.same_own (by simp [acceptedOf]) rfl hnodup
    | inserted hnone =>
      have hempty : latest revision (own report.id trace) = none :=
        Option.map_eq_none_iff.mp (h.row.symm.trans hnone)
      refine h.append hnodup rfl ?_ (fun b hb => ?_) ?_
      · rw [hempty]
        exact findJob_append_new (reportedJob workerId report) hnone
      · rw [hempty] at hb
        cases hb
      · rw [hempty]
        rfl
    | updated j hj hsame hkind hlt =>
      obtain ⟨b, hb, rfl⟩ := Option.map_eq_some_iff.mp (h.row.symm.trans hj)
      have hnewer : newer revision (some b) ⟨workerId, report, true⟩ = true := decide_eq_true hlt
      refine h.append hnodup rfl ?_ (fun c hc => ?_) ?_
      · rw [hb, write, if_pos hnewer, findJob_replaced, if_pos rfl, hj]
        rfl
      · rw [hb] at hc
        cases hc
        exact ⟨Option.some_inj.mp hsame.1, Option.some_inj.mp hsame.2⟩
      · rw [hb, hnewer]
    | kept j hj hsame hle =>
      obtain ⟨b, hb, rfl⟩ := Option.map_eq_some_iff.mp (h.row.symm.trans hj)
      have hnewer : newer revision (some b) ⟨workerId, report, false⟩ = false :=
        decide_eq_false (Nat.not_lt_of_le (hle rfl))
      refine h.append hnodup rfl ?_ (fun c hc => ?_) ?_
      · rw [hb, write, hnewer, hj]
        rfl
      · rw [hb] at hc
        cases hc
        exact ⟨Option.some_inj.mp hsame.1, Option.some_inj.mp hsame.2⟩
      · rw [hb, hnewer]
  · have hnone : own id (trace ++ acceptedOf workerId report r) = own id trace := by
      rw [own, List.filter_append]
      cases r with
      | error e => simp [acceptedOf, own]
      | ok a => simp [acceptedOf, own, hid]
    exact h.same_own hnone (hd.findJob_other hid) hnodup

theorem converged_of_history {d₀ : Tables} {trace : List Accepted} (hnodup : (d₀.jobs.map (·.id)).Nodup)
    (hnew : findJob d₀ id = none) (h : History id d₀ trace d) : Converged id trace d := by
  induction h with
  | start => exact ⟨hnodup, hnew, fun a ha => (nomatch ha), fun before a after ha => by simp [own] at ha⟩
  | delivered workerId report _ ih => exact ih.delivered (delivery_deliver workerId report ih.nodup)
  | other _ hrow hnodup' ih => exact ih.same_own rfl hrow hnodup'

theorem Converged.row_of_max {trace : List Accepted} {a : Accepted} (h : Converged id trace d)
    (hdistinct : ∀ a ∈ own id trace, ∀ b ∈ own id trace, revision a = revision b → a.report = b.report)
    (ha : a ∈ own id trace) (hmax : ∀ b ∈ own id trace, revision b ≤ revision a) :
    findJob d id = some (reportedJob a.workerId a.report) := by
  obtain ⟨c, hc, hrev⟩ := latest_of_max ha hmax
  have hmem := mem_of_latest hc
  rw [h.row, hc, Option.map_some, hdistinct c hmem a ha hrev, (h.identity c hmem a ha).1]

/-- A delivery for a job of another origin, or for an SSH job, changes no row and applies nothing. -/
theorem foreign_delivery (hnodup : (d.jobs.map (·.id)).Nodup) (hj : findJob d report.id = some j)
    (hforeign : ¬SameOrigin workerId report j ∨ j.kind = .ssh) :
    (deliver workerId report d).2 = d ∧ ∀ a ∈ acceptedOf workerId report (deliver workerId report d).1,
    a.changed = false := by
  have hd := delivery_deliver workerId report hnodup
  generalize (deliver workerId report d).1 = r at *
  generalize (deliver workerId report d).2 = d' at *
  cases hd with
  | rejected e => exact ⟨rfl, fun a ha => nomatch ha⟩
  | inserted hnone =>
    rw [hj] at hnone
    cases hnone
  | updated j' hj' hsame hkind _ =>
    rw [hj] at hj'
    cases hj'
    rcases hforeign with hn | hssh
    · exact absurd hsame hn
    · rw [hssh] at hkind
      cases hkind
  | kept j' _ _ _ =>
    refine ⟨rfl, fun a ha => ?_⟩
    rw [List.mem_singleton.mp ha]

def Settles {α : Type} (p : DbM α) : Prop := ∀ d, (alone p d d).2.1 = (alone p d d).2.2

theorem Settles.bind {α β : Type} {p : DbM α} {f : α → DbM β} (hp : Settles p) (hf : ∀ a, Settles (f a)) :
    Settles (p.bind f) := by
  intro d
  have hd := hp d
  rw [alone_bind]
  generalize alone p d d = result at *
  obtain ⟨r, d', w'⟩ := result
  cases hd
  cases r with
  | ok a => exact hf a _
  | error e => rfl

theorem atomically_bind {α β : Type} {p : DbM α} {f : α → DbM β} (hp : Settles p) (d : Tables) :
    atomically (p.bind f) d = match atomically p d with
      | (.ok a, d') => atomically (f a) d'
      | (.error e, d') => (.error e, d') := by
  have hd := hp d
  simp only [atomically, alone_bind]
  generalize alone p d d = result at *
  obtain ⟨r, d', w'⟩ := result
  cases hd
  cases r <;> rfl

theorem settles_upsert (workerId : String) (report : WorkerJobReport) :
    Settles (upsertReportedWorkerJob workerId report) := by
  intro d
  simp only [upsertReportedWorkerJob, alone_withLock]
  cases hs : d.sessions.find? fun s => decide (s.id = report.originSessionId) with
  | none => simp [hs]
  | some session =>
    by_cases hw : session.workerId = some workerId
    · cases hf : findJob ((upsertReport workerId report).apply d) report.id with
      | none => simp [hs, hw, hf]
      | some job =>
        by_cases hj : job.workerId ≠ some workerId ∨ job.originSessionId ≠ some report.originSessionId <;>
          simp [hs, hw, hf, hj]
    · simp [hs, hw]

theorem Settles.attempt {α : Type} {p : DbM α} (hp : Settles p) : Settles p.attempt := fun d => by
  rw [alone_attempt]
  exact hp d

theorem settles_applyReports (workerId : String) (jobs : List WorkerJobReport) (applied : ℕ) :
    Settles (applyReports (upsert workerId) jobs applied) := by
  induction jobs generalizing applied with
  | nil => exact fun _ => rfl
  | cons report jobs ih =>
    refine (settles_upsert workerId report).attempt.bind fun result => ?_
    cases result with
    | ok result => exact ih _
    | error e => exact fun _ => rfl

theorem applyReports_cons (workerId : String) (report : WorkerJobReport) (jobs : List WorkerJobReport) (applied : ℕ)
    (d : Tables) :
    atomically (applyReports (upsert workerId) (report :: jobs) applied) d =
      match deliver workerId report d with
      | (.ok (_, changed), d') => atomically (applyReports (upsert workerId) jobs (applied + changed.toNat)) d'
      | (.error e, d') => (.ok (.error e), d') := by
  have hsettled : Settles (upsert workerId report) := (settles_upsert workerId report).attempt
  rw [applyReports, Prog.bind_eq, atomically_bind hsettled]
  simp only [deliver, atomically, upsert, alone_attempt]
  rcases alone (upsertReportedWorkerJob workerId report) d d with ⟨e | ⟨job, changed⟩, tables⟩ <;> rfl

/-- A batch delivers its reports one by one, up to the first that is refused. -/
theorem history_applyReports {d₀ : Tables} {trace : List Accepted} (workerId : String) (jobs : List WorkerJobReport)
    (applied : ℕ)
    (h : History id d₀ trace d) : ∃ accepted,
      History id d₀ (trace ++ accepted) (atomically (applyReports (upsert workerId) jobs applied) d).2 ∧
      ∀ n, (atomically (applyReports (upsert workerId) jobs applied) d).1 = .ok (.ok n) →
        n = applied + accepted.countP (·.changed) ∧ accepted.map (·.report) = jobs := by
  induction jobs generalizing applied trace d with
  | nil =>
    refine ⟨[], (List.append_nil trace).symm ▸ h, fun n hn => ?_⟩
    cases hn
    exact ⟨rfl, rfl⟩
  | cons report jobs ih =>
    have hd := History.delivered workerId report h
    rw [applyReports_cons]
    generalize deliver workerId report d = result at *
    obtain ⟨r, d'⟩ := result
    cases r with
    | error e => exact ⟨[], by simpa [acceptedOf] using hd, fun n hn => nomatch hn⟩
    | ok result =>
      obtain ⟨job, changed⟩ := result
      obtain ⟨accepted, hhist, hcount⟩ := ih (applied + changed.toNat) hd
      refine ⟨acceptedOf workerId report (.ok (job, changed)) ++ accepted,
        by rw [← List.append_assoc]; exact hhist, fun n hn => ?_⟩
      obtain ⟨hn, hjobs⟩ := hcount n hn
      refine ⟨?_, by simp [acceptedOf, hjobs]⟩
      rw [hn]
      cases changed <;> simp [acceptedOf, Nat.add_assoc, Nat.add_comm 1]

/-- A batch for a worker that is known. -/
theorem atomically_workerPiJobs {workerId : String} {worker : Worker} (hw : findWorker d workerId = some worker)
    (jobs : List WorkerJobReport) : atomically (workerPiJobs workerId jobs) d =
      match atomically (applyReports (upsert workerId) jobs 0) d with
      | (.ok (.ok applied), tables) => (.ok (.ok (jobs.length, applied)), tables)
      | (.ok (.error (.keyError _)), tables) => (.ok (.error (410, "origin session projection is gone")), tables)
      | (.ok (.error (.valueError message)), tables) => (.ok (.error (404, message)), tables)
      | (.ok (.error e), tables) => (.error e, tables)
      | (.error e, tables) => (.error e, tables) := by
  have hsettled := settles_applyReports workerId jobs 0 d
  simp only [atomically, workerPiJobs, receiveReports, getWorker, Prog.bind_eq, alone_bind, alone_query, hw]
  generalize alone (applyReports (upsert workerId) jobs 0) d d = result at *
  rcases result with ⟨e | e | applied, tables, tables'⟩
  · rfl
  · cases e <;> rfl
  · rfl

theorem history_workerPiJobs {d₀ : Tables} {trace : List Accepted} (workerId : String) (jobs : List WorkerJobReport)
    (h : History id d₀ trace d) : ∃ accepted,
      History id d₀ (trace ++ accepted) (atomically (workerPiJobs workerId jobs) d).2 ∧
      ∀ received applied, (atomically (workerPiJobs workerId jobs) d).1 = .ok (.ok (received, applied)) →
        received = jobs.length ∧ applied = accepted.countP (·.changed) ∧ accepted.map (·.report) = jobs := by
  cases hw : findWorker d workerId with
  | none =>
    have hrun : atomically (workerPiJobs workerId jobs) d = (.ok (.error (404, "worker not found")), d) := by
      simp [workerPiJobs, receiveReports, atomically, getWorker, hw]
    rw [hrun]
    refine ⟨[], (List.append_nil trace).symm ▸ h, fun received applied hr => ?_⟩
    cases hr
  | some worker =>
    obtain ⟨accepted, hhist, hcount⟩ := history_applyReports workerId jobs 0 h
    rw [atomically_workerPiJobs hw]
    generalize atomically (applyReports (upsert workerId) jobs 0) d = result at *
    obtain ⟨r, tables⟩ := result
    refine ⟨accepted, ?_, fun received applied' hr => ?_⟩
    · rcases r with e | e | applied
      · exact hhist
      · cases e <;> exact hhist
      · exact hhist
    · rcases r with e | e | applied
      · cases hr
      · cases e <;> cases hr
      · obtain ⟨hn, hjobs⟩ := hcount applied rfl
        cases hr
        exact ⟨rfl, hn.trans (Nat.zero_add _), hjobs⟩

/-- The row of a job converges to the report of the highest revision, whatever the order, the
repetitions and the batches; a job of another origin and an SSH job stay as they are. -/
theorem reports_converge (id : String) :
    (∀ d₀ trace d, (d₀.jobs.map (·.id)).Nodup → findJob d₀ id = none → History id d₀ trace d →
      (own id trace = [] → findJob d id = none) ∧
      (∀ a ∈ own id trace, ∀ b ∈ own id trace,
        a.workerId = b.workerId ∧ a.report.originSessionId = b.report.originSessionId) ∧
      ((∀ a ∈ own id trace, ∀ b ∈ own id trace, revision a = revision b → a.report = b.report) →
        ∀ a ∈ own id trace, (∀ b ∈ own id trace, revision b ≤ revision a) →
          findJob d id = some (reportedJob a.workerId a.report)) ∧
      ∀ before a after, own id trace = before ++ a :: after →
        (a.changed = true ↔ ∀ b ∈ before, revision b < revision a)) ∧
    (∀ d₀ trace d, History id d₀ trace d → ∀ workerId jobs, ∃ accepted,
      History id d₀ (trace ++ accepted) (atomically (workerPiJobs workerId jobs) d).2 ∧
      ∀ received applied, (atomically (workerPiJobs workerId jobs) d).1 = .ok (.ok (received, applied)) →
        received = jobs.length ∧ applied = accepted.countP (·.changed) ∧ accepted.map (·.report) = jobs) ∧
    ∀ d j, (d.jobs.map (·.id)).Nodup → findJob d id = some j → ∀ workerId report, report.id = id →
      (¬SameOrigin workerId report j ∨ j.kind = .ssh) →
        (deliver workerId report d).2 = d ∧
        ∀ job changed, (deliver workerId report d).1 = .ok (job, changed) → changed = false := by
  refine ⟨fun d₀ trace d hnodup hnew h => ?_, fun d₀ trace d h workerId jobs => history_workerPiJobs
    workerId jobs h,
    fun d j hnodup hj workerId report hid hforeign => ?_⟩
  · have hconverged := converged_of_history hnodup hnew h
    refine ⟨fun hnil => ?_, hconverged.identity, fun hdistinct a ha hmax => hconverged.row_of_max hdistinct ha hmax,
      hconverged.changed⟩
    rw [hconverged.row, hnil]
    rfl
  · subst hid
    obtain ⟨hsame, hchanged⟩ := foreign_delivery hnodup hj hforeign
    refine ⟨hsame, fun job changed hok => ?_⟩
    rw [hok] at hchanged
    exact hchanged _ (List.mem_singleton_self _)

/-- The report of revision 1 comes in after that of revision 2. -/
theorem reports_converge_late :
    let d₀ : Tables := { sessions := [{ id := "origin", workerId := some "worker" }] }
    let report (n : ℕ) : WorkerJobReport := ⟨"job", "origin", "", "", .running, none, true, 0, 0, n⟩
    findJob (deliver "worker" (report 1) (deliver "worker" (report 2) d₀).2).2 "job" =
      some (reportedJob "worker" (report 2)) := by
  intro d₀ report
  have hhistory := ((show History "job" d₀ [] d₀ from .start d₀).delivered "worker" (report 2)).delivered "worker"
    (report 1)
  have hconverges := (reports_converge "job").1 d₀ _ _ (by decide) (by decide) hhistory
  exact hconverges.2.2.1 (by decide) ⟨"worker", report 2, true⟩ (by decide) (by decide)

end WorkerHarness.WorkerReports
