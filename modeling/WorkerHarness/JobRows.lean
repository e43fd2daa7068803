import WorkerHarness.AtomicMethods
import Mathlib.Data.List.Forall2
import Mathlib.Data.List.InsertIdx

/-!
# What the job methods do to single rows

An edit, a cancellation and the settling of a claim change one row, apart from queue
orders. Each method gets one theorem: the rows after it are the rows before it, each
changed by one step. Invariants of the job table are then facts about single steps.
-/

namespace WorkerHarness.JobRows

open Coroutines SharedTransactions Database JobQueues

/-- An edit or a cancellation of the waiting job `id`, at one row; the queue order of other
waiting rows may change. -/
inductive PendingStep (id : String) : Job → Job → Prop where
  | same (j : Job) : PendingStep id j j
  | reordered {j : Job} (n : ℕ) : j.status = .pending → PendingStep id j (j.withOrder n)
  | edited {j : Job} (row : Job) (workerId name : Option String) (expectedSeconds gpuCount : Option ℕ) (n : ℕ) :
      pendingRow id j = true →
        PendingStep id j ((Job.edited row workerId name expectedSeconds gpuCount j).withOrder n)
  | cancelled {j : Job} (finishedAt : ℕ) : pendingRow id j = true → PendingStep id j (j.cancelled finishedAt)

/-- The end of the claim of the job `id`, at one row. -/
inductive SettleStep (id : String) : Bool → Job → Job → Prop where
  | same {launchObserved : Bool} (j : Job) : SettleStep id launchObserved j j
  | reordered {launchObserved : Bool} {j : Job} (n : ℕ) :
      j.status = .pending → SettleStep id launchObserved j (j.withOrder n)
  | launched {j : Job} : startingRow id j = true → SettleStep id true j j.launched
  | recovered {j : Job} : startingRow id j = true → j.queueManaged = true → SettleStep id false j j.recovered
  | neverLaunched {j : Job} (now : ℕ) :
      startingRow id j = true → j.queueManaged = false → SettleStep id false j (j.neverLaunched now)

variable {id : String} {launchObserved : Bool} {j j' : Job}

/-- A later renumbering of a waiting row does not change what kind of step it is. -/
theorem PendingStep.withOrder (h : PendingStep id j j') (hp : j'.status = .pending) (n : ℕ) :
    PendingStep id j (j'.withOrder n) := by
  cases h with
  | same => exact .reordered n hp
  | reordered m hj => exact .reordered n hj
  | edited row workerId name expectedSeconds gpuCount m hrow =>
    exact .edited row workerId name expectedSeconds gpuCount n hrow
  | cancelled finishedAt hrow => cases hp

theorem PendingStep.id_eq (h : PendingStep id j j') : j'.id = j.id := by
  cases h <;> rfl

variable {R S T : Job → Job → Prop} {jobs jobs' jobs'' : List Job} {d : Tables}

theorem exists_of_mem_right (h : List.Forall₂ R jobs jobs') {j' : Job} (hj' : j' ∈ jobs') : ∃ j ∈ jobs, R j j' := by
  induction h with
  | nil => cases hj'
  | cons hr _ ih =>
    rcases List.mem_cons.mp hj' with rfl | hj'
    · exact ⟨_, by simp, hr⟩
    · obtain ⟨j, hj, hr⟩ := ih hj'
      exact ⟨j, by simp [hj], hr⟩

theorem exists_of_mem_left (h : List.Forall₂ R jobs jobs') {j : Job} (hj : j ∈ jobs) : ∃ j' ∈ jobs', R j j' := by
  obtain ⟨j', hj', hr⟩ := exists_of_mem_right h.flip hj
  exact ⟨j', hj', hr⟩

theorem map_id_eq (h : List.Forall₂ R jobs jobs') (hid : ∀ j j', R j j' → j'.id = j.id) :
    jobs'.map (·.id) = jobs.map (·.id) := by
  induction h with
  | nil => rfl
  | cons hr _ ih => simp [hid _ _ hr, ih]

theorem forall₂_map {g : Job → Job} (h : ∀ j ∈ jobs, R j (g j)) : List.Forall₂ R jobs (jobs.map g) :=
  List.forall₂_map_right_iff.mpr (List.forall₂_same.mpr h)

theorem forall₂_updateRows {p : Job → Bool} {f : Job → Job} (hrefl : ∀ j, R j j)
    (h : ∀ j ∈ jobs, p j = true → R j (f j)) : List.Forall₂ R jobs (updateRows p f jobs) := by
  refine forall₂_map fun j hj => ?_
  split
  · next hp => exact h j hj hp
  · exact hrefl j

theorem forall₂_trans (h : List.Forall₂ R jobs jobs') (h' : List.Forall₂ S jobs' jobs'')
    (hT : ∀ j j' j'', R j j' → S j' j'' → T j j'') : List.Forall₂ T jobs jobs'' := by
  induction h generalizing jobs'' with
  | nil =>
    cases h'
    exact .nil
  | cons hr _ ih =>
    cases h' with
    | cons hs h' => exact .cons (hT _ _ _ hr hs) (ih h')

theorem forall₂_renumberFrom {ids : List String} (h : ∀ j ∈ jobs, j.id ∈ ids → j.status = .pending) (n : ℕ) :
    List.Forall₂ (fun j j' => j' = j ∨ j.status = .pending ∧ ∃ m, j' = j.withOrder m) jobs
      (renumberFrom n ids jobs) := by
  induction ids generalizing n jobs with
  | nil => exact List.forall₂_same.mpr fun j _ => .inl rfl
  | cons id ids ih =>
    have hfirst : List.Forall₂ (fun j j' => j' = j ∨ j.status = .pending ∧ ∃ m, j' = j.withOrder m) jobs
        (updateRows (fun j => j.id = id) (Job.withOrder n) jobs) :=
      forall₂_updateRows (fun j => .inl rfl) fun j hj hid =>
        .inr ⟨h j hj (by simp [of_decide_eq_true hid]), n, rfl⟩
    refine forall₂_trans hfirst (ih (fun j' hj' hid => ?_) (n + 1)) ?_
    · obtain ⟨j, hj, rfl | ⟨hp, m, rfl⟩⟩ := exists_of_mem_right hfirst hj'
      · exact h _ hj (List.mem_cons_of_mem _ hid)
      · exact hp
    · rintro j _ _ (rfl | ⟨hp, m, rfl⟩) (rfl | ⟨hp', m', rfl⟩)
      · exact .inl rfl
      · exact .inr ⟨hp', m', rfl⟩
      · exact .inr ⟨hp, m, rfl⟩
      · exact .inr ⟨hp, m', rfl⟩

/-- Renumbering waiting rows after an edit or a cancellation. -/
theorem pendingSteps_renumberFrom (h : List.Forall₂ (PendingStep id) jobs jobs') {ids : List String}
    (hp : ∀ j ∈ jobs', j.id ∈ ids → j.status = .pending) (n : ℕ) :
    List.Forall₂ (PendingStep id) jobs (renumberFrom n ids jobs') := by
  refine forall₂_trans h (forall₂_renumberFrom hp n) ?_
  rintro j j' _ hj (rfl | ⟨hp, m, rfl⟩)
  · exact hj
  · exact hj.withOrder hp m

/-- A waiting id names a waiting row only. -/
theorem pending_of_mem_pendingIds (h : (d.jobs.map (·.id)).Nodup) {workerId : Option String} (hj : j ∈ d.jobs)
    (hid : j.id ∈ pendingIds d workerId) : j.status = .pending := by
  cases workerId with
  | none => cases hid
  | some w =>
    obtain ⟨a, ha, hp, hid⟩ := mem_queueIds.mp hid
    rw [eq_of_id_eq h hj ha hid.symm]
    exact (Job.pendingOn_iff.mp hp).2.2

theorem pendingSteps_failPendingJob (h : (d.jobs.map (·.id)).Nodup) (jobId : String) (finishedAt : ℕ) :
    List.Forall₂ (PendingStep jobId) d.jobs (atomically (failPendingJob jobId finishedAt) d).2.jobs := by
  rw [atomically_failPendingJob]
  split
  · exact List.forall₂_same.mpr fun j _ => .same j
  · have hcancel : List.Forall₂ (PendingStep jobId) d.jobs (cancelledJobs jobId finishedAt d.jobs) :=
      forall₂_updateRows .same fun j _ hp => .cancelled finishedAt hp
    refine pendingSteps_renumberFrom hcancel (fun j hj hid => pending_of_mem_pendingIds ?_ hj hid) 1
    rw [withJobs_jobs, map_id_eq hcancel fun _ _ hs => hs.id_eq]
    exact h

theorem mem_plannedIds {jobId a : String} {position : Option ℕ} {source destination : Option String}
    {ids : List String} (h : plannedIds jobId position source destination d = some ids) (ha : a ∈ ids) :
    a = jobId ∨ ∃ workerId, a ∈ pendingIds d workerId := by
  have hplaced : ∀ {workerId : Option String} {ids : List String}, (∀ i ∈ ids, i ∈ pendingIds d workerId) →
      a ∈ placedAt position jobId ids → a = jobId ∨ ∃ workerId, a ∈ pendingIds d workerId := by
    intro workerId ids hids hmem
    unfold placedAt at hmem
    split at hmem <;> exact (List.eq_or_mem_of_mem_insertIdx hmem).imp_right fun hm => ⟨workerId, hids a hm⟩
  have hothers : ∀ i ∈ otherIds jobId (pendingIds d source), i ∈ pendingIds d source :=
    fun i hi => (List.mem_filter.mp hi).1
  unfold plannedIds at h
  split at h
  · split at h
    · obtain ⟨index, -, rfl⟩ := Option.map_eq_some_iff.mp h
      exact (List.eq_or_mem_of_mem_insertIdx ha).imp_right fun hm => ⟨source, hothers a hm⟩
    · cases h
      exact hplaced hothers ha
  · cases h
    exact hplaced (fun i hi => hi) ha

theorem pendingSteps_editedTables (h : (d.jobs.map (·.id)).Nodup) {row : Job} (hrow : row ∈ d.jobs)
    (hp : pendingRow row.id row = true) {workerId : Option String} {position : Option ℕ} {ids : List String}
    (hids : plannedIds row.id position row.workerId workerId d = some ids) (name : Option String)
    (expectedSeconds gpuCount : Option ℕ) :
    List.Forall₂ (PendingStep row.id) d.jobs
      (editedTables row workerId ids name expectedSeconds gpuCount d).jobs := by
  -- The edit itself, then the renumbering of one or two lists of waiting rows.
  have hedit : List.Forall₂ (PendingStep row.id) d.jobs
      (updateRows (pendingRow row.id) (Job.edited row workerId name expectedSeconds gpuCount) d.jobs) :=
    forall₂_updateRows .same fun j _ hp => .edited row _ _ _ _ j.queueOrder hp
  have hwaits : ∀ (jobs : List Job) (ids : List String),
      (∀ j' ∈ jobs, ∃ j ∈ d.jobs, j'.id = j.id ∧ j'.status = j.status) →
        (∀ i ∈ ids, i = row.id ∨ ∃ workerId, i ∈ pendingIds d workerId) →
        ∀ j' ∈ jobs, j'.id ∈ ids → j'.status = .pending := by
    intro jobs ids hkept hids j' hj' hid
    obtain ⟨j, hj, hid', hs⟩ := hkept j' hj'
    rw [hs]
    rcases hids _ hid with hrow' | ⟨workerId, hid⟩
    · rw [eq_of_id_eq h hj hrow (hid'.symm.trans hrow')]
      exact (pendingRow_iff.mp hp).2.2
    · exact pending_of_mem_pendingIds h hj (hid' ▸ hid)
  have hkept : ∀ j' ∈ updateRows (pendingRow row.id) (Job.edited row workerId name expectedSeconds gpuCount) d.jobs,
      ∃ j ∈ d.jobs, j'.id = j.id ∧ j'.status = j.status := by
    intro j' hj'
    obtain ⟨j, hj, rfl⟩ := List.mem_map.mp hj'
    refine ⟨j, hj, ?_⟩
    split <;> exact ⟨rfl, rfl⟩
  have hsource := hwaits _ (otherIds row.id (pendingIds d row.workerId)) hkept fun i hi =>
    .inr ⟨row.workerId, (List.mem_filter.mp hi).1⟩
  have hplanned : ∀ i ∈ ids, i = row.id ∨ ∃ workerId, i ∈ pendingIds d workerId :=
    fun i hi => mem_plannedIds hids hi
  simp only [editedTables, withJobs_jobs, editedJobs]
  split
  · refine pendingSteps_renumberFrom (pendingSteps_renumberFrom hedit hsource 1) (hwaits _ _ ?_ hplanned) 1
    intro j'' hj''
    obtain ⟨j', hj', hstep⟩ := exists_of_mem_right (forall₂_renumberFrom hsource 1) hj''
    obtain ⟨j, hj, hid, hs⟩ := hkept j' hj'
    refine ⟨j, hj, ?_⟩
    rcases hstep with rfl | ⟨-, m, rfl⟩ <;> exact ⟨hid, hs⟩
  · exact pendingSteps_renumberFrom hedit (hwaits _ _ hkept hplanned) 1

theorem pendingSteps_updatePendingJob (h : (d.jobs.map (·.id)).Nodup) (jobId : String) (workerId : Option String)
    (position : Option ℕ) (name : Option String) (expectedSeconds gpuCount : Option ℕ) :
    List.Forall₂ (PendingStep jobId) d.jobs
      (atomically (updatePendingJob jobId workerId position name expectedSeconds gpuCount) d).2.jobs := by
  have hsame : List.Forall₂ (PendingStep jobId) d.jobs d.jobs := List.forall₂_same.mpr fun j _ => .same j
  rw [atomically_updatePendingJob]
  split
  · exact hsame
  · next row hrow =>
    have hid := List.find?_some hrow
    simp only [Bool.and_eq_true, decide_eq_true_eq] at hid
    obtain ⟨rfl, hm⟩ := hid
    split
    · exact hsame
    · next hp =>
      split
      · exact hsame
      · split
        · exact hsame
        · split
          · exact hsame
          · next ids hids =>
            have hall := pendingSteps_editedTables h (List.mem_of_find?_eq_some hrow)
              (pendingRow_iff.mpr ⟨rfl, hm, not_not.mp hp⟩) hids name expectedSeconds gpuCount
            dsimp only
            split <;> exact hall

theorem settleSteps_reconcileStartingJob (h : (d.jobs.map (·.id)).Nodup) (jobId : String)
    (launchObserved : Bool) (now : ℕ) :
    List.Forall₂ (SettleStep jobId launchObserved) d.jobs
      (atomically (reconcileStartingJob jobId launchObserved now) d).2.jobs := by
  rw [atomically_reconcileStartingJob]
  split
  · exact List.forall₂_same.mpr fun j _ => .same j
  · next row hrow =>
    have hs := List.find?_some hrow
    have hid := (startingRow_iff.mp hs).1
    simp only [reconciledTables, withJobs_jobs, hid]
    cases launchObserved with
    | true => exact forall₂_updateRows .same fun j _ hp => .launched hp
    | false =>
      simp only [Bool.false_eq_true, if_false]
      split
      · -- The waiting rows move back by one, then the row itself is recovered.
        have hshift : List.Forall₂ (fun j j' => j' = j ∨ j.status = .pending ∧ ∃ m, j' = j.withOrder m) d.jobs
            (updateRows (fun j => row.workerId.any fun w => j.pendingOn w) (fun j => j.withOrder (j.queueOrder + 1))
              d.jobs) := forall₂_updateRows (fun j => .inl rfl) fun j _ hp => by
          cases hw : row.workerId with
          | none => simp [hw] at hp
          | some w =>
            rw [hw, Option.any_some, Job.pendingOn_iff] at hp
            exact .inr ⟨hp.2.2, _, rfl⟩
        have hrecover : ∀ jobs : List Job, List.Forall₂
            (fun j j' => j' = j ∨ startingRow jobId j = true ∧ j.queueManaged = true ∧ j' = j.recovered) jobs
            (updateRows (fun j => startingRow jobId j && j.queueManaged) Job.recovered jobs) := fun jobs =>
          forall₂_updateRows (fun j => .inl rfl) fun j _ hp => .inr ⟨(Bool.and_eq_true _ _ ▸ hp).1,
            (Bool.and_eq_true _ _ ▸ hp).2, rfl⟩
        refine forall₂_trans hshift (hrecover _) ?_
        rintro j _ j'' (rfl | ⟨hp, m, rfl⟩) (rfl | ⟨hst, hm, rfl⟩)
        · exact .same _
        · exact .recovered hst hm
        · exact .reordered m hp
        · have := (startingRow_iff.mp hst).2
          rw [show (j.withOrder m).status = j.status from rfl, hp] at this
          cases this
      · next hm =>
        refine forall₂_updateRows .same fun j hj hp => .neverLaunched now hp ?_
        rw [eq_of_id_eq h hj (List.mem_of_find?_eq_some hrow) ((startingRow_iff.mp hp).1.trans hid.symm)]
        exact Bool.eq_false_iff.mpr hm

/-- The claim of the row `j`, at one row. -/
def ClaimStep (row : Job) (gpuIndices : List ℕ) (startedAt : ℕ) (j j' : Job) : Prop :=
  j.id ≠ row.id ∧ j' = j ∨ j = row ∧ j' = row.claimed gpuIndices startedAt

/-- A claim fails and changes nothing, or it takes one row and returns it. -/
theorem claimQueuedJob_cases (h : (d.jobs.map (·.id)).Nodup) (jobId : String) (gpuIndices : List ℕ)
    (startedAt : ℕ) (workerId : String) :
    atomically (claimQueuedJob jobId gpuIndices startedAt workerId) d = (.ok none, d) ∨
      ∃ row ∈ d.jobs, claimable jobId gpuIndices workerId d row = true ∧
        (atomically (claimQueuedJob jobId gpuIndices startedAt workerId) d).1 =
          .ok (some (row.claimed gpuIndices startedAt)) ∧
        List.Forall₂ (ClaimStep row gpuIndices startedAt) d.jobs
          (atomically (claimQueuedJob jobId gpuIndices startedAt workerId) d).2.jobs := by
  rw [atomically_claimQueuedJob]
  split
  · next hex =>
    obtain ⟨row, hrow, hc⟩ := hex
    have hid := (claimable_iff.mp hc).1
    have hsteps : List.Forall₂ (ClaimStep row gpuIndices startedAt) d.jobs
        (claimedTables jobId gpuIndices startedAt workerId d).jobs := by
      refine forall₂_map fun j hj => ?_
      by_cases hj' : j.id = row.id
      · rw [eq_of_id_eq h hj hrow hj', if_pos hc]
        exact .inr ⟨rfl, rfl⟩
      · rw [if_neg fun hcj => hj' ((claimable_iff.mp hcj).1.trans hid.symm)]
        exact .inl ⟨hj', rfl⟩
    refine .inr ⟨row, hrow, hc, ?_, hsteps⟩
    have hnodup : ((claimedTables jobId gpuIndices startedAt workerId d).jobs.map (·.id)).Nodup := by
      rw [map_id_eq hsteps]
      · exact h
      · rintro j j' (⟨-, rfl⟩ | ⟨rfl, rfl⟩) <;> rfl
    obtain ⟨j', hj', hstep⟩ := exists_of_mem_left hsteps hrow
    rcases hstep with ⟨hne, -⟩ | ⟨-, rfl⟩
    · exact absurd rfl hne
    · exact congrArg Except.ok ((findJob_eq_some hnodup).mpr ⟨hj', hid⟩)
  · exact .inl rfl

end WorkerHarness.JobRows
