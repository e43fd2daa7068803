import WorkerHarness.JobRows
import WorkerHarness.WorkerReports

/-!
# How the job table moves

What one step of the server does to a row of the job table: it waits, is claimed, runs and ends. A claim, a
launch and its end belong to a thread that has the dispatch lock of the worker. The GPUs of the rows that
are claimed on one worker stay apart, whatever the order of the steps.
-/

namespace WorkerHarness.JobMoves

open Coroutines SharedTransactions Database JobQueues JobRows

def Waits (j : Job) : Prop := j.queueManaged = true ∧ j.status = .pending

structure RunsOn (w : String) (j : Job) : Prop where
  kind : j.kind = .ssh
  worker : j.workerId = some w
  active : j.status = .starting ∨ j.status = .running

/-- What one step does to one row; `mine` holds of the workers whose dispatch lock the thread has, `started`
are the launches so far, as worker and job. -/
inductive RowMove (mine : String → Prop) (started : List (String × String)) : Job → Job → Prop where
  | same (j : Job) : RowMove mine started j j
  | reordered {j : Job} (n : ℕ) : j.status = .pending → RowMove mine started j (j.withOrder n)
  | edited {j : Job} (row : Job) (workerId name : Option String) (expectedSeconds gpuCount : Option ℕ) (n : ℕ) :
      Waits j → RowMove mine started j ((Job.edited row workerId name expectedSeconds gpuCount j).withOrder n)
  | cancelled {j : Job} (finishedAt : ℕ) : Waits j → RowMove mine started j (j.cancelled finishedAt)
  | claimed {j : Job} {w : String} (gpuIndices : List ℕ) (startedAt : ℕ) : mine w → j.workerId = some w → Waits j →
      RowMove mine started j (j.claimed gpuIndices startedAt)
  | launched {j : Job} {w : String} : mine w → RunsOn w j → j.status = .starting → RowMove mine started j j.launched
  | recovered {j : Job} {w : String} : mine w → RunsOn w j → j.status = .starting → j.queueManaged = true →
      (∀ launch ∈ started, launch.2 ≠ j.id) → RowMove mine started j j.recovered
  | neverLaunched {j : Job} {w : String} (now : ℕ) : mine w → RunsOn w j → j.status = .starting →
      RowMove mine started j (j.neverLaunched now)
  | stopped {j : Job} {w : String} (finishedAt : ℕ) : mine w → RunsOn w j →
      RowMove mine started j { j with status := .failed, exitCode := some (-1), finishedAt := finishedAt }
  | finished {j : Job} {w : String} (exitCode : Int) (finishedAt : ℕ) : mine w → RunsOn w j → j.status = .running →
      RowMove mine started j
        { j with
          status := if exitCode ≠ 0 then .failed else .done
          exitCode := some exitCode
          finishedAt := finishedAt }
  | reported {j : Job} (j' : Job) : j.kind = .delegated → j'.kind = .delegated → j'.id = j.id →
      RowMove mine started j j'

/-- A row that a step adds. -/
inductive Arrives (mine : String → Prop) : Job → Prop where
  | enqueued {j : Job} : j.kind = .ssh → Waits j → Arrives mine j
  | started {j : Job} {w : String} : mine w → RunsOn w j → Arrives mine j
  | reported {j : Job} : j.kind = .delegated → Arrives mine j

/-- What one step does to the job table. -/
def Moves (mine : String → Prop) (started : List (String × String)) (jobs jobs' : List Job) : Prop :=
  ∃ moved, List.Forall₂ (RowMove mine started) jobs moved ∧
    (jobs' = moved ∨ ∃ row, Arrives mine row ∧ (∀ j ∈ jobs, j.id ≠ row.id) ∧ jobs' = moved ++ [row])

variable {mine : String → Prop} {started : List (String × String)} {w id jobId workerId : String} {j j' row : Job}
  {jobs jobs' : List Job} {d : Tables}

theorem RowMove.id_eq (h : RowMove mine started j j') : j'.id = j.id := by
  cases h with
  | reported _ _ _ hid => exact hid
  | _ => rfl

theorem RowMove.kind_eq (h : RowMove mine started j j') : j'.kind = j.kind := by
  cases h with
  | reported _ hj hj' => exact hj'.trans hj.symm
  | _ => rfl

/-- A running job of a worker is left alone by a thread without the worker's lock. -/
theorem RowMove.eq_of_runsOn (h : RowMove mine started j j') (hr : RunsOn w j) (hw : ¬mine w) : j' = j := by
  have hactive : j.status ≠ .pending := by
    rcases hr.active with hs | hs <;> simp [hs]
  have hown : ∀ {w'}, RunsOn w' j → ¬mine w' := fun hr' => by
    have heq := hr'.worker.symm.trans hr.worker
    cases heq
    exact hw
  cases h with
  | same => rfl
  | reordered _ hp => exact absurd hp hactive
  | edited _ _ _ _ _ _ hj => exact absurd hj.2 hactive
  | cancelled _ hj => exact absurd hj.2 hactive
  | claimed _ _ _ _ hj => exact absurd hj.2 hactive
  | launched hmine hr' => exact absurd hmine (hown hr')
  | recovered hmine hr' => exact absurd hmine (hown hr')
  | neverLaunched _ hmine hr' => exact absurd hmine (hown hr')
  | stopped _ hmine hr' => exact absurd hmine (hown hr')
  | finished _ _ hmine hr' => exact absurd hmine (hown hr')
  | reported _ hj => exact absurd (hr.kind.symm.trans hj) (by simp)

theorem moves_refl (jobs : List Job) : Moves mine started jobs jobs :=
  ⟨jobs, List.forall₂_same.mpr fun j _ => .same j, .inl rfl⟩

theorem Moves.of_forall₂ (h : List.Forall₂ (RowMove mine started) jobs jobs') : Moves mine started jobs jobs' :=
  ⟨jobs', h, .inl rfl⟩

theorem Moves.of_append (hrow : Arrives mine row) (hid : ∀ j ∈ jobs, j.id ≠ row.id) :
    Moves mine started jobs (jobs ++ [row]) :=
  ⟨jobs, List.forall₂_same.mpr fun j _ => .same j, .inr ⟨row, hrow, hid, rfl⟩⟩

theorem Moves.exists_left (h : Moves mine started jobs jobs') (hj : j ∈ jobs) :
    ∃ j' ∈ jobs', RowMove mine started j j' := by
  obtain ⟨moved, hmoved, hjobs⟩ := h
  obtain ⟨j', hj', hr⟩ := exists_of_mem_left hmoved hj
  refine ⟨j', ?_, hr⟩
  rcases hjobs with rfl | ⟨row, -, -, rfl⟩
  · exact hj'
  · exact List.mem_append_left _ hj'

theorem Moves.exists_right (h : Moves mine started jobs jobs') (hj' : j' ∈ jobs') :
    (∃ j ∈ jobs, RowMove mine started j j') ∨ Arrives mine j' ∧ ∀ j ∈ jobs, j.id ≠ j'.id := by
  obtain ⟨moved, hmoved, rfl | ⟨row, hrow, hid, rfl⟩⟩ := h
  · exact .inl (exists_of_mem_right hmoved hj')
  · rcases List.mem_append.mp hj' with hj' | hj'
    · exact .inl (exists_of_mem_right hmoved hj')
    · cases List.mem_singleton.mp hj'
      exact .inr ⟨hrow, hid⟩

theorem forall₂_imp_of_mem {R S : Job → Job → Prop} (h : List.Forall₂ R jobs jobs')
    (hRS : ∀ j ∈ jobs, ∀ j', R j j' → S j j') : List.Forall₂ S jobs jobs' := by
  induction h with
  | nil => exact .nil
  | cons hr _ ih => exact .cons (hRS _ (by simp) _ hr) (ih fun j hj => hRS j (by simp [hj]))

structure Sized (j : Job) : Prop where
  waiting : Waits j → j.gpuIndices = []
  active : j.queueManaged = true → j.active = true → j.gpuIndices.Nodup ∧ j.gpuIndices.length = j.gpuCount
  delegated : j.kind = .delegated → j.queueManaged = false

/-- The queue jobs that run on a worker have different GPUs. -/
structure Assigned (jobs : List Job) : Prop where
  nodup : (jobs.map (·.id)).Nodup
  sized : ∀ j ∈ jobs, Sized j
  apart : ∀ w, ∀ j ∈ jobs, ∀ j' ∈ jobs, j.activeOn w = true → j'.activeOn w = true → j.id ≠ j'.id →
    j.gpuIndices.Disjoint j'.gpuIndices

/-- A step at one row that takes no GPUs. -/
structure Tame (j j' : Job) : Prop where
  id : j'.id = j.id
  sized : Sized j → Sized j'
  active : ∀ w, j'.activeOn w = true → j.activeOn w = true ∧ j'.gpuIndices = j.gpuIndices

/-- The queue jobs on the worker were there before, with the same GPUs. -/
def KeepsActive (w : String) (jobs jobs' : List Job) : Prop :=
  ∀ j' ∈ jobs', j'.activeOn w = true → ∃ j ∈ jobs, j.activeOn w = true ∧ j.id = j'.id ∧ j.gpuIndices = j'.gpuIndices

theorem KeepsActive.refl (w : String) (jobs : List Job) : KeepsActive w jobs jobs :=
  fun j hj ha => ⟨j, hj, ha, rfl, rfl⟩

theorem KeepsActive.trans {jobs'' : List Job} (h : KeepsActive w jobs jobs') (h' : KeepsActive w jobs' jobs'') :
    KeepsActive w jobs jobs'' := by
  intro j'' hj'' ha''
  obtain ⟨j', hj', ha', hid', hg'⟩ := h' j'' hj'' ha''
  obtain ⟨j, hj, ha, hid, hg⟩ := h j' hj' ha'
  exact ⟨j, hj, ha, hid.trans hid', hg.trans hg'⟩

theorem keepsActive_of_tame (h : List.Forall₂ Tame jobs jobs') : KeepsActive w jobs jobs' := by
  intro j' hj' ha
  obtain ⟨j, hj, ht⟩ := exists_of_mem_right h hj'
  exact ⟨j, hj, (ht.active w ha).1, ht.id.symm, (ht.active w ha).2.symm⟩

theorem Tame.refl (j : Job) : Tame j j := ⟨rfl, fun h => h, fun _ h => ⟨h, rfl⟩⟩

/-- A row that is not active and does not wait. -/
theorem sized_of_ended (hs : j.status = .done ∨ j.status = .failed)
    (hd : j.kind = .delegated → j.queueManaged = false) :
    Sized j := by
  refine ⟨fun hw => ?_, fun _ ha => ?_, hd⟩
  · rcases hs with hs | hs <;> simp [Waits, hs] at hw
  · rcases hs with hs | hs <;> simp [hs] at ha

theorem not_activeOn_of_ended (hs : j.status = .done ∨ j.status = .failed) (w : String) : j.activeOn w = false := by
  rcases hs with hs | hs <;> simp [Job.activeOn, Job.active, hs]

/-- An end of a job, written over its row. -/
theorem tame_of_ended (hid : j'.id = j.id) (hs : j'.status = .done ∨ j'.status = .failed)
    (hd : j'.kind = .delegated → j'.queueManaged = false) : Tame j j' :=
  ⟨hid, fun _ => sized_of_ended hs hd, fun w ha => by rw [not_activeOn_of_ended hs] at ha; cases ha⟩

/-- Rows outside the queue have no GPUs of the queue. -/
theorem sized_of_unmanaged (hq : j.queueManaged = false) : Sized j := by
  refine ⟨fun hw => ?_, fun hq' => ?_, fun _ => hq⟩
  · rw [hw.1] at hq
    cases hq
  · rw [hq'] at hq
    cases hq

theorem not_activeOn_of_unmanaged (hq : j.queueManaged = false) (w : String) : j.activeOn w = false := by
  simp [Job.activeOn, hq]

theorem tame_of_unmanaged (hid : j'.id = j.id) (hq : j'.queueManaged = false) : Tame j j' :=
  ⟨hid, fun _ => sized_of_unmanaged hq, fun w ha => by rw [not_activeOn_of_unmanaged hq] at ha; cases ha⟩

theorem tame_withOrder (n : ℕ) (j : Job) : Tame j (j.withOrder n) :=
  ⟨rfl, fun h => ⟨h.waiting, h.active, h.delegated⟩, fun _ h => ⟨h, rfl⟩⟩

theorem tame_pendingStep (h : PendingStep id j j') (hj : Sized j) : Tame j j' := by
  cases h with
  | same => exact .refl j
  | reordered n => exact tame_withOrder n j
  | edited row workerId name expectedSeconds gpuCount n hp =>
    obtain ⟨-, hq, hs⟩ := pendingRow_iff.mp hp
    refine ⟨rfl, fun h => ⟨fun _ => h.waiting ⟨hq, hs⟩, fun _ ha => ?_, h.delegated⟩, fun w ha => ?_⟩
    · simp [Job.withOrder, Job.edited, hs] at ha
    · simp [Job.withOrder, Job.edited, hs] at ha
  | cancelled finishedAt hp => exact tame_of_ended rfl (.inr rfl) hj.delegated

theorem tame_settleStep {launchObserved : Bool} (h : SettleStep id launchObserved j j') (hj : Sized j) :
    Tame j j' := by
  cases h with
  | same => exact .refl j
  | reordered n => exact tame_withOrder n j
  | launched hp =>
    have hs := (startingRow_iff.mp hp).2
    refine ⟨rfl, fun h => ⟨(fun hw => by cases hw.2), fun hq _ => h.active hq (by simp [hs]), h.delegated⟩,
      fun w ha => ?_⟩
    rw [Job.activeOn_iff] at ha
    exact ⟨by simp [hs, show j.workerId = some w from ha.2.1, show j.queueManaged = true from ha.1], rfl⟩
  | recovered hp hq =>
    refine ⟨rfl, fun h => ⟨fun _ => rfl, fun _ ha => ?_, h.delegated⟩, fun w ha => ?_⟩
    · simp [Job.recovered] at ha
    · simp [Job.recovered] at ha
  | neverLaunched now hp => exact tame_of_ended rfl (.inr rfl) hj.delegated

theorem Assigned.tame (h : Assigned jobs) (ht : List.Forall₂ Tame jobs jobs') : Assigned jobs' where
  nodup := by
    rw [map_id_eq ht fun _ _ hr => hr.id]
    exact h.nodup
  sized j' hj' := by
    obtain ⟨j, hj, hr⟩ := exists_of_mem_right ht hj'
    exact hr.sized (h.sized j hj)
  apart w a' ha' b' hb' haw hbw hne := by
    obtain ⟨a, ha, hra⟩ := exists_of_mem_right ht ha'
    obtain ⟨b, hb, hrb⟩ := exists_of_mem_right ht hb'
    obtain ⟨ha₁, hga⟩ := hra.active w haw
    obtain ⟨hb₁, hgb⟩ := hrb.active w hbw
    rw [hga, hgb]
    exact h.apart w a ha b hb ha₁ hb₁ fun heq => hne (by rw [hra.id, hrb.id, heq])

/-- A row comes that is not active. -/
theorem Assigned.append (h : Assigned jobs) (hid : ∀ j ∈ jobs, j.id ≠ row.id) (hrow : Sized row)
    (hidle : ∀ w, row.activeOn w = false) : Assigned (jobs ++ [row]) where
  nodup := by
    rw [List.map_append, List.map_singleton, List.nodup_append]
    refine ⟨h.nodup, List.nodup_singleton _, ?_⟩
    intro a ha b hb
    obtain ⟨j, hj, rfl⟩ := List.mem_map.mp ha
    rw [List.mem_singleton.mp hb]
    exact hid j hj
  sized j hj := by
    rcases List.mem_append.mp hj with hj | hj
    · exact h.sized j hj
    · rw [List.mem_singleton.mp hj]
      exact hrow
  apart w a ha b hb haw hbw hne := by
    rcases List.mem_append.mp ha with ha | ha
    · rcases List.mem_append.mp hb with hb | hb
      · exact h.apart w a ha b hb haw hbw hne
      · rw [List.mem_singleton.mp hb, hidle w] at hbw
        cases hbw
    · rw [List.mem_singleton.mp ha, hidle w] at haw
      cases haw

theorem keepsActive_append (hidle : row.activeOn w = false) : KeepsActive w jobs (jobs ++ [row]) := by
  intro j hj ha
  rcases List.mem_append.mp hj with hj | hj
  · exact ⟨j, hj, ha, rfl, rfl⟩
  · rw [List.mem_singleton.mp hj, hidle] at ha
    cases ha

/-- The GPUs are free on the worker, apart from what the job `id` has. -/
def Reserved (w id : String) (gpuIndices : List ℕ) (jobs : List Job) : Prop :=
  ∀ j ∈ jobs, j.activeOn w = true → j.id ≠ id → j.gpuIndices.Disjoint gpuIndices

theorem Reserved.keepsActive {gpuIndices : List ℕ} (h : Reserved w id gpuIndices jobs)
    (hk : KeepsActive w jobs jobs') :
    Reserved w id gpuIndices jobs' := by
  intro j' hj' ha hne
  obtain ⟨j, hj, hj₁, hid, hg⟩ := hk j' hj' ha
  rw [← hg]
  exact h j hj hj₁ fun heq => hne (hid ▸ heq)

def written (job : Job) (jobs : List Job) : List Job := updateRows (fun j => j.id = job.id) (fun _ => job) jobs

theorem mem_written {job : Job} (hj : j ∈ written job jobs) : j = job ∧ (∃ j' ∈ jobs, j'.id = job.id) ∨ j ∈ jobs ∧
    j.id ≠ job.id := by
  obtain ⟨j', hj', rfl⟩ := List.mem_map.mp hj
  by_cases hid : j'.id = job.id
  · exact .inl ⟨if_pos (decide_eq_true hid), j', hj', hid⟩
  · rw [if_neg (by simpa using hid)]
    exact .inr ⟨hj', hid⟩

theorem map_id_written (job : Job) (jobs : List Job) : (written job jobs).map (·.id) = jobs.map (·.id) := by
  rw [written, updateRows, List.map_map]
  refine List.map_congr_left fun j _ => ?_
  simp only [Function.comp]
  split
  · next h => exact (of_decide_eq_true h).symm
  · rfl

/-- A claimed job is written as running, with the GPUs that are reserved for it. -/
theorem assigned_written {job : Job} (h : Assigned jobs) (hsized : Sized job) (hworker : job.workerId = some w)
    (hreserved : job.queueManaged = true → Reserved w job.id job.gpuIndices jobs) :
    Assigned (written job jobs) where
  nodup := by
    rw [map_id_written]
    exact h.nodup
  sized j hj := by
    rcases mem_written hj with ⟨rfl, -⟩ | ⟨hj, -⟩
    · exact hsized
    · exact h.sized j hj
  apart w' a ha b hb haw hbw hne := by
    have hfree : ∀ {j : Job}, j ∈ jobs → j.id ≠ job.id → j.activeOn w' = true → job.activeOn w' = true →
        j.gpuIndices.Disjoint job.gpuIndices := by
      intro j hj hid hjw hjob
      obtain ⟨hq, hw', -⟩ := Job.activeOn_iff.mp hjob
      have hw : w' = w := Option.some.inj (hw'.symm.trans hworker)
      exact hreserved hq j hj (hw ▸ hjw) hid
    rcases mem_written ha with ⟨rfl, -⟩ | ⟨ha', haid⟩ <;> rcases mem_written hb with ⟨rfl, -⟩ | ⟨hb', hbid⟩
    · exact absurd rfl hne
    · exact fun i hi hi' => hfree hb' hbid hbw haw hi' hi
    · exact hfree ha' haid haw hbw
    · exact h.apart w' a ha' b hb' haw hbw hne

/-- A job is written that is not active. -/
theorem assigned_written_idle {job : Job} (h : Assigned jobs) (hsized : Sized job)
    (hidle : ∀ w, job.activeOn w = false) :
    Assigned (written job jobs) where
  nodup := by
    rw [map_id_written]
    exact h.nodup
  sized j hj := by
    rcases mem_written hj with ⟨rfl, -⟩ | ⟨hj, -⟩
    · exact hsized
    · exact h.sized j hj
  apart w a ha b hb haw hbw hne := by
    rcases mem_written ha with ⟨rfl, -⟩ | ⟨ha, -⟩
    · rw [hidle w] at haw
      cases haw
    · rcases mem_written hb with ⟨rfl, -⟩ | ⟨hb, -⟩
      · rw [hidle w] at hbw
        cases hbw
      · exact h.apart w a ha b hb haw hbw hne

theorem keepsActive_written {job : Job} (hidle : job.activeOn w = false) :
    KeepsActive w jobs (written job jobs) := by
  intro j hj ha
  rcases mem_written hj with ⟨rfl, -⟩ | ⟨hj, -⟩
  · rw [hidle] at ha
    cases ha
  · exact ⟨j, hj, ha, rfl, rfl⟩

variable {gpuIndices : List ℕ} {startedAt : ℕ}

/-- What a successful claim leaves: the GPUs are the job's alone. -/
theorem assigned_of_claim (h : Assigned d.jobs) (hrow : row ∈ d.jobs)
    (hc : claimable jobId gpuIndices workerId d row = true) (hnodup : gpuIndices.Nodup)
    (hsteps : List.Forall₂ (ClaimStep row gpuIndices startedAt) d.jobs jobs') :
    Assigned jobs' ∧ Reserved workerId row.id gpuIndices jobs' := by
  obtain ⟨-, hpending, hcount, -, hfree⟩ := claimable_iff.mp hc
  obtain ⟨hq, hworker, hs⟩ := Job.pendingOn_iff.mp hpending
  have hmem : ∀ {j'}, j' ∈ jobs' → j' ∈ d.jobs ∧ j'.id ≠ row.id ∨ j' = row.claimed gpuIndices startedAt := by
    intro j' hj'
    obtain ⟨j, hj, ⟨hne, rfl⟩ | ⟨rfl, rfl⟩⟩ := exists_of_mem_right hsteps hj'
    · exact .inl ⟨hj, hne⟩
    · exact .inr rfl
  have hreserved : Reserved workerId row.id gpuIndices jobs' := by
    intro j' hj' ha hne
    rcases hmem hj' with ⟨hj, -⟩ | rfl
    · exact fun i hi => hfree j' hj ha i hi
    · exact absurd rfl hne
  refine ⟨⟨?_, fun j' hj' => ?_, fun w a ha b hb haw hbw hne => ?_⟩, hreserved⟩
  · rw [map_id_eq hsteps]
    · exact h.nodup
    · rintro j j' (⟨-, rfl⟩ | ⟨rfl, rfl⟩) <;> rfl
  · rcases hmem hj' with ⟨hj, -⟩ | rfl
    · exact h.sized j' hj
    · exact ⟨(fun hw => by cases hw.2), fun _ _ => ⟨hnodup, hcount.symm⟩, (h.sized row hrow).delegated⟩
  · have hown : ∀ {j : Job}, j ∈ d.jobs → j.id ≠ row.id → j.activeOn w = true →
        (row.claimed gpuIndices startedAt).activeOn w = true → j.gpuIndices.Disjoint gpuIndices := by
      intro j hj hid hjw hrw
      have hw : w = workerId := Option.some.inj ((Job.activeOn_iff.mp hrw).2.1.symm.trans hworker)
      exact fun i hi => hfree j hj (hw ▸ hjw) i hi
    rcases hmem ha with ⟨ha, haid⟩ | rfl <;> rcases hmem hb with ⟨hb, hbid⟩ | rfl
    · exact h.apart w a ha b hb haw hbw hne
    · exact hown ha haid haw hbw
    · exact fun i hi hi' => hown hb hbid hbw haw hi' hi
    · exact absurd rfl hne

theorem keepsActive_of_claim (hworker : row.workerId = some workerId) (hw : w ≠ workerId)
    (hsteps : List.Forall₂ (ClaimStep row gpuIndices startedAt) jobs jobs') : KeepsActive w jobs jobs' := by
  intro j' hj' ha
  obtain ⟨j, hj, ⟨-, heq⟩ | ⟨heq, rfl⟩⟩ := exists_of_mem_right hsteps hj'
  · exact ⟨j', heq ▸ hj, ha, rfl, rfl⟩
  · exact absurd (Option.some.inj ((Job.activeOn_iff.mp ha).2.1.symm.trans hworker)) hw

theorem moves_of_claim (hmine : mine workerId) (hpending : row.pendingOn workerId = true)
    (hsteps : List.Forall₂ (ClaimStep row gpuIndices startedAt) jobs jobs') : Moves mine started jobs jobs' := by
  obtain ⟨hq, hworker, hs⟩ := Job.pendingOn_iff.mp hpending
  refine .of_forall₂ (hsteps.imp ?_)
  rintro j j' (⟨-, rfl⟩ | ⟨rfl, rfl⟩)
  · exact .same _
  · exact .claimed _ _ hmine hworker ⟨hq, hs⟩

theorem jobs_upsertReport (workerId : String) (report : WorkerJobReport) (d : Tables) :
    ((upsertReport workerId report).apply d).jobs =
      if d.jobs.any (fun j => j.id = report.id) then
        updateRows (upsertReport.reported workerId report) (upsertReport.overwrite workerId report) d.jobs
      else d.jobs ++ [reportedJob workerId report] := by
  simp only [upsertReport]
  split <;> rfl

/-- A report changes delegated rows only. -/
theorem upsertReport_moves (workerId : String) (report : WorkerJobReport) (d : Tables) :
    Moves mine started d.jobs ((upsertReport workerId report).apply d).jobs := by
  rw [jobs_upsertReport]
  split
  · refine .of_forall₂ (forall₂_updateRows .same fun j _ hj => ?_)
    simp only [upsertReport.reported, Bool.and_eq_true, decide_eq_true_eq] at hj
    exact .reported _ hj.1.2 hj.1.2 hj.1.1.1.1.symm
  · next hany => exact .of_append (.reported rfl) (by simpa [reportedJob] using hany)

/-- A report takes no GPUs. -/
theorem assigned_upsertReport (h : Assigned d.jobs) (workerId : String) (report : WorkerJobReport) :
    Assigned ((upsertReport workerId report).apply d).jobs ∧
      ∀ w, KeepsActive w d.jobs ((upsertReport workerId report).apply d).jobs := by
  rw [jobs_upsertReport]
  split
  · have htame : List.Forall₂ Tame d.jobs (updateRows (upsertReport.reported workerId report)
        (upsertReport.overwrite workerId report) d.jobs) := by
      refine forall₂_updateRows .refl fun j _ hj => ?_
      simp only [upsertReport.reported, Bool.and_eq_true, decide_eq_true_eq] at hj
      exact tame_of_unmanaged hj.1.1.1.1.symm rfl
    exact ⟨h.tame htame, fun w => keepsActive_of_tame htame⟩
  · next hany =>
    have hidle : ∀ w, (reportedJob workerId report).activeOn w = false := not_activeOn_of_unmanaged rfl
    exact ⟨h.append (by simpa [reportedJob] using hany) (sized_of_unmanaged rfl) hidle,
      fun w => keepsActive_append (hidle w)⟩

theorem jobs_upsertReportedWorkerJob (workerId : String) (report : WorkerJobReport) (d : Tables) :
    (atomically (upsertReportedWorkerJob workerId report) d).2.jobs = d.jobs ∨
      (atomically (upsertReportedWorkerJob workerId report) d).2.jobs =
      ((upsertReport workerId report).apply d).jobs := by
  change (WorkerReports.deliver workerId report d).2.jobs = _ ∨ (WorkerReports.deliver workerId report d).2.jobs = _
  rw [WorkerReports.atomically_upsertReportedWorkerJob]
  split
  · exact .inl rfl
  · split
    · exact .inl rfl
    · split
      · exact .inl rfl
      · split
        · exact .inl rfl
        · exact .inr rfl

theorem RowMove.of_pendingStep (h : PendingStep id j j') : RowMove mine started j j' := by
  cases h with
  | same => exact .same _
  | reordered n hp => exact .reordered n hp
  | edited row workerId name expectedSeconds gpuCount n hp =>
    obtain ⟨-, hq, hs⟩ := pendingRow_iff.mp hp
    exact .edited row workerId name expectedSeconds gpuCount n ⟨hq, hs⟩
  | cancelled finishedAt hp =>
    obtain ⟨-, hq, hs⟩ := pendingRow_iff.mp hp
    exact .cancelled finishedAt ⟨hq, hs⟩

/-- The end of a claim, for the thread that has the lock of the worker with the job. -/
theorem RowMove.of_settleStep {launchObserved : Bool} (h : SettleStep id launchObserved j j') (hmine : mine w)
    (hruns : j.id = id → j.status = .starting → j.kind = .delegated ∨ RunsOn w j)
    (hunstarted : launchObserved = false → j.kind = .ssh → ∀ launch ∈ started, launch.2 ≠ id) :
    RowMove mine started j j' := by
  cases h with
  | same => exact .same _
  | reordered n hp => exact .reordered n hp
  | launched hp =>
    obtain ⟨hid, hs⟩ := startingRow_iff.mp hp
    rcases hruns hid hs with hkind | hr
    · exact .reported _ hkind hkind rfl
    · exact .launched hmine hr hs
  | recovered hp hq =>
    obtain ⟨hid, hs⟩ := startingRow_iff.mp hp
    rcases hruns hid hs with hkind | hr
    · exact .reported _ hkind hkind rfl
    · exact .recovered hmine hr hs hq (hid ▸ hunstarted rfl hr.kind)
  | neverLaunched now hp =>
    obtain ⟨hid, hs⟩ := startingRow_iff.mp hp
    rcases hruns hid hs with hkind | hr
    · exact .reported _ hkind hkind rfl
    · exact .neverLaunched now hmine hr hs

/-- The settling of another job. -/
theorem RowMove.of_settleStep_other {launchObserved : Bool} (h : SettleStep id launchObserved j j')
    (hid : j.id ≠ id) :
    RowMove mine started j j' := by
  cases h with
  | same => exact .same _
  | reordered n hp => exact .reordered n hp
  | launched hp => exact absurd (startingRow_iff.mp hp).1 hid
  | recovered hp => exact absurd (startingRow_iff.mp hp).1 hid
  | neverLaunched now hp => exact absurd (startingRow_iff.mp hp).1 hid

theorem moves_written (hn : (jobs.map (·.id)).Nodup) (hj : j ∈ jobs) (h : RowMove mine started j j') :
    Moves mine started jobs (written j' jobs) := by
  refine .of_forall₂ (forall₂_updateRows .same fun a ha hid => ?_)
  rw [eq_of_id_eq hn ha hj ((of_decide_eq_true hid).trans h.id_eq)]
  exact h

structure Launched (jobs : List Job) (started : List (String × String)) : Prop where
  waiting : ∀ j ∈ jobs, j.kind = .ssh → j.status = .pending → j.queueManaged = true
  once : (started.map (·.2)).Nodup
  rows : ∀ launch ∈ started, ∃ j ∈ jobs, j.id = launch.2 ∧ j.kind = .ssh ∧ j.status ≠ .pending ∧
    (j.status = .starting → j.workerId = some launch.1)

theorem RowMove.waiting (h : RowMove mine started j j')
    (hj : j.kind = .ssh → j.status = .pending → j.queueManaged = true)
    (hkind : j'.kind = .ssh) (hs : j'.status = .pending) : j'.queueManaged = true := by
  cases h with
  | same => exact hj hkind hs
  | reordered n hp => exact hj hkind hp
  | edited _ _ _ _ _ _ hw => exact hw.1
  | recovered _ _ _ hq => exact hq
  | reported _ _ hd => exact absurd (hkind.symm.trans hd) (by simp)
  | finished exitCode =>
    dsimp only at hs
    split at hs <;> cases hs
  | _ => cases hs

/-- A job that was launched does not come back to the queue, or to another worker. -/
theorem RowMove.launched_rows (h : RowMove mine started j j') {launch : String × String} (hmem : launch ∈ started)
    (hid : j.id = launch.2) (hkind : j.kind = .ssh) (hs : j.status ≠ .pending)
    (hw : j.status = .starting → j.workerId = some launch.1) :
    j'.status ≠ .pending ∧ (j'.status = .starting → j'.workerId = some launch.1) := by
  cases h with
  | same => exact ⟨hs, hw⟩
  | reordered n hp => exact absurd hp hs
  | edited _ _ _ _ _ _ hwaits => exact absurd hwaits.2 hs
  | cancelled _ hwaits => exact absurd hwaits.2 hs
  | claimed _ _ _ _ hwaits => exact absurd hwaits.2 hs
  | recovered _ _ _ _ hunstarted => exact absurd hid.symm (hunstarted launch hmem)
  | reported _ hd => exact absurd (hkind.symm.trans hd) (by simp)
  | finished exitCode =>
    dsimp only
    split <;> simp
  | _ => simp [Job.launched, Job.neverLaunched]

theorem Launched.moves (h : Launched jobs started) (hm : Moves mine started jobs jobs') :
    Launched jobs' started where
  waiting j' hj' hkind hs := by
    rcases hm.exists_right hj' with ⟨j, hj, hr⟩ | ⟨hrow, -⟩
    · exact hr.waiting (h.waiting j hj) hkind hs
    · cases hrow with
      | enqueued _ hw => exact hw.1
      | started _ hr => rcases hr.active with ha | ha <;> simp [hs] at ha
      | reported hd => exact absurd (hkind.symm.trans hd) (by simp)
  once := h.once
  rows launch hl := by
    obtain ⟨j, hj, hid, hkind, hs, hw⟩ := h.rows launch hl
    obtain ⟨j', hj', hr⟩ := hm.exists_left hj
    obtain ⟨hs', hw'⟩ := hr.launched_rows hl hid hkind hs hw
    exact ⟨j', hj', hr.id_eq.trans hid, hr.kind_eq.trans hkind, hs', hw'⟩

/-- The launch of a claimed job that was not launched before. -/
theorem Launched.cons (h : Launched jobs started) (hj : j ∈ jobs) (hr : RunsOn w j)
    (hunstarted : ∀ launch ∈ started, launch.2 ≠ j.id) : Launched jobs ((w, j.id) :: started) where
  waiting := h.waiting
  once := by
    rw [List.map_cons, List.nodup_cons]
    refine ⟨fun hmem => ?_, h.once⟩
    obtain ⟨launch, hl, hid⟩ := List.mem_map.mp hmem
    exact hunstarted launch hl hid
  rows launch hl := by
    rcases List.mem_cons.mp hl with rfl | hl
    · refine ⟨j, hj, rfl, hr.kind, ?_, fun _ => hr.worker⟩
      rcases hr.active with ha | ha <;> simp [ha]
    · exact h.rows launch hl

/-- A job that waits was never launched. -/
theorem Launched.unstarted (h : Launched jobs started) (hn : (jobs.map (·.id)).Nodup) (hj : j ∈ jobs)
    (hs : j.status = .pending) : ∀ launch ∈ started, launch.2 ≠ j.id := by
  intro launch hl hid
  obtain ⟨j', hj', hid', -, hs', -⟩ := h.rows launch hl
  rw [eq_of_id_eq hn hj' hj (hid'.trans hid)] at hs'
  exact hs' hs

end WorkerHarness.JobMoves
