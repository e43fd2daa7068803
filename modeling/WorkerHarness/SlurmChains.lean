import WorkerHarness.ConditionedRuns
import WorkerHarness.JsonWriting
import Mathlib.Logic.Function.Basic

/-!
# Chains of Slurm jobs

Every job queues its successor when it starts, so that an allocation goes on. The chains with one job name
share a directory: the stop file, the file with the length of the last run, and a marker of each job that has
queued its successor. The runs of the chains interleave at every access to the directory and at every call of
`sbatch`, and they may end anywhere.
-/

namespace WorkerHarness.SlurmChains

open CodePoints ConditionedRuns

def newline : CodePoint := codePoint '\n'

/-- `printf '%s\n' "$elapsed"` -/
def elapsedText (elapsed : ℕ) : Str := IntLiterals.decimal elapsed ++ [newline]

/-- A text is written at the start of a file; others may have written since the file was truncated. -/
def overwrite (text file : Str) : Str := text ++ file.drop text.length

/-- `last_runtime`: what `cat` prints, and 0 if that is no number. -/
def lastRuntime (file : Str) : ℕ :=
  let text := file.rdropWhile fun c => c = newline
  if text ≠ [] ∧ text.all JsonTexts.isDigit then JsonTexts.natOf text else 0

/-- The run in the file, if there is a file, lasted for less than `min_runtime`. -/
def tooShort (minRuntime : ℕ) : Option Str → Bool
  | none => false
  | some file => lastRuntime file < minRuntime

/-- How a job leaves `wh_slurm_bootstrap`: with a reason not to queue, with a marker that was there already, with
a successor, or with five submissions that failed. -/
inductive Outcome
  | refused
  | already
  | queued
  | failed
deriving DecidableEq

/-- What a job does next. -/
inductive Phase
  | pending
  | stopCheck
  | runtimeCheck
  | makeMarker
  | submitting (failures : ℕ)
  | withdraw
  | working (outcome : Outcome)
  | exiting (elapsed : ℕ)
  | ended
deriving DecidableEq

/-- The marker has been made, and the job is not done with its submissions. -/
def Phase.inSubmission : Phase → Bool
  | .submitting _ | .withdraw => true
  | _ => false

/-- The job has started, and neither ended nor come to the end of its exit trap. -/
def Phase.running : Phase → Bool
  | .pending | .ended => false
  | _ => true

/-- No submission of the job has been broken off. -/
def Phase.settled : Phase → Bool
  | .submitting _ | .withdraw | .exiting _ | .ended => false
  | _ => true

def Phase.inTrap : Phase → Bool
  | .exiting _ => true
  | _ => false

/-- A job of a chain, and what it has found: whether the stop file was there, and how long the last run of its
chain took when it read the runtime file. -/
structure Job (C J : Type) where
  slot : C
  predecessor : Option J := none
  phase : Phase := .pending
  stopSeen : Bool := false
  ownRuntime : Option ℕ := none

inductive Decision
  | stopped
  | tooShort
  | queue
deriving DecidableEq

/-- The jobs and the shared directory. Beside them: for each chain what the runtime file would hold if no other
chain had written to it, how long the last run of the chain took if it was recorded, and the decisions. -/
structure Cluster (C J : Type) where
  jobs : J → Option (Job C J)
  stopFile : Bool
  runtimeFile : Option Str
  markers : J → Bool
  recorded : C → Option Str
  lastRun : C → Option ℕ
  decisions : List (C × J × Decision) := []

inductive Action (J : Type)
  | setStop (present : Bool)
  | start (job : J)
  | go (job : J)
  | sbatch (job : J) (result : Option J)
  | exit (job : J) (elapsed : ℕ)
  | kill (job : J)
  | requeue (job : J)

variable {C J : Type} [DecidableEq C] [DecidableEq J]

namespace Cluster

def put (s : Cluster C J) (j : J) (job : Job C J) : Cluster C J :=
  { s with jobs := Function.update s.jobs j (some job) }

def log (s : Cluster C J) (j : J) (job : Job C J) (decision : Decision) : Cluster C J :=
  { s with decisions := s.decisions ++ [(job.slot, j, decision)] }

def setMarker (s : Cluster C J) (j : J) (present : Bool) : Cluster C J :=
  { s with markers := Function.update s.markers j present }

def write (s : Cluster C J) (slot : C) (text : Option Str → Str) (lastRun : Option ℕ) : Cluster C J :=
  { s with
    runtimeFile := some (text s.runtimeFile)
    recorded := Function.update s.recorded slot (some (text (s.recorded slot)))
    lastRun := Function.update s.lastRun slot lastRun }

def forget (s : Cluster C J) (slot : C) : Cluster C J := { s with lastRun := Function.update s.lastRun slot none }

/-- `--dependency=afterany` -/
def predecessorEnded (s : Cluster C J) (job : Job C J) : Bool :=
  match job.predecessor with
  | none => true
  | some p => (s.jobs p).any fun job => job.phase = .ended

/-- One step of the script of a job: of `wh_slurm_bootstrap`, or the write of `_wh_slurm_on_exit`. -/
def advance (minRuntime : C → ℕ) (s : Cluster C J) (j : J) (job : Job C J) : Option (Cluster C J) :=
  match job.phase with
  | .stopCheck =>
    if s.stopFile then some ((s.put j { job with phase := .working .refused, stopSeen := true }).log j job .stopped)
    else some (s.put j { job with phase := .runtimeCheck })
  | .runtimeCheck =>
    if SlurmChains.tooShort (minRuntime job.slot) s.runtimeFile then
      some ((s.put j { job with phase := .working .refused, ownRuntime := s.lastRun job.slot }).log j job .tooShort)
    else some ((s.put j { job with phase := .makeMarker, ownRuntime := s.lastRun job.slot }).log j job .queue)
  | .makeMarker =>
    if s.markers j then some (s.put j { job with phase := .working .already })
    else some ((s.put j { job with phase := .submitting 0 }).setMarker j true)
  | .withdraw => some ((s.put j { job with phase := .working .failed }).setMarker j false)
  | .exiting elapsed =>
    some ((s.put j { job with phase := .ended }).write job.slot
      (fun file => overwrite (elapsedText elapsed) (file.getD [])) (some elapsed))
  | _ => none

/-- One call of `sbatch`, which fails or queues a job with a new id. -/
def submit (s : Cluster C J) (j : J) (job : Job C J) (result : Option J) : Option (Cluster C J) :=
  match job.phase with
  | .submitting failures =>
    match result with
    | some k =>
      if (s.jobs k).isNone then
        some ((s.put j { job with phase := .working .queued }).put k { slot := job.slot, predecessor := some j })
      else none
    | none =>
      if failures + 1 < 5 then some (s.put j { job with phase := .submitting (failures + 1) })
      else some (s.put j { job with phase := .withdraw })
  | _ => none

def step (minRuntime : C → ℕ) (s : Cluster C J) : Action J → Option (Cluster C J)
  | .setStop present => some { s with stopFile := present }
  | .start j =>
    (s.jobs j).bind fun job =>
      if job.phase = .pending ∧ s.predecessorEnded job then
        some (s.put j { job with phase := .stopCheck, stopSeen := false, ownRuntime := none })
      else none
  | .go j => (s.jobs j).bind (s.advance minRuntime j)
  | .sbatch j result => (s.jobs j).bind fun job => s.submit j job result
  | .exit j elapsed =>
    -- The exit trap has the elapsed time, and opens the file.
    (s.jobs j).bind fun job =>
      if job.phase.running && !job.phase.inTrap then
        some ((s.put j { job with phase := .exiting elapsed }).write job.slot (fun _ => []) none)
      else none
  | .kill j =>
    -- The run ends without its exit trap, or within it.
    (s.jobs j).bind fun job =>
      if job.phase.running then some ((s.put j { job with phase := .ended }).forget job.slot) else none
  | .requeue j => (s.jobs j).bind fun job =>
    if job.phase = .ended then some (s.put j { job with phase := .pending }) else none

end Cluster

open Cluster

section

omit [DecidableEq C]

@[simp] theorem jobs_put_self {s : Cluster C J} {j : J} {job : Job C J} : (s.put j job).jobs j = some job :=
  Function.update_self ..

theorem jobs_put_of_ne {s : Cluster C J} {j k : J} {job : Job C J} (h : k ≠ j) : (s.put j job).jobs k = s.jobs k :=
  Function.update_of_ne h ..

theorem jobs_put (s : Cluster C J) (j : J) (job : Job C J) (k : J) :
    (s.put j job).jobs k = if k = j then some job else s.jobs k :=
  Function.update_apply ..

end

/-- Everything that a step can do. -/
inductive Takes (minRuntime : C → ℕ) (s : Cluster C J) : Action J → Cluster C J → Prop
  | setStop (present : Bool) : Takes minRuntime s (.setStop present) { s with stopFile := present }
  | start {j : J} {job : Job C J} (hjob : s.jobs j = some job) (hphase : job.phase = .pending)
      (hpredecessor : s.predecessorEnded job = true) :
      Takes minRuntime s (.start j)
        (s.put j { job with phase := .stopCheck, stopSeen := false, ownRuntime := none })
  | stopped {j : J} {job : Job C J} (hjob : s.jobs j = some job) (hphase : job.phase = .stopCheck)
    (hstop : s.stopFile = true) :
      Takes minRuntime s (.go j) ((s.put j { job with phase := .working .refused, stopSeen := true }).log j
        job .stopped)
  | unstopped {j : J} {job : Job C J} (hjob : s.jobs j = some job) (hphase : job.phase = .stopCheck)
    (hstop : s.stopFile = false) :
      Takes minRuntime s (.go j) (s.put j { job with phase := .runtimeCheck })
  | short {j : J} {job : Job C J} (hjob : s.jobs j = some job) (hphase : job.phase = .runtimeCheck)
      (hshort : SlurmChains.tooShort (minRuntime job.slot) s.runtimeFile = true) :
      Takes minRuntime s (.go j)
        ((s.put j { job with phase := .working .refused, ownRuntime := s.lastRun job.slot }).log j job .tooShort)
  | long {j : J} {job : Job C J} (hjob : s.jobs j = some job) (hphase : job.phase = .runtimeCheck)
      (hlong : SlurmChains.tooShort (minRuntime job.slot) s.runtimeFile = false) :
      Takes minRuntime s (.go j) ((s.put j { job with phase := .makeMarker, ownRuntime := s.lastRun job.slot }).log
        j job .queue)
  | marked {j : J} {job : Job C J} (hjob : s.jobs j = some job) (hphase : job.phase = .makeMarker)
    (hmarker : s.markers j = true) :
      Takes minRuntime s (.go j) (s.put j { job with phase := .working .already })
  | mark {j : J} {job : Job C J} (hjob : s.jobs j = some job) (hphase : job.phase = .makeMarker)
    (hmarker : s.markers j = false) :
      Takes minRuntime s (.go j) ((s.put j { job with phase := .submitting 0 }).setMarker j true)
  | withdrawn {j : J} {job : Job C J} (hjob : s.jobs j = some job) (hphase : job.phase = .withdraw) :
      Takes minRuntime s (.go j) ((s.put j { job with phase := .working .failed }).setMarker j false)
  | recorded {j : J} {job : Job C J} {elapsed : ℕ} (hjob : s.jobs j = some job)
    (hphase : job.phase = .exiting elapsed) :
      Takes minRuntime s (.go j) ((s.put j { job with phase := .ended }).write job.slot
        (fun file => overwrite (elapsedText elapsed) (file.getD [])) (some elapsed))
  | queued {j k : J} {job : Job C J} {failures : ℕ} (hjob : s.jobs j = some job)
    (hphase : job.phase = .submitting failures)
      (hfresh : s.jobs k = none) :
      Takes minRuntime s (.sbatch j (some k))
        ((s.put j { job with phase := .working .queued }).put k { slot := job.slot, predecessor := some j })
  | retried {j : J} {job : Job C J} {failures : ℕ} (hjob : s.jobs j = some job)
    (hphase : job.phase = .submitting failures)
      (hfew : failures + 1 < 5) :
      Takes minRuntime s (.sbatch j none) (s.put j { job with phase := .submitting (failures + 1) })
  | gaveUp {j : J} {job : Job C J} {failures : ℕ} (hjob : s.jobs j = some job)
    (hphase : job.phase = .submitting failures)
      (hmany : 5 ≤ failures + 1) :
      Takes minRuntime s (.sbatch j none) (s.put j { job with phase := .withdraw })
  | exited {j : J} {job : Job C J} {elapsed : ℕ} (hjob : s.jobs j = some job) (hrunning : job.phase.running = true)
      (htrap : job.phase.inTrap = false) :
      Takes minRuntime s (.exit j elapsed) ((s.put j { job with phase := .exiting elapsed }).write job.slot
        (fun _ => []) none)
  | killed {j : J} {job : Job C J} (hjob : s.jobs j = some job) (hrunning : job.phase.running = true) :
      Takes minRuntime s (.kill j) ((s.put j { job with phase := .ended }).forget job.slot)
  | requeued {j : J} {job : Job C J} (hjob : s.jobs j = some job) (hphase : job.phase = .ended) :
      Takes minRuntime s (.requeue j) (s.put j { job with phase := .pending })

variable {minRuntime : C → ℕ} {s s' : Cluster C J} {a : Action J} {j k p : J} {job job' : Job C J} {slot : C}

theorem takes_of_advance (hjob : s.jobs j = some job) (h : s.advance minRuntime j job = some s') :
    Takes minRuntime s (.go j) s' := by
  unfold Cluster.advance at h
  split at h
  · next hphase =>
    split at h
    · next hstop => exact Option.some.inj h ▸ .stopped hjob hphase hstop
    · next hstop => exact Option.some.inj h ▸ .unstopped hjob hphase (by simpa using hstop)
  · next hphase =>
    split at h
    · next hshort => exact Option.some.inj h ▸ .short hjob hphase hshort
    · next hlong => exact Option.some.inj h ▸ .long hjob hphase (by simpa using hlong)
  · next hphase =>
    split at h
    · next hmarker => exact Option.some.inj h ▸ .marked hjob hphase hmarker
    · next hmarker => exact Option.some.inj h ▸ .mark hjob hphase (by simpa using hmarker)
  · next hphase => exact Option.some.inj h ▸ .withdrawn hjob hphase
  · next hphase => exact Option.some.inj h ▸ .recorded hjob hphase
  · cases h

theorem takes_of_submit {result : Option J} (hjob : s.jobs j = some job) (h : s.submit j job result = some s') :
    Takes minRuntime s (.sbatch j result) s' := by
  unfold Cluster.submit at h
  split at h
  · next failures hphase =>
    cases result with
    | some k =>
      dsimp only at h
      split at h
      · next hfresh => exact Option.some.inj h ▸ .queued hjob hphase (by simpa using hfresh)
      · cases h
    | none =>
      dsimp only at h
      split at h
      · next hfew => exact Option.some.inj h ▸ .retried hjob hphase hfew
      · next hmany => exact Option.some.inj h ▸ .gaveUp hjob hphase (Nat.not_lt.mp hmany)
  · cases h

theorem takes_of_step (h : s.step minRuntime a = some s') : Takes minRuntime s a s' := by
  cases a with
  | setStop present => exact Option.some.inj h ▸ .setStop present
  | start j =>
    obtain ⟨job, hjob, h⟩ := Option.bind_eq_some_iff.mp h
    split at h
    · next hguard => exact Option.some.inj h ▸ .start hjob hguard.1 hguard.2
    · cases h
  | go j =>
    obtain ⟨job, hjob, h⟩ := Option.bind_eq_some_iff.mp h
    exact takes_of_advance hjob h
  | sbatch j result =>
    obtain ⟨job, hjob, h⟩ := Option.bind_eq_some_iff.mp h
    exact takes_of_submit hjob h
  | exit j elapsed =>
    obtain ⟨job, hjob, h⟩ := Option.bind_eq_some_iff.mp h
    split at h
    · next hguard =>
      rw [Bool.and_eq_true, Bool.not_eq_true'] at hguard
      exact Option.some.inj h ▸ .exited hjob hguard.1 hguard.2
    · cases h
  | kill j =>
    obtain ⟨job, hjob, h⟩ := Option.bind_eq_some_iff.mp h
    split at h
    · next hrunning => exact Option.some.inj h ▸ .killed hjob hrunning
    · cases h
  | requeue j =>
    obtain ⟨job, hjob, h⟩ := Option.bind_eq_some_iff.mp h
    split at h
    · next hphase => exact Option.some.inj h ▸ .requeued hjob hphase
    · cases h

variable {jobs : J → Option (Job C J)} {markers : J → Bool} {present : Bool}

def HasSuccessor (jobs : J → Option (Job C J)) (j : J) : Prop :=
  ∃ k job, jobs k = some job ∧ job.predecessor = some j

/-- No two jobs were queued by one. -/
def OneSuccessor (jobs : J → Option (Job C J)) : Prop :=
  ∀ k k' job job' p, jobs k = some job → jobs k' = some job' → job.predecessor = some p →
    job'.predecessor = some p → k = k'

structure Linked (jobs : J → Option (Job C J)) (markers : J → Bool) : Prop where
  predecessor : ∀ k job p, jobs k = some job → job.predecessor = some p →
    ∃ before, jobs p = some before ∧ before.slot = job.slot ∧ markers p = true ∧ before.phase.inSubmission = false
  marker : ∀ k job, jobs k = some job → job.phase.inSubmission = true → markers k = true
  unique : OneSuccessor jobs

section

omit [DecidableEq C]

theorem exists_old (hjob : jobs j = some job) (hslot : job'.slot = job.slot)
    (hpredecessor : job'.predecessor = job.predecessor)
    {kjob : Job C J} (hk : Function.update jobs j (some job') k = some kjob) :
    ∃ old, jobs k = some old ∧ kjob.slot = old.slot ∧ kjob.predecessor = old.predecessor := by
  rw [Function.update_apply] at hk
  split at hk
  · next heq =>
    cases hk
    exact ⟨job, heq ▸ hjob, hslot, hpredecessor⟩
  · exact ⟨kjob, hk, rfl, rfl⟩

theorem HasSuccessor.update (h : HasSuccessor jobs p) (hjob : jobs j = some job)
    (hpredecessor : job'.predecessor = job.predecessor) :
    HasSuccessor (Function.update jobs j (some job')) p := by
  obtain ⟨k, kjob, hk, hp⟩ := h
  by_cases hkj : k = j
  · subst hkj
    rw [hjob] at hk
    cases hk
    exact ⟨k, job', Function.update_self .., hpredecessor.trans hp⟩
  · exact ⟨k, kjob, (Function.update_of_ne hkj ..).trans hk, hp⟩

theorem HasSuccessor.add (h : HasSuccessor jobs p) (hfresh : jobs k = none) :
    HasSuccessor (Function.update jobs k (some job)) p := by
  obtain ⟨k', kjob, hk', hp⟩ := h
  have hne : k' ≠ k := by
    intro heq
    rw [heq, hfresh] at hk'
    cases hk'
  exact ⟨k', kjob, (Function.update_of_ne hne ..).trans hk', hp⟩

omit [DecidableEq J] in
theorem Linked.phase_of_hasSuccessor (h : Linked jobs markers) (hjob : jobs j = some job)
    (hsuccessor : HasSuccessor jobs j) :
    markers j = true ∧ job.phase.inSubmission = false := by
  obtain ⟨k, kjob, hk, hp⟩ := hsuccessor
  obtain ⟨before, hbefore, -, hmarker, hphase⟩ := h.predecessor k kjob j hk hp
  rw [hjob] at hbefore
  cases hbefore
  exact ⟨hmarker, hphase⟩

/-- A job goes on, and its marker stays unless it has no successor. -/
theorem Linked.change (h : Linked jobs markers) (present : Bool) (hjob : jobs j = some job)
    (hslot : job'.slot = job.slot)
    (hpredecessor : job'.predecessor = job.predecessor)
    (hsuccessor : HasSuccessor jobs j → present = true ∧ job'.phase.inSubmission = false)
    (hphase : job'.phase.inSubmission = true → present = true) :
    Linked (Function.update jobs j (some job')) (Function.update markers j present) := by
  constructor
  · intro k kjob p hk hp
    obtain ⟨old, hold, hkslot, hkpredecessor⟩ := exists_old hjob hslot hpredecessor hk
    rw [hkpredecessor] at hp
    obtain ⟨before, hbefore, hs, hmarker, hsub⟩ := h.predecessor k old p hold hp
    rw [hkslot]
    by_cases hpj : p = j
    · subst hpj
      rw [hjob] at hbefore
      cases hbefore
      obtain ⟨hpresent, hsub'⟩ := hsuccessor ⟨k, old, hold, hp⟩
      exact ⟨job', Function.update_self .., hslot.trans hs, (Function.update_self ..).trans hpresent, hsub'⟩
    · exact ⟨before, (Function.update_of_ne hpj ..).trans hbefore, hs,
        (Function.update_of_ne hpj ..).trans hmarker, hsub⟩
  · intro k kjob hk hsub
    rw [Function.update_apply] at hk ⊢
    split at hk
    · next heq =>
      cases hk
      rw [if_pos heq]
      exact hphase hsub
    · next hne =>
      rw [if_neg hne]
      exact h.marker k kjob hk hsub
  · intro k k' kjob kjob' p hk hk' hp hp'
    obtain ⟨old, hold, -, hkpredecessor⟩ := exists_old hjob hslot hpredecessor hk
    obtain ⟨old', hold', -, hkpredecessor'⟩ := exists_old hjob hslot hpredecessor hk'
    exact h.unique k k' old old' p hold hold' (hkpredecessor ▸ hp) (hkpredecessor' ▸ hp')

/-- A job goes on without a new submission. -/
theorem Linked.put (h : Linked jobs markers) (hjob : jobs j = some job) (hslot : job'.slot = job.slot)
    (hpredecessor : job'.predecessor = job.predecessor)
    (hphase : job'.phase.inSubmission = true → job.phase.inSubmission = true) :
    Linked (Function.update jobs j (some job')) markers := by
  have hkept := h.change (markers j) hjob hslot hpredecessor (fun hsuccessor => by
    obtain ⟨hmarker, hsub⟩ := h.phase_of_hasSuccessor hjob hsuccessor
    refine ⟨hmarker, Bool.eq_false_iff.mpr fun hsub' => ?_⟩
    rw [hphase hsub'] at hsub
    cases hsub) (fun hsub => h.marker j job hjob (hphase hsub))
  rwa [Function.update_eq_self] at hkept

/-- A job with its marker and without a successor gets one. -/
theorem Linked.add (h : Linked jobs markers) (hjob : jobs j = some job) (hmarker : markers j = true)
    (hphase : job.phase.inSubmission = false) (hnone : ¬ HasSuccessor jobs j) (hfresh : jobs k = none) :
    Linked (Function.update jobs k (some { slot := job.slot, predecessor := some j })) markers := by
  have hkeeps : ∀ p before, jobs p = some before →
      Function.update jobs k (some { slot := job.slot, predecessor := some j }) p = some before := by
    intro p before hp
    refine (Function.update_of_ne ?_ ..).trans hp
    intro heq
    rw [heq, hfresh] at hp
    cases hp
  constructor
  · intro k' kjob p hk hp
    rw [Function.update_apply] at hk
    split at hk
    · cases hk
      cases hp
      exact ⟨job, hkeeps j job hjob, rfl, hmarker, hphase⟩
    · obtain ⟨before, hbefore, hs, hm, hsub⟩ := h.predecessor k' kjob p hk hp
      exact ⟨before, hkeeps p before hbefore, hs, hm, hsub⟩
  · intro k' kjob hk hsub
    rw [Function.update_apply] at hk
    split at hk
    · cases hk
      cases hsub
    · exact h.marker k' kjob hk hsub
  · intro k₁ k₂ job₁ job₂ p hk₁ hk₂ hp₁ hp₂
    rw [Function.update_apply] at hk₁ hk₂
    split at hk₁ <;> split at hk₂
    · next heq₁ heq₂ => rw [heq₁, heq₂]
    · cases hk₁
      cases hp₁
      exact absurd ⟨k₂, job₂, hk₂, hp₂⟩ hnone
    · cases hk₂
      cases hp₂
      exact absurd ⟨k₁, job₁, hk₁, hp₁⟩ hnone
    · exact h.unique k₁ k₂ job₁ job₂ p hk₁ hk₂ hp₁ hp₂

end

theorem linked_of_takes (h : Linked s.jobs s.markers) (htakes : Takes minRuntime s a s') :
    Linked s'.jobs s'.markers := by
  cases htakes with
  | setStop present => exact h
  | start hjob hphase _ => exact h.put hjob rfl rfl (fun hsub => by cases hsub)
  | stopped hjob hphase _ => exact h.put hjob rfl rfl (fun hsub => by cases hsub)
  | unstopped hjob hphase _ => exact h.put hjob rfl rfl (fun hsub => by cases hsub)
  | short hjob hphase _ => exact h.put hjob rfl rfl (fun hsub => by cases hsub)
  | long hjob hphase _ => exact h.put hjob rfl rfl (fun hsub => by cases hsub)
  | marked hjob hphase _ => exact h.put hjob rfl rfl (fun hsub => by cases hsub)
  | mark hjob hphase hmarker =>
    refine h.change true hjob rfl rfl (fun hsuccessor => ?_) (fun _ => rfl)
    have hmarked := (h.phase_of_hasSuccessor hjob hsuccessor).1
    rw [hmarker] at hmarked
    cases hmarked
  | withdrawn hjob hphase =>
    refine h.change false hjob rfl rfl (fun hsuccessor => ?_) (fun hsub => by cases hsub)
    have hsub := (h.phase_of_hasSuccessor hjob hsuccessor).2
    rw [hphase] at hsub
    cases hsub
  | recorded hjob hphase => exact h.put hjob rfl rfl (fun hsub => by cases hsub)
  | @queued j k job failures hjob hphase hfresh =>
    have hsub : job.phase.inSubmission = true := by rw [hphase]; rfl
    have hnone : ¬ HasSuccessor s.jobs j := by
      intro hsuccessor
      rw [(h.phase_of_hasSuccessor hjob hsuccessor).2] at hsub
      cases hsub
    have hne : k ≠ j := by
      intro heq
      rw [heq, hjob] at hfresh
      cases hfresh
    let queued : Job C J := { job with phase := .working .queued }
    have hput := h.put (show s.jobs j = some job from hjob)
      (show queued.slot = job.slot from rfl) rfl (fun _ => hsub)
    have hself : Function.update s.jobs j (some queued) j = some queued := Function.update_self ..
    have hnone' : ¬ HasSuccessor (Function.update s.jobs j (some queued)) j := by
      rintro ⟨k', kjob, hk', hp⟩
      obtain ⟨old, hold, -, hpredecessor⟩ := exists_old hjob (show queued.slot = job.slot from rfl) rfl hk'
      exact hnone ⟨k', old, hold, hpredecessor ▸ hp⟩
    have hadd := hput.add hself (h.marker j job hjob hsub) rfl hnone' ((Function.update_of_ne hne ..).trans hfresh)
    exact hadd
  | retried hjob hphase _ => exact h.put hjob rfl rfl (fun _ => by rw [hphase]; rfl)
  | gaveUp hjob hphase _ => exact h.put hjob rfl rfl (fun _ => by rw [hphase]; rfl)
  | exited hjob _ _ => exact h.put hjob rfl rfl (fun hsub => by cases hsub)
  | killed hjob _ => exact h.put hjob rfl rfl (fun hsub => by cases hsub)
  | requeued hjob _ => exact h.put hjob rfl rfl (fun hsub => by cases hsub)

theorem lastRuntime_elapsedText (elapsed : ℕ) : lastRuntime (elapsedText elapsed) = elapsed := by
  have htrim : (elapsedText elapsed).rdropWhile (fun c => c = newline) = IntLiterals.decimal elapsed := by
    rw [elapsedText, rdropWhile_append_of_forall fun c hc => decide_eq_true (List.mem_singleton.mp hc)]
    refine List.rdropWhile_eq_self_iff.mpr fun hne => ?_
    have hdigit := JsonWriting.isDigit_of_mem_decimal (List.getLast_mem hne)
    intro hlast
    rw [of_decide_eq_true hlast] at hdigit
    exact absurd hdigit (by decide)
  have hdigits : (IntLiterals.decimal elapsed).all JsonTexts.isDigit = true :=
    List.all_eq_true.mpr fun c hc => JsonWriting.isDigit_of_mem_decimal hc
  rw [lastRuntime, htrim, if_pos ⟨IntLiterals.decimal_ne_nil elapsed, hdigits⟩, JsonWriting.natOf_decimal]

theorem overwrite_nil (text : Str) : overwrite text [] = text := by rw [overwrite, List.drop_nil, List.append_nil]

variable {recorded : C → Option Str} {lastRun : C → Option ℕ}

structure Recorded (jobs : J → Option (Job C J)) (recorded : C → Option Str) (lastRun : C → Option ℕ) : Prop where
  text : ∀ c elapsed, lastRun c = some elapsed → recorded c = some (elapsedText elapsed)
  empty : ∀ j job, jobs j = some job → job.phase.inTrap = true → recorded job.slot = some []
  single : ∀ j k job job', jobs j = some job → jobs k = some job' → job.phase.inTrap = true →
    job'.phase.inTrap = true →
    job'.slot = job.slot → j = k

omit [DecidableEq C] in
/-- A job outside of its exit trap is added or goes on. -/
theorem Recorded.put (h : Recorded jobs recorded lastRun) (htrap : job'.phase.inTrap = false) :
    Recorded (Function.update jobs j (some job')) recorded lastRun := by
  have hold : ∀ k kjob, Function.update jobs j (some job') k = some kjob → kjob.phase.inTrap = true →
    jobs k = some kjob := by
    intro k kjob hk hktrap
    rw [Function.update_apply] at hk
    split at hk
    · cases hk
      rw [htrap] at hktrap
      cases hktrap
    · exact hk
  constructor
  · exact h.text
  · exact fun k kjob hk hktrap => h.empty k kjob (hold k kjob hk hktrap) hktrap
  · exact fun k k' kjob kjob' hk hk' ht ht' => h.single k k' kjob kjob' (hold k kjob hk ht)
      (hold k' kjob' hk' ht') ht ht'

/-- The exit trap of a job opens the file. -/
theorem Recorded.truncate (h : Recorded jobs recorded lastRun) (hslot : job'.slot = slot)
    (hfirst : ∀ k kjob, jobs k = some kjob → kjob.slot = slot → kjob.phase.inTrap = false) :
    Recorded (Function.update jobs j (some job')) (Function.update recorded slot (some []))
    (Function.update lastRun slot none) := by
  have hold : ∀ k kjob, Function.update jobs j (some job') k = some kjob → kjob.phase.inTrap = true →
      k = j ∧ kjob.slot = slot ∨ k ≠ j ∧ kjob.slot ≠ slot ∧ jobs k = some kjob := by
    intro k kjob hk hktrap
    rw [Function.update_apply] at hk
    split at hk
    · next heq =>
      cases hk
      exact .inl ⟨heq, hslot⟩
    · next hne =>
      refine .inr ⟨hne, fun hkslot => ?_, hk⟩
      rw [hfirst k kjob hk hkslot] at hktrap
      cases hktrap
  constructor
  · intro c elapsed hc
    rw [Function.update_apply] at hc ⊢
    split at hc
    · cases hc
    · next hne =>
      rw [if_neg hne]
      exact h.text c elapsed hc
  · intro k kjob hk hktrap
    rcases hold k kjob hk hktrap with ⟨-, hkslot⟩ | ⟨-, hkslot, hk⟩
    · rw [hkslot, Function.update_self]
    · rw [Function.update_of_ne hkslot]
      exact h.empty k kjob hk hktrap
  · intro k k' kjob kjob' hk hk' ht ht' hslots
    rcases hold k kjob hk ht with ⟨rfl, hkslot⟩ | ⟨-, hkslot, hk⟩
    · rcases hold k' kjob' hk' ht' with ⟨rfl, -⟩ | ⟨-, hkslot', -⟩
      · rfl
      · exact absurd (hslots.trans hkslot) hkslot'
    · rcases hold k' kjob' hk' ht' with ⟨-, hkslot'⟩ | ⟨-, -, hk'⟩
      · exact absurd (hslots.symm.trans hkslot') hkslot
      · exact h.single k k' kjob kjob' hk hk' ht ht' hslots

/-- The exit trap of a job writes to the file that it has truncated. -/
theorem Recorded.write (h : Recorded jobs recorded lastRun) (hjob : jobs j = some job)
    (hphase : job.phase.inTrap = true)
    (htrap : job'.phase.inTrap = false) (elapsed : ℕ) :
    Recorded (Function.update jobs j (some job'))
      (Function.update recorded job.slot (some (overwrite (elapsedText elapsed) ((recorded job.slot).getD []))))
      (Function.update lastRun job.slot (some elapsed)) := by
  have hput := h.put (j := j) htrap
  have hothers : ∀ k kjob, Function.update jobs j (some job') k = some kjob → kjob.phase.inTrap = true →
    kjob.slot ≠ job.slot := by
    intro k kjob hk hktrap hkslot
    rw [Function.update_apply] at hk
    split at hk
    · cases hk
      rw [htrap] at hktrap
      cases hktrap
    · next hne => exact hne (h.single j k job kjob hjob hk hphase hktrap hkslot).symm
  rw [h.empty j job hjob hphase, Option.getD_some, overwrite_nil]
  constructor
  · intro c elapsed' hc
    rw [Function.update_apply] at hc ⊢
    split at hc
    · next heq => rw [if_pos heq, Option.some.inj hc]
    · next hne =>
      rw [if_neg hne]
      exact h.text c elapsed' hc
  · intro k kjob hk hktrap
    rw [Function.update_of_ne (hothers k kjob hk hktrap)]
    exact hput.empty k kjob hk hktrap
  · exact hput.single

omit [DecidableEq J] in
theorem Recorded.forget (h : Recorded jobs recorded lastRun) (slot : C) :
    Recorded jobs recorded (Function.update lastRun slot none) := by
  refine ⟨fun c elapsed hc => ?_, h.empty, h.single⟩
  rw [Function.update_apply] at hc
  split at hc
  · cases hc
  · exact h.text c elapsed hc

/-- A job that found no stop file after a long run has a successor when `wh_slurm_bootstrap` is over, unless all
submissions failed. -/
def Queues (minRuntime : C → ℕ) (jobs : J → Option (Job C J)) : Prop :=
  ∀ j job outcome elapsed, jobs j = some job → job.phase = .working outcome → job.stopSeen = false →
    job.ownRuntime = some elapsed → minRuntime job.slot ≤ elapsed → HasSuccessor jobs j ∨ outcome = .failed

/-- A marker stands for a successor, or for a submission that is not over or was broken off. -/
structure Marked (minRuntime : C → ℕ) (jobs : J → Option (Job C J)) (markers : J → Bool) : Prop where
  marked : ∀ j, markers j = true → ∃ job, jobs j = some job ∧ (job.phase.settled = true → HasSuccessor jobs j)
  queues : Queues minRuntime jobs

section

omit [DecidableEq C]

theorem Marked.change (h : Marked minRuntime jobs markers) (hjob : jobs j = some job)
    (hpredecessor : job'.predecessor = job.predecessor)
    (hmarked : present = true → job'.phase.settled = true → HasSuccessor jobs j)
    (hqueues : ∀ outcome elapsed, job'.phase = .working outcome → job'.stopSeen = false →
      job'.ownRuntime = some elapsed →
      minRuntime job'.slot ≤ elapsed → HasSuccessor jobs j ∨ outcome = .failed) :
    Marked minRuntime (Function.update jobs j (some job')) (Function.update markers j present) := by
  constructor
  · intro k hk
    rw [Function.update_apply] at hk
    split at hk
    · next heq =>
      subst heq
      exact ⟨job', Function.update_self .., fun hsettled => (hmarked hk hsettled).update hjob hpredecessor⟩
    · next hne =>
      obtain ⟨kjob, hkjob, hsuccessor⟩ := h.marked k hk
      exact ⟨kjob, (Function.update_of_ne hne ..).trans hkjob,
        fun hsettled => (hsuccessor hsettled).update hjob hpredecessor⟩
  · intro k kjob outcome elapsed hk hphase hstop hown hmin
    rw [Function.update_apply] at hk
    split at hk
    · next heq =>
      cases hk
      subst heq
      exact (hqueues outcome elapsed hphase hstop hown hmin).imp_left fun hsuccessor =>
        hsuccessor.update hjob hpredecessor
    · exact (h.queues k kjob outcome elapsed hk hphase hstop hown hmin).imp_left fun hsuccessor =>
        hsuccessor.update hjob hpredecessor

/-- A job goes on, and its marker stays. -/
theorem Marked.put (h : Marked minRuntime jobs markers) (hjob : jobs j = some job)
    (hpredecessor : job'.predecessor = job.predecessor)
    (hmarked : markers j = true → job'.phase.settled = true → HasSuccessor jobs j)
    (hqueues : ∀ outcome elapsed, job'.phase = .working outcome → job'.stopSeen = false →
      job'.ownRuntime = some elapsed →
      minRuntime job'.slot ≤ elapsed → HasSuccessor jobs j ∨ outcome = .failed) :
    Marked minRuntime (Function.update jobs j (some job')) markers := by
  have hkept := h.change hjob hpredecessor hmarked hqueues
  rwa [Function.update_eq_self] at hkept

theorem Marked.add (h : Marked minRuntime jobs markers) (hfresh : jobs k = none) (hphase : job.phase = .pending) :
    Marked minRuntime (Function.update jobs k (some job)) markers := by
  constructor
  · intro p hp
    obtain ⟨pjob, hpjob, hsuccessor⟩ := h.marked p hp
    have hne : p ≠ k := by
      intro heq
      rw [heq, hfresh] at hpjob
      cases hpjob
    exact ⟨pjob, (Function.update_of_ne hne ..).trans hpjob, fun hsettled => (hsuccessor hsettled).add hfresh⟩
  · intro p pjob outcome elapsed hp hworking hstop hown hmin
    rw [Function.update_apply] at hp
    split at hp
    · cases hp
      rw [hphase] at hworking
      cases hworking
    · exact (h.queues p pjob outcome elapsed hp hworking hstop hown hmin).imp_left (HasSuccessor.add · hfresh)

omit [DecidableEq J] in
theorem Marked.hasSuccessor (h : Marked minRuntime jobs markers) (hjob : jobs j = some job)
    (hsettled : job.phase.settled = true)
    (hmarker : markers j = true) : HasSuccessor jobs j := by
  obtain ⟨job', hjob', hsuccessor⟩ := h.marked j hmarker
  rw [hjob] at hjob'
  cases hjob'
  exact hsuccessor hsettled

end

/-- What the guards of the script do not see to: the runtime file that a job reads says the same as the file of
its chain, one run of a chain at a time is in its exit trap, and a run that was broken off in its submissions is
not started again. -/
def Undisturbed (minRuntime : C → ℕ) (s : Cluster C J) : Action J → Prop
  | .go j => ∀ job, s.jobs j = some job → job.phase = .runtimeCheck →
      tooShort (minRuntime job.slot) s.runtimeFile = tooShort (minRuntime job.slot) (s.recorded job.slot)
  | .exit j _ => ∀ job, s.jobs j = some job → ∀ k job', s.jobs k = some job' →
    job'.slot = job.slot → job'.phase.inTrap = false
  | .requeue j => s.markers j = true → HasSuccessor s.jobs j
  | _ => True

theorem recorded_of_takes (h : Recorded s.jobs s.recorded s.lastRun) (hok : Undisturbed minRuntime s a)
    (htakes : Takes minRuntime s a s') :
    Recorded s'.jobs s'.recorded s'.lastRun := by
  cases htakes with
  | setStop present => exact h
  | start => exact h.put rfl
  | stopped => exact h.put rfl
  | unstopped => exact h.put rfl
  | short => exact h.put rfl
  | long => exact h.put rfl
  | marked => exact h.put rfl
  | mark => exact h.put rfl
  | withdrawn => exact h.put rfl
  | recorded hjob hphase => exact h.write hjob (by rw [hphase]; rfl) rfl _
  | queued => exact (h.put rfl).put rfl
  | retried => exact h.put rfl
  | gaveUp => exact h.put rfl
  | exited hjob _ _ => exact h.truncate rfl (hok _ hjob)
  | killed hjob _ => exact (h.put rfl).forget _
  | requeued => exact h.put rfl

theorem marked_of_takes (h : Marked minRuntime s.jobs s.markers) (hrecorded : Recorded s.jobs s.recorded s.lastRun)
    (hok : Undisturbed minRuntime s a) (htakes : Takes minRuntime s a s') :
    Marked minRuntime s'.jobs s'.markers := by
  cases htakes with
  | setStop present => exact h
  | start hjob hphase _ =>
    exact h.put hjob rfl (fun hmarker _ => h.hasSuccessor hjob (by rw [hphase]; rfl) hmarker)
      (fun _ _ hworking => by cases hworking)
  | stopped hjob hphase _ =>
    exact h.put hjob rfl (fun hmarker _ => h.hasSuccessor hjob (by rw [hphase]; rfl) hmarker)
      (fun _ _ _ hstop => by cases hstop)
  | unstopped hjob hphase _ =>
    exact h.put hjob rfl (fun hmarker _ => h.hasSuccessor hjob (by rw [hphase]; rfl) hmarker)
      (fun _ _ hworking => by cases hworking)
  | short hjob hphase hshort =>
    refine h.put hjob rfl (fun hmarker _ => h.hasSuccessor hjob (by rw [hphase]; rfl) hmarker)
      (fun _ elapsed _ _ hown hmin => ?_)
    -- The file of the chain holds the length of its last run.
    rw [hok _ hjob hphase, hrecorded.text _ elapsed hown, tooShort, decide_eq_true_eq,
      lastRuntime_elapsedText] at hshort
    exact absurd hmin (Nat.not_le.mpr hshort)
  | long hjob hphase _ =>
    exact h.put hjob rfl (fun hmarker _ => h.hasSuccessor hjob (by rw [hphase]; rfl) hmarker)
      (fun _ _ hworking => by cases hworking)
  | marked hjob hphase hmarker =>
    have hsuccessor := h.hasSuccessor hjob (by rw [hphase]; rfl) hmarker
    exact h.put hjob rfl (fun _ _ => hsuccessor) (fun _ _ _ _ _ _ => .inl hsuccessor)
  | mark hjob hphase _ =>
    exact h.change hjob rfl (fun _ hsettled => by cases hsettled) (fun _ _ hworking => by cases hworking)
  | withdrawn hjob hphase =>
    refine h.change hjob rfl (fun hpresent => by cases hpresent) (fun _ _ hworking _ _ _ => .inr ?_)
    cases hworking
    rfl
  | recorded hjob hphase =>
    exact h.put hjob rfl (fun _ hsettled => by cases hsettled) (fun _ _ hworking => by cases hworking)
  | @queued j k job failures hjob hphase hfresh =>
    have hne : j ≠ k := by
      intro heq
      rw [← heq, hjob] at hfresh
      cases hfresh
    have hadd := h.add hfresh (show ({ slot := job.slot, predecessor := some j } : Job C J).phase =
      .pending from rfl)
    have hsuccessor : HasSuccessor (Function.update s.jobs k (some { slot := job.slot, predecessor := some j }))
      j :=
      ⟨k, _, Function.update_self .., rfl⟩
    let queued : Job C J := { job with phase := .working .queued }
    have hput := hadd.put ((Function.update_of_ne hne ..).trans hjob)
      (show queued.predecessor = job.predecessor from rfl)
      (fun _ _ => hsuccessor) (fun _ _ _ _ _ _ => .inl hsuccessor)
    rwa [← Function.update_comm hne] at hput
  | retried hjob _ _ =>
    exact h.put hjob rfl (fun _ hsettled => by cases hsettled) (fun _ _ hworking => by cases hworking)
  | gaveUp hjob _ _ =>
    exact h.put hjob rfl (fun _ hsettled => by cases hsettled) (fun _ _ hworking => by cases hworking)
  | exited hjob _ _ =>
    exact h.put hjob rfl (fun _ hsettled => by cases hsettled) (fun _ _ hworking => by cases hworking)
  | killed hjob _ =>
    exact h.put hjob rfl (fun _ hsettled => by cases hsettled) (fun _ _ hworking => by cases hworking)
  | requeued hjob _ => exact h.put hjob rfl (fun hmarker _ => hok hmarker) (fun _ _ hworking => by cases hworking)

variable {c : C} {t : Cluster C J} {decision : Decision}

def restrict (c : C) (jobs : J → Option (Job C J)) (j : J) : Option (Job C J) :=
  (jobs j).filter fun job => job.slot = c

/-- As if the other chains did not exist. -/
def Cluster.only (s : Cluster C J) (c : C) : Cluster C J :=
  { s with jobs := restrict c s.jobs, decisions := s.decisions.filter fun decision => decision.1 = c }

def Action.actor : Action J → Option J
  | .setStop _ => none
  | .start j | .go j | .sbatch j _ | .exit j _ | .kill j | .requeue j => some j

/-- The action is one of the chain, or is about the stop file. -/
def own (c : C) (s : Cluster C J) (a : Action J) : Bool :=
  a.actor.all fun j => (s.jobs j).any fun job => job.slot = c

/-- The second state is what the chain makes of the first one. -/
structure Restricts (c : C) (s t : Cluster C J) : Prop where
  jobs : t.jobs = restrict c s.jobs
  markers : ∀ j, (∀ job, s.jobs j = some job → job.slot = c) → t.markers j = s.markers j
  stopFile : t.stopFile = s.stopFile
  runtimeFile : t.runtimeFile = s.recorded c
  recorded : t.recorded c = s.recorded c
  lastRun : t.lastRun c = s.lastRun c
  decisions : t.decisions = s.decisions.filter fun decision => decision.1 = c

namespace Restricts

omit [DecidableEq J] in
theorem jobs_eq_some (h : Restricts c s t) (hjob : s.jobs j = some job) (hslot : job.slot = c) :
    t.jobs j = some job := by
  rw [h.jobs, restrict, hjob, Option.filter_some, if_pos (decide_eq_true hslot)]

omit [DecidableEq J] in
theorem fresh (h : Restricts c s t) (hfresh : s.jobs k = none) : t.jobs k = none := by
  rw [h.jobs, restrict, hfresh, Option.filter_none]

omit [DecidableEq J] in
theorem marker (h : Restricts c s t) (hjob : s.jobs j = some job) (hslot : job.slot = c) :
    t.markers j = s.markers j :=
  h.markers j fun job' hjob' => by
    rw [hjob] at hjob'
    exact Option.some.inj hjob' ▸ hslot

omit [DecidableEq J] in
theorem predecessorEnded (h : Restricts c s t) (hlinked : Linked s.jobs s.markers) (hjob : s.jobs j = some job)
    (hslot : job.slot = c) : t.predecessorEnded job = s.predecessorEnded job := by
  unfold Cluster.predecessorEnded
  cases hp : job.predecessor with
  | none => rfl
  | some p =>
    obtain ⟨before, hbefore, hslots, -, -⟩ := hlinked.predecessor j job p hjob hp
    dsimp only
    rw [hbefore, h.jobs_eq_some hbefore (hslots.trans hslot)]

theorem put (h : Restricts c s t) (job' : Job C J) (hold : ∀ old, s.jobs j = some old → old.slot = c)
    (hslot : job'.slot = c) :
    Restricts c (s.put j job') (t.put j job') := by
  refine { h with jobs := funext fun k => ?_, markers := fun k hk => h.markers k fun old hkold => ?_ }
  · rw [jobs_put, h.jobs, restrict, restrict, jobs_put]
    split
    · rw [Option.filter_some, if_pos (decide_eq_true hslot)]
    · rfl
  · by_cases hkj : k = j
    · exact hold old (hkj ▸ hkold)
    · exact hk old ((jobs_put_of_ne hkj).trans hkold)

omit [DecidableEq J] in
theorem log (h : Restricts c s t) (hslot : job.slot = c) :
    Restricts c (s.log j job decision) (t.log j job decision) := by
  refine { h with decisions := ?_ }
  simp only [Cluster.log, h.decisions, List.filter_append, List.filter_cons_of_pos, List.filter_nil, hslot,
    decide_true]

theorem setMarker (h : Restricts c s t) (present : Bool) :
    Restricts c (s.setMarker j present) (t.setMarker j present) := by
  refine { h with markers := fun k hk => ?_ }
  simp only [Cluster.setMarker, Function.update_apply, h.markers k hk]

omit [DecidableEq J] in
theorem write (h : Restricts c s t) (text : Option Str → Str) (lastRun : Option ℕ) :
    Restricts c (s.write c text lastRun) (t.write c text lastRun) := by
  refine { h with runtimeFile := ?_, recorded := ?_, lastRun := ?_ }
  · simp only [Cluster.write, h.runtimeFile, Function.update_self]
  · simp only [Cluster.write, h.recorded, Function.update_self]
  · simp only [Cluster.write, Function.update_self]

omit [DecidableEq J] in
theorem forget (h : Restricts c s t) : Restricts c (s.forget c) (t.forget c) := by
  refine { h with lastRun := ?_ }
  simp only [Cluster.forget, Function.update_self]

omit [DecidableEq J] in
theorem setStop (h : Restricts c s t) (present : Bool) :
    Restricts c { s with stopFile := present } { t with stopFile := present } :=
  { h with stopFile := rfl }

theorem put_other (h : Restricts c s t) (job' : Job C J) (hold : ∀ old, s.jobs j = some old → old.slot ≠ c)
    (hslot : job'.slot ≠ c) :
    Restricts c (s.put j job') t := by
  refine { h with jobs := funext fun k => ?_, markers := fun k hk => h.markers k fun old hkold => ?_ }
  · rw [h.jobs, restrict, restrict, jobs_put]
    split
    · next heq =>
      rw [heq, Option.filter_some, if_neg (by simpa using hslot), Option.filter_eq_none_iff]
      intro old hj
      simpa using hold old hj
    · rfl
  · by_cases hkj : k = j
    · exact absurd (hk job' (hkj ▸ jobs_put_self)) hslot
    · exact hk old ((jobs_put_of_ne hkj).trans hkold)

omit [DecidableEq J] in
theorem log_other (h : Restricts c s t) (hslot : job.slot ≠ c) : Restricts c (s.log j job decision) t := by
  refine { h with decisions := ?_ }
  simp only [Cluster.log, h.decisions, List.filter_append, hslot, decide_false, Bool.false_eq_true,
    not_false_eq_true,
    List.filter_cons_of_neg, List.filter_nil, List.append_nil]

theorem setMarker_other (h : Restricts c s t) (hjob : s.jobs j = some job) (hslot : job.slot ≠ c) (present : Bool) :
    Restricts c (s.setMarker j present) t := by
  refine { h with markers := fun k hk => ?_ }
  have hne : k ≠ j := fun hkj => hslot (hk job (hkj ▸ hjob))
  simp only [h.markers k hk, Cluster.setMarker, Function.update_of_ne hne]

omit [DecidableEq J] in
theorem write_other (h : Restricts c s t) (hslot : slot ≠ c) (text : Option Str → Str) (lastRun : Option ℕ) :
    Restricts c (s.write slot text lastRun) t := by
  refine { h with runtimeFile := ?_, recorded := ?_, lastRun := ?_ }
  · simp only [Cluster.write, h.runtimeFile, Function.update_of_ne hslot.symm]
  · simp only [Cluster.write, h.recorded, Function.update_of_ne hslot.symm]
  · simp only [Cluster.write, h.lastRun, Function.update_of_ne hslot.symm]

omit [DecidableEq J] in
theorem forget_other (h : Restricts c s t) (hslot : slot ≠ c) : Restricts c (s.forget slot) t := by
  refine { h with lastRun := ?_ }
  simp only [Cluster.forget, h.lastRun, Function.update_of_ne hslot.symm]

end Restricts

omit [DecidableEq J] in
theorem slot_of_own (hown : own c s a = true) (hactor : a.actor = some j) (hjob : s.jobs j = some job) :
    job.slot = c := by
  rw [own, hactor, Option.all_some, hjob, Option.any_some] at hown
  exact of_decide_eq_true hown

omit [DecidableEq J] in
theorem slot_of_not_own (hown : own c s a = false) (hactor : a.actor = some j) (hjob : s.jobs j = some job) :
    job.slot ≠ c := by
  rw [own, hactor, Option.all_some, hjob, Option.any_some] at hown
  exact of_decide_eq_false hown

/-- The chain by itself follows its own steps. -/
theorem Restricts.own_step (h : Restricts c s t) (hlinked : Linked s.jobs s.markers)
    (hok : Undisturbed minRuntime s a)
    (hown : own c s a = true) (htakes : Takes minRuntime s a s') : ∃ t', t.step minRuntime a = some t' ∧
    Restricts c s' t' := by
  have hone {j : J} {job : Job C J} (hjob : s.jobs j = some job) : ∀ old, s.jobs j = some old →
    old.slot = job.slot := by
    intro old hold
    rw [hjob] at hold
    rw [Option.some.inj hold]
  cases htakes with
  | setStop present => exact ⟨_, rfl, h.setStop present⟩
  | start hjob hphase hpredecessor =>
    obtain rfl := slot_of_own hown rfl hjob
    refine ⟨_, ?_, h.put _ (hone hjob) rfl⟩
    simp only [step, h.jobs_eq_some hjob rfl, Option.bind_some, hphase, h.predecessorEnded hlinked hjob rfl,
      hpredecessor,
      and_self, if_true]
  | @stopped _ job hjob hphase hstop =>
    obtain rfl := slot_of_own hown rfl hjob
    refine ⟨_, ?_, (h.put { job with phase := .working .refused, stopSeen := true } (hone hjob) rfl).log rfl⟩
    simp only [step, h.jobs_eq_some hjob rfl, Option.bind_some, advance, hphase, h.stopFile, hstop, if_true]
  | unstopped hjob hphase hstop =>
    obtain rfl := slot_of_own hown rfl hjob
    refine ⟨_, ?_, h.put _ (hone hjob) rfl⟩
    simp only [step, h.jobs_eq_some hjob rfl, Option.bind_some, advance, hphase, h.stopFile, hstop,
      Bool.false_eq_true, if_false]
  | @short _ job hjob hphase hshort =>
    obtain rfl := slot_of_own hown rfl hjob
    rw [hok job hjob hphase, ← h.runtimeFile] at hshort
    refine ⟨_, ?_, (h.put { job with phase := .working .refused, ownRuntime := s.lastRun job.slot }
      (hone hjob) rfl).log rfl⟩
    simp only [step, h.jobs_eq_some hjob rfl, Option.bind_some, advance, hphase, hshort, if_true, h.lastRun]
  | @long _ job hjob hphase hlong =>
    obtain rfl := slot_of_own hown rfl hjob
    rw [hok job hjob hphase, ← h.runtimeFile] at hlong
    refine ⟨_, ?_, (h.put { job with phase := .makeMarker, ownRuntime := s.lastRun job.slot }
      (hone hjob) rfl).log rfl⟩
    simp only [step, h.jobs_eq_some hjob rfl, Option.bind_some, advance, hphase, hlong, Bool.false_eq_true,
      if_false, h.lastRun]
  | marked hjob hphase hmarker =>
    obtain rfl := slot_of_own hown rfl hjob
    refine ⟨_, ?_, h.put _ (hone hjob) rfl⟩
    simp only [step, h.jobs_eq_some hjob rfl, Option.bind_some, advance, hphase, h.marker hjob rfl,
      hmarker, if_true]
  | @mark _ job hjob hphase hmarker =>
    obtain rfl := slot_of_own hown rfl hjob
    refine ⟨_, ?_, (h.put { job with phase := .submitting 0 } (hone hjob) rfl).setMarker true⟩
    simp only [step, h.jobs_eq_some hjob rfl, Option.bind_some, advance, hphase, h.marker hjob rfl, hmarker,
      Bool.false_eq_true, if_false]
  | @withdrawn _ job hjob hphase =>
    obtain rfl := slot_of_own hown rfl hjob
    refine ⟨_, ?_, (h.put { job with phase := .working .failed } (hone hjob) rfl).setMarker false⟩
    simp only [step, h.jobs_eq_some hjob rfl, Option.bind_some, advance, hphase]
  | @recorded _ job elapsed hjob hphase =>
    obtain rfl := slot_of_own hown rfl hjob
    refine ⟨_, ?_, (h.put { job with phase := .ended } (hone hjob) rfl).write _ _⟩
    simp only [step, h.jobs_eq_some hjob rfl, Option.bind_some, advance, hphase]
  | @queued j k job failures hjob hphase hfresh =>
    obtain rfl := slot_of_own hown rfl hjob
    have hnew : ∀ old, (s.put j { job with phase := .working .queued }).jobs k = some old →
      old.slot = job.slot := by
      intro old hk
      rw [jobs_put] at hk
      split at hk
      · exact Option.some.inj hk ▸ rfl
      · rw [hfresh] at hk
        cases hk
    refine ⟨_, ?_, (h.put { job with phase := .working .queued } (hone hjob) rfl).put
      { slot := job.slot, predecessor := some j } hnew rfl⟩
    simp only [step, h.jobs_eq_some hjob rfl, Option.bind_some, submit, hphase, h.fresh hfresh,
      Option.isNone_none, if_true]
  | retried hjob hphase hfew =>
    obtain rfl := slot_of_own hown rfl hjob
    refine ⟨_, ?_, h.put _ (hone hjob) rfl⟩
    simp only [step, h.jobs_eq_some hjob rfl, Option.bind_some, submit, hphase, hfew, if_true]
  | gaveUp hjob hphase hmany =>
    obtain rfl := slot_of_own hown rfl hjob
    refine ⟨_, ?_, h.put _ (hone hjob) rfl⟩
    simp only [step, h.jobs_eq_some hjob rfl, Option.bind_some, submit, hphase, Nat.not_lt.mpr hmany, if_false]
  | @exited _ job elapsed hjob hrunning htrap =>
    obtain rfl := slot_of_own hown rfl hjob
    refine ⟨_, ?_, (h.put { job with phase := .exiting elapsed } (hone hjob) rfl).write _ _⟩
    simp only [step, h.jobs_eq_some hjob rfl, Option.bind_some, hrunning, htrap, Bool.not_false,
      Bool.and_self, if_true]
  | @killed _ job hjob hrunning =>
    obtain rfl := slot_of_own hown rfl hjob
    refine ⟨_, ?_, (h.put { job with phase := .ended } (hone hjob) rfl).forget⟩
    simp only [step, h.jobs_eq_some hjob rfl, Option.bind_some, hrunning, if_true]
  | requeued hjob hphase =>
    obtain rfl := slot_of_own hown rfl hjob
    refine ⟨_, ?_, h.put _ (hone hjob) rfl⟩
    simp only [step, h.jobs_eq_some hjob rfl, Option.bind_some, hphase, if_true]

/-- The chain by itself does not notice the steps of the others. -/
theorem Restricts.other_step (h : Restricts c s t) (hown : own c s a = false) (htakes : Takes minRuntime s a s') :
    Restricts c s' t := by
  have hone {j : J} {job : Job C J} (hjob : s.jobs j = some job) (hslot : job.slot ≠ c) :
    ∀ old, s.jobs j = some old → old.slot ≠ c := by
    intro old hold
    rw [hjob] at hold
    exact Option.some.inj hold ▸ hslot
  cases htakes with
  | setStop present => cases hown
  | start hjob _ _ =>
    have hslot := slot_of_not_own hown rfl hjob
    exact h.put_other _ (hone hjob hslot) hslot
  | @stopped _ job hjob _ _ =>
    have hslot := slot_of_not_own hown rfl hjob
    exact (h.put_other { job with phase := .working .refused, stopSeen := true } (hone hjob hslot) hslot).log_other
      hslot
  | unstopped hjob _ _ =>
    have hslot := slot_of_not_own hown rfl hjob
    exact h.put_other _ (hone hjob hslot) hslot
  | @short _ job hjob _ _ =>
    have hslot := slot_of_not_own hown rfl hjob
    exact (h.put_other { job with phase := .working .refused, ownRuntime := s.lastRun job.slot }
      (hone hjob hslot) hslot).log_other hslot
  | @long _ job hjob _ _ =>
    have hslot := slot_of_not_own hown rfl hjob
    exact (h.put_other { job with phase := .makeMarker, ownRuntime := s.lastRun job.slot }
      (hone hjob hslot) hslot).log_other hslot
  | marked hjob _ _ =>
    have hslot := slot_of_not_own hown rfl hjob
    exact h.put_other _ (hone hjob hslot) hslot
  | @mark _ job hjob _ _ =>
    have hslot := slot_of_not_own hown rfl hjob
    exact (h.put_other { job with phase := .submitting 0 } (hone hjob hslot) hslot).setMarker_other jobs_put_self
      hslot true
  | @withdrawn _ job hjob _ =>
    have hslot := slot_of_not_own hown rfl hjob
    exact (h.put_other { job with phase := .working .failed } (hone hjob hslot) hslot).setMarker_other jobs_put_self
      hslot false
  | @recorded _ job _ hjob _ =>
    have hslot := slot_of_not_own hown rfl hjob
    exact (h.put_other { job with phase := .ended } (hone hjob hslot) hslot).write_other hslot _ _
  | @queued j k job _ hjob _ hfresh =>
    have hslot := slot_of_not_own hown rfl hjob
    refine (h.put_other { job with phase := .working .queued } (hone hjob hslot) hslot).put_other _
      (fun old hk => ?_) hslot
    rw [jobs_put] at hk
    split at hk
    · exact Option.some.inj hk ▸ hslot
    · rw [hfresh] at hk
      cases hk
  | retried hjob _ _ =>
    have hslot := slot_of_not_own hown rfl hjob
    exact h.put_other _ (hone hjob hslot) hslot
  | gaveUp hjob _ _ =>
    have hslot := slot_of_not_own hown rfl hjob
    exact h.put_other _ (hone hjob hslot) hslot
  | @exited _ job elapsed hjob _ _ =>
    have hslot := slot_of_not_own hown rfl hjob
    exact (h.put_other { job with phase := .exiting elapsed } (hone hjob hslot) hslot).write_other hslot _ _
  | @killed _ job hjob _ =>
    have hslot := slot_of_not_own hown rfl hjob
    exact (h.put_other { job with phase := .ended } (hone hjob hslot) hslot).forget_other hslot
  | requeued hjob _ =>
    have hslot := slot_of_not_own hown rfl hjob
    exact h.put_other _ (hone hjob hslot) hslot

variable {init : Cluster C J} {as : List (Action J)}

structure Submitted (s : Cluster C J) : Prop where
  pending : ∀ j job, s.jobs j = some job → job.phase = .pending ∧ job.predecessor = none
  markers : ∀ j, s.markers j = false
  recorded : ∀ c, s.recorded c = s.runtimeFile
  lastRun : ∀ c, s.lastRun c = none
  decisions : s.decisions = []

/-- Every chain decides as it does in the same run without the others. -/
def DecidesAlone (minRuntime : C → ℕ) (init : Cluster C J) (as : List (Action J)) (s : Cluster C J) : Prop :=
  ∀ c, ∃ t, run (step minRuntime) (init.only c) (project (step minRuntime) (own c) init as) = some t ∧
    t.decisions = s.decisions.filter fun decision => decision.1 = c

omit [DecidableEq C] [DecidableEq J] in
theorem Submitted.linked (h : Submitted s) : Linked s.jobs s.markers where
  predecessor k job p hk hp := by
    rw [(h.pending k job hk).2] at hp
    cases hp
  marker k job hk hsub := by
    rw [(h.pending k job hk).1] at hsub
    cases hsub
  unique k k' job job' p hk _ hp _ := by
    rw [(h.pending k job hk).2] at hp
    cases hp

omit [DecidableEq C] [DecidableEq J] in
theorem Submitted.recorded_jobs (h : Submitted s) : Recorded s.jobs s.recorded s.lastRun where
  text c elapsed hc := by
    rw [h.lastRun c] at hc
    cases hc
  empty j job hj htrap := by
    rw [(h.pending j job hj).1] at htrap
    cases htrap
  single j k job job' hj _ htrap _ _ := by
    rw [(h.pending j job hj).1] at htrap
    cases htrap

omit [DecidableEq C] [DecidableEq J] in
theorem Submitted.marked (h : Submitted s) (minRuntime : C → ℕ) : Marked minRuntime s.jobs s.markers where
  marked j hj := by
    rw [h.markers j] at hj
    cases hj
  queues j job outcome elapsed hj hphase _ _ _ := by
    rw [(h.pending j job hj).1] at hphase
    cases hphase

omit [DecidableEq J] in
theorem Submitted.restricts (h : Submitted s) (c : C) : Restricts c s (s.only c) where
  jobs := rfl
  markers _ _ := rfl
  stopFile := rfl
  runtimeFile := (h.recorded c).symm
  recorded := rfl
  lastRun := rfl
  decisions := rfl

/-- Each job queues at most one successor in every run. -/
theorem linked_of_run (hinit : Submitted init) (hrun : run (step minRuntime) init as = some s) :
    Linked s.jobs s.markers :=
  run_invariant (fun s => Linked s.jobs s.markers) (fun _ _ _ h _ hstep => linked_of_takes h (takes_of_step hstep))
    hinit.linked (along_true _ _ _) hrun

theorem queues_of_run (hinit : Submitted init) (hrun : run (step minRuntime) init as = some s)
    (hok : Along (step minRuntime) (Undisturbed minRuntime) init as) : Queues minRuntime s.jobs := by
  have hkept := run_invariant (fun s => Recorded s.jobs s.recorded s.lastRun ∧ Marked minRuntime s.jobs s.markers)
    (fun s a s' ⟨hrecorded, hmarked⟩ hok hstep =>
      ⟨recorded_of_takes hrecorded hok (takes_of_step hstep),
        marked_of_takes hmarked hrecorded hok (takes_of_step hstep)⟩)
    ⟨hinit.recorded_jobs, hinit.marked minRuntime⟩ hok hrun
  exact hkept.2.queues

theorem decidesAlone_of_run (hinit : Submitted init) (hrun : run (step minRuntime) init as = some s)
    (hok : Along (step minRuntime) (Undisturbed minRuntime) init as) : DecidesAlone minRuntime init as s := by
  intro c
  obtain ⟨t, hfollows, -, hrestricts⟩ := run_project (own c) (fun s t => Linked s.jobs s.markers ∧ Restricts c s t)
    (fun s t a s' ⟨hlinked, h⟩ hok hown hstep => by
      obtain ⟨t', hstep', h'⟩ := h.own_step hlinked hok hown (takes_of_step hstep)
      exact ⟨t', hstep', linked_of_takes hlinked (takes_of_step hstep), h'⟩)
    (fun s t a s' ⟨hlinked, h⟩ _ hown hstep =>
      ⟨linked_of_takes hlinked (takes_of_step hstep), h.other_step hown (takes_of_step hstep)⟩)
    ⟨hinit.linked, hinit.restricts c⟩ hok hrun
  exact ⟨t, hfollows, hrestricts.decisions⟩

/-- Chains with one job name keep apart as long as the runs that the guards do not see to do not happen. -/
theorem chains_undisturbed (hinit : Submitted init) (hrun : run (step minRuntime) init as = some s)
    (hok : Along (step minRuntime) (Undisturbed minRuntime) init as) :
    OneSuccessor s.jobs ∧ DecidesAlone minRuntime init as s ∧ Queues minRuntime s.jobs :=
  ⟨(linked_of_run hinit hrun).unique, decidesAlone_of_run hinit hrun hok, queues_of_run hinit hrun hok⟩

def twoChains : Cluster ℕ ℕ where
  jobs j := if j < 2 then some { slot := j } else none
  stopFile := false
  runtimeFile := none
  markers _ := false
  recorded _ := none
  lastRun _ := none

theorem submitted_twoChains : Submitted twoChains where
  pending j job hj := by
    rw [twoChains] at hj
    dsimp only at hj
    split at hj
    · cases hj
      exact ⟨rfl, rfl⟩
    · cases hj
  markers _ := rfl
  recorded _ := rfl
  lastRun _ := rfl
  decisions := rfl

/-- Both chains queue their next jobs. -/
theorem twoChains_undisturbed : ∃ s, run (step fun _ => 120) twoChains
    [.start 0, .go 0, .start 1, .go 0, .go 1, .go 1] = some s ∧
    OneSuccessor s.jobs ∧ DecidesAlone (fun _ => 120) twoChains [.start 0, .go 0, .start 1, .go 0, .go 1, .go 1] s ∧
    Queues (fun _ => 120) s.jobs := by
  refine ⟨_, rfl, chains_undisturbed submitted_twoChains rfl ⟨trivial, fun s₁ h₁ => ?_⟩⟩
  obtain rfl := Option.some.inj h₁
  refine ⟨fun _ _ _ => rfl, fun s₂ h₂ => ?_⟩
  obtain rfl := Option.some.inj h₂
  refine ⟨trivial, fun s₃ h₃ => ?_⟩
  obtain rfl := Option.some.inj h₃
  refine ⟨fun _ _ _ => rfl, fun s₄ h₄ => ?_⟩
  obtain rfl := Option.some.inj h₄
  refine ⟨fun _ _ _ => rfl, fun s₅ h₅ => ?_⟩
  obtain rfl := Option.some.inj h₅
  exact ⟨fun _ _ _ => rfl, fun _ _ => trivial⟩

/-- The chain in slot 0 ran for 1000 seconds; then a job of the other chain fails at once. -/
def crash : List (Action ℕ) :=
  [.start 0, .go 0, .go 0, .go 0, .sbatch 0 (some 2), .exit 0 1000, .go 0, .start 1, .exit 1 5, .go 1, .start 2,
    .go 2, .go 2]

theorem not_undisturbed : ¬ ∀ (minRuntime : ℕ → ℕ) (init : Cluster ℕ ℕ) (as : List (Action ℕ)) (s : Cluster ℕ ℕ),
    Submitted init →
    run (step minRuntime) init as = some s → OneSuccessor s.jobs ∧ DecidesAlone minRuntime init as s ∧
    Queues minRuntime s.jobs := by
  intro h
  have hsome : (run (step fun _ => 120) twoChains crash).isSome = true := by decide
  have hdecisions : ((run (step fun _ => 120) twoChains crash).map fun s => s.decisions.filter fun decision =>
    decision.1 = 0) =
      some [(0, 0, .queue), (0, 2, .tooShort)] := by decide
  have halone : (run (step fun _ => 120) (twoChains.only 0)
    (project (step fun _ => 120) (own 0) twoChains crash)).map (·.decisions) =
      some [(0, 0, .queue), (0, 2, .queue)] := by decide
  obtain ⟨s, hrun⟩ := Option.isSome_iff_exists.mp hsome
  obtain ⟨t, hfollows, hsame⟩ := (h (fun _ => 120) twoChains crash s submitted_twoChains hrun).2.1 0
  rw [hrun, Option.map_some, Option.some_inj, ← hsame] at hdecisions
  rw [hfollows, Option.map_some, Option.some_inj, hdecisions] at halone
  exact absurd halone (by decide)

end WorkerHarness.SlurmChains
