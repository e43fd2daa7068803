import WorkerHarness.Base64
import WorkerHarness.BashStrings
import WorkerHarness.DispatchOrder
import WorkerHarness.FleetEffects
import WorkerHarness.ManagerCalls
import WorkerHarness.WorkerRecords
import Mathlib.Data.Fintype.EquivFin
import Mathlib.Data.Set.Function

/-!
# The GPUs of a registration and the GPUs of a job

A registration lists GPUs, each with its index. The worker record keeps the list without the
indices, and the dispatcher assigns positions of that list, which the job script then exports as
device numbers.
-/

namespace WorkerHarness.GpuAssignments

open Coroutines SharedTransactions Database DispatchOrder GreedyQueues BashStrings WorkerRecords

/-- `worker.harness_dir.rstrip("/") or "/harness"`. -/
def workerHarnessDir (worker : Worker) : String :=
  let dir := rstripSlash worker.harnessDir
  if dir = "" then "/harness" else dir

def tmuxEnv (worker : Worker) : String :=
  "env -u TMUX -u TMUX_PANE " ++
    "TMUX_TMPDIR='" ++ workerHarnessDir worker ++ "/job-tmux' " ++
    "LD_LIBRARY_PATH=/.singularity.d/libs$\x7bLD_LIBRARY_PATH:+:$\x7bLD_LIBRARY_PATH\x7d\x7d " ++
    "PATH=/usr/local/cuda/bin:/usr/local/nvidia/bin:$\x7bPATH\x7d " ++ "tmux"

def gpuExport : Option (List ℕ) → String
  | none => ""
  | some gpuIndices => "export CUDA_VISIBLE_DEVICES=" ++ ",".intercalate (gpuIndices.map toString) ++ "\n"

def scriptContent (worker : Worker) (jobId command : String) (gpuIndices : Option (List ℕ)) : String :=
  "#!/bin/bash\n" ++ "exec >>" ++ workerHarnessDir worker ++ "/" ++ jobId ++ "/output.log 2>&1" ++ "\n" ++
    gpuExport gpuIndices ++
    ("(" ++ command ++ "); ec=$?\n" ++ "echo EXIT:$ec\n" ++ "sleep 60\n" ++ "tmux kill-session -t wh_" ++ jobId ++
      " 2>/dev/null\n")

def buildJobCommand (worker : Worker) (jobId command : String) (gpuIndices : Option (List ℕ)) : String :=
  let harnessDir := workerHarnessDir worker ++ "/" ++ jobId
  let scriptB64 := decodeAscii (Base64.encode (utf8 (scriptContent worker jobId command gpuIndices)))
  "mkdir -p " ++ harnessDir ++ " && echo '" ++ scriptB64 ++
    ("' | base64 -d > " ++ harnessDir ++ "/script.sh && chmod +x " ++ harnessDir ++ "/script.sh && " ++
      tmuxEnv worker ++
      " new-session -d -s wh_" ++ jobId ++ " 'bash " ++ harnessDir ++ "/script.sh' && echo 'started'")

/-- The command of `_launch_job`; only queue-managed jobs export their GPUs. -/
def launchCommand (worker : Worker) (job : Job) : String :=
  buildJobCommand worker job.id job.command (if job.queueManaged then some job.gpuIndices else none)

theorem scriptContent_exports (worker : Worker) (jobId command : String) (gpuIndices : List ℕ) :
    ∃ before after, scriptContent worker jobId command (some gpuIndices) =
      before ++ "\n" ++ ("export CUDA_VISIBLE_DEVICES=" ++ ",".intercalate (gpuIndices.map toString) ++ "\n") ++
      after :=
  ⟨_, _, rfl⟩

/-- The script of a queue-managed job exports its GPUs on a line of its own. -/
theorem launchCommand_exports (worker : Worker) {job : Job} (hmanaged : job.queueManaged = true) :
    ∃ head script tail before after, launchCommand worker job = head ++ script ++ tail ∧
      Base64.decode (utf8 script) = some (utf8 (before ++ "\n" ++ ("export CUDA_VISIBLE_DEVICES=" ++
        ",".intercalate (job.gpuIndices.map toString) ++ "\n") ++ after)) := by
  have hcommand : launchCommand worker job = buildJobCommand worker job.id job.command (some job.gpuIndices) := by
    rw [launchCommand, if_pos hmanaged]
  obtain ⟨before, after, hscript⟩ := scriptContent_exports worker job.id job.command job.gpuIndices
  refine ⟨_, decodeAscii (Base64.encode (utf8 (scriptContent worker job.id job.command (some job.gpuIndices)))), _,
    before, after, hcommand.trans rfl, ?_⟩
  rw [utf8_decodeAscii fun _ hb => Base64.ascii_of_mem_encode hb, Base64.decode_encode, hscript]

def ShowsFree (gpu : GPUInfo) : Prop :=
  gpu.busy = some false ∨ gpu.busy = none ∧ JobManager.MostlyFree gpu.vramTotalGb gpu.vramUsedGb

variable {reg : WorkerRegistration} {worker : Worker}

def Denotes (reg : WorkerRegistration) (numbers : Set ℕ) : Prop :=
  ∃ gpu : ℕ → GPUInfo, Set.InjOn gpu numbers ∧
    ∀ n ∈ numbers, gpu n ∈ reg.gpus ∧ (gpu n).index = n ∧ ShowsFree (gpu n)

theorem denotes_iff {numbers : Set ℕ} :
    Denotes reg numbers ↔ ∀ n ∈ numbers, ∃ gpu ∈ reg.gpus, gpu.index = n ∧ ShowsFree gpu := by
  constructor
  · rintro ⟨gpu, -, hgpu⟩ n hn
    exact ⟨gpu n, hgpu n hn⟩
  · intro h
    have : Nonempty GPUInfo := ⟨0, 0, 0, none⟩
    choose! gpu hmem hindex hfree using h
    refine ⟨gpu, fun n hn m hm heq => ?_, fun n hn => ⟨hmem n hn, hindex n hn, hfree n hn⟩⟩
    have hsame := (hindex n hn).symm.trans ((congrArg GPUInfo.index heq).trans (hindex m hm))
    exact Int.natCast_inj.mp hsame

def Coincides (reg : WorkerRegistration) : Prop :=
  ∀ i < reg.gpuCount, ∀ gpu, reg.gpus[i]? = some gpu → ShowsFree gpu → ∃ gpu' ∈ reg.gpus, gpu'.index = i ∧
    ShowsFree gpu'

theorem reportsFree_iff (h : Reported reg worker) {i : ℕ} :
    ReportsFree worker i ↔ ∃ gpu, reg.gpus[i]? = some gpu ∧ ShowsFree gpu := by
  simp only [ReportsFree, h.gpuBusy, h.gpuVramGb, h.gpuUsedVramGb, List.getElem?_map]
  cases reg.gpus[i]? with
  | none => simp
  | some gpu =>
    cases hb : gpu.busy <;> simp [ShowsFree, hb]

def Assigns (reg : WorkerRegistration) : (β : Type) → JobCall β → β → Prop
  | _, .claimQueuedJob _ gpuIndices _ _, r => (∃ job, r = .ok (some job)) → Denotes reg { n | n ∈ gpuIndices }
  | _, _, _ => True

/-- Whatever waits and whatever comes from outside, a dispatch with the latest record of the worker
assigns only indices of free GPUs of the registration. -/
def AssignsIndices (reg : WorkerRegistration) : Prop :=
  ∀ (s : World) (worker : Worker) (fuel manager t : ℕ), Registered reg s.db →
    findWorker s.db reg.workerId = some worker →
    (JobManager.dispatchWorker fuel manager worker).Always jobInterp t (Assigns reg) (fun _ _ => True) s

def oneWaiting (reg : WorkerRegistration) (gpuCount : ℕ) : Tables where
  workers := [.fromRegistration reg 0]
  jobs := [{ id := "job", workerId := some reg.workerId, status := .pending, queueManaged := true,
             gpuCount := gpuCount }]

theorem registered_oneWaiting (reg : WorkerRegistration) (gpuCount : ℕ) :
    Registered reg (oneWaiting reg gpuCount) := by
  refine .other (.upsertWorker {} 0) ?_
  rw [workers_upsertWorker]
  rfl

theorem findWorker_oneWaiting (reg : WorkerRegistration) (gpuCount : ℕ) :
    findWorker (oneWaiting reg gpuCount) reg.workerId = some (.fromRegistration reg 0) := by
  simp [findWorker, oneWaiting, Worker.fromRegistration]

theorem pendingQueue_oneWaiting (reg : WorkerRegistration) (gpuCount : ℕ) :
    pendingQueue (oneWaiting reg gpuCount) reg.workerId = (oneWaiting reg gpuCount).jobs := by
  simp [pendingQueue, queueOf, oneWaiting, Job.pendingOn, SortedLists.sortOn]

theorem nodup_oneWaiting (reg : WorkerRegistration) (gpuCount : ℕ) :
    ((oneWaiting reg gpuCount).jobs.map (·.id)).Nodup :=
  List.nodup_singleton _

theorem length_oneWaiting (reg : WorkerRegistration) (gpuCount : ℕ) :
    (pendingQueue (oneWaiting reg gpuCount) (Worker.fromRegistration reg 0).id).length < 2 := by
  rw [show (Worker.fromRegistration reg 0).id = reg.workerId from rfl, pendingQueue_oneWaiting]
  exact Nat.lt_succ_self 1

theorem heldBy_oneWaiting (reg : WorkerRegistration) (gpuCount : ℕ) :
    heldBy (oneWaiting reg gpuCount) reg.workerId = ∅ := by
  simp [heldBy, claimedIndices, oneWaiting, Job.activeOn, Job.active]

/-- The job gets the first of the free GPUs. -/
theorem runs_oneWaiting (reg : WorkerRegistration) (outcome : String → Outcome) (gpuCount : ℕ)
    (hfit : gpuCount ≤ (JobManager.freeGpuIndices (.fromRegistration reg 0)).length) :
    ∃ job s', (JobManager.dispatchWorker 2 0 (.fromRegistration reg 0)).Runs (scripted outcome) 0 (fun _ => True)
        { db := oneWaiting reg gpuCount } (.ok [job]) s' ∧
      job.gpuIndices = (JobManager.freeGpuIndices (.fromRegistration reg 0)).take gpuCount := by
  have halways := always_dispatchWorker outcome 0 0 2 (.fromRegistration reg 0)
    (s := { db := oneWaiting reg gpuCount }) rfl (nodup_oneWaiting reg gpuCount) (length_oneWaiting reg gpuCount)
  obtain ⟨r, s', hrun, launched, rfl, hlaunched, -⟩ := halways.exists_run
  rw [show (Worker.fromRegistration reg 0).id = reg.workerId from rfl, pendingQueue_oneWaiting,
    heldBy_oneWaiting] at hlaunched
  have hunheld : unheld (JobManager.freeGpuIndices (.fromRegistration reg 0)) ∅ =
      JobManager.freeGpuIndices (.fromRegistration reg 0) := by simp [unheld]
  simp only [oneWaiting, dispatch, hunheld, gt_iff_lt, Nat.not_lt_of_le hfit, if_false, List.map_cons,
    List.map_nil] at hlaunched
  obtain ⟨job, rfl, hjob⟩ := List.map_eq_singleton_iff.mp hlaunched
  exact ⟨job, s', hrun, (Prod.mk.injEq .. ▸ hjob).2⟩

/-- Every call of a job manager can be answered. -/
theorem jobInterp_answers {β : Type} (e : JobCall β) (t : ℕ) (s : World) :
    ∃ a r, jobInterp.handle e t a s = some r := by
  cases e with
  | newId =>
    obtain ⟨id, hid⟩ := Infinite.exists_notMem_finset s.issued.toFinset
    exact ⟨{ id := id }, _, if_neg (by simpa using hid)⟩
  | insertJob _ =>
    refine ⟨{}, ?_⟩
    simp only [jobInterp]
    split <;> exact ⟨_, rfl⟩
  | claimQueuedJob _ _ _ _ =>
    refine ⟨{}, ?_⟩
    simp only [jobInterp]
    split <;> exact ⟨_, rfl⟩
  | updatePendingJob _ _ _ _ _ _ =>
    refine ⟨{}, ?_⟩
    simp only [jobInterp]
    split <;> exact ⟨_, rfl⟩
  | _ => exact ⟨{}, _, rfl⟩

theorem assignsIndices_of_coincides (h : Coincides reg) : AssignsIndices reg := by
  intro s worker fuel manager t hregistered hworker
  have hmem : worker ∈ s.db.workers := List.mem_of_find?_eq_some hworker
  have hid : worker.id = reg.workerId := by simpa using List.find?_some hworker
  have hreported := hregistered.reported worker hmem hid
  have hwithin : ManagerCalls.Within (fun _ _ _ => True) (fun _ _ => True)
      (fun gpuIndices _ => Denotes reg { n | n ∈ gpuIndices }) (fun _ => True) (fun _ => True)
      (JobManager.dispatchWorker fuel manager worker) := by
    refine ManagerCalls.within_dispatchWorker ⟨fun _ _ _ => trivial, fun honline indices hsub => ?_,
      fun _ => trivial⟩ fuel manager
    refine denotes_iff.mpr fun n hn => ?_
    obtain ⟨hlt, hshows⟩ := (mem_freeGpuIndices honline).mp (hsub.subset hn)
    obtain ⟨gpu, hgpu, hfree⟩ := (reportsFree_iff hreported).mp hshows
    exact h n (hreported.gpuCount ▸ hlt) gpu hgpu hfree
  refine hwithin.always (fun β e s _ => jobInterp_answers e t s) (fun β e w s s' b he hh => ⟨trivial, ?_⟩) s
  cases e <;> first | trivial | exact fun _ => he

/-- After a query of the database the rest goes on with its result. -/
theorem of_always_database {α β : Type} {t : ℕ} {P : (β : Type) → JobCall β → β → Prop}
    {Q : Except JobError α → World → Prop} {method : DbM β} {b : β} {f : β → ManagerM α} {s : World}
    (h : ((JobManager.database method).bind f).Always jobInterp t P Q s)
    (hmethod : atomically method s.db = (.ok b, s.db)) :
    (f b).Always jobInterp t P Q s := by
  simp only [JobManager.database, Prog.bind_eq, Prog.call_bind] at h
  exact (h.2 {} s (.ok b) (by simp [jobInterp, hmethod])).2

theorem coincides_of_assignsIndices (h : AssignsIndices reg) : Coincides reg := by
  intro i hi gpu hgpu hfree
  -- One waiting job that asks for all free GPUs gets them all.
  have hreported := reported_fromRegistration reg 0
  have hmem : i ∈ JobManager.freeGpuIndices (.fromRegistration reg 0) :=
    (mem_freeGpuIndices rfl).mpr ⟨hi, (reportsFree_iff hreported).mpr ⟨gpu, hgpu, hfree⟩⟩
  set free := JobManager.freeGpuIndices (.fromRegistration reg 0) with hfreeIndices
  have halways := h { db := oneWaiting reg free.length } _ 1 0 0 (registered_oneWaiting reg _)
    (findWorker_oneWaiting reg _)
  have hclaim : atomically (claimQueuedJob "job" free 0 reg.workerId) (oneWaiting reg free.length) =
    (.ok (some _), _) :=
    claim_head (nodup_oneWaiting reg _) (pendingQueue_oneWaiting reg _) rfl (by simp [heldBy_oneWaiting]) 0
  rw [JobManager.dispatchWorker, if_neg (by simp [Worker.fromRegistration]), Prog.always_withLock] at halways
  have hqueued := of_always_database (of_always_database halways rfl) rfl
  have hunheld : unheld free ∅ = free := by simp [unheld]
  rw [unheld_heldBy] at hqueued
  simp only [show (Worker.fromRegistration reg 0).id = reg.workerId from rfl, find_pending (nodup_oneWaiting reg _),
    pendingQueue_oneWaiting, heldBy_oneWaiting, ← hfreeIndices, hunheld] at hqueued
  simp only [oneWaiting, List.head?_cons, gt_iff_lt, lt_self_iff_false, if_false, List.take_length, Prog.bind_eq,
    Prog.call_bind] at hqueued
  have hassigns := ((hqueued.2 {} _ _ rfl).2.2 {} _ _ (jobInterp_claim hclaim {})).1
  exact denotes_iff.mp (hassigns ⟨_, rfl⟩) i hmem

theorem assignsIndices_iff (reg : WorkerRegistration) : AssignsIndices reg ↔ Coincides reg :=
  ⟨coincides_of_assignsIndices, assignsIndices_of_coincides⟩

/-- A dispatch of a worker assigns only indices of its free GPUs, whatever waits, exactly when the free
positions of its registration are such indices; the script of a job exports the numbers as assigned. -/
theorem gpu_numbers_denote_iff (reg : WorkerRegistration) : (AssignsIndices reg ↔ Coincides reg) ∧
    ∀ worker job, job.queueManaged = true → ∃ head script tail before after,
      launchCommand worker job = head ++ script ++ tail ∧
      Base64.decode (utf8 script) = some (utf8 (before ++ "\n" ++ ("export CUDA_VISIBLE_DEVICES=" ++
        ",".intercalate (job.gpuIndices.map toString) ++ "\n") ++ after)) :=
  ⟨assignsIndices_iff reg, fun worker _ hmanaged => launchCommand_exports worker hmanaged⟩

/-- The free GPU has index 1 and comes first; the job gets number 0, the busy one. -/
theorem gpu_numbers_swapped :
    let reg : WorkerRegistration :=
      { workerId := "w", name := "w", gpuCount := 2, gpus := [⟨1, 16, 1, some false⟩, ⟨0, 16, 12, some true⟩] }
    (reg.gpus.map (·.index)).Nodup ∧ ¬AssignsIndices reg ∧
      ∃ job s', (JobManager.dispatchWorker 2 0 (.fromRegistration reg 0)).Runs (scripted fun _ => .running) 0
        (fun _ => True)
        { db := oneWaiting reg 1 } (.ok [job]) s' ∧ job.gpuIndices = [0] := by
  intro reg
  refine ⟨by decide, fun h => ?_, ?_⟩
  · obtain ⟨gpu, hgpu, hindex, hfree⟩ := (assignsIndices_iff reg).mp h 0 (by decide)
      ⟨1, 16, 1, some false⟩ rfl (.inl rfl)
    simp only [reg, List.mem_cons, List.not_mem_nil, or_false] at hgpu
    rcases hgpu with rfl | rfl
    · cases hindex
    · simp [ShowsFree] at hfree
  · obtain ⟨job, s', hrun, hindices⟩ := runs_oneWaiting reg (fun _ => .running) 1 (by decide)
    exact ⟨job, s', hrun, hindices.trans (by decide)⟩

end WorkerHarness.GpuAssignments
