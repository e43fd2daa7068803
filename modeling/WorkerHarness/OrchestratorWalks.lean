import WorkerHarness.CoroutineEffects
import WorkerHarness.UpheldFacts
import WorkerHarness.WorktreeRemovals

/-!
# The orchestrator, walked through

Every coroutine of the orchestrator upholds a fact if its single calls do, apart from those that draw a pane
sequence and report with it, which come in pairs or break off in between, and from the creation of worktrees.
-/

namespace WorkerHarness.OrchestratorWalks

open Coroutines Database LiveSessions LiveManagers ManagerRows Orchestrator WorktreeRemovals

def sequence? : RemoteCommand → Option Int
  | .reportAgent _ _ _ _ sequence _ _ => some sequence
  | .releaseAgent _ _ _ sequence => some sequence
  | _ => none

/-- The call creates no worktree, draws no pane sequence and reports with none, and patches no row. -/
def Routine : (β : Type) → FleetCall β → Prop
  | _, .remote _ _ (.worktreeAdd _ _ _ _) => False
  | _, .remote _ _ (.reportAgent _ _ _ _ _ _ _) => False
  | _, .remote _ _ (.releaseAgent _ _ _ _) => False
  | _, .nextPaneSequence _ => False
  | _, .write op => ∀ id members, op ≠ .patch id members
  | _, _ => True

def command? : {β : Type} → FleetCall β → Option (String × String × RemoteCommand)
  | _, .remote id machine command => some (id, machine, command)
  | _, _ => none

variable {σ α β : Type}

/-- A call only adds to the history: its own command, or marks of what the thread is at. -/
theorem log_of_handle {e : FleetCall β} {t : ℕ} {w : FleetAnswer} {s s' : FleetWorld} {b : β}
    (h : fleetHandle e t w s = some (s', b)) : ∃ es, s'.log = s.log ++ es ∧ ∀ x ∈ es, thread x = t ∧
      ∀ t' id machine command ack, x = .remote t' id machine command ack →
      command? e = some (id, machine, command) := by
  have hnone : s'.log = s.log → ∃ es, s'.log = s.log ++ es ∧ ∀ x ∈ es, thread x = t ∧
      ∀ t' id machine command ack, x = .remote t' id machine command ack →
        command? e = some (id, machine, command) :=
    fun hlog => ⟨[], by rw [hlog, List.append_nil], fun x hx => absurd hx List.not_mem_nil⟩
  have hone : ∀ x : FleetEntry, thread x = t → (∀ t' id machine command ack, x = .remote t' id machine command ack →
      command? e = some (id, machine, command)) → s'.log = s.log ++ [x] → ∃ es, s'.log = s.log ++ es ∧ ∀ x ∈ es,
        thread x = t ∧ ∀ t' id machine command ack, x = .remote t' id machine command ack →
          command? e = some (id, machine, command) :=
    fun x ht hx hlog => ⟨[x], hlog, fun y hy => List.mem_singleton.mp hy ▸ ⟨ht, hx⟩⟩
  cases e with
  | remote id machine command =>
    have hcommand : ∀ ack t' id' machine' command' ack', FleetEntry.remote t id machine command ack =
        .remote t' id' machine' command' ack' →
          command? (FleetCall.remote id machine command) = some (id', machine', command') := by
      intro ack t' id' machine' command' ack' heq
      cases heq
      rfl
    cases w with
    | done =>
      cases h
      exact hone _ rfl (hcommand true) rfl
    | fails e n =>
      cases h
      exact hone _ rfl (hcommand false) rfl
    | _ => cases h
  | nextPaneSequence sessionId =>
    cases w with
    | done =>
      simp only [fleetHandle, Option.some.injEq, Prod.mk.injEq] at h
      exact hnone (by rw [← h.1, FleetWorld.run_log])
    | fails e n =>
      cases h
      exact hnone rfl
    | _ => cases h
  | teardown session force =>
    cases w with
    | done =>
      cases h
      exact hone _ rfl (fun _ _ _ _ _ heq => FleetEntry.noConfusion heq) rfl
    | _ => cases h
  | ensured project result =>
    cases w with
    | done =>
      cases result with
      | ok manager =>
        cases h
        exact hone _ rfl (fun _ _ _ _ _ heq => FleetEntry.noConfusion heq) rfl
      | error e =>
        cases h
        refine ⟨_, rfl, fun x hx => ?_⟩
        obtain ⟨i, -, rfl⟩ := List.mem_map.mp hx
        exact ⟨rfl, fun _ _ _ _ _ heq => FleetEntry.noConfusion heq⟩
    | _ => cases result <;> cases h
  | readText path =>
    cases w with
    | text content =>
      cases h
      exact hnone rfl
    | fails e n =>
      simp only [fleetHandle] at h
      split at h
      · cases h
        exact hnone rfl
      · cases h
    | _ => cases h
  | openPr machine project branch worktree summary sessionId =>
    cases w with
    | text url =>
      simp only [fleetHandle] at h
      split at h
      · cases h
        exact hnone rfl
      · cases h
    | fails e n =>
      cases h
      exact hnone rfl
    | _ => cases h
  | uuid =>
    cases w with
    | text drawn =>
      simp only [fleetHandle] at h
      split at h
      · cases h
        exact hnone rfl
      · cases h
    | _ => cases h
  | _ => cases w <;> cases h <;> exact hnone rfl

/-- What the walk needs of the fact. -/
structure Walk (I : Interp FleetCall σ FleetAnswer) (A : Contract FleetCall FleetLock σ) (t : ℕ) (J : σ → Prop) :
    Prop where
  steady : Steady A t J
  routine : ∀ {α : Type} (e : FleetCall α), Routine α e → Upholds I A t J (Prog.call e : FleetM α)
  sequenced : ∀ {α : Type} (session : PiSession) (machine : Machine) (command : Int → RemoteCommand)
    (k : Except FleetError Unit → FleetM α), (∀ n, sequence? (command n) = some n) →
    (∀ r, Upholds I A t J (k r)) →
    Upholds I A t J ((nextSequence session).bind fun n =>
      (Prog.call (.remote session.id machine.name (command n)) : FleetM (Except FleetError Unit)).bind k)
  unreported : ∀ {α : Type} (session : PiSession) (p : FleetM α), Upholds I A t J p →
    Upholds I A t J ((nextSequence session).bind fun _ => p)

variable {I : Interp FleetCall σ FleetAnswer} {A : Contract FleetCall FleetLock σ} {t : ℕ} {J : σ → Prop}
variable (hw : Walk I A t J)
include hw

theorem upholds_call {e : FleetCall α} (he : Routine α e) : Upholds I A t J (Prog.call e : FleetM α) :=
  hw.routine e he

theorem upholds_await {e : FleetCall (Except FleetError α)} (he : Routine _ e) :
    Upholds I A t J (Prog.await e : FleetM α) :=
  hw.steady.bind (hw.routine e he) hw.steady.ofExcept

theorem upholds_bind {p : FleetM α} {f : α → FleetM β} (hp : Upholds I A t J p) (hf : ∀ a, Upholds I A t J (f a)) :
    Upholds I A t J (p.bind f) := hw.steady.bind hp hf

theorem upholds_ret (a : α) : Upholds I A t J (.ret a : FleetM α) := hw.steady.ret a

theorem upholds_raise (e : FleetError) : Upholds I A t J (.raise e : FleetM α) := hw.steady.raise e

theorem upholds_catching {p : FleetM α} {handler : FleetError → FleetM α} (hp : Upholds I A t J p)
    (hh : ∀ e, Upholds I A t J (handler e)) : Upholds I A t J (p.catching handler) := hw.steady.catching hp hh

theorem upholds_exceptRemote {p : FleetM α} {handler : FleetError → FleetM α} (hp : Upholds I A t J p)
    (hh : ∀ e, Upholds I A t J (handler e)) : Upholds I A t J (exceptRemote p handler) := by
  refine upholds_catching hw hp fun e => ?_
  split
  · exact hh e
  · exact upholds_raise hw e

theorem upholds_locked {l : FleetLock} {p : FleetM α} (hp : Upholds I A t J p) : Upholds I A t J (locked l p) :=
  upholds_bind hw (upholds_await hw trivial) fun _ => hw.steady.withLock l hp

theorem upholds_remote (id : String) (machine : Machine) {command : RemoteCommand}
    (h : Routine _ (.remote id machine.name command)) : Upholds I A t J (remote id machine command) :=
  upholds_await hw h

theorem upholds_write {op : SessionOp} (hop : ∀ id members, op ≠ .patch id members) : Upholds I A t J (write op) :=
  upholds_await hw fun id members heq => absurd heq (hop id members)

theorem upholds_recordEvent (id eventType : String) (payload : JsonObject) :
    Upholds I A t J (recordEvent id eventType payload) :=
  upholds_bind hw (upholds_call hw trivial) fun _ => upholds_bind hw (upholds_call hw trivial) fun _ =>
    upholds_write hw fun _ _ heq => SessionOp.noConfusion heq

section Session

variable {cfg : FleetConfig} (session : PiSession)

theorem upholds_remoteCleanupError (operation : String) (e : FleetError) :
    Upholds I A t J (remoteCleanupError session operation e) := upholds_recordEvent hw _ _ _

theorem upholds_finish (state : PiSessionState) (detail : String) : Upholds I A t J (finish session state detail) :=
  upholds_bind hw (upholds_call hw trivial) fun _ => upholds_write hw fun _ _ heq => SessionOp.noConfusion heq

theorem upholds_markFailed (e : FleetError) (eventType : String) :
    Upholds I A t J (markFailed session e eventType) :=
  upholds_bind hw (upholds_finish hw session _ _) fun _ => upholds_recordEvent hw _ _ _

theorem upholds_enqueueBriefing (briefing : String) : Upholds I A t J (enqueueBriefing session briefing) :=
  upholds_bind hw (upholds_call hw trivial) fun _ => upholds_bind hw (upholds_call hw trivial) fun _ =>
    upholds_bind hw (upholds_write hw fun _ _ heq => SessionOp.noConfusion heq) fun _ =>
      upholds_recordEvent hw _ _ _

theorem upholds_destroyWorktree (id : String) (machine : Machine) (repo path branch : String) :
    Upholds I A t J (destroyWorktree id machine repo path branch) := by
  refine upholds_bind hw (upholds_catching hw (upholds_remote hw id machine trivial) fun e => ?_) fun _ =>
    upholds_catching hw (upholds_remote hw id machine trivial) fun e => ?_
  · cases e <;> exact upholds_raise hw _
  · cases e with
    | shimError message => exact upholds_ret hw ()
    | _ => exact upholds_raise hw _

theorem upholds_sessionMachine : Upholds I A t J (sessionMachine cfg session) := by
  unfold sessionMachine
  dsimp only
  split
  · exact upholds_ret hw _
  · exact upholds_raise hw _

theorem upholds_metaItem (key : String) : Upholds I A t J (metaItem session key) := by
  rcases OrchestratorCalls.metaItem_cases session key with ⟨-, h⟩ | h
  · rw [h]
    exact upholds_ret hw _
  · rw [h]
    exact upholds_raise hw _

theorem upholds_cleanupFailedWorktree : Upholds I A t J (cleanupFailedWorktree cfg session) := by
  unfold cleanupFailedWorktree
  dsimp only
  split
  · exact upholds_ret hw ()
  · refine upholds_bind hw (upholds_sessionMachine hw session) fun machine => ?_
    refine upholds_catching hw (upholds_bind hw (upholds_metaItem hw session _) fun repo =>
      upholds_destroyWorktree hw _ machine _ _ _) fun e => ?_
    cases e with
    | worktreeError message => exact upholds_recordEvent hw _ _ _
    | _ => exact upholds_raise hw _

theorem upholds_closeAfterFailedLaunch (machine : Machine) :
    Upholds I A t J (closeAfterFailedLaunch machine session) := by
  have hcache : Upholds I A t J
    (exceptRemote (remote session.id machine (.removeFile (session.metaText "cache_dir")))
      (remoteCleanupError session "remove-cache")) :=
    upholds_exceptRemote hw (upholds_remote hw _ machine trivial) (upholds_remoteCleanupError hw session _)
  unfold closeAfterFailedLaunch
  split
  · exact upholds_bind hw
      (upholds_exceptRemote hw (upholds_remote hw _ machine trivial) (upholds_remoteCleanupError hw session _))
      fun _ => hcache
  · exact hcache

theorem upholds_reportState (state message : String) : Upholds I A t J (reportState cfg session state message) := by
  refine upholds_bind hw (upholds_sessionMachine hw session) fun machine => ?_
  rcases OrchestratorCalls.metaItem_cases session "pane_id" with ⟨-, hpane⟩ | hpane
  · rw [hpane]
    exact hw.sequenced session machine _ _ (fun _ => rfl) fun r => by
      cases r with
      | ok u => exact upholds_ret hw ()
      | error e =>
        change Upholds I A t J (if e.remote then _ else _)
        split
        · exact upholds_bind hw (upholds_recordEvent hw _ _ _) fun _ => upholds_raise hw e
        · exact upholds_raise hw e
  · rw [hpane]
    exact hw.unreported session (.raise (.keyError "pane_id")) (upholds_raise hw _)

theorem upholds_pollBridge (machine : Machine) (rounds : ℕ) :
    Upholds I A t J (pollBridge machine session rounds) := by
  induction rounds with
  | zero => exact upholds_ret hw none
  | succ rounds ih =>
    have hsleep : Upholds I A t J (do
        Prog.await .sleep
        pollBridge machine session rounds) := upholds_bind hw (upholds_await hw trivial) fun _ => ih
    refine upholds_bind hw (upholds_await hw trivial) fun current => ?_
    cases current with
    | none => exact hsleep
    | some current =>
      dsimp only
      split
      · exact upholds_bind hw (upholds_closeAfterFailedLaunch hw current machine) fun _ => upholds_raise hw _
      · split
        · exact upholds_ret hw _
        · exact hsleep

theorem upholds_waitForBridge (machine : Machine) : Upholds I A t J (waitForBridge machine session) := by
  refine upholds_bind hw (upholds_call hw trivial) fun rounds => ?_
  refine upholds_bind hw (upholds_pollBridge hw session machine rounds) fun arrived => ?_
  cases arrived with
  | some current => exact upholds_ret hw current
  | none =>
    refine upholds_bind hw (upholds_exceptRemote hw (upholds_bind hw (upholds_metaItem hw session _) fun paneId =>
      upholds_await hw trivial) fun e => ?_) fun paneOutput => ?_
    · exact upholds_bind hw (upholds_recordEvent hw _ _ _) fun _ => upholds_ret hw _
    · refine upholds_bind hw (upholds_finish hw session _ _) fun _ => ?_
      refine upholds_bind hw (upholds_closeAfterFailedLaunch hw session machine) fun _ => ?_
      exact upholds_bind hw (upholds_recordEvent hw _ _ _) fun _ => upholds_raise hw _

theorem upholds_writeLaunchFiles (l : Launch) (spec : LaunchSpec) (token prompt : String) :
    Upholds I A t J (writeLaunchFiles cfg l spec session token prompt) :=
  upholds_bind hw (upholds_remote hw _ l.machine trivial) fun _ =>
    upholds_bind hw (upholds_remote hw _ l.machine trivial) fun _ => upholds_remote hw _ l.machine trivial

theorem upholds_runAgent (l : Launch) : Upholds I A t J (runAgent cfg l session) := by
  have hpresent : ∀ handler : FleetError → FleetM Unit, (∀ e, Upholds I A t J (handler e)) → Upholds I A t J (do
      (remote session.id l.machine (.agentRename (session.metaText "pane_id")
        (herdrAgentName session.name))).catching handler
      reportState cfg session "working" ""
      remote session.id l.machine (.reportMetadata (session.metaText "pane_id") fleetSource
        (herdrAgentName session.name) ("π " ++ session.name))) := fun handler hhandler =>
    upholds_bind hw (upholds_catching hw (upholds_remote hw _ l.machine trivial) hhandler) fun _ =>
      upholds_bind hw (upholds_reportState hw session _ _) fun _ => upholds_remote hw _ l.machine trivial
  unfold runAgent
  refine upholds_bind hw (upholds_remote hw _ l.machine trivial) fun _ => ?_
  split
  · refine upholds_bind hw (upholds_enqueueBriefing hw session _) fun _ => hpresent _ fun e => ?_
    cases e with
    | herdrError code message => exact upholds_recordEvent hw _ _ _
    | _ => exact upholds_raise hw _
  · refine hpresent _ fun e => ?_
    cases e with
    | herdrError code message => exact upholds_recordEvent hw _ _ _
    | _ => exact upholds_raise hw _

theorem upholds_abandonLaunch (l : Launch) (attempted : Bool) (e : FleetError) :
    Upholds I A t J (abandonLaunch (α := α) cfg l session attempted e) := by
  refine upholds_bind hw (upholds_markFailed hw session e _) fun _ => ?_
  refine upholds_bind hw (upholds_closeAfterFailedLaunch hw session l.machine) fun _ => ?_
  split
  · exact upholds_bind hw (upholds_cleanupFailedWorktree hw session) fun _ => upholds_raise hw e
  · exact upholds_raise hw e

theorem upholds_startAgent (l : Launch) (spec : LaunchSpec) (token : String) :
    Upholds I A t J (startAgent cfg l spec session token) := by
  have hread : Upholds I A t J ((Prog.await (.readText spec.promptPath) : FleetM String).catching fun _ =>
      abandonLaunch cfg l session false
        (.runtimeError ("cannot read required " ++ l.role.text ++ " prompt: " ++ spec.promptPath))) :=
    upholds_catching hw (upholds_await hw trivial) fun _ => upholds_abandonLaunch hw session l _ _
  refine upholds_bind hw hread fun prompt => ?_
  split
  · exact upholds_abandonLaunch hw session l _ _
  · refine upholds_bind hw (upholds_catching hw (upholds_writeLaunchFiles hw session l spec token prompt)
      fun e => upholds_abandonLaunch hw session l _ e) fun _ => ?_
    refine upholds_bind hw (upholds_catching hw (upholds_runAgent hw session l)
      fun e => upholds_abandonLaunch hw session l _ e) fun _ => ?_
    refine upholds_catching hw (upholds_waitForBridge hw session l.machine) fun e => ?_
    cases e with
    | cancelledError =>
      exact upholds_bind hw (upholds_markFailed hw session _ _) fun _ =>
        upholds_bind hw (upholds_closeAfterFailedLaunch hw session l.machine) fun _ => upholds_raise hw _
    | _ => exact upholds_raise hw _

theorem upholds_releaseAgent (machine : Machine) (paneId : String) :
    Upholds I A t J (releaseAgent machine session paneId) :=
  upholds_exceptRemote hw (hw.sequenced session machine _ _ (fun _ => rfl) hw.steady.ofExcept)
    (upholds_remoteCleanupError hw session _)

theorem upholds_removeCache (machine : Machine) : Upholds I A t J (removeCache machine session) :=
  upholds_exceptRemote hw (upholds_remote hw _ machine trivial) (upholds_remoteCleanupError hw session _)

theorem upholds_removeRecordedCache (machine : Machine) : Upholds I A t J (removeRecordedCache machine session) :=
  upholds_exceptRemote hw (upholds_bind hw (upholds_metaItem hw session _) fun _ =>
    upholds_remote hw _ machine trivial)
    (upholds_remoteCleanupError hw session _)

theorem upholds_destroyRecordedWorktree (machine : Machine) :
    Upholds I A t J (destroyRecordedWorktree machine session) :=
  upholds_bind hw (upholds_metaItem hw session _) fun _ => upholds_bind hw (upholds_metaItem hw session _) fun _ =>
    upholds_bind hw (upholds_metaItem hw session _) fun _ => upholds_destroyWorktree hw _ machine _ _ _

theorem upholds_closeForTeardown (machine : Machine) : Upholds I A t J (closeForTeardown machine session) := by
  unfold closeForTeardown
  split
  · exact upholds_ret hw ()
  · refine upholds_bind hw (upholds_exceptRemote hw (upholds_remote hw _ machine trivial) fun e => ?_) fun _ =>
      upholds_releaseAgent hw session machine _
    exact upholds_bind hw (upholds_remoteCleanupError hw session _ e) fun _ => upholds_raise hw _

theorem upholds_teardownTask (force : Bool) : Upholds I A t J (teardownTask cfg session force) := by
  refine upholds_bind hw (upholds_call hw trivial) fun _ => ?_
  split
  · exact upholds_raise hw _
  · split
    · exact upholds_raise hw _
    · refine upholds_bind hw (upholds_sessionMachine hw session) fun machine => ?_
      refine upholds_bind hw (upholds_closeForTeardown hw session machine) fun _ => ?_
      refine upholds_bind hw (upholds_catching hw (upholds_destroyRecordedWorktree hw session machine) fun e => ?_)
        fun _ => ?_
      · cases e with
        | worktreeError message =>
          exact upholds_bind hw (upholds_markFailed hw session _ _) fun _ => upholds_raise hw _
        | _ => exact upholds_raise hw _
      · refine upholds_bind hw (upholds_removeRecordedCache hw session machine) fun _ => ?_
        exact upholds_bind hw (upholds_finish hw session _ _) fun _ => upholds_recordEvent hw _ _ _

theorem upholds_stopSession : Upholds I A t J (stopSession cfg session) := by
  refine upholds_bind hw (upholds_sessionMachine hw session) fun machine => ?_
  have hend : Upholds I A t J (do
      removeCache machine session
      finish session .stopped ""
      recordEvent session.id "stopped" []) :=
    upholds_bind hw (upholds_removeCache hw session machine) fun _ =>
      upholds_bind hw (upholds_finish hw session _ _) fun _ => upholds_recordEvent hw _ _ _
  dsimp only
  split
  · refine upholds_bind hw (upholds_releaseAgent hw session machine _) fun _ => ?_
    refine upholds_bind hw (upholds_exceptRemote hw (upholds_remote hw _ machine trivial) fun e => ?_) fun _ => hend
    exact upholds_bind hw (upholds_remoteCleanupError hw session _ e) fun _ => upholds_raise hw e
  · exact hend

theorem upholds_retirePm (now : ℕ) : Upholds I A t J (retirePm cfg now session) := by
  refine upholds_bind hw (upholds_await hw trivial) fun current =>
    upholds_bind hw (upholds_await hw trivial) fun tasks => ?_
  cases current with
  | none => exact upholds_ret hw ()
  | some current =>
    dsimp only
    split
    · exact upholds_stopSession hw current
    · exact upholds_ret hw ()

theorem upholds_liveSession : Upholds I A t J (liveSession cfg session) := by
  unfold liveSession
  split
  · exact upholds_bind hw (upholds_sessionMachine hw session) fun machine =>
      upholds_waitForBridge hw session machine
  · exact upholds_ret hw session

theorem upholds_pollSession (now : ℕ) (tasks : List PiSession) :
    Upholds I A t J (pollSession cfg now tasks session) := by
  unfold pollSession
  split
  · exact upholds_ret hw ()
  · split
    · refine upholds_bind hw (upholds_metaItem hw session _) fun project => ?_
      split
      · exact upholds_locked hw (upholds_retirePm hw session now)
      · exact upholds_raise hw _
    · exact upholds_reportState hw session _ _

end Session

variable {cfg : FleetConfig}

theorem upholds_launchIn (launching : Launch) (spec : LaunchSpec) (sid token worktree branch : String) :
    Upholds I A t J (launchIn cfg launching spec sid token worktree branch) := by
  refine upholds_bind hw (Steady.attempt (upholds_await hw trivial)) fun created => ?_
  refine upholds_bind hw (upholds_call hw trivial) fun now => ?_
  have hinsert : ∀ row, Upholds I A t J (write (.insert row)) := fun row =>
    upholds_write hw fun _ _ heq => SessionOp.noConfusion heq
  cases created with
  | ok workspace => exact upholds_bind hw (hinsert _) fun _ => upholds_startAgent hw _ launching spec token
  | error e =>
    dsimp only
    split
    · refine upholds_bind hw (hinsert _) fun _ => upholds_bind hw (upholds_markFailed hw _ e _) fun _ => ?_
      split
      · exact upholds_bind hw (upholds_cleanupFailedWorktree hw _) fun _ => upholds_raise hw e
      · exact upholds_raise hw e
    · exact upholds_raise hw e

/-- Launches, if those of tasks do, which create worktrees. -/
theorem upholds_launch (launching : Launch)
    (htask : ∀ spec sid token, launching.role = .task →
      launchSpec cfg launching launching.cwd launching.branch = .ok spec →
      Upholds I A t J (launchTaskIn cfg launching spec sid token)) : Upholds I A t J (launch cfg launching) := by
  unfold launch
  split
  · exact upholds_raise hw _
  · cases hspec : launchSpec cfg launching launching.cwd launching.branch with
    | error e => exact upholds_raise hw e
    | ok spec =>
      have huuid : Upholds I A t J (Prog.call .uuid : FleetM String) := upholds_call hw trivial
      have htoken : Upholds I A t J (Prog.call .token : FleetM String) := upholds_call hw trivial
      change Upholds I A t J ((Prog.call .uuid).bind _)
      refine upholds_bind hw huuid fun sid => upholds_bind hw htoken fun token => ?_
      by_cases hrole : launching.role = .orchestrator
      · rw [if_pos hrole, if_neg (by simp [hrole])]
        exact upholds_launchIn hw _ spec sid token "" ""
      · rw [if_neg hrole]
        split
        · next hr => exact htask spec sid token hr hspec
        · exact upholds_launchIn hw _ spec sid token "" ""

theorem upholds_launchTaskIn {launching : Launch} {spec : LaunchSpec} {sid : String}
    (hcreate : Upholds I A t J
      (createWorktree sid launching.machine launching.repo launching.branch launching.baseBranch [1, 2, 3, 4, 5]))
    (token : String) : Upholds I A t J (launchTaskIn cfg launching spec sid token) := by
  refine upholds_bind hw (Steady.attempt hcreate) fun created => ?_
  cases created with
  | ok created =>
    obtain ⟨worktree, branch⟩ := created
    dsimp only
    cases launchSpec cfg launching worktree branch with
    | error e => exact upholds_raise hw e
    | ok spec => exact upholds_launchIn hw _ spec sid token worktree branch
  | error e =>
    cases e with
    | worktreeError message =>
      refine upholds_bind hw (upholds_call hw trivial) fun _ => ?_
      refine upholds_bind hw (upholds_write hw fun _ _ heq => SessionOp.noConfusion heq) fun _ => ?_
      exact upholds_bind hw (upholds_markFailed hw _ _ _) fun _ => upholds_raise hw _
    | _ => exact upholds_raise hw _

theorem upholds_project (name : String) : Upholds I A t J (Orchestrator.project cfg name) := by
  unfold Orchestrator.project
  split
  · exact upholds_ret hw _
  · exact upholds_raise hw _

theorem upholds_projectMachine (project : Project) : Upholds I A t J (projectMachine cfg project) := by
  unfold projectMachine
  split
  · exact upholds_ret hw _
  · exact upholds_raise hw _

theorem upholds_enqueuePrompt (target : PiSession) (message deliverAs : String) (caller : Option PiSession) :
    Upholds I A t J (FleetRoutes.enqueuePrompt target message deliverAs caller) := by
  unfold FleetRoutes.enqueuePrompt
  split
  · exact upholds_raise hw _
  · refine upholds_bind hw (upholds_call hw trivial) fun _ => upholds_bind hw (upholds_call hw trivial) fun _ => ?_
    refine upholds_bind hw (upholds_write hw fun _ _ heq => SessionOp.noConfusion heq) fun _ => ?_
    refine upholds_bind hw (upholds_call hw trivial) fun _ => ?_
    exact upholds_write hw fun _ _ heq => SessionOp.noConfusion heq

theorem upholds_poll : Upholds I A t J (poll cfg) := by
  refine upholds_bind hw (upholds_call hw trivial) fun now =>
    upholds_bind hw (upholds_await hw trivial) fun tasks => ?_
  refine upholds_bind hw (upholds_await hw trivial) fun orchestrators => ?_
  refine upholds_bind hw (upholds_await hw trivial) fun managers => ?_
  refine hw.steady.forEach (fun session => upholds_catching hw
    (upholds_pollSession hw session now tasks) fun e => ?_) _
  cases e with
  | cancelledError => exact upholds_raise hw _
  | _ => exact upholds_ret hw ()

section Launching

variable (hl : ∀ launching, Upholds I A t J (launch cfg launching))
include hl

theorem upholds_launchOrchestrator (sessions : List PiSession) :
    Upholds I A t J (launchOrchestrator cfg sessions) := by
  unfold launchOrchestrator
  split
  · exact upholds_raise hw _
  · next machine _ =>
    dsimp only
    generalize (if cfg.orchestratorCwd = "" then machine.home ++
      "/Work/agent-orchestrator" else cfg.orchestratorCwd) = repo
    split
    · exact upholds_raise hw _
    · exact hl _

theorem upholds_ensureOrchestrator : Upholds I A t J (ensureOrchestrator cfg) := by
  refine upholds_locked hw (upholds_bind hw (upholds_await hw trivial) fun sessions => ?_)
  cases firstLive sessions with
  | some session => exact upholds_liveSession hw session
  | none => exact upholds_launchOrchestrator hw hl sessions

theorem upholds_ensurePmLocked (project : String) : Upholds I A t J (ensurePmLocked cfg project) := by
  refine upholds_bind hw (upholds_project hw project) fun p => ?_
  refine upholds_bind hw (upholds_await hw trivial) fun sessions => ?_
  cases firstLive sessions with
  | some session => exact upholds_liveSession hw session
  | none =>
    refine upholds_bind hw (upholds_projectMachine hw p) fun machine => upholds_bind hw (hl _) fun manager => ?_
    refine upholds_bind hw (hw.steady.forEach (fun previous => ?_) sessions) fun _ => upholds_ret hw manager
    exact upholds_write hw fun _ _ heq => SessionOp.noConfusion heq

theorem upholds_pmSession {project : String} {body : PiSession → FleetM α}
    (hbody : ∀ manager, Upholds I A t J (body manager)) : Upholds I A t J (pmSession cfg project body) := by
  refine upholds_bind hw (upholds_project hw project) fun p => upholds_locked hw ?_
  refine upholds_bind hw (Steady.attempt (upholds_ensurePmLocked hw hl project)) fun result => ?_
  refine upholds_bind hw (upholds_call hw trivial) fun _ => ?_
  exact upholds_bind hw (hw.steady.ofExcept result) hbody

theorem upholds_launchTask (p : Project) (branch briefing parent : String) :
    Upholds I A t J (launchTask cfg p branch briefing parent) := by
  refine upholds_locked hw (upholds_bind hw (upholds_await hw trivial) fun accepted => ?_)
  cases accepted with
  | none => exact upholds_raise hw _
  | some manager => exact upholds_bind hw (upholds_projectMachine hw p) fun machine => hl _

theorem upholds_operation {p : FleetM Unit} (hp : Operation cfg p) : Upholds I A t J p := by
  have hret : ∀ {α : Type} {p : FleetM α}, Upholds I A t J p → Upholds I A t J (p.bind fun _ => .ret ()) :=
    fun hp => upholds_bind hw hp fun _ => upholds_ret hw ()
  cases hp with
  | launch launching => exact hret (hl launching)
  | waitForBridge machine session => exact hret (upholds_waitForBridge hw session machine)
  | caller hp =>
    cases hp with
    | ensureOrchestrator => exact hret (upholds_ensureOrchestrator hw hl)
    | ensurePm project => exact hret (upholds_pmSession hw hl fun manager => upholds_ret hw manager)
    | send project message deliverAs caller =>
      exact upholds_pmSession hw hl fun manager => upholds_enqueuePrompt hw manager message deliverAs caller
    | launchTask p branch briefing parent => exact hret (upholds_launchTask hw hl p branch briefing parent)
    | poll => exact upholds_poll hw
    | teardown session force => exact upholds_teardownTask hw session force
    | request op => exact upholds_await hw trivial

end Launching

end WorkerHarness.OrchestratorWalks
