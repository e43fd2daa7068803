import WorkerHarness.ManagerRows

/-!
# What the methods of the orchestrator call

Apart from launches and re-parentings every method acts on behalf of one session: it finishes the
session, appends to its mailbox or log, and issues commands for it. The coroutines are walked
through once, here, for all later results.
-/

namespace WorkerHarness.OrchestratorCalls

open Coroutines Database Orchestrator LiveSessions

/-- A database call that finishes the session or appends to its mailbox or log. -/
def Serves (id : String) : SessionOp → Prop
  | .finish sessionId state _ _ => sessionId = id ∧ state.terminalPm = true
  | .enqueue command _ => command.sessionId = id
  | .nextPane sessionId => sessionId = id
  | .insertEvent event => event.sessionId = id
  | _ => False

/-- A call on behalf of the session; `run` and `remove` say whether it may start an agent in a pane
and remove a worktree. -/
def For (id : String) (run remove : Prop) : (β : Type) → FleetCall β → Prop
  | _, .write op => Serves id op
  | _, .nextPaneSequence sessionId => sessionId = id
  | _, .remote sessionId _ (.paneRun _ _) => sessionId = id ∧ run
  | _, .remote sessionId _ (.worktreeRemove _ _) => sessionId = id ∧ remove
  | _, .remote sessionId _ _ => sessionId = id
  | _, .request _ => False
  | _, .openPr _ _ _ _ _ _ => False
  | _, .teardown _ _ => False
  | _, .ensured _ _ => False
  | _, _ => True

def GivesUp (id : String) : (β : Type) → FleetCall β → Prop
  | _, .write (.finish sessionId state _ _) => sessionId = id ∧ state = .failed
  | _, .write (.insertEvent event) =>
    event.sessionId = id ∧ (event.eventType = "launch-failed" ∨ event.eventType = "herdr-error")
  | _, .write _ => False
  | _, .remote sessionId _ (.paneClose _) => sessionId = id
  | _, .remote sessionId _ (.removeFile _) => sessionId = id
  | _, .remote _ _ _ => False
  | _, .nextPaneSequence _ => False
  | _, .request _ => False
  | _, .openPr _ _ _ _ _ _ => False
  | _, .teardown _ _ => False
  | _, .ensured _ _ => False
  | _, _ => True

def Prompts (id : String) : (β : Type) → FleetCall β → Prop
  | _, .write (.enqueue command _) => command.sessionId = id ∧ command.kind = "prompt"
  | _, .write (.insertEvent event) => event.sessionId = id ∧ event.eventType = "prompt-queued"
  | _, .uuid => True
  | _, .time => True
  | _, _ => False

/-- A query answers what some tables give. -/
def Possible : (β : Type) → FleetCall β → β → Prop
  | _, .query q, r => ∀ v, r = .ok v → ∃ d, v = q d
  | _, _, _ => True

theorem possible_of_handle {β : Type} {e : FleetCall β} {t : ℕ} {w : FleetAnswer} {s s' : FleetWorld} {b : β}
    (h : fleetHandle e t w s = some (s', b)) : Possible β e b := by
  cases e with
  | query q =>
    intro v hv
    cases w with
    | done =>
      simp only [fleetHandle, Option.some.injEq, Prod.mk.injEq] at h
      exact ⟨s.db, by rw [← h.2] at hv; exact (Except.ok.inj hv).symm⟩
    | fails e n =>
      simp only [fleetHandle, Option.some.injEq, Prod.mk.injEq] at h
      rw [← h.2] at hv
      cases hv
    | _ => cases h
  | _ => trivial

/-- All calls of the coroutine are in `P` and its values in `R`. -/
abbrev Does {α : Type} (P : (β : Type) → FleetCall β → Prop) (R : α → Prop) (p : FleetM α) : Prop :=
  p.Performs Possible P R

abbrev Any {α : Type} (_ : α) : Prop := True

abbrev Same (session current : PiSession) : Prop := current.id = session.id

variable {id : String} {run remove run' remove' : Prop} {α : Type} {R : α → Prop}

theorem for_of_givesUp (β : Type) (e : FleetCall β) (h : GivesUp id β e) : For id run remove β e := by
  cases e with
  | write op =>
    cases op with
    | finish => exact ⟨h.1, h.2 ▸ rfl⟩
    | insertEvent => exact h.1
    | _ => exact h.elim
  | remote sessionId machine command =>
    cases command with
    | paneClose => exact h
    | removeFile => exact h
    | _ => exact h.elim
  | nextPaneSequence => exact h.elim
  | _ => exact h

theorem for_of_prompts (β : Type) (e : FleetCall β) (h : Prompts id β e) : For id run remove β e := by
  cases e with
  | write op =>
    cases op with
    | enqueue => exact h.1
    | insertEvent => exact h.1
    | _ => exact h.elim
  | uuid => trivial
  | time => trivial
  | _ => exact h.elim

theorem bookkeeping_of_serves {op : SessionOp} (h : Serves id op) : ManagerRows.Bookkeeping op := by
  cases op with
  | finish => exact h.2
  | enqueue => trivial
  | nextPane => trivial
  | insertEvent => trivial
  | _ => exact h

theorem performs_exceptRemote {P : (β : Type) → FleetCall β → Prop} {p : FleetM α} {handler : FleetError → FleetM α}
    (hp : Does P R p) (hh : ∀ e, Does P R (handler e)) : Does P R (exceptRemote p handler) :=
  hp.catching fun e => by
    split
    · exact hh e
    · trivial

theorem performs_recordEvent (eventType : String) (payload : JsonObject) :
    Does (For id run remove) Any (recordEvent id eventType payload) :=
  ⟨trivial, fun _ _ => ⟨trivial, fun _ _ => .await rfl fun _ _ => trivial⟩⟩

section Session

variable (session : PiSession)

theorem givesUp_recordEvent {eventType : String} (h : eventType = "launch-failed" ∨ eventType = "herdr-error")
    (payload : JsonObject) : Does (GivesUp id) Any (recordEvent id eventType payload) :=
  ⟨trivial, fun _ _ => ⟨trivial, fun _ _ => .await ⟨rfl, h⟩ fun _ _ => trivial⟩⟩

theorem givesUp_remoteCleanupError (operation : String) (error : FleetError) :
    Does (GivesUp session.id) Any (remoteCleanupError session operation error) :=
  givesUp_recordEvent (.inr rfl) _

theorem performs_remoteCleanupError (operation : String) (error : FleetError) :
    Does (For session.id run remove) Any (remoteCleanupError session operation error) :=
  performs_recordEvent _ _

theorem performs_finish {state : PiSessionState} (detail : String) (hstate : state.terminalPm = true) :
    Does (For session.id run remove) Any (finish session state detail) :=
  ⟨trivial, fun _ _ => .await ⟨rfl, hstate⟩ fun _ _ => trivial⟩

theorem givesUp_finish (detail : String) : Does (GivesUp session.id) Any (finish session .failed detail) :=
  ⟨trivial, fun _ _ => .await ⟨rfl, rfl⟩ fun _ _ => trivial⟩

theorem performs_markFailed (error : FleetError) (eventType : String) :
    Does (For session.id run remove) Any (markFailed session error eventType) :=
  (performs_finish session _ rfl).bind fun _ _ => performs_recordEvent _ _

theorem performs_nextSequence : Does (For session.id run remove) Any (nextSequence session) :=
  .await rfl fun _ _ => trivial

theorem performs_enqueueBriefing (briefing : String) :
    Does (For session.id run remove) Any (enqueueBriefing session briefing) :=
  ⟨trivial, fun _ _ => ⟨trivial, fun _ _ =>
    (Prog.Performs.await rfl fun _ _ => trivial).bind fun _ _ => performs_recordEvent _ _⟩⟩

theorem performs_sessionMachine {P : (β : Type) → FleetCall β → Prop} (cfg : FleetConfig) :
    Does P Any (sessionMachine cfg session) := by
  unfold sessionMachine
  dsimp only
  split <;> trivial

theorem metaItem_cases (key : String) :
    (session.metaData.get key).isSome ∧ metaItem session key = .ret (session.metaText key) ∨
      metaItem session key = .raise (.keyError key) := by
  unfold metaItem
  split
  · next h => exact .inl ⟨h, rfl⟩
  · exact .inr rfl

theorem performs_metaItem {P : (β : Type) → FleetCall β → Prop} (key : String) :
    Does P Any (metaItem session key) := by
  rcases metaItem_cases session key with ⟨-, h⟩ | h
  · rw [h]
    trivial
  · rw [h]
    trivial

theorem performs_destroyWorktree (hremove : remove) (machine : Machine) (repo path branch : String) :
    Does (For id run remove) Any (destroyWorktree id machine repo path branch) := by
  refine ((Prog.Performs.await (R := Any) ⟨rfl, hremove⟩ fun _ _ => trivial).catching fun e => ?_).bind fun _ _ =>
    ?_
  · cases e <;> trivial
  · refine (Prog.Performs.await rfl fun _ _ => trivial).catching fun e => ?_
    cases e <;> trivial

theorem performs_cleanupFailedWorktree (hremove : remove) (cfg : FleetConfig) :
    Does (For session.id run remove) Any (cleanupFailedWorktree cfg session) := by
  unfold cleanupFailedWorktree
  dsimp only
  split
  · trivial
  · refine (performs_sessionMachine session cfg).bind fun machine _ => ?_
    refine Prog.Performs.catching ((performs_metaItem session _).bind fun repo _ =>
      performs_destroyWorktree hremove machine _ _ _) fun e => ?_
    cases e with
    | worktreeError => exact performs_recordEvent _ _
    | _ => trivial

theorem givesUp_closeAfterFailedLaunch (machine : Machine) :
    Does (GivesUp session.id) Any (closeAfterFailedLaunch machine session) := by
  have hcache : Does (GivesUp session.id) Any
      (exceptRemote (remote session.id machine (.removeFile (session.metaText "cache_dir")))
        (remoteCleanupError session "remove-cache")) :=
    performs_exceptRemote (.await rfl fun _ _ => trivial) (givesUp_remoteCleanupError session _)
  unfold closeAfterFailedLaunch
  split
  · exact (performs_exceptRemote (.await rfl fun _ _ => trivial) (givesUp_remoteCleanupError session _)).bind
      fun _ _ => hcache
  · exact hcache

theorem performs_closeAfterFailedLaunch (machine : Machine) :
    Does (For session.id run remove) Any (closeAfterFailedLaunch machine session) :=
  (givesUp_closeAfterFailedLaunch session machine).mono for_of_givesUp fun _ _ => trivial

theorem performs_reportState (cfg : FleetConfig) (state message : String) :
    Does (For session.id run remove) Any (reportState cfg session state message) := by
  refine (performs_sessionMachine session cfg).bind fun machine _ => ?_
  refine (performs_nextSequence session).bind fun sequence _ => ?_
  refine performs_exceptRemote ((performs_metaItem session _).bind fun paneId _ => .await rfl fun _ _ =>
    trivial) fun e => ?_
  exact (performs_recordEvent _ _).bind fun _ _ => trivial

theorem performs_createWorktree (machine : Machine) (repo branch base : String) (attempts : List ℕ) :
    Does (For id run remove) Any (createWorktree id machine repo branch base attempts) := by
  induction attempts with
  | nil => trivial
  | cons attempt attempts ih =>
    refine (Prog.Performs.attempt (R := Any) (.await rfl fun _ _ => trivial)).bind fun result _ => ?_
    cases result with
    | ok _ => trivial
    | error e =>
      cases e with
      | shimError => exact ih
      | _ => trivial

theorem givesUp_pollBridge (machine : Machine) (rounds : ℕ) :
    Does (GivesUp session.id) (fun r => ∀ s ∈ r, Same session s) (pollBridge machine session rounds) := by
  induction rounds with
  | zero => exact fun s hs => by cases hs
  | succ rounds ih =>
    have hsleep : Does (GivesUp session.id) (fun r => ∀ s ∈ r, Same session s) (do
        Prog.await .sleep
        pollBridge machine session rounds) :=
      (Prog.Performs.await (R := Any) trivial fun _ _ => trivial).bind fun _ _ => ih
    refine (Prog.Performs.await (R := fun r => ∀ s ∈ r, Same session s) trivial fun r hr =>
      ?_).bind fun current hc => ?_
    · obtain ⟨d, rfl⟩ := hr r rfl
      exact fun s hs => findSession_id hs
    · cases current with
      | none => exact hsleep
      | some current =>
        have hid : current.id = session.id := hc current rfl
        dsimp only
        split
        · exact (hid ▸ givesUp_closeAfterFailedLaunch current machine).bind fun _ _ => trivial
        · split
          · exact fun s hs => by cases hs; exact hid
          · exact hsleep

theorem givesUp_waitForBridge (machine : Machine) :
    Does (GivesUp session.id) (Same session) (waitForBridge machine session) := by
  refine ⟨trivial, fun rounds _ => (givesUp_pollBridge session machine rounds).bind fun arrived harrived => ?_⟩
  cases arrived with
  | some current => exact harrived current rfl
  | none =>
    refine (performs_exceptRemote ((performs_metaItem session _).bind fun paneId _ =>
      .await trivial fun _ _ => trivial)
      fun e => ?_).bind fun paneOutput _ => ?_
    · exact (givesUp_recordEvent (.inr rfl) _).bind fun _ _ => trivial
    · refine (givesUp_finish session _).bind fun _ _ => ?_
      refine (givesUp_closeAfterFailedLaunch session machine).bind fun _ _ => ?_
      exact (givesUp_recordEvent (.inl rfl) _).bind fun _ _ => trivial

theorem performs_waitForBridge (machine : Machine) :
    Does (For session.id run remove) (Same session) (waitForBridge machine session) :=
  (givesUp_waitForBridge session machine).mono for_of_givesUp fun _ h => h

theorem performs_writeLaunchFiles (cfg : FleetConfig) (l : Launch) (spec : LaunchSpec) (token prompt : String) :
    Does (For session.id run remove) Any (writeLaunchFiles cfg l spec session token prompt) :=
  (Prog.Performs.await (R := Any) rfl fun _ _ => trivial).bind fun _ _ =>
    (Prog.Performs.await (R := Any) rfl fun _ _ => trivial).bind fun _ _ => .await rfl fun _ _ => trivial

/-- What follows the pane's command: the agent gets its name and its first state. -/
theorem performs_presentAgent (cfg : FleetConfig) (l : Launch) :
    Does (For session.id run remove) Any (do
      (remote session.id l.machine (.agentRename (session.metaText "pane_id")
        (herdrAgentName session.name))).catching fun
        | .herdrError code message => recordEvent session.id "herdr-error"
            [("operation", .str "agent-rename"), ("code", .str code), ("detail", .str (code ++ ": " ++ message))]
        | e => .raise e
      reportState cfg session "working" ""
      remote session.id l.machine (.reportMetadata (session.metaText "pane_id") fleetSource
        (herdrAgentName session.name) ("π " ++ session.name))) := by
  refine ((Prog.Performs.await (R := Any) rfl fun _ _ => trivial).catching fun e => ?_).bind fun _ _ => ?_
  · cases e with
    | herdrError => exact performs_recordEvent _ _
    | _ => trivial
  · exact (performs_reportState session cfg _ _).bind fun _ _ => .await rfl fun _ _ => trivial

theorem performs_runAgent (hrun : run) (cfg : FleetConfig) (l : Launch) :
    Does (For session.id run remove) Any (runAgent cfg l session) := by
  refine (Prog.Performs.await (R := Any) ⟨rfl, hrun⟩ fun _ _ => trivial).bind fun _ _ => ?_
  split
  · exact (performs_enqueueBriefing session _).bind fun _ _ => performs_presentAgent session cfg l
  · exact performs_presentAgent session cfg l

theorem performs_abandonLaunch (cfg : FleetConfig) (l : Launch) (attempted : Bool)
    (hremove : attempted = false → remove)
    (error : FleetError) : Does (For session.id run remove) R (abandonLaunch cfg l session attempted error) := by
  refine (performs_markFailed session error _).bind fun _ _ => ?_
  refine (performs_closeAfterFailedLaunch session l.machine).bind fun _ _ => ?_
  split
  · next h => exact (performs_cleanupFailedWorktree session (hremove h.2) cfg).bind fun _ _ => trivial
  · trivial

/-- From `pane_run` on nothing is cleaned up. -/
theorem performs_runSession (hrun : run) (cfg : FleetConfig) (l : Launch) :
    Does (For session.id run remove) (Same session) (do
      (runAgent cfg l session).catching (abandonLaunch cfg l session true)
      (waitForBridge l.machine session).catching fun
        | .cancelledError => do
          markFailed session .cancelledError "launch-failed"
          closeAfterFailedLaunch l.machine session
          .raise .cancelledError
        | e => .raise e) := by
  refine ((performs_runAgent session hrun cfg l).catching fun e => ?_).bind fun _ _ => ?_
  · exact performs_abandonLaunch session cfg l true (fun h => by cases h) e
  · refine (performs_waitForBridge session l.machine).catching fun e => ?_
    cases e with
    | cancelledError =>
      refine (performs_markFailed session _ _).bind fun _ _ => ?_
      exact (performs_closeAfterFailedLaunch session l.machine).bind fun _ _ => trivial
    | _ => trivial

theorem performs_startAgent (hrun : run) (hremove : remove) (cfg : FleetConfig) (l : Launch) (spec : LaunchSpec)
    (token : String) : Does (For session.id run remove) (Same session) (startAgent cfg l spec session token) := by
  have habandon : ∀ {β : Type} {R : β → Prop} (e : FleetError),
      Does (For session.id run remove) R (abandonLaunch cfg l session false e) :=
    fun e => performs_abandonLaunch session cfg l false (fun _ => hremove) e
  refine (Prog.Performs.catching (R := Any) (.await trivial fun _ _ => trivial) fun e =>
    habandon _).bind fun prompt _ => ?_
  split
  · exact habandon _
  · refine ((performs_writeLaunchFiles session cfg l spec token prompt).catching fun e =>
      habandon _).bind fun _ _ => ?_
    exact performs_runSession session hrun cfg l

theorem performs_releaseAgent (machine : Machine) (paneId : String) :
    Does (For session.id run remove) Any (releaseAgent machine session paneId) :=
  performs_exceptRemote ((performs_nextSequence session).bind fun _ _ => .await rfl fun _ _ => trivial)
    (performs_remoteCleanupError session _)

theorem performs_removeCache (machine : Machine) :
    Does (For session.id run remove) Any (removeCache machine session) :=
  performs_exceptRemote (.await rfl fun _ _ => trivial) (performs_remoteCleanupError session _)

theorem performs_removeRecordedCache (machine : Machine) :
    Does (For session.id run remove) Any (removeRecordedCache machine session) :=
  performs_exceptRemote ((performs_metaItem session _).bind fun _ _ => .await rfl fun _ _ => trivial)
    (performs_remoteCleanupError session _)

theorem performs_destroyRecordedWorktree (hremove : remove) (machine : Machine) :
    Does (For session.id run remove) Any (destroyRecordedWorktree machine session) := by
  refine (performs_metaItem session _).bind fun repo _ => ?_
  refine (performs_metaItem session _).bind fun worktree _ => ?_
  exact (performs_metaItem session _).bind fun branch _ =>
    performs_destroyWorktree hremove machine repo worktree branch

theorem performs_closeForTeardown (machine : Machine) :
    Does (For session.id run remove) Any (closeForTeardown machine session) := by
  unfold closeForTeardown
  split
  · trivial
  · refine (performs_exceptRemote (.await rfl fun _ _ => trivial) fun e => ?_).bind fun _ _ => ?_
    · exact (performs_remoteCleanupError session _ e).bind fun _ _ => trivial
    · exact performs_releaseAgent session machine _

theorem performs_stopSession (cfg : FleetConfig) :
    Does (For session.id run remove) Any (stopSession cfg session) := by
  refine (performs_sessionMachine session cfg).bind fun machine _ => ?_
  have hend : Does (For session.id run remove) Any (do
      removeCache machine session
      finish session .stopped ""
      recordEvent session.id "stopped" []) :=
    (performs_removeCache session machine).bind fun _ _ =>
      (performs_finish session _ rfl).bind fun _ _ => performs_recordEvent _ _
  dsimp only
  split
  · refine (performs_releaseAgent session machine _).bind fun _ _ => ?_
    refine (performs_exceptRemote (.await rfl fun _ _ => trivial) fun e => ?_).bind fun _ _ => hend
    exact (performs_remoteCleanupError session _ e).bind fun _ _ => trivial
  · exact hend

/-- The teardown of a task whose pane is closed. -/
theorem performs_destroyTask (hremove : remove) (force : Bool) (machine : Machine) :
    Does (For session.id run remove) Any (do
      (destroyRecordedWorktree machine session).catching fun
        | .worktreeError message => do
          markFailed session (.worktreeError message) "teardown-failed"
          .raise (.worktreeError message)
        | e => .raise e
      removeRecordedCache machine session
      finish session .stopped ""
      recordEvent session.id "stopped" [("force", .other (toString force))]) := by
  refine ((performs_destroyRecordedWorktree session hremove machine).catching fun e => ?_).bind fun _ _ => ?_
  · cases e with
    | worktreeError message => exact (performs_markFailed session _ _).bind fun _ _ => trivial
    | _ => trivial
  · refine (performs_removeRecordedCache session machine).bind fun _ _ => ?_
    exact (performs_finish session _ rfl).bind fun _ _ => performs_recordEvent _ _

theorem performs_teardownTask {P : (β : Type) → FleetCall β → Prop} (hremove : remove) (cfg : FleetConfig)
    (force : Bool)
    (hmark : P Unit (.teardown session force)) (hP : ∀ β e, For session.id run remove β e → P β e) :
    Does P Any (teardownTask cfg session force) := by
  refine Prog.Performs.bind (R := Any) (.call hmark fun _ _ => trivial) fun _ _ => ?_
  refine Prog.Performs.mono (P := For session.id run remove) (R := Any) ?_ hP fun _ h => h
  split
  · trivial
  · split
    · trivial
    · refine (performs_sessionMachine session cfg).bind fun machine _ => ?_
      refine (performs_closeForTeardown session machine).bind fun _ _ => ?_
      exact performs_destroyTask session hremove force machine

theorem performs_liveSession (cfg : FleetConfig) :
    Does (For session.id run remove) (Same session) (liveSession cfg session) := by
  unfold liveSession
  split
  · exact (performs_sessionMachine session cfg).bind fun machine _ => performs_waitForBridge session machine
  · exact rfl

end Session

section Configuration

variable {P : (β : Type) → FleetCall β → Prop}

theorem performs_project (cfg : FleetConfig) (name : String) :
    Does P (fun p => p.name = name) (Orchestrator.project cfg name) := by
  unfold Orchestrator.project
  split
  · next p hfind =>
    have hname : p.name = name := by simpa using List.find?_some hfind
    exact hname
  · trivial

theorem performs_projectMachine (cfg : FleetConfig) (p : Project) : Does P Any (projectMachine cfg p) := by
  unfold projectMachine
  split <;> trivial

end Configuration

theorem performs_retirePm (session : PiSession) (cfg : FleetConfig) (now : ℕ) :
    Does (For session.id run remove) Any (retirePm cfg now session) := by
  refine (Prog.Performs.await (R := fun r => ∀ s ∈ r, Same session s) trivial fun r hr => ?_).bind fun current hc =>
    ?_
  · obtain ⟨d, rfl⟩ := hr r rfl
    exact fun s hs => findSession_id hs
  · refine (Prog.Performs.await (R := Any) trivial fun _ _ => trivial).bind fun tasks _ => ?_
    cases current with
    | none => trivial
    | some current =>
      have hid : current.id = session.id := hc current rfl
      dsimp only
      split
      · exact hid ▸ performs_stopSession current cfg
      · trivial

theorem prompts_enqueuePrompt (target : PiSession) (message deliverAs : String) (caller : Option PiSession) :
    Does (Prompts target.id) Any (FleetRoutes.enqueuePrompt target message deliverAs caller) := by
  unfold FleetRoutes.enqueuePrompt
  split
  · trivial
  · exact ⟨trivial, fun _ _ => ⟨trivial, fun _ _ =>
      (Prog.Performs.await ⟨rfl, rfl⟩ fun _ _ => trivial).bind fun _ _ =>
      ⟨trivial, fun _ _ => .await ⟨rfl, rfl⟩ fun _ _ => trivial⟩⟩⟩

attribute [local irreducible] FleetRoutes.enqueuePrompt

theorem performs_enqueuePrompt (target : PiSession) (message deliverAs : String) (caller : Option PiSession) :
    Does (For target.id run remove) Any (FleetRoutes.enqueuePrompt target message deliverAs caller) :=
  (prompts_enqueuePrompt target message deliverAs caller).mono for_of_prompts fun _ _ => trivial

end WorkerHarness.OrchestratorCalls
