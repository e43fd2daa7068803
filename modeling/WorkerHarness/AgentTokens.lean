import WorkerHarness.ConfinedRequests

/-!
# The reach of one token

All requests of the Pi routes that carry the token of one session, at any interleaving, and what
they may have written when the session is a task or a project manager.
-/

namespace WorkerHarness.AgentTokens

open Coroutines Database SessionStatements LaunchedSessions LiveManagers ManagerLocks ManagerRows FleetRoutes
open Orchestrator OrchestratorCalls WriteConfinement ConfinedRequests

inductive PiRequest (app : AppState) (cfg : FleetConfig) (token : String) : FleetM Unit → Prop where
  | register (payload : PiBridgeRegister) (uuid : ℕ → String) :
      PiRequest app cfg token (bridgeRegister app cfg (.bearer token) payload uuid)
  | events (sessionId : String) (payload : PiBridgeEventBatch) (uuid : ℕ → String) :
      PiRequest app cfg token (bridgeEvents app (.bearer token) sessionId payload uuid)
  | commands (sessionId incarnation : String) :
      PiRequest app cfg token (bridgeCommands app (.bearer token) sessionId incarnation)
  | commandAck (sessionId commandId incarnation : String) :
      PiRequest app cfg token (bridgeCommandAck app (.bearer token) sessionId commandId incarnation)
  | orchestratorSend (message : String) : PiRequest app cfg token (orchestratorSend app cfg (.bearer token) message)
  | sessionSend (sessionId message : String) :
      PiRequest app cfg token (sessionSend app cfg (.bearer token) sessionId message)
  | projectSend (projectName message : String) :
      PiRequest app cfg token (projectSend app cfg (.bearer token) projectName message)
  | interrupt (sessionId : String) : PiRequest app cfg token (sessionInterrupt app (.bearer token) sessionId)
  | configure (sessionId provider model thinkingLevel : String) :
      PiRequest app cfg token (sessionConfigure app (.bearer token) sessionId provider model thinkingLevel)
  | askPm (sessionId question : String) : PiRequest app cfg token
    (sessionAskPm app (.bearer token) sessionId question)
  | notifyPm (sessionId note : String) : PiRequest app cfg token
    (sessionNotifyPm app (.bearer token) sessionId note)
  | taskCreate (projectName branch briefing : String) :
      PiRequest app cfg token (projectTaskCreate app cfg (.bearer token) projectName branch briefing)
  | teardown (sessionId : String) (force : Bool) :
      PiRequest app cfg token (sessionTeardown app cfg (.bearer token) sessionId force)
  | submitPr (sessionId summary : String) :
      PiRequest app cfg token (sessionSubmitPr app cfg (.bearer token) sessionId summary)

variable {app : AppState} {cfg : FleetConfig} {token : String} {d d' : Tables} {caller : PiSession} {S : Scope}
  {p : FleetM Unit}

/-- Requests of a task stay within the scope of the task. -/
theorem sends_task (hs : Serving app token d caller (taskScope d caller)) (hrole : caller.role = "task")
    (hp : PiRequest app cfg token p) : Sends (taskScope d caller) d Any p := by
  have hrefused : ∀ {α : Type} {allowed : List String} {f : Option PiSession → FleetM α} {R : α → Prop},
      "task" ∉ allowed → Sends (taskScope d caller) d R ((authorize app allowed (.bearer token)).bind f) :=
    fun h => sends_refused hs (hrole ▸ h)
  have hpm : ∀ {α : Type} {f : PiSession → FleetM α} {R : α → Prop},
      Sends (taskScope d caller) d R ((authorizePm app (.bearer token)).bind f) := by
    intro α f R
    exact Prog.Issues.bind (R := fun _ => False) (hrefused (by decide)) fun _ hn => hn.elim
  cases hp with
  | register payload uuid => exact sends_bridgeRegister hs payload uuid
  | events sessionId payload uuid => exact sends_bridgeEvents hs sessionId payload uuid
  | commands sessionId incarnation => exact sends_bridgeCommands hs sessionId incarnation
  | commandAck sessionId commandId incarnation => exact sends_bridgeCommandAck hs sessionId commandId incarnation
  | orchestratorSend message => exact hrefused (by decide)
  | sessionSend sessionId message => exact hrefused (by decide)
  | projectSend projectName message => exact hrefused (by decide)
  | interrupt sessionId => exact hrefused (by decide)
  | configure sessionId provider model thinkingLevel => exact hrefused (by decide)
  | askPm sessionId question => exact sends_sessionAskPm hs sessionId question
  | notifyPm sessionId note => exact sends_sessionNotifyPm hs sessionId note
  | taskCreate projectName branch briefing => exact hpm
  | teardown sessionId force => exact hpm
  | submitPr sessionId summary => exact hpm

/-- Requests of a manager stay within the scope of the manager. -/
theorem sends_manager (hn : (d.sessions.map (·.id)).Nodup) (hs : Serving app token d caller (managerScope d caller))
    (hrole : caller.role = "pm") (hp : PiRequest app cfg token p) : Sends (managerScope d caller) d Any p := by
  have hrefused : ∀ {α : Type} {allowed : List String} {f : Option PiSession → FleetM α} {R : α → Prop},
      "pm" ∉ allowed → Sends (managerScope d caller) d R ((authorize app allowed (.bearer token)).bind f) :=
    fun h => sends_refused hs (hrole ▸ h)
  have htask : ∀ {α : Type} {f : PiSession → FleetM α} {R : α → Prop} (sessionId refusal : String),
      Sends (managerScope d caller) d R ((authorizeTask app (.bearer token) sessionId refusal).bind f) := by
    intro α f R sessionId refusal
    exact Prog.Issues.bind (R := fun _ => False) (hrefused (by decide)) fun _ hn => hn.elim
  cases hp with
  | register payload uuid => exact sends_bridgeRegister hs payload uuid
  | events sessionId payload uuid => exact sends_bridgeEvents hs sessionId payload uuid
  | commands sessionId incarnation => exact sends_bridgeCommands hs sessionId incarnation
  | commandAck sessionId commandId incarnation => exact sends_bridgeCommandAck hs sessionId commandId incarnation
  | orchestratorSend message => exact sends_orchestratorSend hn hs hrole message
  | sessionSend sessionId message => exact sends_sessionSend hn hs hrole sessionId message
  | projectSend projectName message => exact hrefused (by decide)
  | interrupt sessionId => exact sends_sessionInterrupt hs hrole sessionId
  | configure sessionId provider model thinkingLevel => exact hrefused (by decide)
  | askPm sessionId question => exact htask sessionId _
  | notifyPm sessionId note => exact htask sessionId _
  | taskCreate projectName branch briefing => exact sends_projectTaskCreate hs projectName branch briefing
  | teardown sessionId force => exact sends_sessionTeardown hs sessionId force
  | submitPr sessionId summary => exact sends_sessionSubmitPr hs sessionId summary

/-- Requests with the token start at any time, and so do reports of the bridges of the sessions that
they have launched; whatever an await answers, a failure or a cancellation, is allowed. -/
def Requests (app : AppState) (cfg : FleetConfig) (token : String) (d : Tables) : FleetPool → FleetEvent → Prop
  | _, .spawn p => PiRequest app cfg token p ∨ ∃ op, p = Prog.await (.request op)
  | c, .go t _ => ∀ op k held, c.threads[t]? = some ⟨.perform (.request op) k, held⟩ → Reports d c.state.db op
  | _, _ => True

variable {c : FleetPool}

theorem confined_of_requests (hs : Serving app token d caller S)
    (hsends : ∀ p, PiRequest app cfg token p → Sends S d Any p)
    (hc : Pool.Reachable fleetInterp (Requests app cfg token d) { db := d, durable := d' } c) :
    Confined S d c.state.db := by
  refine (Pool.Reachable.issues (V := Answers S d) (P := Within S d) (J := fun s : FleetWorld => Confined S d s.db)
    (.refl S d) (fun c p hp _ => ?_) (fun c t w β e k held s b hok ht hconf hwithin hh => ?_) hc).1
  · rcases hp with hp | ⟨op, rfl⟩
    · exact hsends p hp
    · exact .await trivial fun _ _ => trivial
  · refine ⟨answers_of_handle hconf hh, confined_of_handle hs.sound hconf hwithin ?_ hh⟩
    cases e with
    | request op => exact hok op k held ht
    | _ => trivial

/-- Whatever one token asks for: a task writes its own rows and prompts to its manager, a manager its
own rows, those of its tasks and of what it launches, and prompts to orchestrators, one of which it
may give up when it waits for its launch. -/
theorem agent_token_writes (hn : (d.sessions.map (·.id)).Nodup)
    (hcaller : requireRole app bridgeRoles (.bearer token) d = .ok (some caller))
    (hc : Pool.Reachable fleetInterp (Requests app cfg token d) { db := d, durable := d' } c) :
    (caller.role = "task" → Confined (taskScope d caller) d c.state.db) ∧
      (caller.role = "pm" → Confined (managerScope d caller) d c.state.db) := by
  refine ⟨fun hrole => ?_, fun hrole => ?_⟩
  · have hs := serving_task hcaller
    exact confined_of_requests hs (fun p hp => sends_task hs hrole hp) hc
  · have hs := serving_manager hn hcaller hrole
    exact confined_of_requests hs (fun p hp => sends_manager hn hs hrole hp) hc

def soloApp : AppState where
  sha256 := fun token => token

/-- A manager with its task, and an orchestrator that somebody else is launching. -/
def teamTables : Tables where
  sessions :=
    [{ id := "orchestrator", role := "orchestrator", state := .starting, host := "desktop",
        metaData := [("machine", .str "desktop"), ("pane_id", .str "pane"), ("project", .str ""),
          ("cache_dir", .str "/home/u/.cache/worker-harness/orchestrator")] },
      { id := "manager", role := "pm", tokenHash := "manager-token", metaData := [("project", .str "p")] },
      { id := "task", role := "task", tokenHash := "task-token", parentSessionId := some "manager",
        metaData := [("project", .str "p")] }]

theorem caller_of_token {token id role : String}
    (h : (match requireRole soloApp bridgeRoles (.bearer token) teamTables with
      | .ok (some caller) => some (caller.id, caller.role)
      | _ => none) = some (id, role)) :
    ∃ caller, requireRole soloApp bridgeRoles (.bearer token) teamTables = .ok (some caller) ∧ caller.id = id ∧
      caller.role = role := by
  split at h
  · next caller hrequire =>
    simp only [Option.some.injEq, Prod.mk.injEq] at h
    exact ⟨caller, hrequire, h.1, h.2⟩
  · cases h

/-- The task reports to its manager. -/
def notification : List FleetEvent :=
  .spawn (sessionNotifyPm soloApp (.bearer "task-token") "task" "finished") ::
    answers 0 [.done, .done, .number 2, .text "command", .done, .text "event", .done]

theorem requests_answers {t : ℕ} {ws : List FleetAnswer} {ev : FleetEvent} (hev : ev ∈ answers t ws) :
    ∃ w, ev = .go t w := by
  obtain ⟨w, -, rfl⟩ := List.mem_map.mp hev
  exact ⟨w, rfl⟩

/-- A run of one request, in which no bridge reports. -/
theorem reachable_of_checkedRun {ws : List FleetAnswer} (hp : PiRequest app cfg token p)
    (hrun : Pool.checkedRun fleetInterp (fun c _ => c.threads.all fun th => match th.prog with
      | .perform (.request _) _ => false
      | _ => true) ⟨{ db := d, durable := d' }, []⟩ (.spawn p :: answers 0 ws) = some c) :
    Pool.Reachable fleetInterp (Requests app cfg token d) { db := d, durable := d' } c := by
  refine Pool.Reachable.checkedRun .init (fun c ev hev htest => ?_) hrun
  rcases List.mem_cons.mp hev with rfl | hev
  · exact .inl hp
  · obtain ⟨w, rfl⟩ := requests_answers hev
    intro op k held ht
    have hnone := List.all_eq_true.mp htest _ (List.mem_of_getElem? ht)
    cases hnone

theorem agent_token_writes_notification : ∃ (c : FleetPool) (caller : PiSession),
    (c.state.db.commands.map fun command => (command.sessionId, command.message)) =
        [("manager", "Task task reports: finished")] ∧
      caller.role = "task" ∧ Confined (taskScope teamTables caller) teamTables c.state.db := by
  have hrun : (Pool.checkedRun fleetInterp (fun c _ => c.threads.all fun th => match th.prog with
      | .perform (.request _) _ => false
      | _ => true) ⟨{ db := teamTables, durable := teamTables }, []⟩ notification).map
        (fun c => c.state.db.commands.map fun command => (command.sessionId, command.message)) =
      some [("manager", "Task task reports: finished")] := by decide +kernel
  obtain ⟨c, hc, hobs⟩ := Option.map_eq_some_iff.mp hrun
  have hreach : Pool.Reachable fleetInterp (Requests soloApp soloFleet "task-token" teamTables)
      { db := teamTables, durable := teamTables } c := reachable_of_checkedRun (.notifyPm _ _) hc
  obtain ⟨caller, hrequire, -, hrole⟩ := @caller_of_token "task-token" "task" "task" (by decide)
  exact ⟨c, caller, hobs, hrole, (agent_token_writes (by decide) hrequire hreach).1 hrole⟩

def impatience : List FleetEvent :=
  .spawn (orchestratorSend soloApp soloFleet (.bearer "manager-token") "hello") ::
    answers 0 [.done, .done, .done, .done, .number 1, .done, .done, .text "silence", .number 2, .done]

theorem not_confined_impatience {e : Tables} (hfailed : e.sessions.head?.map (·.state) = some .failed)
    (hid : caller.id = "manager") :
    ¬Confined { managerScope teamTables caller with waits := fun _ => False } teamTables e := by
  intro hconf
  obtain ⟨f, new, hold, hchanges, -⟩ := hconf.sessions
  rw [hold] at hfailed
  have hstate := Option.some_inj.mp hfailed
  generalize hrow : f _ = row at hstate
  have hchange := hchanges _ (List.mem_cons_self ..)
  rw [hrow] at hchange
  cases hchange with
  | same => cases hstate
  | own hme => exact absurd (hme.trans hid) (by decide)
  | served hserves =>
    rcases hserves with hf | ⟨r, hr, hrid, hown⟩
    · exact hf (by decide)
    · have hfirst : ∀ r ∈ teamTables.sessions, r.id = "orchestrator" → r.role ≠ "task" := by decide
      exact hfirst r hr hrid hown.role
  | prompted => cases hstate
  | givenUp _ _ _ hwaits => exact hwaits

/-- A manager may also fail the launch of an orchestrator that it waits for. -/
theorem not_manager_writes : ¬∀ (app : AppState) (cfg : FleetConfig) (token : String) (d d' : Tables)
    (caller : PiSession)
    (c : FleetPool), (d.sessions.map (·.id)).Nodup →
      requireRole app bridgeRoles (.bearer token) d = .ok (some caller) →
      Pool.Reachable fleetInterp (Requests app cfg token d) { db := d, durable := d' } c →
      (caller.role = "task" → Confined (taskScope d caller) d c.state.db) ∧
        (caller.role = "pm" → Confined { managerScope d caller with waits := fun _ => False } d c.state.db) := by
  intro h
  have hrun : (Pool.checkedRun fleetInterp (fun c _ => c.threads.all fun th => match th.prog with
      | .perform (.request _) _ => false
      | _ => true) ⟨{ db := teamTables, durable := teamTables }, []⟩ impatience).map
        (fun c => c.state.db.sessions.head?.map (·.state)) = some (some .failed) := by decide +kernel
  obtain ⟨c, hc, hobs⟩ := Option.map_eq_some_iff.mp hrun
  obtain ⟨caller, hrequire, hid, hrole⟩ := @caller_of_token "manager-token" "manager" "pm" (by decide)
  have hconf := h soloApp soloFleet "manager-token" teamTables teamTables caller c (by decide) hrequire
    (reachable_of_checkedRun (.orchestratorSend _) hc)
  exact not_confined_impatience hobs hid (hconf.2 hrole)

end WorkerHarness.AgentTokens
