import WorkerHarness.Orchestrator

/-!
# Requests about Pi sessions

The handlers under `/api/v1/pi` that change sessions, each with the check of its caller. What a
handler answers to the client on success is left out; a refusal is the exception of the handler.
-/

namespace WorkerHarness.FleetRoutes

open Coroutines Database Orchestrator

def refuse {α : Type} (statusCode : ℕ) (detail : String) : FleetM α := .raise (.httpException ⟨statusCode, detail⟩)

/-- `Depends(require_role(...))`. -/
def authorize (app : AppState) (allowed : List String) (authorization : Authorization) :
    FleetM (Option PiSession) := do
  let caller ← query (requireRole app allowed authorization)
  Prog.ofExcept (caller.mapError .httpException)

def bridgeRoles : List String := ["operator", "orchestrator", "pm", "task"]

/-- The caller of a bridge route, who may only speak for itself. -/
def authorizeBridge (app : AppState) (authorization : Authorization) (sessionId : String) :
    FleetM (Option PiSession) := do
  let caller ← authorize app bridgeRoles authorization
  if caller.any fun c => c.id ≠ sessionId then refuse 403 "session token does not match bridge session"
  else return caller

/-- The answers to what a bridge method raises. -/
def bridgeError (e : FleetError) : FleetM Unit :=
  match e with
  | .database (.keyError _) => refuse 404 "interactive Pi session not found"
  | .database (.permissionError message) => refuse 409 message
  | e => .raise e

def ownTranscript (cfg : FleetConfig) (caller : PiSession) (resumePath : String) : Bool :=
  let name := if caller.metaText "machine" = "" then caller.host else caller.metaText "machine"
  (cfg.machines.find? fun m => m.name = name).any fun machine => resumable machine resumePath

def bridgeRegister (app : AppState) (cfg : FleetConfig) (authorization : Authorization) (payload : PiBridgeRegister)
    (uuid : ℕ → String) : FleetM Unit := do
  let caller ← authorizeBridge app authorization payload.sessionId
  if payload.resumePath ≠ "" ∧ (caller.any fun c => !ownTranscript cfg c payload.resumePath) = true then
    refuse 403 "transcript path is outside the agent session directory"
  else
    let now ← Prog.call .time
    (write (.register payload now uuid)).catching fun
      | .database (.valueError message) => refuse 409 message
      | e => .raise e
    let id ← Prog.call .uuid
    write (.insertEvent
      { id := id, sessionId := payload.sessionId, eventType := "bridge-registered",
        payload := [("incarnation", .str payload.incarnation), ("host", .str payload.host)], createdAt := now })

def bridgeEvents (app : AppState) (authorization : Authorization) (sessionId : String)
    (payload : PiBridgeEventBatch)
    (uuid : ℕ → String) : FleetM Unit := do
  let _ ← authorizeBridge app authorization sessionId
  let now ← Prog.call .time
  (write (.events sessionId payload now uuid)).catching bridgeError

/-- One claim and then, while nothing is claimed and the clock allows it, further ones. -/
def claimRounds (sessionId incarnation : String) : ℕ → FleetM Unit
  | 0 => do
    let now ← Prog.call .time
    (write (.claim sessionId incarnation now 30)).catching bridgeError
  | rounds + 1 => do
    let now ← Prog.call .time
    (write (.claim sessionId incarnation now 30)).catching bridgeError
    Prog.await .sleep
    claimRounds sessionId incarnation rounds

def bridgeCommands (app : AppState) (authorization : Authorization) (sessionId incarnation : String) :
    FleetM Unit := do
  let _ ← authorizeBridge app authorization sessionId
  let rounds ← Prog.call .rounds
  claimRounds sessionId incarnation rounds

def bridgeCommandAck (app : AppState) (authorization : Authorization) (sessionId commandId incarnation : String) :
    FleetM Unit := do
  let _ ← authorizeBridge app authorization sessionId
  let now ← Prog.call .time
  (write (.ack sessionId commandId incarnation now)).catching bridgeError

def senderId (caller : Option PiSession) : String := caller.elim "" PiSession.id

def enqueueCommand (target : PiSession) (command : String → ℕ → PiSessionCommand) (eventType : String)
    (payload : String → JsonObject) : FleetM Unit := do
  let now ← Prog.call .time
  let commandId ← Prog.call .uuid
  write (.enqueue (command commandId now) now)
  let id ← Prog.call .uuid
  write (.insertEvent
    { id := id, sessionId := target.id, eventType := eventType, payload := payload commandId, createdAt := now })

def enqueuePrompt (target : PiSession) (message deliverAs : String) (caller : Option PiSession) : FleetM Unit :=
  if strip message = "" then refuse 422 "message must not be empty"
  else enqueueCommand target
    (fun id now =>
      { id := id, sessionId := target.id, kind := "prompt", message := strip message, deliverAs := deliverAs,
        payload := [("sender_session_id", .str (senderId caller))], createdAt := now })
    "prompt-queued" fun commandId =>
      [("command_id", .str commandId), ("deliver_as", .str deliverAs),
        ("sender_session_id", .str (senderId caller))]

/-- `except Exception`: answer 503; a cancellation passes. -/
def unavailable {α : Type} (what : String) (p : FleetM α) : FleetM α :=
  p.catching fun
    | .cancelledError => .raise .cancelledError
    | e => refuse 503 ("could not launch " ++ what ++ ": " ++ e.message)

def orchestratorSend (app : AppState) (cfg : FleetConfig) (authorization : Authorization) (message : String) :
    FleetM Unit := do
  let caller ← authorize app ["operator", "pm"] authorization
  let session ← unavailable "orchestrator session" (ensureOrchestrator cfg)
  enqueuePrompt session message "steer" caller

/-- `caller.meta.get("project")` is set and the target has the same. -/
def sameProject (caller target : PiSession) : Bool :=
  decide (caller.metaText "project" ≠ "") && decide (target.project = caller.project)

/-- Whether the caller may message the target; `none` when it may. -/
def sendRefusal (caller target : PiSession) : Option String :=
  if caller.role = "orchestrator" then
    if target.role = "pm" then none else some "orchestrator may only message project managers"
  else if caller.role = "pm" then
    if target.role = "task" ∧ target.parentSessionId = some caller.id then
      if sameProject caller target then none else some "cross-project target"
    else if target.role = "orchestrator" then none
    else some "project manager may only message its own tasks or the orchestrator"
  else none

def sessionSend (app : AppState) (cfg : FleetConfig) (authorization : Authorization) (sessionId message : String) :
    FleetM Unit := do
  let caller ← authorize app ["operator", "orchestrator", "pm"] authorization
  let target ← query (findSession · sessionId)
  match target with
  | none => refuse 404 "Pi session not found"
  | some target =>
    match caller.bind (sendRefusal · target) with
    | some detail => refuse 403 detail
    | none =>
      if target.role = "pm" then do
        let projectName ← metaItem target "project"
        pmSession cfg projectName fun manager => enqueuePrompt manager message "steer" caller
      else enqueuePrompt target message "steer" caller

def projectSend (app : AppState) (cfg : FleetConfig) (authorization : Authorization)
    (projectName message : String) :
    FleetM Unit := do
  let caller ← authorize app ["operator", "orchestrator"] authorization
  if cfg.projects.any fun p => p.name = projectName then
    unavailable ("project manager for " ++ projectName)
      (pmSession cfg projectName fun manager => enqueuePrompt manager message "steer" caller)
  else refuse 404 "project not found"

def interruptRefusal (caller target : PiSession) : Option String :=
  if caller.role = "orchestrator" then
    if target.role = "pm" then none else some "orchestrator may only interrupt project managers"
  else if caller.role = "pm" then
    if target.role = "task" ∧ target.parentSessionId = some caller.id then
      if sameProject caller target then none else some "cross-project target"
    else some "project manager may only interrupt its own tasks"
  else none

/-- A bridge can act on a command of the operator now. -/
def bridgeActive (target : PiSession) : Bool :=
  target.sessionType.bridgeBacked && target.bridgeIncarnation.isSome &&
    decide (target.bridgeIncarnation ≠ some "") &&
    (decide (target.state = .working) || decide (target.state = .idle) || decide (target.state = .blocked))

def sessionInterrupt (app : AppState) (authorization : Authorization) (sessionId : String) : FleetM Unit := do
  let caller ← authorize app ["operator", "orchestrator", "pm"] authorization
  let target ← query (findSession · sessionId)
  match target with
  | none => refuse 404 "Pi session not found"
  | some target =>
    match caller.bind (interruptRefusal · target) with
    | some detail => refuse 403 detail
    | none =>
      if bridgeActive target then
        enqueueCommand target
          (fun id now => { id := id, sessionId := target.id, kind := "interrupt", createdAt := now })
          "interrupt-queued" fun commandId =>
            [("command_id", .str commandId), ("sender_session_id", .str (senderId caller))]
      else refuse 409 "interactive Pi bridge is not active"

/-- The members of a configure command. -/
def configuration (provider model thinkingLevel : String) : JsonObject :=
  (if provider ≠ "" ∧ model ≠ "" then [("provider", .str (strip provider)),
    ("model", .str (strip model))] else []) ++
    if thinkingLevel ≠ "" then [("thinking_level", .str thinkingLevel)] else []

def sessionConfigure (app : AppState) (authorization : Authorization)
    (sessionId provider model thinkingLevel : String) :
    FleetM Unit := do
  let _ ← authorize app ["operator"] authorization
  let target ← query (findSession · sessionId)
  match target.filter bridgeActive with
  | none => refuse 409 "interactive Pi bridge is not active"
  | some target =>
    if decide (provider = "") ≠ decide (model = "") then refuse 422 "provider and model must be set together"
    else if provider = "" ∧ thinkingLevel = "" then refuse 422 "model or thinking_level is required"
    else if provider ≠ "" ∧ (256 < provider.length ∨ strip provider = "") then refuse 422 "invalid provider"
    else if model ≠ "" ∧ (256 < model.length ∨ strip model = "") then refuse 422 "invalid model"
    else
      let members := configuration provider model thinkingLevel
      enqueueCommand target
        (fun id now =>
          { id := id, sessionId := target.id, kind := "configure", payload := members, createdAt := now })
        "configure-queued" fun commandId => ("command_id", .str commandId) :: members

def authorizeTask (app : AppState) (authorization : Authorization) (sessionId refusal : String) :
    FleetM PiSession := do
  let caller ← authorize app ["task"] authorization
  match caller with
  | none => refuse 403 refusal
  | some caller => if caller.id = sessionId then return caller else refuse 403 refusal

def taskParent (caller : PiSession) : FleetM PiSession := do
  let parent ← query (findSession · (caller.parentSessionId.getD ""))
  match parent with
  | none => refuse 403 "task has no project manager"
  | some parent =>
    if parent.role ≠ "pm" then refuse 403 "task has no project manager"
    else if sameProject caller parent then return parent
    else refuse 403 "cross-project parent"

def sessionAskPm (app : AppState) (authorization : Authorization) (sessionId question : String) : FleetM Unit := do
  let caller ← authorizeTask app authorization sessionId "task may only block its own session"
  let parent ← taskParent caller
  if strip question = "" then refuse 422 "question must not be empty"
  else
    let now ← Prog.call .time
    let id ← Prog.call .uuid
    (write (.block caller.id (strip question) id now)).catching fun
      | .database (.valueError message) => refuse 409 message
      | e => .raise e
    enqueuePrompt parent ("Task " ++ caller.id ++ " asks: " ++ strip question) "followUp" (some caller)

def sessionNotifyPm (app : AppState) (authorization : Authorization) (sessionId note : String) : FleetM Unit := do
  let caller ← authorizeTask app authorization sessionId "task may only notify from its own session"
  let parent ← taskParent caller
  if strip note = "" then refuse 422 "note must not be empty"
  else enqueuePrompt parent ("Task " ++ caller.id ++ " reports: " ++ strip note) "followUp" (some caller)

/-- The caller of a route that only managers use. -/
def authorizePm (app : AppState) (authorization : Authorization) : FleetM PiSession := do
  let caller ← authorize app ["pm"] authorization
  match caller with
  | none => refuse 403 "operator is not allowed"
  | some caller => return caller

def projectTaskCreate (app : AppState) (cfg : FleetConfig) (authorization : Authorization)
    (projectName branch briefing : String) : FleetM Unit := do
  let caller ← authorizePm app authorization
  if caller.project ≠ some (.str projectName) then refuse 403 "cross-project task launch"
  else match cfg.projects.find? fun p => p.name = projectName with
    | none => refuse 404 "project not found"
    | some project =>
      if strip branch = "" ∨ strip briefing = "" then refuse 422 "branch and briefing must not be empty"
      else
        let _ ← launchTask cfg project (strip branch) (strip briefing) caller.id
        return ()

/-- `own_task`: why the task is not the caller's; `none` when it is. -/
def ownTask (caller task : PiSession) : Option String :=
  if task.role ≠ "task" ∨ task.parentSessionId ≠ some caller.id then some "project manager does not own task"
  else if sameProject caller task then none
  else some "cross-project task"

def ownedTask (caller : PiSession) (sessionId : String) : FleetM PiSession := do
  let task ← query (findSession · sessionId)
  match task with
  | none => refuse 404 "Pi session not found"
  | some task =>
    match ownTask caller task with
    | some detail => refuse 403 detail
    | none => return task

def sessionTeardown (app : AppState) (cfg : FleetConfig) (authorization : Authorization) (sessionId : String)
    (force : Bool) : FleetM Unit := do
  let caller ← authorizePm app authorization
  let task ← ownedTask caller sessionId
  (teardownTask cfg task force).catching fun
    | .worktreeError message => refuse 409 message
    | e => .raise e

def sessionSubmitPr (app : AppState) (cfg : FleetConfig) (authorization : Authorization)
    (sessionId summary : String) :
    FleetM Unit := do
  let caller ← authorizePm app authorization
  let task ← ownedTask caller sessionId
  match cfg.projects.find? fun p => p.name = task.metaText "project" with
  | none => refuse 409 "task launch metadata is incomplete"
  | some project =>
    let machineName := if task.metaText "machine" = "" then project.machine else task.metaText "machine"
    match cfg.machines.find? fun m => m.name = machineName with
    | none => refuse 409 "task launch metadata is incomplete"
    | some machine =>
      let url ← Prog.catching (Prog.await
          (.openPr machine.name project (task.metaText "branch") (task.metaText "worktree") summary task.id)) fun
        | .prRejected message => refuse 422 message
        | e => .raise e
      write (.patch task.id [("pr_url", .str url)])

end WorkerHarness.FleetRoutes
