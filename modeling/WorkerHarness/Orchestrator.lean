import WorkerHarness.DataCopies
import WorkerHarness.FleetEffects

/-!
# The orchestrator

The methods of `orchestration.py` as coroutines, in the order of the source. An exception handler
is a coroutine too and can itself be interrupted. A session object is the row that the method
holds; of the fields that the source changes on it afterwards none is read again.
-/

namespace WorkerHarness

open Coroutines Database LiveSessions
open DataCopies (shlexQuote)

/-- `str(session.meta.get(key) or "")`, where the members that are read hold texts. -/
def PiSession.metaText (s : PiSession) (key : String) : String := (s.metaData.getStr key).getD ""

def fleetSource : String := "worker-harness:fleet"

namespace Orchestrator

/-- `except _REMOTE_ERRORS`. -/
def exceptRemote {α : Type} (p : FleetM α) (handler : FleetError → FleetM α) : FleetM α :=
  p.catching fun e => if e.remote then handler e else .raise e

def remote (sessionId : String) (machine : Machine) (command : RemoteCommand) : FleetM Unit :=
  Prog.await (.remote sessionId machine.name command)

def write (op : SessionOp) : FleetM Unit := Prog.await (.write op)

def query {β : Type} (q : Tables → β) : FleetM β := Prog.await (.query q)

/-- `str(session.meta[key])`. -/
def metaItem (session : PiSession) (key : String) : FleetM String :=
  if (session.metaData.get key).isSome then .ret (session.metaText key) else .raise (.keyError key)

def recordEvent (sessionId eventType : String) (payload : JsonObject) : FleetM Unit := do
  let id ← Prog.call .uuid
  let now ← Prog.call .time
  write (.insertEvent
    { id := id, sessionId := sessionId, eventType := eventType, payload := payload, createdAt := now })

def remoteCleanupError (session : PiSession) (operation : String) (error : FleetError) : FleetM Unit :=
  recordEvent session.id "herdr-error" [("operation", .str operation), ("detail", .str error.message)]

def finish (session : PiSession) (state : PiSessionState) (detail : String) : FleetM Unit := do
  let now ← Prog.call .time
  write (.finish session.id state detail now)

def markFailed (session : PiSession) (error : FleetError) (eventType : String) : FleetM Unit := do
  finish session .failed error.message
  recordEvent session.id eventType [("detail", .str error.message), ("error_type", .str error.typeName)]

def nextSequence (session : PiSession) : FleetM Int := Prog.await (.nextPaneSequence session.id)

def enqueueBriefing (session : PiSession) (briefing : String) : FleetM Unit := do
  let now ← Prog.call .time
  let id ← Prog.call .uuid
  write (.enqueue
    { id := id, sessionId := session.id, kind := "prompt", message := briefing,
      deliverAs := "steer", createdAt := now } now)
  recordEvent session.id "prompt-queued" [("command_id", .str id), ("deliver_as", .str "steer")]

/-- Try the names `branch`, `branch-2` and so on, for the given attempts. -/
def createWorktree (sessionId : String) (machine : Machine) (repo branch base : String) :
    List ℕ → FleetM (String × String)
  | [] => .raise (.worktreeError ("could not create worktree for '" ++ branch ++ "' after 5 attempts"))
  | attempt :: attempts => do
    let actualBranch := if attempt = 1 then branch else branch ++ "-" ++ toString attempt
    let path := machine.worktreeDir (repoName repo) (branchSlug actualBranch)
    let result ← (remote sessionId machine (.worktreeAdd repo actualBranch base path)).attempt
    match result with
    | .ok () => return (path, actualBranch)
    | .error (.shimError _) => createWorktree sessionId machine repo branch base attempts
    | .error e => .raise e

def destroyWorktree (sessionId : String) (machine : Machine) (repo path branch : String) : FleetM Unit := do
  (remote sessionId machine (.worktreeRemove repo path)).catching fun
    | .shimError message => .raise (.worktreeError ("could not remove worktree " ++ path ++ ": " ++ message))
    | e => .raise e
  -- A leftover branch is harmless.
  (remote sessionId machine (.branchDelete repo branch)).catching fun
    | .shimError _ => return ()
    | e => .raise e

def sessionMachine (cfg : FleetConfig) (session : PiSession) : FleetM Machine :=
  let name := if session.metaText "machine" = "" then session.host else session.metaText "machine"
  match cfg.machines.find? fun m => m.name = name with
  | some machine => .ret machine
  | none => .raise (.keyError ("session " ++ session.id ++ " references unknown machine '" ++ name ++ "'"))

def cleanupFailedWorktree (cfg : FleetConfig) (session : PiSession) : FleetM Unit :=
  let worktree := session.metaText "worktree"
  let branch := session.metaText "branch"
  if worktree = "" ∨ branch = "" then .ret () else do
    let machine ← sessionMachine cfg session
    (do
        let repo ← metaItem session "repo"
        destroyWorktree session.id machine repo worktree branch).catching fun
      | .worktreeError message => recordEvent session.id "teardown-failed"
          [("operation", .str "destroy-worktree"), ("detail", .str message)]
      | e => .raise e

def closeAfterFailedLaunch (machine : Machine) (session : PiSession) : FleetM Unit := do
  if session.metaText "pane_id" ≠ "" then
    exceptRemote (remote session.id machine (.paneClose (session.metaText "pane_id")))
      (remoteCleanupError session "pane-close")
  exceptRemote (remote session.id machine (.removeFile (session.metaText "cache_dir")))
    (remoteCleanupError session "remove-cache")

def reportState (cfg : FleetConfig) (session : PiSession) (state message : String) : FleetM Unit := do
  let machine ← sessionMachine cfg session
  let sequence ← nextSequence session
  exceptRemote (do
      let paneId ← metaItem session "pane_id"
      remote session.id machine (.reportAgent paneId state fleetSource
        (herdrAgentName session.name) sequence message
        (session.metaText "resume_path"))) fun e => do
    recordEvent session.id "herdr-error"
      [("operation", .str "report-state"), ("state", .str state), ("detail", .str e.message)]
    .raise e

/-- The arguments of `_launch`. -/
structure Launch where
  role : FleetRole
  machine : Machine
  cwd : String
  projectName : String
  repo : String
  remote : String
  baseBranch : String := "main"
  branch : String := ""
  briefing : String := ""
  parentSessionId : Option String := none
  resumePath : Option String := none
  deriving DecidableEq, Repr

structure LaunchSpec where
  role : FleetRole
  machine : Machine
  cwd : String
  projectName : String
  repo : String
  remote : String
  baseBranch : String
  name : String
  label : String
  sessionType : PiSessionType
  promptPath : String
  addDirs : List String
  deriving DecidableEq, Repr

def promptPath (cfg : FleetConfig) (role : FleetRole) : String :=
  cfg.orchestratorRepo ++ "/prompts/" ++
    (if role = .orchestrator then "orchestrator-system.md" else role.text ++ ".md")

def launchSpec (cfg : FleetConfig) (l : Launch) (cwd branch : String) : Except FleetError LaunchSpec :=
  match l.role with
  | .orchestrator => .ok
      { role := .orchestrator, machine := l.machine, cwd := cwd, projectName := "", repo := cwd, remote := "",
        baseBranch := "", name := "orchestrator", label := "orchestrator", sessionType := .globalRouter,
        promptPath := promptPath cfg .orchestrator, addDirs := [] }
  | role =>
    if l.projectName = "" ∨ l.repo = "" then
      .error (.valueError (role.text ++ " launch requires project name and repository"))
    else
      let name := if role = .pm then "pm-" ++ l.projectName else "task-" ++ l.projectName ++ "-" ++
        branchSlug branch
      .ok
        { role := role, machine := l.machine, cwd := cwd, projectName := l.projectName, repo := l.repo,
          remote := l.remote, baseBranch := l.baseBranch, name := name, label := name, sessionType := .interactive,
          promptPath := promptPath cfg role, addDirs := if role = .task then [l.repo] else [] }

def resumable (machine : Machine) (path : String) : Bool :=
  (pathParts (machine.home ++ "/.omp/agent/sessions")).isPrefixOf (pathParts path) &&
    !(pathParts path).contains ".." && hasJsonlSuffix path

def newSession (spec : LaunchSpec) (sessionId tokenHash : String) (parentSessionId : Option String)
    (briefing worktree branch : String) (workspace : Option Workspace) (resumePath : Option String) (now : ℕ) :
    PiSession where
  id := sessionId
  parentSessionId := parentSessionId
  sessionType := spec.sessionType
  role := spec.role.text
  state := .starting
  task := briefing
  name := spec.name
  cwd := spec.cwd
  host := spec.machine.name
  agent := "omp"
  tokenHash := tokenHash
  metaData :=
    let cacheDir := spec.machine.sessionDir sessionId
    [("machine", .str spec.machine.name),
      ("workspace_id", .str (workspace.elim "" Workspace.workspaceId)),
      ("pane_id", .str (workspace.elim "" Workspace.paneId)),
      ("project", .str spec.projectName),
      ("repo", .str spec.repo),
      ("remote", .str spec.remote),
      ("worktree", .str worktree),
      ("branch", .str branch),
      ("resume_path", .str (resumePath.getD "")),
      ("pr_url", .str ""),
      ("cache_dir", .str cacheDir),
      ("paths_file", .str (cacheDir ++ "/sandbox-paths")),
      ("prompt_file", .str (cacheDir ++ "/" ++ spec.role.text ++ "-prompt.md")),
      ("pane_sequence", .num 0)]
  createdAt := now
  updatedAt := now

/-- The loop of `_wait_for_bridge`, for the given number of rounds. -/
def pollBridge (machine : Machine) (session : PiSession) : ℕ → FleetM (Option PiSession)
  | 0 => .ret none
  | rounds + 1 => do
    let current ← query (findSession · session.id)
    match current with
    | some current =>
      if current.state.terminalPm then
        closeAfterFailedLaunch machine current
        .raise (.runtimeError (if current.detail = "" then "agent session " ++ session.id ++
          " stopped during launch"
          else current.detail))
      else if current.bridgeIncarnation.isSome && decide
        (current.bridgeIncarnation ≠ some "") then return some current
      else
        Prog.await .sleep
        pollBridge machine session rounds
    | none =>
      Prog.await .sleep
      pollBridge machine session rounds

def waitForBridge (machine : Machine) (session : PiSession) : FleetM PiSession := do
  let rounds ← Prog.call .rounds
  let arrived ← pollBridge machine session rounds
  match arrived with
  | some current => return current
  | none =>
    let paneOutput ← exceptRemote (do
        let paneId ← metaItem session "pane_id"
        Prog.await (.paneRead machine.name paneId)) fun e => do
      recordEvent session.id "herdr-error" [("operation", .str "pane-read"), ("detail", .str e.message)]
      return "<pane read failed: " ++ e.message ++ ">"
    let detail := "agent session " ++ session.id ++ " did not register within 60 seconds"
    finish session .failed detail
    closeAfterFailedLaunch machine session
    recordEvent session.id "launch-failed" [("detail", .str detail), ("pane_output", .str paneOutput)]
    .raise (.timeoutError detail)

def writeLaunchFiles (cfg : FleetConfig) (l : Launch) (spec : LaunchSpec) (session : PiSession)
    (token prompt : String) :
    FleetM Unit := do
  let command := cfg.launchCommand l.role l.machine (session.metaText "paths_file") session.id token
    (session.metaText "prompt_file") spec.addDirs
  let resume := match l.resumePath with
    | some path => if path = "" then "" else " --resume " ++ shlexQuote path
    | none => ""
  remote session.id l.machine
    (.writeFile (session.metaText "paths_file") (cfg.pathsFileContent l.role l.machine.home))
  remote session.id l.machine (.writeFile (session.metaText "prompt_file") prompt)
  remote session.id l.machine (.writeFile (session.metaText "cache_dir" ++ "/launch.sh")
    (command ++ resume ++ "\n"))

def runAgent (cfg : FleetConfig) (l : Launch) (session : PiSession) : FleetM Unit := do
  remote session.id l.machine (.paneRun (session.metaText "pane_id")
    ("exec /bin/sh " ++ shlexQuote (session.metaText "cache_dir" ++ "/launch.sh")))
  if l.role = .task then enqueueBriefing session l.briefing
  (remote session.id l.machine (.agentRename (session.metaText "pane_id")
    (herdrAgentName session.name))).catching fun
    | .herdrError code message => recordEvent session.id "herdr-error"
        [("operation", .str "agent-rename"), ("code", .str code), ("detail", .str (code ++ ": " ++ message))]
    | e => .raise e
  reportState cfg session "working" ""
  remote session.id l.machine (.reportMetadata (session.metaText "pane_id") fleetSource
    (herdrAgentName session.name)
    ("π " ++ session.name))

/-- The handler of a launch that fails with an exception; `attempted` is `launch_attempted`. -/
def abandonLaunch {α : Type} (cfg : FleetConfig) (l : Launch) (session : PiSession) (attempted : Bool)
    (error : FleetError) : FleetM α := do
  markFailed session error "launch-failed"
  closeAfterFailedLaunch l.machine session
  if session.metaText "worktree" ≠ "" ∧ attempted = false then cleanupFailedWorktree cfg session
  .raise error

def startAgent (cfg : FleetConfig) (l : Launch) (spec : LaunchSpec) (session : PiSession) (token : String) :
    FleetM PiSession := do
  let prompt ← Prog.catching (Prog.await (.readText spec.promptPath)) fun _ =>
    abandonLaunch cfg l session false
      (.runtimeError ("cannot read required " ++ l.role.text ++ " prompt: " ++ spec.promptPath))
  if strip prompt = "" then
    abandonLaunch cfg l session false
      (.runtimeError ("required " ++ l.role.text ++ " prompt is empty: " ++ spec.promptPath))
  else
    -- From `pane_run` on the checkout may contain agent work and is not cleaned up.
    (writeLaunchFiles cfg l spec session token prompt).catching (abandonLaunch cfg l session false)
    (runAgent cfg l session).catching (abandonLaunch cfg l session true)
    (waitForBridge l.machine session).catching fun
      | .cancelledError => do
        markFailed session .cancelledError "launch-failed"
        closeAfterFailedLaunch l.machine session
        .raise .cancelledError
      | e => .raise e

/-- From `workspace_create` on: the worktree of a task exists. -/
def launchIn (cfg : FleetConfig) (l : Launch) (spec : LaunchSpec) (sessionId token worktree branch : String) :
    FleetM PiSession := do
  let created ← (Prog.await (.workspaceCreate l.machine.name spec.cwd spec.label) : FleetM Workspace).attempt
  let now ← Prog.call .time
  match created with
  | .ok workspace =>
    let session := newSession spec sessionId (cfg.sha256 token) l.parentSessionId l.briefing worktree branch
      (some workspace) l.resumePath now
    write (.insert session)
    startAgent cfg l spec session token
  | .error e =>
    if e.remote then
      let session := newSession spec sessionId (cfg.sha256 token) l.parentSessionId l.briefing worktree branch
        none none now
      write (.insert session)
      markFailed session e "launch-failed"
      if worktree ≠ "" then cleanupFailedWorktree cfg session
      .raise e
    else .raise e

def launchTaskIn (cfg : FleetConfig) (l : Launch) (spec : LaunchSpec) (sessionId token : String) :
    FleetM PiSession := do
  let created ← (createWorktree sessionId l.machine l.repo l.branch l.baseBranch [1, 2, 3, 4, 5]).attempt
  match created with
  | .ok (worktree, branch) =>
    let spec ← Prog.ofExcept (launchSpec cfg l worktree branch)
    launchIn cfg l spec sessionId token worktree branch
  | .error (.worktreeError message) =>
    let now ← Prog.call .time
    let session := newSession spec sessionId (cfg.sha256 token) l.parentSessionId l.briefing "" l.branch
      none none now
    write (.insert session)
    markFailed session (.worktreeError message) "launch-failed"
    .raise (.worktreeError message)
  | .error e => .raise e

def launch (cfg : FleetConfig) (l : Launch) : FleetM PiSession :=
  if l.resumePath.any fun path => decide (path ≠ "") && !resumable l.machine path then
    .raise (.valueError "resume path must be a transcript under the target machine's agent sessions")
  else do
    let spec ← Prog.ofExcept (launchSpec cfg l l.cwd l.branch)
    let l := if l.role = .orchestrator then { l with parentSessionId := none, briefing := "" } else l
    let sessionId ← Prog.call .uuid
    let token ← Prog.call .token
    if l.role = .task then launchTaskIn cfg l spec sessionId token
    else launchIn cfg l spec sessionId token "" ""

/-- The transcript that a successor of the sessions continues. -/
def lastResumePath (sessions : List PiSession) : Option String :=
  (sessions.map fun s => s.metaText "resume_path").find? fun path => path ≠ ""

/-- `async with lock:`; the wait for the lock can be cancelled. -/
def locked {α : Type} (lock : FleetLock) (p : FleetM α) : FleetM α :=
  Prog.bind (Prog.await (.enter lock)) fun _ => Prog.withLock lock p

def project (cfg : FleetConfig) (name : String) : FleetM Project :=
  match cfg.projects.find? fun p => p.name = name with
  | some project => .ret project
  | none => .raise (.keyError ("unknown project: " ++ name))

def projectMachine (cfg : FleetConfig) (project : Project) : FleetM Machine :=
  match cfg.machines.find? fun m => m.name = project.machine with
  | some machine => .ret machine
  | none =>
    .raise (.keyError ("project '" ++ project.name ++ "' references unknown machine '" ++ project.machine ++ "'"))

/-- The live session among the given ones, once its bridge has registered. -/
def liveSession (cfg : FleetConfig) (session : PiSession) : FleetM PiSession :=
  if session.state = .starting then do
    let machine ← sessionMachine cfg session
    waitForBridge machine session
  else .ret session

def launchOrchestrator (cfg : FleetConfig) (sessions : List PiSession) : FleetM PiSession :=
  match cfg.machines.find? fun m => m.name = cfg.orchestratorMachine with
  | none => .raise (.keyError ("orchestrator machine '" ++ cfg.orchestratorMachine ++ "' is not configured"))
  | some machine =>
    let repo := if cfg.orchestratorCwd = "" then machine.home ++ "/Work/agent-orchestrator" else cfg.orchestratorCwd
    if repo.toList.head? ≠ some '/' then .raise (.valueError "WH_ORCHESTRATOR_CWD must be an absolute remote path")
    else launch cfg
      { role := .orchestrator, machine := machine, cwd := repo, projectName := "", repo := repo, remote := "",
        baseBranch := "", resumePath := lastResumePath sessions }

/-- `_ensure_orchestrator`. -/
def ensureOrchestratorLocked (cfg : FleetConfig) : FleetM PiSession := do
  let sessions ← query (sessionsByRole · "orchestrator")
  match firstLive sessions with
  | some session => liveSession cfg session
  | none => launchOrchestrator cfg sessions

def ensureOrchestrator (cfg : FleetConfig) : FleetM PiSession := locked .orchestrator (ensureOrchestratorLocked cfg)

def launchPm (cfg : FleetConfig) (project : Project) (sessions : List PiSession) : FleetM PiSession := do
  let machine ← projectMachine cfg project
  let manager ← launch cfg
    { role := .pm, machine := machine, cwd := project.repo, projectName := project.name, repo := project.repo,
      remote := project.remote, baseBranch := project.baseBranch, resumePath := lastResumePath sessions }
  Prog.forEach (fun previous => write (.reparent previous.id manager.id)) sessions
  return manager

/-- `_ensure_pm`. -/
def ensurePmLocked (cfg : FleetConfig) (projectName : String) : FleetM PiSession := do
  let project ← project cfg projectName
  let sessions ← query (projectSessions · projectName)
  match firstLive sessions with
  | some session => liveSession cfg session
  | none => launchPm cfg project sessions

/-- `async with pm_session(project_name) as manager:` around a body. -/
def pmSession {α : Type} (cfg : FleetConfig) (projectName : String) (body : PiSession → FleetM α) : FleetM α := do
  let _ ← project cfg projectName
  locked (.pm projectName) do
    let result ← (ensurePmLocked cfg projectName).attempt
    Prog.call (.ensured projectName result)
    let manager ← Prog.ofExcept result
    body manager

def ensurePm (cfg : FleetConfig) (projectName : String) : FleetM PiSession := pmSession cfg projectName .ret

/-- `_launch_task`. -/
def launchTaskLocked (cfg : FleetConfig) (project : Project) (branch briefing parentSessionId : String) :
    FleetM PiSession := do
  let parent ← query (acceptsParent · project.name parentSessionId)
  match parent with
  | none => .raise (.worktreeError "task parent must be the active manager of its project")
  | some _ => do
    let machine ← projectMachine cfg project
    launch cfg
      { role := .task, machine := machine, cwd := project.repo, projectName := project.name, repo := project.repo,
        remote := project.remote, baseBranch := project.baseBranch, branch := branch, briefing := briefing,
        parentSessionId := some parentSessionId }

def launchTask (cfg : FleetConfig) (project : Project) (branch briefing parentSessionId : String) :
    FleetM PiSession :=
  locked (.pm project.name) (launchTaskLocked cfg project branch briefing parentSessionId)

def releaseAgent (machine : Machine) (session : PiSession) (paneId : String) : FleetM Unit :=
  exceptRemote (do
    let sequence ← nextSequence session
    remote session.id machine (.releaseAgent paneId fleetSource (herdrAgentName session.name) sequence))
    (remoteCleanupError session "release-agent")

def removeCache (machine : Machine) (session : PiSession) : FleetM Unit :=
  exceptRemote (remote session.id machine (.removeFile (session.metaText "cache_dir")))
    (remoteCleanupError session "remove-cache")

/-- `teardown_task` insists on a recorded cache. -/
def removeRecordedCache (machine : Machine) (session : PiSession) : FleetM Unit :=
  exceptRemote (do
      let cacheDir ← metaItem session "cache_dir"
      remote session.id machine (.removeFile cacheDir))
    (remoteCleanupError session "remove-cache")

def destroyRecordedWorktree (machine : Machine) (session : PiSession) : FleetM Unit := do
  let repo ← metaItem session "repo"
  let worktree ← metaItem session "worktree"
  let branch ← metaItem session "branch"
  destroyWorktree session.id machine repo worktree branch

def closeForTeardown (machine : Machine) (session : PiSession) : FleetM Unit :=
  if session.metaText "pane_id" = "" then .ret () else do
    exceptRemote (remote session.id machine (.paneClose (session.metaText "pane_id"))) fun e => do
      remoteCleanupError session "pane-close" e
      .raise (.worktreeError "refusing to remove a worktree while its pane may still run")
    releaseAgent machine session (session.metaText "pane_id")

/-- `teardown_task` behind its checks. -/
def teardownChecked (cfg : FleetConfig) (session : PiSession) (force : Bool) : FleetM Unit := do
  let machine ← sessionMachine cfg session
  closeForTeardown machine session
  (destroyRecordedWorktree machine session).catching fun
    | .worktreeError message => do
      markFailed session (.worktreeError message) "teardown-failed"
      .raise (.worktreeError message)
    | e => .raise e
  removeRecordedCache machine session
  finish session .stopped ""
  recordEvent session.id "stopped" [("force", .other (toString force))]

def teardownTask (cfg : FleetConfig) (session : PiSession) (force : Bool) : FleetM Unit := do
  Prog.call (.teardown session force)
  if session.role ≠ "task" then .raise (.worktreeError ("session " ++ session.id ++ " is not a task session"))
  else if session.metaText "pr_url" = "" ∧ force = false then
    .raise (.worktreeError ("refusing to destroy task session " ++ session.id ++
      " without a PR; pass force=True to override"))
  else teardownChecked cfg session force

def stopSession (cfg : FleetConfig) (session : PiSession) : FleetM Unit := do
  let machine ← sessionMachine cfg session
  let paneId := session.metaText "pane_id"
  if paneId ≠ "" then
    releaseAgent machine session paneId
    exceptRemote (remote session.id machine (.paneClose paneId)) fun e => do
      remoteCleanupError session "pane-close" e
      .raise e
  removeCache machine session
  finish session .stopped ""
  recordEvent session.id "stopped" []

/-- An idle manager without messages and live tasks, silent for the configured time. -/
def retirable (cfg : FleetConfig) (now : ℕ) (tasks : List PiSession) (session : PiSession) : Bool :=
  decide (session.state = .idle) && decide (session.updatedAt + cfg.idleSeconds ≤ now) &&
    !session.hasPendingMessages &&
    !tasks.any fun task => decide (task.parentSessionId = some session.id) && !task.state.terminalPm

def retirePm (cfg : FleetConfig) (now : ℕ) (session : PiSession) : FleetM Unit := do
  let current ← query (findSession · session.id)
  let currentTasks ← query (sessionsByRole · "task")
  match current with
  | some current => if retirable cfg now currentTasks current then stopSession cfg current else .ret ()
  | none => .ret ()

/-- The body of the loop of `poll` for one session. -/
def pollSession (cfg : FleetConfig) (now : ℕ) (tasks : List PiSession) (session : PiSession) : FleetM Unit :=
  if session.state.terminalPm || decide (session.metaText "pane_id" = "") then .ret ()
  else if session.role = "pm" ∧ 0 < cfg.idleSeconds ∧ retirable cfg now tasks session = true then do
    let projectName ← metaItem session "project"
    if cfg.projects.any fun p => p.name = projectName then locked (.pm projectName) (retirePm cfg now session)
    else .raise (.keyError projectName)
  else
    reportState cfg session (if session.state = .idle then "idle" else "working")
      (if session.question = "" then session.detail else session.question)

def poll (cfg : FleetConfig) : FleetM Unit := do
  let now ← Prog.call .time
  let tasks ← query (sessionsByRole · "task")
  let orchestrators ← query (sessionsByRole · "orchestrator")
  let managers ← query (sessionsByRole · "pm")
  Prog.forEach (fun session => (pollSession cfg now tasks session).catching fun
    | .cancelledError => .raise .cancelledError
    | _ => return ()) (orchestrators ++ managers ++ tasks)

end Orchestrator

end WorkerHarness
