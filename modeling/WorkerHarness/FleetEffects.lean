import WorkerHarness.LiveSessions
import WorkerHarness.SessionStatements
import WorkerHarness.CoroutineEffects
import Mathlib.Data.List.DropRight

/-!
# What the orchestrator asks of its surroundings

The methods of `orchestration.py` wait for the database, for commands on remote machines, for
files, the clock and fresh ids. Each of these awaits is an effect. Its answer comes from outside
and may be an exception instead, a cancellation for example; a database call that fails may have
executed some of its statements, and a remote command may have been carried out.
-/

namespace WorkerHarness

open Coroutines SharedTransactions Database

/-- The characters that `str.strip` removes. -/
def isSpace (c : Char) : Bool :=
  [9, 10, 11, 12, 13, 28, 29, 30, 31, 32, 133, 160, 5760, 8192, 8193, 8194, 8195, 8196, 8197, 8198, 8199, 8200,
    8201, 8202, 8232, 8233, 8239, 8287, 12288].contains c.toNat

/-- `s.strip()`. -/
def strip (s : String) : String := String.ofList ((s.toList.dropWhile isSpace).rdropWhile isSpace)

/-- `s.rstrip("/")`. -/
def rstripSlash (s : String) : String := String.ofList (s.toList.rdropWhile (· = '/'))

/-- `repo.rstrip("/").rsplit("/", 1)[-1]`. -/
def repoName (repo : String) : String := String.ofList (((rstripSlash repo).toList.splitOn '/').getLastD [])

/-- `branch.replace("/", "-")`. -/
def branchSlug (branch : String) : String := String.ofList (branch.toList.map fun c => if c = '/' then '-' else c)

/-- The parts of a `PurePosixPath`: its root, if it has one, and its names other than `.`. -/
def pathParts (path : String) : List String :=
  let root := path.toList.takeWhile (· = '/')
  let names := ((path.toList.splitOn '/').map String.ofList).filter fun name => name ≠ "" ∧ name ≠ "."
  if root = [] then names else if root.length = 2 then "//" :: names else "/" :: names

/-- `path.suffix == ".jsonl"`. -/
def hasJsonlSuffix (path : String) : Bool :=
  let name := ((pathParts path).getLastD "").toList
  ".jsonl".toList.isSuffixOf name && decide (6 < name.length) && decide (name ≠ ['/'])

/-- `str.lower`, where it gives ASCII: no other character is in the grammar of terminal labels. -/
def lowered (c : Char) : List Char :=
  if c = '\u0130' then ['i', '\u0307'] else if c = '\u212a' then ['k'] else [c.toLower]

def labelSafe (c : Char) : Bool := ('a' ≤ c && c ≤ 'z') || ('0' ≤ c && c ≤ '9') || c = '_' || c = '-'

/-- Each run of characters that are not safe becomes one dash; the answer says whether it starts with such a run. -/
def dashed : List Char → List Char × Bool
  | [] => ([], false)
  | c :: rest =>
    let (cleaned, inRun) := dashed rest
    if labelSafe c then (c :: cleaned, false) else (if inRun then cleaned else '-' :: cleaned, true)

/-- `herdr_agent_name`. -/
def herdrAgentName (name : String) : String :=
  let cleaned := ((dashed (name.toList.flatMap lowered)).1.dropWhile (· = '-')).rdropWhile (· = '-')
  let started := match cleaned with
    | c :: _ => if 'a' ≤ c && c ≤ 'z' then cleaned else 'a' :: cleaned
    | [] => ['a']
  let short := (started.take 32).rdropWhile fun c => c = '-' || c = '_'
  if short = [] then "agent" else String.ofList short

example : herdrAgentName "-2A!-b/" = "a2a--b" := by decide

inductive FleetRole where
  | orchestrator | pm | task
  deriving DecidableEq, Repr

def FleetRole.text : FleetRole → String
  | .orchestrator => "orchestrator"
  | .pm => "pm"
  | .task => "task"

structure Machine where
  name : String
  home : String
  deriving DecidableEq, Repr

namespace Machine

def cacheRoot (m : Machine) : String := rstripSlash m.home ++ "/.cache/worker-harness"

def sessionDir (m : Machine) (sessionId : String) : String := m.cacheRoot ++ "/" ++ sessionId

def worktreeDir (m : Machine) (repo slug : String) : String := m.cacheRoot ++ "/worktrees/" ++ repo ++ "/" ++ slug

end Machine

structure Project where
  name : String
  machine : String
  repo : String
  remote : String
  baseBranch : String := "main"
  deriving DecidableEq, Repr

/-- The configuration of the service. The sandbox files and the shell line that starts an agent
are composed by functions of their inputs; their text is of no consequence here. -/
structure FleetConfig where
  machines : List Machine
  projects : List Project
  orchestratorMachine : String := "desktop"
  orchestratorCwd : String := ""
  orchestratorRepo : String := "~/Work/agent-orchestrator"
  idleSeconds : ℕ := 1800
  sha256 : String → String
  pathsFileContent : FleetRole → String → String := fun _ _ => ""
  launchCommand : FleetRole → Machine → String → String → String → String → List String → String :=
    fun _ _ _ _ _ _ _ => ""

inductive FleetError where
  | cancelledError
  | herdrError (code message : String)
  | herdrUnavailable (message : String)
  | shimError (message : String)
  | laneTimeout (message : String)
  | osError (message : String)
  | timeoutError (message : String)
  | unicodeError (message : String)
  | worktreeError (message : String)
  | prRejected (message : String)
  | runtimeError (message : String)
  | valueError (message : String)
  | keyError (key : String)
  | database (e : DbError)
  | httpException (e : HTTPException)
  deriving DecidableEq, Repr

namespace FleetError

/-- `_REMOTE_ERRORS`; a `TimeoutError` is an `OSError`. -/
def remote : FleetError → Bool
  | .herdrError _ _ | .herdrUnavailable _ | .shimError _ | .laneTimeout _ | .osError _ | .timeoutError _ => true
  | _ => false

/-- What `read_text` can raise; it is no await, so that it cannot be cancelled. -/
def reading : FleetError → Bool
  | .osError _ | .unicodeError _ => true
  | _ => false

/-- `str(exc)`. -/
def message : FleetError → String
  | .cancelledError => ""
  | .herdrError code message => code ++ ": " ++ message
  | .herdrUnavailable message | .shimError message | .laneTimeout message | .osError message
  | .timeoutError message | .unicodeError message | .worktreeError message | .prRejected message
  | .runtimeError message | .valueError message => message
  | .keyError key => "'" ++ key ++ "'"
  | .database (.keyError key) => "'" ++ key ++ "'"
  | .database (.valueError message) | .database (.permissionError message) | .database (.runtimeError message) =>
    message
  | .database .assertionError => ""
  | .database .integrityError => "UNIQUE constraint failed"
  | .httpException e => toString e.statusCode ++ ": " ++ e.detail

/-- `type(exc).__name__`. -/
def typeName : FleetError → String
  | .cancelledError => "CancelledError"
  | .herdrError _ _ => "HerdrError"
  | .herdrUnavailable _ => "HerdrUnavailable"
  | .shimError _ => "ShimError"
  | .laneTimeout _ => "LaneTimeout"
  | .osError _ => "OSError"
  | .timeoutError _ => "TimeoutError"
  | .unicodeError _ => "UnicodeError"
  | .worktreeError _ => "WorktreeError"
  | .prRejected _ => "PrRejected"
  | .runtimeError _ | .database (.runtimeError _) => "RuntimeError"
  | .valueError _ | .database (.valueError _) => "ValueError"
  | .keyError _ | .database (.keyError _) => "KeyError"
  | .database (.permissionError _) => "PermissionError"
  | .database .assertionError => "AssertionError"
  | .database .integrityError => "IntegrityError"
  | .httpException _ => "HTTPException"

end FleetError

/-- The locks of `Orchestrator`. -/
inductive FleetLock where
  | orchestrator
  | pm (project : String)
  deriving DecidableEq, Repr

/-- Commands on a remote machine that answer nothing. -/
inductive RemoteCommand where
  | worktreeAdd (repo branch base path : String)
  | worktreeRemove (repo path : String)
  | branchDelete (repo branch : String)
  | writeFile (path content : String)
  | removeFile (path : String)
  | paneRun (paneId command : String)
  | paneClose (paneId : String)
  | agentRename (paneId name : String)
  | reportAgent (paneId state source agent : String) (sequence : Int) (message agentSessionPath : String)
  | reportMetadata (paneId source agent displayAgent : String)
  | releaseAgent (paneId source agent : String) (sequence : Int)
  deriving DecidableEq, Repr

/-- What `workspace_create` answers. -/
structure Workspace where
  workspaceId : String
  paneId : String
  deriving DecidableEq, Repr

/-- The awaits of the orchestrator, and the marks `teardown` and `ensured` at which `teardown_task`
begins and `_ensure_pm` ends. A remote command names the session on whose behalf it is issued;
`rounds` answers how often the clock lets a loop go on before its deadline. -/
inductive FleetCall : Type → Type 1 where
  | query {β : Type} (q : Tables → β) : FleetCall (Except FleetError β)
  | write (op : SessionOp) : FleetCall (Except FleetError Unit)
  | nextPaneSequence (sessionId : String) : FleetCall (Except FleetError Int)
  | request (op : SessionOp) : FleetCall (Except FleetError Unit)
  | remote (sessionId machine : String) (command : RemoteCommand) : FleetCall (Except FleetError Unit)
  | workspaceCreate (machine cwd label : String) : FleetCall (Except FleetError Workspace)
  | paneRead (machine paneId : String) : FleetCall (Except FleetError String)
  | readText (path : String) : FleetCall (Except FleetError String)
  | openPr (machine : String) (project : Project) (branch worktree summary sessionId : String) :
      FleetCall (Except FleetError String)
  | sleep : FleetCall (Except FleetError Unit)
  | enter (lock : FleetLock) : FleetCall (Except FleetError Unit)
  | uuid : FleetCall String
  | token : FleetCall String
  | time : FleetCall ℕ
  | rounds : FleetCall ℕ
  | teardown (session : PiSession) (force : Bool) : FleetCall Unit
  | ensured (project : String) (result : Except FleetError PiSession) : FleetCall Unit

abbrev FleetM (α : Type) := Prog FleetCall FleetLock FleetError α

/-- What the coroutines did: the remote commands they issued, with whether these were acknowledged,
the teardowns that began, and the ids with which a call of `_ensure_pm` is through: the one of the
manager that it returned or, when it raised, all that it had drawn. -/
inductive FleetEntry where
  | remote (t : ℕ) (sessionId machine : String) (command : RemoteCommand) (acknowledged : Bool)
  | teardown (t : ℕ) (session : PiSession) (force : Bool)
  | ensured (t : ℕ) (project id : String)
  deriving DecidableEq, Repr

/-- The database as its connection sees it and as it survives the process, the history, and the
ids that `uuid4` has given out, with the coroutines that asked for them. -/
structure FleetWorld where
  db : Tables := {}
  durable : Tables := {}
  log : List FleetEntry := []
  ids : List (String × ℕ) := []

namespace FleetWorld

/-- A database method runs to its end. -/
def run (s : FleetWorld) (op : SessionOp) : FleetWorld :=
  { s with durable := (alone op.prog s.durable s.db).2.1, db := (alone op.prog s.durable s.db).2.2 }

/-- A database method is interrupted after `n` of its statements and commits. -/
def interrupt (s : FleetWorld) (op : SessionOp) (n : ℕ) : FleetWorld :=
  { s with
    durable := (interruptedAfter n op.prog s.durable s.db).1, db := (interruptedAfter n op.prog s.durable s.db).2 }

def record (s : FleetWorld) (e : FleetEntry) : FleetWorld := { s with log := s.log ++ [e] }

/-- The thread is through with the ids that it has drawn. -/
def conclude (s : FleetWorld) (t : ℕ) (project : String) : FleetWorld :=
  { s with log := s.log ++ (s.ids.filter fun i => i.2 = t).map fun i => .ensured t project i.1 }

/-- `id` is new to the process and to the tables. -/
def unused (s : FleetWorld) (id : String) : Bool :=
  !s.ids.any (fun i => i.1 = id) && !s.db.sessions.any (fun r => r.id = id) &&
    !s.db.events.any (fun r => r.id = id) &&
    !s.db.commands.any (fun r => r.id = id)

def give (s : FleetWorld) (id : String) (t : ℕ) : FleetWorld := { s with ids := (id, t) :: s.ids }

def restarted (s : FleetWorld) : FleetWorld := { db := s.durable, durable := s.durable }

@[simp] theorem record_db (s : FleetWorld) (e : FleetEntry) : (s.record e).db = s.db := rfl

@[simp] theorem record_durable (s : FleetWorld) (e : FleetEntry) : (s.record e).durable = s.durable := rfl

@[simp] theorem record_ids (s : FleetWorld) (e : FleetEntry) : (s.record e).ids = s.ids := rfl

@[simp] theorem give_db (s : FleetWorld) (id : String) (t : ℕ) : (s.give id t).db = s.db := rfl

@[simp] theorem give_durable (s : FleetWorld) (id : String) (t : ℕ) : (s.give id t).durable = s.durable := rfl

@[simp] theorem give_log (s : FleetWorld) (id : String) (t : ℕ) : (s.give id t).log = s.log := rfl

@[simp] theorem run_log (s : FleetWorld) (op : SessionOp) : (s.run op).log = s.log := rfl

@[simp] theorem run_ids (s : FleetWorld) (op : SessionOp) : (s.run op).ids = s.ids := rfl

@[simp] theorem interrupt_log (s : FleetWorld) (op : SessionOp) (n : ℕ) : (s.interrupt op n).log = s.log := rfl

@[simp] theorem interrupt_ids (s : FleetWorld) (op : SessionOp) (n : ℕ) : (s.interrupt op n).ids = s.ids := rfl

end FleetWorld

/-- What happens at an await: it ends, with a value that fits the effect, or it raises. A database
call that raises has executed its first `n` statements and commits. -/
inductive FleetAnswer where
  | done
  | text (s : String)
  | number (n : ℕ)
  | workspace (w : Workspace)
  | fails (e : FleetError) (n : ℕ)
  deriving DecidableEq, Repr

/-- The pane sequence of a session, as `RETURNING` reports it. -/
def paneSequence (d : Tables) (sessionId : String) : Option Int :=
  (findSession d sessionId).map fun s => match s.metaData.get "pane_sequence" with
    | some (.num n) => n
    | _ => 0

def fleetHandle : {β : Type} → FleetCall β → ℕ → FleetAnswer → FleetWorld → Option (FleetWorld × β)
  | _, .query q, _, .done, s => some (s, .ok (q s.db))
  | _, .query _, _, .fails e _, s => some (s, .error e)
  | _, .write op, _, .done, s => some (s.run op, (alone op.prog s.durable s.db).1.mapError .database)
  | _, .write op, _, .fails e n, s => some (s.interrupt op n, .error e)
  | _, .nextPaneSequence id, _, .done, s =>
    some (s.run (.nextPane id), match paneSequence (s.run (.nextPane id)).db id with
    | some n => .ok n
    | none => .error (.database (.keyError id)))
  | _, .nextPaneSequence id, _, .fails e n, s => some (s.interrupt (.nextPane id) n, .error e)
  | _, .request op, _, .done, s => some (s.run op, (alone op.prog s.durable s.db).1.mapError .database)
  | _, .remote id machine command, t, .done, s => some (s.record (.remote t id machine command true), .ok ())
  | _, .remote id machine command, t, .fails e _, s =>
    some (s.record (.remote t id machine command false), .error e)
  | _, .workspaceCreate _ _ _, _, .workspace w, s => some (s, .ok w)
  | _, .workspaceCreate _ _ _, _, .fails e _, s => some (s, .error e)
  | _, .paneRead _ _, _, .text output, s => some (s, .ok output)
  | _, .paneRead _ _, _, .fails e _, s => some (s, .error e)
  | _, .readText _, _, .text content, s => some (s, .ok content)
  | _, .readText _, _, .fails e _, s => if e.reading then some (s, .error e) else none
  | _, .openPr _ _ _ _ _ _, _, .text url, s => if url ≠ "" then some (s, .ok url) else none
  | _, .openPr _ _ _ _ _ _, _, .fails e _, s => some (s, .error e)
  | _, .sleep, _, .done, s => some (s, .ok ())
  | _, .sleep, _, .fails e _, s => some (s, .error e)
  | _, .enter _, _, .done, s => some (s, .ok ())
  | _, .enter _, _, .fails e _, s => some (s, .error e)
  | _, .uuid, t, .text id, s => if s.unused id then some (s.give id t, id) else none
  | _, .token, _, .text token, s => some (s, token)
  | _, .time, _, .number now, s => some (s, now)
  | _, .rounds, _, .number n, s => some (s, n)
  | _, .teardown session force, t, .done, s => some (s.record (.teardown t session force), ())
  | _, .ensured project (.ok manager), t, .done, s => some (s.record (.ensured t project manager.id), ())
  | _, .ensured project (.error _), t, .done, s => some (s.conclude t project, ())
  | _, _, _, _, _ => none

def fleetInterp : Interp FleetCall FleetWorld FleetAnswer := ⟨fleetHandle⟩

/-- The database method that the effect calls. -/
def FleetCall.op? : {β : Type} → FleetCall β → Option SessionOp
  | _, .write op => some op
  | _, .nextPaneSequence sessionId => some (.nextPane sessionId)
  | _, .request op => some op
  | _, _ => none

/-- An effect runs its database method, perhaps not to the end, or it leaves the tables alone. -/
theorem tables_of_handle {β : Type} {e : FleetCall β} {t : ℕ} {w : FleetAnswer} {s s' : FleetWorld} {b : β}
    (h : fleetHandle e t w s = some (s', b)) :
    (∃ op, e.op? = some op ∧ (s' = s.run op ∨ ∃ n, s' = s.interrupt op n)) ∨
      e.op? = none ∧ s'.db = s.db ∧ s'.durable = s.durable := by
  cases e with
  | write op =>
    cases w with
    | done =>
      cases h
      exact .inl ⟨op, rfl, .inl rfl⟩
    | fails e n =>
      cases h
      exact .inl ⟨op, rfl, .inr ⟨n, rfl⟩⟩
    | _ => cases h
  | nextPaneSequence sessionId =>
    cases w with
    | done =>
      simp only [fleetHandle, Option.some.injEq, Prod.mk.injEq] at h
      exact .inl ⟨_, rfl, .inl h.1.symm⟩
    | fails e n =>
      cases h
      exact .inl ⟨_, rfl, .inr ⟨n, rfl⟩⟩
    | _ => cases h
  | request op =>
    cases w with
    | done =>
      cases h
      exact .inl ⟨op, rfl, .inl rfl⟩
    | _ => cases h
  | readText path =>
    cases w with
    | fails e n =>
      simp only [fleetHandle] at h
      split at h
      · cases h
        exact .inr ⟨rfl, rfl, rfl⟩
      · cases h
    | text content =>
      cases h
      exact .inr ⟨rfl, rfl, rfl⟩
    | _ => cases h
  | openPr machine project branch worktree summary sessionId =>
    cases w with
    | text url =>
      simp only [fleetHandle] at h
      split at h
      · cases h
        exact .inr ⟨rfl, rfl, rfl⟩
      · cases h
    | fails e n =>
      cases h
      exact .inr ⟨rfl, rfl, rfl⟩
    | _ => cases h
  | uuid =>
    cases w with
    | text id =>
      simp only [fleetHandle] at h
      split at h
      · cases h
        exact .inr ⟨rfl, rfl, rfl⟩
      · cases h
    | _ => cases h
  | ensured project result =>
    cases w with
    | done => cases result <;> cases h <;> exact .inr ⟨rfl, rfl, rfl⟩
    | _ => cases result <;> cases h
  | _ => cases w <;> cases h <;> exact .inr ⟨rfl, rfl, rfl⟩

end WorkerHarness
