import Mathlib.Data.Rat.Init
import Mathlib.Data.List.Basic
import Mathlib.Data.String.Basic

/-!
# Records of the harness database

The enumerations and records of `models.py`, reduced to the fields that the modelled
methods read or write. Timestamps are whole seconds. Text columns are strings, so that
ids are compared and ordered as SQLite does it.
-/

namespace WorkerHarness

inductive WorkerStatus where
  | online | offline | draining
  deriving DecidableEq, Repr

inductive JobStatus where
  | pending | starting | running | done | failed
  deriving DecidableEq, Repr

inductive JobKind where
  | ssh | delegated
  deriving DecidableEq, Repr

inductive PiSessionType where
  | interactive | globalRouter
  deriving DecidableEq, Repr

def PiSessionType.bridgeBacked : PiSessionType → Bool
  | .interactive => true
  | .globalRouter => true

inductive PiSessionState where
  | queued | starting | working | blocked | idle | stopped | failed | terminationUnknown
  deriving DecidableEq, Repr

inductive JsonValue where
  | str (s : String)
  | num (n : Int)
  | other (text : String)
  deriving DecidableEq, Repr

abbrev JsonObject := List (String × JsonValue)

namespace JsonObject

def get (o : JsonObject) (key : String) : Option JsonValue := o.lookup key

def getStr (o : JsonObject) (key : String) : Option String :=
  match o.get key with
  | some (.str s) => some s
  | _ => none

/-- The text of `json_extract(o, '$.key')`; the text of an array or an object is its JSON. -/
def extractText (o : JsonObject) (key : String) : Option String :=
  match o.get key with
  | some (.str s) => some s
  | some (.other text) => if text.toList.head? = some '[' ∨ text.toList.head? = some '{' then some text else none
  | _ => none

/-- `json_set(o, '$.key', v)`: replace the member in place or add it at the end. -/
def set (o : JsonObject) (key : String) (v : JsonValue) : JsonObject :=
  if o.any (fun m => m.1 = key) then o.map fun m => if m.1 = key then (key, v) else m
  else o ++ [(key, v)]

end JsonObject

structure GPUInfo where
  index : ℤ
  vramTotalGb : ℚ
  vramUsedGb : ℚ
  busy : Option Bool := none
  deriving DecidableEq, Repr

structure WorkerRegistration where
  workerId : String
  name : String
  harnessDir : String := "/harness"
  gpuCount : ℕ := 0
  gpus : List GPUInfo := []
  deriving DecidableEq, Repr

structure Worker where
  id : String
  name : String
  harnessDir : String := "/harness"
  gpuCount : ℕ := 0
  gpuVramGb : List ℚ := []
  gpuUsedVramGb : List ℚ := []
  gpuBusy : List (Option Bool) := []
  status : WorkerStatus := .offline
  lastHeartbeatTs : ℕ := 0
  createdAt : ℕ := 0
  deriving DecidableEq, Repr

namespace Worker

def fromRegistration (reg : WorkerRegistration) (now : ℕ) : Worker where
  id := reg.workerId
  name := reg.name
  harnessDir := reg.harnessDir
  gpuCount := reg.gpuCount
  gpuVramGb := reg.gpus.map (·.vramTotalGb)
  gpuUsedVramGb := reg.gpus.map (·.vramUsedGb)
  gpuBusy := reg.gpus.map (·.busy)
  status := .online
  lastHeartbeatTs := now
  createdAt := now

def updateFromRegistration (w : Worker) (reg : WorkerRegistration) (now : ℕ) : Worker :=
  { w with
    name := reg.name
    harnessDir := reg.harnessDir
    gpuCount := reg.gpuCount
    gpuVramGb := reg.gpus.map (·.vramTotalGb)
    gpuUsedVramGb := reg.gpus.map (·.vramUsedGb)
    gpuBusy := reg.gpus.map (·.busy)
    status := .online
    lastHeartbeatTs := now }

end Worker

structure PiSession where
  id : String
  workerId : Option String := none
  parentSessionId : Option String := none
  sessionType : PiSessionType := .interactive
  state : PiSessionState := .queued
  task : String := ""
  cwd : String := ""
  detail : String := ""
  role : String := ""
  tokenHash : String := ""
  question : String := ""
  metaData : JsonObject := []
  name : String := ""
  host : String := ""
  agent : String := "pi"
  bridgeIncarnation : Option String := none
  terminalAttachable : Bool := false
  terminalHost : String := ""
  terminalPort : ℕ := 0
  terminalProtocolVersion : ℕ := 0
  hasPendingMessages : Bool := false
  lastSeen : ℕ := 0
  createdAt : ℕ := 0
  updatedAt : ℕ := 0
  deriving DecidableEq, Repr

structure PiSessionEvent where
  id : String
  sessionId : String
  eventType : String
  payload : JsonObject := []
  createdAt : ℕ := 0
  sequence : ℕ := 0
  deriving DecidableEq, Repr

/-- An event as a bridge sends it, with an optional id of its own. -/
structure PiIngestEvent where
  id : Option String := none
  eventType : String
  payload : JsonObject := []
  createdAt : ℕ := 0
  deriving DecidableEq, Repr

/-- A registration; the request model rejects an empty incarnation. -/
structure PiBridgeRegister where
  sessionId : String
  incarnation : String
  cwd : String := ""
  resumePath : String := ""
  name : String := ""
  host : String := ""
  agent : String := "pi"
  terminalAttachable : Bool := false
  terminalHost : String := ""
  terminalPort : ℕ := 0
  terminalProtocolVersion : ℕ := 0
  hasPendingMessages : Bool := false
  initialEvents : List PiIngestEvent := []
  incarnation_ne : incarnation ≠ "" := by decide
  deriving DecidableEq, Repr

-- The incarnations of the bridges in the replayed runs.
theorem incarnation_ne_A : "A" ≠ "" := by decide

theorem incarnation_ne_B : "B" ≠ "" := by decide

theorem incarnation_ne_bridge : "bridge" ≠ "" := by decide

structure PiBridgeEventBatch where
  incarnation : String
  state : Option PiSessionState := none
  detail : String := ""
  hasPendingMessages : Option Bool := none
  events : List PiIngestEvent := []
  deriving DecidableEq, Repr

structure PiSessionCommand where
  id : String
  sessionId : String
  kind : String := "prompt"
  message : String := ""
  deliverAs : String := "followUp"
  payload : JsonObject := []
  createdAt : ℕ := 0
  claimedAt : ℕ := 0
  claimedBy : String := ""
  deliveredAt : ℕ := 0
  deriving DecidableEq, Repr

structure Job where
  id : String
  workerId : Option String := none
  name : String := ""
  tmuxSession : String := ""
  command : String := ""
  status : JobStatus := .pending
  queueManaged : Bool := false
  exitCode : Option Int := none
  ptyEnabled : Bool := true
  kind : JobKind := .ssh
  originSessionId : Option String := none
  reportRevision : ℕ := 0
  expectedSeconds : ℕ := 0
  gpuCount : ℕ := 0
  gpuIndices : List ℕ := []
  queueOrder : ℕ := 0
  startedAt : ℕ := 0
  finishedAt : ℕ := 0
  deriving DecidableEq, Repr

structure WorkerJobReport where
  id : String
  originSessionId : String
  tmuxSession : String
  command : String
  status : JobStatus
  exitCode : Option Int := none
  ptyEnabled : Bool := true
  startedAt : ℕ := 0
  finishedAt : ℕ := 0
  reportRevision : ℕ
  deriving DecidableEq, Repr

structure Failure where
  jobId : String
  workerId : String
  exitCode : Int
  timestamp : ℕ := 0
  summary : String := ""
  deriving DecidableEq, Repr

/-- The tables of the database, rows in `rowid` order. -/
structure Tables where
  workers : List Worker := []
  jobs : List Job := []
  sessions : List PiSession := []
  events : List PiSessionEvent := []
  commands : List PiSessionCommand := []
  failures : List Failure := []
  deriving DecidableEq, Repr

namespace Job

def active (j : Job) : Bool := j.status = .starting || j.status = .running

/-- A row of the managed queue of worker `w` that waits to be claimed. -/
def pendingOn (w : String) (j : Job) : Bool :=
  j.queueManaged && decide (j.workerId = some w) && decide (j.status = .pending)

/-- A row of the managed queue of worker `w` that holds its GPU indices. -/
def activeOn (w : String) (j : Job) : Bool :=
  j.queueManaged && decide (j.workerId = some w) && j.active

@[simp] theorem pendingOn_iff {w : String} {j : Job} :
    j.pendingOn w = true ↔ j.queueManaged = true ∧ j.workerId = some w ∧ j.status = .pending := by
  simp [pendingOn, and_assoc]

@[simp] theorem active_iff {j : Job} :
    j.active = true ↔ j.status = .starting ∨ j.status = .running := by
  simp [active]

@[simp] theorem activeOn_iff {w : String} {j : Job} :
    j.activeOn w = true ↔ j.queueManaged = true ∧ j.workerId = some w ∧ j.active = true := by
  simp [activeOn, and_assoc]

end Job

end WorkerHarness
