import WorkerHarness.SqlTables

/-!
# The schema of the database

`Database._init_schema` on the tables of a database file of any age: it creates what is missing,
adds the columns that earlier versions did not have, numbers the events of the sessions, and removes
the delegated sessions.
-/

namespace WorkerHarness.DatabaseSchema

open SqlTables

inductive TableName where
  | workers | jobs | portForwards | marimoSessions | failures | piSessions | piSessionEvents | piSessionCommands
  | piRouterRequests | piRouterConfig | piDelegations
  deriving DecidableEq

/-- The tables of a database file; `foreignKeys` is the pragma of the connection. -/
@[ext]
structure Schema where
  tables : TableName → Option (Table String)
  foreignKeys : Bool

namespace Schema

def put (d : Schema) (n : TableName) (t : Option (Table String)) : Schema :=
  { d with tables := Function.update d.tables n t }

/-- `CREATE TABLE IF NOT EXISTS`. -/
def createTable (d : Schema) (n : TableName) (columns : List String) : Schema :=
  match d.tables n with
  | some _ => d
  | none => d.put n (some (Table.create columns))

def dropTable (d : Schema) (n : TableName) : Schema := d.put n none

/-- `PRAGMA table_info`, which knows no columns of a table that does not exist. -/
def tableInfo (d : Schema) (n : TableName) : List String :=
  match d.tables n with
  | some t => t.columns
  | none => []

def alterTable (d : Schema) (n : TableName) (mentioned : List String)
    (f : Table String → Except SqlError (Table String)) :
    Except SqlError Schema :=
  match d.tables n with
  | none => .error .noSuchTable
  | some t => do
    t.mentions mentioned
    let t' ← f t
    return d.put n (some t')

/-- `SELECT column FROM n WHERE p`. -/
def select (d : Schema) (n : TableName) (mentioned : List String) (column : String) (p : Row String → Bool) :
    Except SqlError (List Value) :=
  match d.tables n with
  | none => .error .noSuchTable
  | some t => do
    t.mentions (column :: mentioned)
    return (t.rows.filter p).map fun r => r.values column

end Schema

/-- `if column not in cols: ALTER TABLE ... ADD COLUMN`. -/
def addMissing (n : TableName) (cols : List String) (d : Schema) (column : String × Value) :
    Except SqlError Schema :=
  if column.1 ∈ cols then .ok d else d.alterTable n [] (Table.addColumn column.1 column.2)

def workersColumns : List String :=
  ["id", "name", "worker_ip", "dns_name", "ssh_user", "harness_dir", "gpu_count", "gpu_names", "gpu_vram_gb",
    "gpu_used_vram_gb", "gpu_busy", "cpu_cores", "total_ram_gb", "used_ram_gb", "total_disk_gb", "used_disk_gb",
    "data_paths", "status", "last_heartbeat_ts", "created_at"]

def unaddressed (r : Row String) : Bool :=
  decide (r.values "worker_ip" = .null) || sqlEq (r.values "worker_ip") (.text "")

def addWorkerIp (cols : List String) (d : Schema) : Except SqlError Schema :=
  if "worker_ip" ∈ cols then .ok d
  else if "zerotier_ip" ∈ cols then do
    let d ← d.alterTable .workers [] (Table.addColumn "worker_ip" .null)
    d.alterTable .workers ["worker_ip", "zerotier_ip"]
      (Table.update "worker_ip" (fun _ r => r.values "zerotier_ip") unaddressed)
  else d.alterTable .workers [] (Table.addColumn "worker_ip" (.text ""))

def missingTelemetryColumns : List (String × Value) := [("gpu_used_vram_gb", .text "[]"), ("gpu_busy", .text "[]")]

def missingWorkersColumns : List (String × Value) :=
  [("dns_name", .text ""), ("ssh_user", .text "root"), ("harness_dir", .text "/harness"),
    ("data_paths", .text "[]")]

def initWorkers (d : Schema) : Except SqlError Schema := do
  let d := d.createTable .workers workersColumns
  let cols := d.tableInfo .workers
  let d ← missingTelemetryColumns.foldlM (addMissing .workers cols) d
  let d ← addWorkerIp cols d
  missingWorkersColumns.foldlM (addMissing .workers cols) d

def jobsColumns : List String :=
  ["id", "worker_id", "name", "tmux_session", "command", "status", "queue_managed", "exit_code",
    "pty_enabled", "kind",
    "origin_session_id", "report_revision", "expected_seconds", "gpu_count", "gpu_indices", "queue_order",
      "started_at",
    "finished_at"]

def missingJobsColumns : List (String × Value) :=
  [("kind", .text "ssh"), ("origin_session_id", .null), ("report_revision", .integer 0), ("name", .text ""),
    ("queue_managed", .integer 0), ("expected_seconds", .integer 0), ("gpu_count", .integer 0),
      ("gpu_indices", .text "[]"),
    ("queue_order", .integer 0)]

def originIndex : Index String :=
  { name := "idx_jobs_origin_session_id", columns := ["origin_session_id"], unique := false }

def queueIndex : Index String :=
  { name := "idx_jobs_queue_active",
    columns := ["queue_managed", "worker_id", "status", "queue_order"], unique := false }

def initJobs (d : Schema) : Except SqlError Schema := do
  let d := d.createTable .jobs jobsColumns
  let jobCols := d.tableInfo .jobs
  let d ← missingJobsColumns.foldlM (addMissing .jobs jobCols) d
  let d ← d.alterTable .jobs [] (Table.createIndex originIndex)
  d.alterTable .jobs [] (Table.createIndex queueIndex)

def portForwardsColumns : List String :=
  ["id", "worker_id", "local_port", "remote_port", "service_name", "pid", "created_at"]

def marimoSessionsColumns : List String :=
  ["id", "worker_id", "notebook_path", "environment", "job_id", "tunnel_id", "local_port", "remote_port",
    "bind_host", "url",
    "status", "created_at"]

def failuresColumns : List String := ["id", "job_id", "worker_id", "exit_code", "timestamp", "summary"]

def piSessionsColumns : List String :=
  ["id", "worker_id", "parent_session_id", "session_type", "state", "task", "cwd", "tmux_session", "detail", "role",
    "token_hash", "question", "meta", "name", "host", "agent", "bridge_incarnation", "terminal_attachable",
      "terminal_host",
    "terminal_port", "terminal_protocol_version", "has_pending_messages", "last_seen", "created_at", "updated_at"]

def missingPiSessionsColumns : List (String × Value) :=
  [("name", .text ""), ("host", .text ""), ("agent", .text "pi"), ("bridge_incarnation", .null),
    ("terminal_attachable", .integer 0), ("terminal_host", .text ""), ("terminal_port", .integer 0),
    ("terminal_protocol_version", .integer 0), ("has_pending_messages", .integer 0), ("last_seen", .integer 0),
    ("role", .text ""), ("token_hash", .text ""), ("question", .text ""), ("meta", .text "\x7b\x7d")]

def initPiSessions (d : Schema) : Except SqlError Schema :=
  let d := d.createTable .piSessions piSessionsColumns
  missingPiSessionsColumns.foldlM (addMissing .piSessions (d.tableInfo .piSessions)) d

def piSessionEventsColumns : List String := ["id", "session_id", "event_type", "payload", "created_at", "sequence"]

/-- How many events of the same session were inserted up to this one. -/
def priorEvents (t : Table String) (event : Row String) : Value :=
  .integer (t.rows.countP fun prior =>
    sqlEq (prior.values "session_id") (event.values "session_id") && decide (prior.rowid ≤ event.rowid))

def unsequenced (r : Row String) : Bool := sqlEq (r.values "sequence") (.integer 0)

def sequenceIndex : Index String :=
  { name := "idx_pi_events_sequence", columns := ["session_id", "sequence"], unique := true }

def sequenceTrigger : String := "assign_pi_session_event_sequence"

def sequenceOf : Value → Option ℤ
  | .integer k => some k
  | _ => none

/-- `COALESCE(MAX(sequence), 0) + 1` over the events of the session. -/
def nextSequence (t : Table String) (s : Value) : Value :=
  .integer (((t.rows.filter fun r => sqlEq (r.values "session_id") s).filterMap fun r =>
    sequenceOf (r.values "sequence")).max?.getD 0 + 1)

def triggered (t : Table String) (r : Row String) : Row String :=
  if unsequenced r then
    { r with values := Function.update r.values "sequence" (nextSequence t (r.values "session_id")) }
  else r

theorem triggered_rowid (t : Table String) (r : Row String) : (triggered t r).rowid = r.rowid := by
  unfold triggered
  split <;> rfl

def insertEvent (t : Table String) (r : Row String) (h : ∀ r' ∈ t.rows, r'.rowid < r.rowid) : Table String :=
  { t with
    rows := t.rows ++ [triggered t r],
    ordered := List.pairwise_append.mpr ⟨t.ordered, List.pairwise_singleton _ _, fun r' hr' r'' hr'' => by
      rw [List.mem_singleton.mp hr'', triggered_rowid]
      exact h r' hr'⟩ }

def missingSequenceColumn : String × Value := ("sequence", .integer 0)

def initPiSessionEvents (d : Schema) : Except SqlError Schema := do
  let d := d.createTable .piSessionEvents piSessionEventsColumns
  let d ← addMissing .piSessionEvents (d.tableInfo .piSessionEvents) d missingSequenceColumn
  let d ← d.alterTable .piSessionEvents ["sequence", "session_id"] (Table.update "sequence" priorEvents unsequenced)
  let d ← d.alterTable .piSessionEvents [] (Table.createIndex sequenceIndex)
  d.alterTable .piSessionEvents [] fun t => .ok (t.createTrigger sequenceTrigger)

def piSessionCommandsColumns : List String :=
  ["id", "session_id", "kind", "message", "deliver_as", "payload", "created_at", "claimed_at", "claimed_by",
    "delivered_at"]

def pendingIndex : Index String :=
  { name := "idx_pi_commands_pending", columns := ["session_id", "delivered_at", "created_at"], unique := false }

def missingPayloadColumn : String × Value := ("payload", .text "\x7b\x7d")

def initPiSessionCommands (d : Schema) : Except SqlError Schema := do
  let d := d.createTable .piSessionCommands piSessionCommandsColumns
  let d ← addMissing .piSessionCommands (d.tableInfo .piSessionCommands) d missingPayloadColumn
  d.alterTable .piSessionCommands [] (Table.createIndex pendingIndex)

def delegated (r : Row String) : Bool := sqlEq (r.values "session_type") (.text "delegated")

/-- `SELECT id FROM pi_sessions WHERE session_type='delegated'`. -/
def delegatedIds (d : Schema) : Except SqlError (List Value) := d.select .piSessions ["session_type"] "id" delegated

/-- `DELETE FROM table WHERE session_id IN (...)`. -/
def deleteDependents (n : TableName) (d : Schema) : Except SqlError Schema := do
  let ids ← delegatedIds d
  d.alterTable n ["session_id"] fun t => .ok (t.deleteWhere fun r => isIn (r.values "session_id") ids)

def detachParents (d : Schema) : Except SqlError Schema := do
  let ids ← delegatedIds d
  d.alterTable .piSessions ["parent_session_id"]
    (Table.update "parent_session_id" (fun _ _ => .null) fun r => isIn (r.values "parent_session_id") ids)

def refers (d : Schema) (ids : List Value) (n : TableName) : Bool :=
  match d.tables n with
  | none => false
  | some t => t.rows.any fun r => isIn (r.values "session_id") ids

def deleteDelegated (d : Schema) : Except SqlError Schema := do
  let ids ← delegatedIds d
  let d ← d.alterTable .piSessions ["session_type"] fun t => .ok (t.deleteWhere delegated)
  if d.foreignKeys && (refers d ids .piSessionEvents || refers d ids .piSessionCommands) then
    .error .foreignKeyConstraint
  else .ok d

/-- Delegated agents belonged to a runtime that is gone. -/
def removeDelegated (d : Schema) : Except SqlError Schema := do
  let d := ((d.dropTable .piRouterRequests).dropTable .piRouterConfig).dropTable .piDelegations
  let d ← deleteDependents .piSessionCommands d
  let d ← deleteDependents .piSessionEvents d
  let d ← detachParents d
  deleteDelegated d

/-- `Database._init_schema`. -/
def initSchema (d : Schema) : Except SqlError Schema := do
  let d ← initWorkers d
  let d ← initJobs d
  let d := d.createTable .portForwards portForwardsColumns
  let d := d.createTable .marimoSessions marimoSessionsColumns
  let d := d.createTable .failures failuresColumns
  let d ← initPiSessions d
  let d ← initPiSessionEvents d
  let d ← initPiSessionCommands d
  removeDelegated d

end WorkerHarness.DatabaseSchema
