import WorkerHarness.DatabaseTables

/-!
# Pi session methods of the database

Bridge registrations, event batches and the command mailbox of `db.py`. The fresh ids of
`uuid4()` and the clock are parameters. The trigger that numbers the events of a session
is part of the statement that inserts one.
-/

namespace WorkerHarness

open Coroutines SharedTransactions SortedLists

namespace PiSessionState

/-- The states that `set_pi_session_blocked` and the orchestrator treat as ended. -/
def terminal : PiSessionState → Bool
  | .stopped | .failed | .terminationUnknown => true
  | _ => false

end PiSessionState

namespace PiSession

/-- `json_extract(meta, '$.project')`. -/
def project (s : PiSession) : Option JsonValue := s.metaData.get "project"

def finished (state : PiSessionState) (detail : String) (now : ℕ) (s : PiSession) : PiSession :=
  { s with
    state := state
    detail := detail
    updatedAt := now
    question := ""
    tokenHash := ""
    bridgeIncarnation := none
    terminalAttachable := false }

def blocked (question : String) (now : ℕ) (s : PiSession) : PiSession :=
  { s with state := .blocked, question := question, updatedAt := now }

/-- A command was put into the mailbox of the session. -/
def notified (updatedAt : ℕ) (s : PiSession) : PiSession :=
  { s with updatedAt := updatedAt, hasPendingMessages := true }

/-- The bridge of a blocked session acknowledged a prompt. -/
def answered (now : ℕ) (s : PiSession) : PiSession :=
  { s with state := .working, question := "", updatedAt := now }

/-- `json_set(meta, '$.resume_path', ?)`. -/
def resumingAt (path : String) (s : PiSession) : PiSession :=
  { s with metaData := s.metaData.set "resume_path" (.str path) }

/-- `json_set(meta, '$.pane_sequence', COALESCE(json_extract(meta, '$.pane_sequence'), 0) + 1)`. -/
def nextPane (s : PiSession) : PiSession :=
  let previous := match s.metaData.get "pane_sequence" with
    | some (.num n) => n
    | _ => 0
  { s with metaData := s.metaData.set "pane_sequence" (.num (previous + 1)) }

/-- `json_patch(meta, ?)` with members that are not null. -/
def patched (patch : JsonObject) (s : PiSession) : PiSession :=
  { s with metaData := patch.foldl (fun o m => o.set m.1 m.2) s.metaData }

/-- The columns that an event batch writes from the session object. -/
def reported (session : PiSession) (now : ℕ) (s : PiSession) : PiSession :=
  { s with
    state := session.state
    detail := session.detail
    question := session.question
    hasPendingMessages := session.hasPendingMessages
    lastSeen := now
    updatedAt := session.updatedAt }

def stale (now : ℕ) (s : PiSession) : PiSession :=
  { s with
    state := .stopped
    detail := "bridge heartbeat expired"
    updatedAt := now
    question := ""
    tokenHash := ""
    terminalAttachable := false }

end PiSession

namespace PiSessionCommand

def undelivered (sessionId : String) (c : PiSessionCommand) : Bool :=
  decide (c.sessionId = sessionId) && decide (c.deliveredAt = 0)

def leasable (sessionId incarnation : String) (now leaseSeconds : ℕ) (c : PiSessionCommand) : Bool :=
  c.undelivered sessionId &&
    (decide (c.claimedBy = "") || decide (c.claimedBy = incarnation) ||
      decide (c.claimedAt + leaseSeconds ≤ now))

def leased (incarnation : String) (now : ℕ) (c : PiSessionCommand) : PiSessionCommand :=
  { c with claimedAt := now, claimedBy := incarnation }

/-- An acknowledgement may deliver the command: undelivered and leased to the sender. -/
def ackable (sessionId commandId incarnation : String) (c : PiSessionCommand) : Bool :=
  decide (c.id = commandId) && c.undelivered sessionId && decide (c.claimedBy = incarnation)

def delivered (now : ℕ) (c : PiSessionCommand) : PiSessionCommand := { c with deliveredAt := now }

def heldBy (sessionId incarnation : String) (c : PiSessionCommand) : Bool :=
  c.undelivered sessionId && decide (c.claimedBy = incarnation)

/-- Leased to another incarnation than the one that registers. -/
def heldByOther (sessionId incarnation : String) (c : PiSessionCommand) : Bool :=
  c.undelivered sessionId && decide (c.claimedBy ≠ incarnation)

def released (c : PiSessionCommand) : PiSessionCommand := { c with claimedAt := 0, claimedBy := "" }

@[simp] theorem undelivered_iff {sessionId : String} {c : PiSessionCommand} :
    c.undelivered sessionId = true ↔ c.sessionId = sessionId ∧ c.deliveredAt = 0 := by
  simp [undelivered]

end PiSessionCommand

namespace Database

def findSession (d : Tables) (id : String) : Option PiSession := d.sessions.find? fun s => s.id = id

def nextSequence (d : Tables) (sessionId : String) : ℕ :=
  ((d.events.filter fun e => e.sessionId = sessionId).map (·.sequence)).foldr max 0 + 1

/-- `INSERT OR IGNORE INTO pi_session_events` with its trigger. -/
def insertEvent (event : PiSessionEvent) : Statement Tables where
  apply d :=
    if d.events.any (fun e => e.id = event.id) then d
    else { d with events := d.events ++ [{ event with sequence := nextSequence d event.sessionId }] }
  rowcount d := if d.events.any (fun e => e.id = event.id) then 0 else 1
  unchanged d h := by
    split at h
    · next hany => rw [if_pos hany]
    · cases h

/-- `event.id or str(uuid4())`. -/
def PiIngestEvent.idOr (event : PiIngestEvent) (uuid : String) : String :=
  match event.id with
  | some id => if id = "" then uuid else id
  | none => uuid

def PiIngestEvent.row (event : PiIngestEvent) (sessionId uuid : String) (now : ℕ) : PiSessionEvent where
  id := PiIngestEvent.idOr event uuid
  sessionId := sessionId
  eventType := event.eventType
  payload := event.payload
  createdAt := if event.createdAt = 0 then now else event.createdAt

def insertPiSession (session : PiSession) : DbM Unit := do
  insertRow (insertInto sessionsTable (·.id) session)
  commit

def getPiSession (sessionId : String) : DbM (Option PiSession) := query (findSession · sessionId)

def getPiSessionByTokenHash (tokenHash : String) : DbM (Option PiSession) :=
  query fun d => d.sessions.find? fun s => s.tokenHash = tokenHash

/-- `WHERE role = ? ORDER BY updated_at DESC`. -/
def sessionsByRole (d : Tables) (role : String) : List PiSession :=
  sortOn (fun s => OrderDual.toDual s.updatedAt) (d.sessions.filter fun s => s.role = role)

def listPiSessionsByRole (role : String) : DbM (List PiSession) := query (sessionsByRole · role)

def updatePiSessionMeta (sessionId : String) (patch : JsonObject) : DbM Unit := do
  let _ ← execute (update sessionsTable (fun _ s => s.id = sessionId) (PiSession.patched patch))
  commit

def nextPiSessionPaneSequence (sessionId : String) : DbM Unit := Prog.withLock .piBridge do
  let rowcount ← execute (update sessionsTable (fun _ s => s.id = sessionId) PiSession.nextPane)
  commit
  if rowcount = 0 then .raise (.keyError sessionId) else pure ()

def childOf (oldId newId : String) (d : Tables) (s : PiSession) : Bool :=
  decide (s.parentSessionId = some oldId) && decide (s.role = "task") &&
    s.project.isSome && decide (s.project = (findSession d newId).bind (·.project))

def reparentPiSessionChildren (oldId newId : String) : DbM Unit := do
  let _ ← execute (update sessionsTable (childOf oldId newId) fun s => { s with parentSessionId := some newId })
  commit

def finishPiSession (sessionId : String) (state : PiSessionState) (detail : String) (now : ℕ) : DbM Unit :=
  Prog.withLock .piBridge do
    let _ ← execute (update sessionsTable (fun _ s => s.id = sessionId) (PiSession.finished state detail now))
    commit

def setPiSessionBlocked (sessionId question uuid : String) (now : ℕ) : DbM Unit :=
  Prog.withLock .piBridge do
    let rowcount ← execute (update sessionsTable
      (fun _ s => decide (s.id = sessionId) && !s.state.terminal) (PiSession.blocked question now))
    if rowcount = 0 then
      commit
      .raise (.valueError "task session is no longer active")
    else
      insertRow (insertEvent
        { id := uuid, sessionId := sessionId, eventType := "blocked",
          payload := [("question", .str question)], createdAt := now })
      commit

/-- The session that a first registration inserts. -/
def registeredSession (payload : PiBridgeRegister) (now createdAt : ℕ) : PiSession where
  id := payload.sessionId
  sessionType := .interactive
  state := .idle
  cwd := payload.cwd
  name := payload.name
  host := payload.host
  agent := payload.agent
  bridgeIncarnation := some payload.incarnation
  terminalAttachable := payload.terminalAttachable
  terminalHost := payload.terminalHost
  terminalPort := payload.terminalPort
  terminalProtocolVersion := payload.terminalProtocolVersion
  hasPendingMessages := payload.hasPendingMessages
  lastSeen := now
  createdAt := createdAt
  updatedAt := now

/-- The columns that a later registration replaces. -/
def reregisteredSession (payload : PiBridgeRegister) (now : ℕ) (s : PiSession) : PiSession :=
  { s with
    state := if s.state = .blocked then s.state else .idle
    cwd := if s.role ≠ "" ∧ s.cwd ≠ "" then s.cwd else payload.cwd
    detail := ""
    name := if payload.name = "" ∨ s.role ≠ "" then s.name else payload.name
    host := if payload.host = "" ∨ s.role ≠ "" then s.host else payload.host
    agent := payload.agent
    bridgeIncarnation := some payload.incarnation
    terminalAttachable := payload.terminalAttachable
    terminalHost := payload.terminalHost
    terminalPort := payload.terminalPort
    terminalProtocolVersion := payload.terminalProtocolVersion
    hasPendingMessages := payload.hasPendingMessages
    lastSeen := now
    updatedAt := now }

/-- `INSERT INTO pi_sessions … ON CONFLICT(id) DO UPDATE`. -/
def upsertedSessions (payload : PiBridgeRegister) (now createdAt : ℕ) (sessions : List PiSession) :
    List PiSession :=
  if sessions.any (fun s => s.id = payload.sessionId) then
    updateRows (fun s => s.id = payload.sessionId) (reregisteredSession payload now) sessions
  else sessions ++ [registeredSession payload now createdAt]

def upsertSession (payload : PiBridgeRegister) (now createdAt : ℕ) : Statement Tables where
  apply d := { d with sessions := upsertedSessions payload now createdAt d.sessions }
  rowcount _ := 1
  unchanged _ h := by cases h

def insertInitialEvent (sessionId : String) (now : ℕ) (event : PiIngestEvent) (uuid : String) : DbM Unit :=
  if event.eventType ≠ "message-start" ∧ event.eventType ≠ "message-end" then pure () else
  match event.payload.getStr "message_id" with
  | none => pure ()
  | some messageId =>
    if messageId = "" then pure () else do
    let duplicate ← query fun d => d.events.any fun e =>
      decide (e.sessionId = sessionId) && decide (e.eventType = event.eventType) &&
        decide (e.payload.extractText "message_id" = some messageId)
    if duplicate then pure () else
    let _ ← execute (insertEvent (PiIngestEvent.row event sessionId uuid now))
    pure ()

def registerInteractivePiSession (payload : PiBridgeRegister) (now : ℕ) (uuid : ℕ → String) :
    DbM PiSession := Prog.withLock .piBridge do
  let existing ← getPiSession payload.sessionId
  if existing.any (fun s => !s.sessionType.bridgeBacked) then
    .raise (.valueError "session id does not belong to a bridge-backed session")
  else
    let createdAt := (existing.map (·.createdAt)).getD now
    let _ ← execute (upsertSession payload now createdAt)
    if payload.resumePath ≠ "" then
      let _ ← execute (update sessionsTable (fun _ s => s.id = payload.sessionId)
        (PiSession.resumingAt payload.resumePath))
    -- A replacement bridge may reclaim what the old one never acknowledged.
    let _ ← execute (update commandsTable
      (fun _ => PiSessionCommand.heldByOther payload.sessionId payload.incarnation) PiSessionCommand.released)
    Prog.forEach (fun e => insertInitialEvent payload.sessionId now e.1 (uuid e.2)) payload.initialEvents.zipIdx
    commit
    let session ← getPiSession payload.sessionId
    match session with
    | none => .raise .assertionError
    | some session => return session

def checkIncarnation (sessionId incarnation : String) (session : Option PiSession) :
    Except DbError PiSession :=
  match session with
  | none => .error (.keyError sessionId)
  | some session =>
    if !session.sessionType.bridgeBacked then .error (.keyError sessionId)
    else if session.bridgeIncarnation ≠ some incarnation then
      .error (.permissionError "stale bridge incarnation")
    else .ok session

/-- The events of a batch that were new, with the ids under which they are stored. -/
def insertBatchEvents (sessionId : String) (now : ℕ) (uuid : ℕ → String) :
    List (PiIngestEvent × ℕ) → DbM (List PiSessionEvent)
  | [] => pure []
  | e :: es => do
    let row := PiIngestEvent.row e.1 sessionId (uuid e.2) now
    let rowcount ← execute (insertEvent row)
    let persisted ← insertBatchEvents sessionId now uuid es
    return if rowcount = 0 then persisted else row :: persisted

/-- The session object after a batch; `pending` says that the mailbox has an undelivered
command, and is consulted only when the batch carries the flag. -/
def batchedSession (session : PiSession) (payload : PiBridgeEventBatch) (pending : Bool) (now : ℕ)
    (persisted : Bool) : PiSession :=
  let state := match payload.state with
    | none => session.state
    | some state => if session.state ≠ .blocked ∨ state.terminal then state else session.state
  let hasPendingMessages := match payload.hasPendingMessages with
    | none => session.hasPendingMessages
    | some flag => flag || pending
  { session with
    state := state
    question := if state.terminal then "" else session.question
    detail := payload.detail
    hasPendingMessages := hasPendingMessages
    lastSeen := now
    updatedAt :=
      if persisted ∨ (session.state, session.detail, session.hasPendingMessages) ≠
          (state, payload.detail, hasPendingMessages)
      then now else session.updatedAt }

def applyInteractivePiEvents (sessionId : String) (payload : PiBridgeEventBatch) (now : ℕ)
    (uuid : ℕ → String) : DbM (PiSession × List PiSessionEvent) := Prog.withLock .piBridge do
  let existing ← getPiSession sessionId
  let session ← Prog.ofExcept (checkIncarnation sessionId payload.incarnation existing)
  let persisted ← insertBatchEvents sessionId now uuid payload.events.zipIdx
  let pending ←
    if payload.hasPendingMessages.isSome then
      query fun d => d.commands.any (PiSessionCommand.undelivered sessionId)
    else pure false
  let session := batchedSession session payload pending now !persisted.isEmpty
  let _ ← execute (update sessionsTable (fun _ s => s.id = sessionId) (PiSession.reported session now))
  commit
  return (session, persisted)

def enqueuePiSessionCommand (command : PiSessionCommand) (now : ℕ) : DbM Unit :=
  Prog.withLock .piBridge do
    insertRow (insertInto commandsTable (·.id) command)
    let updatedAt := if command.createdAt = 0 then now else command.createdAt
    let _ ← execute (update sessionsTable (fun _ s => s.id = command.sessionId) (PiSession.notified updatedAt))
    commit

/-- The undelivered commands that an incarnation holds, `ORDER BY created_at, rowid`. -/
def heldCommands (d : Tables) (sessionId incarnation : String) : List PiSessionCommand :=
  sortOn (·.createdAt) (d.commands.filter (PiSessionCommand.heldBy sessionId incarnation))

def claimPiSessionCommands (sessionId incarnation : String) (now : ℕ) (leaseSeconds : ℕ := 30) :
    DbM (List PiSessionCommand) := Prog.withLock .piBridge do
  let session ← getPiSession sessionId
  let _ ← Prog.ofExcept (checkIncarnation sessionId incarnation session)
  let _ ← execute (update commandsTable
    (fun _ => PiSessionCommand.leasable sessionId incarnation now leaseSeconds)
    (PiSessionCommand.leased incarnation now))
  let rows ← query (heldCommands · sessionId incarnation)
  commit
  return rows

def ackPiSessionCommand (sessionId commandId incarnation : String) (now : ℕ) : DbM Bool :=
  Prog.withLock .piBridge do
    let existing ← getPiSession sessionId
    let session ← Prog.ofExcept (checkIncarnation sessionId incarnation existing)
    let kind ← query fun d =>
      (d.commands.find? fun c => decide (c.id = commandId) && decide (c.sessionId = sessionId)).map (·.kind)
    let rowcount ← execute (update commandsTable
      (fun _ => PiSessionCommand.ackable sessionId commandId incarnation) (PiSessionCommand.delivered now))
    if rowcount ≠ 0 ∧ kind = some "prompt" ∧ session.state = .blocked then
      let _ ← execute (update sessionsTable (fun _ s => s.id = sessionId) (PiSession.answered now))
    commit
    return decide (rowcount ≠ 0)

def sweepSession (now : ℕ) (session : PiSession × ℕ) (uuid : ℕ → String) : DbM Unit := do
  let _ ← execute (update sessionsTable (fun _ s => s.id = session.1.id) (PiSession.stale now))
  insertRow (insertEvent
    { id := uuid session.2, sessionId := session.1.id, eventType := "bridge-stale", createdAt := now })

def staleSessions (cutoffTs : ℕ) (d : Tables) : List PiSession :=
  d.sessions.filter fun s =>
    s.sessionType.bridgeBacked && decide (s.lastSeen < cutoffTs) && decide (s.state ≠ .stopped) &&
      decide (s.state ≠ .failed)

def sweepStaleInteractivePiSessions (cutoffTs now : ℕ) (uuid : ℕ → String) : DbM (List String) :=
  Prog.withLock .piBridge do
    let rows ← query (staleSessions cutoffTs)
    Prog.forEach (fun row => sweepSession now row uuid) rows.zipIdx
    commit
    return rows.map (·.id)

/-- `WHERE session_id = ? AND sequence > ? ORDER BY sequence LIMIT ?`. -/
def eventPage (d : Tables) (sessionId : String) (after limit : Int) : List PiSessionEvent :=
  (sortOn (·.sequence) (d.events.filter fun e =>
    decide (e.sessionId = sessionId) && decide (max 0 after < e.sequence))).take (max 1 (min limit 1000)).toNat

def listPiSessionEvents (sessionId : String) (after : Int := 0) (limit : Int := 1000) : DbM (List PiSessionEvent) :=
  query (eventPage · sessionId after limit)

def insertPiSessionEvent (event : PiSessionEvent) : DbM Unit := do
  let _ ← execute (insertEvent event)
  commit

end Database

end WorkerHarness
