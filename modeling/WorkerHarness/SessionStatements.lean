import WorkerHarness.SessionRows

/-!
# The statements of the session methods

For each operation the statements that it can execute and the queries that it can ask, whatever
the answers are. The coroutines are walked through once, here; what later modules say about
all interleavings, about single tables or about two runs is said about single statements.
-/

namespace WorkerHarness.SessionStatements

open Coroutines SharedTransactions Database

inductive Executes : SessionOp → Statement Tables → Prop where
  | inserted (session : PiSession) : Executes (.insert session) (insertInto sessionsTable (·.id) session)
  | upserted (payload : PiBridgeRegister) (now : ℕ) (uuid : ℕ → String) (createdAt : ℕ) :
      Executes (.register payload now uuid) (upsertSession payload now createdAt)
  | resumed (payload : PiBridgeRegister) (now : ℕ) (uuid : ℕ → String) : Executes (.register payload now uuid)
      (update sessionsTable (fun _ s => s.id = payload.sessionId) (PiSession.resumingAt payload.resumePath))
  | released (payload : PiBridgeRegister) (now : ℕ) (uuid : ℕ → String) : Executes (.register payload now uuid)
      (update commandsTable (fun _ => PiSessionCommand.heldByOther payload.sessionId payload.incarnation)
        PiSessionCommand.released)
  | snapshot {payload : PiBridgeRegister} (now : ℕ) (uuid : ℕ → String) {e : PiIngestEvent × ℕ} :
      e ∈ payload.initialEvents.zipIdx → Executes (.register payload now uuid)
        (insertEvent (PiIngestEvent.row e.1 payload.sessionId (uuid e.2) now))
  | batched (sessionId : String) {payload : PiBridgeEventBatch} (now : ℕ) (uuid : ℕ → String)
      {e : PiIngestEvent × ℕ} : e ∈ payload.events.zipIdx →
        Executes (.events sessionId payload now uuid) (insertEvent (PiIngestEvent.row e.1 sessionId (uuid e.2) now))
  | reported (sessionId : String) (payload : PiBridgeEventBatch) (now : ℕ) (uuid : ℕ → String)
    (session : PiSession) :
      Executes (.events sessionId payload now uuid)
        (update sessionsTable (fun _ s => s.id = sessionId) (PiSession.reported session now))
  | blocked (sessionId question uuid : String) (now : ℕ) : Executes (.block sessionId question uuid now)
      (update sessionsTable (fun _ s => decide (s.id = sessionId) && !s.state.terminal)
        (PiSession.blocked question now))
  | asked (sessionId question uuid : String) (now : ℕ) : Executes (.block sessionId question uuid now)
      (insertEvent
        { id := uuid, sessionId := sessionId, eventType := "blocked",
          payload := [("question", .str question)], createdAt := now })
  | enqueued (command : PiSessionCommand) (now : ℕ) :
      Executes (.enqueue command now) (insertInto commandsTable (·.id) command)
  | notified (command : PiSessionCommand) (now : ℕ) : Executes (.enqueue command now)
      (update sessionsTable (fun _ s => s.id = command.sessionId)
        (PiSession.notified (if command.createdAt = 0 then now else command.createdAt)))
  | leased (sessionId incarnation : String) (now leaseSeconds : ℕ) :
      Executes (.claim sessionId incarnation now leaseSeconds)
        (update commandsTable (fun _ => PiSessionCommand.leasable sessionId incarnation now leaseSeconds)
          (PiSessionCommand.leased incarnation now))
  | delivered (sessionId commandId incarnation : String) (now : ℕ) :
      Executes (.ack sessionId commandId incarnation now)
        (update commandsTable (fun _ => PiSessionCommand.ackable sessionId commandId incarnation)
          (PiSessionCommand.delivered now))
  | answered (sessionId commandId incarnation : String) (now : ℕ) :
      Executes (.ack sessionId commandId incarnation now)
        (update sessionsTable (fun _ s => s.id = sessionId) (PiSession.answered now))
  | stopped (cutoffTs now : ℕ) (uuid : ℕ → String) (id : String) : Executes (.sweep cutoffTs now uuid)
      (update sessionsTable (fun _ s => s.id = id) (PiSession.stale now))
  | stale (cutoffTs now : ℕ) (uuid : ℕ → String) (row : PiSession × ℕ) : Executes (.sweep cutoffTs now uuid)
      (insertEvent { id := uuid row.2, sessionId := row.1.id, eventType := "bridge-stale", createdAt := now })
  | finished (sessionId : String) (state : PiSessionState) (detail : String) (now : ℕ) :
      Executes (.finish sessionId state detail now)
        (update sessionsTable (fun _ s => s.id = sessionId) (PiSession.finished state detail now))
  | reparented (oldId newId : String) : Executes (.reparent oldId newId)
      (update sessionsTable (childOf oldId newId) fun s => { s with parentSessionId := some newId })
  | patched (sessionId : String) (members : JsonObject) : Executes (.patch sessionId members)
      (update sessionsTable (fun _ s => s.id = sessionId) (PiSession.patched members))
  | nextPane (sessionId : String) : Executes (.nextPane sessionId)
      (update sessionsTable (fun _ s => s.id = sessionId) PiSession.nextPane)
  | event (event : PiSessionEvent) : Executes (.insertEvent event) (insertEvent event)

/-- The operation can ask the query. -/
inductive Asks : SessionOp → (β : Type) → (Tables → β) → Prop where
  | registering (payload : PiBridgeRegister) (now : ℕ) (uuid : ℕ → String) :
      Asks (.register payload now uuid) _ (findSession · payload.sessionId)
  | duplicate (payload : PiBridgeRegister) (now : ℕ) (uuid : ℕ → String) (eventType messageId : String) :
      Asks (.register payload now uuid) _ fun d => d.events.any fun e =>
        decide (e.sessionId = payload.sessionId) && decide (e.eventType = eventType) &&
          decide (e.payload.extractText "message_id" = some messageId)
  | reporting (sessionId : String) (payload : PiBridgeEventBatch) (now : ℕ) (uuid : ℕ → String) :
      Asks (.events sessionId payload now uuid) _ (findSession · sessionId)
  | pending (sessionId : String) (payload : PiBridgeEventBatch) (now : ℕ) (uuid : ℕ → String) :
      Asks (.events sessionId payload now uuid) _ fun d => d.commands.any (PiSessionCommand.undelivered sessionId)
  | claiming (sessionId incarnation : String) (now leaseSeconds : ℕ) :
      Asks (.claim sessionId incarnation now leaseSeconds) _ (findSession · sessionId)
  | held (sessionId incarnation : String) (now leaseSeconds : ℕ) :
      Asks (.claim sessionId incarnation now leaseSeconds) _ (heldCommands · sessionId incarnation)
  | acknowledging (sessionId commandId incarnation : String) (now : ℕ) :
      Asks (.ack sessionId commandId incarnation now) _ (findSession · sessionId)
  | kind (sessionId commandId incarnation : String) (now : ℕ) :
      Asks (.ack sessionId commandId incarnation now) _ fun d =>
        (d.commands.find? fun c => decide (c.id = commandId) && decide (c.sessionId = sessionId)).map (·.kind)
  | sweeping (cutoffTs now : ℕ) (uuid : ℕ → String) : Asks (.sweep cutoffTs now uuid) _ (staleSessions cutoffTs)

variable {S : Statement Tables → Prop} {Q : (β : Type) → (Tables → β) → Prop}

theorem calls_query {β : Type} {q : Tables → β} (hq : Q β q) : Calls S Q (query q : DbM β) := ⟨hq, fun _ => trivial⟩

theorem calls_execute {s : Statement Tables} (hs : S s) : Calls S Q (execute s) := ⟨hs, fun _ => trivial⟩

theorem calls_commit : Calls S Q commit := trivial

theorem calls_insertRow {s : Statement Tables} (hs : S s) : Calls S Q (insertRow s) := by
  refine (calls_execute hs).bind fun rowcount => ?_
  split <;> trivial

theorem calls_insertInitialEvent (payload : PiBridgeRegister) (now : ℕ) (uuid : ℕ → String) {e : PiIngestEvent × ℕ}
    (he : e ∈ payload.initialEvents.zipIdx) :
    Calls (Executes (.register payload now uuid)) (Asks (.register payload now uuid))
      (insertInitialEvent payload.sessionId now e.1 (uuid e.2)) := by
  unfold insertInitialEvent
  split
  · trivial
  · split
    · trivial
    · split
      · trivial
      · refine (calls_query (.duplicate payload now uuid _ _)).bind fun duplicate => ?_
        split
        · trivial
        · exact (calls_execute (.snapshot now uuid he)).bind fun _ => trivial

theorem calls_insertBatchEvents (sessionId : String) (payload : PiBridgeEventBatch) (now : ℕ) (uuid : ℕ → String)
    {es : List (PiIngestEvent × ℕ)} (hes : es ⊆ payload.events.zipIdx) :
    Calls (Executes (.events sessionId payload now uuid)) (Asks (.events sessionId payload now uuid))
      (insertBatchEvents sessionId now uuid es) := by
  induction es with
  | nil => trivial
  | cons e es ih =>
    exact (calls_execute (.batched sessionId now uuid (hes (by simp)))).bind fun _ =>
      (ih fun e' he' => hes (by simp [he'])).bind fun _ => trivial

/-- A registration once its row is written. -/
theorem calls_registered_of {payload : PiBridgeRegister} {now : ℕ} {uuid : ℕ → String}
    (hfind : Q _ (findSession · payload.sessionId))
    (hreleased : S (update commandsTable
      (fun _ => PiSessionCommand.heldByOther payload.sessionId payload.incarnation)
      PiSessionCommand.released))
    (hinitial : ∀ e ∈ payload.initialEvents.zipIdx,
      Calls S Q (insertInitialEvent payload.sessionId now e.1 (uuid e.2))) :
    Calls S Q (do
      let _ ← execute (update commandsTable
        (fun _ => PiSessionCommand.heldByOther payload.sessionId payload.incarnation) PiSessionCommand.released)
      Prog.forEach (fun e => insertInitialEvent payload.sessionId now e.1 (uuid e.2)) payload.initialEvents.zipIdx
      commit
      let session ← getPiSession payload.sessionId
      match session with
      | none => (.raise .assertionError : DbM PiSession)
      | some session => return session) := by
  refine (calls_execute hreleased).bind fun _ => (Calls.forEach hinitial).bind fun _ => ?_
  refine calls_commit.bind fun _ => (calls_query hfind).bind fun session => ?_
  split <;> trivial

/-- A registration calls its own statements and queries, and what it calls for its snapshot. -/
theorem calls_register_of {payload : PiBridgeRegister} {now : ℕ} {uuid : ℕ → String}
    (hfind : Q _ (findSession · payload.sessionId))
    (hupserted : ∀ createdAt, S (upsertSession payload now createdAt))
    (hresumed : S (update sessionsTable (fun _ s => s.id = payload.sessionId)
      (PiSession.resumingAt payload.resumePath)))
    (hreleased : S (update commandsTable
      (fun _ => PiSessionCommand.heldByOther payload.sessionId payload.incarnation)
      PiSessionCommand.released))
    (hinitial : ∀ e ∈ payload.initialEvents.zipIdx,
      Calls S Q (insertInitialEvent payload.sessionId now e.1 (uuid e.2))) :
    Calls S Q (registerInteractivePiSession payload now uuid) := by
  have hend := calls_registered_of hfind hreleased hinitial
  refine Calls.withLock ((calls_query hfind).bind fun existing => ?_)
  split
  · trivial
  · refine (calls_execute (hupserted _)).bind fun _ => ?_
    split
    · exact (calls_execute hresumed).bind fun _ => hend
    · exact hend

theorem calls_register (payload : PiBridgeRegister) (now : ℕ) (uuid : ℕ → String) :
    Calls (Executes (.register payload now uuid)) (Asks (.register payload now uuid))
      (registerInteractivePiSession payload now uuid) :=
  calls_register_of (.registering payload now uuid) (.upserted payload now uuid) (.resumed payload now uuid)
    (.released payload now uuid) fun _ he => calls_insertInitialEvent payload now uuid he

theorem calls_events (sessionId : String) (payload : PiBridgeEventBatch) (now : ℕ) (uuid : ℕ → String) :
    Calls (Executes (.events sessionId payload now uuid)) (Asks (.events sessionId payload now uuid))
      (applyInteractivePiEvents sessionId payload now uuid) := by
  refine Calls.withLock ((calls_query (.reporting sessionId payload now uuid)).bind fun existing => ?_)
  refine (Calls.ofExcept _).bind fun session => ?_
  refine (calls_insertBatchEvents sessionId payload now uuid (List.Subset.refl _)).bind fun persisted => ?_
  have hend : ∀ pending : Bool,
      Calls (Executes (.events sessionId payload now uuid)) (Asks (.events sessionId payload now uuid)) (do
        let session := batchedSession session payload pending now !persisted.isEmpty
        let _ ← execute (update sessionsTable (fun _ s => s.id = sessionId) (PiSession.reported session now))
        commit
        return (session, persisted) : DbM (PiSession × List PiSessionEvent)) := fun pending =>
    (calls_execute (.reported sessionId payload now uuid _)).bind fun _ => calls_commit.bind fun _ => trivial
  dsimp only
  split
  · exact (calls_query (.pending sessionId payload now uuid)).bind hend
  · exact hend false

theorem calls_ack (sessionId commandId incarnation : String) (now : ℕ) :
    Calls (Executes (.ack sessionId commandId incarnation now)) (Asks (.ack sessionId commandId incarnation now))
      (ackPiSessionCommand sessionId commandId incarnation now) := by
  refine Calls.withLock ((calls_query (.acknowledging sessionId commandId incarnation now)).bind fun existing => ?_)
  refine (Calls.ofExcept _).bind fun session => ?_
  refine (calls_query (.kind sessionId commandId incarnation now)).bind fun kind => ?_
  refine (calls_execute (.delivered sessionId commandId incarnation now)).bind fun rowcount => ?_
  split
  · exact (calls_execute (.answered sessionId commandId incarnation now)).bind fun _ =>
      calls_commit.bind fun _ => trivial
  · exact calls_commit.bind fun _ => trivial

theorem calls_block (sessionId question uuid : String) (now : ℕ) :
    Calls (Executes (.block sessionId question uuid now)) (Asks (.block sessionId question uuid now))
      (setPiSessionBlocked sessionId question uuid now) := by
  refine Calls.withLock ((calls_execute (.blocked sessionId question uuid now)).bind fun rowcount => ?_)
  split
  · exact calls_commit.bind fun _ => trivial
  · exact (calls_insertRow (.asked sessionId question uuid now)).bind fun _ => calls_commit

theorem calls_sweep (cutoffTs now : ℕ) (uuid : ℕ → String) :
    Calls (Executes (.sweep cutoffTs now uuid)) (Asks (.sweep cutoffTs now uuid))
      (sweepStaleInteractivePiSessions cutoffTs now uuid) := by
  refine Calls.withLock ((calls_query (.sweeping cutoffTs now uuid)).bind fun rows => ?_)
  refine (Calls.forEach fun row _ => ?_).bind fun _ => calls_commit.bind fun _ => trivial
  exact (calls_execute (.stopped cutoffTs now uuid _)).bind fun _ => calls_insertRow (.stale cutoffTs now uuid row)

/-- Every operation calls only its own statements and queries. -/
theorem calls_prog (op : SessionOp) : Calls (Executes op) (Asks op) op.prog := by
  cases op with
  | insert session => exact (calls_insertRow (.inserted session)).bind fun _ => calls_commit
  | register payload now uuid => exact (calls_register payload now uuid).bind fun _ => trivial
  | events sessionId payload now uuid => exact (calls_events sessionId payload now uuid).bind fun _ => trivial
  | block sessionId question uuid now => exact calls_block sessionId question uuid now
  | enqueue command now =>
    exact Calls.withLock ((calls_insertRow (.enqueued command now)).bind fun _ =>
      (calls_execute (.notified command now)).bind fun _ => calls_commit)
  | claim sessionId incarnation now leaseSeconds =>
    refine Calls.bind (Calls.withLock ?_) fun _ => trivial
    refine (calls_query (.claiming sessionId incarnation now leaseSeconds)).bind fun session => ?_
    refine (Calls.ofExcept _).bind fun _ =>
      (calls_execute (.leased sessionId incarnation now leaseSeconds)).bind fun _ => ?_
    exact (calls_query (.held sessionId incarnation now leaseSeconds)).bind fun _ =>
      calls_commit.bind fun _ => trivial
  | ack sessionId commandId incarnation now => exact (calls_ack _ _ _ _).bind fun _ => trivial
  | sweep cutoffTs now uuid => exact (calls_sweep cutoffTs now uuid).bind fun _ => trivial
  | finish sessionId state detail now =>
    exact Calls.withLock ((calls_execute (.finished sessionId state detail now)).bind fun _ => calls_commit)
  | reparent oldId newId => exact (calls_execute (.reparented oldId newId)).bind fun _ => calls_commit
  | patch sessionId members => exact (calls_execute (.patched sessionId members)).bind fun _ => calls_commit
  | nextPane sessionId =>
    refine Calls.withLock ((calls_execute (.nextPane sessionId)).bind fun rowcount => calls_commit.bind fun _ => ?_)
    split <;> trivial
  | insertEvent event => exact (calls_execute (.event event)).bind fun _ => calls_commit

theorem uncommitted_insertRow (s : Statement Tables) : Uncommitted (insertRow s) :=
  uncommitted_execute.bind fun rowcount => by split <;> exact fun _ _ => rfl

theorem uncommitted_insertInitialEvent (sessionId : String) (now : ℕ) (event : PiIngestEvent) (uuid : String) :
    Uncommitted (insertInitialEvent sessionId now event uuid) := by
  unfold insertInitialEvent
  split
  · exact fun _ _ => rfl
  · split
    · exact fun _ _ => rfl
    · split
      · exact fun _ _ => rfl
      · refine uncommitted_query.bind fun duplicate => ?_
        split
        · exact fun _ _ => rfl
        · exact uncommitted_execute.bind fun _ _ _ => rfl

theorem uncommitted_insertBatchEvents (sessionId : String) (now : ℕ) (uuid : ℕ → String)
    (es : List (PiIngestEvent × ℕ)) : Uncommitted (insertBatchEvents sessionId now uuid es) := by
  induction es with
  | nil => exact fun _ _ => rfl
  | cons e es ih => exact uncommitted_execute.bind fun _ => ih.bind fun _ _ _ => rfl

/-- Every operation commits at its end or not at all. -/
theorem settles_registered (payload : PiBridgeRegister) (now : ℕ) (uuid : ℕ → String) : Settles (do
    let _ ← execute (update commandsTable
      (fun _ => PiSessionCommand.heldByOther payload.sessionId payload.incarnation) PiSessionCommand.released)
    Prog.forEach (fun e => insertInitialEvent payload.sessionId now e.1 (uuid e.2)) payload.initialEvents.zipIdx
    commit
    let session ← getPiSession payload.sessionId
    match session with
    | none => (.raise .assertionError : DbM PiSession)
    | some session => return session) := by
  refine uncommitted_execute.bind_settles fun _ => ?_
  refine (uncommitted_forEach (fun e => uncommitted_insertInitialEvent _ _ _ _) _).bind_settles fun _ => ?_
  refine settles_commit.bind_still fun _ => still_query.bind fun session => ?_
  cases session <;> exact fun _ _ => rfl

theorem settles_prog (op : SessionOp) : Settles op.prog := by
  have hret : ∀ {α : Type} {p : DbM α}, Settles p → Settles (p.bind fun _ => (.ret () : DbM Unit)) :=
    fun hp => hp.bind_still fun _ _ _ => rfl
  cases op with
  | insert session => exact (uncommitted_insertRow _).bind_settles fun _ => settles_commit
  | register payload now uuid =>
    have hend := settles_registered payload now uuid
    refine hret (Settles.withLock (uncommitted_query.bind_settles fun existing => ?_))
    split
    · exact fun _ _ => .inl rfl
    · refine uncommitted_execute.bind_settles fun _ => ?_
      split
      · exact uncommitted_execute.bind_settles fun _ => hend
      · exact hend
  | events sessionId payload now uuid =>
    refine hret (Settles.withLock (uncommitted_query.bind_settles fun existing => ?_))
    refine uncommitted_ofExcept.bind_settles fun session => ?_
    refine (uncommitted_insertBatchEvents _ _ _ _).bind_settles fun persisted => ?_
    have hend : ∀ pending : Bool, Settles (do
        let session := batchedSession session payload pending now !persisted.isEmpty
        let _ ← execute (update sessionsTable (fun _ s => s.id = sessionId) (PiSession.reported session now))
        commit
        return (session, persisted) : DbM (PiSession × List PiSessionEvent)) := fun pending =>
      uncommitted_execute.bind_settles fun _ => settles_commit.bind_still fun _ _ _ => rfl
    dsimp only
    split
    · exact uncommitted_query.bind_settles hend
    · exact hend false
  | block sessionId question uuid now =>
    refine Settles.withLock (uncommitted_execute.bind_settles fun rowcount => ?_)
    split
    · exact settles_commit.bind_still fun _ _ _ => rfl
    · exact (uncommitted_insertRow _).bind_settles fun _ => settles_commit
  | enqueue command now =>
    exact Settles.withLock ((uncommitted_insertRow _).bind_settles fun _ =>
      uncommitted_execute.bind_settles fun _ => settles_commit)
  | claim sessionId incarnation now leaseSeconds =>
    refine hret (Settles.withLock (uncommitted_query.bind_settles fun existing => ?_))
    refine uncommitted_ofExcept.bind_settles fun _ => uncommitted_execute.bind_settles fun _ => ?_
    exact uncommitted_query.bind_settles fun _ => settles_commit.bind_still fun _ _ _ => rfl
  | ack sessionId commandId incarnation now =>
    refine hret (Settles.withLock (uncommitted_query.bind_settles fun existing => ?_))
    refine uncommitted_ofExcept.bind_settles fun session => uncommitted_query.bind_settles fun kind => ?_
    refine uncommitted_execute.bind_settles fun rowcount => ?_
    split
    · exact uncommitted_execute.bind_settles fun _ => settles_commit.bind_still fun _ _ _ => rfl
    · exact settles_commit.bind_still fun _ _ _ => rfl
  | sweep cutoffTs now uuid =>
    refine hret (Settles.withLock (uncommitted_query.bind_settles fun rows => ?_))
    refine (uncommitted_forEach (fun row => ?_) _).bind_settles fun _ => settles_commit.bind_still fun _ _ _ => rfl
    exact uncommitted_execute.bind fun _ => uncommitted_insertRow _
  | finish sessionId state detail now =>
    exact Settles.withLock (uncommitted_execute.bind_settles fun _ => settles_commit)
  | reparent oldId newId => exact uncommitted_execute.bind_settles fun _ => settles_commit
  | patch sessionId members => exact uncommitted_execute.bind_settles fun _ => settles_commit
  | nextPane sessionId =>
    refine Settles.withLock (uncommitted_execute.bind_settles fun rowcount => settles_commit.bind_still fun _ => ?_)
    split <;> exact fun _ _ => rfl
  | insertEvent event => exact uncommitted_execute.bind_settles fun _ => settles_commit

/-- The tables after an operation are those after its coroutine has run alone. -/
theorem run_eq_alone (d : Tables) (op : SessionOp) : op.run d = (alone op.prog d d).2.2 := by
  have hret : ∀ {α : Type} (p : DbM α), (alone (p.bind fun _ => (.ret () : DbM Unit)) d d).2.2 =
    (alone p d d).2.2 := by
    intro α p
    rw [alone_bind]
    rcases alone p d d with ⟨_ | _, _, _⟩ <;> rfl
  cases op with
  | register => exact (hret _).symm
  | events => exact (hret _).symm
  | claim => exact (hret _).symm
  | ack => exact (hret _).symm
  | sweep => exact (hret _).symm
  | _ => rfl

end WorkerHarness.SessionStatements
