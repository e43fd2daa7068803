import WorkerHarness.AtomicMethods
import WorkerHarness.DatabaseSessions

/-!
# Session methods as single steps

The equations of the session and mailbox methods when nothing runs in between. What a
method does to the event table is left open; no other method reads it.
-/

namespace WorkerHarness.Database

open Coroutines SharedTransactions SortedLists

variable {α β R : Type}

def withSessions (d : Tables) (sessions : List PiSession) (commands : List PiSessionCommand)
    (events : List PiSessionEvent) : Tables :=
  { d with sessions := sessions, commands := commands, events := events }

@[simp] theorem withSessions_sessions (d : Tables) (ss : List PiSession) (cs : List PiSessionCommand)
    (es : List PiSessionEvent) : (withSessions d ss cs es).sessions = ss := rfl

@[simp] theorem withSessions_commands (d : Tables) (ss : List PiSession) (cs : List PiSessionCommand)
    (es : List PiSessionEvent) : (withSessions d ss cs es).commands = cs := rfl

@[simp] theorem withSessions_events (d : Tables) (ss : List PiSession) (cs : List PiSessionCommand)
    (es : List PiSessionEvent) : (withSessions d ss cs es).events = es := rfl

@[simp] theorem withSessions_withSessions (d : Tables) (ss ss' : List PiSession) (cs cs' : List PiSessionCommand)
    (es es' : List PiSessionEvent) :
    withSessions (withSessions d ss cs es) ss' cs' es' = withSessions d ss' cs' es' := rfl

@[simp] theorem withSessions_self (d : Tables) : withSessions d d.sessions d.commands d.events = d := rfl

@[simp] theorem update_sessions_apply (p : Tables → PiSession → Bool) (f : PiSession → PiSession) (d : Tables) :
    (update sessionsTable p f).apply d = withSessions d (updateRows (p d) f d.sessions) d.commands d.events := rfl

@[simp] theorem update_commands_apply (p : Tables → PiSessionCommand → Bool)
    (f : PiSessionCommand → PiSessionCommand) (d : Tables) :
    (update commandsTable p f).apply d = withSessions d d.sessions (updateRows (p d) f d.commands) d.events := rfl

/-- An inserted event changes the event table only. -/
theorem insertEvent_apply (event : PiSessionEvent) (d : Tables) :
    ∃ events, (insertEvent event).apply d = withSessions d d.sessions d.commands events := by
  simp only [insertEvent]
  split
  · exact ⟨d.events, rfl⟩
  · exact ⟨d.events ++ [{ event with sequence := nextSequence d event.sessionId }], rfl⟩

theorem insertEvent_rowcount (event : PiSessionEvent) (d : Tables) :
    (insertEvent event).rowcount d = if d.events.any (fun e => e.id = event.id) then 0 else 1 := rfl

theorem find?_updateRows {p q : R → Bool} {f : R → R} (hf : ∀ r, q (f r) = q r) (rs : List R) :
    (updateRows p f rs).find? q = (rs.find? q).map fun r => if p r then f r else r := by
  unfold updateRows
  rw [List.find?_map, show (q ∘ fun r => if p r then f r else r) = q from funext fun r => ?_]
  simp only [Function.comp]
  split
  · exact hf r
  · rfl

/-- Looking up a session by its id after an update of the row with some id. -/
theorem find?_updateRows_id (f : PiSession → PiSession) (hf : ∀ s, (f s).id = s.id) (sessions : List PiSession)
    (id id' : String) :
    (updateRows (fun s => s.id = id') f sessions).find? (fun s => s.id = id) =
      if id = id' then (sessions.find? fun s => s.id = id).map f else sessions.find? fun s => s.id = id := by
  rw [find?_updateRows fun s => by rw [hf s]]
  cases h : sessions.find? fun s => s.id = id with
  | none => simp
  | some s =>
    have hs : s.id = id := by simpa using List.find?_some h
    by_cases hid : id = id' <;> simp [hs, hid]

theorem findSession_id {d : Tables} {id : String} {s : PiSession} (h : findSession d id = some s) : s.id = id := by
  simpa using List.find?_some h

/-- A coroutine that inserts events, changes nothing else and does not raise. -/
def EventsOnly (p : DbM α) : Prop :=
  ∀ d w, ∃ a events, alone p d w = (.ok a, d, withSessions w w.sessions w.commands events)

theorem EventsOnly.ret (a : α) : EventsOnly (.ret a) := fun _ w => ⟨a, w.events, rfl⟩

theorem EventsOnly.query {q : Tables → α} : EventsOnly (Database.query q) := fun _ w => ⟨q w, w.events, rfl⟩

theorem EventsOnly.execute (event : PiSessionEvent) : EventsOnly (Database.execute (insertEvent event)) := by
  intro d w
  obtain ⟨events, h⟩ := insertEvent_apply event w
  exact ⟨(insertEvent event).rowcount w, events, by simp [h]⟩

theorem EventsOnly.bind {p : DbM α} {f : α → DbM β} (hp : EventsOnly p) (hf : ∀ a, EventsOnly (f a)) :
    EventsOnly (p.bind f) := by
  intro d w
  obtain ⟨a, events, h⟩ := hp d w
  obtain ⟨b, events', h'⟩ := hf a d (withSessions w w.sessions w.commands events)
  exact ⟨b, events', by simpa [h] using h'⟩

theorem EventsOnly.forEach {f : α → DbM Unit} (hf : ∀ a, EventsOnly (f a)) (as : List α) :
    EventsOnly (Prog.forEach f as) := by
  induction as with
  | nil => exact EventsOnly.ret ()
  | cons a as ih => exact (hf a).bind fun _ => ih

theorem eventsOnly_insertInitialEvent (sessionId : String) (now : ℕ) (event : PiIngestEvent) (uuid : String) :
    EventsOnly (insertInitialEvent sessionId now event uuid) := by
  unfold insertInitialEvent
  split
  · exact EventsOnly.ret ()
  · split
    · exact EventsOnly.ret ()
    · split
      · exact EventsOnly.ret ()
      · refine EventsOnly.query.bind fun duplicate => ?_
        cases duplicate with
        | true => exact EventsOnly.ret ()
        | false => exact (EventsOnly.execute _).bind fun _ => EventsOnly.ret ()

theorem eventsOnly_insertBatchEvents (sessionId : String) (now : ℕ) (uuid : ℕ → String)
    (es : List (PiIngestEvent × ℕ)) : EventsOnly (insertBatchEvents sessionId now uuid es) := by
  induction es with
  | nil => exact EventsOnly.ret []
  | cons e es ih => exact (EventsOnly.execute _).bind fun _ => ih.bind fun _ => EventsOnly.ret _

def enqueuedTables (command : PiSessionCommand) (now : ℕ) (d : Tables) : Tables :=
  withSessions d (updateRows (fun s => s.id = command.sessionId)
    (PiSession.notified (if command.createdAt = 0 then now else command.createdAt)) d.sessions)
    (d.commands ++ [command]) d.events

theorem atomically_enqueuePiSessionCommand (command : PiSessionCommand) (now : ℕ) (d : Tables) :
    atomically (enqueuePiSessionCommand command now) d =
      if d.commands.any (fun c => c.id = command.id) then (.error .integrityError, d)
      else (.ok (), enqueuedTables command now d) := by
  by_cases h : ∃ c ∈ d.commands, c.id = command.id <;>
    simp [atomically, enqueuePiSessionCommand, insertInto, commandsTable, enqueuedTables, withSessions, h]

def Current (d : Tables) (sessionId incarnation : String) : Prop :=
  ∃ s, findSession d sessionId = some s ∧ s.bridgeIncarnation = some incarnation

theorem checkIncarnation_eq_ok {session : Option PiSession} {sessionId incarnation : String} {s : PiSession} :
    checkIncarnation sessionId incarnation session = .ok s ↔
      session = some s ∧ s.bridgeIncarnation = some incarnation := by
  cases session with
  | none => simp [checkIncarnation]
  | some a =>
    have hb : a.sessionType.bridgeBacked = true := by cases a.sessionType <;> rfl
    simp only [checkIncarnation, hb, Bool.not_true, Bool.false_eq_true, if_false, Option.some.injEq]
    by_cases hi : a.bridgeIncarnation = some incarnation
    · simp only [hi, ne_eq, not_true_eq_false, if_false, Except.ok.injEq]
      refine ⟨fun he => ⟨he, he ▸ hi⟩, fun he => he.1⟩
    · simp only [ne_eq, hi, not_false_eq_true, if_true, reduceCtorEq, false_iff, not_and]
      rintro rfl
      exact hi

theorem current_iff {d : Tables} {sessionId incarnation : String} :
    Current d sessionId incarnation ↔
      ∃ s, checkIncarnation sessionId incarnation (findSession d sessionId) = .ok s := by
  simp only [Current, checkIncarnation_eq_ok]

def leasedTables (sessionId incarnation : String) (now leaseSeconds : ℕ) (d : Tables) : Tables :=
  withSessions d d.sessions (updateRows (PiSessionCommand.leasable sessionId incarnation now leaseSeconds)
    (PiSessionCommand.leased incarnation now) d.commands) d.events

theorem atomically_claimPiSessionCommands (sessionId incarnation : String) (now leaseSeconds : ℕ) (d : Tables) :
    atomically (claimPiSessionCommands sessionId incarnation now leaseSeconds) d =
      match checkIncarnation sessionId incarnation (findSession d sessionId) with
      | .error e => (.error e, d)
      | .ok _ => (.ok (heldCommands (leasedTables sessionId incarnation now leaseSeconds d) sessionId incarnation),
          leasedTables sessionId incarnation now leaseSeconds d) := by
  cases h : checkIncarnation sessionId incarnation (findSession d sessionId) <;>
    simp [atomically, claimPiSessionCommands, getPiSession, h, leasedTables]

def Answers (sessionId commandId incarnation : String) (session : PiSession) (d : Tables) : Prop :=
  d.commands.any (PiSessionCommand.ackable sessionId commandId incarnation) = true ∧
    (d.commands.find? fun c => decide (c.id = commandId) && decide (c.sessionId = sessionId)).map (·.kind) =
      some "prompt" ∧ session.state = .blocked

instance (sessionId commandId incarnation : String) (session : PiSession) (d : Tables) :
    Decidable (Answers sessionId commandId incarnation session d) := inferInstanceAs (Decidable (_ ∧ _ ∧ _))

def ackedTables (sessionId commandId incarnation : String) (now : ℕ) (session : PiSession) (d : Tables) : Tables :=
  withSessions d
    (if Answers sessionId commandId incarnation session d then
      updateRows (fun s => s.id = sessionId) (PiSession.answered now) d.sessions else d.sessions)
    (updateRows (PiSessionCommand.ackable sessionId commandId incarnation)
      (PiSessionCommand.delivered now) d.commands)
    d.events

theorem atomically_ackPiSessionCommand (sessionId commandId incarnation : String) (now : ℕ) (d : Tables) :
    atomically (ackPiSessionCommand sessionId commandId incarnation now) d =
      match checkIncarnation sessionId incarnation (findSession d sessionId) with
      | .error e => (.error e, d)
      | .ok session => (.ok (d.commands.any (PiSessionCommand.ackable sessionId commandId incarnation)),
          ackedTables sessionId commandId incarnation now session d) := by
  cases h : checkIncarnation sessionId incarnation (findSession d sessionId) with
  | error e => simp [atomically, ackPiSessionCommand, getPiSession, h]
  | ok session =>
    have hrow : (update commandsTable (fun _ => PiSessionCommand.ackable sessionId commandId incarnation)
        (PiSessionCommand.delivered now)).rowcount d = 0 ↔
          d.commands.any (PiSessionCommand.ackable sessionId commandId incarnation) = false := by
      rw [update_rowcount_eq_zero]
      simp [commandsTable]
    -- The acknowledgement changes no kind, so the kind read before it decides the branch.
    have hbranch : ((update commandsTable (fun _ => PiSessionCommand.ackable sessionId commandId incarnation)
        (PiSessionCommand.delivered now)).rowcount d ≠ 0 ∧
          (d.commands.find? fun c => decide (c.id = commandId) && decide (c.sessionId = sessionId)).map (·.kind) =
            some "prompt" ∧ session.state = .blocked) ↔ Answers sessionId commandId incarnation session d := by
      rw [Ne, hrow, Answers, Bool.not_eq_false]
    by_cases ha : Answers sessionId commandId incarnation session d
    · have hb := hbranch.mpr ha
      simp [atomically, ackPiSessionCommand, getPiSession, h, hb, ackedTables, ha, ha.1]
    · have hb := mt hbranch.mp ha
      have hok : decide ((update commandsTable (fun _ => PiSessionCommand.ackable sessionId commandId incarnation)
          (PiSessionCommand.delivered now)).rowcount d ≠ 0) =
            d.commands.any (PiSessionCommand.ackable sessionId commandId incarnation) := by
        rw [Bool.eq_iff_iff, decide_eq_true_eq, Ne, hrow, Bool.not_eq_false]
      simp only [atomically, ackPiSessionCommand, Prog.bind_eq, alone_withLock, alone_bind, getPiSession,
        alone_query, h,
        alone_ofExcept, alone_execute, if_neg hb, hok]
      simp [ackedTables, ha]

theorem atomically_finishPiSession (sessionId : String) (state : PiSessionState) (detail : String) (now : ℕ)
    (d : Tables) :
    atomically (finishPiSession sessionId state detail now) d =
      (.ok (), withSessions d (updateRows (fun s => s.id = sessionId)
        (PiSession.finished state detail now) d.sessions)
        d.commands d.events) := by
  simp [atomically, finishPiSession]

theorem atomically_reparentPiSessionChildren (oldId newId : String) (d : Tables) :
    atomically (reparentPiSessionChildren oldId newId) d =
      (.ok (), withSessions d
        (updateRows (childOf oldId newId d) (fun s => { s with parentSessionId := some newId }) d.sessions)
        d.commands d.events) := by
  simp [atomically, reparentPiSessionChildren]

theorem atomically_setPiSessionBlocked (sessionId question uuid : String) (now : ℕ) (d : Tables) :
    ∃ events, atomically (setPiSessionBlocked sessionId question uuid now) d =
      (if d.sessions.any (fun s => decide (s.id = sessionId) && !s.state.terminal) then
          if d.events.any (fun e => e.id = uuid) then .error .integrityError else .ok ()
        else .error (.valueError "task session is no longer active"),
        withSessions d (updateRows (fun s => decide (s.id = sessionId) && !s.state.terminal)
          (PiSession.blocked question now) d.sessions) d.commands events) := by
  obtain ⟨events, hevents⟩ := insertEvent_apply
    { id := uuid, sessionId := sessionId, eventType := "blocked", payload := [("question", .str question)],
      createdAt := now }
    (withSessions d (updateRows (fun s => decide (s.id = sessionId) && !s.state.terminal)
      (PiSession.blocked question now) d.sessions) d.commands d.events)
  cases hany : d.sessions.any fun s => decide (s.id = sessionId) && !s.state.terminal with
  | false =>
    have hnone : ∀ s ∈ d.sessions, (decide (s.id = sessionId) && !s.state.terminal) = false :=
      fun s hs => by simpa using List.any_eq_false.mp hany s hs
    have hrow : (update sessionsTable (fun _ s => decide (s.id = sessionId) && !s.state.terminal)
        (PiSession.blocked question now)).rowcount d = 0 := update_rowcount_eq_zero.mpr hnone
    exact ⟨d.events, by simp [atomically, setPiSessionBlocked, hrow]⟩
  | true =>
    obtain ⟨s, hs, hp⟩ := List.any_eq_true.mp hany
    have hrow : (update sessionsTable (fun _ s => decide (s.id = sessionId) && !s.state.terminal)
        (PiSession.blocked question now)).rowcount d ≠ 0 := update_rowcount_ne_zero hs hp
    by_cases hid : ∃ e ∈ d.events, e.id = uuid
    · exact ⟨events, by simp [atomically, setPiSessionBlocked, hrow, hevents, insertEvent_rowcount, hid]⟩
    · exact ⟨events, by simp [atomically, setPiSessionBlocked, hrow, hevents, insertEvent_rowcount, hid]⟩

/-- A batch, with what its loop stores. -/
theorem atomically_applyInteractivePiEvents_of {sessionId : String} {payload : PiBridgeEventBatch} {now : ℕ}
    {uuid : ℕ → String} {d : Tables} {session : PiSession} {persisted events : List PiSessionEvent}
    (h : checkIncarnation sessionId payload.incarnation (findSession d sessionId) = .ok session)
    (hloop : alone (insertBatchEvents sessionId now uuid payload.events.zipIdx) d d =
      (.ok persisted, d, withSessions d d.sessions d.commands events)) :
    let pending := payload.hasPendingMessages.isSome && d.commands.any (PiSessionCommand.undelivered sessionId)
    let session' := batchedSession session payload pending now !persisted.isEmpty
    atomically (applyInteractivePiEvents sessionId payload now uuid) d =
      (.ok (session', persisted),
        withSessions d (updateRows (fun s => s.id = sessionId) (PiSession.reported session' now) d.sessions)
          d.commands events) := by
  cases hp : payload.hasPendingMessages <;>
    simp [atomically, applyInteractivePiEvents, getPiSession, h, hloop, hp]

theorem atomically_applyInteractivePiEvents (sessionId : String) (payload : PiBridgeEventBatch) (now : ℕ)
    (uuid : ℕ → String) (d : Tables) :
    match checkIncarnation sessionId payload.incarnation (findSession d sessionId) with
    | .error e => atomically (applyInteractivePiEvents sessionId payload now uuid) d = (.error e, d)
    | .ok session => ∃ persisted events,
        let pending := payload.hasPendingMessages.isSome && d.commands.any (PiSessionCommand.undelivered sessionId)
        let session' := batchedSession session payload pending now !persisted.isEmpty
        atomically (applyInteractivePiEvents sessionId payload now uuid) d =
          (.ok (session', persisted),
            withSessions d (updateRows (fun s => s.id = sessionId) (PiSession.reported session' now) d.sessions)
              d.commands events) := by
  cases h : checkIncarnation sessionId payload.incarnation (findSession d sessionId) with
  | error e => simp [atomically, applyInteractivePiEvents, getPiSession, h]
  | ok session =>
    obtain ⟨persisted, events, hevents⟩ :=
      eventsOnly_insertBatchEvents sessionId now uuid payload.events.zipIdx d d
    exact ⟨persisted, events, atomically_applyInteractivePiEvents_of h hevents⟩

def Swept (now : ℕ) (g : PiSession → PiSession) : Prop := ∀ s, g s = s ∨ g s = s.stale now

theorem Swept.comp {now : ℕ} {g g' : PiSession → PiSession} (h : Swept now g) (h' : Swept now g') :
    Swept now (g' ∘ g) := by
  intro s
  show g' (g s) = s ∨ g' (g s) = s.stale now
  rcases h s with hs | hs <;> rcases h' (g s) with hs' | hs' <;> rw [hs', hs]
  · exact .inl rfl
  · exact .inr rfl
  · exact .inr rfl
  · exact .inr rfl

theorem alone_sweepSession (now : ℕ) (row : PiSession × ℕ) (uuid : ℕ → String) (d w : Tables) :
    ∃ r g events, alone (sweepSession now row uuid) d w =
        (r, d, withSessions w (w.sessions.map g) w.commands events) ∧ Swept now g := by
  obtain ⟨events, hevents⟩ := insertEvent_apply
    { id := uuid row.2, sessionId := row.1.id, eventType := "bridge-stale", createdAt := now }
    (withSessions w (updateRows (fun s => s.id = row.1.id) (PiSession.stale now) w.sessions) w.commands w.events)
  have hswept : Swept now fun s => if decide (s.id = row.1.id) then s.stale now else s := fun s => by
    by_cases h : s.id = row.1.id <;> simp [h]
  have hrun : alone (sweepSession now row uuid) d w =
      (if w.events.any (fun e => e.id = uuid row.2) then .error .integrityError else .ok (), d,
        withSessions w (updateRows (fun s => s.id = row.1.id) (PiSession.stale now) w.sessions)
          w.commands events) := by
    by_cases hid : ∃ e ∈ w.events, e.id = uuid row.2 <;>
      simp [sweepSession, hevents, insertEvent_rowcount, hid]
  exact ⟨_, _, events, hrun, hswept⟩

/-- A sweep stops some sessions and changes no command. -/
theorem atomically_sweepStaleInteractivePiSessions (cutoffTs now : ℕ) (uuid : ℕ → String) (d : Tables) :
    ∃ r g events, atomically (sweepStaleInteractivePiSessions cutoffTs now uuid) d =
        (r, withSessions d (d.sessions.map g) d.commands events) ∧ Swept now g := by
  have hloop : ∀ (rows : List (PiSession × ℕ)) (w : Tables), ∃ r g events,
      alone (Prog.forEach (fun row => sweepSession now row uuid) rows) d w =
        (r, d, withSessions w (w.sessions.map g) w.commands events) ∧ Swept now g := by
    intro rows
    induction rows with
    | nil => exact fun w => ⟨.ok (), id, w.events, by simp [Prog.forEach], fun s => .inl rfl⟩
    | cons row rows ih =>
      intro w
      obtain ⟨r, g, events, hrow, hg⟩ := alone_sweepSession now row uuid d w
      cases r with
      | error e => exact ⟨.error e, g, events, by simp [Prog.forEach, hrow], hg⟩
      | ok _ =>
        obtain ⟨r', g', events', hrest, hg'⟩ := ih (withSessions w (w.sessions.map g) w.commands events)
        exact ⟨r', g' ∘ g, events', by simp [Prog.forEach, hrow, hrest], hg.comp hg'⟩
  obtain ⟨r, g, events, h, hg⟩ := hloop (staleSessions cutoffTs d).zipIdx d
  cases r with
  | error e => exact ⟨.error e, g, events, by simp [atomically, sweepStaleInteractivePiSessions, h], hg⟩
  | ok _ => exact ⟨.ok _, g, events, by simp [atomically, sweepStaleInteractivePiSessions, h]; rfl, hg⟩

def registeredSessions (payload : PiBridgeRegister) (now createdAt : ℕ) (sessions : List PiSession) :
    List PiSession :=
  if payload.resumePath ≠ "" then
    updateRows (fun s => s.id = payload.sessionId) (PiSession.resumingAt payload.resumePath)
      (upsertedSessions payload now createdAt sessions)
  else upsertedSessions payload now createdAt sessions

def registeredTables (payload : PiBridgeRegister) (now : ℕ) (events : List PiSessionEvent) (d : Tables) : Tables :=
  withSessions d
    (registeredSessions payload now (((findSession d payload.sessionId).map (·.createdAt)).getD now) d.sessions)
    (updateRows (PiSessionCommand.heldByOther payload.sessionId payload.incarnation) PiSessionCommand.released
      d.commands)
    events

def registeredRow (payload : PiBridgeRegister) (now : ℕ) (existing : Option PiSession) : PiSession :=
  let s := match existing with
    | some s => reregisteredSession payload now s
    | none => registeredSession payload now now
  if payload.resumePath ≠ "" then s.resumingAt payload.resumePath else s

theorem find?_upsertedSessions (payload : PiBridgeRegister) (now createdAt : ℕ) (sessions : List PiSession)
    (id : String) :
    (upsertedSessions payload now createdAt sessions).find? (fun s => s.id = id) =
      if id = payload.sessionId then
        match sessions.find? fun s => s.id = id with
        | some s => some (reregisteredSession payload now s)
        | none => some (registeredSession payload now createdAt)
      else sessions.find? fun s => s.id = id := by
  unfold upsertedSessions
  split
  · next hany =>
    rw [find?_updateRows_id (reregisteredSession payload now) fun s => rfl]
    by_cases hid : id = payload.sessionId
    · subst hid
      have hsome : (sessions.find? fun s => s.id = payload.sessionId).isSome = true := by
        rw [List.find?_isSome]
        simpa using hany
      obtain ⟨s, hs⟩ := Option.isSome_iff_exists.mp hsome
      simp [hs]
    · simp [hid]
  · next hany =>
    rw [List.find?_append]
    by_cases hid : id = payload.sessionId
    · subst hid
      have hnone : (sessions.find? fun s => s.id = payload.sessionId) = none := by
        rw [List.find?_eq_none]
        simpa using hany
      simp [hnone, registeredSession]
    · simp [hid, registeredSession, Ne.symm hid]

/-- A registration touches the row of its own session only. -/
theorem findSession_registered (payload : PiBridgeRegister) (now : ℕ) (events : List PiSessionEvent) (d : Tables)
    (id : String) :
    findSession (registeredTables payload now events d) id =
      if id = payload.sessionId then some (registeredRow payload now (findSession d id)) else findSession d id := by
  simp only [findSession, registeredTables, withSessions_sessions, registeredSessions, registeredRow]
  split
  · rw [find?_updateRows_id (PiSession.resumingAt payload.resumePath) fun s => rfl, find?_upsertedSessions]
    by_cases hid : id = payload.sessionId
    · subst hid
      cases h : d.sessions.find? fun s => s.id = payload.sessionId <;> simp
    · simp [hid]
  · rw [find?_upsertedSessions]
    by_cases hid : id = payload.sessionId
    · subst hid
      cases h : d.sessions.find? fun s => s.id = payload.sessionId <;> simp
    · simp [hid]

theorem upsertSession_apply (payload : PiBridgeRegister) (now createdAt : ℕ) (d : Tables) :
    (upsertSession payload now createdAt).apply d =
      withSessions d (upsertedSessions payload now createdAt d.sessions) d.commands d.events := rfl

/-- A registration, with what its loop stores. -/
theorem atomically_registerInteractivePiSession_of {payload : PiBridgeRegister} {now : ℕ} {uuid : ℕ → String}
    {d : Tables} {events : List PiSessionEvent}
    (hloop : alone (Prog.forEach (fun e : PiIngestEvent × ℕ => insertInitialEvent payload.sessionId now e.1
      (uuid e.2))
        payload.initialEvents.zipIdx) d (registeredTables payload now d.events d) =
      (.ok (), d, registeredTables payload now events d)) :
    atomically (registerInteractivePiSession payload now uuid) d =
      (.ok (registeredRow payload now (findSession d payload.sessionId)),
        registeredTables payload now events d) := by
  have hbacked : (findSession d payload.sessionId).any (fun s => !s.sessionType.bridgeBacked) = false := by
    rcases findSession d payload.sessionId with _ | s
    · rfl
    · cases hs : s.sessionType <;> simp [hs, PiSessionType.bridgeBacked]
  have hfound := findSession_registered payload now events d payload.sessionId
  rw [if_pos rfl] at hfound
  simp only [registeredTables, registeredSessions] at hloop hfound ⊢
  by_cases hresume : payload.resumePath = "" <;>
    simp [hresume] at hloop hfound <;>
    simp [atomically, registerInteractivePiSession, getPiSession, hbacked, hresume, upsertSession_apply,
      hloop, hfound]

theorem atomically_registerInteractivePiSession (payload : PiBridgeRegister) (now : ℕ) (uuid : ℕ → String)
    (d : Tables) :
    ∃ events, atomically (registerInteractivePiSession payload now uuid) d =
      (.ok (registeredRow payload now (findSession d payload.sessionId)),
        registeredTables payload now events d) := by
  obtain ⟨_, events, hevents⟩ := EventsOnly.forEach
    (fun e : PiIngestEvent × ℕ => eventsOnly_insertInitialEvent payload.sessionId now e.1 (uuid e.2))
    payload.initialEvents.zipIdx d (registeredTables payload now d.events d)
  exact ⟨events, atomically_registerInteractivePiSession_of hevents⟩

end WorkerHarness.Database
