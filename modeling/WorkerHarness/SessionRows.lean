import WorkerHarness.AtomicSessions
import Mathlib.Data.List.Perm.Basic

/-!
# What the session methods do to single rows

All methods that write sessions, commands or events are constructors of one type of
operations. One theorem says how each of them changes a row of the session table and which
rows it adds; another does the same for the mailbox. Invariants of sessions over whole runs
are then facts about single rows.
-/

namespace WorkerHarness

open Coroutines SharedTransactions Database

/-- A database method on sessions, commands and events, with its clock and fresh ids. -/
inductive SessionOp where
  | insert (session : PiSession)
  | register (payload : PiBridgeRegister) (now : ℕ) (uuid : ℕ → String)
  | events (sessionId : String) (payload : PiBridgeEventBatch) (now : ℕ) (uuid : ℕ → String)
  | block (sessionId question uuid : String) (now : ℕ)
  | enqueue (command : PiSessionCommand) (now : ℕ)
  | claim (sessionId incarnation : String) (now leaseSeconds : ℕ)
  | ack (sessionId commandId incarnation : String) (now : ℕ)
  | sweep (cutoffTs now : ℕ) (uuid : ℕ → String)
  | finish (sessionId : String) (state : PiSessionState) (detail : String) (now : ℕ)
  | reparent (oldId newId : String)
  | patch (sessionId : String) (members : JsonObject)
  | nextPane (sessionId : String)
  | insertEvent (event : PiSessionEvent)

namespace SessionOp

def run (d : Tables) : SessionOp → Tables
  | .insert session => (atomically (insertPiSession session) d).2
  | .register payload now uuid => (atomically (registerInteractivePiSession payload now uuid) d).2
  | .events sessionId payload now uuid => (atomically (applyInteractivePiEvents sessionId payload now uuid) d).2
  | .block sessionId question uuid now => (atomically (setPiSessionBlocked sessionId question uuid now) d).2
  | .enqueue command now => (atomically (enqueuePiSessionCommand command now) d).2
  | .claim sessionId incarnation now leaseSeconds =>
    (atomically (claimPiSessionCommands sessionId incarnation now leaseSeconds) d).2
  | .ack sessionId commandId incarnation now =>
    (atomically (ackPiSessionCommand sessionId commandId incarnation now) d).2
  | .sweep cutoffTs now uuid => (atomically (sweepStaleInteractivePiSessions cutoffTs now uuid) d).2
  | .finish sessionId state detail now => (atomically (finishPiSession sessionId state detail now) d).2
  | .reparent oldId newId => (atomically (reparentPiSessionChildren oldId newId) d).2
  | .patch sessionId members => (atomically (updatePiSessionMeta sessionId members) d).2
  | .nextPane sessionId => (atomically (nextPiSessionPaneSequence sessionId) d).2
  | .insertEvent event => (atomically (insertPiSessionEvent event) d).2

/-- The method as a coroutine without a result. -/
def prog : SessionOp → DbM Unit
  | .insert session => insertPiSession session
  | .register payload now uuid => (registerInteractivePiSession payload now uuid).bind fun _ => .ret ()
  | .events sessionId payload now uuid =>
    (applyInteractivePiEvents sessionId payload now uuid).bind fun _ => .ret ()
  | .block sessionId question uuid now => setPiSessionBlocked sessionId question uuid now
  | .enqueue command now => enqueuePiSessionCommand command now
  | .claim sessionId incarnation now leaseSeconds =>
    (claimPiSessionCommands sessionId incarnation now leaseSeconds).bind fun _ => .ret ()
  | .ack sessionId commandId incarnation now =>
    (ackPiSessionCommand sessionId commandId incarnation now).bind fun _ => .ret ()
  | .sweep cutoffTs now uuid => (sweepStaleInteractivePiSessions cutoffTs now uuid).bind fun _ => .ret ()
  | .finish sessionId state detail now => finishPiSession sessionId state detail now
  | .reparent oldId newId => reparentPiSessionChildren oldId newId
  | .patch sessionId members => updatePiSessionMeta sessionId members
  | .nextPane sessionId => nextPiSessionPaneSequence sessionId
  | .insertEvent event => insertPiSessionEvent event

end SessionOp

namespace SessionRows

inductive RowStep (d : Tables) : SessionOp → PiSession → PiSession → Prop where
  | same (op : SessionOp) (s : PiSession) : RowStep d op s s
  | registered {payload : PiBridgeRegister} {now : ℕ} {uuid : ℕ → String} {s : PiSession} :
      s.id = payload.sessionId →
        RowStep d (.register payload now uuid) s (registeredRow payload now (some s))
  | reported {payload : PiBridgeEventBatch} {now : ℕ} {uuid : ℕ → String} {s : PiSession} (persisted : Bool) :
      s.bridgeIncarnation = some payload.incarnation →
        RowStep d (.events s.id payload now uuid) s (PiSession.reported (batchedSession s payload
          (payload.hasPendingMessages.isSome && d.commands.any (PiSessionCommand.undelivered s.id))
            now persisted) now s)
  | blocked {question uuid : String} {now : ℕ} {s : PiSession} :
      s.state.terminal = false → RowStep d (.block s.id question uuid now) s (s.blocked question now)
  | notified {command : PiSessionCommand} {now : ℕ} {s : PiSession} :
      s.id = command.sessionId → command.id ∉ d.commands.map (·.id) →
        RowStep d (.enqueue command now) s (s.notified (if command.createdAt = 0 then now else command.createdAt))
  | answered {commandId incarnation : String} {now : ℕ} {s : PiSession} :
      s.bridgeIncarnation = some incarnation → Answers s.id commandId incarnation s d →
        RowStep d (.ack s.id commandId incarnation now) s (s.answered now)
  | stale {cutoffTs now : ℕ} {uuid : ℕ → String} {s : PiSession} :
      RowStep d (.sweep cutoffTs now uuid) s (s.stale now)
  | finished {state : PiSessionState} {detail : String} {now : ℕ} {s : PiSession} :
      RowStep d (.finish s.id state detail now) s (s.finished state detail now)
  | reparented {oldId newId : String} {s : PiSession} :
      childOf oldId newId d s = true → RowStep d (.reparent oldId newId) s { s with parentSessionId := some newId }
  | patched {members : JsonObject} {s : PiSession} :
      RowStep d (.patch s.id members) s (PiSession.patched members s)
  | nextPane {s : PiSession} : RowStep d (.nextPane s.id) s s.nextPane

/-- The row that an operation can add. -/
inductive NewRow : SessionOp → PiSession → Prop where
  | inserted (session : PiSession) : NewRow (.insert session) session
  | registered (payload : PiBridgeRegister) (now : ℕ) (uuid : ℕ → String) :
      NewRow (.register payload now uuid) (registeredRow payload now none)

variable {d : Tables} {op : SessionOp} {s s' : PiSession}

section Registered

variable (payload : PiBridgeRegister) (now : ℕ)

theorem registeredRow_none_id : (registeredRow payload now none).id = payload.sessionId := by
  unfold registeredRow
  dsimp only
  split <;> rfl

theorem registeredRow_some_id : (registeredRow payload now (some s)).id = s.id := by
  unfold registeredRow
  dsimp only
  split <;> rfl

theorem registeredRow_some_state :
    (registeredRow payload now (some s)).state = if s.state = .blocked then .blocked else .idle := by
  unfold registeredRow
  dsimp only
  split <;> exact ite_congr rfl (fun h => h) fun _ => rfl

theorem registeredRow_some_question : (registeredRow payload now (some s)).question = s.question := by
  unfold registeredRow
  dsimp only
  split <;> rfl

theorem registeredRow_none_state : (registeredRow payload now none).state = .idle := by
  unfold registeredRow
  dsimp only
  split <;> rfl

theorem registeredRow_none_question : (registeredRow payload now none).question = "" := by
  unfold registeredRow
  dsimp only
  split <;> rfl

end Registered

theorem RowStep.id_eq (h : RowStep d op s s') : s'.id = s.id := by
  cases h with
  | registered hid => exact registeredRow_some_id _ _
  | _ => rfl

/-- An acknowledgement leaves a row, or answers the question of its session. -/
theorem RowStep.ack_cases {sessionId commandId incarnation : String} {now : ℕ}
    (h : RowStep d (.ack sessionId commandId incarnation now) s s') :
    s' = s ∨ s.id = sessionId ∧ s.bridgeIncarnation = some incarnation ∧
      Answers sessionId commandId incarnation s d ∧ s' = s.answered now := by
  generalize hop : SessionOp.ack sessionId commandId incarnation now = op at h
  cases h with
  | same => exact .inl rfl
  | answered hi ha =>
    cases hop
    exact .inr ⟨rfl, hi, ha, rfl⟩
  | _ => cases hop

theorem eq_of_session_id (h : (d.sessions.map (·.id)).Nodup) {a b : PiSession} (ha : a ∈ d.sessions)
    (hb : b ∈ d.sessions) (hid : a.id = b.id) : a = b :=
  List.inj_on_of_nodup_map h ha hb hid

theorem findSession_eq_some (h : (d.sessions.map (·.id)).Nodup) {id : String} :
    findSession d id = some s ↔ s ∈ d.sessions ∧ s.id = id := by
  constructor
  · exact fun hf => ⟨List.mem_of_find?_eq_some hf, findSession_id hf⟩
  · rintro ⟨hs, rfl⟩
    cases hf : findSession d s.id with
    | none => simpa using List.find?_eq_none.mp hf s hs
    | some a => rw [eq_of_session_id h (List.mem_of_find?_eq_some hf) hs (findSession_id hf)]

def Stepped (d d' : Tables) (op : SessionOp) : Prop :=
  ∃ (g : PiSession → PiSession) (new : Option PiSession), d'.sessions = d.sessions.map g ++ new.toList ∧
    (∀ s ∈ d.sessions, RowStep d op s (g s)) ∧ ∀ s ∈ new, NewRow op s ∧ s.id ∉ d.sessions.map (·.id)

theorem Stepped.of_map {d' : Tables} {g : PiSession → PiSession} (hd : d'.sessions = d.sessions.map g)
    (hg : ∀ s ∈ d.sessions, RowStep d op s (g s)) : Stepped d d' op :=
  ⟨g, none, by rw [hd, Option.toList_none, List.append_nil], hg, fun s hs => by cases hs⟩

theorem Stepped.of_updateRows {d' : Tables} {p : PiSession → Bool} {f : PiSession → PiSession}
    (hd : d'.sessions = updateRows p f d.sessions) (hf : ∀ s ∈ d.sessions, p s = true → RowStep d op s (f s)) :
    Stepped d d' op := by
  refine .of_map hd fun s hs => ?_
  split
  · next hp => exact hf s hs hp
  · exact .same op s

theorem Stepped.of_eq {d' : Tables} (hd : d'.sessions = d.sessions) : Stepped d d' op :=
  .of_map (g := id) (hd.trans (List.map_id _).symm) fun s _ => .same op s

theorem atomically_insertPiSession (session : PiSession) (d : Tables) :
    atomically (insertPiSession session) d =
      if d.sessions.any (fun s => s.id = session.id) then (.error .integrityError, d)
      else (.ok (), withSessions d (d.sessions ++ [session]) d.commands d.events) := by
  by_cases h : ∃ s ∈ d.sessions, s.id = session.id <;>
    simp [atomically, insertPiSession, insertInto, sessionsTable, withSessions, h]

theorem stepped_insert (session : PiSession) : Stepped d (SessionOp.run d (.insert session)) (.insert session) := by
  simp only [SessionOp.run, atomically_insertPiSession]
  split
  · exact .of_eq rfl
  · next hnew =>
    refine ⟨id, some session, by simp, fun s _ => .same _ s, ?_⟩
    rintro s hs
    cases hs
    exact ⟨.inserted session, by simpa using hnew⟩

theorem registeredSessions_of_any {payload : PiBridgeRegister} {now createdAt : ℕ} {sessions : List PiSession}
    (h : sessions.any (fun s => s.id = payload.sessionId) = true) :
    registeredSessions payload now createdAt sessions =
      updateRows (fun s => s.id = payload.sessionId) (fun s => registeredRow payload now (some s)) sessions := by
  unfold registeredSessions upsertedSessions registeredRow
  rw [if_pos h]
  split
  · simp only [updateRows, List.map_map]
    refine List.map_congr_left fun s _ => ?_
    by_cases hid : s.id = payload.sessionId <;> simp [hid, reregisteredSession]
  · rfl

theorem registeredSessions_of_new {payload : PiBridgeRegister} {now : ℕ} {sessions : List PiSession}
    (h : ¬sessions.any (fun s => s.id = payload.sessionId) = true) :
    registeredSessions payload now now sessions = sessions ++ [registeredRow payload now none] := by
  unfold registeredSessions upsertedSessions registeredRow
  rw [if_neg h]
  split
  · have hnone : ∀ s ∈ sessions, decide (s.id = payload.sessionId) = false := by simpa using h
    have hsame := updateRows_of_none (f := PiSession.resumingAt payload.resumePath) hnone
    unfold updateRows at hsame ⊢
    rw [List.map_append, hsame]
    simp [registeredSession]
  · rfl

theorem stepped_register (payload : PiBridgeRegister) (now : ℕ) (uuid : ℕ → String) :
    Stepped d (SessionOp.run d (.register payload now uuid)) (.register payload now uuid) := by
  obtain ⟨events, hrun⟩ := atomically_registerInteractivePiSession payload now uuid d
  simp only [SessionOp.run, hrun]
  by_cases hany : d.sessions.any (fun s => s.id = payload.sessionId) = true
  · exact .of_updateRows (registeredSessions_of_any hany) fun s _ hid => .registered (of_decide_eq_true hid)
  · have hnone : findSession d payload.sessionId = none := by
      rw [findSession, List.find?_eq_none]
      simpa using hany
    refine ⟨id, some (registeredRow payload now none), ?_, fun s _ => .same _ s, ?_⟩
    · rw [List.map_id, registeredTables, hnone, Option.map_none, Option.getD_none, withSessions_sessions,
        registeredSessions_of_new hany, Option.toList_some]
    · rintro s hs
      cases hs
      refine ⟨.registered payload now uuid, ?_⟩
      rw [registeredRow_none_id]
      simpa using hany

theorem stepped_events (sessionId : String) (payload : PiBridgeEventBatch) (now : ℕ) (uuid : ℕ → String)
    (h : (d.sessions.map (·.id)).Nodup) :
    Stepped d (SessionOp.run d (.events sessionId payload now uuid)) (.events sessionId payload now uuid) := by
  have hrun := atomically_applyInteractivePiEvents sessionId payload now uuid d
  simp only [SessionOp.run]
  split at hrun
  · rw [hrun]
    exact .of_eq rfl
  · next session hcheck =>
    obtain ⟨persisted, events, hrun⟩ := hrun
    obtain ⟨hfind, hi⟩ := checkIncarnation_eq_ok.mp hcheck
    rw [hrun]
    refine .of_updateRows rfl fun s hs hid => ?_
    obtain rfl : s.id = sessionId := of_decide_eq_true hid
    obtain rfl : s = session := Option.some.inj (((findSession_eq_some h).mpr ⟨hs, rfl⟩).symm.trans hfind)
    exact .reported (!persisted.isEmpty) hi

theorem stepped_ack (sessionId commandId incarnation : String) (now : ℕ) (h : (d.sessions.map (·.id)).Nodup) :
    Stepped d (SessionOp.run d (.ack sessionId commandId incarnation now))
    (.ack sessionId commandId incarnation now) := by
  simp only [SessionOp.run, atomically_ackPiSessionCommand]
  split
  · exact .of_eq rfl
  · next session hcheck =>
    obtain ⟨hfind, hi⟩ := checkIncarnation_eq_ok.mp hcheck
    by_cases ha : Answers sessionId commandId incarnation session d
    · refine .of_updateRows (by rw [ackedTables, withSessions_sessions, if_pos ha]) fun s hs hid => ?_
      obtain rfl : s.id = sessionId := of_decide_eq_true hid
      obtain rfl : s = session := Option.some.inj (((findSession_eq_some h).mpr ⟨hs, rfl⟩).symm.trans hfind)
      exact .answered hi ha
    · exact .of_eq (by rw [ackedTables, withSessions_sessions, if_neg ha])

/-- Every operation steps the rows of the session table. -/
theorem stepped_run (h : (d.sessions.map (·.id)).Nodup) (op : SessionOp) : Stepped d (op.run d) op := by
  cases op with
  | insert session => exact stepped_insert session
  | register payload now uuid => exact stepped_register payload now uuid
  | events sessionId payload now uuid => exact stepped_events sessionId payload now uuid h
  | ack sessionId commandId incarnation now => exact stepped_ack sessionId commandId incarnation now h
  | block sessionId question uuid now =>
    obtain ⟨events, hrun⟩ := atomically_setPiSessionBlocked sessionId question uuid now d
    simp only [SessionOp.run, hrun]
    refine .of_updateRows rfl fun s _ hp => ?_
    simp only [Bool.and_eq_true, decide_eq_true_eq, Bool.not_eq_true'] at hp
    exact hp.1 ▸ .blocked hp.2
  | enqueue command now =>
    simp only [SessionOp.run, atomically_enqueuePiSessionCommand]
    split
    · exact .of_eq rfl
    · next hnew =>
      refine .of_updateRows rfl fun s _ hid => .notified (of_decide_eq_true hid) (by simpa using hnew)
  | claim sessionId incarnation now leaseSeconds =>
    simp only [SessionOp.run, atomically_claimPiSessionCommands]
    split <;> exact .of_eq rfl
  | sweep cutoffTs now uuid =>
    obtain ⟨r, g, events, hrun, hg⟩ := atomically_sweepStaleInteractivePiSessions cutoffTs now uuid d
    simp only [SessionOp.run, hrun]
    refine .of_map rfl fun s _ => ?_
    rcases hg s with hs | hs <;> rw [hs]
    · exact .same _ s
    · exact .stale
  | finish sessionId state detail now =>
    simp only [SessionOp.run, atomically_finishPiSession]
    exact .of_updateRows rfl fun s _ hid => of_decide_eq_true hid ▸ .finished
  | reparent oldId newId =>
    simp only [SessionOp.run, atomically_reparentPiSessionChildren]
    exact .of_updateRows rfl fun s _ hp => .reparented hp
  | patch sessionId members =>
    have hrun : (atomically (updatePiSessionMeta sessionId members) d).2.sessions =
        updateRows (fun s => s.id = sessionId) (PiSession.patched members) d.sessions := by
      simp [atomically, updatePiSessionMeta]
    exact .of_updateRows hrun fun s _ hid => of_decide_eq_true hid ▸ .patched
  | nextPane sessionId =>
    have hrun : (atomically (nextPiSessionPaneSequence sessionId) d).2.sessions =
        updateRows (fun s => s.id = sessionId) PiSession.nextPane d.sessions := by
      simp only [atomically, nextPiSessionPaneSequence, Prog.bind_eq, alone_withLock, alone_bind, alone_execute,
        alone_commit, alone_ite, update_sessions_apply]
      split <;> rfl
    exact .of_updateRows hrun fun s _ hid => of_decide_eq_true hid ▸ .nextPane
  | insertEvent event =>
    obtain ⟨events, hevents⟩ := insertEvent_apply event d
    refine .of_eq ?_
    simp [SessionOp.run, atomically, insertPiSessionEvent, hevents]

theorem sessions_nodup_run (h : (d.sessions.map (·.id)).Nodup) (op : SessionOp) :
    ((op.run d).sessions.map (·.id)).Nodup := by
  obtain ⟨g, new, hd, hg, hnew⟩ := stepped_run h op
  have hids : (d.sessions.map g).map (·.id) = d.sessions.map (·.id) := by
    rw [List.map_map]
    exact List.map_congr_left fun s hs => (hg s hs).id_eq
  rw [hd, List.map_append, hids]
  cases new with
  | none => simpa using h
  | some s =>
    refine List.nodup_append.mpr ⟨h, by simp, fun a ha b hb => ?_⟩
    obtain rfl : b = s.id := by simpa using hb
    rintro rfl
    exact (hnew s rfl).2 ha

/-- A row after an operation is a stepped row or the added row. -/
theorem mem_run (h : (d.sessions.map (·.id)).Nodup) (hs' : s' ∈ (op.run d).sessions) :
    (∃ s ∈ d.sessions, RowStep d op s s') ∨ NewRow op s' ∧ s'.id ∉ d.sessions.map (·.id) := by
  obtain ⟨g, new, hd, hg, hnew⟩ := stepped_run h op
  rw [hd, List.mem_append, List.mem_map] at hs'
  rcases hs' with ⟨s, hs, rfl⟩ | hs'
  · exact .inl ⟨s, hs, hg s hs⟩
  · exact .inr (hnew s' (Option.mem_toList.mp hs'))

/-- A row before an operation steps to the row with its id after it. -/
theorem exists_run (h : (d.sessions.map (·.id)).Nodup) (op : SessionOp) (hs : s ∈ d.sessions) :
    ∃ s' ∈ (op.run d).sessions, RowStep d op s s' := by
  obtain ⟨g, new, hd, hg, -⟩ := stepped_run h op
  exact ⟨g s, hd ▸ List.mem_append_left _ (List.mem_map_of_mem hs), hg s hs⟩

/-- One operation at one row of the mailbox. -/
inductive CommandStep (d : Tables) : SessionOp → PiSessionCommand → PiSessionCommand → Prop where
  | same (op : SessionOp) (c : PiSessionCommand) : CommandStep d op c c
  | released {payload : PiBridgeRegister} {now : ℕ} {uuid : ℕ → String} {c : PiSessionCommand} :
      c.heldByOther payload.sessionId payload.incarnation = true →
        CommandStep d (.register payload now uuid) c c.released
  | leased {sessionId incarnation : String} {now leaseSeconds : ℕ} {c : PiSessionCommand} :
      Current d sessionId incarnation → c.leasable sessionId incarnation now leaseSeconds = true →
        CommandStep d (.claim sessionId incarnation now leaseSeconds) c (c.leased incarnation now)
  | delivered {sessionId commandId incarnation : String} {now : ℕ} {c : PiSessionCommand} :
      Current d sessionId incarnation → c.ackable sessionId commandId incarnation = true →
        CommandStep d (.ack sessionId commandId incarnation now) c (c.delivered now)

def CommandsStepped (d d' : Tables) (op : SessionOp) : Prop :=
  ∃ (f : PiSessionCommand → PiSessionCommand) (new : Option PiSessionCommand),
    d'.commands = d.commands.map f ++ new.toList ∧ (∀ c ∈ d.commands, CommandStep d op c (f c)) ∧
    ∀ c ∈ new, (∃ now, op = .enqueue c now) ∧ c.id ∉ d.commands.map (·.id)

theorem CommandsStepped.of_eq {d' : Tables} (hd : d'.commands = d.commands) : CommandsStepped d d' op :=
  ⟨id, none, by simp [hd], fun c _ => .same op c, fun c hc => by cases hc⟩

theorem CommandsStepped.of_updateRows {d' : Tables} {p : PiSessionCommand → Bool}
    {f : PiSessionCommand → PiSessionCommand} (hd : d'.commands = updateRows p f d.commands)
    (hf : ∀ c, p c = true → CommandStep d op c (f c)) : CommandsStepped d d' op := by
  refine ⟨fun c => if p c then f c else c, none, by simp [hd, updateRows], fun c _ => ?_, fun c hc => by cases hc⟩
  dsimp only
  split
  · next hp => exact hf c hp
  · exact .same op c

/-- Every operation steps the rows of the mailbox. -/
theorem commandsStepped_run (d : Tables) (op : SessionOp) : CommandsStepped d (op.run d) op := by
  cases op with
  | insert session =>
    simp only [SessionOp.run, atomically_insertPiSession]
    split <;> exact .of_eq rfl
  | register payload now uuid =>
    obtain ⟨events, hrun⟩ := atomically_registerInteractivePiSession payload now uuid d
    simp only [SessionOp.run, hrun]
    exact .of_updateRows rfl fun c hc => .released hc
  | events sessionId payload now uuid =>
    have hrun := atomically_applyInteractivePiEvents sessionId payload now uuid d
    simp only [SessionOp.run]
    split at hrun
    · rw [hrun]
      exact .of_eq rfl
    · obtain ⟨persisted, events, hrun⟩ := hrun
      rw [hrun]
      exact .of_eq rfl
  | ack sessionId commandId incarnation now =>
    simp only [SessionOp.run, atomically_ackPiSessionCommand]
    split
    · exact .of_eq rfl
    · next session hcheck =>
      exact .of_updateRows rfl fun c hc => .delivered ⟨session, checkIncarnation_eq_ok.mp hcheck⟩ hc
  | block sessionId question uuid now =>
    obtain ⟨events, hrun⟩ := atomically_setPiSessionBlocked sessionId question uuid now d
    simp only [SessionOp.run, hrun]
    exact .of_eq rfl
  | enqueue command now =>
    simp only [SessionOp.run, atomically_enqueuePiSessionCommand]
    split
    · exact .of_eq rfl
    · next hnew =>
      refine ⟨id, some command, by simp [enqueuedTables], fun c _ => .same _ c, ?_⟩
      rintro c hc
      cases hc
      exact ⟨⟨now, rfl⟩, by simpa using hnew⟩
  | claim sessionId incarnation now leaseSeconds =>
    simp only [SessionOp.run, atomically_claimPiSessionCommands]
    split
    · exact .of_eq rfl
    · next session hcheck =>
      exact .of_updateRows rfl fun c hc => .leased ⟨session, checkIncarnation_eq_ok.mp hcheck⟩ hc
  | sweep cutoffTs now uuid =>
    obtain ⟨r, g, events, hrun, hg⟩ := atomically_sweepStaleInteractivePiSessions cutoffTs now uuid d
    simp only [SessionOp.run, hrun]
    exact .of_eq rfl
  | finish sessionId state detail now =>
    simp only [SessionOp.run, atomically_finishPiSession]
    exact .of_eq rfl
  | reparent oldId newId =>
    simp only [SessionOp.run, atomically_reparentPiSessionChildren]
    exact .of_eq rfl
  | patch sessionId members => exact .of_eq (by simp [SessionOp.run, atomically, updatePiSessionMeta])
  | nextPane sessionId =>
    refine .of_eq ?_
    simp only [SessionOp.run, atomically, nextPiSessionPaneSequence, Prog.bind_eq, alone_withLock, alone_bind,
      alone_execute, alone_commit, alone_ite, update_sessions_apply]
    split <;> rfl
  | insertEvent event =>
    obtain ⟨events, hevents⟩ := insertEvent_apply event d
    refine .of_eq ?_
    simp [SessionOp.run, atomically, insertPiSessionEvent, hevents]

namespace CommandStep

variable {c c' : PiSessionCommand}

theorem id_eq (h : CommandStep d op c c') : c'.id = c.id := by
  cases h <;> rfl

theorem sessionId_eq (h : CommandStep d op c c') : c'.sessionId = c.sessionId := by
  cases h <;> rfl

theorem kind_eq (h : CommandStep d op c c') : c'.kind = c.kind := by
  cases h <;> rfl

/-- What is delivered stays delivered; an acknowledgement addresses undelivered commands only. -/
theorem deliveredAt_eq (h : CommandStep d op c c') (hc : c.deliveredAt ≠ 0) : c'.deliveredAt = c.deliveredAt := by
  cases h with
  | same => rfl
  | released => rfl
  | leased => rfl
  | delivered _ ha =>
    simp only [PiSessionCommand.ackable, Bool.and_eq_true, PiSessionCommand.undelivered_iff] at ha
    exact absurd ha.1.2.2 hc

end CommandStep

theorem commands_nodup_run (h : (d.commands.map (·.id)).Nodup) (op : SessionOp) :
    ((op.run d).commands.map (·.id)).Nodup := by
  obtain ⟨f, new, hd, hf, hnew⟩ := commandsStepped_run d op
  have hids : (d.commands.map f).map (·.id) = d.commands.map (·.id) := by
    rw [List.map_map]
    exact List.map_congr_left fun c hc => (hf c hc).id_eq
  rw [hd, List.map_append, hids]
  cases new with
  | none => simpa using h
  | some c =>
    refine List.nodup_append.mpr ⟨h, by simp, fun a ha b hb => ?_⟩
    obtain rfl : b = c.id := by simpa using hb
    rintro rfl
    exact (hnew c rfl).2 ha

end SessionRows

end WorkerHarness
