import WorkerHarness.EventLog
import WorkerHarness.TaskQuestions

/-!
# What the methods store in the logs of sessions

Each method stores events of its own kinds. A question is stored together with the row that it blocks; no other
method stores one, unless a bridge uploads an event of that kind. A row with a question can lose it without an
event, by an acknowledgement for instance; the methods that do store an event leave the question of the row, or
end its session.
-/

namespace WorkerHarness.SessionLogs

open Coroutines SharedTransactions Database SessionRows SessionStatements NumberedLogs EventLog TaskQuestions

def log (d : Tables) (id : String) : List PiSessionEvent := eventNumbering.entries id d.events

inductive Stores : SessionOp → PiSessionEvent → Prop where
  | snapshot {payload : PiBridgeRegister} {now : ℕ} {uuid : ℕ → String} {e : PiSessionEvent} :
      e.sessionId = payload.sessionId → e.eventType = "message-start" ∨ e.eventType = "message-end" →
        Stores (.register payload now uuid) e
  | batched {sessionId : String} {payload : PiBridgeEventBatch} {now : ℕ} {uuid : ℕ → String} {e : PiSessionEvent}
      {event : PiIngestEvent} : event ∈ payload.events → e.sessionId = sessionId → e.eventType = event.eventType →
        Stores (.events sessionId payload now uuid) e
  | asked {sessionId question uuid : String} {now : ℕ} {e : PiSessionEvent} : e.sessionId = sessionId →
      e.eventType = "blocked" → e.payload = [("question", .str question)] →
        Stores (.block sessionId question uuid now) e
  | stale {cutoffTs now : ℕ} {uuid : ℕ → String} {e : PiSessionEvent} :
      e.eventType = "bridge-stale" → Stores (.sweep cutoffTs now uuid) e
  | event {event e : PiSessionEvent} : e.sessionId = event.sessionId → e.eventType = event.eventType →
      Stores (.insertEvent event) e

variable {d d' : Tables} {op : SessionOp} {s s' : PiSession} {e : PiSessionEvent} {id : String}

theorem Stores.numbered (h : Stores op e) (n : ℕ) : Stores op { e with sequence := n } := by
  cases h with
  | snapshot hid htype => exact .snapshot hid htype
  | batched hmem hid htype => exact .batched hmem hid htype
  | asked hid htype hpayload => exact .asked hid htype hpayload
  | stale htype => exact .stale htype
  | event hid htype => exact .event hid htype

def Storing (op : SessionOp) (s : Statement Tables) : Prop :=
  (∃ event, Stores op event ∧ s = Database.insertEvent event) ∨ ∀ d, (s.apply d).events = d.events

theorem storing_of_executes {s : Statement Tables} (h : Executes op s)
    (hop : ∀ payload now uuid, op ≠ .register payload now uuid) : Storing op s := by
  cases h with
  | inserted session =>
    refine .inr fun d => ?_
    simp only [insertInto]
    split <;> rfl
  | enqueued command =>
    refine .inr fun d => ?_
    simp only [insertInto]
    split <;> rfl
  | snapshot => exact absurd rfl (hop _ _ _)
  | batched sessionId now uuid he => exact .inl ⟨_, .batched (List.fst_mem_of_mem_zipIdx he) rfl rfl, rfl⟩
  | asked => exact .inl ⟨_, .asked rfl rfl rfl, rfl⟩
  | stale => exact .inl ⟨_, .stale rfl, rfl⟩
  | event event => exact .inl ⟨event, .event rfl rfl, rfl⟩
  | _ => exact .inr fun _ => rfl

theorem calls_insertInitialEvent (payload : PiBridgeRegister) (now : ℕ) (uuid : ℕ → String)
    (e : PiIngestEvent × ℕ) :
    Calls (Storing (.register payload now uuid)) (fun _ _ => True)
      (insertInitialEvent payload.sessionId now e.1 (uuid e.2)) := by
  unfold insertInitialEvent
  split
  · trivial
  · next htype =>
    rw [← not_or, not_not] at htype
    split
    · trivial
    · split
      · trivial
      · refine (calls_query trivial).bind fun duplicate => ?_
        split
        · trivial
        · exact (calls_execute (.inl ⟨_, .snapshot rfl htype, rfl⟩)).bind fun _ => trivial

/-- Every method stores only its own events. -/
theorem calls_storing (op : SessionOp) : Calls (Storing op) (fun _ _ => True) op.prog := by
  cases op with
  | register payload now uuid =>
    refine Calls.bind (calls_register_of trivial (fun _ => .inr fun _ => rfl) (.inr fun _ => rfl)
      (.inr fun _ => rfl) ?_)
      fun _ => trivial
    exact fun e _ => calls_insertInitialEvent payload now uuid e
  | _ =>
    refine (calls_prog _).mono (fun s h => storing_of_executes h fun _ _ _ hop => ?_) fun _ _ _ => trivial
    cases hop

def Grown (op : SessionOp) (d d' : Tables) : Prop := ∃ more, d'.events = d.events ++ more ∧ ∀ e ∈ more, Stores op e

theorem Grown.refl (op : SessionOp) (d : Tables) : Grown op d d := ⟨[], (List.append_nil _).symm, by simp⟩

theorem Grown.trans {d'' : Tables} (h : Grown op d d') (h' : Grown op d' d'') : Grown op d d'' := by
  obtain ⟨more, hd, hmore⟩ := h
  obtain ⟨more', hd', hmore'⟩ := h'
  refine ⟨more ++ more', by rw [hd', hd, List.append_assoc], fun e he => ?_⟩
  rcases List.mem_append.mp he with he | he
  · exact hmore e he
  · exact hmore' e he

theorem Storing.grown {s : Statement Tables} (h : Storing op s) (d : Tables) : Grown op d (s.apply d) := by
  rcases h with ⟨event, hevent, rfl⟩ | h
  · simp only [Database.insertEvent]
    split
    · exact Grown.refl op d
    · refine ⟨[_], rfl, fun e he => ?_⟩
      rw [List.mem_singleton.mp he]
      exact hevent.numbered _
  · exact ⟨[], by rw [h, List.append_nil], by simp⟩

theorem grown_run (d : Tables) (op : SessionOp) : Grown op d (op.run d) := by
  rw [run_eq_alone]
  exact (calls_storing op).alone_le (Grown.refl op) (fun _ _ _ => Grown.trans) (fun _ h => h.grown) d d

theorem dense_run (h : eventNumbering.Dense d.events) (op : SessionOp) :
    eventNumbering.Dense (op.run d).events := by
  rw [run_eq_alone]
  have hkept : ∀ d d' d'' : Tables, (eventNumbering.Dense d.events → eventNumbering.Dense d'.events) →
      (eventNumbering.Dense d'.events → eventNumbering.Dense d''.events) →
        eventNumbering.Dense d.events → eventNumbering.Dense d''.events := fun _ _ _ hd hd' h => hd' (hd h)
  exact (appends_prog op).alone_le (fun _ h => h) hkept (fun _ hs _ h => (hs.apply h).1) d d h

def question (e : PiSessionEvent) : Option String :=
  if e.eventType = "blocked" then e.payload.getStr "question" else none

def asked (events : List PiSessionEvent) : Option String := (events.filterMap question).getLast?

@[simp] theorem asked_nil : asked [] = none := rfl

theorem asked_append (events more : List PiSessionEvent) :
    asked (events ++ more) = (asked more).or (asked events) := by
  rw [asked, List.filterMap_append, List.getLast?_append]
  rfl

theorem asked_cons (e : PiSessionEvent) (events : List PiSessionEvent) :
    asked (e :: events) = (asked events).or (question e) := by
  rw [← List.singleton_append, asked_append]
  congr 1
  cases h : question e <;> simp [asked, h]

theorem asked_eq_none {events : List PiSessionEvent} (h : ∀ e ∈ events, e.eventType ≠ "blocked") :
    asked events = none := by
  have hnone : events.filterMap question = [] := List.filterMap_eq_nil_iff.mpr fun e he => if_neg (h e he)
  rw [asked, hnone]
  rfl

def UploadsNoQuestion : SessionOp → Prop
  | .events _ payload _ _ => ∀ event ∈ payload.events, event.eventType ≠ "blocked"
  | .insertEvent event => event.eventType ≠ "blocked"
  | _ => True

def AsksManager (op : SessionOp) (id : String) : Prop := ∃ question uuid now, op = .block id question uuid now

/-- A stored question is one that a session asks its manager. -/
theorem Stores.asksManager (h : Stores op e) (hop : UploadsNoQuestion op) (he : e.eventType = "blocked") :
    AsksManager op e.sessionId := by
  cases h with
  | snapshot _ htype => simp [he] at htype
  | batched hmem _ htype => exact absurd (htype.symm.trans he) (hop _ hmem)
  | asked hid => exact hid ▸ ⟨_, _, _, rfl⟩
  | stale htype => simp [he] at htype
  | event _ htype => exact absurd (htype.symm.trans he) hop

/-- What a method for a question does. -/
theorem run_block (d : Tables) (sessionId question uuid : String) (now : ℕ) :
    (SessionOp.run d (.block sessionId question uuid now)).events = d.events ∨
      (d.sessions.any fun s => decide (s.id = sessionId) && !s.state.terminal) = true ∧
        ∃ e, (SessionOp.run d (.block sessionId question uuid now)).events = d.events ++ [e] ∧
        e.sessionId = sessionId ∧
          SessionLogs.question e = some question := by
  cases hany : d.sessions.any fun s => decide (s.id = sessionId) && !s.state.terminal with
  | false =>
    have hrow : (update sessionsTable (fun _ s => decide (s.id = sessionId) && !s.state.terminal)
        (PiSession.blocked question now)).rowcount d = 0 :=
      update_rowcount_eq_zero.mpr fun s hs => by simpa using List.any_eq_false.mp hany s hs
    exact .inl (by simp [SessionOp.run, atomically, setPiSessionBlocked, hrow])
  | true =>
    obtain ⟨s, hs, hp⟩ := List.any_eq_true.mp hany
    have hrow : (update sessionsTable (fun _ s => decide (s.id = sessionId) && !s.state.terminal)
        (PiSession.blocked question now)).rowcount d ≠ 0 := update_rowcount_ne_zero hs hp
    by_cases hid : ∃ e ∈ d.events, e.id = uuid
    · exact .inl (by simp [SessionOp.run, atomically, setPiSessionBlocked, hrow, hid, Database.insertEvent])
    · refine .inr ⟨rfl, ?_⟩
      simp [SessionOp.run, atomically, setPiSessionBlocked, hrow, hid, Database.insertEvent, SessionLogs.question,
        JsonObject.getStr, JsonObject.get]

theorem findSession_block {sessionId : String} (question uuid : String) (now : ℕ)
    (hs : findSession d sessionId = some s)
    (hlive : s.state.terminal = false) :
    findSession (SessionOp.run d (.block sessionId question uuid now)) sessionId =
    some (s.blocked question now) := by
  obtain ⟨events, hrun⟩ := atomically_setPiSessionBlocked sessionId question uuid now d
  have hid : s.id = sessionId := by simpa using List.find?_some hs
  have hfind := find?_updateRows (p := fun s => decide (s.id = sessionId) && !s.state.terminal)
    (q := fun s => decide (s.id = sessionId)) (f := PiSession.blocked question now) (fun _ => rfl) d.sessions
  rw [findSession] at hs
  rw [SessionOp.run, hrun, findSession, withSessions_sessions, hfind, hs]
  simp [hid, hlive]

def Ends : SessionOp → Prop
  | .events _ payload _ _ => ∃ state, payload.state = some state ∧ state.terminal = true
  | .sweep _ _ _ => True
  | _ => False

theorem batchedSession_question (payload : PiBridgeEventBatch) (pending persisted : Bool) (now : ℕ)
    (hc : Consistent s)
    (hends : (∃ state, payload.state = some state ∧ state.terminal = true) → s.question = "") :
    (batchedSession s payload pending now persisted).question = s.question := by
  unfold batchedSession
  dsimp only
  cases hstate : payload.state with
  | none =>
    by_cases hq : s.question = ""
    · rw [hq, ite_self]
    · have hblocked : s.state = .blocked := hc.mpr hq
      simp [hblocked, PiSessionState.terminal]
  | some state =>
    cases hterminal : state.terminal with
    | true => rw [hends ⟨state, hstate, hterminal⟩, ite_self]
    | false =>
      have hlive : PiSessionState.blocked.terminal = false := rfl
      by_cases hblocked : s.state = .blocked <;> simp [hblocked, hterminal, hlive]

/-- What stores an event other than a question leaves the question of the row, unless it ends the session. -/
theorem question_eq_of_stores (hstep : RowStep d op s s') (hstores : Stores op e)
    (hask : ¬AsksManager op s.id) (hc : Consistent s) (hends : Ends op → s.question = "") :
    s'.question = s.question := by
  cases hstep with
  | same => rfl
  | registered => exact registeredRow_some_question ..
  | reported => exact batchedSession_question _ _ _ _ hc hends
  | blocked => exact absurd ⟨_, _, _, rfl⟩ hask
  | stale => exact (hends trivial).symm
  | _ => cases hstores

/-- The tables of runs in which only the sessions themselves store questions. -/
structure Kept (d : Tables) : Prop where
  sessions : (d.sessions.map (·.id)).Nodup
  commands : (d.commands.map (·.id)).Nodup
  consistent : ∀ s ∈ d.sessions, Consistent s
  dense : eventNumbering.Dense d.events
  questions : ∀ e ∈ d.events, e.eventType = "blocked" → ∃ question, question ≠ "" ∧
    e.payload = [("question", .str question)]

theorem Kept.run (h : Kept d) (hop : Issued op) (hreports : ReportsNoBlock d op) (huploads : UploadsNoQuestion op) :
    Kept (op.run d) where
  sessions := sessions_nodup_run h.sessions op
  commands := commands_nodup_run h.commands op
  consistent s' hs' := by
    rcases mem_run h.sessions hs' with ⟨s, hs, hstep⟩ | ⟨hnew, -⟩
    · exact (row_step hstep hop hs hreports (h.consistent s hs) h.sessions h.commands).1
    · exact (newRow_consistent hnew hop).1
  dense := dense_run h.dense op
  questions e he htype := by
    obtain ⟨more, hevents, hmore⟩ := grown_run d op
    rw [hevents] at he
    rcases List.mem_append.mp he with he | he
    · exact h.questions e he htype
    · have hstores := hmore e he
      obtain ⟨question, uuid, now, rfl⟩ := hstores.asksManager huploads htype
      cases hstores with
      | asked _ _ hpayload => exact ⟨question, hop, hpayload⟩

/-- One operation at a row and its log: the log stays, or a question is stored with the row, or other events are. -/
theorem Kept.log_run (h : Kept d) (hop : Issued op) (hreports : ReportsNoBlock d op)
    (huploads : UploadsNoQuestion op)
    (hs : s ∈ d.sessions) : ∃ more s', log (op.run d) s.id = log d s.id ++ more ∧
    findSession (op.run d) s.id = some s' ∧
      (more = [] ∨ AsksManager op s.id ∧ asked more = some s'.question ∨
        ¬AsksManager op s.id ∧ asked more = none ∧ ((Ends op → s.question = "") → s'.question = s.question)) := by
  obtain ⟨s', hs', hstep⟩ := exists_run h.sessions op hs
  have hfind : findSession (op.run d) s.id = some s' :=
    (findSession_eq_some (sessions_nodup_run h.sessions op)).mpr ⟨hs', hstep.id_eq⟩
  by_cases hask : AsksManager op s.id
  · obtain ⟨question, uuid, now, rfl⟩ := hask
    rcases run_block d s.id question uuid now with hsame | ⟨hany, e, hevents, hid, hquestion⟩
    · exact ⟨[], s', by rw [log, hsame, List.append_nil, log], hfind, .inl rfl⟩
    · obtain ⟨t, ht, hlive⟩ := List.any_eq_true.mp hany
      rw [Bool.and_eq_true, decide_eq_true_eq, Bool.not_eq_true'] at hlive
      obtain rfl := eq_of_session_id h.sessions ht hs hlive.1
      have hone : eventNumbering.entries t.id [e] = [e] := by simp [Numbering.entries, eventNumbering, hid]
      have hblocked := findSession_block question uuid now ((findSession_eq_some h.sessions).mpr ⟨hs, rfl⟩) hlive.2
      refine ⟨[e], t.blocked question now, ?_, hblocked, .inr (.inl ⟨⟨question, uuid, now, rfl⟩, ?_⟩)⟩
      · rw [log, hevents, Numbering.entries_append, hone, log]
      · rw [asked_cons, hquestion]
        rfl
  · obtain ⟨more, hevents, hmore⟩ := grown_run d op
    refine ⟨eventNumbering.entries s.id more, s', by rw [log, hevents, Numbering.entries_append, log], hfind, ?_⟩
    rcases Classical.em (eventNumbering.entries s.id more = []) with hnone | hsome
    · exact .inl hnone
    · have hmem : ∀ e ∈ eventNumbering.entries s.id more, Stores op e ∧ e.sessionId = s.id := fun e he =>
        ⟨hmore e (List.mem_filter.mp he).1, of_decide_eq_true (List.mem_filter.mp he).2⟩
      refine .inr (.inr ⟨hask, asked_eq_none fun e he htype => ?_, fun hends => ?_⟩)
      · obtain ⟨hstores, hid⟩ := hmem e he
        exact hask (hid ▸ hstores.asksManager huploads htype)
      · obtain ⟨e, he⟩ := List.exists_mem_of_ne_nil _ hsome
        exact question_eq_of_stores hstep (hmem e he).1 hask (h.consistent s hs) hends

end WorkerHarness.SessionLogs
