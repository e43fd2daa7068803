import WorkerHarness.SessionStatements

/-!
# What one session can do to another

Two runs are compared: a run of bridge and mailbox operations on any sessions, and the same run
without the bridge operations of one session `a`. Every other session should see no
difference. Events are stored under ids that bridges choose and that all sessions share, so a
stored event of `a` can displace an event of another session; runs in which this does not
happen are isolated.
-/

namespace WorkerHarness

open Coroutines SharedTransactions SortedLists Database SessionStatements

namespace SessionOp

def bridge : SessionOp → Option String
  | .register payload _ _ => some payload.sessionId
  | .events sessionId _ _ _ => some sessionId
  | .claim sessionId _ _ _ => some sessionId
  | .ack sessionId _ _ _ => some sessionId
  | _ => none

/-- The session of a bridge or mailbox operation, or of another operation on one row. -/
def addressee : SessionOp → Option String
  | .insert session => some session.id
  | .enqueue command _ => some command.sessionId
  | .finish sessionId _ _ _ => some sessionId
  | .patch sessionId _ => some sessionId
  | .nextPane sessionId => some sessionId
  | .block _ _ _ _ | .sweep _ _ _ | .reparent _ _ | .insertEvent _ => none
  | op => op.bridge

end SessionOp

namespace SessionIsolation

/-- Session `b` has the same row, the same events and the same commands. -/
structure SameFor (b : String) (d d' : Tables) : Prop where
  session : d.sessions.filter (fun s => s.id = b) = d'.sessions.filter (fun s => s.id = b)
  events : d.events.filter (fun e => e.sessionId = b) = d'.events.filter (fun e => e.sessionId = b)
  commands : d.commands.filter (fun c => c.sessionId = b) = d'.commands.filter (fun c => c.sessionId = b)

/-- The same for every session but `a`; the first tables have every event id of `a` that the second
have. -/
structure Apart (a : String) (d d' : Tables) : Prop where
  sessions : d.sessions.filter (fun s => s.id ≠ a) = d'.sessions.filter (fun s => s.id ≠ a)
  events : d.events.filter (fun e => e.sessionId ≠ a) = d'.events.filter (fun e => e.sessionId ≠ a)
  commands : d.commands.filter (fun c => c.sessionId ≠ a) = d'.commands.filter (fun c => c.sessionId ≠ a)
  commandIds : d.commands.map (·.id) = d'.commands.map (·.id)
  stored : ∀ e ∈ d'.events, e.sessionId = a → ∃ e₀ ∈ d.events, e₀.id = e.id

/-- The tables without the events of `a`. -/
def dropEvents (a : String) (d : Tables) : Tables := { d with events := d.events.filter fun e => e.sessionId ≠ a }

/-- The statement is not ignored only because of an event of `a`. -/
def undisplaced (a : String) (d : Tables) (st : Statement Tables) : Bool :=
  decide (st.rowcount d = st.rowcount (dropEvents a d))

variable {R : Type} {a b c : String} {d d' : Tables} {op : SessionOp} {st : Statement Tables}

section Lists

variable {l l' : List R} {q : R → Bool}

theorem filter_eq_of_filter {p : R → Bool} (h : l.filter q = l'.filter q) (hp : ∀ r, p r = true → q r = true) :
    l.filter p = l'.filter p := by
  have hsub : ∀ l : List R, l.filter p = (l.filter q).filter p := fun l => by
    rw [List.filter_filter]
    refine List.filter_congr fun r _ => ?_
    by_cases hr : p r = true
    · rw [hr, hp r hr, Bool.and_self]
    · rw [Bool.not_eq_true] at hr
      rw [hr, Bool.false_and]
  rw [hsub l, hsub l', h]

theorem any_eq_of_filter {p : R → Bool} (h : l.filter q = l'.filter q) (hp : ∀ r, p r = true → q r = true) :
    l.any p = l'.any p := by
  have hany : ∀ l : List R, l.any p = !(l.filter p).isEmpty := fun l => by
    rw [Bool.eq_iff_iff]
    simp [List.filter_eq_nil_iff]
  rw [hany, hany, filter_eq_of_filter h hp]

theorem find?_eq_of_filter {p : R → Bool} (h : l.filter q = l'.filter q) (hp : ∀ r, p r = true → q r = true) :
    l.find? p = l'.find? p := by
  rw [← List.head?_filter, ← List.head?_filter, filter_eq_of_filter h hp]

/-- An update whose condition and rows stay within `q` keeps two lists in agreement. -/
theorem filter_updateRows {p : R → Bool} {f : R → R} (hf : ∀ r, q (f r) = q r) (l : List R) :
    (updateRows p f l).filter q = updateRows p f (l.filter q) := by
  unfold updateRows
  rw [List.filter_map]
  congr 1
  refine List.filter_congr fun r _ => ?_
  simp only [Function.comp]
  split
  · exact hf r
  · rfl

/-- An update of rows outside `q` leaves the rows in `q`. -/
theorem filter_updateRows_outside {p : R → Bool} {f : R → R} (hp : ∀ r, p r = true → q r = false)
    (hf : ∀ r, q (f r) = q r) (l : List R) : (updateRows p f l).filter q = l.filter q := by
  rw [filter_updateRows hf]
  refine updateRows_of_none fun r hr => ?_
  have hq := (List.mem_filter.mp hr).2
  cases hpr : p r with
  | false => rfl
  | true => exact absurd (hp r hpr) (by simp [hq])

end Lists

theorem ne_of_eq_ne (hc : c ≠ a) {id : String} (h : id = c) : decide (id ≠ a) = true := by
  rw [h]
  simpa using hc

theorem insertSession_apply (session : PiSession) (d : Tables) :
    (insertInto sessionsTable (·.id) session).apply d = if d.sessions.any (fun s => s.id = session.id) then d
      else withSessions d (d.sessions ++ [session]) d.commands d.events := rfl

theorem insertSession_rowcount (session : PiSession) (d : Tables) :
    (insertInto sessionsTable (·.id) session).rowcount d =
      if d.sessions.any (fun s => s.id = session.id) then 0 else 1 := rfl

theorem insertCommand_apply (command : PiSessionCommand) (d : Tables) :
    (insertInto commandsTable (·.id) command).apply d = if d.commands.any (fun c => c.id = command.id) then d
      else withSessions d d.sessions (d.commands ++ [command]) d.events := rfl

theorem insertCommand_rowcount (command : PiSessionCommand) (d : Tables) :
    (insertInto commandsTable (·.id) command).rowcount d =
      if d.commands.any (fun c => c.id = command.id) then 0 else 1 := rfl

namespace Apart

variable (h : Apart a d d')
include h

theorem updateSessions (hc : c ≠ a) {f : PiSession → PiSession} (hf : ∀ s, (f s).id = s.id) :
    (update sessionsTable (fun _ s => s.id = c) f).rowcount d =
    (update sessionsTable (fun _ s => s.id = c) f).rowcount d' ∧
      Apart a ((update sessionsTable (fun _ s => s.id = c) f).apply d)
        ((update sessionsTable (fun _ s => s.id = c) f).apply d') := by
  refine ⟨congrArg List.length (filter_eq_of_filter h.sessions fun s hs => ne_of_eq_ne hc (of_decide_eq_true hs)),
    ⟨?_, h.events, h.commands, h.commandIds, h.stored⟩⟩
  have hq : ∀ s, decide ((f s).id ≠ a) = decide (s.id ≠ a) := fun s => by rw [hf s]
  simp only [update_sessions_apply, withSessions_sessions]
  rw [filter_updateRows hq, filter_updateRows hq, h.sessions]

theorem updateCommands {p : PiSessionCommand → Bool} {f : PiSessionCommand → PiSessionCommand}
    (hp : ∀ c, p c = true → c.sessionId ≠ a) (hid : ∀ c, (f c).id = c.id)
    (hf : ∀ c, (f c).sessionId = c.sessionId) :
    (update commandsTable (fun _ => p) f).rowcount d = (update commandsTable (fun _ => p) f).rowcount d' ∧
      Apart a ((update commandsTable (fun _ => p) f).apply d) ((update commandsTable (fun _ => p) f).apply d') := by
  have hq : ∀ c, decide ((f c).sessionId ≠ a) = decide (c.sessionId ≠ a) := fun c => by rw [hf c]
  have hids : ∀ cs : List PiSessionCommand, (updateRows p f cs).map (·.id) = cs.map (·.id) := fun cs => by
    rw [updateRows, List.map_map]
    refine List.map_congr_left fun c _ => ?_
    simp only [Function.comp]
    split
    · exact hid c
    · rfl
  refine ⟨congrArg List.length (filter_eq_of_filter h.commands fun c hc => decide_eq_true (hp c hc)),
    ⟨h.sessions, h.events, ?_, ?_, h.stored⟩⟩
  · simp only [update_commands_apply, withSessions_commands]
    rw [filter_updateRows hq, filter_updateRows hq, h.commands]
  · simp only [update_commands_apply, withSessions_commands]
    rw [hids, hids, h.commandIds]

/-- An event id that no event of `a` displaces is taken in both tables or in none. -/
theorem any_event {event : PiSessionEvent} (hev : undisplaced a d (Database.insertEvent event) = true) :
    d.events.any (fun e => e.id = event.id) = d'.events.any (fun e => e.id = event.id) := by
  have hsame : d.events.any (fun e => e.id = event.id) =
      (d.events.filter fun e => e.sessionId ≠ a).any fun e => e.id = event.id := by
    have hcount := of_decide_eq_true hev
    rw [insertEvent_rowcount, insertEvent_rowcount] at hcount
    have hbool : ∀ x y : Bool, ((if x then 0 else 1) = if y then 0 else 1) → x = y := by decide
    exact hbool _ _ hcount
  rw [Bool.eq_iff_iff]
  constructor
  · rw [hsame, h.events]
    intro hany
    obtain ⟨e, he, hid⟩ := List.any_eq_true.mp hany
    exact List.any_eq_true.mpr ⟨e, (List.mem_filter.mp he).1, hid⟩
  · intro hany
    obtain ⟨e, he, hid⟩ := List.any_eq_true.mp hany
    by_cases hea : e.sessionId = a
    · obtain ⟨e₀, he₀, hid₀⟩ := h.stored e he hea
      exact List.any_eq_true.mpr ⟨e₀, he₀, by rwa [hid₀]⟩
    · have he' : e ∈ d'.events.filter fun e => e.sessionId ≠ a := List.mem_filter.mpr ⟨he, decide_eq_true hea⟩
      rw [← h.events] at he'
      exact List.any_eq_true.mpr ⟨e, (List.mem_filter.mp he').1, hid⟩

theorem insertEvent {event : PiSessionEvent} (ha : event.sessionId ≠ a)
    (hev : undisplaced a d (Database.insertEvent event) = true) :
    (Database.insertEvent event).rowcount d = (Database.insertEvent event).rowcount d' ∧
      Apart a ((Database.insertEvent event).apply d) ((Database.insertEvent event).apply d') := by
  have hany := h.any_event hev
  have hnext : nextSequence d event.sessionId = nextSequence d' event.sessionId := by
    rw [nextSequence, nextSequence, filter_eq_of_filter h.events fun e he => ne_of_eq_ne ha (of_decide_eq_true he)]
  simp only [Database.insertEvent]
  rw [hany, hnext]
  refine ⟨rfl, ?_⟩
  split
  · exact h
  · refine ⟨h.sessions, ?_, h.commands, h.commandIds, fun e he hea => ?_⟩
    · rw [List.filter_append, List.filter_append, h.events]
    · rcases List.mem_append.mp he with he | he
      · obtain ⟨e₀, he₀, h₀⟩ := h.stored e he hea
        exact ⟨e₀, List.mem_append_left _ he₀, h₀⟩
      · obtain rfl := List.mem_singleton.mp he
        exact absurd hea ha

theorem insertSession {session : PiSession} (ha : session.id ≠ a) :
    (insertInto sessionsTable (·.id) session).rowcount d = (insertInto sessionsTable (·.id) session).rowcount d' ∧
      Apart a ((insertInto sessionsTable (·.id) session).apply d)
        ((insertInto sessionsTable (·.id) session).apply d') := by
  have hany : d.sessions.any (fun s => s.id = session.id) = d'.sessions.any fun s => s.id = session.id :=
    any_eq_of_filter h.sessions fun s hs => ne_of_eq_ne ha (of_decide_eq_true hs)
  rw [insertSession_apply, insertSession_apply, insertSession_rowcount, insertSession_rowcount, hany]
  refine ⟨rfl, ?_⟩
  split
  · exact h
  · refine ⟨?_, h.events, h.commands, h.commandIds, h.stored⟩
    rw [withSessions_sessions, withSessions_sessions, List.filter_append, List.filter_append, h.sessions]

theorem upsert {payload : PiBridgeRegister} (now createdAt : ℕ) (ha : payload.sessionId ≠ a) :
    Apart a ((upsertSession payload now createdAt).apply d) ((upsertSession payload now createdAt).apply d') := by
  have hany : d.sessions.any (fun s => s.id = payload.sessionId) = d'.sessions.any fun s =>
    s.id = payload.sessionId :=
    any_eq_of_filter h.sessions fun s hs => ne_of_eq_ne ha (of_decide_eq_true hs)
  refine ⟨?_, h.events, h.commands, h.commandIds, h.stored⟩
  simp only [upsertSession_apply, withSessions_sessions, upsertedSessions]
  rw [hany]
  split
  · have hq : ∀ s, decide ((reregisteredSession payload now s).id ≠ a) = decide (s.id ≠ a) := fun s => rfl
    rw [filter_updateRows hq, filter_updateRows hq, h.sessions]
  · rw [List.filter_append, List.filter_append, h.sessions]

theorem insertCommand (command : PiSessionCommand) :
    (insertInto commandsTable (·.id) command).rowcount d = (insertInto commandsTable (·.id) command).rowcount d' ∧
      Apart a ((insertInto commandsTable (·.id) command).apply d)
        ((insertInto commandsTable (·.id) command).apply d') := by
  have hany : d.commands.any (fun c => c.id = command.id) = d'.commands.any fun c => c.id = command.id := by
    have hmap : ∀ cs : List PiSessionCommand, cs.any (fun c => c.id = command.id) =
        (cs.map (·.id)).any fun id => id = command.id := fun cs => by rw [List.any_map]; rfl
    rw [hmap, hmap, h.commandIds]
  rw [insertCommand_apply, insertCommand_apply, insertCommand_rowcount, insertCommand_rowcount, hany]
  refine ⟨rfl, ?_⟩
  split
  · exact h
  · refine ⟨h.sessions, h.events, ?_, ?_, h.stored⟩
    · rw [withSessions_commands, withSessions_commands, List.filter_append, List.filter_append, h.commands]
    · rw [withSessions_commands, withSessions_commands, List.map_append, List.map_append, h.commandIds]

end Apart

/-- A statement of another session's operation acts alike on both tables. -/
theorem Apart.executes (h : Apart a d d') (hst : Executes op st) (hc : op.addressee = some c) (hne : c ≠ a)
    (htest : undisplaced a d st = true) :
    st.rowcount d = st.rowcount d' ∧ Apart a (st.apply d) (st.apply d') := by
  cases hst with
  | inserted session =>
    cases hc
    exact h.insertSession hne
  | upserted payload now uuid createdAt =>
    cases hc
    exact ⟨rfl, h.upsert now createdAt hne⟩
  | resumed =>
    cases hc
    exact h.updateSessions hne fun _ => rfl
  | released payload =>
    cases hc
    refine h.updateCommands (fun c hc => ?_) (fun _ => rfl) fun _ => rfl
    simp only [PiSessionCommand.heldByOther, Bool.and_eq_true, PiSessionCommand.undelivered_iff] at hc
    exact hc.1.1 ▸ hne
  | snapshot now uuid he =>
    cases hc
    exact h.insertEvent hne htest
  | batched sessionId now uuid he =>
    cases hc
    exact h.insertEvent hne htest
  | reported =>
    cases hc
    exact h.updateSessions hne fun _ => rfl
  | enqueued command => exact h.insertCommand command
  | notified =>
    cases hc
    exact h.updateSessions hne fun _ => rfl
  | leased =>
    cases hc
    refine h.updateCommands (fun c hc => ?_) (fun _ => rfl) fun _ => rfl
    simp only [PiSessionCommand.leasable, Bool.and_eq_true, PiSessionCommand.undelivered_iff] at hc
    exact hc.1.1 ▸ hne
  | delivered =>
    cases hc
    refine h.updateCommands (fun c hc => ?_) (fun _ => rfl) fun _ => rfl
    simp only [PiSessionCommand.ackable, Bool.and_eq_true, PiSessionCommand.undelivered_iff] at hc
    exact hc.1.2.1 ▸ hne
  | answered =>
    cases hc
    exact h.updateSessions hne fun _ => rfl
  | finished =>
    cases hc
    exact h.updateSessions hne fun _ => rfl
  | patched =>
    cases hc
    exact h.updateSessions hne fun _ => rfl
  | nextPane =>
    cases hc
    exact h.updateSessions hne fun _ => rfl
  | blocked => cases hc
  | asked => cases hc
  | stopped => cases hc
  | stale => cases hc
  | reparented => cases hc
  | event => cases hc

/-- Another session's operation gets the same answers from both tables. -/
theorem Apart.asks (h : Apart a d d') {β : Type} {q : Tables → β} (hq : Asks op β q)
    (hc : op.addressee = some c) (hne : c ≠ a) : q d = q d' := by
  have hfind : ∀ id, id ≠ a → findSession d id = findSession d' id := fun id hid =>
    find?_eq_of_filter h.sessions fun s hs => ne_of_eq_ne hid (of_decide_eq_true hs)
  cases hq with
  | registering =>
    cases hc
    exact hfind _ hne
  | duplicate =>
    cases hc
    refine any_eq_of_filter h.events fun e he => ?_
    simp only [Bool.and_eq_true, decide_eq_true_eq] at he
    exact ne_of_eq_ne hne he.1.1
  | reporting =>
    cases hc
    exact hfind _ hne
  | pending =>
    cases hc
    refine any_eq_of_filter h.commands fun c hc => ?_
    exact ne_of_eq_ne hne (PiSessionCommand.undelivered_iff.mp hc).1
  | claiming =>
    cases hc
    exact hfind _ hne
  | held =>
    cases hc
    refine congrArg (sortOn _) (filter_eq_of_filter h.commands fun c hc => ?_)
    simp only [PiSessionCommand.heldBy, Bool.and_eq_true, PiSessionCommand.undelivered_iff] at hc
    exact ne_of_eq_ne hne hc.1.1
  | acknowledging =>
    cases hc
    exact hfind _ hne
  | kind =>
    cases hc
    refine congrArg (Option.map _) (find?_eq_of_filter h.commands fun c hc => ?_)
    simp only [Bool.and_eq_true, decide_eq_true_eq] at hc
    exact ne_of_eq_ne hne hc.2
  | sweeping => cases hc

/-- Another session's operation keeps the tables apart in nothing but session `a`. -/
theorem Apart.run (h : Apart a d d') (hc : op.addressee = some c) (hne : c ≠ a)
    (htest : aloneAll (undisplaced a) op.prog d d = true) : Apart a (op.run d) (op.run d') := by
  rw [run_eq_alone, run_eq_alone]
  exact ((calls_prog op).alone_related (fun st hst d d' htest h => h.executes hst hc hne htest)
    (fun β q hq d d' h => h.asks hq hc hne) htest h).2

/-- Nothing changes but rows, commands and new events of session `a`. -/
structure OwnStep (a : String) (d d' : Tables) : Prop where
  sessions : d'.sessions.filter (fun s => s.id ≠ a) = d.sessions.filter (fun s => s.id ≠ a)
  events : d'.events.filter (fun e => e.sessionId ≠ a) = d.events.filter (fun e => e.sessionId ≠ a)
  commands : d'.commands.filter (fun c => c.sessionId ≠ a) = d.commands.filter (fun c => c.sessionId ≠ a)
  commandIds : d'.commands.map (·.id) = d.commands.map (·.id)
  stored : d.events ⊆ d'.events

namespace OwnStep

theorem refl (d : Tables) : OwnStep a d d := ⟨rfl, rfl, rfl, rfl, List.Subset.refl _⟩

theorem trans {d'' : Tables} (h : OwnStep a d d') (h' : OwnStep a d' d'') : OwnStep a d d'' :=
  ⟨h'.sessions.trans h.sessions, h'.events.trans h.events, h'.commands.trans h.commands,
    h'.commandIds.trans h.commandIds, fun _ he => h'.stored (h.stored he)⟩

theorem updateSessions (d : Tables) {f : PiSession → PiSession} (hf : ∀ s, (f s).id = s.id) :
    OwnStep a d ((update sessionsTable (fun _ s => s.id = a) f).apply d) := by
  refine ⟨?_, rfl, rfl, rfl, List.Subset.refl _⟩
  rw [update_sessions_apply, withSessions_sessions]
  exact filter_updateRows_outside (fun s hs => by simpa using hs) (fun s => by rw [hf s]) _

theorem updateCommands (d : Tables) {p : PiSessionCommand → Bool} {f : PiSessionCommand → PiSessionCommand}
    (hp : ∀ c, p c = true → c.sessionId = a) (hid : ∀ c, (f c).id = c.id)
    (hf : ∀ c, (f c).sessionId = c.sessionId) :
    OwnStep a d ((update commandsTable (fun _ => p) f).apply d) := by
  refine ⟨rfl, rfl, ?_, ?_, List.Subset.refl _⟩
  · rw [update_commands_apply, withSessions_commands]
    exact filter_updateRows_outside (fun c hc => by simpa using hp c hc) (fun c => by rw [hf c]) _
  · rw [update_commands_apply, withSessions_commands, updateRows, List.map_map]
    refine List.map_congr_left fun c _ => ?_
    simp only [Function.comp]
    split
    · exact hid c
    · rfl

theorem insertEvent (d : Tables) {event : PiSessionEvent} (ha : event.sessionId = a) :
    OwnStep a d ((Database.insertEvent event).apply d) := by
  simp only [Database.insertEvent]
  split
  · exact refl d
  · refine ⟨rfl, ?_, rfl, rfl, List.subset_append_left _ _⟩
    rw [List.filter_append, List.filter_singleton]
    simp [ha]

theorem upsert {payload : PiBridgeRegister} (now createdAt : ℕ) (ha : payload.sessionId = a) (d : Tables) :
    OwnStep a d ((upsertSession payload now createdAt).apply d) := by
  refine ⟨?_, rfl, rfl, rfl, List.Subset.refl _⟩
  rw [upsertSession_apply, withSessions_sessions, upsertedSessions]
  split
  · have hq : ∀ s, decide ((reregisteredSession payload now s).id ≠ a) = decide (s.id ≠ a) := fun s => rfl
    refine filter_updateRows_outside (fun s hs => ?_) hq _
    rw [ha, decide_eq_true_eq] at hs
    simpa using hs
  · rw [List.filter_append, List.filter_singleton]
    simp [registeredSession, ha]

theorem insertSession {session : PiSession} (ha : session.id = a) (d : Tables) :
    OwnStep a d ((insertInto sessionsTable (·.id) session).apply d) := by
  rw [insertSession_apply]
  split
  · exact refl d
  · refine ⟨?_, rfl, rfl, rfl, List.Subset.refl _⟩
    rw [withSessions_sessions, List.filter_append, List.filter_singleton]
    simp [ha]

/-- Every statement of an operation on `a`, but for an enqueue, is such a step. -/
theorem executes (hst : Executes op st) (hc : op.addressee = some a)
    (hop : ∀ command now, op ≠ .enqueue command now)
    (d : Tables) : OwnStep a d (st.apply d) := by
  cases hst with
  | inserted session =>
    cases hc
    exact insertSession rfl d
  | upserted payload now uuid createdAt =>
    cases hc
    exact upsert now createdAt rfl d
  | resumed =>
    cases hc
    exact updateSessions d fun _ => rfl
  | released payload =>
    cases hc
    refine updateCommands d (fun c hc => ?_) (fun _ => rfl) fun _ => rfl
    simp only [PiSessionCommand.heldByOther, Bool.and_eq_true, PiSessionCommand.undelivered_iff] at hc
    exact hc.1.1
  | snapshot =>
    cases hc
    exact insertEvent d rfl
  | batched =>
    cases hc
    exact insertEvent d rfl
  | reported =>
    cases hc
    exact updateSessions d fun _ => rfl
  | enqueued command now => exact absurd rfl (hop command now)
  | notified command now => exact absurd rfl (hop command now)
  | leased =>
    cases hc
    refine updateCommands d (fun c hc => ?_) (fun _ => rfl) fun _ => rfl
    simp only [PiSessionCommand.leasable, Bool.and_eq_true, PiSessionCommand.undelivered_iff] at hc
    exact hc.1.1
  | delivered =>
    cases hc
    refine updateCommands d (fun c hc => ?_) (fun _ => rfl) fun _ => rfl
    simp only [PiSessionCommand.ackable, Bool.and_eq_true, PiSessionCommand.undelivered_iff] at hc
    exact hc.1.2.1
  | answered =>
    cases hc
    exact updateSessions d fun _ => rfl
  | finished =>
    cases hc
    exact updateSessions d fun _ => rfl
  | patched =>
    cases hc
    exact updateSessions d fun _ => rfl
  | nextPane =>
    cases hc
    exact updateSessions d fun _ => rfl
  | blocked => cases hc
  | asked => cases hc
  | stopped => cases hc
  | stale => cases hc
  | reparented => cases hc
  | event => cases hc

theorem run (hc : op.addressee = some a) (hop : ∀ command now, op ≠ .enqueue command now) (d : Tables) :
    OwnStep a d (op.run d) := by
  rw [run_eq_alone]
  exact (calls_prog op).alone_le refl (fun _ _ _ => trans) (fun st hst d => executes hst hc hop d) d d

end OwnStep

/-- Only bridge operations store events. -/
theorem events_run (hb : op.bridge = none) (hc : op.addressee = some c) (d : Tables) :
    (op.run d).events = d.events := by
  rw [run_eq_alone]
  let R : Tables → Tables → Prop := fun d d' => d'.events = d.events
  have hst : ∀ st, Executes op st → ∀ d, R d (st.apply d) := by
    intro st hst d
    cases hst with
    | inserted =>
      rw [insertSession_apply]
      split <;> rfl
    | enqueued =>
      rw [insertCommand_apply]
      split <;> rfl
    | snapshot => cases hb
    | batched => cases hb
    | asked => cases hc
    | stale => cases hc
    | event => cases hc
    | _ => rfl
  have htrans : ∀ d d' d'', R d d' → R d' d'' → R d d'' := fun _ _ _ h h' => Eq.trans h' h
  exact (calls_prog op).alone_le (R := R) (fun _ => rfl) htrans hst d d

/-- Steps of `a` on its own, in either run. -/
theorem Apart.own (h : Apart a d d') {d₁ d₂ : Tables} (h₁ : OwnStep a d d₁) (h₂ : OwnStep a d' d₂)
    (he : d₂.events = d'.events) : Apart a d₁ d₂ := by
  refine ⟨h₁.sessions.trans (h.sessions.trans h₂.sessions.symm), h₁.events.trans (h.events.trans h₂.events.symm),
    h₁.commands.trans (h.commands.trans h₂.commands.symm),
      h₁.commandIds.trans (h.commandIds.trans h₂.commandIds.symm),
    fun e hmem hea => ?_⟩
  obtain ⟨e₀, he₀, h₀⟩ := h.stored e (he ▸ hmem) hea
  exact ⟨e₀, h₁.stored he₀, h₀⟩

/-- A command for `a` enters the mailbox in both runs or in none. -/
theorem Apart.enqueue (h : Apart a d d') {command : PiSessionCommand} (now : ℕ) (ha : command.sessionId = a) :
    Apart a (SessionOp.run d (.enqueue command now)) (SessionOp.run d' (.enqueue command now)) := by
  have hinsert := h.insertCommand command
  have hcount := hinsert.1
  rw [insertCommand_rowcount, insertCommand_rowcount] at hcount
  have hany : d.commands.any (fun c => c.id = command.id) = d'.commands.any fun c => c.id = command.id := by
    by_cases hd : d.commands.any (fun c => c.id = command.id) = true <;>
      by_cases hd' : d'.commands.any (fun c => c.id = command.id) = true <;> simp [hd, hd'] at hcount ⊢
  have hnotified : ∀ w : Tables, OwnStep a w ((update sessionsTable (fun _ s => s.id = a)
      (PiSession.notified (if command.createdAt = 0 then now else command.createdAt))).apply w) :=
    fun w => OwnStep.updateSessions w fun _ => rfl
  simp only [SessionOp.run, atomically_enqueuePiSessionCommand, hany]
  split
  · exact h
  · next hnew =>
    have hnew' : ¬d.commands.any (fun c => c.id = command.id) = true := hany ▸ hnew
    have happly := hinsert.2
    rw [insertCommand_apply, insertCommand_apply, if_neg hnew, if_neg hnew'] at happly
    subst ha
    exact happly.own (hnotified _) (hnotified _) rfl

def runAll (d : Tables) (ops : List SessionOp) : Tables := ops.foldl SessionOp.run d

/-- The condition holds of every operation where it runs. -/
def Along (ok : Tables → SessionOp → Prop) : Tables → List SessionOp → Prop
  | _, [] => True
  | d, op :: ops => ok d op ∧ Along ok (op.run d) ops

def withoutBridge (a : String) (ops : List SessionOp) : List SessionOp := ops.filter fun op => op.bridge ≠ some a

/-- Unless it is a bridge operation of `a`, no insert that the operation executes is ignored only
because of an event of `a`. -/
def Undisplaced (a : String) (d : Tables) (op : SessionOp) : Prop :=
  op.bridge ≠ some a → aloneAll (undisplaced a) op.prog d d = true

theorem Apart.refl (a : String) (d : Tables) : Apart a d d :=
  ⟨rfl, rfl, rfl, rfl, fun e he _ => ⟨e, he, rfl⟩⟩

theorem Apart.sameFor (h : Apart a d d') (hab : a ≠ b) : SameFor b d d' where
  session := filter_eq_of_filter h.sessions fun _ hs => ne_of_eq_ne hab.symm (of_decide_eq_true hs)
  events := filter_eq_of_filter h.events fun _ he => ne_of_eq_ne hab.symm (of_decide_eq_true he)
  commands := filter_eq_of_filter h.commands fun _ hc => ne_of_eq_ne hab.symm (of_decide_eq_true hc)

/-- One operation, in the second run only when it is not a bridge operation of `a`. -/
theorem Apart.step (h : Apart a d d') (hop : op.addressee.isSome = true) (hok : Undisplaced a d op) :
    Apart a (op.run d) (if op.bridge = some a then d' else op.run d') := by
  obtain ⟨c, hc⟩ := Option.isSome_iff_exists.mp hop
  by_cases hb : op.bridge = some a
  · rw [if_pos hb]
    have hca : op.addressee = some a := by
      cases op <;> first | exact hb | cases hb
    have hno : ∀ command now, op ≠ .enqueue command now := by
      rintro command now rfl
      cases hb
    exact h.own (OwnStep.run hca hno d) (OwnStep.refl d') rfl
  · rw [if_neg hb]
    by_cases hca : c = a
    · subst hca
      have hbridge : op.bridge = none := by
        cases op <;> first | rfl | exact absurd hc hb
      by_cases henqueue : ∃ command now, op = .enqueue command now
      · obtain ⟨command, now, rfl⟩ := henqueue
        exact h.enqueue now (Option.some.inj hc)
      · have hno : ∀ command now, op ≠ .enqueue command now := fun command now he => henqueue ⟨command, now, he⟩
        exact h.own (OwnStep.run hc hno d) (OwnStep.run hc hno d') (events_run hbridge hc d')
    · exact h.run hc hca (hok hb)

/-- Deleting all bridge operations of `a` from a run makes no difference to any other session, when no
event of another session is ignored only because of an event of `a`. -/
theorem sessions_isolated {ops : List SessionOp} (hops : ∀ op ∈ ops, op.addressee.isSome = true) (hab : a ≠ b)
    (halong : Along (Undisplaced a) d ops) : SameFor b (runAll d ops) (runAll d (withoutBridge a ops)) := by
  suffices hrun : ∀ (ops : List SessionOp) (d d' : Tables), (∀ op ∈ ops, op.addressee.isSome = true) →
      Along (Undisplaced a) d ops → Apart a d d' → Apart a (runAll d ops) (runAll d' (withoutBridge a ops)) from
    (hrun ops d d hops halong (.refl a d)).sameFor hab
  intro ops
  induction ops with
  | nil => exact fun d d' _ _ h => h
  | cons op ops ih =>
    intro d d' hops halong h
    have hstep := h.step (hops op (by simp)) halong.1
    have hrest := ih (op.run d) _ (fun op' h' => hops op' (by simp [h'])) halong.2 hstep
    by_cases hb : op.bridge = some a
    · rw [if_pos hb] at hrest
      rwa [withoutBridge, List.filter_cons_of_neg (by simpa using hb)]
    · rw [if_neg hb] at hrest
      rwa [withoutBridge, List.filter_cons_of_pos (by simpa using hb)]

def twoBridges (x y : String) : List SessionOp :=
  [.register { sessionId := "a", incarnation := "A", incarnation_ne := incarnation_ne_A } 10 fun _ => "u",
    .register { sessionId := "b", incarnation := "B", incarnation_ne := incarnation_ne_B } 10 fun _ => "v",
    .events "a" { incarnation := "A", events := [{ id := some x, eventType := "message-end" }] } 11 fun _ => "w",
    .events "b" { incarnation := "B", events := [{ id := some y, eventType := "message-end" }] } 12 fun _ => "w"]

theorem sessions_isolated_twoBridges :
    SameFor "b" (runAll {} (twoBridges "x" "y")) (runAll {} (withoutBridge "a" (twoBridges "x" "y"))) := by
  refine sessions_isolated (by decide) (by decide) ?_
  refine ⟨fun _ => ?_, fun _ => ?_, fun _ => ?_, fun _ => ?_, trivial⟩ <;> decide

/-- With the same id for both events, the event of `b` is lost because `a` has stored one under it. -/
theorem stored_id_displaces_event : (∀ op ∈ twoBridges "x" "x", op.addressee.isSome = true) ∧
    ¬SameFor "b" (runAll {} (twoBridges "x" "x")) (runAll {} (withoutBridge "a" (twoBridges "x" "x"))) := by
  refine ⟨by decide, fun h => ?_⟩
  have hsame := h.events
  revert hsame
  decide

end SessionIsolation

end WorkerHarness
