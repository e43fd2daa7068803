import WorkerHarness.ConditionedRuns
import WorkerHarness.SessionLogs
import WorkerHarness.Transcripts
import Mathlib.Logic.Function.Basic

/-!
# The fleet view

The page loads the list of the sessions, and while the fleet view is open it streams the events of the active ones
and applies them to the rows it has loaded. A stream goes on where it is when the rows are loaded again, and one
that is opened starts after the last event that was applied to the row. The row of the server loses its question
without an event when a prompt is acknowledged, so what the stream brings may ask a question that is not asked any
more. Left out is the answer to a message for the orchestrator, which brings the row of the orchestrator: it asks
no one.
-/

namespace WorkerHarness.FleetViews

open CodePoints ConditionedRuns JsonTexts NumberedLogs Transcripts Database EventLog TaskQuestions SessionLogs

def units (text : Str) : Str :=
  text.flatMap fun c =>
    if c.val < 0x10000 then [c]
    else [Fin.ofNat 0x110000 (0xd800 + (c.val - 0x10000) / 0x400),
      Fin.ofNat 0x110000 (0xdc00 + (c.val - 0x10000) % 0x400)]

/-- The text of UTF-16 units, where a pair of surrogates is one code point. -/
def ofUnits : Str → Str
  | [] => []
  | [u] => [u]
  | high :: low :: rest =>
    if 0xd800 ≤ high.val ∧ high.val < 0xdc00 ∧ 0xdc00 ≤ low.val ∧ low.val < 0xe000 then
      Fin.ofNat 0x110000 (0x10000 + (high.val - 0xd800) * 0x400 + (low.val - 0xdc00)) :: ofUnits rest
    else high :: ofUnits (low :: rest)

/-- `text.slice(-length)` -/
def sliceEnd (length : ℕ) (text : Str) : Str := ofUnits ((units text).drop ((units text).length - length))

def isString (text : String) : Option Json → Bool
  | some (.string s) => s = str text
  | _ => false

/-- `String(payload.key || fallback)` -/
def textOr (n : Numerals) (event : Transcripts.Event) (key fallback : String) : Option Str :=
  templateText n (orElse (event.get key) (some (.string (str fallback))))

/-- A row of `state.sessions`: what the server sends, and what `applyGlobalEvent` keeps there. -/
structure FleetRow where
  name : Str
  state : PiSessionState
  question : Str
  hasPendingMessages : Bool
  cursor : ℕ := 0
  latestUserPrompt : Str := []
  assistantTail : Str := []
  lastUserAt : Option ℕ := none
  currentTool : Option Str := none
  recentTools : List Str := []

def isInternalSession (name : Str) : Bool := (str "subagent-").isPrefixOf name

def isHistoricalSession : PiSessionState → Bool
  | .stopped | .failed | .terminationUnknown => true
  | _ => false

/-- The row is one of `globalInteractiveSessions`. -/
def isGlobalInteractive (name : Str) (state : PiSessionState) : Bool :=
  !isInternalSession name && !isHistoricalSession state

def FleetRow.active (row : FleetRow) : Bool := isGlobalInteractive row.name row.state

/-- `{ ...previous.get(session.id), ...session }` -/
def merge (previous : Option FleetRow) (session : PiSession) : FleetRow :=
  match previous with
  | none => { name := str session.name, state := session.state, question := str session.question,
              hasPendingMessages := session.hasPendingMessages }
  | some row =>
    { row with
      name := str session.name
      state := session.state
      question := str session.question
      hasPendingMessages := session.hasPendingMessages }

def blockTexts (n : Numerals) : List Json → Option (List Str)
  | [] => some []
  | block :: blocks =>
    if isString "text" (property "type" (some block)) then
      (templateText n (orElse (property "text" (some block)) (some (.string [])))).bind fun text =>
        (blockTexts n blocks).map (text :: ·)
    else blockTexts n blocks

def eventMessageText (n : Numerals) (event : Transcripts.Event) : Option Str :=
  match property "content" (orElse (event.get "message") (some (.object []))) with
  | some (.array blocks) => (blockTexts n blocks).map (List.intercalate (str "\n"))
  | _ => some []

/-- `session.current_tool === payload.tool_name` -/
def sameTool : Option Str → Option Json → Bool
  | none, none => true
  | some tool, some (.string s) => tool = s
  | _, _ => false

/-- `applyGlobalEvent`, once it has moved the cursor. What raises has not changed the row. -/
def applyPayload (n : Numerals) (event : Transcripts.Event) (row : FleetRow) : FleetRow :=
  match event.eventType with
  | "message-end" =>
    let role := property "role" (event.get "message")
    match eventMessageText n event with
    | none | some [] => row
    | some text =>
      if isString "user" role then
        { row with latestUserPrompt := sliceEnd 500 text, assistantTail := [], lastUserAt := some event.createdAt }
      else if isString "assistant" role then { row with assistantTail := sliceEnd 1200 text }
      else row
  | "message-delta" =>
    match textOr n event "delta" "" with
    | none => row
    | some delta => { row with assistantTail := sliceEnd 1200 (row.assistantTail ++ delta) }
  | "tool-start" =>
    match textOr n event "tool_name" "tool" with
    | none => row
    | some tool =>
      { row with
        currentTool := some tool, recentTools := (tool :: row.recentTools.filter fun item => item ≠ tool).take 3 }
  | "tool-end" =>
    if sameTool row.currentTool (event.get "tool_name") then { row with currentTool := some [] } else row
  | "blocked" =>
    match textOr n event "question" "" with
    | none => row
    | some question => { row with question, state := .blocked }
  | "agent-start" => { row with state := if row.question ≠ [] then .blocked else .working }
  | "agent-settled" =>
    { row with state := if row.question ≠ [] then .blocked else .idle, hasPendingMessages := false }
  | "pending-state" => { row with hasPendingMessages := truthy (event.get "has_pending_messages") }
  | "interrupt-applied" => { row with hasPendingMessages := false }
  | _ => row

/-- `applyGlobalEvent` finds the row among the active ones. -/
def applyGlobalEvent (n : Numerals) (event : Transcripts.Event) (row : FleetRow) : FleetRow :=
  if row.active then applyPayload n event { row with cursor := max row.cursor event.sequence } else row

/-- What `JSON.parse` makes of the text of a value that is neither a string nor an integer, if it does not raise. -/
abbrev Parse := String → Option Json

def readValue (parse : Parse) : JsonValue → Option Json
  | .str s => some (.string (str s))
  | .num k => some (.int k)
  | .other text => parse text

def readPayload (parse : Parse) (payload : JsonObject) : Option (List (Str × Json)) :=
  payload.mapM fun m => (readValue parse m.2).map fun value => (str m.1, value)

/-- `JSON.parse(incoming.data)` -/
def readEvent (parse : Parse) (e : PiSessionEvent) : Option Transcripts.Event :=
  (readPayload parse e.payload).map fun payload =>
    { id := str e.id
      sessionId := str e.sessionId
      eventType := e.eventType
      payload
      createdAt := e.createdAt
      sequence := e.sequence }

def onPiEvent (n : Numerals) (parse : Parse) (e : PiSessionEvent) (row : FleetRow) : FleetRow :=
  match readEvent parse e with
  | none => row
  | some event => applyGlobalEvent n event row

/-- A row of an answer, and how many events the session had then. -/
structure Answer where
  session : PiSession
  count : ℕ

/-- What `loadSessions` waits for. The rows of `previous` are those that the page shows, until other rows take
their place. -/
structure Load where
  previous : Option (String → Option FleetRow) := none
  answer : Option (String → Option Answer) := none

/-- `state`: the sessions and the positions of the open sources by session id, and the loads on their way. -/
structure Page where
  sessions : String → Option FleetRow := fun _ => none
  globalSources : String → Option ℕ := fun _ => none
  globalOpen : Bool := false
  loads : ℕ → Option Load := fun _ => none

namespace Page

def setLoad (i : ℕ) (load : Option Load) (page : Page) : Page :=
  { page with loads := Function.update page.loads i load }

def openGlobal (page : Page) : Page := { page with globalOpen := true }

def closeGlobal (page : Page) : Page := { page with globalOpen := false, globalSources := fun _ => none }

/-- Sources of sessions that are not active any more are closed, those of new ones are opened. -/
def connectGlobalSources (page : Page) : Page :=
  { page with
    globalSources := fun id => (page.sessions id).bind fun row =>
      if row.active then some ((page.globalSources id).getD row.cursor) else none }

/-- The rows take the place of those that the page shows; other loads keep the old ones. -/
def replaceSessions (sessions : String → Option FleetRow) (page : Page) : Page :=
  { page with
    sessions
    loads := fun i => (page.loads i).map fun load =>
      { load with previous := some (load.previous.getD page.sessions) } }

def mergedSessions (load : Load) (answer : String → Option Answer) (page : Page) (id : String) : Option FleetRow :=
  (answer id).map fun a => merge ((load.previous.getD page.sessions) id) a.session

/-- The answer that `loadSessions` waits for arrives. Showing the list may raise, before the sources are
connected. -/
def sessionsArrive (i : ℕ) (load : Load) (answer : String → Option Answer) (rendered : Bool) (page : Page) : Page :=
  let page := (page.setLoad i none).replaceSessions (page.mergedSessions load answer)
  if rendered ∧ page.globalOpen then page.connectGlobalSources else page

def streamed (n : Numerals) (parse : Parse) (id : String) (e : PiSessionEvent) (page : Page) : Page :=
  { page with
    sessions := Function.update page.sessions id ((page.sessions id).map (onPiEvent n parse e))
    globalSources := Function.update page.globalSources id (some e.sequence) }

end Page

/-- The server and the page, with the row that a session had after its last event and with the answer that the page
has taken in last. -/
structure World where
  tables : Tables
  page : Page := {}
  eventRow : String → Option PiSession := fun _ => none
  loaded : String → Option Answer := fun _ => none

inductive Action
  | server (op : SessionOp)
  | openGlobal
  | closeGlobal
  | load (i : ℕ)
  | answer (i : ℕ)
  | arrive (i : ℕ) (rendered : Bool)
  | fail (i : ℕ)
  | stream (id : String)

/-- `GET /api/v1/pi/sessions` -/
def piSessionsList (d : Tables) (id : String) : Option Answer :=
  (findSession d id).map fun session => ⟨session, (log d id).length⟩

def next (d : Tables) (id : String) (position : ℕ) : Option PiSessionEvent :=
  (eventNumbering.beyond id position d.events).head?

def World.serve (op : SessionOp) (w : World) : World :=
  { w with
    tables := op.run w.tables
    eventRow := fun id => if log (op.run w.tables) id = log w.tables id then w.eventRow id
      else findSession (op.run w.tables) id }

def step (n : Numerals) (parse : Parse) (w : World) : Action → Option World
  | .server op => if Issued op then some (w.serve op) else none
  | .openGlobal => some { w with page := w.page.openGlobal }
  | .closeGlobal => some { w with page := w.page.closeGlobal }
  | .load i => if (w.page.loads i).isNone then some { w with page := w.page.setLoad i (some {}) } else none
  | .answer i =>
    match w.page.loads i with
    | some ⟨previous, none⟩ =>
      some { w with page := w.page.setLoad i (some ⟨previous, some (piSessionsList w.tables)⟩) }
    | _ => none
  | .arrive i rendered =>
    match w.page.loads i with
    | some ⟨previous, some answer⟩ =>
      some { w with page := w.page.sessionsArrive i ⟨previous, some answer⟩ answer rendered, loaded := answer }
    | _ => none
  | .fail i => if (w.page.loads i).isSome then some { w with page := w.page.setLoad i none } else none
  | .stream id =>
    (w.page.globalSources id).bind fun position => (next w.tables id position).map fun e =>
      { w with page := w.page.streamed n parse id e }

def asOf (w : World) (id : String) (a : Answer) : Option PiSession :=
  if a.count < (log w.tables id).length then w.eventRow id else some a.session

/-- What the page shows of each active session, once all its events have been streamed, is what the server has,
as of the later of the load and the last event. -/
def Agrees (w : World) : Prop :=
  ∀ id row, w.page.sessions id = some row → row.active = true →
    w.page.globalSources id = some (log w.tables id).length →
    ∃ session, (w.loaded id).bind (asOf w id) = some session ∧ row.question = str session.question ∧
      (row.state = .blocked ↔ session.state = .blocked)

def InUse (page : Page) (loaded : String → Option Answer) (id : String) (a : Answer) : Prop :=
  isGlobalInteractive (str a.session.name) a.session.state = true ∧
    ((page.globalSources id).isSome = true ∧ loaded id = some a ∨
      ∃ i load answer, page.loads i = some load ∧ load.answer = some answer ∧ answer id = some a)

/-- Where the stream of a session goes on when an answer arrives. -/
def Page.position (load : Load) (id : String) (page : Page) : ℕ :=
  (page.globalSources id).getD (((load.previous.getD page.sessions) id).elim 0 (·.cursor))

/-- Questions are only stored by the sessions that ask them. What else stores an event finds the question as it was
at the later of the load and the last event, and does not end a session with a question. An answer is not taken in
when the events that its stream still brings ask another question than those since the answer. -/
def Undisturbed (w : World) : Action → Prop
  | .server op =>
    ReportsNoBlock w.tables op ∧ UploadsNoQuestion op ∧
      ∀ id a, InUse w.page w.loaded id a → ¬AsksManager op id → log (op.run w.tables) id ≠ log w.tables id →
        ∀ s ∈ w.tables.sessions, s.id = id →
          (asOf w id a).map (·.question) = some s.question ∧ (Ends op → s.question = "")
  | .arrive i rendered =>
    ∀ load answer id a, w.page.loads i = some load → load.answer = some answer → answer id = some a →
      isGlobalInteractive (str a.session.name) a.session.state = true →
        rendered = true ∧ w.page.globalOpen = true ∨ (w.page.globalSources id).isSome = true →
          (asked ((log w.tables id).drop (w.page.position load id))).getD a.session.question =
            (asked ((log w.tables id).drop a.count)).getD a.session.question
  | _ => True

variable {n : Numerals} {parse : Parse} {w w' : World} {page : Page} {row : FleetRow} {id : String} {a : Answer}

structure Shows (row : FleetRow) (text : String) : Prop where
  active : row.active = true
  question : row.question = str text
  blocked : row.state = .blocked ↔ text ≠ ""

theorem str_eq_nil {text : String} : str text = [] ↔ text = "" := by
  rw [str, List.map_eq_nil_iff, String.toList_eq_nil_iff]

theorem shows_merge {session : PiSession} (previous : Option FleetRow) (hc : Consistent session)
    (hactive : isGlobalInteractive (str session.name) session.state = true) :
    Shows (merge previous session) session.question := by
  cases previous <;> exact ⟨hactive, rfl, hc⟩

theorem active_merge (previous : Option FleetRow) (session : PiSession) :
    (merge previous session).active = isGlobalInteractive (str session.name) session.state := by
  cases previous <;> rfl

theorem cursor_merge (previous : Option FleetRow) (session : PiSession) :
    (merge previous session).cursor = previous.elim 0 (·.cursor) := by
  cases previous <;> rfl

theorem cursor_applyPayload (n : Numerals) (event : Transcripts.Event) (row : FleetRow) :
    (applyPayload n event row).cursor = row.cursor := by
  unfold applyPayload
  split
  case h_1 =>
    dsimp only
    repeat' split
    all_goals rfl
  all_goals try split
  all_goals rfl

theorem Shows.of_eq {text : String} (h : Shows row text) {row' : FleetRow} (hname : row'.name = row.name)
    (hstate : row'.state = row.state) (hquestion : row'.question = row.question) : Shows row' text where
  active := by
    rw [FleetRow.active, hname, hstate]
    exact h.active
  question := hquestion.trans h.question
  blocked := by
    rw [hstate]
    exact h.blocked

/-- The state is blocked as long as there is a question. -/
theorem Shows.setState {text : String} (h : Shows row text) {state : PiSessionState}
    (hstate : state = .working ∨ state = .idle) :
    Shows { row with state := if row.question ≠ [] then .blocked else state } text := by
  have hname : isInternalSession row.name = false := by
    have hactive := h.active
    rw [FleetRow.active, isGlobalInteractive, Bool.and_eq_true, Bool.not_eq_true'] at hactive
    exact hactive.1
  have hasks : row.question ≠ [] ↔ text ≠ "" := by rw [h.question, ne_eq, str_eq_nil]
  by_cases hq : text = ""
  · rw [if_neg fun hne => hasks.mp hne hq]
    rcases hstate with rfl | rfl <;>
      exact ⟨by simp [FleetRow.active, isGlobalInteractive, isHistoricalSession, hname], h.question, by simp [hq]⟩
  · rw [if_pos (hasks.mpr hq)]
    exact ⟨by simp [FleetRow.active, isGlobalInteractive, isHistoricalSession, hname], h.question, by simp [hq]⟩

/-- An event that is no question leaves the question; what it does to the state agrees with the question. -/
theorem Shows.applyPayload {text : String} (h : Shows row text) {event : Transcripts.Event}
    (hevent : event.eventType ≠ "blocked") :
    Shows (applyPayload n event row) text := by
  unfold FleetViews.applyPayload
  split
  case h_1 =>
    dsimp only
    repeat' split
    all_goals exact h.of_eq rfl rfl rfl
  case h_5 htype => exact absurd htype hevent
  case h_6 => exact h.setState (.inl rfl)
  case h_7 => exact (h.setState (.inr rfl)).of_eq rfl rfl rfl
  all_goals try split
  all_goals exact h.of_eq rfl rfl rfl

/-- An event of the server that is no question leaves the question. -/
theorem Shows.applyGlobalEvent {text : String} (h : Shows row text) {event : Transcripts.Event}
    (hevent : event.eventType ≠ "blocked") : Shows (applyGlobalEvent n event row) text := by
  rw [FleetViews.applyGlobalEvent, if_pos h.active]
  have hmoved : Shows { row with cursor := max row.cursor event.sequence } text := h.of_eq rfl rfl rfl
  exact hmoved.applyPayload hevent

/-- A question of the server is shown. -/
theorem shows_question {text : String} (htext : text ≠ "") {event : Transcripts.Event}
    (hevent : event.eventType = "blocked")
    (hpayload : event.payload = [(str "question", .string (str text))]) (hactive : row.active = true) :
    Shows (applyGlobalEvent n event row) text := by
  have hname : isInternalSession row.name = false := by
    rw [FleetRow.active, isGlobalInteractive, Bool.and_eq_true, Bool.not_eq_true'] at hactive
    exact hactive.1
  have hget : event.get "question" = some (.string (str text)) := by
    simp [Transcripts.Event.get, hpayload, getMember]
  have hread : textOr n event "question" "" = some (str text) := by
    have htruthy : truthy (some (.string (str text))) = true := by simp [truthy, str_eq_nil, htext]
    rw [textOr, hget, orElse, if_pos htruthy]
    rfl
  rw [FleetViews.applyGlobalEvent, if_pos hactive, applyPayload, hevent]
  dsimp only
  rw [hread]
  exact ⟨by simp [FleetRow.active, isGlobalInteractive, isHistoricalSession, hname], rfl, iff_of_true rfl htext⟩

theorem active_applyGlobalEvent_of_not {event : Transcripts.Event} (h : row.active = false) :
    applyGlobalEvent n event row = row := by
  rw [applyGlobalEvent, if_neg (by simp [h])]

/-- A row shows the last question that it had or that the event asks. -/
theorem Shows.onPiEvent {text : String} (h : Shows row text) {e : PiSessionEvent}
    (he : e.eventType = "blocked" → ∃ question, question ≠ "" ∧ e.payload = [("question", .str question)]) :
    Shows (onPiEvent n parse e row) ((SessionLogs.question e).getD text) := by
  by_cases htype : e.eventType = "blocked"
  · obtain ⟨asks, hne, hpayload⟩ := he htype
    have hquestion : SessionLogs.question e = some asks := by
      simp [SessionLogs.question, htype, hpayload, JsonObject.getStr, JsonObject.get]
    rw [FleetViews.onPiEvent, readEvent, hpayload, hquestion]
    exact shows_question hne htype rfl h.active
  · rw [SessionLogs.question, if_neg htype, FleetViews.onPiEvent]
    cases hread : readEvent parse e with
    | none => exact h
    | some event =>
      obtain ⟨payload, -, rfl⟩ := Option.map_eq_some_iff.mp hread
      exact h.applyGlobalEvent htype

theorem onPiEvent_of_not_active {e : PiSessionEvent} (h : row.active = false) : onPiEvent n parse e row = row := by
  rw [onPiEvent]
  cases readEvent parse e with
  | none => rfl
  | some event => exact active_applyGlobalEvent_of_not h

theorem cursor_onPiEvent_le (n : Numerals) (parse : Parse) (e : PiSessionEvent) (row : FleetRow) :
    (onPiEvent n parse e row).cursor ≤ max row.cursor e.sequence := by
  rw [onPiEvent]
  cases hread : readEvent parse e with
  | none => exact Nat.le_max_left ..
  | some event =>
    obtain ⟨payload, -, rfl⟩ := Option.map_eq_some_iff.mp hread
    dsimp only
    rw [applyGlobalEvent]
    split
    · rw [cursor_applyPayload]
    · exact Nat.le_max_left ..

/-- The answer is of the log so far, and the events since then lead from its row to the row of the server. -/
structure Tracks (w : World) (id : String) (a : Answer) : Prop where
  count : a.count ≤ (log w.tables id).length
  consistent : Consistent a.session
  known : ∃ s ∈ w.tables.sessions, s.id = id
  asOf : ∃ session, asOf w id a = some session ∧ Consistent session ∧
    (asked ((log w.tables id).drop a.count)).getD a.session.question = session.question

def Follows (w : World) (id : String) (position : ℕ) (row : FleetRow) (a : Answer) : Prop :=
  ∃ text, Shows row text ∧
    (asked ((log w.tables id).drop position)).getD text =
      (asked ((log w.tables id).drop a.count)).getD a.session.question

structure Orderly (w : World) : Prop where
  kept : Kept w.tables
  cursors : ∀ id row, w.page.sessions id = some row → row.cursor ≤ (log w.tables id).length
  previous : ∀ i load rows, w.page.loads i = some load → load.previous = some rows →
    ∀ id row, rows id = some row → row.cursor ≤ (log w.tables id).length
  positions : ∀ id position, w.page.globalSources id = some position → position ≤ (log w.tables id).length
  loaded : ∀ id row, w.page.sessions id = some row →
    ∃ a, w.loaded id = some a ∧ row.active = isGlobalInteractive (str a.session.name) a.session.state
  tracks : ∀ id a, InUse w.page w.loaded id a → Tracks w id a
  follows : ∀ id position row a, w.page.globalSources id = some position → w.page.sessions id = some row →
    row.active = true →
    w.loaded id = some a → Follows w id position row a

theorem Orderly.inUse (h : Orderly w) {position : ℕ} (hsource : w.page.globalSources id = some position)
    (hrow : w.page.sessions id = some row) (hactive : row.active = true) (hloaded : w.loaded id = some a) :
    InUse w.page w.loaded id a := by
  obtain ⟨b, hb, hactive'⟩ := h.loaded id row hrow
  obtain rfl := Option.some.inj (hloaded.symm.trans hb)
  exact ⟨hactive'.symm.trans hactive, .inl ⟨Option.isSome_iff_exists.mpr ⟨position, hsource⟩, hloaded⟩⟩

theorem Orderly.agrees (h : Orderly w) : Agrees w := by
  intro id row hrow hactive hsource
  obtain ⟨a, hloaded, -⟩ := h.loaded id row hrow
  obtain ⟨text, hshows, hfollows⟩ := h.follows id _ row a hsource hrow hactive hloaded
  obtain ⟨session, hasOf, hconsistent, hquestion⟩ := (h.tracks id a (h.inUse hsource hrow hactive hloaded)).asOf
  have htext : text = session.question := by
    rw [← hquestion, ← hfollows, List.drop_length]
    rfl
  refine ⟨session, by rw [hloaded, Option.bind_some, hasOf], htext ▸ hshows.question, ?_⟩
  rw [hshows.blocked, htext]
  exact hconsistent.symm

section Server

variable {op : SessionOp}

theorem asOf_serve_of_eq (h : log (op.run w.tables) id = log w.tables id) :
    asOf (w.serve op) id a = asOf w id a := by
  unfold asOf World.serve
  dsimp only
  rw [if_pos h, h]

theorem asOf_serve_of_ne (h : log (op.run w.tables) id ≠ log w.tables id)
    (hcount : a.count < (log (op.run w.tables) id).length) :
    asOf (w.serve op) id a = findSession (op.run w.tables) id := by
  unfold asOf World.serve
  dsimp only
  rw [if_neg h, if_pos hcount]

theorem log_run_append (d : Tables) (op : SessionOp) (id : String) :
    ∃ more, log (op.run d) id = log d id ++ more := by
  obtain ⟨more, hevents, -⟩ := grown_run d op
  exact ⟨eventNumbering.entries id more, by rw [log, hevents, Numbering.entries_append, log]⟩

theorem getD_or_congr {x y more : Option String} {b c : String} (h : x.getD b = y.getD c) :
    (more.or x).getD b = (more.or y).getD c := by
  cases more with
  | none => exact h
  | some question => rfl

theorem Tracks.serve (h : Tracks w id a) (hkept : Kept w.tables) (hop : Issued op)
    (hok : Undisturbed w (.server op))
    (huse : InUse w.page w.loaded id a) : Tracks (w.serve op) id a := by
  obtain ⟨hreports, huploads, hquiet⟩ := hok
  obtain ⟨s, hs, rfl⟩ := h.known
  obtain ⟨more, s', hlog, hfind, hcases⟩ := hkept.log_run hop hreports huploads hs
  obtain ⟨session, hasOf, hconsistent, hquestion⟩ := h.asOf
  obtain ⟨t, ht, hstep⟩ := SessionRows.exists_run hkept.sessions op hs
  have hlength : (log (op.run w.tables) s.id).length = (log w.tables s.id).length + more.length := by
    rw [hlog, List.length_append]
  have hcount := h.count
  have hdrop : asked ((log (op.run w.tables) s.id).drop a.count) =
    (asked more).or (asked ((log w.tables s.id).drop a.count)) := by
    rw [hlog, List.drop_append_of_le_length hcount, asked_append]
  refine ⟨?_, h.consistent, ⟨t, ht, hstep.id_eq⟩, ?_⟩
  · rw [World.serve, hlength]
    omega
  · by_cases hmore : more = []
    · have hsame : log (op.run w.tables) s.id = log w.tables s.id := by rw [hlog, hmore, List.append_nil]
      refine ⟨session, (asOf_serve_of_eq hsame).trans hasOf, hconsistent, ?_⟩
      rw [World.serve, hsame]
      exact hquestion
    · have hpos : 0 < more.length := List.length_pos_iff.mpr hmore
      have hne : log (op.run w.tables) s.id ≠ log w.tables s.id := fun heq => by
        rw [heq] at hlength
        omega
      have hmem : s' ∈ (op.run w.tables).sessions := List.mem_of_find?_eq_some hfind
      refine ⟨s', (asOf_serve_of_ne hne (by omega)).trans hfind,
        (hkept.run hop hreports huploads).consistent s' hmem, ?_⟩
      rw [World.serve, hdrop]
      rcases hcases with hnil | ⟨-, hasks⟩ | ⟨hask, hnone, hstays⟩
      · exact absurd hnil hmore
      · rw [hasks]
        rfl
      · obtain ⟨hfound, hends⟩ := hquiet s.id a huse hask hne s hs rfl
        rw [hasOf] at hfound
        rw [hnone, Option.none_or, hquestion, hstays hends]
        exact Option.some.inj hfound

theorem Follows.serve {position : ℕ} (h : Follows w id position row a)
    (hposition : position ≤ (log w.tables id).length)
    (hcount : a.count ≤ (log w.tables id).length) (op : SessionOp) : Follows (w.serve op) id position row a := by
  obtain ⟨text, hshows, hquestion⟩ := h
  obtain ⟨more, hlog⟩ := log_run_append w.tables op id
  refine ⟨text, hshows, ?_⟩
  rw [World.serve, hlog, List.drop_append_of_le_length hposition, List.drop_append_of_le_length hcount,
    asked_append, asked_append]
  exact getD_or_congr hquestion

theorem Orderly.serve (h : Orderly w) (hop : Issued op) (hok : Undisturbed w (.server op)) :
    Orderly (w.serve op) := by
  have hlength : ∀ id, (log w.tables id).length ≤ (log (op.run w.tables) id).length := by
    intro id
    obtain ⟨more, hlog⟩ := log_run_append w.tables op id
    rw [hlog, List.length_append]
    omega
  constructor
  · exact h.kept.run hop hok.1 hok.2.1
  · exact fun id row hrow => (h.cursors id row hrow).trans (hlength id)
  · exact fun i load rows hload hrows id row hrow => (h.previous i load rows hload hrows id row hrow).trans
      (hlength id)
  · exact fun id position hposition => (h.positions id position hposition).trans (hlength id)
  · exact h.loaded
  · exact fun id a huse => (h.tracks id a huse).serve h.kept hop hok huse
  · intro id position row a hsource hrow hactive hloaded
    exact (h.follows id position row a hsource hrow hactive hloaded).serve (h.positions id position hsource)
      (h.tracks id a (h.inUse hsource hrow hactive hloaded)).count op

end Server

theorem loads_setLoad_self (i : ℕ) (load : Option Load) (page : Page) : (page.setLoad i load).loads i = load :=
  Function.update_self ..

theorem loads_setLoad_of_ne {i j : ℕ} (h : j ≠ i) (load : Option Load) (page : Page) :
    (page.setLoad i load).loads j = page.loads j := Function.update_of_ne h ..

section Streamed

variable (n parse) (e : PiSessionEvent)

theorem sessions_streamed_self (id : String) (page : Page) :
    (page.streamed n parse id e).sessions id = (page.sessions id).map (onPiEvent n parse e) :=
  Function.update_self ..

theorem sessions_streamed_of_ne {id' : String} (h : id' ≠ id) (page : Page) :
    (page.streamed n parse id e).sessions id' = page.sessions id' := Function.update_of_ne h ..

theorem globalSources_streamed_self (id : String) (page : Page) :
    (page.streamed n parse id e).globalSources id = some e.sequence := Function.update_self ..

theorem globalSources_streamed_of_ne {id' : String} (h : id' ≠ id) (page : Page) :
    (page.streamed n parse id e).globalSources id' = page.globalSources id' := Function.update_of_ne h ..

end Streamed

theorem Tracks.of_eq (h : Tracks w id a) (htables : w'.tables = w.tables) (hrow : w'.eventRow = w.eventRow) :
    Tracks w' id a := by
  have hasOf : FleetViews.asOf w' id a = FleetViews.asOf w id a := by
    rw [FleetViews.asOf, htables, hrow, FleetViews.asOf]
  refine ⟨htables ▸ h.count, h.consistent, htables ▸ h.known, ?_⟩
  rw [hasOf, htables]
  exact h.asOf

/-- An answer is made of the rows and the logs that it finds. -/
theorem tracks_piSessionsList (h : Kept w.tables) (ha : piSessionsList w.tables id = some a) : Tracks w id a := by
  obtain ⟨s, hs, rfl⟩ := Option.map_eq_some_iff.mp ha
  have hmem : s ∈ w.tables.sessions := List.mem_of_find?_eq_some hs
  have hid : s.id = id := by simpa using List.find?_some hs
  refine ⟨Nat.le_refl _, h.consistent s hmem, ⟨s, hmem, hid⟩, s, if_neg (Nat.lt_irrefl _), h.consistent s hmem, ?_⟩
  rw [List.drop_length]
  rfl

/-- What a load merges its answer into has no cursor beyond the log. -/
theorem Orderly.cursor_le (h : Orderly w) {i : ℕ} {load : Load} (hload : w.page.loads i = some load)
    (hrow : (load.previous.getD w.page.sessions) id = some row) : row.cursor ≤ (log w.tables id).length := by
  cases hprevious : load.previous with
  | none =>
    rw [hprevious] at hrow
    exact h.cursors id row hrow
  | some rows =>
    rw [hprevious] at hrow
    exact h.previous i load rows hload hprevious id row hrow

theorem Orderly.setLoad (h : Orderly w) (i : ℕ) {load : Option Load}
    (hprevious : ∀ l rows, load = some l → l.previous = some rows →
      ∀ id row, rows id = some row → row.cursor ≤ (log w.tables id).length)
    (htracks : ∀ l answer id a, load = some l → l.answer = some answer → answer id = some a → Tracks w id a) :
    Orderly { w with page := w.page.setLoad i load } := by
  refine ⟨h.kept, h.cursors, fun j l rows hl hrows => ?_, h.positions, h.loaded, fun id a huse => ?_, h.follows⟩
  · by_cases hj : j = i
    · subst hj
      exact hprevious l rows ((loads_setLoad_self ..).symm.trans hl) hrows
    · exact h.previous j l rows ((loads_setLoad_of_ne hj ..).symm.trans hl) hrows
  · refine Tracks.of_eq (w := w) ?_ rfl rfl
    obtain ⟨hactive, hshown | ⟨j, l, answer, hl, hanswer, ha⟩⟩ := huse
    · exact h.tracks id a ⟨hactive, .inl hshown⟩
    · by_cases hj : j = i
      · subst hj
        exact htracks l answer id a ((loads_setLoad_self ..).symm.trans hl) hanswer ha
      · exact h.tracks id a ⟨hactive, .inr ⟨j, l, answer, (loads_setLoad_of_ne hj ..).symm.trans hl, hanswer, ha⟩⟩

theorem Orderly.closeGlobal (h : Orderly w) : Orderly { w with page := w.page.closeGlobal } := by
  refine ⟨h.kept, h.cursors, h.previous, fun id position hposition => ?_, h.loaded, fun id a huse => ?_, ?_⟩
  · cases hposition
  · refine Tracks.of_eq (w := w) ?_ rfl rfl
    obtain ⟨hactive, ⟨hopen, -⟩ | hload⟩ := huse
    · cases hopen
    · exact h.tracks id a ⟨hactive, .inr hload⟩
  · intro id position row a hposition
    cases hposition

section Arrival

variable {i : ℕ} {load : Load} {answer : String → Option Answer} {rendered : Bool}

theorem sessions_sessionsArrive (i : ℕ) (load : Load) (answer : String → Option Answer) (rendered : Bool)
    (page : Page) :
    (page.sessionsArrive i load answer rendered).sessions = page.mergedSessions load answer := by
  unfold Page.sessionsArrive
  dsimp only
  split <;> rfl

theorem loads_sessionsArrive (i : ℕ) (load : Load) (answer : String → Option Answer) (rendered : Bool)
    (page : Page) (j : ℕ) :
    (page.sessionsArrive i load answer rendered).loads j = ((page.setLoad i none).loads j).map fun load =>
      { load with previous := some (load.previous.getD page.sessions) } := by
  unfold Page.sessionsArrive
  dsimp only
  split <;> rfl

/-- A source that is open after an answer was open before, or is opened at the cursor of the row. -/
theorem source_sessionsArrive {position : ℕ}
    (h : (page.sessionsArrive i load answer rendered).globalSources id = some position) :
    position = page.position load id ∧ (rendered = true ∧ page.globalOpen = true ∨
      (page.globalSources id).isSome = true) := by
  unfold Page.sessionsArrive at h
  dsimp only at h
  split at h
  · next hopen =>
    refine ⟨?_, .inl hopen⟩
    obtain ⟨row, hrow, h⟩ := Option.bind_eq_some_iff.mp h
    obtain ⟨a, -, rfl⟩ := Option.map_eq_some_iff.mp hrow
    split at h
    · rw [← Option.some.inj h, cursor_merge]
      rfl
    · cases h
  · refine ⟨?_, .inr (Option.isSome_iff_exists.mpr ⟨position, h⟩)⟩
    have hsource : page.globalSources id = some position := h
    rw [Page.position, hsource]
    rfl

theorem Orderly.arrive (h : Orderly w) (hload : w.page.loads i = some load) (hanswer : load.answer = some answer)
    (hok : Undisturbed w (.arrive i rendered)) :
    Orderly { w with page := w.page.sessionsArrive i load answer rendered, loaded := answer } := by
  have hrow : ∀ id row, (w.page.sessionsArrive i load answer rendered).sessions id = some row →
      ∃ a, answer id = some a ∧ row = merge ((load.previous.getD w.page.sessions) id) a.session := by
    intro id row hrow
    rw [sessions_sessionsArrive] at hrow
    obtain ⟨a, ha, hmerge⟩ := Option.map_eq_some_iff.mp hrow
    exact ⟨a, ha, hmerge.symm⟩
  have hcursor : ∀ id, ((load.previous.getD w.page.sessions) id).elim 0 (·.cursor) ≤ (log w.tables id).length := by
    intro id
    cases hprevious : (load.previous.getD w.page.sessions) id with
    | none => exact Nat.zero_le _
    | some row => exact h.cursor_le hload hprevious
  have htracks : ∀ id a, answer id = some a → isGlobalInteractive (str a.session.name) a.session.state = true →
    Tracks w id a :=
    fun id a ha hactive => h.tracks id a ⟨hactive, .inr ⟨i, load, answer, hload, hanswer, ha⟩⟩
  constructor
  · exact h.kept
  · intro id row hrow'
    obtain ⟨a, ha, rfl⟩ := hrow id row hrow'
    rw [cursor_merge]
    exact hcursor id
  · intro j l rows hl hrows id row hrow
    rw [loads_sessionsArrive] at hl
    obtain ⟨l', hl', rfl⟩ := Option.map_eq_some_iff.mp hl
    obtain rfl := Option.some.inj hrows
    by_cases hj : j = i
    · subst hj
      cases (loads_setLoad_self ..).symm.trans hl'
    · exact h.cursor_le ((loads_setLoad_of_ne hj ..).symm.trans hl') hrow
  · intro id position hposition
    obtain ⟨rfl, -⟩ := source_sessionsArrive hposition
    rw [Page.position]
    cases hsource : w.page.globalSources id with
    | none => exact hcursor id
    | some position => exact h.positions id position hsource
  · intro id row hrow'
    obtain ⟨a, ha, rfl⟩ := hrow id row hrow'
    exact ⟨a, ha, active_merge _ _⟩
  · intro id a huse
    refine Tracks.of_eq (w := w) ?_ rfl rfl
    obtain ⟨hactive, ⟨-, ha⟩ | ⟨j, l, answer', hl, hanswer', ha⟩⟩ := huse
    · exact htracks id a ha hactive
    · rw [loads_sessionsArrive] at hl
      obtain ⟨l', hl', rfl⟩ := Option.map_eq_some_iff.mp hl
      by_cases hj : j = i
      · subst hj
        cases (loads_setLoad_self ..).symm.trans hl'
      · exact h.tracks id a ⟨hactive, .inr ⟨j, l', answer', (loads_setLoad_of_ne hj ..).symm.trans hl',
          hanswer', ha⟩⟩
  · intro id position row a hposition hrow' hactive ha
    obtain ⟨rfl, hsource⟩ := source_sessionsArrive hposition
    obtain ⟨b, hb, rfl⟩ := hrow id row hrow'
    obtain rfl := Option.some.inj (hb.symm.trans ha)
    rw [active_merge] at hactive
    exact ⟨b.session.question, shows_merge _ (htracks id b hb hactive).consistent hactive,
      hok load answer id b hload hanswer hb hactive hsource⟩

end Arrival

theorem next_eq (h : eventNumbering.Dense w.tables.events) (id : String) (position : ℕ) :
    next w.tables id position = (log w.tables id)[position]? := by
  rw [next, h.beyond_eq_drop, Int.toNat_natCast, List.head?_drop]
  rfl

theorem Orderly.streamed (h : Orderly w) {position : ℕ} {e : PiSessionEvent}
    (hsource : w.page.globalSources id = some position)
    (he : (log w.tables id)[position]? = some e) : Orderly { w with page := w.page.streamed n parse id e } := by
  have hsequence : e.sequence = position + 1 := h.kept.dense.number_of_getElem? he
  have hlt : position < (log w.tables id).length := (List.getElem?_eq_some_iff.mp he).1
  have hmem : e ∈ w.tables.events := (List.mem_filter.mp (List.mem_of_getElem? he)).1
  have hdrop : (log w.tables id).drop position = e :: (log w.tables id).drop (position + 1) := by
    rw [List.drop_eq_getElem_cons hlt, (List.getElem?_eq_some_iff.mp he).2]
  have hrow : ∀ id' row, (w.page.streamed n parse id e).sessions id' = some row →
      (∃ row', id' = id ∧ w.page.sessions id = some row' ∧ row = onPiEvent n parse e row') ∨ id' ≠ id ∧
        w.page.sessions id' = some row := by
    intro id' row hrow
    by_cases hid : id' = id
    · subst hid
      obtain ⟨row', hrow', rfl⟩ := Option.map_eq_some_iff.mp ((sessions_streamed_self ..).symm.trans hrow)
      exact .inl ⟨row', rfl, hrow', rfl⟩
    · exact .inr ⟨hid, (sessions_streamed_of_ne n parse e hid _).symm.trans hrow⟩
  -- A row that follows the log still follows it after the event.
  have hshown : ∀ row a, w.page.sessions id = some row → row.active = true → w.loaded id = some a →
      Follows w id (position + 1) (onPiEvent n parse e row) a := by
    intro row a hrow hactive hloaded
    obtain ⟨text, hshows, hquestion⟩ := h.follows id position row a hsource hrow hactive hloaded
    refine ⟨_, hshows.onPiEvent (h.kept.questions e hmem), ?_⟩
    rw [← hquestion, hdrop, asked_cons]
    cases asked ((log w.tables id).drop (position + 1)) <;> rfl
  constructor
  · exact h.kept
  · intro id' row hrow'
    rcases hrow id' row hrow' with ⟨row', rfl, hold, rfl⟩ | ⟨-, hold⟩
    · have hcursor := cursor_onPiEvent_le n parse e row'
      have hbefore := h.cursors id' row' hold
      dsimp only
      omega
    · exact h.cursors id' row hold
  · exact h.previous
  · intro id' position' hposition
    by_cases hid : id' = id
    · subst hid
      have hposition : some e.sequence = some position' := (globalSources_streamed_self ..).symm.trans hposition
      have heq := Option.some.inj hposition
      dsimp only
      omega
    · exact h.positions id' position' ((globalSources_streamed_of_ne n parse e hid _).symm.trans hposition)
  · intro id' row hrow'
    rcases hrow id' row hrow' with ⟨row', rfl, hold, rfl⟩ | ⟨-, hold⟩
    · obtain ⟨a, hloaded, hactive⟩ := h.loaded id' row' hold
      refine ⟨a, hloaded, ?_⟩
      rw [← hactive]
      cases hrow : row'.active with
      | false => rw [onPiEvent_of_not_active hrow, hrow]
      | true =>
        obtain ⟨text, hshows, -⟩ := hshown row' a hold hrow hloaded
        exact hshows.active
    · exact h.loaded id' row hold
  · intro id' a huse
    refine Tracks.of_eq (w := w) (h.tracks id' a ?_) rfl rfl
    obtain ⟨hactive, ⟨hopen, hloaded⟩ | hload⟩ := huse
    · by_cases hid : id' = id
      · subst hid
        exact ⟨hactive, .inl ⟨Option.isSome_iff_exists.mpr ⟨position, hsource⟩, hloaded⟩⟩
      · exact ⟨hactive, .inl ⟨globalSources_streamed_of_ne n parse e hid w.page ▸ hopen, hloaded⟩⟩
    · exact ⟨hactive, .inr hload⟩
  · intro id' position' row a hposition hrow' hactive hloaded
    rcases hrow id' row hrow' with ⟨row', rfl, hold, rfl⟩ | ⟨hid, hold⟩
    · have hposition : some e.sequence = some position' := (globalSources_streamed_self ..).symm.trans hposition
      obtain rfl : position' = position + 1 := (Option.some.inj hposition).symm.trans hsequence
      refine hshown row' a hold ?_ hloaded
      cases hrow : row'.active with
      | true => rfl
      | false => rw [onPiEvent_of_not_active hrow, hrow] at hactive; exact hactive
    · exact h.follows id' position' row a ((globalSources_streamed_of_ne n parse e hid _).symm.trans hposition) hold
        hactive hloaded

theorem orderly_step {action : Action} (h : Orderly w) (hok : Undisturbed w action)
    (hstep : step n parse w action = some w') :
    Orderly w' := by
  cases action with
  | server op =>
    simp only [step] at hstep
    split at hstep
    · next hop => exact Option.some.inj hstep ▸ h.serve hop hok
    · cases hstep
  | openGlobal =>
    obtain rfl := Option.some.inj hstep
    exact ⟨h.kept, h.cursors, h.previous, h.positions, h.loaded,
      fun id a huse => (h.tracks id a huse).of_eq rfl rfl, h.follows⟩
  | closeGlobal => exact Option.some.inj hstep ▸ h.closeGlobal
  | load i =>
    simp only [step] at hstep
    split at hstep
    · refine Option.some.inj hstep ▸ h.setLoad i ?_ ?_
      · intro l rows hl hrows
        cases hl
        cases hrows
      · intro l answer id a hl hanswer
        cases hl
        cases hanswer
    · cases hstep
  | answer i =>
    simp only [step] at hstep
    split at hstep
    · next previous hload =>
      refine Option.some.inj hstep ▸ h.setLoad i ?_ ?_
      · intro l rows hl hrows
        cases hl
        exact h.previous i _ rows hload hrows
      · intro l answer id a hl hanswer ha
        cases hl
        cases hanswer
        exact tracks_piSessionsList h.kept ha
    · cases hstep
  | arrive i rendered =>
    simp only [step] at hstep
    split at hstep
    · next hload => exact Option.some.inj hstep ▸ h.arrive hload rfl hok
    · cases hstep
  | fail i =>
    simp only [step] at hstep
    split at hstep
    · refine Option.some.inj hstep ▸ h.setLoad i ?_ ?_
      · intro l rows hl
        cases hl
      · intro l answer id a hl
        cases hl
    · cases hstep
  | stream id =>
    obtain ⟨position, hsource, hstep⟩ := Option.bind_eq_some_iff.mp hstep
    obtain ⟨e, he, rfl⟩ := Option.map_eq_some_iff.mp hstep
    exact h.streamed hsource ((next_eq h.kept.dense id position).symm.trans he)

theorem orderly_init {d : Tables} (hsessions : d.sessions = []) (hcommands : d.commands = [])
    (hevents : d.events = []) :
    Orderly { tables := d } where
  kept :=
    { sessions := by simp [hsessions]
      commands := by simp [hcommands]
      consistent := by simp [hsessions]
      dense := hevents ▸ Numbering.dense_nil
      questions := by simp [hevents] }
  cursors _ _ hrow := by cases hrow
  previous _ _ _ hload := by cases hload
  positions _ _ hsource := by cases hsource
  loaded _ _ hrow := by cases hrow
  tracks _ _ huse := by
    obtain ⟨-, ⟨-, hloaded⟩ | ⟨i, load, answer, hload, -⟩⟩ := huse
    · cases hloaded
    · cases hload
  follows _ _ _ _ hsource := by cases hsource

/-- From a server without sessions on, the fleet view agrees with the server about questions and blocked sessions,
as long as its rows and their logs are not disturbed. -/
theorem agrees_of_undisturbed {d : Tables} {actions : List Action} (hsessions : d.sessions = [])
    (hcommands : d.commands = [])
    (hevents : d.events = []) (hrun : run (step n parse) { tables := d } actions = some w)
    (hok : Along (step n parse) Undisturbed { tables := d } actions) : Agrees w := by
  have hkept := run_invariant Orderly (fun _ _ _ h hok hstep => orderly_step h hok hstep)
    (orderly_init hsessions hcommands hevents) hok hrun
  exact hkept.agrees

def parseNothing : Parse := fun _ => none

def opened : List Action := [.openGlobal, .load 0, .answer 0, .arrive 0 true]

/-- A task asks while the fleet view shows it, and an interrupt is queued for it before it is answered. -/
def watched : List Action :=
  launchedTask.map .server ++ opened ++
    [.server (.block "t" "which branch?" "e1" 11), .stream "t",
      .server (.insertEvent { id := "e2", sessionId := "t", eventType := "interrupt-queued", createdAt := 12 }),
      .stream "t"]

theorem undisturbed_watched : Along (step noNumerals parseNothing) Undisturbed { tables := {} } watched := by
  refine ⟨⟨fun _ _ _ _ hop => (by cases hop), trivial, fun id a _ _ _ s hs => (by cases hs)⟩, fun w₁ h₁ => ?_⟩
  obtain rfl := Option.some.inj h₁
  refine ⟨⟨fun _ _ _ _ hop => (by cases hop), trivial, fun id a _ _ hne => absurd rfl hne⟩, fun w₂ h₂ => ?_⟩
  obtain rfl := Option.some.inj h₂
  refine ⟨trivial, fun w₃ h₃ => ?_⟩
  obtain rfl := Option.some.inj h₃
  refine ⟨trivial, fun w₄ h₄ => ?_⟩
  obtain rfl := Option.some.inj h₄
  refine ⟨trivial, fun w₅ h₅ => ?_⟩
  obtain rfl := Option.some.inj h₅
  refine ⟨fun load answer id a hload hanswer ha hactive hsource => ?_, fun w₆ h₆ => ?_⟩
  · dsimp only
    generalize hlog : log _ id = events
    obtain rfl : events = [] := hlog.symm
    rw [List.drop_nil, List.drop_nil]
  · obtain rfl := Option.some.inj h₆
    refine ⟨⟨fun _ _ _ _ hop => (by cases hop), trivial, fun id a _ hask _ s hs hid => ?_⟩, fun w₇ h₇ => ?_⟩
    · obtain rfl := List.mem_singleton.mp hs
      exact absurd ⟨_, _, _, congrArg (SessionOp.block · _ _ _) hid⟩ hask
    obtain rfl := Option.some.inj h₇
    refine ⟨trivial, fun w₈ h₈ => ?_⟩
    obtain rfl := Option.some.inj h₈
    -- the event is stored behind the question, which the fleet view has streamed
    refine ⟨⟨fun _ _ _ _ hop => (by cases hop), show _ ≠ _ by decide, fun id a huse _ hne s hs hid => ?_⟩,
      fun _ _ => ⟨trivial, fun _ _ => trivial⟩⟩
    obtain rfl := List.mem_singleton.mp hs
    obtain rfl : "t" = id := hid
    refine ⟨?_, False.elim⟩
    obtain ⟨-, ⟨-, hloaded⟩ | ⟨i, load, answer, hload, -⟩⟩ := huse
    · obtain rfl := Option.some.inj hloaded
      rfl
    · cases i with
      | zero => cases hload
      | succ i => cases hload

theorem agrees_watched : ∃ w, run (step noNumerals parseNothing) { tables := {} } watched = some w ∧ Agrees w ∧
    (w.page.sessions "t").map (fun row => (row.question, row.state)) = some (str "which branch?", .blocked) :=
  ⟨_, rfl, agrees_of_undisturbed rfl rfl rfl
    (show run (step noNumerals parseNothing) { tables := {} } watched = some _ from rfl) undisturbed_watched, rfl⟩

def reopened : List Action := answeredTask.map .server ++ opened ++ [.stream "t"]

theorem not_agrees : ¬ ∀ (n : Numerals) (parse : Parse) (actions : List Action) (w : World),
    run (step n parse) { tables := {} } actions = some w → Agrees w := by
  intro h
  obtain ⟨session, hsession, hquestion, -⟩ := h noNumerals parseNothing reopened _ rfl "t" _ rfl rfl rfl
  cases hsession
  exact absurd hquestion (by decide)

end WorkerHarness.FleetViews
