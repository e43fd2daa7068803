import WorkerHarness.JsonTexts
import WorkerHarness.NumberedLogs

/-!
# Transcripts of sessions

The page makes a transcript of the events of a session, one after the other. The payload of an event is any
JSON object, so that JavaScript's conversions of its members may raise; what an event did before that stays.
-/

namespace WorkerHarness.Transcripts

open CodePoints JsonTexts NumberedLogs

structure Numerals where
  text : JsonFloat → Str
  number : Str → JsonFloat

def noNumerals : Numerals := ⟨fun _ => [], fun _ => .nan⟩

deriving instance DecidableEq for JsonFloat

/-- The number that is read from the digits of an integer. -/
def ofInt (k : ℤ) : JsonFloat :=
  match Binary64.float k with
  | some x => .finite x
  | none => .infinite (k < 0)

def truthyNumber : JsonFloat → Bool
  | .nan => false
  | .infinite _ => true
  | .finite x => x ≠ 0

/-- There is no value for `undefined`. -/
def truthy : Option Json → Bool
  | none | some .null => false
  | some (.bool b) => b
  | some (.int k) => truthyNumber (ofInt k)
  | some (.float x) => truthyNumber x
  | some (.string s) => s ≠ []
  | some (.array _) | some (.object _) => true

/-- `value || fallback` -/
def orElse (value fallback : Option Json) : Option Json := if truthy value then value else fallback

mutual

/-- `String(value)`, which raises for an object with a member `toString`. -/
def toText (n : Numerals) : Json → Option Str
  | .null => some (str "null")
  | .bool b => some (str (if b then "true" else "false"))
  | .int k => some (n.text (ofInt k))
  | .float x => some (n.text x)
  | .string s => some s
  | .array items => (itemTexts n items).map (List.intercalate [codePoint ','])
  | .object members => if (getMember (str "toString") members).isSome then none else some (str "[object Object]")

/-- The texts of the items of an array; that of `null` is empty. -/
def itemTexts (n : Numerals) : List Json → Option (List Str)
  | [] => some []
  | .null :: items => (itemTexts n items).map ([] :: ·)
  | item :: items => (toText n item).bind fun text => (itemTexts n items).map (text :: ·)

end

def templateText (n : Numerals) : Option Json → Option Str
  | none => some (str "undefined")
  | some value => toText n value

/-- `Number(value)` -/
def toNumber (n : Numerals) : Option Json → Option JsonFloat
  | none => some .nan
  | some .null => some (.finite 0)
  | some (.bool b) => some (.finite (if b then 1 else 0))
  | some (.int k) => some (ofInt k)
  | some (.float x) => some x
  | some (.string s) => some (n.number s)
  | some (.array items) => (toText n (.array items)).map n.number
  | some (.object members) => if (getMember (str "toString") members).isSome then none else some .nan

/-- A property of a value that is not `null`; only objects have the properties that the page reads. -/
def property (key : String) : Option Json → Option Json
  | some (.object members) => getMember (str key) members
  | _ => none

/-- Keys of a `Map`: an array or an object is the same as no other. -/
def sameKey : Option Json → Option Json → Bool
  | none, none => true
  | some .null, some .null => true
  | some (.bool a), some (.bool b) => a = b
  | some (.int a), some (.int b) => ofInt a = ofInt b
  | some (.int a), some (.float b) => ofInt a = b
  | some (.float a), some (.int b) => a = ofInt b
  | some (.float a), some (.float b) => a = b
  | some (.string a), some (.string b) => a = b
  | _, _ => false

mutual

/-- `JSON.parse` reads the value in the text of `json.dumps`, which writes `NaN` and `Infinity` for some numbers. -/
def parses : Json → Bool
  | .float .nan | .float (.infinite _) => false
  | .array items => itemsParse items
  | .object members => membersParse members
  | _ => true

def itemsParse : List Json → Bool
  | [] => true
  | item :: items => parses item && itemsParse items

def membersParse : List (Str × Json) → Bool
  | [] => true
  | (_, value) :: members => parses value && membersParse members

end

/-- An event as the server dumps it. -/
structure Event where
  id : Str
  sessionId : Str
  eventType : String
  payload : List (Str × Json)
  createdAt : ℕ
  sequence : ℕ

def Event.get (event : Event) (key : String) : Option Json := getMember (str key) event.payload

def Event.parses (event : Event) : Bool := membersParse event.payload

/-- `event.created_at * 1000` -/
def Event.createdMillis (event : Event) : Option Json := some (.int (event.createdAt * 1000))

def numbering : Numbering Event Str := ⟨(·.sessionId), (·.sequence)⟩

inductive ItemKind
  | message
  | tool
  | lifecycle
deriving DecidableEq

/-- An item of the timeline. Its id is its key in `state.items`. -/
structure Item where
  kind : ItemKind
  id : Option Json
  role : Option Json := none
  timestamp : Option Json
  chunks : Option (List (JsonFloat × Str)) := none
  content : Option (List Json) := none
  done : Bool := false
  toolName : Option Json := none
  provider : Option Json := none
  model : Option Json := none
  stopReason : Option Json := none
  errorMessage : Option Json := none
  name : Option Json := none
  args : Option Json := none
  error : Bool := false
  type : Option String := none
  detail : Option Json := none

structure Settings where
  provider : Str
  model : Str
  thinkingLevel : Str
  availableModels : List Json

/-- `state.cursor`, `state.timeline` with `state.items`, and `state.settings`. -/
structure Transcript where
  cursor : ℕ := 0
  items : List Item := []
  settings : Option Settings := none

/-- How `applyEvent` ends: `renderSessionControls` is called for new settings. -/
inductive Outcome
  | returned
  | rendersControls
  | raised
deriving DecidableEq

def ensureMessage (id role timestamp : Option Json) (t : Transcript) : ℕ × Transcript :=
  match t.items.findIdx? fun item => sameKey item.id id with
  | some i => (i, t)
  | none => (t.items.length, { t with items := t.items ++ [{
      kind := .message
      id
      role := some (role.getD (.string (str "assistant")))
      timestamp := some (timestamp.getD (.int 0))
      chunks := some []
      content := some [] }] })

def addTimelineItem (item : Item) (t : Transcript) : Transcript :=
  if t.items.any fun old => sameKey old.id item.id then t else { t with items := t.items ++ [item] }

def Transcript.modify (t : Transcript) (i : ℕ) (change : Item → Item) : Transcript :=
  { t with items := t.items.modify i change }

/-- `item.chunks.set(index, (item.chunks.get(index) || "") + text)` -/
def addChunk (index : JsonFloat) (text : Str) : List (JsonFloat × Str) → List (JsonFloat × Str)
  | [] => [(index, text)]
  | (i, old) :: chunks => if i = index then (i, old ++ text) :: chunks else (i, old) :: addChunk index text chunks

/-- `message-delta`, when the message is there: an item of another kind has no chunks. -/
def applyDelta (n : Numerals) (event : Event) (i : ℕ) (t : Transcript) : Transcript × Outcome :=
  match toNumber n (event.get "content_index") with
  | none => (t, .raised)
  | some index =>
    match (t.items[i]?).bind (·.chunks), templateText n (orElse (event.get "delta") (some (.string []))) with
    | some _, some text =>
      (t.modify i fun item =>
        { item with chunks :=
          item.chunks.map (addChunk (if truthyNumber index then index else .finite 0) text) }, .returned)
    | _, _ => (t, .raised)

/-- `message-end`, when the message is there. -/
def endMessage (message : Option Json) (item : Item) : Item :=
  { item with
    role := orElse (property "role" message) item.role
    timestamp := orElse (property "timestamp" message) item.timestamp
    content := some (match property "content" message with
      | some (.array items) => items
      | _ => [])
    toolName := property "toolName" message
    provider := property "provider" message
    model := property "model" message
    stopReason := property "stopReason" message
    errorMessage := property "errorMessage" message
    done := true }

/-- `session-settings` -/
def settingsOf (n : Numerals) (event : Event) : Option Settings :=
  match toText n ((orElse (event.get "provider") none).getD (.string [])),
    toText n ((orElse (event.get "model") none).getD (.string [])),
    toText n ((orElse (event.get "thinking_level") none).getD (.string (str "off"))) with
  | some provider, some model, some thinkingLevel => some {
      provider
      model
      thinkingLevel
      availableModels := match event.get "available_models" with
        | some (.array items) => items
        | _ => [] }
  | _, _, _ => none

/-- `tool-start` and `tool-end` -/
def applyTool (n : Numerals) (event : Event) (done : Bool) (t : Transcript) : Transcript × Outcome :=
  match templateText n (orElse (event.get "tool_call_id") (some (.string event.id))) with
  | none => (t, .raised)
  | some callId =>
    let key := some (.string (str "tool:" ++ callId))
    match t.items.findIdx? fun item => sameKey item.id key with
    | some i => (t.modify i fun item => { item with done, error := truthy (event.get "is_error") }, .returned)
    | none => (addTimelineItem {
        kind := .tool
        id := key
        name := orElse (event.get "tool_name") (some (.string (str "tool")))
        args := event.get "arguments"
        done
        error := truthy (event.get "is_error")
        timestamp := event.createdMillis } t, .returned)

/-- `applyEvent`, once it has moved the cursor. -/
def applyPayload (n : Numerals) (event : Event) (t : Transcript) : Transcript × Outcome :=
  match event.eventType with
  | "message-start" =>
    ((ensureMessage (event.get "message_id") (event.get "role")
      (orElse (event.get "timestamp") event.createdMillis) t).2, .returned)
  | "message-delta" =>
    let (i, t) := ensureMessage (event.get "message_id") (some (.string (str "assistant"))) event.createdMillis t
    applyDelta n event i t
  | "message-end" =>
    let message := orElse (event.get "message") (some (.object []))
    let (i, t) := ensureMessage (event.get "message_id") (property "role" message) (property "timestamp" message) t
    (t.modify i (endMessage message), .returned)
  | "session-settings" =>
    match settingsOf n event with
    | some settings => ({ t with settings := some settings }, .rendersControls)
    | none => (t, .raised)
  | "control-error" =>
    (t, if (toText n ((orElse (event.get "detail") none).getD
      (.string (str "Control change failed")))).isSome then .returned else .raised)
  | "tool-start" => applyTool n event false t
  | "tool-end" => applyTool n event true t
  | _ =>
    (addTimelineItem {
      kind := .lifecycle
      id := some (.string (str "event:" ++ event.id))
      type := some event.eventType
      detail := orElse (event.get "detail") (orElse (event.get "message") (some (.string [])))
      timestamp := event.createdMillis } t, .returned)

def applyEvent (n : Numerals) (event : Event) (t : Transcript) : Transcript × Outcome :=
  applyPayload n event { t with cursor := max t.cursor event.sequence }

/-- An option of `renderSessionControls` raises for a model that is `null` or whose names have no text. -/
def modelRaises (n : Numerals) (model : Json) : Bool :=
  let provider := templateText n (property "provider" (some model))
  let id := templateText n (property "id" (some model))
  match model with
  | .null => true
  | _ =>
    let name := property "name" (some model)
    truthy name && (templateText n name).isNone || provider.isNone || id.isNone

/-- `renderSessionControls` raises. -/
def controlsRaise (n : Numerals) (interactive : Bool) (settings : Option Settings) : Bool :=
  interactive && settings.any fun settings => settings.availableModels.any (modelRaises n)

variable {n : Numerals} {event : Event} {events : List Event} {t : Transcript} {interactive : Bool}

def replayed (n : Numerals) (events : List Event) : Transcript :=
  events.foldl (fun t event => (applyEvent n event t).1) {}

/-- `for (const event of events) applyEvent(event)`, and whether it raises. -/
def applyEvents (n : Numerals) (interactive : Bool) : List Event → Transcript → Transcript × Bool
  | [], t => (t, false)
  | event :: events, t =>
    match applyEvent n event t with
    | (t, .raised) => (t, true)
    | (t, .rendersControls) =>
      if controlsRaise n interactive t.settings then (t, true) else applyEvents n interactive events t
    | (t, .returned) => applyEvents n interactive events t

theorem cursor_ensureMessage (id role timestamp : Option Json) (t : Transcript) :
    (ensureMessage id role timestamp t).2.cursor = t.cursor := by
  unfold ensureMessage
  split <;> rfl

theorem cursor_addTimelineItem (item : Item) (t : Transcript) : (addTimelineItem item t).cursor = t.cursor := by
  unfold addTimelineItem
  split <;> rfl

theorem cursor_applyDelta (n : Numerals) (event : Event) (i : ℕ) (t : Transcript) :
    (applyDelta n event i t).1.cursor = t.cursor := by
  unfold applyDelta
  split
  · rfl
  · split <;> rfl

theorem cursor_applyTool (n : Numerals) (event : Event) (done : Bool) (t : Transcript) :
    (applyTool n event done t).1.cursor = t.cursor := by
  unfold applyTool
  split
  · rfl
  · dsimp only
    split
    · rfl
    · exact cursor_addTimelineItem _ t

theorem cursor_applyPayload (n : Numerals) (event : Event) (t : Transcript) :
    (applyPayload n event t).1.cursor = t.cursor := by
  unfold applyPayload
  split
  · exact cursor_ensureMessage ..
  · exact (cursor_applyDelta ..).trans (cursor_ensureMessage ..)
  · exact cursor_ensureMessage ..
  · split <;> rfl
  · rfl
  · exact cursor_applyTool ..
  · exact cursor_applyTool ..
  · exact cursor_addTimelineItem ..

theorem cursor_applyEvent (n : Numerals) (event : Event) (t : Transcript) :
    (applyEvent n event t).1.cursor = max t.cursor event.sequence := cursor_applyPayload ..

def Replays (n : Numerals) (events : List Event) (t : Transcript) : Prop :=
  ∃ k ≤ events.length, t = replayed n (events.take k)

theorem replayed_append (n : Numerals) (events more : List Event) :
    replayed n (events ++ more) = more.foldl (fun t event => (applyEvent n event t).1) (replayed n events) :=
  List.foldl_append

/-- The cursor is at the last of the events. -/
theorem cursor_replayed (h : events.map (·.sequence) = List.range' 1 events.length) :
    (replayed n events).cursor = events.length := by
  induction events using List.reverseRecOn with
  | nil => rfl
  | append_singleton events event ih =>
    rw [List.map_append, List.length_append, List.length_singleton, List.range'_concat, Nat.one_mul] at h
    obtain ⟨hinit, hlast⟩ := List.append_inj h (by rw [List.length_map, List.length_range'])
    have hsequence : event.sequence = 1 + events.length := List.singleton_inj.mp hlast
    rw [replayed_append, List.foldl_cons, List.foldl_nil, cursor_applyEvent, ih hinit, hsequence,
      List.length_append,
      List.length_singleton]
    omega

/-- The events are applied up to the first that raises. -/
theorem applyEvents_eq (n : Numerals) (interactive : Bool) (events : List Event) (t : Transcript) :
    ∃ k ≤ events.length, (applyEvents n interactive events t).1 =
    (events.take k).foldl (fun t event => (applyEvent n event t).1) t := by
  induction events generalizing t with
  | nil => exact ⟨0, Nat.le_refl _, rfl⟩
  | cons event events ih =>
    have hstop : ∃ k ≤ (event :: events).length, (applyEvent n event t).1 =
        ((event :: events).take k).foldl (fun t event => (applyEvent n event t).1) t := ⟨1, by simp, rfl⟩
    have hgo : ∃ k ≤ (event :: events).length, (applyEvents n interactive events (applyEvent n event t).1).1 =
        ((event :: events).take k).foldl (fun t event => (applyEvent n event t).1) t := by
      obtain ⟨k, hk, heq⟩ := ih (applyEvent n event t).1
      exact ⟨k + 1, Nat.succ_le_succ hk, heq⟩
    rw [applyEvents]
    cases happlied : applyEvent n event t with
    | mk t' outcome =>
      rw [happlied] at hstop hgo
      cases outcome with
      | returned => exact hgo
      | raised => exact hstop
      | rendersControls =>
        dsimp only
        split
        · exact hstop
        · exact hgo

theorem Replays.append (h : Replays n events t) (more : List Event) : Replays n (events ++ more) t := by
  obtain ⟨k, hk, rfl⟩ := h
  refine ⟨k, ?_, ?_⟩
  · rw [List.length_append]
    omega
  · rw [List.take_append_of_le_length hk]

/-- The events are those up to the cursor. -/
theorem Replays.eq_replayed (h : Replays n events t)
    (hnumbers : events.map (·.sequence) = List.range' 1 events.length) :
    t.cursor ≤ events.length ∧ t = replayed n (events.take t.cursor) := by
  obtain ⟨k, hk, rfl⟩ := h
  have htaken : (events.take k).map (·.sequence) = List.range' 1 (events.take k).length := by
    rw [List.map_take, hnumbers, Numbering.take_range', List.length_take]
  have hcursor : (replayed n (events.take k)).cursor = k := by
    rw [cursor_replayed htaken, List.length_take, Nat.min_eq_left hk]
  rw [hcursor]
  exact ⟨hk, rfl⟩

/-- The next events are applied as far as they go. -/
theorem Replays.applyEvents (h : Replays n events t) (interactive : Bool)
    (hnumbers : events.map (·.sequence) = List.range' 1 events.length)
    {page : List Event} (hpage : page <+: events.drop t.cursor) :
    Replays n events (applyEvents n interactive page t).1 := by
  obtain ⟨hcursor, hreplayed⟩ := h.eq_replayed hnumbers
  obtain ⟨k, hk, heq⟩ := applyEvents_eq n interactive page t
  have hlength : page.length ≤ events.length - t.cursor := by
    rw [← List.length_drop]
    exact hpage.length_le
  refine ⟨t.cursor + k, by omega, ?_⟩
  have htake : page.take k = (events.drop t.cursor).take k := by
    rw [List.prefix_iff_eq_take.mp hpage, List.take_take, Nat.min_eq_left hk]
  rw [heq, List.take_add, replayed_append, ← hreplayed, htake]

theorem Replays.applyEvent (h : Replays n events t)
    (hnumbers : events.map (·.sequence) = List.range' 1 events.length)
    (hevent : events[t.cursor]? = some event) : Replays n events (applyEvent n event t).1 := by
  obtain ⟨hcursor, hreplayed⟩ := h.eq_replayed hnumbers
  obtain ⟨hlt, hget⟩ := List.getElem?_eq_some_iff.mp hevent
  refine ⟨t.cursor + 1, hlt, ?_⟩
  rw [List.take_add_one, hevent, Option.toList_some, replayed_append, ← hreplayed]
  rfl

end WorkerHarness.Transcripts
