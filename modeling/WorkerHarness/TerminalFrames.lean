import WorkerHarness.GatewayAttachments
import WorkerHarness.JsonTexts
import Mathlib.Data.List.Infix

/-!
# Frames of a terminal

What the gateway takes from a frame before it passes the frame on: the sizes that a client asks for, and when
it was last active. The frames of the gateway are those that the texts of the clients are read as.
-/

namespace WorkerHarness.TerminalFrames

open CodePoints JsonTexts Gateway

inductive FrameError
  | valueError
  | recursionError
  | overflowError
deriving DecidableEq

inductive ClientData
  | bytes (data : List UInt8)
  | text (data : Str)

/-- `bool(value)` -/
def truthy : Json → Bool
  | .null => false
  | .bool b => b
  | .int n => n ≠ 0
  | .float (.finite x) => x ≠ 0
  | .float _ => true
  | .string s => s ≠ []
  | .array items => !items.isEmpty
  | .object members => !members.isEmpty

inductive IntError
  | typeError
  | valueError
  | overflowError

/-- `int(value)` -/
def toInt : Json → Except IntError ℤ
  | .null => .error .typeError
  | .bool b => .ok (if b then 1 else 0)
  | .int n => .ok n
  | .float .nan => .error .valueError
  | .float (.infinite _) => .error .overflowError
  | .float (.finite x) => .ok (if 0 ≤ x then ⌊x⌋ else ⌈x⌉)
  | .string s =>
    match IntLiterals.intLiteral s with
    | some n => .ok n
    | none => .error .valueError
  | .array _ => .error .typeError
  | .object _ => .error .typeError

/-- `value or fallback` -/
def orFallback (value : Option Json) (fallback : ℤ) : Json :=
  match value with
  | none => .int fallback
  | some value => if truthy value then value else .int fallback

def terminalDimension (value : Option Json) (fallback : ℤ) : Except FrameError ℤ :=
  match toInt (orFallback value fallback) with
  | .ok parsed => .ok (max 1 (min 1000 parsed))
  | .error .overflowError => .error .overflowError
  | .error .typeError | .error .valueError => .ok (max 1 (min 1000 fallback))

/-- `frame.get("type") == "resize"` -/
def isResize (members : List (Str × Json)) : Bool :=
  match getMember (str "type") members with
  | some (.string kind) => kind = str "resize"
  | _ => false

/-- `note_client_frame`; at most `limit` containers are read in each other. -/
def noteClientFrame (limit : ℕ) (a : GatewayAttachment) (data : ClientData) (now : ℚ) :
    Except FrameError GatewayAttachment :=
  match data with
  | .bytes _ => .ok { a with lastActivity := now }
  | .text data =>
    match loads limit data with
    | .error .decodeError => .ok { a with lastActivity := now }
    | .error .overlongInteger => .error .valueError
    | .error .tooDeep => .error .recursionError
    | .ok (.object members) =>
      if isResize members then do
        let rows ← terminalDimension (getMember (str "rows") members) a.rows
        let cols ← terminalDimension (getMember (str "cols") members) a.cols
        if (rows, cols) ≠ (a.rows, a.cols) then return { a with rows := rows, cols := cols, lastActivity := now }
        else return a
      else .ok { a with lastActivity := now }
    | .ok _ => .ok { a with lastActivity := now }

/-- A message of the client, when it is noted, and whether the upstream takes its data in time. -/
structure Received where
  disconnect : Bool
  bytes : Option (List UInt8)
  text : Option Str
  now : ℚ
  sent : Bool

def Received.data (message : Received) : Option ClientData :=
  match message.bytes with
  | some data => some (.bytes data)
  | none => message.text.map .text

inductive PumpEnd
  | receiving
  | disconnected
  | raised (e : FrameError)
  | sendFailed

structure Pumped where
  forwarded : List ClientData
  attachment : GatewayAttachment
  ended : PumpEnd

def clientToUpstream (limit : ℕ) : List Received → GatewayAttachment → Pumped
  | [], a => ⟨[], a, .receiving⟩
  | message :: messages, a =>
    if message.disconnect then ⟨[], a, .disconnected⟩
    else
      match message.data with
      | none => clientToUpstream limit messages a
      | some data =>
        match noteClientFrame limit a data message.now with
        | .error e => ⟨[], a, .raised e⟩
        | .ok a =>
          if message.sent then
            let later := clientToUpstream limit messages a
            { later with forwarded := data :: later.forwarded }
          else ⟨[data], a, .sendFailed⟩

/-- The sizes of a terminal are in range. -/
structure Sized (a : GatewayAttachment) : Prop where
  rows : 1 ≤ a.rows ∧ a.rows ≤ 1000
  cols : 1 ≤ a.cols ∧ a.cols ≤ 1000

/-- The size that a value stands for. -/
def requested (value : Option Json) : Option ℤ :=
  match value with
  | none => none
  | some value =>
    if truthy value then
      match toInt value with
      | .ok parsed => some parsed
      | .error _ => none
    else none

def clientFrame (limit : ℕ) : ClientData → ClientFrame
  | .bytes _ => .bytes
  | .text data =>
    match loads limit data with
    | .ok (.object members) =>
      if isResize members then .resize (requested (getMember (str "rows") members))
        (requested (getMember (str "cols") members))
      else .text
    | _ => .text

def Infinite : Option Json → Prop
  | some (.float (.infinite _)) => True
  | _ => False

/-- The data are read, and ask for no infinite size. -/
def Harmless (limit : ℕ) : ClientData → Prop
  | .bytes _ => True
  | .text data =>
    match loads limit data with
    | .error .decodeError => True
    | .error .overlongInteger => False
    | .error .tooDeep => False
    | .ok (.object members) =>
      isResize members = true → ¬Infinite (getMember (str "rows") members) ∧
        ¬Infinite (getMember (str "cols") members)
    | .ok _ => True

variable {limit : ℕ} {a : GatewayAttachment} {data : ClientData} {value : Option Json} {fallback : ℤ} {now : ℚ}

theorem terminalDimension_eq (h : ¬Infinite value) (fallback : ℤ) :
    terminalDimension value fallback = .ok (Gateway.terminalDimension (requested value) fallback) := by
  cases value with
  | none => rfl
  | some value =>
    unfold terminalDimension requested orFallback
    by_cases htruthy : truthy value = true
    · simp only [htruthy, if_true]
      cases value with
      | null => cases htruthy
      | bool b => rfl
      | int n => rfl
      | float x =>
        cases x with
        | nan => rfl
        | infinite negative => exact absurd trivial h
        | finite x => rfl
      | string s =>
        simp only [toInt]
        cases IntLiterals.intLiteral s <;> rfl
      | array items => rfl
      | object members => rfl
    · simp only [htruthy]
      rfl

theorem terminalDimension_of_infinite (h : Infinite value) (fallback : ℤ) :
    terminalDimension value fallback = .error .overflowError := by
  unfold Infinite at h
  split at h
  · rfl
  · cases h

/-- The gateway takes from harmless data what its own frame says. -/
theorem noteClientFrame_eq (h : Harmless limit data) (a : GatewayAttachment) (now : ℚ) :
    noteClientFrame limit a data now = .ok (a.noteClientFrame (clientFrame limit data) now) := by
  cases data with
  | bytes data => rfl
  | text data =>
    unfold Harmless at h
    unfold noteClientFrame clientFrame
    dsimp only at h ⊢
    cases hloads : loads limit data with
    | error e =>
      rw [hloads] at h
      cases e with
      | decodeError => rfl
      | overlongInteger => cases h
      | tooDeep => cases h
    | ok frame =>
      rw [hloads] at h
      cases frame with
      | object members =>
        dsimp only at h ⊢
        by_cases hresize : isResize members = true
        · obtain ⟨hrows, hcols⟩ := h hresize
          rw [if_pos hresize, if_pos hresize, terminalDimension_eq hrows, terminalDimension_eq hcols]
          generalize requested (getMember (str "rows") members) = rows
          generalize requested (getMember (str "cols") members) = cols
          rw [GatewayAttachment.noteClientFrame]
          by_cases hsame : (Gateway.terminalDimension rows a.rows, Gateway.terminalDimension cols a.cols) =
            (a.rows, a.cols)
          · rw [if_pos hsame]
            exact if_neg fun hne => hne hsame
          · rw [if_neg hsame]
            exact if_pos hsame
        · rw [if_neg hresize, if_neg hresize]
          rfl
      | _ => rfl

/-- Of other data there is an exception. -/
theorem exists_error_of_not_harmless (h : ¬Harmless limit data) (a : GatewayAttachment) (now : ℚ) :
    ∃ e, noteClientFrame limit a data now = .error e := by
  cases data with
  | bytes data => exact absurd trivial h
  | text data =>
    unfold Harmless at h
    unfold noteClientFrame
    dsimp only at h ⊢
    cases hloads : loads limit data with
    | error e =>
      rw [hloads] at h
      cases e with
      | decodeError => exact absurd trivial h
      | overlongInteger => exact ⟨.valueError, rfl⟩
      | tooDeep => exact ⟨.recursionError, rfl⟩
    | ok frame =>
      rw [hloads] at h
      cases frame with
      | object members =>
        dsimp only at h ⊢
        simp only [Classical.not_imp, not_and_or, not_not] at h
        obtain ⟨hresize, hinfinite⟩ := h
        rw [if_pos hresize]
        by_cases hrows : Infinite (getMember (str "rows") members)
        · rw [terminalDimension_of_infinite hrows]
          exact ⟨.overflowError, rfl⟩
        · rw [terminalDimension_eq hrows, terminalDimension_of_infinite (hinfinite.resolve_left hrows)]
          exact ⟨.overflowError, rfl⟩
      | _ => exact absurd trivial h

theorem terminalDimension_mem (value : Option ℤ) (fallback : ℤ) :
    1 ≤ Gateway.terminalDimension value fallback ∧ Gateway.terminalDimension value fallback ≤ 1000 := by
  unfold Gateway.terminalDimension
  omega

theorem Sized.noteClientFrame (h : Sized a) (frame : ClientFrame) (now : ℚ) :
    Sized (a.noteClientFrame frame now) := by
  cases frame with
  | bytes => exact ⟨h.rows, h.cols⟩
  | text => exact ⟨h.rows, h.cols⟩
  | resize rows cols =>
    rw [GatewayAttachment.noteClientFrame]
    split
    · exact h
    · exact ⟨terminalDimension_mem _ _, terminalDimension_mem _ _⟩

/-- Only a size that stays the same is no activity. -/
theorem lastActivity_noteClientFrame (a : GatewayAttachment) (frame : ClientFrame) (now : ℚ) :
    (a.noteClientFrame frame now).lastActivity = now ∨
      (∃ rows cols, frame = .resize rows cols) ∧ a.noteClientFrame frame now = a := by
  cases frame with
  | bytes => exact .inl rfl
  | text => exact .inl rfl
  | resize rows cols =>
    rw [GatewayAttachment.noteClientFrame]
    split
    · exact .inr ⟨⟨rows, cols, rfl⟩, rfl⟩
    · exact .inl rfl

def AsksForSize (limit : ℕ) (data : ClientData) : Prop :=
  ∃ text members, data = .text text ∧ loads limit text = .ok (.object members) ∧ isResize members = true

theorem asksForSize_of_resize {rows cols : Option ℤ} (h : clientFrame limit data = .resize rows cols) :
    AsksForSize limit data := by
  cases data with
  | bytes data => cases h
  | text data =>
    rw [clientFrame] at h
    split at h
    · next members hloads =>
      split at h
      · next hresize => exact ⟨data, members, rfl, hloads, hresize⟩
      · cases h
    · cases h

/-- No exception is raised, the sizes stay in range, and there is activity unless a size stays the same. -/
def Tracks (limit : ℕ) (a : GatewayAttachment) (data : ClientData) (now : ℚ) : Prop :=
  ∃ a', noteClientFrame limit a data now = .ok a' ∧ Sized a' ∧
    (¬(AsksForSize limit data ∧ (a'.rows, a'.cols) = (a.rows, a.cols)) → a'.lastActivity = now)

/-- What the client sends next is passed on as it is. -/
def Forwards (limit : ℕ) (a : GatewayAttachment) (data : ClientData) : Prop :=
  ∀ message messages, message.disconnect = false → message.data = some data →
    (clientToUpstream limit (message :: messages) a).forwarded.head? = some data

theorem forwards_of_harmless (h : Harmless limit data) (a : GatewayAttachment) : Forwards limit a data := by
  intro message messages hconnected hdata
  rw [clientToUpstream, hconnected, hdata, if_neg Bool.false_ne_true]
  dsimp only
  rw [noteClientFrame_eq h]
  cases message.sent <;> rfl

theorem tracks_of_harmless (h : Harmless limit data) (hsized : Sized a) (now : ℚ) : Tracks limit a data now := by
  refine ⟨_, noteClientFrame_eq h a now, hsized.noteClientFrame _ now, fun hnot => ?_⟩
  rcases lastActivity_noteClientFrame a (clientFrame limit data) now with hactive | ⟨⟨rows, cols, hframe⟩, hsame⟩
  · exact hactive
  · rw [hsame] at hnot
    exact absurd ⟨asksForSize_of_resize hframe, rfl⟩ hnot

/-- The frames that are tracked and passed on, whatever the size of the terminal is, are those whose text is
read and asks for no infinite size. -/
theorem tracks_iff (limit : ℕ) (a : { a : GatewayAttachment // Sized a }) (data : ClientData) :
    ((∀ now, Tracks limit a data now) ∧ Forwards limit a data) ↔ Harmless limit data := by
  constructor
  · rintro ⟨htracks, -⟩
    by_contra hnot
    obtain ⟨e, he⟩ := exists_error_of_not_harmless hnot a.val 0
    obtain ⟨a', ha', -⟩ := htracks 0
    rw [he] at ha'
    cases ha'
  · intro h
    exact ⟨fun now => tracks_of_harmless h a.property now, forwards_of_harmless h a.val⟩

/-- A text that is short enough is never read with an exception that is not caught. -/
theorem harmless_of_short {text : Str} (hlimit : text.length ≤ limit)
    (hdigits : text.length ≤ IntLiterals.maxDigits)
    (h : ∀ members, loads limit text = .ok (.object members) → isResize members = true →
      ¬Infinite (getMember (str "rows") members) ∧ ¬Infinite (getMember (str "cols") members)) :
    Harmless limit (.text text) := by
  unfold Harmless
  dsimp only
  cases hloads : loads limit text with
  | error e =>
    rw [loads_eq_decodeError hlimit hdigits hloads]
    trivial
  | ok frame =>
    cases frame with
    | object members => exact h members hloads
    | _ => trivial

def sentData (messages : List Received) : List ClientData :=
  (messages.takeWhile fun message => !message.disconnect).filterMap Received.data

/-- While the frames are harmless, the pump passes on what it receives, and no frame ends it. -/
theorem clientToUpstream_of_harmless {messages : List Received}
    (h : ∀ data ∈ sentData messages, Harmless limit data)
    (hsized : Sized a) : (clientToUpstream limit messages a).forwarded <+: sentData messages ∧
      Sized (clientToUpstream limit messages a).attachment ∧
      ∀ e, (clientToUpstream limit messages a).ended ≠ .raised e := by
  induction messages generalizing a with
  | nil => exact ⟨List.nil_prefix, hsized, fun e he => by cases he⟩
  | cons message messages ih =>
    rw [clientToUpstream]
    by_cases hdisconnect : message.disconnect = true
    · rw [if_pos hdisconnect]
      exact ⟨List.nil_prefix, hsized, fun e he => by cases he⟩
    · have hlater : sentData (message :: messages) = message.data.toList ++ sentData messages := by
        rw [sentData, List.takeWhile_cons_of_pos (by simpa using hdisconnect), List.filterMap_cons, sentData]
        cases message.data <;> rfl
      rw [hlater] at h ⊢
      have hrest : ∀ data ∈ sentData messages, Harmless limit data :=
        fun data hmem => h data (List.mem_append_right _ hmem)
      rw [if_neg hdisconnect]
      cases hdata : message.data with
      | none => exact ih hrest hsized
      | some data =>
        have hdataHarmless : Harmless limit data := h data (by simp [hdata])
        have hnext : Sized (a.noteClientFrame (clientFrame limit data) message.now) := hsized.noteClientFrame _ _
        dsimp only
        rw [noteClientFrame_eq hdataHarmless]
        dsimp only
        split
        · obtain ⟨hsent, hsized', hend⟩ := ih hrest hnext
          exact ⟨List.cons_prefix_cons.mpr ⟨rfl, hsent⟩, hsized', hend⟩
        · exact ⟨List.cons_prefix_cons.mpr ⟨rfl, List.nil_prefix⟩, hnext, fun e he => by cases he⟩

def newAttachment : GatewayAttachment :=
  { id := "1", lastActivity := 0, rows := Gateway.terminalDimension none 24,
    cols := Gateway.terminalDimension none 80, maker := 0 }

theorem sized_newAttachment : Sized newAttachment := ⟨terminalDimension_mem _ _, terminalDimension_mem _ _⟩

/-- `{"type":"resize","rows":Infinity}` -/
def infiniteSize : Str :=
  ['{', '"', 't', 'y', 'p', 'e', '"', ':', '"', 'r', 'e', 's', 'i', 'z', 'e', '"', ',', '"', 'r', 'o', 'w',
    's', '"', ':',
    'I', 'n', 'f', 'i', 'n', 'i', 't', 'y', '}'].map codePoint

theorem loads_infiniteSize : loads 900 infiniteSize = .ok (.object
    [(['t', 'y', 'p', 'e'].map codePoint, .string (['r', 'e', 's', 'i', 'z', 'e'].map codePoint)),
      (['r', 'o', 'w', 's'].map codePoint, .float (.infinite false))]) := by
  rfl

theorem not_tracks : ¬∀ limit (a : { a : GatewayAttachment // Sized a }) data,
    (∀ now, Tracks limit a data now) ∧ Forwards limit a data := by
  intro hall
  obtain ⟨htracks, -⟩ := hall 900 ⟨newAttachment, sized_newAttachment⟩ (.text infiniteSize)
  obtain ⟨a', ha', -⟩ := htracks 0
  have hraised : noteClientFrame 900 newAttachment (.text infiniteSize) 0 = .error .overflowError := by
    rw [noteClientFrame, loads_infiniteSize]
    rfl
  rw [hraised] at ha'
  cases ha'

end WorkerHarness.TerminalFrames
