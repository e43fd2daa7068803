import WorkerHarness.BashStrings
import WorkerHarness.TerminalFrames
import Mathlib.Data.List.MinMax
import Mathlib.Data.PNat.Notation

/-!
# The terminal client of a session

What is typed is forwarded up to the first control byte, however it is cut into chunks. What the relay sends
is written to the terminal up to the frame that ends the attachment, however little each write takes.
-/

namespace WorkerHarness.TerminalClient

open BashStrings CodePoints JsonTexts TerminalFrames

/-- What the client is asked to do next. -/
inductive Direction
  | next
  | previous
  | select
deriving DecidableEq

def detachByte : UInt8 := 0x1d

def nextByte : UInt8 := 0x1e

def previousByte : UInt8 := 0x1f

/-- One call of `os.read` on the terminal. -/
inductive Read
  | bytes (data : Bytes)
  | failed

/-- `chunk.find(byte)` -/
def find (chunk : Bytes) (byte : UInt8) : Option ℕ := chunk.idxOf? byte

def controls (chunk : Bytes) : List (ℕ × Option Direction) :=
  [(detachByte, none), (nextByte, some Direction.next),
    (previousByte, some Direction.previous)].filterMap fun control =>
    (find chunk control.1).map fun index => (index, control.2)

inductive InputEnd
  | waiting
  | returned (direction : Option Direction)
  | raised

structure Forwarded where
  sends : List Bytes
  ended : InputEnd

/-- `_send_input`, on what `_stdin_chunks` reads. -/
def sendInput : List Read → Forwarded
  | [] => ⟨[], .waiting⟩
  | .failed :: _ => ⟨[], .raised⟩
  | .bytes chunk :: reads =>
    if chunk = [] then ⟨[], .returned none⟩
    else
      match (controls chunk).argmin Prod.fst with
      | some (index, direction) => ⟨if index ≠ 0 then [chunk.take index] else [], .returned direction⟩
      | none =>
        let later := sendInput reads
        { later with sends := chunk :: later.sends }

def isControl (byte : UInt8) : Bool := byte = detachByte || byte = nextByte || byte = previousByte

/-- What a control byte asks for. -/
def directionOf (byte : UInt8) : Option Direction :=
  if byte = nextByte then some .next else if byte = previousByte then some .previous else none

variable {chunk before after stream : Bytes} {byte control : UInt8} {reads : List Read}

theorem find_append_of_notMem (h : byte ∉ before) (after : Bytes) :
    find (before ++ after) byte = (find after byte).map (· + before.length) := by
  induction before with
  | nil => simp
  | cons b before ih =>
    obtain ⟨hne, hrest⟩ := List.ne_and_not_mem_of_not_mem_cons h
    rw [find, List.cons_append, List.idxOf?_cons, if_neg (by simpa using hne.symm), ← find, ih hrest,
      Option.map_map,
      List.length_cons]
    exact congrArg (Option.map · _) (funext fun index => Nat.add_assoc _ _ _)

theorem controls_eq_nil (h : ∀ b ∈ chunk, isControl b = false) : controls chunk = [] := by
  have hfind : ∀ byte, isControl byte = true → find chunk byte = none := by
    intro byte hbyte
    apply List.idxOf?_eq_none_iff.mpr
    intro hmem
    rw [h byte hmem] at hbyte
    cases hbyte
  simp only [controls, List.filterMap_cons, List.filterMap_nil, hfind detachByte (by decide),
    hfind nextByte (by decide),
    hfind previousByte (by decide), Option.map_none]

/-- The controls that are found are those of the bytes, each at a place of its own. -/
theorem mem_controls {found : ℕ × Option Direction} : found ∈ controls chunk ↔
    ∃ byte, isControl byte = true ∧ directionOf byte = found.2 ∧ find chunk byte = some found.1 := by
  obtain ⟨index, direction⟩ := found
  simp only [controls, List.mem_filterMap, Option.map_eq_some_iff, Prod.mk.injEq]
  constructor
  · rintro ⟨⟨byte, direction'⟩, hmem, index', hfind, rfl, rfl⟩
    refine ⟨byte, ?_, ?_, hfind⟩
    all_goals
      simp only [List.mem_cons, Prod.mk.injEq, List.not_mem_nil, or_false] at hmem
      rcases hmem with ⟨rfl, rfl⟩ | ⟨rfl, rfl⟩ | ⟨rfl, rfl⟩ <;> rfl
  · rintro ⟨byte, hcontrol, rfl, hfind⟩
    refine ⟨(byte, directionOf byte), ?_, index, hfind, rfl, rfl⟩
    simp only [isControl, Bool.or_eq_true, decide_eq_true_eq] at hcontrol
    rcases hcontrol with (rfl | rfl) | rfl <;> simp [directionOf, detachByte, nextByte, previousByte]

/-- The control with the lowest index is the first control byte. -/
theorem argmin_controls (h : ∀ b ∈ before, isControl b = false) (hcontrol : isControl control = true)
    (after : Bytes) :
    (controls (before ++ control :: after)).argmin Prod.fst = some (before.length, directionOf control) := by
  have hfresh : ∀ byte, isControl byte = true → byte ∉ before := by
    intro byte hbyte hmem
    rw [h byte hmem] at hbyte
    cases hbyte
  have hfind : ∀ byte, isControl byte = true →
      find (before ++ control :: after) byte = (find (control :: after) byte).map (· + before.length) :=
    fun byte hbyte => find_append_of_notMem (hfresh byte hbyte) _
  have hself : find (control :: after) control = some 0 := by rw [find, List.idxOf?_cons, if_pos (by simp)]
  apply List.argmin_eq_some_iff.mpr
  refine ⟨mem_controls.mpr ⟨control, hcontrol, rfl, ?_⟩, ?_, ?_⟩
  · rw [hfind control hcontrol, hself, Option.map_some, Nat.zero_add]
  · intro found hfound
    obtain ⟨byte, hbyte, -, hindex⟩ := mem_controls.mp hfound
    rw [hfind byte hbyte] at hindex
    obtain ⟨index, -, hindex⟩ := Option.map_eq_some_iff.mp hindex
    exact hindex ▸ Nat.le_add_left _ _
  · intro found hfound hle
    obtain ⟨byte, hbyte, hdirection, hindex⟩ := mem_controls.mp hfound
    rw [hfind byte hbyte] at hindex
    obtain ⟨index, hfirst, hindex⟩ := Option.map_eq_some_iff.mp hindex
    have hzero : index = 0 := by omega
    have hsame : byte = control := by
      by_contra hne
      rw [find, List.idxOf?_cons, if_neg (by simpa using Ne.symm hne), hzero] at hfirst
      obtain ⟨later, -, hlater⟩ := Option.map_eq_some_iff.mp hfirst
      exact absurd hlater (Nat.succ_ne_zero _)
    have hfirst' : found = (before.length, directionOf control) :=
      Prod.ext (by rw [← hindex, hzero, Nat.zero_add]) (by rw [← hdirection, hsame])
    rw [hfirst']

/-- A chunk without a control byte is sent as a whole, and the next one is read. -/
theorem sendInput_plain (hne : chunk ≠ []) (h : ∀ b ∈ chunk, isControl b = false) (reads : List Read) :
    sendInput (.bytes chunk :: reads) = { sendInput reads with sends := chunk :: (sendInput reads).sends } := by
  rw [sendInput, if_neg hne, controls_eq_nil h, List.argmin_nil]

/-- At a control byte, what stands before it in the chunk is sent, and nothing more is read. -/
theorem sendInput_control (h : ∀ b ∈ before, isControl b = false) (hcontrol : isControl control = true)
    (after : Bytes)
    (reads : List Read) : sendInput (.bytes (before ++ control :: after) :: reads) =
      ⟨if before = [] then [] else [before], .returned (directionOf control)⟩ := by
  rw [sendInput, if_neg (by simp), argmin_controls h hcontrol]
  dsimp only
  rw [List.take_left]
  cases before with
  | nil => rfl
  | cons b before => rfl

/-- What `os.read` returns while there is something to read. -/
abbrev Chunk := { chunk : Bytes // chunk ≠ [] }

def typed (chunks : List Chunk) : Bytes := chunks.flatMap Subtype.val

def chunkReads (chunks : List Chunk) : List Read := chunks.map fun chunk => .bytes chunk.val

/-- How the input ends after a stream, where `otherwise` is how it ends when there is no control byte. -/
def endOf (stream : Bytes) (otherwise : InputEnd) : InputEnd :=
  match stream.find? isControl with
  | some control => .returned (directionOf control)
  | none => otherwise

/-- A stream without a control byte, or its first one. -/
theorem plain_or_control (stream : Bytes) : (∀ b ∈ stream, isControl b = false) ∨
    ∃ before control after, stream = before ++ control :: after ∧ (∀ b ∈ before, isControl b = false) ∧
    isControl control = true := by
  induction stream with
  | nil => exact .inl fun b hb => absurd hb List.not_mem_nil
  | cons b stream ih =>
    by_cases hb : isControl b = true
    · exact .inr ⟨[], b, stream, rfl, fun c hc => absurd hc List.not_mem_nil, hb⟩
    · rw [Bool.not_eq_true] at hb
      rcases ih with hplain | ⟨before, control, after, rfl, hbefore, hcontrol⟩
      · exact .inl (List.forall_mem_cons.mpr ⟨hb, hplain⟩)
      · exact .inr ⟨b :: before, control, after, rfl, List.forall_mem_cons.mpr ⟨hb, hbefore⟩, hcontrol⟩

theorem takeWhile_plain (h : ∀ b ∈ before, isControl b = false) (after : Bytes) :
    (before ++ after).takeWhile (fun b => !isControl b) = before ++ after.takeWhile fun b => !isControl b :=
  List.takeWhile_append_of_pos fun b hb => by rw [h b hb]; rfl

theorem find?_plain (h : ∀ b ∈ before, isControl b = false) (after : Bytes) :
    (before ++ after).find? isControl = after.find? isControl := by
  have hnone : before.find? isControl = none := List.find?_eq_none.mpr fun b hb => by
    rw [h b hb]; exact Bool.false_ne_true
  rw [List.find?_append, hnone, Option.none_or]

/-- The chunks that come before some reads: only their bytes count. -/
theorem sendInput_chunks (chunks : List Chunk) (reads : List Read) :
    (∀ b ∈ typed chunks, isControl b = false) ∧ (sendInput (chunkReads chunks ++ reads)).sends.flatten =
        typed chunks ++ (sendInput reads).sends.flatten ∧
        (sendInput (chunkReads chunks ++ reads)).ended = (sendInput reads).ended ∨
      ∃ before control after, typed chunks = before ++ control :: after ∧ (∀ b ∈ before, isControl b = false) ∧
        isControl control = true ∧ (sendInput (chunkReads chunks ++ reads)).sends.flatten = before ∧
        (sendInput (chunkReads chunks ++ reads)).ended = .returned (directionOf control) := by
  induction chunks with
  | nil => exact .inl ⟨fun b hb => absurd hb List.not_mem_nil, rfl, rfl⟩
  | cons chunk chunks ih =>
    obtain ⟨chunk, hne⟩ := chunk
    have hreads : chunkReads (⟨chunk, hne⟩ :: chunks) ++ reads = .bytes chunk :: (chunkReads chunks ++ reads) := rfl
    have htyped : typed (⟨chunk, hne⟩ :: chunks) = chunk ++ typed chunks := List.flatMap_cons
    rw [hreads, htyped]
    rcases plain_or_control chunk with hplain | ⟨before, control, after, rfl, hbefore, hcontrol⟩
    · rw [sendInput_plain hne hplain]
      rcases ih with ⟨hrest, hsends, hended⟩ | ⟨before, control, after, heq, hbefore, hcontrol, hsends, hended⟩
      · refine .inl ⟨List.forall_mem_append.mpr ⟨hplain, hrest⟩, ?_, hended⟩
        rw [List.flatten_cons, hsends, List.append_assoc]
      · refine .inr ⟨chunk ++ before, control, after, ?_, List.forall_mem_append.mpr ⟨hplain, hbefore⟩, hcontrol,
          ?_, hended⟩
        · rw [heq, List.append_assoc]
        · rw [List.flatten_cons, hsends]
    · rw [sendInput_control hbefore hcontrol]
      refine .inr ⟨before, control, after ++ typed chunks, ?_, hbefore, hcontrol, ?_, rfl⟩
      · rw [List.append_assoc, List.cons_append]
      · split
        · next hnil => rw [hnil, List.flatten_nil]
        · rw [List.flatten_singleton]

/-- What is sent of the chunks when nothing is sent of the reads after them. -/
theorem sendInput_before (chunks : List Chunk) (hnone : (sendInput reads).sends = []) :
    (sendInput (chunkReads chunks ++ reads)).sends.flatten = (typed chunks).takeWhile (fun b => !isControl b) ∧
      (sendInput (chunkReads chunks ++ reads)).ended = endOf (typed chunks) (sendInput reads).ended := by
  rcases sendInput_chunks chunks reads with ⟨hplain, hsends, hended⟩ | ⟨before, control, after, htyped, hbefore,
    hcontrol, hsends, hended⟩
  · have htake := takeWhile_plain hplain []
    have hfind := find?_plain hplain []
    rw [List.append_nil, List.takeWhile_nil, List.append_nil] at htake
    rw [List.append_nil, List.find?_nil] at hfind
    rw [hsends, hnone, List.flatten_nil, List.append_nil, htake, hended, endOf, hfind]
    exact ⟨rfl, rfl⟩
  · rw [hsends, hended, htyped, takeWhile_plain hbefore, endOf, find?_plain hbefore,
      List.takeWhile_cons_of_neg (by simp [hcontrol]), List.find?_cons_of_pos hcontrol, List.append_nil]
    exact ⟨rfl, rfl⟩

/-- For every division into chunks, the bytes before the first control byte are forwarded, and this byte alone
decides the result: when the input is at its end, and while it goes on. -/
theorem input_forwarded (chunks : List Chunk) (later : List Read) :
    let ended := sendInput (chunkReads chunks ++ .bytes [] :: later)
    let waiting := sendInput (chunkReads chunks)
    ended.sends.flatten = (typed chunks).takeWhile (fun b => !isControl b) ∧
      ended.ended = endOf (typed chunks) (.returned none) ∧
      waiting.sends.flatten = (typed chunks).takeWhile (fun b => !isControl b) ∧
      waiting.ended = endOf (typed chunks) .waiting := by
  have hend := sendInput_before chunks (show (sendInput (.bytes [] :: later)).sends = [] from rfl)
  have hwait := sendInput_before chunks (show (sendInput []).sends = [] from rfl)
  rw [List.append_nil] at hwait
  exact ⟨hend.1, hend.2, hwait.1, hwait.2⟩

/-- Of two divisions of one stream, the same is forwarded, with the same result. -/
theorem sendInput_congr {chunks chunks' : List Chunk} (h : typed chunks = typed chunks') (later : List Read) :
    (sendInput (chunkReads chunks ++ .bytes [] :: later)).sends.flatten =
        (sendInput (chunkReads chunks' ++ .bytes [] :: later)).sends.flatten ∧
      (sendInput (chunkReads chunks ++ .bytes [] :: later)).ended =
      (sendInput (chunkReads chunks' ++ .bytes [] :: later)).ended := by
  have hleft := sendInput_before chunks (show (sendInput (.bytes [] :: later)).sends = [] from rfl)
  have hright := sendInput_before chunks' (show (sendInput (.bytes [] :: later)).sends = [] from rfl)
  rw [hleft.1, hright.1, hleft.2, hright.2, h]
  exact ⟨rfl, rfl⟩

inductive RelayFrame
  | binary (data : Bytes)
  | text (message : String)

inductive ClientError
  | osError
  | runtimeError (detail : Json)
  | attributeError
  | valueError
  | recursionError
  | connectionClosed (code : Option ℕ)

/-- One call of `os.write`. -/
inductive WriteAnswer
  | wrote (count : ℕ)
  | failed

/-- What the terminal has taken, in how many calls, and the events that the other tasks wait for. -/
structure Client where
  shown : Bytes := []
  calls : ℕ := 0
  backendReady : Option Bool := none
  resizeChanged : Option Bool := none

/-- `_write_all`, and whether it returns. -/
def writeAll (answers : ℕ → WriteAnswer) (client : Client) (data : Bytes) : Client × Bool :=
  if data = [] then (client, true)
  else
    match answers client.calls with
    | .failed => ({ client with calls := client.calls + 1 }, false)
    | .wrote 0 => ({ client with calls := client.calls + 1 }, false)
    | .wrote (count + 1) =>
      writeAll answers { client with shown := client.shown ++ data.take (count + 1), calls := client.calls + 1 }
        (data.drop (count + 1))
termination_by data.length
decreasing_by
  rename_i hne
  have hpos := List.length_pos_iff.mpr hne
  rw [List.length_drop]
  omega

/-- `frame.get(key) == text` -/
def hasText (members : List (Str × Json)) (key text : Str) : Bool :=
  match getMember key members with
  | some (.string value) => value = text
  | _ => false

/-- `frame.get(key) or fallback` -/
def getOr (members : List (Str × Json)) (key : Str) (fallback : Json) : Json :=
  match getMember key members with
  | some value => if truthy value then value else fallback
  | none => fallback

def errorDetail (members : List (Str × Json)) : Json :=
  getOr members (str "detail") (getOr members (str "code") (.string (str "terminal relay reported an error")))

/-- What is done about a frame. -/
inductive FrameEffect
  | shows (data : Bytes)
  | raises (error : ClientError)
  | selects
  | connects
  | skips

/-- The body of the loop of `_receive_output`; at most `limit` containers are read in each other. -/
def frameEffect (limit : ℕ) : RelayFrame → FrameEffect
  | .binary data => .shows data
  | .text message =>
    match loads limit (str message) with
    | .error .decodeError => .shows (utf8 message)
    | .error .overlongInteger => .raises .valueError
    | .error .tooDeep => .raises .recursionError
    | .ok (.object members) =>
      if hasText members (str "type") (str "error") then .raises (.runtimeError (errorDetail members))
      else if hasText members (str "type") (str "status") &&
        hasText members (str "state") (str "replaced") then .selects
      else if hasText members (str "type") (str "status") &&
        hasText members (str "state") (str "connected") then .connects
      else .skips
    | .ok _ => .raises .attributeError

/-- Both events are set, if there is one for the backend. -/
def Client.connected (client : Client) : Client :=
  match client.backendReady with
  | none => client
  | some _ => { client with backendReady := some true, resizeChanged := client.resizeChanged.map fun _ => true }

/-- How the connection ends after the frames: with the code of a close frame, if it was not closed normally. -/
inductive Closing
  | normal
  | closed (code : Option ℕ)

def Closing.result : Closing → Except ClientError (Option Direction)
  | .normal => .ok none
  | .closed code => if code = some 4410 then .ok (some .select) else .error (.connectionClosed code)

structure Received where
  client : Client
  result : Except ClientError (Option Direction)

/-- `_receive_output` -/
def receiveOutput (limit : ℕ) (answers : ℕ → WriteAnswer) (closing : Closing) : List RelayFrame → Client → Received
  | [], client => ⟨client, closing.result⟩
  | frame :: frames, client =>
    match frameEffect limit frame with
    | .shows data =>
      match writeAll answers client data with
      | (client, true) => receiveOutput limit answers closing frames client
      | (client, false) => ⟨client, .error .osError⟩
    | .raises error => ⟨client, .error error⟩
    | .selects => ⟨client, .ok (some .select)⟩
    | .connects => receiveOutput limit answers closing frames client.connected
    | .skips => receiveOutput limit answers closing frames client

inductive Ending
  | error (detail : Json)
  | replaced

def Ending.result : Ending → Except ClientError (Option Direction)
  | .error detail => .error (.runtimeError detail)
  | .replaced => .ok (some .select)

def ending (limit : ℕ) : RelayFrame → Option Ending
  | .binary _ => none
  | .text message =>
    match loads limit (str message) with
    | .ok (.object members) =>
      if hasText members (str "type") (str "error") then some (.error (errorDetail members))
      else if hasText members (str "type") (str "status") &&
        hasText members (str "state") (str "replaced") then some .replaced
      else none
    | _ => none

def content (limit : ℕ) : RelayFrame → Bytes
  | .binary data => data
  | .text message =>
    match loads limit (str message) with
    | .error .decodeError => utf8 message
    | _ => []

def beforeEnding (limit : ℕ) (frames : List RelayFrame) : List RelayFrame :=
  frames.takeWhile fun frame => (ending limit frame).isNone

def expectedResult (limit : ℕ) (closing : Closing) (frames : List RelayFrame) :
    Except ClientError (Option Direction) :=
  match frames.findSome? (ending limit) with
  | some e => e.result
  | none => closing.result

def Complete (limit : ℕ) (closing : Closing) (frames : List RelayFrame) (client : Client) (received : Received) :
    Prop :=
  received.client.shown = client.shown ++ (beforeEnding limit frames).flatMap (content limit) ∧
    received.result = expectedResult limit closing frames

def Readable (limit : ℕ) : RelayFrame → Prop
  | .binary _ => True
  | .text message =>
    loads limit (str message) = .error .decodeError ∨ ∃ members, loads limit (str message) = .ok (.object members)

variable {limit : ℕ} {answers : ℕ → WriteAnswer} {closing : Closing} {client : Client} {frame : RelayFrame}
    {frames : List RelayFrame}
  {data : Bytes}

def NoProgress (answer : WriteAnswer) : Prop := answer = .failed ∨ answer = .wrote 0

/-- All of the data is taken, unless a write takes nothing. -/
theorem writeAll_spec (answers : ℕ → WriteAnswer) (client : Client) (data : Bytes) :
    (∃ client', client'.shown = client.shown ++ data ∧ writeAll answers client data = (client', true)) ∨
      ∃ client' k, NoProgress (answers k) ∧ client.shown <+: client'.shown ∧
      client'.shown <+: client.shown ++ data ∧
        writeAll answers client data = (client', false) := by
  induction hn : data.length using Nat.strong_induction_on generalizing client data with
  | _ n ih =>
    subst hn
    rw [writeAll]
    by_cases hnil : data = []
    · rw [if_pos hnil, hnil, List.append_nil]
      exact .inl ⟨client, rfl, rfl⟩
    · rw [if_neg hnil]
      cases hanswer : answers client.calls with
      | failed => exact .inr ⟨{ client with calls := client.calls + 1 },
          client.calls, .inl hanswer, List.prefix_rfl, List.prefix_append _ _, rfl⟩
      | wrote count =>
        cases count with
        | zero => exact .inr ⟨{ client with calls := client.calls + 1 },
            client.calls, .inr hanswer, List.prefix_rfl, List.prefix_append _ _, rfl⟩
        | succ count =>
          dsimp only
          have hpos := List.length_pos_iff.mpr hnil
          have hlt : (data.drop (count + 1)).length < data.length := by
            rw [List.length_drop]
            omega
          have htake : (client.shown ++ data.take (count + 1)) ++ data.drop (count + 1) = client.shown ++ data := by
            rw [List.append_assoc, List.take_append_drop]
          rcases ih _ hlt { client with shown := client.shown ++ data.take (count + 1), calls := client.calls + 1 }
            _ rfl with
            ⟨client', hshown, hwrite⟩ | ⟨client', k, hk, hle, hshown, hwrite⟩
          · exact .inl ⟨client', hshown.trans htake, hwrite⟩
          · exact .inr ⟨client', k, hk, (List.prefix_append _ _).trans hle, htake ▸ hshown, hwrite⟩

theorem shown_connected (client : Client) : client.connected.shown = client.shown := by
  unfold Client.connected
  split <;> rfl

/-- A frame that can be read and does not end the attachment is shown, and the next one is received. -/
theorem receiveOutput_readable (answers : ℕ → WriteAnswer) (closing : Closing) (frames : List RelayFrame)
    (client : Client)
    (hread : Readable limit frame) (hend : ending limit frame = none) :
    (∃ client', client'.shown = client.shown ++ content limit frame ∧
        receiveOutput limit answers closing (frame :: frames) client =
          receiveOutput limit answers closing frames client') ∨
      ∃ client' k, NoProgress (answers k) ∧ client.shown <+: client'.shown ∧
      client'.shown <+: client.shown ++ content limit frame ∧
        receiveOutput limit answers closing (frame :: frames) client = ⟨client', .error .osError⟩ := by
  have hshows : ∀ data, frameEffect limit frame = .shows data → content limit frame = data →
      (∃ client', client'.shown = client.shown ++ content limit frame ∧
          receiveOutput limit answers closing (frame :: frames) client =
            receiveOutput limit answers closing frames client') ∨
        ∃ client' k, NoProgress (answers k) ∧ client.shown <+: client'.shown ∧
          client'.shown <+: client.shown ++ content limit frame ∧
          receiveOutput limit answers closing (frame :: frames) client = ⟨client', .error .osError⟩ := by
    rintro data heffect rfl
    rw [receiveOutput, heffect]
    rcases writeAll_spec answers client (content limit frame) with ⟨client', hshown, hwrite⟩ | ⟨client', k, hk, hle,
      hshown, hwrite⟩
    · dsimp only
      rw [hwrite]
      exact .inl ⟨client', hshown, rfl⟩
    · dsimp only
      rw [hwrite]
      exact .inr ⟨client', k, hk, hle, hshown, rfl⟩
  cases frame with
  | binary data => exact hshows data rfl rfl
  | text message =>
    rcases hread with hloads | ⟨members, hloads⟩
    · exact hshows (utf8 message) (by rw [frameEffect, hloads]) (by rw [content, hloads])
    · have hcontent : content limit (.text message) = [] := by rw [content, hloads]
      rw [hcontent, List.append_nil, receiveOutput, frameEffect, hloads]
      rw [ending, hloads] at hend
      dsimp only at hend ⊢
      split at hend
      · cases hend
      · next herror =>
        split at hend
        · cases hend
        · next hreplaced =>
          rw [if_neg herror, if_neg hreplaced]
          by_cases hconnected : (hasText members (str "type") (str "status") &&
            hasText members (str "state") (str "connected")) = true
          · rw [if_pos hconnected]
            exact .inl ⟨client.connected, shown_connected client, rfl⟩
          · rw [if_neg hconnected]
            exact .inl ⟨client, rfl, rfl⟩

/-- The frame that ends the attachment decides the result. -/
theorem receiveOutput_ending {e : Ending} (hend : ending limit frame = some e) :
    receiveOutput limit answers closing (frame :: frames) client = ⟨client, e.result⟩ := by
  cases frame with
  | binary data => cases hend
  | text message =>
    rw [receiveOutput, frameEffect]
    rw [ending] at hend
    split at hend
    · next members hloads =>
      rw [hloads]
      dsimp only
      split at hend
      · next herror =>
        cases hend
        rw [if_pos herror]
        rfl
      · next herror =>
        split at hend
        · next hreplaced =>
          cases hend
          rw [if_neg herror, if_pos hreplaced]
          rfl
        · cases hend
    · cases hend

/-- Errors of a frame that cannot be read. -/
def ClientError.ofText : ClientError → Prop
  | .attributeError | .valueError | .recursionError => True
  | _ => False

theorem receiveOutput_unreadable (answers : ℕ → WriteAnswer) (closing : Closing) (frames : List RelayFrame)
    (client : Client)
    (hread : ¬Readable limit frame) : ending limit frame = none ∧
    ∃ error, error.ofText ∧ receiveOutput limit answers closing (frame :: frames) client =
    ⟨client, .error error⟩ := by
  cases frame with
  | binary data => exact absurd trivial hread
  | text message =>
    simp only [Readable, not_or, not_exists] at hread
    obtain ⟨hdecode, hobject⟩ := hread
    cases hloads : loads limit (str message) with
    | error e =>
      cases e with
      | decodeError => exact absurd hloads hdecode
      | overlongInteger =>
        refine ⟨by rw [ending, hloads], .valueError, trivial, ?_⟩
        rw [receiveOutput, frameEffect, hloads]
      | tooDeep =>
        refine ⟨by rw [ending, hloads], .recursionError, trivial, ?_⟩
        rw [receiveOutput, frameEffect, hloads]
    | ok value =>
      cases value with
      | object members => exact absurd hloads (hobject members)
      | _ =>
        refine ⟨by rw [ending, hloads], .attributeError, trivial, ?_⟩
        rw [receiveOutput, frameEffect, hloads]

theorem not_ofText_of_expected {error : ClientError} (h : expectedResult limit closing frames = .error error) :
    ¬error.ofText := by
  unfold expectedResult at h
  split at h
  · next e _ =>
    cases e with
    | error detail =>
      cases h
      exact id
    | replaced => cases h
  · cases closing with
    | normal => cases h
    | closed code =>
      rw [Closing.result] at h
      split at h
      · cases h
      · cases h
        exact id

section Lists

variable {frame : RelayFrame} {frames : List RelayFrame}

theorem beforeEnding_ending {e : Ending} (h : ending limit frame = some e) :
    beforeEnding limit (frame :: frames) = [] := by
  rw [beforeEnding, List.takeWhile_cons_of_neg (by simp [h])]

theorem beforeEnding_other (h : ending limit frame = none) :
    beforeEnding limit (frame :: frames) = frame :: beforeEnding limit frames := by
  rw [beforeEnding, List.takeWhile_cons_of_pos (by simp [h]), beforeEnding]

theorem expectedResult_ending {e : Ending} (h : ending limit frame = some e) :
    expectedResult limit closing (frame :: frames) = e.result := by
  rw [expectedResult, List.findSome?_cons, h]

theorem expectedResult_other (h : ending limit frame = none) :
    expectedResult limit closing (frame :: frames) = expectedResult limit closing frames := by
  rw [expectedResult, List.findSome?_cons, h, expectedResult]

end Lists

/-- The output is complete for all sizes of the writes exactly when the texts before the end can be read. -/
theorem output_complete_iff (limit : ℕ) (sizes : ℕ → ℕ+) (closing : Closing) (frames : List RelayFrame)
    (client : Client) :
    Complete limit closing frames client (receiveOutput limit (fun k => .wrote (sizes k)) closing frames client) ↔
      ∀ frame ∈ beforeEnding limit frames, Readable limit frame := by
  induction frames generalizing client with
  | nil =>
    refine iff_of_true ⟨?_, rfl⟩ fun frame hframe => absurd hframe List.not_mem_nil
    exact (List.append_nil _).symm
  | cons frame frames ih =>
    cases hend : ending limit frame with
    | some e =>
      rw [beforeEnding_ending hend]
      refine iff_of_true ⟨?_, ?_⟩ fun frame hframe => absurd hframe List.not_mem_nil
      · rw [receiveOutput_ending hend, beforeEnding_ending hend, List.flatMap_nil, List.append_nil]
      · rw [receiveOutput_ending hend, expectedResult_ending hend]
    | none =>
      rw [beforeEnding_other hend, List.forall_mem_cons]
      by_cases hread : Readable limit frame
      · rcases receiveOutput_readable (fun k => .wrote (sizes k)) closing frames client
          hread hend with ⟨client', hshown, hrest⟩ | ⟨client', k, hk, -⟩
        · rw [and_iff_right hread, ← ih client', Complete, Complete, hrest, beforeEnding_other hend,
            expectedResult_other hend,
            List.flatMap_cons, hshown, List.append_assoc]
        · rcases hk with hk | hk
          · cases hk
          · exact absurd (WriteAnswer.wrote.inj hk) (sizes k).ne_zero
      · obtain ⟨error, htext, hraised⟩ :=
          (receiveOutput_unreadable (fun k => .wrote (sizes k)) closing frames client hread).2
        refine iff_of_false (fun hcomplete => ?_) fun h => hread h.1
        obtain ⟨-, hresult⟩ := hcomplete
        rw [hraised] at hresult
        exact not_ofText_of_expected hresult.symm htext

/-- When a write may fail too, what is shown is a part of the output, and no other error is raised. -/
theorem output_within (h : ∀ frame ∈ beforeEnding limit frames, Readable limit frame) (client : Client) :
    Complete limit closing frames client (receiveOutput limit answers closing frames client) ∨
      (∃ k, NoProgress (answers k)) ∧ (receiveOutput limit answers closing frames client).result = .error .osError ∧
        client.shown <+: (receiveOutput limit answers closing frames client).client.shown ∧
        (receiveOutput limit answers closing frames client).client.shown <+:
          client.shown ++ (beforeEnding limit frames).flatMap (content limit) := by
  induction frames generalizing client with
  | nil => exact .inl ⟨(List.append_nil _).symm, rfl⟩
  | cons frame frames ih =>
    cases hend : ending limit frame with
    | some e =>
      refine .inl ⟨?_, ?_⟩
      · rw [receiveOutput_ending hend, beforeEnding_ending hend, List.flatMap_nil, List.append_nil]
      · rw [receiveOutput_ending hend, expectedResult_ending hend]
    | none =>
      rw [beforeEnding_other hend, List.forall_mem_cons] at h
      rw [beforeEnding_other hend, List.flatMap_cons]
      rcases receiveOutput_readable answers closing frames client h.1 hend with
        ⟨client', hshown, hrest⟩ | ⟨client', k, hk, hle, hshown, hrest⟩
      · rw [Complete, hrest, beforeEnding_other hend, expectedResult_other hend, List.flatMap_cons,
          ← List.append_assoc, ← hshown]
        rcases ih h.2 client' with hcomplete | ⟨hfailed, hresult, hle, hpart⟩
        · exact .inl hcomplete
        · refine .inr ⟨hfailed, hresult, ?_, hpart⟩
          exact (List.prefix_append _ _).trans (hshown ▸ hle)
      · rw [hrest]
        refine .inr ⟨⟨k, hk⟩, rfl, hle, hshown.trans ?_⟩
        rw [← List.append_assoc]
        exact List.prefix_append _ _

/-- A text that is `null` is JSON, and not an object. -/
theorem not_complete : ¬∀ limit (sizes : ℕ → ℕ+) closing frames client,
    Complete limit closing frames client
    (receiveOutput limit (fun k => .wrote (sizes k)) closing frames client) := by
  intro hall
  have hnull : loads 900 (str "null") = .ok .null := rfl
  have hread : ¬Readable 900 (.text "null") := by
    rintro (hdecode | ⟨members, hobject⟩)
    · rw [hnull] at hdecode
      cases hdecode
    · rw [hnull] at hobject
      cases hobject
  obtain ⟨-, error, htext, hraised⟩ := receiveOutput_unreadable (fun _ => .wrote (1 : ℕ+)) .normal [] {} hread
  obtain ⟨-, hresult⟩ := hall 900 (fun _ => 1) .normal [.text "null"] {}
  rw [hraised] at hresult
  exact not_ofText_of_expected hresult.symm htext

end WorkerHarness.TerminalClient
