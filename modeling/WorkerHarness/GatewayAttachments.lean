import WorkerHarness.CoroutineEffects
import WorkerHarness.KeyedLists
import Mathlib.Data.List.MinMax
import Mathlib.Data.Prod.Lex
import Mathlib.Data.String.Basic
import Mathlib.Algebra.Order.Ring.Unbundled.Rat

/-!
# Terminal gateway

The websocket route that attaches a client to the terminal of a session, with the admission of
attachments: a session has a bounded number of them, and a new one takes the place of the one that
has been idle longest. What follows the lock of the gateway up to the next suspension, the events
that are set there, belongs to the step under the lock.
-/

namespace WorkerHarness.Gateway

open Coroutines KeyedLists

/-- `_terminal_dimension`; the value is absent where it is empty or no number. -/
def terminalDimension (value : Option ℤ) (fallback : ℤ) : ℤ := max 1 (min 1000 (value.getD fallback))

/-- `_GatewayAttachment`, with the thread that created the object. -/
structure GatewayAttachment where
  id : String
  lastActivity : ℚ
  rows : ℤ
  cols : ℤ
  evict : Bool := false
  released : Bool := false
  maker : ℕ

inductive ClientFrame where
  | bytes
  | resize (rows cols : Option ℤ)
  | text

def GatewayAttachment.noteClientFrame (a : GatewayAttachment) (data : ClientFrame) (now : ℚ) : GatewayAttachment :=
  match data with
  | .bytes => { a with lastActivity := now }
  | .text => { a with lastActivity := now }
  | .resize rows cols =>
    let rows := terminalDimension rows a.rows
    let cols := terminalDimension cols a.cols
    if (rows, cols) = (a.rows, a.cols) then a else { a with rows := rows, cols := cols, lastActivity := now }

inductive GatewayError where
  | cancelledError
  | httpException (statusCode : ℕ) (detail : String)
  | connectionClosed (code : ℕ) (reason : String)
  | unavailable (message : String)
  | runtimeError
  | other
  deriving DecidableEq

inductive ServerMessage where
  | error (code detail : String)
  | status (state reason : String)

/-- `WH_PI_MAX_ATTACHMENTS`. -/
structure GatewayConfig where
  maxPerSession : ℕ
  pos : 0 < maxPerSession

inductive GatewayLock where
  | piGateway
  deriving DecidableEq

/-- What the route waits for or does at once; objects are numbered. -/
inductive GatewayCall : Type → Type where
  | requireOperator : GatewayCall (Except GatewayError Unit)
  | attachInfo (sessionId : String) : GatewayCall (Except GatewayError (Bool × Option String))
  | sendJson (message : ServerMessage) : GatewayCall (Except GatewayError Unit)
  | close (code : ℕ) (reason : String) : GatewayCall (Except GatewayError Unit)
  | sleep : GatewayCall (Except GatewayError Unit)
  | newAttachment (rows cols : Option ℤ) : GatewayCall ℕ
  | reserve (sessionId : String) (attachment : ℕ) : GatewayCall (Option ℕ)
  | waitReleased (victim : ℕ) : GatewayCall (Except GatewayError Unit)
  | evicted (attachment : ℕ) : GatewayCall Bool
  | pump (attachment : ℕ) : GatewayCall (Except GatewayError Bool)
  | noteClientFrame (attachment : ℕ) (data : ClientFrame) : GatewayCall Unit
  | countClose (reason : String) : GatewayCall Unit
  | release (sessionId : String) (attachment : ℕ) : GatewayCall Unit

abbrev GatewayM := Prog GatewayCall GatewayLock GatewayError

def reserveGatewayAttachment (sessionId : String) (attachment : ℕ) : GatewayM (Option ℕ) :=
  Prog.withLock .piGateway (Prog.call (.reserve sessionId attachment))

def releaseGatewayAttachment (sessionId : String) (attachment : ℕ) : GatewayM Unit :=
  Prog.withLock .piGateway (Prog.call (.release sessionId attachment))

/-- `reason[:120]`. -/
def clipped (reason : String) : String := String.ofList (reason.toList.take 120)

def replacedNotice : GatewayM Unit := do
  Prog.await (.sendJson (.status "replaced" "attachment capacity reclaimed by a newer client"))
  Prog.await .sleep
  Prog.await (.close 4410 "replaced by newer attachment")

/-- The terminal is pumped until it ends: the reason for the close, and the exception in flight. -/
def pumpTerminal (attachment : ℕ) : GatewayM (String × Except GatewayError Unit) := do
  let evicted ← Prog.call (.evicted attachment)
  if evicted then
    let r ← replacedNotice.attempt
    return ("replaced", r)
  else
    let outcome ← (Prog.await (.pump attachment)).attempt
    match outcome with
    | .error e => return ("completed", .error e)
    | .ok false => return ("completed", .ok ())
    | .ok true =>
      let r ← replacedNotice.attempt
      return ("replaced", r)

def ignoringRuntimeError (p : GatewayM Unit) : GatewayM Unit :=
  p.catching fun
    | .runtimeError => .ret ()
    | e => .raise e

def closeClient (closeReason : String) : Except GatewayError Unit → GatewayM (String × Except GatewayError Unit)
  | .error (.connectionClosed code reason) => do
    let r ← (ignoringRuntimeError (Prog.await (.close (if 1000 ≤ code ∧ code ≤ 4999 then code else 1011)
      (clipped (if reason = "" then "upstream terminal closed" else reason))))).attempt
    return ("upstream-" ++ toString code, r)
  | .error (.unavailable message) => do
    let r ← (ignoringRuntimeError do
      Prog.await (.sendJson (.error "upstream_unavailable" message))
      Prog.await (.close 1011 "upstream terminal unavailable")).attempt
    return ("upstream-unavailable", r)
  | r => .ret (closeReason, r)

/-- What is done with an admitted attachment. -/
def serveAttachment (sessionId : String) (attachment : ℕ) : GatewayM Unit := do
  let pumped ← pumpTerminal attachment
  let closed ← closeClient pumped.1 pumped.2
  Prog.withLock .piGateway (Prog.call (.countClose closed.1))
  releaseGatewayAttachment sessionId attachment
  Prog.ofExcept closed.2

def refuseClient (code : ℕ) (reason : String) (message : Option ServerMessage) : GatewayM Unit := do
  match message with
  | none => .ret ()
  | some message => Prog.await (.sendJson message)
  Prog.await (.close code reason)

def piSessionAttachGateway (sessionId : String) (rows cols : Option ℤ) : GatewayM Unit := do
  let caller ← (Prog.await .requireOperator).attempt
  match caller with
  | .error (.httpException statusCode detail) => refuseClient (4400 + statusCode % 100) detail none
  | .error e => .raise e
  | .ok _ =>
    let info ← (Prog.await (.attachInfo sessionId)).attempt
    match info with
    | .error (.httpException _ detail) =>
      refuseClient 4404 "session not found" (some (.error "session_not_found" detail))
    | .error e => .raise e
    | .ok (false, reason) =>
      refuseClient 4409 (clipped (reason.getD "session not attachable"))
        (some (.error "session_not_attachable" (reason.getD "")))
    | .ok (true, _) =>
      let attachment ← Prog.call (.newAttachment rows cols)
      let victim ← reserveGatewayAttachment sessionId attachment
      match victim with
      | none => serveAttachment sessionId attachment
      | some victim =>
        Prog.await (.waitReleased victim)
        serveAttachment sessionId attachment

/-- The attachment objects, the active ones of each session by their ids, and the counters; and a
record of which objects have been reserved for which session, evicted, and released. -/
structure GatewayWorld where
  objects : List GatewayAttachment := []
  attachments : String → Option (List (String × ℕ)) := fun _ => none
  evictionsTotal : ℕ := 0
  closeReasons : String → ℕ := fun _ => 0
  reserved : List (String × ℕ) := []
  victims : List ℕ := []
  releases : List ℕ := []

namespace GatewayWorld

def setActive (s : GatewayWorld) (sessionId : String) (active : Option (List (String × ℕ))) : GatewayWorld :=
  { s with attachments := fun session => if session = sessionId then active else s.attachments session }

/-- What the attachments of a session are compared by. -/
def idleness (s : GatewayWorld) (entry : String × ℕ) : ℚ ×ₗ String :=
  match s.objects[entry.2]? with
  | none => toLex (0, entry.1)
  | some a => toLex (a.lastActivity, a.id)

def active (s : GatewayWorld) (sessionId : String) : List (String × ℕ) := (s.attachments sessionId).getD []

/-- `active[attachment.id] = attachment`. -/
def addActive (s : GatewayWorld) (sessionId : String) (a : ℕ) (id : String) : GatewayWorld :=
  let active := s.active sessionId
  { s.setActive sessionId (some (if id ∈ active.map Prod.fst then setValue id a active
        else active ++ [(id, a)])) with
    reserved := (sessionId, a) :: s.reserved }

def evictEntry (s : GatewayWorld) (sessionId : String) (victim : String × ℕ) : GatewayWorld :=
  { s.setActive sessionId (some ((s.active sessionId).filter fun entry => entry.1 ≠ victim.1)) with
    objects := s.objects.modify victim.2 fun a => { a with evict := true },
    evictionsTotal := s.evictionsTotal + 1,
    victims := victim.2 :: s.victims }

/-- The longest idle attachment of a session at capacity. -/
def victim (cfg : GatewayConfig) (s : GatewayWorld) (sessionId : String) : Option (String × ℕ) :=
  if cfg.maxPerSession ≤ (s.active sessionId).length then (s.active sessionId).argmin s.idleness else none

def reserve (cfg : GatewayConfig) (s : GatewayWorld) (sessionId : String) (a : ℕ) (id : String) : GatewayWorld :=
  match s.victim cfg sessionId with
  | none => s.addActive sessionId a id
  | some victim => (s.evictEntry sessionId victim).addActive sessionId a id

/-- Exactly this attachment is taken off; an empty entry is removed. -/
def takeOff (s : GatewayWorld) (sessionId : String) (a : ℕ) (id : String) : GatewayWorld :=
  if (s.active sessionId).lookup id = some a then
    let rest := (s.active sessionId).filter fun entry => entry.1 ≠ id
    s.setActive sessionId (if rest = [] then none else some rest)
  else s

def release (s : GatewayWorld) (sessionId : String) (a : ℕ) (id : String) : GatewayWorld :=
  { s with
    attachments := (s.takeOff sessionId a id).attachments,
    objects := s.objects.modify a fun a => { a with released := true },
    releases := a :: s.releases }

end GatewayWorld

inductive GatewayAnswer where
  | done
  | info (attachable : Bool) (reason : Option String)
  | created (id : String) (now : ℚ)
  | clock (now : ℚ)
  | ends (replaced : Bool)
  | fails (e : GatewayError)

/-- The effects in the world; ids are never drawn twice, and the pump ends as replaced only when
the attachment was evicted. -/
def gatewayHandle (cfg : GatewayConfig) : {β : Type} → GatewayCall β → ℕ → GatewayAnswer → GatewayWorld →
    Option (GatewayWorld × β)
  | _, .requireOperator, _, .done, s => some (s, .ok ())
  | _, .requireOperator, _, .fails e, s => some (s, .error e)
  | _, .attachInfo _, _, .info attachable reason, s => some (s, .ok (attachable, reason))
  | _, .attachInfo _, _, .fails e, s => some (s, .error e)
  | _, .sendJson _, _, .done, s => some (s, .ok ())
  | _, .sendJson _, _, .fails e, s => some (s, .error e)
  | _, .close _ _, _, .done, s => some (s, .ok ())
  | _, .close _ _, _, .fails e, s => some (s, .error e)
  | _, .sleep, _, .done, s => some (s, .ok ())
  | _, .sleep, _, .fails e, s => some (s, .error e)
  | _, .newAttachment rows cols, t, .created id now, s =>
    if id ∈ s.objects.map (·.id) then none
    else
      let a : GatewayAttachment :=
        { id := id, lastActivity := now, rows := terminalDimension rows 24,
          cols := terminalDimension cols 80, maker := t }
      some ({ s with objects := s.objects ++ [a] }, s.objects.length)
  | _, .reserve sessionId a, _, .done, s =>
    match s.objects[a]? with
    | none => none
    | some o => some (s.reserve cfg sessionId a o.id, (s.victim cfg sessionId).map Prod.snd)
  | _, .waitReleased _, _, .done, s => some (s, .ok ())
  | _, .waitReleased _, _, .fails e, s => some (s, .error e)
  | _, .evicted a, _, .done, s => some (s, (s.objects[a]?).any (·.evict))
  | _, .pump a, _, .ends replaced, s =>
    if replaced ∧ ¬(s.objects[a]?).any (·.evict) then none else some (s, .ok replaced)
  | _, .pump _, _, .fails e, s => some (s, .error e)
  | _, .noteClientFrame a data, _, .clock now, s =>
    some ({ s with objects := s.objects.modify a fun o => o.noteClientFrame data now }, ())
  | _, .countClose reason, _, .done, s =>
    some ({ s with closeReasons := fun r => if r = reason then s.closeReasons r + 1 else s.closeReasons r }, ())
  | _, .release sessionId a, _, .done, s =>
    match s.objects[a]? with
    | none => none
    | some o => some (s.release sessionId a o.id, ())
  | _, _, _, _, _ => none

def gatewayInterp (cfg : GatewayConfig) : Interp GatewayCall GatewayWorld GatewayAnswer := ⟨gatewayHandle cfg⟩

abbrev GatewayPool := Pool GatewayCall GatewayLock GatewayError Unit GatewayWorld

abbrev GatewayEvent := Event GatewayCall GatewayLock GatewayError Unit GatewayAnswer

inductive Activity : GatewayM Unit → Prop where
  | attach (sessionId : String) (rows cols : Option ℤ) : Activity (piSessionAttachGateway sessionId rows cols)
  | frame (attachment : ℕ) (data : ClientFrame) : Activity (Prog.call (.noteClientFrame attachment data))

/-- Any activity starts at any time, awaits answer anything, and tasks may be cancelled. -/
def Attaches : GatewayPool → GatewayEvent → Prop
  | _, .spawn p => Activity p
  | _, .go _ _ => True
  | _, .cancel _ _ => True
  | _, .crash _ => False

end WorkerHarness.Gateway
