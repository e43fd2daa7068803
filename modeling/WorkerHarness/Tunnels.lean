import WorkerHarness.CoroutineEffects
import Mathlib.Data.List.Basic

/-!
# Tunnels to the workers

The handlers that open and close SSH tunnels, with and without a Marimo server behind them, and the
reaper. A tunnel has a row in `port_forwards` and a process in the registry of the control process.
-/

namespace WorkerHarness.Tunnels

open Coroutines

inductive TunnelError where
  | cancelledError
  | httpException (statusCode : ℕ) (detail : String)
  | runtimeError (message : String)
  | other (message : String)
  deriving DecidableEq

/-- `str(exc)`. -/
def TunnelError.message : TunnelError → String
  | .cancelledError => ""
  | .httpException statusCode detail => toString statusCode ++ ": " ++ detail
  | .runtimeError message => message
  | .other message => message

/-- A row of `port_forwards`. -/
structure PortForward where
  id : String
  workerId : String
  localPort : ℕ
  remotePort : ℕ
  deriving DecidableEq

structure TunnelProcess where
  id : String
  workerId : String
  localPort : ℕ
  remotePort : ℕ
  deriving DecidableEq

/-- A row of `marimo_sessions`. -/
structure MarimoSession where
  id : String
  jobId : String
  tunnelId : String
  deriving DecidableEq

/-- What the handlers wait for or do at once; `remove` with `registered = false` is the expression
that asks the registry only for a registered process. -/
inductive TunnelCall : Type → Type where
  | resolveWorker (workerId : String) : TunnelCall (Except TunnelError (Option String))
  | listPortForwards : TunnelCall (Except TunnelError (List PortForward))
  | uuid : TunnelCall String
  | sshPortForward (id : String) (localPort remotePort : ℕ) : TunnelCall (Except TunnelError Unit)
  | exited (id : String) : TunnelCall Bool
  | insertPortForward (pf : PortForward) : TunnelCall (Except TunnelError Unit)
  | add (entry : TunnelProcess) : TunnelCall Unit
  | remove (id : String) (registered : Bool) : TunnelCall (Option TunnelProcess)
  | stop (id : String) : TunnelCall (Except TunnelError Unit)
  | deletePortForward (id : String) : TunnelCall (Except TunnelError Unit)
  | invalidate : TunnelCall (Except TunnelError Unit)
  | allocatePorts (workerId : String) : TunnelCall (Except TunnelError (ℕ × ℕ))
  | startJob (workerId : String) : TunnelCall (Except TunnelError (String × Bool))
  | stopJob (jobId : String) : TunnelCall (Except TunnelError Bool)
  | waitUntilReady (localPort readyTimeout : ℕ) : TunnelCall (Except TunnelError Unit)
  | getMarimoSession (sessionId : String) : TunnelCall (Except TunnelError (Option MarimoSession))
  | insertMarimoSession (session : MarimoSession) : TunnelCall (Except TunnelError Unit)
  | deleteMarimoSession (sessionId : String) : TunnelCall (Except TunnelError Unit)
  | reapDead : TunnelCall Unit
  | exits (id : String) : TunnelCall Unit

abbrev TunnelM := Prog TunnelCall Empty TunnelError

def refuse {α : Type} (statusCode : ℕ) (detail : String) : TunnelM α := .raise (.httpException statusCode detail)

def processOf (pf : PortForward) : TunnelProcess :=
  { id := pf.id, workerId := pf.workerId, localPort := pf.localPort, remotePort := pf.remotePort }

def deleteLogged (id : String) : TunnelM Unit :=
  (Prog.await (.deletePortForward id)).catching fun
    | .cancelledError => .raise .cancelledError
    | _ => .ret ()

/-- The part of the roll-backs that both creations share: the process is stopped, whether the
registry owns it or not, and the row is deleted. -/
def cleanupFailed (pf : PortForward) (proc registered : Bool) : TunnelM Unit := do
  let entry ← Prog.call (.remove pf.id registered)
  if entry.isSome || proc then Prog.await (.stop pf.id)
  deleteLogged pf.id

/-- The process is opened, its row inserted, and the process registered, before `rest` is done;
whatever fails is rolled back by `rollback`. -/
def openTunnel (pf : PortForward) (immediate : TunnelError) (rest : TunnelM Unit)
    (rollback : (proc registered : Bool) → TunnelError → TunnelM Unit) : TunnelM Unit := do
  let proc ← (Prog.await (.sshPortForward pf.id pf.localPort pf.remotePort)).attempt
  match proc with
  | .error e => rollback false false e
  | .ok _ =>
    let exited ← Prog.call (.exited pf.id)
    if exited then rollback true false immediate
    else
      let inserted ← (Prog.await (.insertPortForward pf)).attempt
      match inserted with
      | .error e => rollback true false e
      | .ok _ =>
        Prog.call (.add (processOf pf))
        rest.catching (rollback true true)

def tunnelsCreate (workerId : String) (localPort remotePort : ℕ) : TunnelM Unit := do
  let worker ← Prog.await (.resolveWorker workerId)
  match worker with
  | none => refuse 404 ("Worker not found: " ++ workerId)
  | some worker =>
    let existing ← Prog.await .listPortForwards
    if existing.any fun p => p.localPort = localPort then
      refuse 409 ("Local port " ++ toString localPort ++ " already forwarded")
    else
      let id ← Prog.call .uuid
      let pf : PortForward := { id := id, workerId := worker, localPort := localPort, remotePort := remotePort }
      openTunnel pf (.httpException 502 "SSH tunnel setup exited immediately") (Prog.await .invalidate)
        fun proc registered e => do
          cleanupFailed pf proc registered
          .raise e

def stopped (jobId : String) : TunnelM Unit := do
  let _ ← (Prog.await (.stopJob jobId) : TunnelM Bool)
  return ()

def marimoCreate (workerId : String) (readyTimeout : ℕ) : TunnelM Unit := do
  let worker ← Prog.await (.resolveWorker workerId)
  match worker with
  | none => refuse 404 ("Worker not found: " ++ workerId)
  | some worker =>
    if readyTimeout < 1 ∨ 300 < readyTimeout then refuse 422 "ready_timeout must be between 1 and 300 seconds"
    else
      let (remotePort, localPort) ← (Prog.await (.allocatePorts worker)).catching fun
        | .cancelledError => .raise .cancelledError
        | e => refuse 422 e.message
      let (jobId, failed) ← Prog.await (.startJob worker)
      if failed then refuse 502 "failed to start marimo worker process"
      else
        let id ← Prog.call .uuid
        let pf : PortForward := { id := id, workerId := worker, localPort := localPort, remotePort := remotePort }
        openTunnel pf (.runtimeError "SSH tunnel exited immediately")
          (do
            Prog.await (.waitUntilReady localPort readyTimeout)
            let sessionId ← Prog.call .uuid
            Prog.await (.insertMarimoSession { id := sessionId, jobId := jobId, tunnelId := pf.id }))
          fun proc registered e => do
            cleanupFailed pf proc registered
            (stopped jobId).catching fun
              | .cancelledError => .raise .cancelledError
              | _ => .ret ()
            match e with
            | .cancelledError => .raise .cancelledError
            | e => refuse 502 ("marimo startup failed: " ++ e.message)
        Prog.await .invalidate

def closeTunnel (id : String) : TunnelM Unit := do
  let entry ← Prog.call (.remove id true)
  if entry.isSome then Prog.await (.stop id)
  Prog.await (.deletePortForward id)

def tunnelsDelete (tunnelId : String) : TunnelM Unit := do
  let tunnels ← Prog.await .listPortForwards
  match tunnels.find? fun t => t.id = tunnelId with
  | none => refuse 404 ("Tunnel not found: " ++ tunnelId)
  | some pf =>
    closeTunnel pf.id
    Prog.await .invalidate

def stopMarimoSession (session : MarimoSession) : TunnelM Unit := do
  let stopped ← Prog.await (.stopJob session.jobId)
  if stopped then
    closeTunnel session.tunnelId
    Prog.await (.deleteMarimoSession session.id)
    Prog.await .invalidate
  else .raise (.runtimeError ("failed to stop marimo job " ++ session.jobId))

def marimoDelete (sessionId : String) : TunnelM Unit := do
  let session ← Prog.await (.getMarimoSession sessionId)
  match session with
  | none => refuse 404 ("Marimo session not found: " ++ sessionId)
  | some session =>
    (stopMarimoSession session).catching fun
      | .runtimeError message => refuse 502 message
      | e => .raise e

/-- `_reap_once`. -/
def reapOnce : TunnelM Unit := Prog.call .reapDead

/-- The rows, the registry and the processes that have exited. The other fields record who drew
which id, which rows were inserted, for which tunnels a closing has asked the registry, which ids
have been in use, and which threads have yet to register or delete a row. -/
structure TunnelWorld where
  portForwards : List PortForward := []
  entries : List TunnelProcess := []
  dead : List String := []
  marimoSessions : List MarimoSession := []
  given : List (String × ℕ) := []
  inserted : List String := []
  sought : List String := []
  seen : List String := []
  owners : List (ℕ × String) := []

namespace TunnelWorld

def rowIds (s : TunnelWorld) : List String := s.portForwards.map (·.id)

def entryIds (s : TunnelWorld) : List String := s.entries.map (·.id)

def draw (s : TunnelWorld) (t : ℕ) (id : String) : TunnelWorld :=
  { s with given := (id, t) :: s.given, seen := id :: s.seen }

def insertRow (s : TunnelWorld) (t : ℕ) (pf : PortForward) : TunnelWorld :=
  { s with
    portForwards := s.portForwards ++ [pf],
    inserted := pf.id :: s.inserted,
    owners := (t, pf.id) :: s.owners }

def addEntry (s : TunnelWorld) (t : ℕ) (entry : TunnelProcess) : TunnelWorld :=
  { s with
    entries := (s.entries.filter fun e => e.id ≠ entry.id) ++ [entry],
    owners := s.owners.filter fun o => o ≠ (t, entry.id) }

/-- `remove`: a closing, or a roll-back, takes the tunnel on itself. -/
def removeEntry (s : TunnelWorld) (t : ℕ) (id : String) : TunnelWorld :=
  { s with
    entries := s.entries.filter fun e => e.id ≠ id,
    sought := id :: s.sought,
    seen := id :: s.seen,
    owners := (t, id) :: s.owners }

def deleteRow (s : TunnelWorld) (t : ℕ) (id : String) : TunnelWorld :=
  { s with
    portForwards := s.portForwards.filter fun p => p.id ≠ id,
    owners := s.owners.filter fun o => o ≠ (t, id) }

def kill (s : TunnelWorld) (id : String) : TunnelWorld := { s with dead := id :: s.dead }

def reap (s : TunnelWorld) : TunnelWorld := { s with entries := s.entries.filter fun e => e.id ∉ s.dead }

def unused (s : TunnelWorld) (id : String) : Bool :=
  decide (id ∉ s.seen) && !(s.rowIds.any fun i => i = id) && !s.marimoSessions.any fun m => m.tunnelId = id

end TunnelWorld

/-- What an await answers; a database method that fails may have been executed. -/
inductive TunnelAnswer where
  | done
  | worker (id : Option String)
  | text (s : String)
  | ports (remotePort localPort : ℕ)
  | job (id : String) (flag : Bool)
  | fails (e : TunnelError) (executed : Bool)
  deriving DecidableEq

def tunnelHandle : {β : Type} → TunnelCall β → ℕ → TunnelAnswer → TunnelWorld → Option (TunnelWorld × β)
  | _, .resolveWorker _, _, .worker id, s => some (s, .ok id)
  | _, .resolveWorker _, _, .fails e _, s => some (s, .error e)
  | _, .listPortForwards, _, .done, s => some (s, .ok s.portForwards)
  | _, .listPortForwards, _, .fails e _, s => some (s, .error e)
  | _, .uuid, t, .text id, s => if s.unused id then some (s.draw t id, id) else none
  | _, .sshPortForward _ _ _, _, .done, s => some (s, .ok ())
  | _, .sshPortForward _ _ _, _, .fails e _, s => some (s, .error e)
  | _, .exited id, _, .done, s => some (s, decide (id ∈ s.dead))
  | _, .insertPortForward pf, t, .done, s =>
    if pf.id ∈ s.rowIds then some (s, .error (.other "UNIQUE constraint failed: port_forwards.id"))
    else some (s.insertRow t pf, .ok ())
  | _, .insertPortForward pf, t, .fails e executed, s =>
    some (if executed ∧ pf.id ∉ s.rowIds then s.insertRow t pf else s, .error e)
  | _, .add entry, t, .done, s => some (s.addEntry t entry, ())
  | _, .remove id registered, t, .done, s =>
    if registered then some (s.removeEntry t id, s.entries.find? fun e => e.id = id) else some (s, none)
  | _, .stop id, _, .done, s => some (s.kill id, .ok ())
  | _, .stop id, _, .fails e executed, s => some (if executed then s.kill id else s, .error e)
  | _, .deletePortForward id, t, .done, s => some (s.deleteRow t id, .ok ())
  | _, .deletePortForward id, t, .fails e executed, s => some (if executed then s.deleteRow t id else s, .error e)
  | _, .invalidate, _, .done, s => some (s, .ok ())
  | _, .invalidate, _, .fails e _, s => some (s, .error e)
  | _, .allocatePorts _, _, .ports remotePort localPort, s => some (s, .ok (remotePort, localPort))
  | _, .allocatePorts _, _, .fails e _, s => some (s, .error e)
  | _, .startJob _, _, .job id failed, s => some (s, .ok (id, failed))
  | _, .startJob _, _, .fails e _, s => some (s, .error e)
  | _, .stopJob _, _, .job _ stopped, s => some (s, .ok stopped)
  | _, .stopJob _, _, .fails e _, s => some (s, .error e)
  | _, .waitUntilReady _ _, _, .done, s => some (s, .ok ())
  | _, .waitUntilReady _ _, _, .fails e _, s => some (s, .error e)
  | _, .getMarimoSession sessionId, _, .done, s =>
    let session := s.marimoSessions.find? fun m => m.id = sessionId
    some ({ s with seen := (session.map (·.tunnelId)).toList ++ s.seen }, .ok session)
  | _, .getMarimoSession _, _, .fails e _, s => some (s, .error e)
  | _, .insertMarimoSession session, _, .done, s =>
    some ({ s with marimoSessions := s.marimoSessions ++ [session] }, .ok ())
  | _, .insertMarimoSession session, _, .fails e executed, s =>
    some (if executed then { s with marimoSessions := s.marimoSessions ++ [session] } else s, .error e)
  | _, .deleteMarimoSession sessionId, _, .done, s =>
    some ({ s with marimoSessions := s.marimoSessions.filter fun m => m.id ≠ sessionId }, .ok ())
  | _, .deleteMarimoSession sessionId, _, .fails e executed, s =>
    some (if executed then { s with marimoSessions := s.marimoSessions.filter fun m => m.id ≠ sessionId } else s,
      .error e)
  | _, .reapDead, _, .done, s => some (s.reap, ())
  | _, .exits id, _, .done, s => some (s.kill id, ())
  | _, _, _, _, _ => none

def tunnelInterp : Interp TunnelCall TunnelWorld TunnelAnswer := ⟨tunnelHandle⟩

abbrev TunnelPool := Pool TunnelCall Empty TunnelError Unit TunnelWorld

abbrev TunnelEvent := Event TunnelCall Empty TunnelError Unit TunnelAnswer

/-- What runs in the control process: requests, ticks of the reaper, and exits of processes. -/
inductive Operation : TunnelM Unit → Prop where
  | tunnelsCreate (workerId : String) (localPort remotePort : ℕ) :
    Operation (tunnelsCreate workerId localPort remotePort)
  | tunnelsDelete (tunnelId : String) : Operation (tunnelsDelete tunnelId)
  | marimoCreate (workerId : String) (readyTimeout : ℕ) : Operation (marimoCreate workerId readyTimeout)
  | marimoDelete (sessionId : String) : Operation (marimoDelete sessionId)
  | reapOnce : Operation reapOnce
  | exits (id : String) : Operation (Prog.call (.exits id))

/-- Any operation starts at any time, and awaits answer anything. -/
def Operates : TunnelPool → TunnelEvent → Prop
  | _, .spawn p => Operation p
  | _, .go _ _ => True
  | _, _ => False

end WorkerHarness.Tunnels
