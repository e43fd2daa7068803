import WorkerHarness.SessionRows

/-!
# Session tokens and the end of sessions

Every request first resolves its bearer token to a caller and then, at some later time, calls
the database. A finish clears the token of its session, so that no later request can be
resolved to it; requests that were resolved before are left to the database calls. All of
them refuse an ended session, except the registration of a bridge.
-/

namespace WorkerHarness

open Database

/-- The `Authorization` header of a request, parsed. -/
inductive Authorization where
  | absent
  | invalid
  | bearer (token : String)
  deriving DecidableEq, Repr

structure HTTPException where
  statusCode : ℕ
  detail : String
  deriving DecidableEq, Repr

/-- What the control server knows besides its database. -/
structure AppState where
  operatorToken : String := ""
  hasMachines : Bool := true
  sha256 : String → String

/-- `require_role`: the caller of a request, `none` for the operator. -/
def requireRole (app : AppState) (allowed : List String) (authorization : Authorization) (d : Tables) :
    Except HTTPException (Option PiSession) :=
  match authorization with
  | .absent =>
    if app.operatorToken ≠ "" ∨ app.hasMachines then .error ⟨401, "operator or session bearer token required"⟩
    else if "operator" ∈ allowed then .ok none
    else .error ⟨403, "operator is not allowed"⟩
  | .invalid => .error ⟨401, "invalid bearer token"⟩
  | .bearer token =>
    if app.operatorToken ≠ "" ∧ token = app.operatorToken then
      if "operator" ∈ allowed then .ok none else .error ⟨403, "operator is not allowed"⟩
    else
      match d.sessions.find? fun s => s.tokenHash = app.sha256 token with
      | none => .error ⟨401, "invalid bearer token"⟩
      | some caller =>
        if caller.state.terminal then .error ⟨401, "session token is no longer active"⟩
        else if caller.role ∉ allowed then .error ⟨403, "caller role is not allowed"⟩
        else .ok (some caller)

namespace SessionTokens

open SessionRows

/-- A request of a bridge or of a task that asks, with the arguments of its database call. -/
inductive Request where
  | register (payload : PiBridgeRegister) (now : ℕ) (uuid : ℕ → String)
  | events (sessionId : String) (payload : PiBridgeEventBatch) (now : ℕ) (uuid : ℕ → String)
  | claim (sessionId incarnation : String) (now leaseSeconds : ℕ)
  | ack (sessionId commandId incarnation : String) (now : ℕ)
  | askPm (sessionId question uuid : String) (now : ℕ)

namespace Request

def sessionId : Request → String
  | .register payload _ _ => payload.sessionId
  | .events sessionId _ _ _ => sessionId
  | .claim sessionId _ _ _ => sessionId
  | .ack sessionId _ _ _ => sessionId
  | .askPm sessionId _ _ _ => sessionId

def allowed : Request → List String
  | .askPm _ _ _ _ => ["task"]
  | _ => ["operator", "orchestrator", "pm", "task"]

def op : Request → SessionOp
  | .register payload now uuid => .register payload now uuid
  | .events sessionId payload now uuid => .events sessionId payload now uuid
  | .claim sessionId incarnation now leaseSeconds => .claim sessionId incarnation now leaseSeconds
  | .ack sessionId commandId incarnation now => .ack sessionId commandId incarnation now
  | .askPm sessionId question uuid now => .block sessionId question uuid now

/-- The refusal of a caller that speaks for another session. -/
def mismatch : Request → String
  | .askPm _ _ _ _ => "task may only block its own session"
  | _ => "session token does not match bridge session"

/-- Resolve the caller; a session may only speak for itself. -/
def authenticate (app : AppState) (request : Request) (token : String) (d : Tables) :
    Except HTTPException (Option PiSession) :=
  match requireRole app request.allowed (.bearer token) d with
  | .error e => .error e
  | .ok none => .ok none
  | .ok (some caller) =>
    if caller.id ≠ request.sessionId then .error ⟨403, request.mismatch⟩
    else .ok (some caller)

end Request

/-- The database, the requests that have been authenticated with the token of their session and
wait for their database call, and the sessions that a finish has ended. -/
structure Control where
  db : Tables := {}
  pending : List Request := []
  finished : List String := []

namespace Control

/-- A finish of an existing session, with `STOPPED` or `FAILED`. -/
def finish (m : Control) (sessionId : String) (state : PiSessionState) (detail : String) (now : ℕ) : Control :=
  { m with
    db := (SessionOp.finish sessionId state detail now).run m.db
    finished := if m.db.sessions.any (fun s => s.id = sessionId) then sessionId :: m.finished else m.finished }

/-- The database call of a pending request. A long poll claims again until it is dropped. -/
def perform (m : Control) (request : Request) (rest : List Request) : Control :=
  { m with
    db := request.op.run m.db
    pending := match request with
      | .claim _ _ _ _ => m.pending
      | _ => rest }

end Control

/-- Operations that no bridge and no asking task requests, other than finishes. -/
def Unrequested : SessionOp → Prop
  | .insert _ | .enqueue _ _ | .sweep _ _ _ | .reparent _ _ | .patch _ _ | .nextPane _ | .insertEvent _ => True
  | _ => False

/-- All interleavings of authentications, database calls, finishes and other operations. -/
inductive ControlRun (app : AppState) (ok : Control → Request → Prop) : Control → Prop where
  | init (d : Tables) (h : (d.sessions.map (·.id)).Nodup) : ControlRun app ok { db := d }
  | authenticate {m : Control} {request : Request} {token : String} {caller : PiSession} : ControlRun app ok m →
      request.authenticate app token m.db = .ok (some caller) →
        ControlRun app ok { m with pending := m.pending ++ [request] }
  | perform {m : Control} {request : Request} {before after : List Request} : ControlRun app ok m →
      m.pending = before ++ request :: after → ok m request →
        ControlRun app ok (m.perform request (before ++ after))
  | drop {m : Control} {request : Request} {before after : List Request} : ControlRun app ok m →
      m.pending = before ++ request :: after → ControlRun app ok { m with pending := before ++ after }
  | finish {m : Control} {sessionId : String} {state : PiSessionState} (detail : String) (now : ℕ) :
      ControlRun app ok m → state = .stopped ∨ state = .failed →
        ControlRun app ok (m.finish sessionId state detail now)
  | other {m : Control} {op : SessionOp} : ControlRun app ok m → Unrequested op →
      ControlRun app ok { m with db := op.run m.db }

def FinishesEnded : SessionOp → Prop
  | .finish _ state _ _ => state = .stopped ∨ state = .failed
  | _ => True

def Ended (s : PiSession) : Prop := (s.state = .stopped ∨ s.state = .failed) ∧ s.bridgeIncarnation = none

def Finality (app : AppState) (ok : Control → Request → Prop) : Prop :=
  ∀ m, ControlRun app ok m → ∀ s ∈ m.db.sessions, s.id ∈ m.finished → Ended s

def RegistersUnfinished (m : Control) (request : Request) : Prop :=
  ∀ payload now uuid, request = .register payload now uuid → payload.sessionId ∉ m.finished

variable {d : Tables} {op : SessionOp} {s s' : PiSession}

theorem Ended.terminal (h : Ended s) : s.state.terminal = true := by
  rcases h.1 with h | h <;> rw [h] <;> rfl

/-- Only a registration and a finish can change an ended row in its state or its bridge. -/
theorem Ended.step (h : RowStep d op s s') (hs : Ended s) (hregister : ∀ payload now uuid,
    op = .register payload now uuid → payload.sessionId ≠ s.id) (hfinish : FinishesEnded op) : Ended s' := by
  cases h with
  | same => exact hs
  | registered hid => exact absurd hid.symm (hregister _ _ _ rfl)
  | reported persisted hi => rw [hs.2] at hi; cases hi
  | blocked hterm => rw [hs.terminal] at hterm; cases hterm
  | notified => exact hs
  | answered hi => rw [hs.2] at hi; cases hi
  | stale => exact ⟨.inl rfl, hs.2⟩
  | finished => exact ⟨hfinish, rfl⟩
  | reparented => exact hs
  | patched => exact hs
  | nextPane => exact hs

structure ControlInv (m : Control) : Prop where
  nodup : (m.db.sessions.map (·.id)).Nodup
  known : ∀ id ∈ m.finished, id ∈ m.db.sessions.map (·.id)
  ended : ∀ s ∈ m.db.sessions, s.id ∈ m.finished → Ended s

theorem ids_subset_run (h : (d.sessions.map (·.id)).Nodup) (op : SessionOp) :
    d.sessions.map (·.id) ⊆ (op.run d).sessions.map (·.id) := by
  intro id hid
  obtain ⟨s, hs, rfl⟩ := List.mem_map.mp hid
  obtain ⟨s', hs', hstep⟩ := exists_run h op hs
  exact hstep.id_eq ▸ List.mem_map_of_mem hs'

/-- An operation that registers no finished session keeps the invariant. -/
theorem ControlInv.run {m : Control} (h : ControlInv m) (hop : FinishesEnded op)
    (hregister : ∀ payload now uuid, op = .register payload now uuid → payload.sessionId ∉ m.finished) :
    ControlInv { m with db := op.run m.db } := by
  refine ⟨sessions_nodup_run h.nodup op, fun id hid => ids_subset_run h.nodup op (h.known id hid),
    fun s' hs' hid => ?_⟩
  rcases mem_run h.nodup hs' with ⟨s, hs, hstep⟩ | ⟨-, hnew⟩
  · rw [hstep.id_eq] at hid
    refine (h.ended s hs hid).step hstep (fun payload now uuid he heq => ?_) hop
    exact hregister payload now uuid he (heq ▸ hid)
  · exact absurd (h.known _ hid) hnew

theorem ControlInv.finish {m : Control} (h : ControlInv m) {sessionId : String} {state : PiSessionState}
    (detail : String) (now : ℕ) (hstate : state = .stopped ∨ state = .failed) :
    ControlInv (m.finish sessionId state detail now) := by
  have hfinish : FinishesEnded (.finish sessionId state detail now) := hstate
  have hrun := h.run hfinish fun _ _ _ he => by cases he
  refine ⟨hrun.nodup, fun id hid => ?_, fun s' hs' hid => ?_⟩
  · simp only [Control.finish] at hid
    split at hid
    · next hany =>
      rcases List.mem_cons.mp hid with rfl | hid
      · obtain ⟨s, hs, hid⟩ := List.any_eq_true.mp hany
        exact ids_subset_run h.nodup _ (List.mem_map.mpr ⟨s, hs, of_decide_eq_true hid⟩)
      · exact hrun.known id hid
    · exact hrun.known id hid
  · by_cases hold : s'.id ∈ m.finished
    · exact hrun.ended s' hs' hold
    · -- The row is the one that is finished now.
      have hthis : s'.id = sessionId := by
        simp only [Control.finish] at hid
        split at hid
        · exact (List.mem_cons.mp hid).resolve_right hold
        · exact absurd hid hold
      have hrow : s' ∈ updateRows (fun s => s.id = sessionId)
        (PiSession.finished state detail now) m.db.sessions := by
        simpa [Control.finish, SessionOp.run, atomically_finishPiSession] using hs'
      obtain ⟨s, -, rfl⟩ := List.mem_map.mp hrow
      by_cases hid : s.id = sessionId
      · rw [if_pos (decide_eq_true hid)]
        exact ⟨hstate, rfl⟩
      · rw [if_neg (by simpa using hid)] at hthis
        exact absurd hthis hid

theorem ControlRun.inv {app : AppState} {m : Control} (h : ControlRun app RegistersUnfinished m) :
    ControlInv m := by
  induction h with
  | init d h => exact ⟨h, by simp, by simp⟩
  | authenticate _ _ ih => exact ⟨ih.nodup, ih.known, ih.ended⟩
  | @perform m request before after _ _ hok ih =>
    have hop : ControlInv { m with db := request.op.run m.db } := by
      cases request with
      | register payload now uuid =>
        exact ih.run trivial fun payload' now' uuid' he => hok payload' now' uuid' (by cases he; rfl)
      | _ => exact ih.run trivial fun _ _ _ he => by cases he
    exact ⟨hop.nodup, hop.known, hop.ended⟩
  | drop _ _ ih => exact ⟨ih.nodup, ih.known, ih.ended⟩
  | finish detail now _ hstate ih => exact ih.finish detail now hstate
  | @other m op _ hop ih =>
    refine ih.run ?_ fun payload now uuid he => ?_
    · cases op with
      | finish => exact hop.elim
      | _ => trivial
    · subst he
      exact hop.elim

/-- In every run in which no registration reaches the database after its session was finished,
finished sessions stay ended. -/
theorem finished_sessions_stay_ended (app : AppState) : Finality app RegistersUnfinished :=
  fun _ h s hs hid => h.inv.ended s hs hid

/-- A server whose sessions have the token `secret`. -/
def secretApp : AppState where
  sha256 token :=
    if token = "secret" then "2bb80d537b1da3e38bd30361aa855686bde0eacd7162fef6a25fe97bf527a25b" else "?" ++ token

def secretTask : Tables where
  sessions := [{ id := "t", role := "task", state := .starting, tokenHash := secretApp.sha256 "secret" }]

def taskRegisters : Request :=
  .register { sessionId := "t", incarnation := "A", incarnation_ne := incarnation_ne_A } 11 fun _ => "e"

def authenticatedTask : Control := { db := secretTask, pending := [taskRegisters] }

theorem authenticatedTask_run (ok : Control → Request → Prop) : ControlRun secretApp ok authenticatedTask := by
  have hinit : ControlRun secretApp ok { db := secretTask } := .init secretTask (by decide)
  have hauth : ∃ caller, taskRegisters.authenticate secretApp "secret" secretTask = .ok (some caller) :=
    ⟨_, rfl⟩
  obtain ⟨caller, hcaller⟩ := hauth
  exact .authenticate hinit hcaller

/-- The registration reaches the database before the launch is given up. -/
theorem finished_sessions_stay_ended_givenUp :
    ∃ s ∈ ((authenticatedTask.perform taskRegisters []).finish "t" .failed "timeout" 12).db.sessions,
      s.id = "t" ∧ Ended s := by
  have hrun : ControlRun secretApp RegistersUnfinished
      ((authenticatedTask.perform taskRegisters []).finish "t" .failed "timeout" 12) := by
    refine .finish "timeout" 12 (@ControlRun.perform _ _ _ _ [] [] (authenticatedTask_run _) rfl ?_) (.inr rfl)
    exact fun _ _ _ _ => List.not_mem_nil
  obtain ⟨s, hs, hid⟩ :
    ∃ s ∈ ((authenticatedTask.perform taskRegisters []).finish "t" .failed "timeout" 12).db.sessions,
      s.id = "t" := by decide
  have hfinished : "t" ∈ ((authenticatedTask.perform taskRegisters []).finish "t" .failed "timeout"
    12).finished := by
    decide
  exact ⟨s, hs, hid, finished_sessions_stay_ended secretApp _ hrun s hs (hid ▸ hfinished)⟩

/-- A registration that was authenticated before the launch was given up revives the session. -/
theorem late_registration_revives : ¬Finality secretApp fun _ _ => True := by
  intro h
  have hrun : ControlRun secretApp (fun _ _ => True)
      ((authenticatedTask.finish "t" .failed "timeout" 12).perform taskRegisters []) :=
    @ControlRun.perform _ _ _ _ [] [] (.finish "timeout" 12 (authenticatedTask_run _) (.inr rfl)) rfl trivial
  have hended := h _ hrun
  have hlive : ∃ s ∈ ((authenticatedTask.finish "t" .failed "timeout" 12).perform taskRegisters []).db.sessions,
      s.id ∈ ((authenticatedTask.finish "t" .failed "timeout" 12).perform taskRegisters []).finished ∧
        s.bridgeIncarnation = some "A" := by decide
  obtain ⟨s, hs, hid, hbridge⟩ := hlive
  rw [(hended s hs hid).2] at hbridge
  cases hbridge

end SessionTokens

end WorkerHarness
