import WorkerHarness.SessionTokens

/-!
# Which sessions count as live

The lookups of managers and orchestrators, the check of a task's parent and the lookup endpoint
take a session for live unless it is stopped or failed. The session's own token is refused in a
third state too, and after its hash was cleared. Both kinds of tests agree as long as no bridge
reports that third state and none speaks up again after its session was swept or finished.
-/

namespace WorkerHarness

open Database SessionRows SessionTokens

namespace PiSessionState

/-- `_TERMINAL_PM_STATES`. -/
def terminalPm : PiSessionState → Bool
  | .stopped | .failed => true
  | _ => false

end PiSessionState

namespace LiveSessions

/-- `for session in sessions: if session.state not in _TERMINAL_PM_STATES`. -/
def firstLive (sessions : List PiSession) : Option PiSession := sessions.find? fun s => !s.state.terminalPm

def projectSessions (d : Tables) (project : String) : List PiSession :=
  (sessionsByRole d "pm").filter fun s => s.project = some (.str project)

/-- One round of `_wait_for_bridge`: the session whose bridge has registered. -/
def arrived (d : Tables) (sessionId : String) : Option PiSession :=
  (findSession d sessionId).filter fun current =>
    !current.state.terminalPm && current.bridgeIncarnation.isSome && decide (current.bridgeIncarnation ≠ some "")

/-- `_ensure_pm` and `_ensure_orchestrator` return the session as the existing live one, at once or
from the wait for its bridge. -/
def Returned (d : Tables) (sessions : List PiSession) (s : PiSession) : Prop :=
  firstLive sessions = some s ∧ s.state ≠ .starting ∨ s ∈ sessions ∧ arrived d s.id = some s

/-- `_launch_task` accepts the session as the parent of a task of the project. -/
def acceptsParent (d : Tables) (project parentSessionId : String) : Option PiSession :=
  (findSession d parentSessionId).filter fun parent =>
    decide (parent.role = "pm") && decide (parent.project = some (.str project)) && !parent.state.terminalPm

/-- `GET /api/v1/pi/orchestrator`. -/
def orchestratorGet (d : Tables) : Except HTTPException PiSession :=
  match (sessionsByRole d "orchestrator").find? fun s => decide (s.state ≠ .stopped) &&
    decide (s.state ≠ .failed) with
  | some s => .ok s
  | none => .error ⟨404, "no live orchestrator session"⟩

inductive TakenForLive (d : Tables) (s : PiSession) : Prop where
  | manager (project : String) : Returned d (projectSessions d project) s → TakenForLive d s
  | orchestrator : Returned d (sessionsByRole d "orchestrator") s → TakenForLive d s
  | parent (project : String) : acceptsParent d project s.id = some s → TakenForLive d s
  | lookup : orchestratorGet d = .ok s → TakenForLive d s

variable {d : Tables} {s : PiSession}

def manages (s : PiSession) : Bool := decide (s.role = "pm") || decide (s.role = "orchestrator")

theorem mem_sessionsByRole {role : String} : s ∈ sessionsByRole d role ↔ s ∈ d.sessions ∧ s.role = role := by
  simp [sessionsByRole]

theorem firstLive_eq_some {sessions : List PiSession} (h : firstLive sessions = some s) :
    s ∈ sessions ∧ s.state.terminalPm = false := by
  have hlive := List.find?_some h
  exact ⟨List.mem_of_find?_eq_some h, by simpa using hlive⟩

theorem arrived_eq_some {sessionId : String} (h : arrived d sessionId = some s) : s.state.terminalPm = false := by
  obtain ⟨-, hlive⟩ := Option.filter_eq_some_iff.mp h
  simp only [Bool.and_eq_true, Bool.not_eq_true'] at hlive
  exact hlive.1.1

/-- What all four tests have in common. -/
theorem TakenForLive.spec (h : TakenForLive d s) : s ∈ d.sessions ∧ manages s = true ∧
    s.state.terminalPm = false := by
  have hreturned : ∀ sessions : List PiSession, (∀ a ∈ sessions, a ∈ d.sessions ∧ manages a = true) →
      Returned d sessions s → s ∈ d.sessions ∧ manages s = true ∧ s.state.terminalPm = false := by
    rintro sessions hsessions (⟨hfirst, -⟩ | ⟨hmem, harrived⟩)
    · obtain ⟨hmem, hlive⟩ := firstLive_eq_some hfirst
      exact ⟨(hsessions s hmem).1, (hsessions s hmem).2, hlive⟩
    · exact ⟨(hsessions s hmem).1, (hsessions s hmem).2, arrived_eq_some harrived⟩
  cases h with
  | manager project hs =>
    refine hreturned _ (fun a ha => ?_) hs
    obtain ⟨hmem, hrole⟩ := mem_sessionsByRole.mp (List.mem_filter.mp ha).1
    exact ⟨hmem, by simp [manages, hrole]⟩
  | orchestrator hs =>
    refine hreturned _ (fun a ha => ?_) hs
    obtain ⟨hmem, hrole⟩ := mem_sessionsByRole.mp ha
    exact ⟨hmem, by simp [manages, hrole]⟩
  | parent project hs =>
    obtain ⟨hfind, hparent⟩ := Option.filter_eq_some_iff.mp hs
    simp only [Bool.and_eq_true, decide_eq_true_eq, Bool.not_eq_true'] at hparent
    exact ⟨List.mem_of_find?_eq_some hfind, by simp [manages, hparent.1.1], hparent.2⟩
  | lookup hs =>
    unfold orchestratorGet at hs
    split at hs
    · next a hfind =>
      cases hs
      obtain ⟨hmem, hrole⟩ := mem_sessionsByRole.mp (List.mem_of_find?_eq_some hfind)
      have hlive := List.find?_some hfind
      refine ⟨hmem, by simp [manages, hrole], ?_⟩
      cases hst : s.state <;> simp [hst, PiSessionState.terminalPm] at hlive ⊢
    · cases hs

/-- The database and the own token of every launched session. -/
structure Fleet where
  db : Tables := {}
  token : List (String × String) := []

inductive FleetRun (app : AppState) (ok : Tables → SessionOp → Prop) : Fleet → Prop where
  | init (d : Tables) (h : d.sessions = []) : FleetRun app ok { db := d }
  | launch {m : Fleet} {session : PiSession} {token : String} : FleetRun app ok m → session.state = .starting →
      session.tokenHash = app.sha256 token → session.id ∉ m.db.sessions.map (·.id) → app.sha256 token ≠ "" →
        (∀ t ∈ m.token, app.sha256 t.2 ≠ app.sha256 token) → token ≠ app.operatorToken →
          FleetRun app ok { db := (SessionOp.insert session).run m.db, token := (session.id, token) :: m.token }
  | step {m : Fleet} {op : SessionOp} : FleetRun app ok m → (∀ session, op ≠ .insert session) → FinishesEnded op →
      ok m.db op → FleetRun app ok { m with db := op.run m.db }

def claimRoles : List String := ["operator", "orchestrator", "pm", "task"]

def TestsAgree (app : AppState) (ok : Tables → SessionOp → Prop) : Prop :=
  ∀ m, FleetRun app ok m → ∀ s, TakenForLive m.db s →
    ∃ token, (s.id, token) ∈ m.token ∧ requireRole app claimRoles (.bearer token) m.db = .ok (some s)

/-- No bridge of a manager or orchestrator reports `TERMINATION_UNKNOWN`, and none registers again or
reports a live state after its session was swept or finished, which clears the token hash. -/
def KeepsTokens (d : Tables) (op : SessionOp) : Prop :=
  ∀ s ∈ d.sessions, manages s = true → match op with
    | .register payload _ _ => s.id = payload.sessionId → s.tokenHash ≠ ""
    | .events sessionId payload _ _ => s.id = sessionId → s.bridgeIncarnation = some payload.incarnation →
        payload.state ≠ some .terminationUnknown ∧
          (s.tokenHash = "" → ∀ state, payload.state = some state → state.terminalPm = true)
    | _ => True

def HasToken (app : AppState) (tokens : List (String × String)) (s : PiSession) : Prop :=
  s.tokenHash = "" ∨ ∃ token, (s.id, token) ∈ tokens ∧ s.tokenHash = app.sha256 token

/-- A manager or orchestrator is not in the third state, and without a hash it is stopped or failed. -/
def TokenMatches (s : PiSession) : Prop :=
  manages s = true → s.state ≠ .terminationUnknown ∧ (s.tokenHash = "" → s.state.terminalPm = true)

variable {app : AppState} {op : SessionOp} {s' : PiSession}

theorem RowStep.role_eq (h : RowStep d op s s') : s'.role = s.role := by
  cases h with
  | @registered payload now =>
    unfold registeredRow
    dsimp only
    split <;> rfl
  | _ => rfl

/-- A token hash stays or is cleared. -/
theorem RowStep.tokenHash_eq (h : RowStep d op s s') : s'.tokenHash = s.tokenHash ∨ s'.tokenHash = "" := by
  cases h with
  | @registered payload now =>
    refine .inl ?_
    unfold registeredRow
    dsimp only
    split <;> rfl
  | stale => exact .inr rfl
  | finished => exact .inr rfl
  | _ => exact .inl rfl

theorem TokenMatches.step (h : RowStep d op s s') (hs : s ∈ d.sessions) (hop : FinishesEnded op)
    (hok : KeepsTokens d op)
    (hm : TokenMatches s) : TokenMatches s' := by
  intro hmanages
  have hmanages' : manages s = true := by
    rw [manages, ← RowStep.role_eq h]
    exact hmanages
  obtain ⟨hunknown, hhash⟩ := hm hmanages'
  have hsame := hok s hs hmanages'
  cases h with
  | same => exact ⟨hunknown, hhash⟩
  | @registered payload now uuid _ hid =>
    have hstate := registeredRow_some_state (s := s) payload now
    have hkept : (registeredRow payload now (some s)).tokenHash = s.tokenHash := by
      unfold registeredRow
      dsimp only
      split <;> rfl
    rw [hstate, hkept]
    refine ⟨?_, fun he => absurd he (hsame hid)⟩
    split <;> simp
  | @reported payload now uuid _ persisted hi =>
    obtain ⟨hreport, hcleared⟩ := hsame rfl hi
    simp only [PiSession.reported, batchedSession]
    cases hp : payload.state with
    | none => exact ⟨hunknown, hhash⟩
    | some state =>
      simp only [hp] at hreport hcleared ⊢
      split
      · exact ⟨fun he => hreport (congrArg some he), fun he => hcleared he state rfl⟩
      · exact ⟨hunknown, hhash⟩
  | blocked hterm =>
    refine ⟨by simp [PiSession.blocked], fun he => ?_⟩
    have hlive := hhash he
    cases hst : s.state <;> simp [hst, PiSessionState.terminal, PiSessionState.terminalPm] at hterm hlive
  | notified => exact ⟨hunknown, hhash⟩
  | answered _ ha =>
    refine ⟨by simp [PiSession.answered], fun he => ?_⟩
    have hlive := hhash he
    rw [ha.2.2] at hlive
    cases hlive
  | stale => exact ⟨by simp [PiSession.stale], fun _ => rfl⟩
  | finished => rcases hop with rfl | rfl <;> exact ⟨by simp [PiSession.finished], fun _ => rfl⟩
  | reparented => exact ⟨hunknown, hhash⟩
  | patched => exact ⟨hunknown, hhash⟩
  | nextPane => exact ⟨hunknown, hhash⟩

structure FleetInv (app : AppState) (m : Fleet) : Prop where
  nodup : (m.db.sessions.map (·.id)).Nodup
  known : ∀ t ∈ m.token, t.1 ∈ m.db.sessions.map (·.id)
  single : ∀ t ∈ m.token, ∀ t' ∈ m.token, t.1 = t'.1 → t = t'
  distinct : ∀ t ∈ m.token, ∀ t' ∈ m.token, app.sha256 t.2 = app.sha256 t'.2 → t = t'
  digest : ∀ t ∈ m.token, app.sha256 t.2 ≠ "" ∧ t.2 ≠ app.operatorToken
  hashes : ∀ s ∈ m.db.sessions, HasToken app m.token s
  launched : ∀ s ∈ m.db.sessions, manages s = true → ∃ token, (s.id, token) ∈ m.token

theorem registeredRow_none_role (payload : PiBridgeRegister) (now : ℕ) :
    (registeredRow payload now none).role = "" := by
  unfold registeredRow
  dsimp only
  split <;> rfl

theorem registeredRow_none_tokenHash (payload : PiBridgeRegister) (now : ℕ) :
    (registeredRow payload now none).tokenHash = "" := by
  unfold registeredRow
  dsimp only
  split <;> rfl

theorem FleetInv.step {m : Fleet} (h : FleetInv app m) (hop : ∀ session, op ≠ .insert session) :
    FleetInv app { m with db := op.run m.db } := by
  refine ⟨sessions_nodup_run h.nodup op, fun t ht => ids_subset_run h.nodup op (h.known t ht), h.single, h.distinct,
    h.digest, fun s' hs' => ?_, fun s' hs' hmanages => ?_⟩
  · rcases mem_run h.nodup hs' with ⟨s, hs, hstep⟩ | ⟨hnew, -⟩
    · rcases RowStep.tokenHash_eq hstep with hhash | hhash
      · rw [HasToken, hhash, hstep.id_eq]
        exact h.hashes s hs
      · exact .inl hhash
    · cases hnew with
      | inserted => exact absurd rfl (hop s')
      | registered payload now => exact .inl (registeredRow_none_tokenHash payload now)
  · rcases mem_run h.nodup hs' with ⟨s, hs, hstep⟩ | ⟨hnew, -⟩
    · rw [hstep.id_eq]
      refine h.launched s hs ?_
      rw [manages, ← RowStep.role_eq hstep]
      exact hmanages
    · cases hnew with
      | inserted => exact absurd rfl (hop s')
      | registered payload now =>
        rw [manages, registeredRow_none_role] at hmanages
        cases hmanages

/-- The rows after a launch. -/
theorem mem_run_insert {session : PiSession} (h : (d.sessions.map (·.id)).Nodup)
    (hs' : s' ∈ ((SessionOp.insert session).run d).sessions) : s' ∈ d.sessions ∨ s' = session := by
  rcases mem_run h hs' with ⟨s, hs, hstep⟩ | ⟨hnew, -⟩
  · generalize hop : SessionOp.insert session = op at hstep
    cases hstep with
    | same => exact .inl hs
    | _ => cases hop
  · cases hnew
    exact .inr rfl

theorem FleetInv.launch {m : Fleet} (h : FleetInv app m) {session : PiSession} {token : String}
    (hhash : session.tokenHash = app.sha256 token) (hnew : session.id ∉ m.db.sessions.map (·.id))
    (hdigest : app.sha256 token ≠ "") (hfresh : ∀ t ∈ m.token, app.sha256 t.2 ≠ app.sha256 token)
    (hoperator : token ≠ app.operatorToken) :
    FleetInv app { db := (SessionOp.insert session).run m.db, token := (session.id, token) :: m.token } := by
  have hadded : session ∈ ((SessionOp.insert session).run m.db).sessions := by
    have hany : ¬m.db.sessions.any (fun s => s.id = session.id) = true := by simpa using hnew
    simp [SessionOp.run, atomically_insertPiSession, hany]
  refine ⟨sessions_nodup_run h.nodup _, fun t ht => ?_, fun t ht t' ht' he => ?_, fun t ht t' ht' he => ?_,
    fun t ht => ?_, fun s' hs' => ?_, fun s' hs' hmanages => ?_⟩
  · rcases List.mem_cons.mp ht with rfl | ht
    · exact List.mem_map_of_mem hadded
    · exact ids_subset_run h.nodup _ (h.known t ht)
  · rcases List.mem_cons.mp ht with rfl | ht <;> rcases List.mem_cons.mp ht' with rfl | ht'
    · rfl
    · have hid : session.id = t'.1 := he
      exact absurd (hid ▸ h.known t' ht') hnew
    · have hid : t.1 = session.id := he
      exact absurd (hid ▸ h.known t ht) hnew
    · exact h.single t ht t' ht' he
  · rcases List.mem_cons.mp ht with rfl | ht <;> rcases List.mem_cons.mp ht' with rfl | ht'
    · rfl
    · exact absurd he.symm (hfresh t' ht')
    · exact absurd he (hfresh t ht)
    · exact h.distinct t ht t' ht' he
  · rcases List.mem_cons.mp ht with rfl | ht
    · exact ⟨hdigest, hoperator⟩
    · exact h.digest t ht
  · rcases mem_run_insert h.nodup hs' with hs | rfl
    · rcases h.hashes s' hs with hempty | ⟨token', hmem, heq⟩
      · exact .inl hempty
      · exact .inr ⟨token', List.mem_cons_of_mem _ hmem, heq⟩
    · exact .inr ⟨token, List.mem_cons_self, hhash⟩
  · rcases mem_run_insert h.nodup hs' with hs | rfl
    · obtain ⟨token', hmem⟩ := h.launched s' hs hmanages
      exact ⟨token', List.mem_cons_of_mem _ hmem⟩
    · exact ⟨token, List.mem_cons_self⟩

theorem FleetRun.inv {ok : Tables → SessionOp → Prop} {m : Fleet} (h : FleetRun app ok m) : FleetInv app m := by
  induction h with
  | init d h => exact ⟨by simp [h], by simp, by simp, by simp, by simp, by simp [h], by simp [h]⟩
  | launch _ _ hhash hnew hdigest hfresh hoperator ih => exact ih.launch hhash hnew hdigest hfresh hoperator
  | step _ hop _ _ ih => exact ih.step hop

/-- The own token of a live session is accepted exactly when the session is not in the third state and
its hash has not been cleared. -/
theorem FleetInv.accepted_iff {m : Fleet} (h : FleetInv app m) (hs : s ∈ m.db.sessions)
    (hmanages : manages s = true)
    (hlive : s.state.terminalPm = false) {token : String} (htoken : (s.id, token) ∈ m.token) :
    requireRole app claimRoles (.bearer token) m.db = .ok (some s) ↔
      s.state ≠ .terminationUnknown ∧ s.tokenHash ≠ "" := by
  have hterminal : s.state.terminal = true ↔ s.state = .terminationUnknown := by
    cases hst : s.state <;> simp [hst, PiSessionState.terminal, PiSessionState.terminalPm] at hlive ⊢
  have hrole : s.role ∈ claimRoles := by
    simp only [manages, Bool.or_eq_true, decide_eq_true_eq] at hmanages
    rcases hmanages with hr | hr <;> simp [claimRoles, hr]
  have hnot : ¬(app.operatorToken ≠ "" ∧ token = app.operatorToken) := fun ho => (h.digest _ htoken).2 ho.2
  rw [requireRole, if_neg hnot]
  by_cases hempty : s.tokenHash = ""
  · -- Nobody else has the hash of this token.
    have hnone : (m.db.sessions.find? fun a => a.tokenHash = app.sha256 token) = none := by
      rw [List.find?_eq_none]
      intro a ha hhash
      rw [decide_eq_true_eq] at hhash
      rcases h.hashes a ha with he | ⟨token', hmem, he⟩
      · exact (h.digest _ htoken).1 (hhash.symm.trans he)
      · have heq := h.distinct _ hmem _ htoken (he.symm.trans hhash)
        rw [Prod.mk.injEq] at heq
        have hsame := eq_of_session_id h.nodup ha hs heq.1
        exact (h.digest _ htoken).1 (hhash.symm.trans (hsame ▸ hempty))
    simp [hnone, hempty]
  · obtain ⟨token', hmem, hown⟩ := (h.hashes s hs).resolve_left hempty
    have hsame := h.single _ hmem _ htoken rfl
    rw [Prod.mk.injEq] at hsame
    rw [hsame.2] at hown
    obtain ⟨a, hfind⟩ : ∃ a, (m.db.sessions.find? fun a => a.tokenHash = app.sha256 token) = some a := by
      rw [← Option.isSome_iff_exists, List.find?_isSome]
      exact ⟨s, hs, decide_eq_true hown⟩
    have hhash : a.tokenHash = app.sha256 token := by
      have hdecide := List.find?_some hfind
      exact of_decide_eq_true hdecide
    have ha := List.mem_of_find?_eq_some hfind
    obtain ⟨token'', hmem'', he⟩ := (h.hashes a ha).resolve_left fun he =>
      (h.digest _ htoken).1 (hhash.symm.trans he)
    have heq := h.distinct _ hmem'' _ htoken (he.symm.trans hhash)
    rw [Prod.mk.injEq] at heq
    obtain rfl := eq_of_session_id h.nodup ha hs heq.1
    by_cases hunknown : a.state = .terminationUnknown
    · simp [hfind, PiSessionState.terminal, hunknown]
    · have hactive : ¬a.state.terminal = true := fun ht => hunknown (hterminal.mp ht)
      simp [hfind, hactive, hrole, hunknown, hempty]

theorem matches_launch {m : Fleet} (h : FleetInv app m) {session : PiSession} {token : String}
    (hstate : session.state = .starting) (hhash : session.tokenHash = app.sha256 token)
    (hdigest : app.sha256 token ≠ "")
    (hm : ∀ s ∈ m.db.sessions, TokenMatches s) :
    ∀ s ∈ ((SessionOp.insert session).run m.db).sessions, TokenMatches s := by
  intro s' hs'
  rcases mem_run_insert h.nodup hs' with hs | rfl
  · exact hm s' hs
  · exact fun _ => ⟨by simp [hstate], fun he => absurd (hhash.symm.trans he) hdigest⟩

theorem FleetRun.matches {m : Fleet} (h : FleetRun app KeepsTokens m) : ∀ s ∈ m.db.sessions, TokenMatches s := by
  induction h with
  | init d h => simp [h]
  | launch h hstate hhash _ hdigest _ _ ih => exact matches_launch h.inv hstate hhash hdigest ih
  | step h hop hfinish hok ih =>
    intro s' hs'
    rcases mem_run h.inv.nodup hs' with ⟨s, hs, hstep⟩ | ⟨hnew, -⟩
    · exact (ih s hs).step hstep hs hfinish hok
    · cases hnew with
      | inserted => exact absurd rfl (hop s')
      | registered payload now =>
        intro hmanages
        rw [manages, registeredRow_none_role] at hmanages
        cases hmanages

/-- In every run that keeps the tokens, a session that one of the four places takes for live is accepted
with its own token. -/
theorem live_sessions_accepted (app : AppState) : TestsAgree app KeepsTokens := by
  intro m h s hs
  obtain ⟨hmem, hmanages, hlive⟩ := hs.spec
  obtain ⟨token, htoken⟩ := h.inv.launched s hmem hmanages
  obtain ⟨hunknown, hhash⟩ := h.matches s hmem hmanages
  refine ⟨token, htoken, (h.inv.accepted_iff hmem hmanages hlive htoken).mpr ⟨hunknown, fun he => ?_⟩⟩
  rw [hhash he] at hlive
  cases hlive

/-- A manager of a project, as it is launched with the token `secret`. -/
def secretManager : PiSession where
  id := "m"
  role := "pm"
  state := .starting
  tokenHash := secretApp.sha256 "secret"
  metaData := [("project", .str "p")]

def reportingManager (state : PiSessionState) : Fleet where
  db := (SessionOp.events "m" { incarnation := "A", state := some state } 12 fun _ => "e").run
    ((SessionOp.register { sessionId := "m", incarnation := "A", incarnation_ne := incarnation_ne_A }
      11 fun _ => "e").run
      ((SessionOp.insert secretManager).run {}))
  token := [("m", "secret")]

theorem reportingManager_run {ok : Tables → SessionOp → Prop} (state : PiSessionState)
    (hregister : ok ((SessionOp.insert secretManager).run {})
      (.register { sessionId := "m", incarnation := "A" } 11 fun _ => "e"))
    (hevents : ok ((SessionOp.register { sessionId := "m", incarnation := "A" } 11 fun _ => "e").run
      ((SessionOp.insert secretManager).run {})) (.events "m"
        { incarnation := "A", state := some state } 12 fun _ => "e")) :
    FleetRun secretApp ok (reportingManager state) := by
  have hlaunch : FleetRun secretApp ok
    { db := (SessionOp.insert secretManager).run {}, token := [("m", "secret")] } :=
    .launch (.init {} rfl) rfl rfl (by decide) (by decide) (by simp) (by decide)
  have hregistered := FleetRun.step hlaunch (fun _ he => by cases he) (by trivial) hregister
  exact .step hregistered (fun _ he => by cases he) (by trivial) hevents

theorem live_sessions_accepted_workingManager : ∃ s, s.id = "m" ∧
    requireRole secretApp claimRoles (.bearer "secret") (reportingManager .working).db = .ok (some s) := by
  have hrun : FleetRun secretApp KeepsTokens (reportingManager .working) := by
    refine reportingManager_run .working ?_ ?_
    · intro s hs _ _
      revert s
      decide
    · intro s hs _ _ _
      refine ⟨by simp, fun he => ?_⟩
      revert s
      decide
  obtain ⟨s, hs⟩ : ∃ s, acceptsParent (reportingManager .working).db "p" "m" = some s := ⟨_, rfl⟩
  have hid : s.id = "m" := by
    have hfind := (Option.filter_eq_some_iff.mp hs).1
    exact findSession_id hfind
  obtain ⟨token, htoken, haccepted⟩ := live_sessions_accepted secretApp _ hrun s (.parent "p" (hid ▸ hs))
  have heq : s.id = "m" ∧ token = "secret" := by simpa [reportingManager] using htoken
  exact ⟨s, hid, heq.2 ▸ haccepted⟩

/-- A manager that reports `TERMINATION_UNKNOWN` is still the live manager of its project, and its token
is refused. -/
theorem unknown_termination_taken_for_live : ¬TestsAgree secretApp fun _ _ => True := by
  intro h
  have hrun := h _ (reportingManager_run .terminationUnknown trivial trivial)
  obtain ⟨s, hs⟩ : ∃ s, acceptsParent (reportingManager .terminationUnknown).db "p" "m" = some s := ⟨_, rfl⟩
  have hid : s.id = "m" := by
    have hfind := (Option.filter_eq_some_iff.mp hs).1
    exact findSession_id hfind
  obtain ⟨token, htoken, haccepted⟩ := hrun s (.parent "p" (hid ▸ hs))
  have heq : s.id = "m" ∧ token = "secret" := by simpa [reportingManager] using htoken
  have hrefused : requireRole secretApp claimRoles (.bearer "secret") (reportingManager .terminationUnknown).db =
      .error ⟨401, "session token is no longer active"⟩ := by decide
  rw [heq.2, hrefused] at haccepted
  cases haccepted

end LiveSessions

end WorkerHarness
