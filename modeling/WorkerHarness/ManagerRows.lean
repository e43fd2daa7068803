import WorkerHarness.FleetRoutes

/-!
# The rows behind the orchestrator's locks

Each lock guards rows of the session table: the one of the orchestrator its sessions, the one of a
project its managers and tasks. Most calls of the orchestrator and all requests of bridges leave
these rows in place: no row is added, none changes its role, its project or its parent, and none
that has ended comes back to life. Only launches and re-parentings do otherwise.
-/

namespace WorkerHarness.ManagerRows

open Coroutines SharedTransactions Database SessionRows SessionStatements SessionTokens

theorem lookup_map_ne {o : JsonObject} {key other : String} {v : JsonValue} (h : other ≠ key) :
    (o.map fun m => if m.1 = key then (key, v) else m).lookup other = o.lookup other := by
  induction o with
  | nil => rfl
  | cons m o ih =>
    obtain ⟨k, x⟩ := m
    by_cases hk : k = key
    · subst hk
      have hne : (other == k) = false := beq_eq_false_iff_ne.mpr h
      simp [List.lookup_cons, hne, ih]
    · simp only [List.map_cons, if_neg hk, List.lookup_cons, ih]

theorem get_set_of_ne {o : JsonObject} {key other : String} {v : JsonValue} (h : other ≠ key) :
    (o.set key v).get other = o.get other := by
  unfold JsonObject.set JsonObject.get
  split
  · exact lookup_map_ne h
  · have hne : (other == key) = false := beq_eq_false_iff_ne.mpr h
    simp [List.lookup_append, List.lookup_cons, hne]

theorem lookup_map_self {o : JsonObject} {key : String} {v : JsonValue} (h : o.any (·.1 = key) = true) :
    (o.map fun m => if m.1 = key then (key, v) else m).lookup key = some v := by
  induction o with
  | nil => cases h
  | cons m o ih =>
    obtain ⟨k, x⟩ := m
    by_cases hk : k = key
    · subst hk
      simp
    · have hne : (key == k) = false := beq_eq_false_iff_ne.mpr fun h => hk h.symm
      simp only [List.any_cons, hk, decide_false, Bool.false_or] at h
      simp only [List.map_cons, if_neg hk, List.lookup_cons, hne]
      exact ih h

theorem get_set_self (o : JsonObject) (key : String) (v : JsonValue) : (o.set key v).get key = some v := by
  unfold JsonObject.set JsonObject.get
  split
  · next h => exact lookup_map_self h
  · next h =>
    have hnone : o.lookup key = none := by
      rw [List.lookup_eq_none_iff]
      intro m hm
      rw [bne_iff_ne]
      intro hkey
      exact h (List.any_eq_true.mpr ⟨m, hm, decide_eq_true hkey.symm⟩)
    simp [List.lookup_append, hnone]

theorem get_foldl_set {members : List (String × JsonValue)} {o : JsonObject} {other : String}
    (h : ∀ m ∈ members, other ≠ m.1) : (members.foldl (fun o m => o.set m.1 m.2) o).get other = o.get other := by
  induction members generalizing o with
  | nil => rfl
  | cons m members ih =>
    rw [List.foldl_cons, ih fun m' hm' => h m' (by simp [hm']), get_set_of_ne (h m (by simp))]

def live (s : PiSession) : Prop := s.state.terminalPm = false

def leads : FleetLock → PiSession → Prop
  | .orchestrator, s => s.role = "orchestrator"
  | .pm project, s => s.role = "pm" ∧ s.project = some (.str project)

def worksFor (project : String) (s : PiSession) : Prop := s.role = "task" ∧ s.project = some (.str project)

def guards : FleetLock → PiSession → Prop
  | .orchestrator, s => leads .orchestrator s
  | .pm project, s => leads (.pm project) s ∨ worksFor project s

/-- `s'` is the row `s` later on. -/
structure Continues (s s' : PiSession) : Prop where
  id : s'.id = s.id
  role : s'.role = s.role
  project : s'.project = s.project
  parent : s'.parentSessionId = s.parentSessionId
  live : live s' → live s

theorem Continues.refl (s : PiSession) : Continues s s := ⟨rfl, rfl, rfl, rfl, fun h => h⟩

theorem Continues.trans {s s' s'' : PiSession} (h : Continues s s') (h' : Continues s' s'') : Continues s s'' where
  id := h'.id.trans h.id
  role := h'.role.trans h.role
  project := h'.project.trans h.project
  parent := h'.parent.trans h.parent
  live hl := h.live (h'.live hl)

variable {l : FleetLock} {s s' : PiSession} {d d' : Tables} {op : SessionOp}

theorem leads_congr (hrole : s'.role = s.role) (hproject : s'.project = s.project) : leads l s' ↔ leads l s := by
  cases l <;> simp [leads, hrole, hproject]

theorem worksFor_congr {project : String} (hrole : s'.role = s.role) (hproject : s'.project = s.project) :
    worksFor project s' ↔ worksFor project s := by
  simp [worksFor, hrole, hproject]

theorem guards_congr (hrole : s'.role = s.role) (hproject : s'.project = s.project) : guards l s' ↔ guards l s := by
  cases l <;> simp [guards, leads, worksFor, hrole, hproject]

theorem guards_of_leads (h : leads l s) : guards l s := by
  cases l with
  | orchestrator => exact h
  | pm project => exact .inl h

theorem guards_role_ne (h : guards l s) : s.role ≠ "" := by
  rintro hrole
  cases l with
  | orchestrator => simp [guards, leads, hrole] at h
  | pm project => simp [guards, leads, worksFor, hrole] at h

/-- A row is guarded by one lock at most. -/
theorem guards_unique {l' : FleetLock} (h : guards l s) (h' : guards l' s) : l = l' := by
  cases l with
  | orchestrator =>
    cases l' with
    | orchestrator => rfl
    | pm project =>
      change s.role = "orchestrator" at h
      simp [guards, leads, worksFor, h] at h'
  | pm project =>
    cases l' with
    | orchestrator =>
      change s.role = "orchestrator" at h'
      simp [guards, leads, worksFor, h'] at h
    | pm project' =>
      have hp : s.project = some (.str project) := h.elim And.right And.right
      have hp' : s.project = some (.str project') := h'.elim And.right And.right
      rw [hp] at hp'
      simpa using hp'

/-- The rows that the lock guards were there before, in the same place. -/
def Unmoved (l : FleetLock) (d d' : Tables) : Prop :=
  ∀ s' ∈ d'.sessions, guards l s' → ∃ s ∈ d.sessions, Continues s s'

theorem Unmoved.refl (l : FleetLock) (d : Tables) : Unmoved l d d := fun s hs _ => ⟨s, hs, .refl s⟩

theorem Unmoved.trans {d'' : Tables} (h : Unmoved l d d') (h' : Unmoved l d' d'') : Unmoved l d d'' := by
  intro s'' hs'' hl
  obtain ⟨s', hs', hc'⟩ := h' s'' hs'' hl
  obtain ⟨s, hs, hc⟩ := h s' hs' ((guards_congr hc'.role hc'.project).mp hl)
  exact ⟨s, hs, hc.trans hc'⟩

def Persists (d d' : Tables) : Prop :=
  ∀ s ∈ d.sessions, ∃ s' ∈ d'.sessions, s'.id = s.id ∧ s'.role = s.role ∧ s'.project = s.project

theorem Persists.refl (d : Tables) : Persists d d := fun s hs => ⟨s, hs, rfl, rfl, rfl⟩

theorem Persists.trans {d'' : Tables} (h : Persists d d') (h' : Persists d' d'') : Persists d d'' := by
  intro s hs
  obtain ⟨s', hs', hid, hrole, hproject⟩ := h s hs
  obtain ⟨s'', hs'', hid', hrole', hproject'⟩ := h' s' hs'
  exact ⟨s'', hs'', hid'.trans hid, hrole'.trans hrole, hproject'.trans hproject⟩

/-- Nothing guarded moves. -/
structure Calm (d d' : Tables) : Prop where
  unmoved : ∀ l, Unmoved l d d'
  persists : Persists d d'
  nodup : (d.sessions.map (·.id)).Nodup → (d'.sessions.map (·.id)).Nodup

theorem Calm.refl (d : Tables) : Calm d d := ⟨fun l => .refl l d, .refl d, fun h => h⟩

theorem Calm.trans {d'' : Tables} (h : Calm d d') (h' : Calm d' d'') : Calm d d'' :=
  ⟨fun l => (h.unmoved l).trans (h'.unmoved l), h.persists.trans h'.persists, fun hn => h'.nodup (h.nodup hn)⟩

theorem Calm.of_sessions_eq (h : d'.sessions = d.sessions) : Calm d d' where
  unmoved _ s' hs' _ := ⟨s', h ▸ hs', .refl s'⟩
  persists s hs := ⟨s, h ▸ hs, rfl, rfl, rfl⟩
  nodup hn := h ▸ hn

theorem Calm.of_map {f : PiSession → PiSession} (hd : d'.sessions = d.sessions.map f)
    (hf : ∀ s ∈ d.sessions, Continues s (f s)) : Calm d d' where
  unmoved _ s' hs' _ := by
    rw [hd] at hs'
    obtain ⟨s, hs, rfl⟩ := List.mem_map.mp hs'
    exact ⟨s, hs, hf s hs⟩
  persists s hs := ⟨f s, hd ▸ List.mem_map_of_mem hs, (hf s hs).id, (hf s hs).role, (hf s hs).project⟩
  nodup hn := by
    have hids : (d.sessions.map f).map (·.id) = d.sessions.map (·.id) := by
      rw [List.map_map]
      exact List.map_congr_left fun s hs => (hf s hs).id
    rw [hd, hids]
    exact hn

theorem Calm.update {p : Tables → PiSession → Bool} {f : PiSession → PiSession} (hf : ∀ s, Continues s (f s)) :
    Calm d ((update sessionsTable p f).apply d) := by
  refine .of_map (f := fun s => if p d s then f s else s) rfl fun s _ => ?_
  split
  · exact hf s
  · exact .refl s

/-- The calls of the orchestrator other than launches and re-parentings. -/
def Bookkeeping : SessionOp → Prop
  | .finish _ state _ _ => state.terminalPm = true
  | .enqueue _ _ | .nextPane _ | .insertEvent _ => True
  | _ => False

theorem project_nextPane (s : PiSession) : s.nextPane.project = s.project := get_set_of_ne (by decide)

theorem calm_of_executes {st : Statement Tables} (hop : Bookkeeping op) (hst : Executes op st) (d : Tables) :
    Calm d (st.apply d) := by
  cases hst with
  | enqueued command now =>
    refine .of_sessions_eq ?_
    change (if _ then d else { d with commands := d.commands ++ [command] }).sessions = d.sessions
    split <;> rfl
  | notified command now => exact .update fun s => ⟨rfl, rfl, rfl, rfl, fun h => h⟩
  | finished sessionId state detail now =>
    refine .update fun s => ⟨rfl, rfl, rfl, rfl, fun h => ?_⟩
    have hstate : state.terminalPm = true := hop
    rw [live, PiSession.finished, hstate] at h
    cases h
  | nextPane sessionId => exact .update fun s => ⟨rfl, rfl, project_nextPane s, rfl, fun h => h⟩
  | event event =>
    obtain ⟨events, hevents⟩ := insertEvent_apply event d
    exact .of_sessions_eq (by rw [hevents, withSessions_sessions])
  | _ => exact hop.elim

/-- The calls that requests make, other than through the orchestrator. -/
def Requested : SessionOp → Prop
  | .insert _ | .finish _ _ _ _ | .reparent _ _ => False
  | .patch _ members => ∀ m ∈ members, m.1 = "pr_url"
  | _ => True

/-- The request brings a session of the fleet back that has ended. -/
def Revives (d : Tables) (op : SessionOp) : Prop :=
  ∃ s ∈ d.sessions, s.role ≠ "" ∧ s.state.terminalPm = true ∧ match op with
    | .register payload _ _ => s.id = payload.sessionId
    | .events sessionId payload _ _ => s.id = sessionId ∧ s.bridgeIncarnation = some payload.incarnation ∧
        ∃ state, payload.state = some state ∧ state.terminalPm = false
    | _ => False

theorem registeredRow_some_role (payload : PiBridgeRegister) (now : ℕ) :
    (registeredRow payload now (some s)).role = s.role := by
  unfold registeredRow
  dsimp only
  split <;> rfl

theorem registeredRow_some_parent (payload : PiBridgeRegister) (now : ℕ) :
    (registeredRow payload now (some s)).parentSessionId = s.parentSessionId := by
  unfold registeredRow
  dsimp only
  split <;> rfl

theorem registeredRow_some_project (payload : PiBridgeRegister) (now : ℕ) :
    (registeredRow payload now (some s)).project = s.project := by
  unfold registeredRow
  dsimp only
  split
  · exact get_set_of_ne (by decide)
  · rfl

theorem registeredRow_none_role (payload : PiBridgeRegister) (now : ℕ) :
    (registeredRow payload now none).role = "" := by
  unfold registeredRow
  dsimp only
  split <;> rfl

theorem project_patched {members : JsonObject} (h : ∀ m ∈ members, m.1 = "pr_url") (s : PiSession) :
    (PiSession.patched members s).project = s.project :=
  get_foldl_set fun m hm => h m hm ▸ by decide

theorem terminalPm_of_terminal {state : PiSessionState} (h : state.terminal = false) :
    state.terminalPm = false := by
  cases state <;> simp_all [PiSessionState.terminal, PiSessionState.terminalPm]

/-- A request continues every row of the fleet. -/
theorem continues_of_rowStep (h : RowStep d op s s') (hs : s ∈ d.sessions) (hrole : s.role ≠ "")
    (hop : Requested op)
    (hrev : ¬Revives d op) : Continues s s' := by
  cases h with
  | same => exact .refl s
  | @registered payload now uuid _ hid =>
    refine ⟨registeredRow_some_id _ _, registeredRow_some_role _ _, registeredRow_some_project _ _,
      registeredRow_some_parent _ _, fun _ => ?_⟩
    exact Bool.eq_false_iff.mpr fun hended => hrev ⟨s, hs, hrole, hended, hid⟩
  | @reported payload now uuid _ persisted hi =>
    refine ⟨rfl, rfl, rfl, rfl, fun hlive => Bool.eq_false_iff.mpr fun hended => ?_⟩
    simp only [live, PiSession.reported, batchedSession] at hlive
    cases hp : payload.state with
    | none =>
      simp only [hp] at hlive
      rw [hended] at hlive
      cases hlive
    | some state =>
      simp only [hp] at hlive
      split at hlive
      · exact hrev ⟨s, hs, hrole, hended, rfl, hi, state, hp, hlive⟩
      · rw [hended] at hlive
        cases hlive
  | blocked hstate => exact ⟨rfl, rfl, rfl, rfl, fun _ => terminalPm_of_terminal hstate⟩
  | notified => exact ⟨rfl, rfl, rfl, rfl, fun h => h⟩
  | answered _ ha =>
    refine ⟨rfl, rfl, rfl, rfl, fun _ => ?_⟩
    rw [live, ha.2.2]
    rfl
  | stale => exact ⟨rfl, rfl, rfl, rfl, fun h => by cases h⟩
  | finished => exact hop.elim
  | reparented => exact hop.elim
  | patched => exact ⟨rfl, rfl, project_patched hop s, rfl, fun h => h⟩
  | nextPane => exact ⟨rfl, rfl, project_nextPane s, rfl, fun h => h⟩

/-- A request that revives nothing moves nothing. -/
theorem calm_of_request (hn : (d.sessions.map (·.id)).Nodup) (hop : Requested op) (hrev : ¬Revives d op) :
    Calm d (op.run d) where
  unmoved l s' hs' hl := by
    rcases mem_run hn hs' with ⟨s, hs, hstep⟩ | ⟨hnew, -⟩
    · by_cases hrole : s.role = ""
      · exact absurd ((LiveSessions.RowStep.role_eq hstep).trans hrole) (guards_role_ne hl)
      · exact ⟨s, hs, continues_of_rowStep hstep hs hrole hop hrev⟩
    · cases hnew with
      | inserted => exact hop.elim
      | registered => exact absurd (registeredRow_none_role _ _) (guards_role_ne hl)
  persists s hs := by
    obtain ⟨s', hs', hstep⟩ := exists_run hn op hs
    refine ⟨s', hs', hstep.id_eq, LiveSessions.RowStep.role_eq hstep, ?_⟩
    cases hstep with
    | registered => exact registeredRow_some_project _ _
    | patched => exact project_patched hop s
    | nextPane => exact project_nextPane s
    | _ => rfl
  nodup h := sessions_nodup_run h op

/-- A session that speaks for itself is not an ended one. -/
theorem not_revives_of_authenticate {app : AppState} {request : Request} {token : String} {caller : PiSession}
    (hn : (d.sessions.map (·.id)).Nodup) (h : request.authenticate app token d = .ok (some caller)) :
    ¬Revives d request.op := by
  unfold Request.authenticate at h
  cases hrole : requireRole app request.allowed (.bearer token) d with
  | error e => simp [hrole] at h
  | ok found =>
    cases found with
    | none => simp [hrole] at h
    | some found =>
      simp only [hrole] at h
      split at h
      · cases h
      · next hid =>
        cases h
        have hcaller : caller ∈ d.sessions ∧ caller.state.terminal = false := by
          simp only [requireRole] at hrole
          split at hrole
          · split at hrole <;> cases hrole
          · split at hrole
            · cases hrole
            · next a hfind =>
              split at hrole
              · cases hrole
              · next hstate =>
                split at hrole
                · cases hrole
                · cases hrole
                  exact ⟨List.mem_of_find?_eq_some hfind, by simpa using hstate⟩
        rintro ⟨s, hs, -, hended, hop⟩
        have hsame : s.id = request.sessionId → False := by
          intro hs'
          rw [eq_of_session_id hn hs hcaller.1 (hs'.trans (not_not.mp hid).symm),
            terminalPm_of_terminal hcaller.2] at hended
          cases hended
        cases request with
        | register => exact hsame hop
        | events => exact hsame hop.1
        | _ => exact hop

end WorkerHarness.ManagerRows
