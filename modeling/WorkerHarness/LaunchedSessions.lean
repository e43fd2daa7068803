import WorkerHarness.ManagerLocks

/-!
# Launches under the contract of the locks

A launch inserts one row and otherwise only keeps books, on each of its many exits. So whatever the
other threads cannot spoil and this one row does not break holds when the launch ends, however it
ends.
-/

namespace WorkerHarness.LaunchedSessions

open Coroutines SharedTransactions Database SessionStatements ManagerRows ManagerLocks Orchestrator
  OrchestratorCalls

structure Adds (row : PiSession) (d d' : Tables) : Prop where
  sessions : d'.sessions = d.sessions ++ [row]
  new : ∀ r ∈ d.sessions, r.id ≠ row.id

def MayAdd (row : PiSession) (d d' : Tables) : Prop := d' = d ∨ Adds row d d'

variable {strict : Prop} {row : PiSession} {d d' d'' : Tables} {s s' : FleetWorld} {l : FleetLock}

theorem MayAdd.refl (row : PiSession) (d : Tables) : MayAdd row d d := .inl rfl

theorem MayAdd.trans (h : MayAdd row d d') (h' : MayAdd row d' d'') : MayAdd row d d'' := by
  rcases h' with rfl | h'
  · exact h
  · rcases h with rfl | h
    · exact .inr h'
    · exact absurd rfl (h'.new row (by simp [h.sessions]))

theorem mayAdd_of_executes {st : Statement Tables} (h : Executes (.insert row) st) (d : Tables) :
    MayAdd row d (st.apply d) := by
  cases h
  change MayAdd row d (if d.sessions.any (fun r => decide (r.id = row.id)) = true then d
    else { d with sessions := d.sessions ++ [row] })
  split
  · exact .inl rfl
  · next hany => exact .inr ⟨rfl, by simpa using hany⟩

theorem inserts_run (row : PiSession) (s : FleetWorld) : Writes (MayAdd row) s (s.run (.insert row)) :=
  writes_run (MayAdd.refl row) (fun _ _ _ => MayAdd.trans) (fun _ hst d => mayAdd_of_executes hst d) s

theorem inserts_interrupt (row : PiSession) (s : FleetWorld) (n : ℕ) :
    Writes (MayAdd row) s (s.interrupt (.insert row) n) :=
  writes_interrupt (MayAdd.refl row) (fun _ _ _ => MayAdd.trans) (fun _ hst d => mayAdd_of_executes hst d) s n

/-- When the insertion does not raise, the row is there. -/
theorem adds_of_ok (h : (alone (SessionOp.prog (.insert row)) s.durable s.db).1 = .ok ()) :
    Adds row s.db (s.run (.insert row)).db := by
  by_cases hany : s.db.sessions.any (fun r => decide (r.id = row.id)) = true
  · have hcount : (insertInto sessionsTable (·.id) row).rowcount s.db = 0 := if_pos hany
    simp [SessionOp.prog, insertPiSession, insertRow, execute, alone, hcount] at h
  · have hcount : (insertInto sessionsTable (·.id) row).rowcount s.db = 1 := if_neg hany
    refine ⟨?_, by simpa using hany⟩
    have happly : (insertInto sessionsTable (·.id) row).apply s.db =
      { s.db with sessions := s.db.sessions ++ [row] } :=
      if_neg hany
    simp [FleetWorld.run, SessionOp.prog, insertPiSession, insertRow, execute, commit, Prog.call, alone,
      hcount, happly]

theorem Adds.mem (h : Adds row d d') {r : PiSession} (hr : r ∈ d'.sessions) : r ∈ d.sessions ∨ r = row := by
  simpa [h.sessions] using hr

theorem MayAdd.mem (h : MayAdd row d d') {r : PiSession} (hr : r ∈ d'.sessions) :
    r ∈ d.sessions ∨ r = row ∧ Adds row d d' := by
  rcases h with rfl | h
  · exact .inl hr
  · exact (h.mem hr).imp id fun hrow => ⟨hrow, h⟩

theorem MayAdd.subset (h : MayAdd row d d') {r : PiSession} (hr : r ∈ d.sessions) : r ∈ d'.sessions := by
  rcases h with rfl | h
  · exact hr
  · simp [h.sessions, hr]

theorem MayAdd.persists (h : MayAdd row d d') : Persists d d' := fun r hr => ⟨r, h.subset hr, rfl, rfl, rfl⟩

theorem MayAdd.unmoved (h : MayAdd row d d') (hl : ¬guards l row) : Unmoved l d d' := by
  intro r hr hguard
  rcases h.mem hr with hr | ⟨rfl, -⟩
  · exact ⟨r, hr, .refl r⟩
  · exact absurd hguard hl

theorem MayAdd.nodup (h : MayAdd row d d') (hn : (d.sessions.map (·.id)).Nodup) :
    (d'.sessions.map (·.id)).Nodup := by
  rcases h with rfl | h
  · exact hn
  · rw [h.sessions, List.map_append, List.nodup_append]
    refine ⟨hn, by simp, ?_⟩
    intro id hid id' hid'
    obtain ⟨r, hr, rfl⟩ := List.mem_map.mp hid
    rw [List.map_singleton, List.mem_singleton] at hid'
    exact hid' ▸ h.new r hr

theorem MayAdd.managed (h : MayAdd row d d') (hm : Managed d)
    (hlead : Adds row d d' → ∀ l, leads l row → ∀ m ∈ d.sessions, leads l m → ¬live m) : Managed d' where
  nodup := h.nodup hm.nodup
  unique l m hm₁ m' hm₂ hl hl' hlive hlive' := by
    rcases h.mem hm₁ with hm₁ | ⟨rfl, hadds⟩
    · rcases h.mem hm₂ with hm₂ | ⟨rfl, hadds⟩
      · exact hm.unique l m hm₁ m' hm₂ hl hl' hlive hlive'
      · exact absurd hlive (hlead hadds l hl' m hm₁ hl)
    · rcases h.mem hm₂ with hm₂ | ⟨rfl, -⟩
      · exact absurd hlive' (hlead hadds l hl m' hm₂ hl')
      · rfl

def FitsFamily (row : PiSession) (d : Tables) : Prop :=
  ∀ project, worksFor project row → (∃ m ∈ d.sessions, leads (.pm project) m ∧ row.parentSessionId = some m.id) ∧
    ∀ m ∈ d.sessions, leads (.pm project) m → live m → row.parentSessionId = some m.id

theorem MayAdd.family {hatching : String → String → Prop} (h : MayAdd row d d') (hf : Family hatching d)
    (hwork : FitsFamily row d) (hlead : ∀ project, leads (.pm project) row → hatching project row.id) :
    Family hatching d' where
  parents project r hr hw hlive := by
    rcases h.mem hr with hr | ⟨rfl, -⟩
    · obtain ⟨m, hm, hl, hparent⟩ := hf.parents project r hr hw hlive
      exact ⟨m, h.subset hm, hl, hparent⟩
    · obtain ⟨m, hm, hl, hparent⟩ := (hwork project hw).1
      exact ⟨m, h.subset hm, hl, hparent⟩
  adopted project m hm hl hlive hn r hr hw hrlive := by
    rcases h.mem hm with hm | ⟨rfl, -⟩
    · rcases h.mem hr with hr | ⟨rfl, -⟩
      · exact hf.adopted project m hm hl hlive hn r hr hw hrlive
      · exact (hwork project hw).2 m hm hl hlive
    · exact absurd (hlead project hl) hn

theorem guar_of_inserts {t : ℕ} {held : List FleetLock} (h : Writes (MayAdd row) s s') (hguard : guards l row)
    (hl : l ∈ held) : (contract strict).guar t held s s' := by
  refine ⟨h.grows fun _ _ => MayAdd.persists, fun l' hl' => h.held fun _ hd => hd.unmoved fun hg => hl' ?_⟩
  exact guards_unique hguard hg ▸ hl

theorem inv_of_inserts (h : Writes (MayAdd row) s s') (hi : Inv strict s)
    (hlead : (∀ r ∈ s.db.sessions, r.id ≠ row.id) → ∀ l, leads l row → ∀ m ∈ s.db.sessions, leads l m → ¬live m)
    (hhatch : strict → ∀ project, leads (.pm project) row → Hatching s project row.id)
    (hwork : FitsFamily row s.db) :
    Inv strict s' :=
  h.inv hi (fun _ _ => MayAdd.persists) (fun _ hd => hd.managed hi.managed fun hadds => hlead hadds.new)
    fun hstrict _ hd => hd.family (hi.settled hstrict).family hwork (hhatch hstrict)

structure Launched (l : Launch) (sid : String) (row : PiSession) : Prop where
  id : row.id = sid
  role : row.role = l.role.text
  live : live row
  project : l.role ≠ .orchestrator → row.project = some (.str l.projectName)
  parent : l.role = .task → row.parentSessionId = l.parentSessionId

theorem launchSpec_ok {cfg : FleetConfig} {l : Launch} {cwd branch : String} {spec : LaunchSpec}
    (h : launchSpec cfg l cwd branch = .ok spec) :
    spec.role = l.role ∧ (l.role ≠ .orchestrator → spec.projectName = l.projectName) := by
  unfold launchSpec at h
  split at h
  · next hrole =>
    cases h
    exact ⟨hrole.symm, fun hn => absurd hrole hn⟩
  · split at h
    · cases h
    · cases h
      exact ⟨rfl, fun _ => rfl⟩

/-- The rows that a launch with this specification can insert, whatever was done before. -/
def SpecFor (l : Launch) (sid : String) (spec : LaunchSpec) (parentSessionId : Option String) : Prop :=
  ∀ tokenHash briefing worktree branch workspace resumePath now, Launched l sid
    (newSession spec sid tokenHash parentSessionId briefing worktree branch workspace resumePath now)

theorem specFor_launchSpec {cfg : FleetConfig} {l : Launch} {cwd branch sid : String} {spec : LaunchSpec}
    {parentSessionId : Option String} (h : launchSpec cfg l cwd branch = .ok spec)
    (hparent : l.role = .task → parentSessionId = l.parentSessionId) : SpecFor l sid spec parentSessionId := by
  intro tokenHash briefing worktree actualBranch workspace resumePath now
  refine ⟨rfl, ?_, rfl, fun hn => ?_, hparent⟩
  · rw [← (launchSpec_ok h).1]
    rfl
  · rw [← (launchSpec_ok h).2 hn]
    rfl

def Present (l : Launch) (sid : String) (s : FleetWorld) : Prop :=
  ∃ r ∈ s.db.sessions, r.id = sid ∧ r.role = l.role.text ∧
    (l.role ≠ .orchestrator → r.project = some (.str l.projectName))

/-- The fact, which can depend on the id that the launch drew, survives other threads and the row. -/
structure Permits (strict : Prop) (t : ℕ) (h : List FleetLock) (l : Launch) (J : String → FleetWorld → Prop) :
    Prop where
  stable : ∀ sid, Stable strict t h (J sid)
  insert : ∀ {sid row s s'}, Inv strict s → J sid s → Launched l sid row → Writes (MayAdd row) s s' →
    (contract strict).guar t h s s' ∧ Inv strict s' ∧ J sid s'

section Walk

variable {t : ℕ} {h : List FleetLock} {launching : Launch} {J : String → FleetWorld → Prop} {α β : Type}

theorem stable_present (sid : String) : Stable strict t h (Present launching sid) := by
  rintro s s' ⟨r, hr, hid, hrole, hproject⟩ hrely
  obtain ⟨r', hr', hid', hrole', hproject'⟩ := hrely.1.persists r hr
  exact ⟨r', hr', hid'.trans hid, hrole'.trans hrole, fun hn => hproject'.trans (hproject hn)⟩

/-- Gentle calls first. -/
theorem safe_gentle_bind {J : FleetWorld → Prop} (hJ : Stable strict t h J) {R : α → Prop} {p : FleetM α}
    {f : α → FleetM β} {Q : Except FleetError β → List FleetLock → FleetWorld → Prop} (hp : Does Gentle R p)
    (hs : J s)
    (herror : ∀ e s', J s' → Q (.error e) h s')
    (hf : ∀ a s', R a → J s' → Safe fleetInterp (contract strict) t Q (f a) h s') :
    Safe fleetInterp (contract strict) t Q (p.bind f) h s := by
  refine Safe.bind (contract_coherent strict) (Safe.mono ?_ (safe_gentle hJ hp hs))
  rintro r h' s' - ⟨rfl, hr, hj⟩
  cases r with
  | ok a => exact hf a s' (hr a rfl) hj
  | error e => exact fun s'' hrely _ => herror e s'' (hJ s' s'' hj hrely)

/-- The insertion of the row, and then `f`. -/
theorem safe_insert_bind (hJ : Permits strict t h launching J) {sid : String} (hrow : Launched launching sid row)
    {f : Unit → FleetM β} {Q : Except FleetError β → List FleetLock → FleetWorld → Prop} (hs : J sid s)
    (herror : ∀ e s', J sid s' → Q (.error e) h s')
    (hf : ∀ s', J sid s' → Present launching sid s' → Safe fleetInterp (contract strict) t Q (f ()) h s') :
    Safe fleetInterp (contract strict) t Q ((write (.insert row)).bind f) h s := by
  intro s₁ hr₁ hi₁ _
  have hs₁ : J sid s₁ := hJ.stable sid s s₁ hs hr₁
  refine ⟨trivial, fun w s₂ b hh => ?_⟩
  have hfail : ∀ e s', J sid s' → Safe fleetInterp (contract strict) t Q (.raise e) h s' :=
    fun e s' hs' s'' hrely _ => herror e s'' (hJ.stable sid s' s'' hs' hrely)
  cases w with
  | done =>
    cases hh
    obtain ⟨hg, hi, hj⟩ := hJ.insert hi₁ hs₁ hrow (inserts_run row s₁)
    refine ⟨hg, hi, ?_⟩
    cases hresult : (alone (SessionOp.prog (.insert row)) s₁.durable s₁.db).1 with
    | ok u =>
      refine hf _ hj ⟨row, ?_, hrow.id, hrow.role, hrow.project⟩
      simp [(adds_of_ok hresult).sessions]
    | error e => exact hfail _ _ hj
  | fails e n =>
    cases hh
    obtain ⟨hg, hi, hj⟩ := hJ.insert hi₁ hs₁ hrow (inserts_interrupt row s₁ n)
    exact ⟨hg, hi, hfail _ _ hj⟩
  | _ => cases hh

def Ends (h : List FleetLock) (l : Launch) (J : String → FleetWorld → Prop) (K : FleetWorld → Prop)
    (r : Except FleetError PiSession) (h' : List FleetLock) (s : FleetWorld) : Prop :=
  h' = h ∧ match r with
    | .ok session => J session.id s ∧ Present l session.id s
    | .error _ => K s ∨ ∃ sid, J sid s

variable {K : FleetWorld → Prop} {cfg : FleetConfig} {sid token : String}

theorem safe_startAgent (hJ : Permits strict t h launching J) (spec : LaunchSpec) {l : Launch} (session : PiSession)
    (hs : J session.id s) (hpresent : Present launching session.id s) :
    Safe fleetInterp (contract strict) t (Ends h launching J K) (startAgent cfg l spec session token) h s := by
  have hdoes : Does Gentle (Same session) (startAgent cfg l spec session token) :=
    gentle (performs_startAgent session trivial trivial cfg l spec token)
  refine Safe.mono ?_ (safe_gentle (stable_and (hJ.stable session.id) (stable_present session.id)) hdoes
    ⟨hs, hpresent⟩)
  rintro r h' s' - ⟨rfl, hr, hj, hpresent'⟩
  refine ⟨rfl, ?_⟩
  cases r with
  | ok current =>
    have hid : current.id = session.id := hr current rfl
    exact ⟨hid ▸ hj, hid ▸ hpresent'⟩
  | error e => exact .inr ⟨_, hj⟩

theorem ends_error (e : FleetError) {s' : FleetWorld} (hs : J sid s') :
    Ends h launching J K (.error e : Except FleetError PiSession) h s' := ⟨rfl, .inr ⟨sid, hs⟩⟩

theorem safe_raise {J : FleetWorld → Prop} (hJ : Stable strict t h J) {e : FleetError}
    {Q : Except FleetError α → List FleetLock → FleetWorld → Prop} (hs : J s)
    (hQ : ∀ s', J s' → Q (.error e) h s') :
    Safe fleetInterp (contract strict) t Q (.raise e) h s :=
  fun s' hr _ => hQ s' (hJ s s' hs hr)

theorem safe_launchIn (hJ : Permits strict t h launching J) {l : Launch} {spec : LaunchSpec}
    (hspec : SpecFor launching sid spec l.parentSessionId) (worktree branch : String) (hs : J sid s) :
    Safe fleetInterp (contract strict) t (Ends h launching J K)
    (launchIn cfg l spec sid token worktree branch) h s := by
  have hstable := hJ.stable sid
  refine safe_gentle_bind hstable (R := Any) (Prog.Performs.attempt (.await trivial fun _ _ => trivial) |>.mono
    (fun _ _ h => h) fun _ _ => trivial) hs (fun e s' hs' => ends_error e hs') fun created s₁ _ hs₁ => ?_
  refine safe_gentle_bind hstable (R := Any) (.call trivial fun _ _ => trivial) hs₁
    (fun e s' hs' => ends_error e hs') fun now s₂ _ hs₂ => ?_
  cases created with
  | ok workspace =>
    exact safe_insert_bind hJ (hspec _ _ _ _ _ _ _) hs₂ (fun e s' hs' => ends_error e hs') fun s₃ hs₃ hpresent =>
      safe_startAgent hJ spec _ hs₃ hpresent
  | error e =>
    dsimp only
    split
    · refine safe_insert_bind hJ (hspec _ _ _ _ _ _ _) hs₂ (fun e s' hs' => ends_error e hs') fun s₃ hs₃ _ => ?_
      refine safe_gentle_bind hstable (R := Any)
        (gentle (performs_markFailed _ _ _)) hs₃ (fun e s' hs' => ends_error e hs') fun _ s₄ _ hs₄ => ?_
      split
      · refine safe_gentle_bind hstable (R := Any)
          (gentle (performs_cleanupFailedWorktree _ trivial cfg)) hs₄
            (fun e s' hs' => ends_error e hs') fun _ s₅ _ hs₅ => ?_
        exact safe_raise hstable hs₅ fun s' hs' => ends_error _ hs'
      · exact safe_raise hstable hs₄ fun s' hs' => ends_error _ hs'
    · exact safe_raise hstable hs₂ fun s' hs' => ends_error _ hs'

theorem safe_launchTaskIn (hJ : Permits strict t h launching J) {spec : LaunchSpec}
    (hspec : SpecFor launching sid spec launching.parentSessionId) (hs : J sid s) :
    Safe fleetInterp (contract strict) t (Ends h launching J K)
    (launchTaskIn cfg launching spec sid token) h s := by
  have hstable := hJ.stable sid
  refine safe_gentle_bind hstable (R := Any) (gentle (performs_createWorktree launching.machine launching.repo
    launching.branch launching.baseBranch [1, 2, 3, 4, 5])).attempt.any hs (fun e s' hs' => ends_error e hs')
    fun created s₁ _ hs₁ => ?_
  cases created with
  | ok created =>
    obtain ⟨worktree, branch⟩ := created
    dsimp only
    cases hnew : launchSpec cfg launching worktree branch with
    | error e => exact safe_raise hstable hs₁ fun s' hs' => ends_error e hs'
    | ok spec' => exact safe_launchIn hJ (specFor_launchSpec hnew fun _ => rfl) worktree branch hs₁
  | error e =>
    cases e with
    | worktreeError message =>
      refine safe_gentle_bind hstable (R := Any) (.call trivial fun _ _ => trivial) hs₁
        (fun e s' hs' => ends_error e hs') fun now s₂ _ hs₂ => ?_
      refine safe_insert_bind hJ (hspec _ _ _ _ _ _ _) hs₂ (fun e s' hs' => ends_error e hs') fun s₃ hs₃ _ => ?_
      refine safe_gentle_bind hstable (R := Any) (gentle (performs_markFailed _ _ _)) hs₃
        (fun e s' hs' => ends_error e hs') fun _ s₄ _ hs₄ => ?_
      exact safe_raise hstable hs₄ fun s' hs' => ends_error _ hs'
    | _ => exact safe_raise hstable hs₁ fun s' hs' => ends_error _ hs'

/-- The id is the thread's own, and no call is through with it. -/
structure Drawn (strict : Prop) (t : ℕ) (sid : String) (s : FleetWorld) : Prop where
  mine : (sid, t) ∈ s.ids
  hatching : strict → ∀ project, ¬Ensured s project sid

theorem drawn_give {sid : String} (hi : Inv strict s) (hunused : s.unused sid = true) :
    Drawn strict t sid (s.give sid t) := by
  simp only [FleetWorld.unused, Bool.and_eq_true, Bool.not_eq_true', List.any_eq_false,
    decide_eq_true_eq] at hunused
  refine ⟨List.mem_cons_self .., fun hstrict project he => ?_⟩
  rcases (hi.settled hstrict).ensured project sid he with ⟨t', ht'⟩ | ⟨m, hm, hid⟩
  · exact hunused.1.1.1 _ ht' rfl
  · exact hunused.1.1.2 m hm hid

/-- The id that the launch draws is its own from then on. -/
theorem safe_draw (hK : Stable strict t h K)
    (hstart : ∀ sid s, K s → Drawn strict t sid s → J sid s) {f : String → FleetM β}
    {Q : Except FleetError β → List FleetLock → FleetWorld → Prop} (hs : K s)
    (hf : ∀ sid s', J sid s' → Safe fleetInterp (contract strict) t Q (f sid) h s') :
    Safe fleetInterp (contract strict) t Q ((Prog.call .uuid).bind f) h s := by
  intro s₁ hr₁ hi₁ _
  refine ⟨trivial, fun w s₂ sid hh => ?_⟩
  cases w with
  | text drawn =>
    simp only [fleetInterp, fleetHandle] at hh
    split at hh
    · next hunused =>
      cases hh
      have hmild : Mild s₁ (s₁.give sid t) := mild_give hunused
      refine ⟨hmild.guar, hi₁.mild hmild, hf sid _ (hstart sid _ ?_ (drawn_give hi₁ hunused))⟩
      exact hK _ _ (hK s s₁ hs hr₁) hmild.rely
    · cases hh
  | _ => cases hh

/-- A launch ends with its row in place, or it raises; what its surroundings promised still holds. -/
theorem safe_launch (hJ : Permits strict t h launching J) (hK : Stable strict t h K)
    (hstart : ∀ sid s, K s → Drawn strict t sid s → J sid s) (hs : K s) :
    Safe fleetInterp (contract strict) t (Ends h launching J K) (launch cfg launching) h s := by
  have hraise : ∀ (e : FleetError), Safe fleetInterp (contract strict) t (Ends h launching J K)
      (.raise e : FleetM PiSession) h s := fun e => safe_raise hK hs fun s' hs' => ⟨rfl, .inl hs'⟩
  unfold launch
  split
  · exact hraise _
  · cases hspec : launchSpec cfg launching launching.cwd launching.branch with
    | error e => exact hraise e
    | ok spec =>
      refine safe_draw hK hstart hs fun sid s₁ hs₁ => ?_
      refine safe_gentle_bind (hJ.stable sid) (R := Any) (.call trivial fun _ _ => trivial) hs₁
        (fun e s' hs' => ends_error e hs') fun token s₂ _ hs₂ => ?_
      by_cases horchestrator : launching.role = .orchestrator
      · -- The orchestrator has neither parent nor briefing.
        have htask : launching.role ≠ .task := by simp [horchestrator]
        rw [if_pos horchestrator, if_neg htask]
        exact safe_launchIn hJ (specFor_launchSpec hspec fun hl => absurd hl htask) "" "" hs₂
      · rw [if_neg horchestrator]
        split
        · exact safe_launchTaskIn hJ (specFor_launchSpec hspec fun _ => rfl) hs₂
        · exact safe_launchIn hJ (specFor_launchSpec hspec fun _ => rfl) "" "" hs₂

end Walk

end WorkerHarness.LaunchedSessions
