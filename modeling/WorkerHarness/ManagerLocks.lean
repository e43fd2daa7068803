import WorkerHarness.OrchestratorCalls

/-!
# The contract of the orchestrator's locks

Who holds a lock knows that the rows behind it stay: no session appears, comes back to life or
changes its parent. Behind the lock of a project lies a fact too, that no `_ensure_pm` goes on that
launched a manager of the project, so that the live one has all tasks. Tasks are handed over only in
runs where no launched manager outlives a failing `_ensure_pm` without them; `strict` says whether the
run is one of these.
-/

namespace WorkerHarness.ManagerLocks

open Coroutines SharedTransactions Database SessionStatements ManagerRows OrchestratorCalls

/-- Of the sessions that lead what a lock guards at most one is live. -/
structure Managed (d : Tables) : Prop where
  nodup : (d.sessions.map (·.id)).Nodup
  unique : ∀ l, ∀ m ∈ d.sessions, ∀ m' ∈ d.sessions, leads l m → leads l m' → live m → live m' → m = m'

/-- The tasks of a project have one of its managers as parent: its live one, unless that has not
taken them over yet. -/
structure Family (hatching : String → String → Prop) (d : Tables) : Prop where
  parents : ∀ project, ∀ r ∈ d.sessions, worksFor project r → live r →
    ∃ m ∈ d.sessions, leads (.pm project) m ∧ r.parentSessionId = some m.id
  adopted : ∀ project, ∀ m ∈ d.sessions, leads (.pm project) m → live m → ¬hatching project m.id →
    ∀ r ∈ d.sessions, worksFor project r → live r → r.parentSessionId = some m.id

/-- The call of `_ensure_pm` that returned or launched the manager is through with it. -/
def Ensured (s : FleetWorld) (project id : String) : Prop := ∃ t, FleetEntry.ensured t project id ∈ s.log

/-- The process gave out the id, and no call of `_ensure_pm` is through with it. -/
def Hatching (s : FleetWorld) (project id : String) : Prop := (∃ t, (id, t) ∈ s.ids) ∧ ¬Ensured s project id

structure Settled (s : FleetWorld) : Prop where
  family : Family (Hatching s) s.db
  durable : Family (Hatching s) s.durable
  persists : Persists s.durable s.db
  ensured : ∀ project id, Ensured s project id → (∃ t, (id, t) ∈ s.ids) ∨ ∃ m ∈ s.db.sessions, m.id = id

structure Inv (strict : Prop) (s : FleetWorld) : Prop where
  managed : Managed s.db
  durable : Managed s.durable
  settled : strict → Settled s

def NoneHatching (project : String) (s : FleetWorld) : Prop :=
  ∀ m ∈ s.db.sessions, leads (.pm project) m → live m → ¬Hatching s project m.id

/-- A live manager of the project that is being launched is one that the thread launches. -/
def OwnHatching (t : ℕ) (project : String) (s : FleetWorld) : Prop :=
  ∀ m ∈ s.db.sessions, leads (.pm project) m → live m → Hatching s project m.id → (m.id, t) ∈ s.ids

def Remaining (project : String) (parents : List String) (d : Tables) : Prop :=
  ∀ r ∈ d.sessions, worksFor project r → live r → ∃ id ∈ parents, r.parentSessionId = some id

/-- The live managers of the project that the thread launched have all its tasks. -/
def TookOver (t : ℕ) (project : String) (ids : List (String × ℕ)) (d : Tables) : Prop :=
  ∀ m ∈ d.sessions, leads (.pm project) m → live m → (m.id, t) ∈ ids → Remaining project [m.id] d

/-- Rows, ids and returned managers stay, and new ids are new. -/
structure Grows (s s' : FleetWorld) : Prop where
  persists : Persists s.db s'.db
  ids : ∀ i ∈ s.ids, i ∈ s'.ids
  unused : ∀ i ∈ s'.ids, i ∈ s.ids ∨ ∀ r ∈ s.db.sessions, r.id ≠ i.1
  ensured : ∀ project id, Ensured s project id → Ensured s' project id

/-- What lies behind the lock is left alone. -/
structure Held (l : FleetLock) (s s' : FleetWorld) : Prop where
  unmoved : Unmoved l s.db s'.db
  durable : s'.durable = s.durable ∨ Unmoved l s.db s'.durable
  ensured : ∀ project id, l = .pm project → Ensured s' project id → Ensured s project id

/-- A step that leaves everything behind the locks alone. -/
structure Mild (s s' : FleetWorld) : Prop where
  calm : Calm s.db s'.db
  durable : s'.durable = s.durable ∨ Calm s.db s'.durable ∧ Calm s'.durable s'.db
  ids : ∀ i ∈ s.ids, i ∈ s'.ids
  unused : ∀ i ∈ s'.ids, i ∈ s.ids ∨ ∀ r ∈ s.db.sessions, r.id ≠ i.1
  ensured : ∀ project id, Ensured s' project id ↔ Ensured s project id

variable {s s' s'' : FleetWorld} {l : FleetLock} {project id : String} {d d' : Tables}

theorem Grows.refl (s : FleetWorld) : Grows s s := ⟨.refl _, fun _ h => h, fun _ h => .inl h, fun _ _ h => h⟩

theorem Grows.trans (h : Grows s s') (h' : Grows s' s'') : Grows s s'' where
  persists := h.persists.trans h'.persists
  ids i hi := h'.ids i (h.ids i hi)
  unused i hi := by
    rcases h'.unused i hi with hi' | hnew
    · exact h.unused i hi'
    · refine .inr fun r hr hid => ?_
      obtain ⟨r', hr', hid', -⟩ := h.persists r hr
      exact hnew r' hr' (hid'.trans hid)
  ensured project id he := h'.ensured project id (h.ensured project id he)

theorem Held.refl (l : FleetLock) (s : FleetWorld) : Held l s s := ⟨.refl l _, .inl rfl, fun _ _ _ h => h⟩

theorem Held.trans (h : Held l s s') (h' : Held l s' s'') : Held l s s'' where
  unmoved := h.unmoved.trans h'.unmoved
  durable := by
    rcases h'.durable with hd | hd
    · exact hd ▸ h.durable
    · exact .inr (h.unmoved.trans hd)
  ensured project id hl he := h.ensured project id hl (h'.ensured project id hl he)

theorem Mild.grows (h : Mild s s') : Grows s s' :=
  ⟨h.calm.persists, h.ids, h.unused, fun project id he => (h.ensured project id).mpr he⟩

theorem Mild.held (h : Mild s s') (l : FleetLock) : Held l s s' :=
  ⟨h.calm.unmoved l, h.durable.imp id fun hd => hd.1.unmoved l, fun project id _ he => (h.ensured project id).mp he⟩

/-- An id of a row is not given out any more. -/
theorem Hatching.of_grows (h : Grows s s') {m : PiSession} (hm : m ∈ s.db.sessions)
    (hh : Hatching s' project m.id) : Hatching s project m.id := by
  obtain ⟨⟨t, ht⟩, hn⟩ := hh
  refine ⟨⟨t, ?_⟩, fun he => hn (h.ensured _ _ he)⟩
  rcases h.unused _ ht with ht | hnew
  · exact ht
  · exact absurd rfl (hnew m hm)

theorem Hatching.held (h : Grows s s') (hl : Held (.pm project) s s') (hh : Hatching s project id) :
    Hatching s' project id := by
  obtain ⟨⟨t, ht⟩, hn⟩ := hh
  exact ⟨⟨t, h.ids _ ht⟩, fun he => hn (hl.ensured _ _ rfl he)⟩

theorem Hatching.mild (h : Mild s s') (hh : Hatching s project id) : Hatching s' project id :=
  hh.held h.grows (h.held _)

theorem NoneHatching.held (h : Grows s s') (hl : Held (.pm project) s s') (hn : NoneHatching project s) :
    NoneHatching project s' := by
  intro m' hm' hlead hlive hh
  obtain ⟨m, hm, hc⟩ := hl.unmoved m' hm' (guards_of_leads hlead)
  rw [hc.id] at hh
  exact hn m hm ((leads_congr hc.role hc.project).mp hlead) (hc.live hlive) (hh.of_grows h hm)

theorem OwnHatching.held {t : ℕ} (h : Grows s s') (hl : Held (.pm project) s s') (ho : OwnHatching t project s) :
    OwnHatching t project s' := by
  intro m' hm' hlead hlive hh
  obtain ⟨m, hm, hc⟩ := hl.unmoved m' hm' (guards_of_leads hlead)
  rw [hc.id] at hh ⊢
  exact h.ids _ (ho m hm ((leads_congr hc.role hc.project).mp hlead) (hc.live hlive) (hh.of_grows h hm))

theorem NoneHatching.own {t : ℕ} (h : NoneHatching project s) : OwnHatching t project s :=
  fun m hm hlead hlive hh => absurd hh (h m hm hlead hlive)

theorem Remaining.unmoved {parents : List String} (hl : Unmoved (.pm project) d d')
    (h : Remaining project parents d) : Remaining project parents d' := by
  intro r' hr' hwork hlive
  obtain ⟨r, hr, hc⟩ := hl r' hr' (.inr hwork)
  obtain ⟨id, hid, hparent⟩ := h r hr ((worksFor_congr hc.role hc.project).mp hwork) (hc.live hlive)
  exact ⟨id, hid, hc.parent.trans hparent⟩

theorem Remaining.held {parents : List String} (hl : Held (.pm project) s s')
    (h : Remaining project parents s.db) (h' : Remaining project parents s.durable) :
    Remaining project parents s'.durable := by
  rcases hl.durable with hd | hd
  · exact hd ▸ h'
  · exact h.unmoved hd

theorem Managed.calm (h : Calm d d') (hm : Managed d) : Managed d' where
  nodup := h.nodup hm.nodup
  unique l m hm' m' hm'' hlead hlead' hlive hlive' := by
    obtain ⟨a, ha, hc⟩ := h.unmoved l m hm' (guards_of_leads hlead)
    obtain ⟨b, hb, hc'⟩ := h.unmoved l m' hm'' (guards_of_leads hlead')
    have hab : a = b := hm.unique l a ha b hb ((leads_congr hc.role hc.project).mp hlead)
      ((leads_congr hc'.role hc'.project).mp hlead') (hc.live hlive) (hc'.live hlive')
    have hid : m.id = m'.id := by rw [hc.id, hc'.id, hab]
    exact SessionRows.eq_of_session_id (h.nodup hm.nodup) hm' hm'' hid

theorem Family.calm {hatching hatching' : String → String → Prop} (h : Calm d d') (hf : Family hatching d)
    (hh : ∀ project, ∀ m ∈ d.sessions, hatching project m.id → hatching' project m.id) : Family hatching' d' where
  parents project r' hr' hwork hlive := by
    obtain ⟨r, hr, hc⟩ := h.unmoved (.pm project) r' hr' (.inr hwork)
    obtain ⟨m, hm, hlead, hparent⟩ :=
      hf.parents project r hr ((worksFor_congr hc.role hc.project).mp hwork) (hc.live hlive)
    obtain ⟨m', hm', hid, hrole, hproject⟩ := h.persists m hm
    exact ⟨m', hm', (leads_congr hrole hproject).mpr hlead, by rw [hc.parent, hparent, hid]⟩
  adopted project m' hm' hlead hlive hn r' hr' hwork hrlive := by
    obtain ⟨m, hm, hc⟩ := h.unmoved (.pm project) m' hm' (guards_of_leads hlead)
    obtain ⟨r, hr, hcr⟩ := h.unmoved (.pm project) r' hr' (.inr hwork)
    rw [hcr.parent, hc.id]
    refine hf.adopted project m hm ((leads_congr hc.role hc.project).mp hlead) (hc.live hlive)
      (fun hm' => hn ?_) r hr
      ((worksFor_congr hcr.role hcr.project).mp hwork) (hcr.live hrlive)
    exact hc.id ▸ hh project m hm hm'

theorem Settled.mild (h : Mild s s') (hs : Settled s) : Settled s' where
  family := hs.family.calm h.calm fun _ _ _ hh => hh.mild h
  durable := by
    rcases h.durable with hd | ⟨hd, -⟩
    · exact hd ▸ hs.durable.calm (.refl _) fun _ _ _ hh => hh.mild h
    · exact hs.family.calm hd fun _ _ _ hh => hh.mild h
  persists := by
    rcases h.durable with hd | ⟨-, hd⟩
    · exact hd ▸ hs.persists.trans h.calm.persists
    · exact hd.persists
  ensured project id he := by
    rcases hs.ensured project id ((h.ensured project id).mp he) with ⟨t, ht⟩ | ⟨m, hm, hid⟩
    · exact .inl ⟨t, h.ids _ ht⟩
    · obtain ⟨m', hm', hid', -⟩ := h.calm.persists m hm
      exact .inr ⟨m', hm', hid'.trans hid⟩

theorem Inv.mild {strict : Prop} (h : Mild s s') (hi : Inv strict s) : Inv strict s' where
  managed := hi.managed.calm h.calm
  durable := by
    rcases h.durable with hd | ⟨hd, -⟩
    · exact hd ▸ hi.durable
    · exact hi.managed.calm hd
  settled hstrict := (hi.settled hstrict).mild h

/-- The data moved along `R`, and what became durable lies on the way. -/
structure Writes (R : Tables → Tables → Prop) (s s' : FleetWorld) : Prop where
  db : R s.db s'.db
  durable : s'.durable = s.durable ∨ R s.db s'.durable ∧ R s'.durable s'.db
  ids : s'.ids = s.ids
  log : s'.log = s.log

section Writes

variable {R : Tables → Tables → Prop} {op : SessionOp}

theorem writes_run (hrefl : ∀ d, R d d) (htrans : ∀ d d' d'', R d d' → R d' d'' → R d d'')
    (hS : ∀ st, Executes op st → ∀ d, R d (st.apply d)) (s : FleetWorld) : Writes R s (s.run op) := by
  obtain ⟨hdb, hdurable⟩ := (calls_prog op).alone_between hrefl htrans hS s.durable s.db
  exact ⟨hdb, hdurable, rfl, rfl⟩

theorem writes_interrupt (hrefl : ∀ d, R d d) (htrans : ∀ d d' d'', R d d' → R d' d'' → R d d'')
    (hS : ∀ st, Executes op st → ∀ d, R d (st.apply d)) (s : FleetWorld) (n : ℕ) :
    Writes R s (s.interrupt op n) := by
  obtain ⟨hdb, hdurable⟩ := (calls_prog op).interrupted_between hrefl htrans hS n s.durable s.db
  exact ⟨hdb, hdurable, rfl, rfl⟩

theorem Writes.ensured (h : Writes R s s') (project id : String) : Ensured s' project id ↔
    Ensured s project id := by
  simp [Ensured, h.log]

theorem Writes.hatching (h : Writes R s s') : Hatching s' = Hatching s := by
  funext project id
  simp [Hatching, Ensured, h.log, h.ids]

theorem Writes.grows (h : Writes R s s') (hR : ∀ d d', R d d' → Persists d d') : Grows s s' :=
  ⟨hR _ _ h.db, fun _ hi => h.ids ▸ hi, fun _ hi => .inl (h.ids ▸ hi),
    fun project id he => (h.ensured project id).mpr he⟩

theorem Writes.held (h : Writes R s s') (hR : ∀ d, R s.db d → Unmoved l s.db d) : Held l s s' :=
  ⟨hR _ h.db, h.durable.imp id fun hd => hR _ hd.1, fun project id _ he => (h.ensured project id).mp he⟩

theorem Writes.inv {strict : Prop} (h : Writes R s s') (hi : Inv strict s) (hR : ∀ d d', R d d' → Persists d d')
    (hmanaged : ∀ d, R s.db d → Managed d) (hfamily : strict → ∀ d, R s.db d → Family (Hatching s) d) :
    Inv strict s' := by
  refine ⟨hmanaged _ h.db, ?_, fun hstrict => ?_⟩
  · rcases h.durable with hd | ⟨hd, -⟩
    · exact hd ▸ hi.durable
    · exact hmanaged _ hd
  have hs := hi.settled hstrict
  refine ⟨h.hatching ▸ hfamily hstrict _ h.db, ?_, ?_, fun project id he => ?_⟩
  · rw [h.hatching]
    rcases h.durable with hd | ⟨hd, -⟩
    · exact hd ▸ hs.durable
    · exact hfamily hstrict _ hd
  · rcases h.durable with hd | ⟨-, hd⟩
    · exact hd ▸ hs.persists.trans (hR _ _ h.db)
    · exact hR _ _ hd
  · rcases hs.ensured project id ((h.ensured project id).mp he) with ⟨t, ht⟩ | ⟨m, hm, hmid⟩
    · exact .inl ⟨t, h.ids ▸ ht⟩
    · obtain ⟨m', hm', hid', -⟩ := hR _ _ h.db m hm
      exact .inr ⟨m', hm', hid'.trans hmid⟩

/-- What all the tables on the way satisfy, the durable ones satisfy if they did before. -/
theorem Writes.durable_of {P : Tables → Prop} (h : Writes R s s') (hP : P s.durable) (hR : ∀ d, R s.db d → P d) :
    P s'.durable := by
  rcases h.durable with hd | ⟨hd, -⟩
  · exact hd ▸ hP
  · exact hR _ hd

end Writes

/-- The call is no launch, no re-parenting, no request and not the end of `_ensure_pm`. -/
def Gentle : (β : Type) → FleetCall β → Prop
  | _, .write op => Bookkeeping op
  | _, .request _ => False
  | _, .ensured _ _ => False
  | _, _ => True

theorem gentle_of_for {run remove : Prop} (β : Type) (e : FleetCall β) (h : For id run remove β e) :
    Gentle β e := by
  cases e with
  | write op => exact bookkeeping_of_serves h
  | request op => exact h
  | ensured project result => exact h
  | _ => trivial

theorem gentle {α : Type} {R : α → Prop} {p : FleetM α} (hp : Does (For id True True) R p) : Does Gentle R p :=
  hp.mono gentle_of_for fun _ hr => hr

theorem Writes.mild (h : Writes Calm s s') : Mild s s' where
  calm := h.db
  durable := h.durable
  ids _ hi := h.ids ▸ hi
  unused _ hi := .inl (h.ids ▸ hi)
  ensured project id := h.ensured project id

theorem mild_run {op : SessionOp} (hop : Bookkeeping op) (s : FleetWorld) : Mild s (s.run op) :=
  (writes_run Calm.refl (fun _ _ _ => Calm.trans) (fun _ hst d => calm_of_executes hop hst d) s).mild

theorem mild_interrupt {op : SessionOp} (hop : Bookkeeping op) (s : FleetWorld) (n : ℕ) :
    Mild s (s.interrupt op n) :=
  (writes_interrupt Calm.refl (fun _ _ _ => Calm.trans) (fun _ hst d => calm_of_executes hop hst d) s n).mild

theorem mild_request {op : SessionOp} (hn : (s.db.sessions.map (·.id)).Nodup) (hop : Requested op)
    (hrev : ¬Revives s.db op) : Mild s (s.run op) := by
  have hdb : (s.run op).db = op.run s.db := by
    rw [run_eq_alone]
    exact (calls_prog op).alone_working _ _ _
  have hcalm : Calm s.db (s.run op).db := hdb ▸ calm_of_request hn hop hrev
  refine ⟨hcalm, ?_, fun _ hi => hi, fun _ hi => .inl hi, fun _ _ => .rfl⟩
  rcases settles_prog op s.durable s.db with hd | hd
  · exact .inl hd
  · have heq : (s.run op).durable = (s.run op).db := hd
    exact .inr ⟨heq ▸ hcalm, heq ▸ .refl _⟩

theorem mild_refl (s : FleetWorld) : Mild s s :=
  ⟨.refl _, .inl rfl, fun _ hi => hi, fun _ hi => .inl hi, fun _ _ => .rfl⟩

theorem mild_record {e : FleetEntry} (he : ∀ t project id, e ≠ .ensured t project id) (s : FleetWorld) :
    Mild s (s.record e) := by
  refine ⟨.refl _, .inl rfl, fun _ hi => hi, fun _ hi => .inl hi, fun project id => ⟨?_, ?_⟩⟩
  · rintro ⟨t, ht⟩
    rcases List.mem_append.mp ht with ht | ht
    · exact ⟨t, ht⟩
    · exact absurd (List.mem_singleton.mp ht).symm (he t project id)
  · exact fun ⟨t, ht⟩ => ⟨t, List.mem_append_left _ ht⟩

theorem mild_give {t : ℕ} (h : s.unused id = true) : Mild s (s.give id t) := by
  refine ⟨.refl _, .inl rfl, fun _ hi => List.mem_cons_of_mem _ hi, fun i hi => ?_, fun _ _ => .rfl⟩
  rcases List.mem_cons.mp hi with rfl | hi
  · simp only [FleetWorld.unused, Bool.and_eq_true, Bool.not_eq_true', List.any_eq_false, decide_eq_true_eq] at h
    exact .inr h.1.1.2
  · exact .inl hi

theorem mild_of_gentle {β : Type} {e : FleetCall β} (he : Gentle β e) {t : ℕ} {w : FleetAnswer} {b : β}
    (h : fleetHandle e t w s = some (s', b)) : Mild s s' := by
  cases e with
  | write op =>
    cases w with
    | done =>
      cases h
      exact mild_run he s
    | fails e n =>
      cases h
      exact mild_interrupt he s n
    | _ => cases h
  | nextPaneSequence sessionId =>
    have hnext : Bookkeeping (.nextPane sessionId) := trivial
    cases w with
    | done =>
      simp only [fleetHandle, Option.some.injEq, Prod.mk.injEq] at h
      exact h.1 ▸ mild_run hnext s
    | fails e n =>
      cases h
      exact mild_interrupt hnext s n
    | _ => cases h
  | request op => exact he.elim
  | ensured project result => exact he.elim
  | remote sessionId machine command =>
    cases w with
    | done =>
      cases h
      exact mild_record (fun _ _ _ => FleetEntry.noConfusion) s
    | fails e n =>
      cases h
      exact mild_record (fun _ _ _ => FleetEntry.noConfusion) s
    | _ => cases h
  | teardown session force =>
    cases w with
    | done =>
      cases h
      exact mild_record (fun _ _ _ => FleetEntry.noConfusion) s
    | _ => cases h
  | uuid =>
    cases w with
    | text id =>
      simp only [fleetHandle] at h
      split at h
      · next hid =>
        cases h
        exact mild_give hid
      · cases h
    | _ => cases h
  | readText path =>
    cases w with
    | text content =>
      cases h
      exact mild_refl s
    | fails e n =>
      simp only [fleetHandle] at h
      split at h
      · cases h
        exact mild_refl s
      · cases h
    | _ => cases h
  | openPr machine project branch worktree summary sessionId =>
    cases w with
    | text url =>
      simp only [fleetHandle] at h
      split at h
      · cases h
        exact mild_refl s
      · cases h
    | fails e n =>
      cases h
      exact mild_refl s
    | _ => cases h
  | _ => cases w <;> cases h <;> exact mild_refl s

/-- A request whose caller was checked in the state that it finds brings no ended session back. -/
def Final (d : Tables) (op : SessionOp) : Prop := Requested op ∧ ¬Revives d op

variable {strict : Prop}

def contract (strict : Prop) : Contract FleetCall FleetLock FleetWorld where
  inv := Inv strict
  fresh _ _ := True
  rely _ h s s' := Grows s s' ∧ ∀ l ∈ h, Held l s s'
  guar _ h s s' := Grows s s' ∧ ∀ l, l ∉ h → Held l s s'
  assume e t s := match e with
    | .request op => Final s.db op
    | .ensured project (.error _) => strict → TookOver t project s.ids s.db ∧ TookOver t project s.ids s.durable
    | _ => True
  pre e _ _ s := match e with
    | .ensured project (.ok manager) => strict → Remaining project [manager.id] s.db
    | _ => True
  res l s := match l with
    | .orchestrator => True
    | .pm project => strict → NoneHatching project s

theorem res_held (h : Grows s s') (hl : Held l s s') (hres : (contract strict).res l s) :
    (contract strict).res l s' := by
  cases l with
  | orchestrator => trivial
  | pm project => exact fun hstrict => (hres hstrict).held h hl

theorem contract_coherent (strict : Prop) : (contract strict).Coherent where
  rely_refl _ _ s := ⟨.refl s, fun l _ => .refl l s⟩
  rely_trans h h' := ⟨h.1.trans h'.1, fun l hl => (h.2 l hl).trans (h'.2 l hl)⟩
  guar_rely _ hd _ _ hg := ⟨hg.1, fun l hl => hg.2 l fun hl' => hd l hl' hl⟩
  guar_fresh _ _ _ _ := trivial
  guar_res hl _ _ hg hres := res_held hg.1 (hg.2 _ hl) hres

/-- The other threads cannot spoil the fact. -/
def Stable (strict : Prop) (t : ℕ) (h : List FleetLock) (J : FleetWorld → Prop) : Prop :=
  ∀ s s', J s → (contract strict).rely t h s s' → J s'

variable {t : ℕ} {h : List FleetLock} {J J' : FleetWorld → Prop}

theorem stable_and (hJ : Stable strict t h J) (hJ' : Stable strict t h J') : Stable strict t h fun s =>
    J s ∧ J' s :=
  fun s s' hs hr => ⟨hJ s s' hs.1 hr, hJ' s s' hs.2 hr⟩

theorem Mild.rely (hm : Mild s s') : (contract strict).rely t h s s' := ⟨hm.grows, fun l _ => hm.held l⟩

theorem Mild.guar (hm : Mild s s') : (contract strict).guar t h s s' := ⟨hm.grows, fun l _ => hm.held l⟩

/-- Gentle calls keep what the other threads cannot spoil. -/
theorem safe_gentle (hJ : Stable strict t h J) {α : Type} {R : α → Prop} {p : FleetM α} (hp : Does Gentle R p)
    (hs : J s) : Safe fleetInterp (contract strict) t
      (fun r h' s' => h' = h ∧ (∀ a, r = .ok a → R a) ∧ J s') p h s := by
  refine Safe.of_performs (V := Possible) (P := Gentle) ?_ (fun s s' hj hr _ => hJ s s' hj hr) ?_ hp hs
  · intro β e w s s' b hh
    exact possible_of_handle hh
  · intro β e he s hi hj _
    refine ⟨?_, fun w s' b hh => ?_⟩
    · cases e with
      | ensured => exact he.elim
      | _ => trivial
    · have hm : Mild s s' := mild_of_gentle he hh
      exact ⟨hm.guar, hi.mild hm, hJ s s' hj hm.rely⟩

end WorkerHarness.ManagerLocks
