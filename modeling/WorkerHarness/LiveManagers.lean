import WorkerHarness.ManagerLaunches

/-!
# One live manager of each project, one live orchestrator

The callers of the orchestrator in one process: any number of lookups, launches, messages, task
launches, polls and teardowns, interleaved at every await and interrupted at any of them, while
bridges report. Whoever launches a manager holds the lock of its project from the lookup on, so
that a second live one never appears.
-/

namespace WorkerHarness.LiveManagers

open Coroutines SharedTransactions Database LiveSessions ManagerRows ManagerLocks LaunchedSessions ManagerLaunches
open Orchestrator OrchestratorCalls

attribute [local irreducible] FleetRoutes.enqueuePrompt

variable {strict : Prop} {t : ℕ} {h : List FleetLock} {l : FleetLock} {project : String} {s s' : FleetWorld}
  {d : Tables}
  {α β : Type} {J : FleetWorld → Prop}

theorem safe_query {q : Tables → α} {f : α → FleetM β}
    {Q : Except FleetError β → List FleetLock → FleetWorld → Prop} (hJ : Stable strict t h J) (hs : J s)
    (herror : ∀ e s', J s' → Q (.error e) h s')
    (hf : ∀ s', Inv strict s' → J s' → Safe fleetInterp (contract strict) t Q (f (q s'.db)) h s') :
    Safe fleetInterp (contract strict) t Q ((Orchestrator.query q).bind f) h s := by
  intro s₁ hr₁ hi₁ _
  have hs₁ : J s₁ := hJ s s₁ hs hr₁
  refine ⟨trivial, fun w s₂ b hh => ?_⟩
  cases w with
  | done =>
    cases hh
    exact ⟨(mild_refl s₁).guar, hi₁, hf s₁ hi₁ hs₁⟩
  | fails e n =>
    cases hh
    exact ⟨(mild_refl s₁).guar, hi₁, safe_raise hJ hs₁ fun s' hs' => herror e s' hs'⟩
  | _ => cases hh

theorem stable_true : Stable strict t h fun _ => True := fun _ _ _ _ => trivial

theorem stable_res (hl : l ∈ h) : Stable strict t h ((contract strict).res l) :=
  fun _ _ hs hrely => res_held hrely.1 (hrely.2 l hl) hs

/-- A coroutine under a lock that restores what the lock protects. -/
theorem safe_locked {p : FleetM α} (hp : ∀ s, Inv strict s → (contract strict).res l s →
    Safe fleetInterp (contract strict) t (fun _ h' s' => h' = [l] ∧ (contract strict).res l s') p [l] s) :
    Safe fleetInterp (contract strict) t (fun _ h' _ => h' = []) (locked l p) [] s := by
  refine safe_gentle_bind stable_true (R := Any) (.await trivial fun _ _ => trivial) trivial (fun _ _ _ => rfl)
    fun _ s₁ _ _ => ?_
  refine Safe.withLock (contract_coherent strict) (fun s₂ _ hi hres_l hres => ?_) fun s s' hr => ⟨hr.1, by simp⟩
  refine Safe.mono ?_ (hp s₂ hi hres)
  rintro r h' s' - ⟨rfl, hres'⟩
  exact ⟨rfl, fun s'' hr _ => stable_res (List.mem_singleton_self l) s' s'' hres' hr, fun _ _ _ => rfl⟩

theorem safe_gentle_any {R : α → Prop} (hJ : Stable strict t h J) {p : FleetM α} (hp : Does Gentle R p) (hs : J s) :
    Safe fleetInterp (contract strict) t (fun _ h' s' => h' = h ∧ J s') p h s :=
  Safe.mono (fun _ _ _ _ hq => ⟨hq.1, hq.2.2⟩) (safe_gentle hJ hp hs)

theorem safe_launch_head {cfg : FleetConfig} {launching : Launch} {parents : List String} (hl : l ∈ h)
    (hhead : ∀ sid row, Launched launching sid row → leads l row) (hs : Vacant strict l parents s) :
    Safe fleetInterp (contract strict) t
      (Ends h launching (Launching strict t l parents) (Vacant strict l parents)) (launch cfg launching) h s :=
  safe_launch (permits_launching hl hhead) (stable_vacant hl) (fun _ _ hs hid => launching_of_vacant hs hid) hs

theorem safe_launchOrchestrator (cfg : FleetConfig) (sessions : List PiSession)
    (hs : Vacant strict .orchestrator [] s) :
    Safe fleetInterp (contract strict) t (fun _ h' _ => h' = [.orchestrator])
      (launchOrchestrator cfg sessions) [.orchestrator] s := by
  unfold launchOrchestrator
  split
  · exact safe_raise stable_true trivial fun _ _ => rfl
  · next machine _ =>
    dsimp only
    generalize (if cfg.orchestratorCwd = "" then machine.home ++
      "/Work/agent-orchestrator" else cfg.orchestratorCwd) = repo
    split
    · exact safe_raise stable_true trivial fun _ _ => rfl
    · refine Safe.mono ?_ (safe_launch_head (List.mem_singleton_self _) ?_ hs)
      · exact fun _ _ _ _ hq => hq.1
      · exact fun sid row hrow => hrow.role

theorem safe_ensureOrchestratorLocked (cfg : FleetConfig) :
    Safe fleetInterp (contract strict) t (fun _ h' _ => h' = [.orchestrator])
      (ensureOrchestratorLocked cfg) [.orchestrator] s := by
  refine safe_query stable_true trivial (fun _ _ _ => rfl) fun s₁ _ _ => ?_
  cases hfirst : firstLive (sessionsByRole s₁.db "orchestrator") with
  | some session =>
    exact Safe.mono (fun _ _ _ _ hq => hq.1)
      (safe_gentle_any stable_true (gentle (performs_liveSession session cfg)) trivial)
  | none =>
    have hvacant : ∀ m ∈ s₁.db.sessions, leads .orchestrator m → ¬live m := not_live_of_firstLive hfirst
    exact safe_launchOrchestrator cfg _ ⟨hvacant, fun _ project hp => by cases hp⟩

theorem safe_ensureOrchestrator (cfg : FleetConfig) :
    Safe fleetInterp (contract strict) t (fun _ h' _ => h' = []) (ensureOrchestrator cfg) [] s :=
  safe_locked fun _ _ _ => Safe.mono (fun _ _ _ _ hq => ⟨hq, trivial⟩) (safe_ensureOrchestratorLocked cfg)

/-- `_ensure_pm` is about to return the manager of this id. -/
structure Returning (strict : Prop) (project id : String) (s : FleetWorld) : Prop where
  row : ∃ m ∈ s.db.sessions, leads (.pm project) m ∧ m.id = id
  adopted : strict → Remaining project [id] s.db
  durable : strict → Hatching s project id → Remaining project [id] s.durable
  others : strict → ∀ m ∈ s.db.sessions, leads (.pm project) m → live m → Hatching s project m.id → m.id = id

variable {id : String}

theorem stable_returning (hl : .pm project ∈ h) : Stable strict t h (Returning strict project id) := by
  intro s s' hs hrely
  have hheld := hrely.2 _ hl
  obtain ⟨m, hm, hlead, hid⟩ := hs.row
  refine ⟨?_, fun hstrict => (hs.adopted hstrict).unmoved hheld.unmoved, fun hstrict hh => ?_,
    fun hstrict m' hm' hlead' hlive hh => ?_⟩
  · obtain ⟨m', hm', hid', hrole, hproject⟩ := hrely.1.persists m hm
    exact ⟨m', hm', (leads_congr hrole hproject).mpr hlead, hid'.trans hid⟩
  · have hold : Hatching s project id := hid ▸ Hatching.of_grows hrely.1 hm (hid.symm ▸ hh)
    exact (hs.adopted hstrict).held hheld (hs.durable hstrict hold)
  · obtain ⟨a, ha, hc⟩ := hheld.unmoved m' hm' (guards_of_leads hlead')
    rw [hc.id] at hh ⊢
    exact hs.others hstrict a ha ((leads_congr hc.role hc.project).mp hlead') (hc.live hlive)
      (hh.of_grows hrely.1 ha)

/-- The live manager that the lookup finds has been returned before, so that it has all tasks. -/
theorem returning_of_live {m : PiSession} (hi : Inv strict s) (hn : strict → NoneHatching project s)
    (hm : m ∈ s.db.sessions) (hlead : leads (.pm project) m) (hlive : live m) :
    Returning strict project m.id s where
  row := ⟨m, hm, hlead, rfl⟩
  adopted hstrict r hr hw hrlive :=
    ⟨m.id, List.mem_singleton_self _,
      (hi.settled hstrict).family.adopted project m hm hlead hlive (hn hstrict m hm hlead hlive) r hr hw hrlive⟩
  durable hstrict hh := absurd hh (hn hstrict m hm hlead hlive)
  others hstrict m' hm' hlead' hlive' hh := absurd hh (hn hstrict m' hm' hlead' hlive')

theorem returning_of_takingOver (hs : TakingOver strict t project [] id s) : Returning strict project id s where
  row := hs.leader
  adopted hstrict := (hs.launching.remaining hstrict project rfl).1
  durable hstrict _ := (hs.launching.remaining hstrict project rfl).2
  others _ m hm hlead hlive _ := hs.launching.leader m hm hlead hlive

theorem own_of_launching {parents : List String} (hs : Launching strict t (.pm project) parents id s) :
    OwnHatching t project s := by
  intro m hm hlead hlive _
  rw [hs.leader m hm hlead hlive]
  exact hs.mine

theorem own_of_vacant {parents : List String} (hs : Vacant strict (.pm project) parents s) :
    OwnHatching t project s :=
  fun m hm hlead hlive _ => absurd hlive (hs.vacant m hm hlead)

/-- The tasks of a project without a live manager have one of its former managers as parent. -/
theorem vacant_of_firstLive (hi : Inv strict s) (hfirst : firstLive (projectSessions s.db project) = none) :
    Vacant strict (.pm project) ((projectSessions s.db project).map (·.id)) s where
  vacant := not_live_of_firstLive (l := .pm project) hfirst
  remaining hstrict q hq := by
    cases hq
    have hs := hi.settled hstrict
    have hmem : ∀ m ∈ s.db.sessions, leads (.pm project) m → m.id ∈ (projectSessions s.db project).map (·.id) :=
      fun m hm hlead => List.mem_map_of_mem (mem_heads (l := .pm project).mpr ⟨hm, hlead⟩)
    refine ⟨fun r hr hw hlive => ?_, fun r hr hw hlive => ?_⟩
    · obtain ⟨m, hm, hlead, hparent⟩ := hs.family.parents project r hr hw hlive
      exact ⟨m.id, hmem m hm hlead, hparent⟩
    · obtain ⟨m, hm, hlead, hparent⟩ := hs.durable.parents project r hr hw hlive
      obtain ⟨m', hm', hid, hrole, hproject⟩ := hs.persists m hm
      exact ⟨m'.id, hmem m' hm' ((leads_congr hrole hproject).mpr hlead), hid.symm ▸ hparent⟩

/-- How `_ensure_pm` ends. -/
def Ensures (strict : Prop) (t : ℕ) (project : String) (r : Except FleetError PiSession) (h' : List FleetLock)
    (s : FleetWorld) : Prop :=
  h' = [.pm project] ∧ match r with
    | .ok manager => Returning strict project manager.id s
    | .error _ => strict → OwnHatching t project s

theorem stable_own (hl : .pm project ∈ h) : Stable strict t h fun s => strict → OwnHatching t project s :=
  fun _ _ hs hrely hstrict => (hs hstrict).held hrely.1 (hrely.2 _ hl)

theorem safe_launchPm (cfg : FleetConfig) {p : Project} (hp : p.name = project) (sessions : List PiSession)
    (hs : Vacant strict (.pm project) (sessions.map (·.id)) s) :
    Safe fleetInterp (contract strict) t (Ensures strict t project) (launchPm cfg p sessions) [.pm project] s := by
  have hl : FleetLock.pm project ∈ [FleetLock.pm project] := List.mem_singleton_self _
  refine safe_gentle_bind (stable_vacant hl) (performs_projectMachine cfg p) hs
    (fun e s' hs' => ⟨rfl, fun _ => own_of_vacant hs'⟩) fun machine s₁ _ hs₁ => ?_
  refine Safe.bind (contract_coherent strict) (Safe.mono ?_ (safe_launch_head hl ?_ hs₁))
  · rintro r h' s₂ - ⟨rfl, hr⟩
    cases r with
    | error e =>
      intro s₃ hr₃ _
      refine ⟨rfl, fun _ => ?_⟩
      rcases hr with hr | ⟨sid, hr⟩
      · exact own_of_vacant (stable_vacant hl s₂ s₃ hr hr₃)
      · exact own_of_launching (stable_launching hl s₂ s₃ hr hr₃)
    | ok manager =>
      obtain ⟨hlaunching, m, hm, hid, hrole, hproject⟩ := hr
      have htaking : TakingOver strict t project (sessions.map (·.id)) manager.id s₂ :=
        ⟨hlaunching, m, hm, ⟨hrole, (hproject (by simp)).trans (by rw [hp])⟩, hid⟩
      refine Safe.bind (contract_coherent strict) (Safe.mono ?_ (safe_reparents hl sessions htaking))
      rintro r h' s₃ - ⟨rfl, ⟨parents, hs₃⟩, hdone⟩
      cases r with
      | error e =>
        intro s₄ hr₄ _
        exact ⟨rfl, fun _ => own_of_launching (stable_takingOver hl s₃ s₄ hs₃ hr₄).launching⟩
      | ok u =>
        intro s₄ hr₄ _
        exact ⟨rfl, returning_of_takingOver (stable_takingOver hl s₃ s₄ (hdone rfl) hr₄)⟩
  · intro sid row hrow
    exact ⟨hrow.role, (hrow.project (by simp)).trans (by rw [hp])⟩

theorem safe_ensurePmLocked (cfg : FleetConfig) (hs : strict → NoneHatching project s) :
    Safe fleetInterp (contract strict) t (Ensures strict t project) (ensurePmLocked cfg project)
    [.pm project] s := by
  have hl : FleetLock.pm project ∈ [FleetLock.pm project] := List.mem_singleton_self _
  have hres : Stable strict t [.pm project] fun s => strict → NoneHatching project s := stable_res hl
  have herror : ∀ (e : FleetError) s', (strict → NoneHatching project s') →
      Ensures strict t project (.error e) [.pm project] s' :=
        fun e s' hs' => ⟨rfl, fun hstrict => (hs' hstrict).own⟩
  refine safe_gentle_bind hres (performs_project cfg project) hs herror fun p s₁ hp hs₁ => ?_
  refine safe_query hres hs₁ herror fun s₂ hi₂ hs₂ => ?_
  cases hfirst : firstLive (projectSessions s₂.db project) with
  | none => exact safe_launchPm cfg hp _ (vacant_of_firstLive hi₂ hfirst)
  | some session =>
    obtain ⟨hmem, hlive⟩ := firstLive_eq_some hfirst
    obtain ⟨hm, hlead⟩ := (mem_heads (l := .pm project)).mp hmem
    have hreturning := returning_of_live hi₂ hs₂ hm hlead hlive
    refine Safe.mono ?_ (safe_gentle (stable_and (stable_returning hl) hres)
      (gentle (performs_liveSession session cfg))
      ⟨hreturning, hs₂⟩)
    rintro r h' s₃ - ⟨rfl, hr, hs₃, hn⟩
    refine ⟨rfl, ?_⟩
    cases r with
    | ok current =>
      have hid : current.id = session.id := hr current rfl
      change Returning strict project current.id s₃
      rw [hid]
      exact hs₃
    | error e => exact fun hstrict => (hn hstrict).own

/-- A call is through with the ids in `C`: the managers among them have all tasks of the project. -/
theorem concluded {C : String → Prop} (hi : Inv strict s) (hdb : s'.db = s.db) (hdurable : s'.durable = s.durable)
    (hids : s'.ids = s.ids) (hlog : ∀ q i, Ensured s' q i ↔ Ensured s q i ∨ q = project ∧ C i)
    (hC : ∀ i, C i → (∃ t, (i, t) ∈ s.ids) ∨ ∃ m ∈ s.db.sessions, m.id = i)
    (hremaining : strict → ∀ d, d = s.db ∨ d = s.durable → ∀ m ∈ d.sessions, leads (.pm project) m → live m →
      Hatching s project m.id → C m.id → Remaining project [m.id] d)
    (hall : strict → ∀ m ∈ s.db.sessions, leads (.pm project) m → live m → Hatching s project m.id → C m.id) :
    (contract strict).guar t [.pm project] s s' ∧ Inv strict s' ∧ (strict → NoneHatching project s') := by
  have hback : ∀ {q i}, Hatching s' q i → Hatching s q i ∧ ¬(q = project ∧ C i) := fun hh =>
    ⟨⟨hids ▸ hh.1, fun he => hh.2 ((hlog _ _).mpr (.inl he))⟩, fun he => hh.2 ((hlog _ _).mpr (.inr he))⟩
  -- The tasks of every other manager are as before.
  have hfamily : strict → ∀ d, d = s.db ∨ d = s.durable → Family (Hatching s) d → Family (Hatching s') d := by
    intro hstrict d hd hf
    refine ⟨hf.parents, fun q m hm hlead hlive hn r hr' hw hrlive => ?_⟩
    by_cases hold : Hatching s q m.id
    · have hnew : q = project ∧ C m.id := by
        refine not_not.mp fun hne => hn ⟨hids.symm ▸ hold.1, fun he => ?_⟩
        exact ((hlog _ _).mp he).elim hold.2 hne
      obtain ⟨rfl, hc⟩ := hnew
      obtain ⟨i, hmem, hparent⟩ := hremaining hstrict d hd m hm hlead hlive hold hc r hr' hw hrlive
      rwa [List.mem_singleton.mp hmem] at hparent
    · exact hf.adopted q m hm hlead hlive hold r hr' hw hrlive
  refine ⟨⟨⟨hdb ▸ .refl _, fun i hi => hids ▸ hi, fun i hi => .inl (hids ▸ hi),
    fun _ _ he => (hlog _ _).mpr (.inl he)⟩,
    fun l hl => ⟨hdb ▸ .refl _ _, .inl hdurable, fun q i hq he => ?_⟩⟩,
    ⟨hdb ▸ hi.managed, hdurable ▸ hi.durable, fun hstrict => ?_⟩, fun hstrict => ?_⟩
  · refine ((hlog _ _).mp he).resolve_right fun hne => hl ?_
    rw [hq, hne.1]
    exact List.mem_singleton_self _
  · have hs := hi.settled hstrict
    refine ⟨hdb ▸ hfamily hstrict _ (.inl rfl) hs.family, hdurable ▸ hfamily hstrict _ (.inr rfl) hs.durable,
      hdb ▸ hdurable ▸ hs.persists, fun q i he => ?_⟩
    rw [hids, hdb]
    exact ((hlog _ _).mp he).elim (hs.ensured q i) fun hc => hC i hc.2
  · intro m hm hlead hlive hh
    rw [hdb] at hm
    exact (hback hh).2 ⟨rfl, hall hstrict m hm hlead hlive (hback hh).1⟩

theorem ensured_record (s : FleetWorld) (t : ℕ) (project id q i : String) :
    Ensured (s.record (.ensured t project id)) q i ↔ Ensured s q i ∨ q = project ∧ i = id := by
  constructor
  · rintro ⟨t', ht'⟩
    rcases List.mem_append.mp ht' with ht' | ht'
    · exact .inl ⟨t', ht'⟩
    · cases List.mem_singleton.mp ht'
      exact .inr ⟨rfl, rfl⟩
  · rintro (⟨t', ht'⟩ | ⟨rfl, rfl⟩)
    · exact ⟨t', List.mem_append_left _ ht'⟩
    · exact ⟨t, List.mem_append_right _ (List.mem_singleton_self _)⟩

theorem ensured_conclude (s : FleetWorld) (t : ℕ) (project q i : String) :
    Ensured (s.conclude t project) q i ↔ Ensured s q i ∨ q = project ∧ (i, t) ∈ s.ids := by
  constructor
  · rintro ⟨t', ht'⟩
    rcases List.mem_append.mp ht' with ht' | ht'
    · exact .inl ⟨t', ht'⟩
    · obtain ⟨⟨i', t''⟩, hi', he⟩ := List.mem_map.mp ht'
      obtain ⟨hmem, hown⟩ := List.mem_filter.mp hi'
      cases he
      have hown' : t'' = t := of_decide_eq_true hown
      exact .inr ⟨rfl, hown' ▸ hmem⟩
  · rintro (⟨t', ht'⟩ | ⟨rfl, hmem⟩)
    · exact ⟨t', List.mem_append_left _ ht'⟩
    · refine ⟨t, List.mem_append_right _ (List.mem_map.mpr ⟨(i, t), List.mem_filter.mpr ⟨hmem, ?_⟩, rfl⟩)⟩
      simp

/-- The manager is returned. -/
theorem returned (hi : Inv strict s) (hs : Returning strict project id s) :
    (contract strict).guar t [.pm project] s (s.record (.ensured t project id)) ∧
      Inv strict (s.record (.ensured t project id)) ∧
      (strict → NoneHatching project (s.record (.ensured t project id))) := by
  refine concluded (C := fun i => i = id) hi rfl rfl rfl (ensured_record s t project id) ?_ ?_ hs.others
  · rintro i rfl
    obtain ⟨m, hm, -, hid⟩ := hs.row
    exact .inr ⟨m, hm, hid⟩
  · rintro hstrict d hd m - - - hh hid
    rw [hid] at hh ⊢
    rcases hd with rfl | rfl
    · exact hs.adopted hstrict
    · exact hs.durable hstrict hh

/-- The call raises: what it launched has all tasks. -/
theorem abandoned (hi : Inv strict s) (hown : strict → OwnHatching t project s)
    (htook : strict → TookOver t project s.ids s.db ∧ TookOver t project s.ids s.durable) :
    (contract strict).guar t [.pm project] s (s.conclude t project) ∧ Inv strict (s.conclude t project) ∧
      (strict → NoneHatching project (s.conclude t project)) := by
  refine concluded (C := fun i => (i, t) ∈ s.ids) hi rfl rfl rfl (ensured_conclude s t project)
    (fun i hmem => .inl ⟨t, hmem⟩) ?_ hown
  rintro hstrict d hd m hm hlead hlive - hmem
  rcases hd with rfl | rfl
  · exact (htook hstrict).1 m hm hlead hlive hmem
  · exact (htook hstrict).2 m hm hlead hlive hmem

theorem safe_pmSession {body : PiSession → FleetM α} (cfg : FleetConfig)
    (hbody : ∀ manager, Does Gentle Any (body manager)) :
    Safe fleetInterp (contract strict) t (fun _ h' _ => h' = []) (pmSession cfg project body) [] s := by
  have hl : FleetLock.pm project ∈ [FleetLock.pm project] := List.mem_singleton_self _
  refine safe_gentle_bind stable_true (performs_project cfg project) trivial (fun _ _ _ => rfl) fun p s₀ _ _ => ?_
  refine safe_locked fun s₁ _ hres => ?_
  refine Safe.bind (contract_coherent strict) (Safe.attempt (Safe.mono ?_ (safe_ensurePmLocked cfg hres)))
  rintro r h' s₂ - ⟨rfl, hr⟩ s₃ hr₃ hi₃ hassume
  cases r with
  | error e =>
    refine ⟨trivial, fun w s₄ b hh => ?_⟩
    cases w with
    | done =>
      cases hh
      obtain ⟨hg, hi, hnone⟩ := abandoned hi₃ (stable_own hl s₂ s₃ hr hr₃) hassume
      exact ⟨hg, hi, safe_raise (stable_res hl) hnone fun s' hs' => ⟨rfl, hs'⟩⟩
    | _ => cases hh
  | ok manager =>
    have hreturning : Returning strict project manager.id s₃ := stable_returning hl s₂ s₃ hr hr₃
    refine ⟨hreturning.adopted, fun w s₄ b hh => ?_⟩
    cases w with
    | done =>
      cases hh
      obtain ⟨hg, hi, hnone⟩ := returned hi₃ hreturning
      exact ⟨hg, hi, safe_gentle_any (stable_res hl) (hbody manager) hnone⟩
    | _ => cases hh

theorem safe_launchTask (cfg : FleetConfig) (p : Project) (branch briefing parent : String) :
    Safe fleetInterp (contract strict) t (fun _ h' _ => h' = []) (launchTask cfg p branch briefing parent)
    [] s := by
  refine safe_locked fun s₁ _ hres => ?_
  have hl : FleetLock.pm p.name ∈ [FleetLock.pm p.name] := List.mem_singleton_self _
  refine safe_query (stable_res hl) hres (fun _ s' hs' => ⟨rfl, hs'⟩) fun s₂ hi₂ hs₂ => ?_
  cases haccepts : acceptsParent s₂.db p.name parent with
  | none => exact safe_raise (stable_res hl) hs₂ fun s' hs' => ⟨rfl, hs'⟩
  | some m =>
    obtain ⟨hfind, hparent⟩ := Option.filter_eq_some_iff.mp haccepts
    simp only [Bool.and_eq_true, decide_eq_true_eq, Bool.not_eq_true'] at hparent
    have hm : m ∈ s₂.db.sessions := List.mem_of_find?_eq_some hfind
    have hlead : leads (.pm p.name) m := hparent.1
    have hmanager : HasManager strict p.name parent s₂ := by
      refine ⟨⟨m, hm, hlead, findSession_id hfind⟩, fun m' hm' hlead' hlive' => ?_, hs₂⟩
      rw [hi₂.managed.unique _ m' hm' m hm hlead' hlead hlive' hparent.2]
      exact findSession_id hfind
    have hstable : Stable strict t [.pm p.name] (HasManager strict p.name parent) := stable_hasManager hl
    refine safe_gentle_bind hstable (performs_projectMachine cfg p) hmanager
      (fun _ s' hs' => ⟨rfl, hs'.hatched⟩) fun machine s₃ _ hs₃ => ?_
    refine Safe.mono ?_ (safe_launch (permits_task hl rfl rfl rfl) hstable (fun _ _ hs _ => hs) hs₃)
    rintro r h' s₄ - ⟨rfl, hr⟩
    refine ⟨rfl, ?_⟩
    cases r with
    | ok session => exact hr.1.hatched
    | error e =>
      rcases hr with hr | ⟨sid, hr⟩
      · exact hr.hatched
      · exact hr.hatched

theorem safe_pollSession (cfg : FleetConfig) (now : ℕ) (tasks : List PiSession) (session : PiSession) :
    Safe fleetInterp (contract strict) t (fun _ h' _ => h' = []) (pollSession cfg now tasks session) [] s := by
  unfold pollSession
  split
  · exact fun _ _ _ => rfl
  · split
    · rcases metaItem_cases session "project" with ⟨-, hproject⟩ | hproject
      · rw [hproject]
        change Safe fleetInterp _ t _ (if _ then _ else _) _ _
        split
        · refine safe_locked fun s₁ _ hres => ?_
          exact safe_gentle_any (stable_res (List.mem_singleton_self _))
            (gentle (performs_retirePm session cfg now)) hres
        · exact fun _ _ _ => rfl
      · rw [hproject]
        exact fun _ _ _ => rfl
    · exact Safe.mono (fun _ _ _ _ hq => hq.1)
        (safe_gentle_any stable_true (gentle (performs_reportState session cfg _ _)) trivial)

theorem safe_poll (cfg : FleetConfig) :
    Safe fleetInterp (contract strict) t (fun _ h' _ => h' = []) (poll cfg) [] s := by
  have hquery : ∀ {β : Type} (q : Tables → β), Does Gentle Any (Orchestrator.query q) :=
    fun q => .await trivial fun _ _ => trivial
  refine safe_gentle_bind stable_true (R := Any) (.call trivial fun _ _ => trivial) trivial (fun _ _ _ => rfl)
    fun now s₁ _ _ => ?_
  refine safe_gentle_bind stable_true (hquery _) trivial (fun _ _ _ => rfl) fun tasks s₂ _ _ => ?_
  refine safe_gentle_bind stable_true (hquery _) trivial (fun _ _ _ => rfl) fun orchestrators s₃ _ _ => ?_
  refine safe_gentle_bind stable_true (hquery _) trivial (fun _ _ _ => rfl) fun managers s₄ _ _ => ?_
  refine Safe.forEach (J := fun h' _ => h' = []) (contract_coherent strict) (fun _ _ _ hh _ _ => hh)
    (fun _ _ _ hh => hh) ?_ _ rfl
  rintro session h' s₅ rfl
  refine Safe.catching (contract_coherent strict) (Safe.mono ?_ (safe_pollSession cfg now tasks session))
  rintro r h' s₆ - rfl
  cases r with
  | ok u => exact fun _ _ _ => rfl
  | error e => cases e <;> exact fun _ _ _ => (by first | rfl | exact fun _ _ _ => rfl)

/-- What runs in the process: the callers of the orchestrator and the requests of bridges and agents,
each of which checks its caller and calls the database in one step. -/
inductive Caller (cfg : FleetConfig) : FleetM Unit → Prop where
  | ensureOrchestrator : Caller cfg ((ensureOrchestrator cfg).bind fun _ => .ret ())
  | ensurePm (project : String) : Caller cfg ((ensurePm cfg project).bind fun _ => .ret ())
  | send (project message deliverAs : String) (caller : Option PiSession) : Caller cfg
      (pmSession cfg project fun manager => FleetRoutes.enqueuePrompt manager message deliverAs caller)
  | launchTask (p : Project) (branch briefing parent : String) :
      Caller cfg ((launchTask cfg p branch briefing parent).bind fun _ => .ret ())
  | poll : Caller cfg (poll cfg)
  | teardown (session : PiSession) (force : Bool) : Caller cfg (teardownTask cfg session force)
  | request (op : SessionOp) : Caller cfg (Prog.await (.request op))

theorem safe_ret {p : FleetM α} (hp : Safe fleetInterp (contract strict) t (fun _ h' _ => h' = []) p [] s) :
    Safe fleetInterp (contract strict) t (fun _ h' _ => h' = []) (p.bind fun _ => .ret ()) [] s := by
  refine Safe.bind (contract_coherent strict) (Safe.mono ?_ hp)
  rintro r h' s' - rfl
  cases r <;> exact fun _ _ _ => rfl

theorem safe_caller {cfg : FleetConfig} {p : FleetM Unit} (hp : Caller cfg p) :
    Safe fleetInterp (contract strict) t (fun _ h' _ => h' = []) p [] s := by
  cases hp with
  | ensureOrchestrator => exact safe_ret (safe_ensureOrchestrator cfg)
  | ensurePm project => exact safe_ret (safe_pmSession cfg fun manager => (trivial : Any manager))
  | send project message deliverAs caller =>
    exact safe_pmSession cfg fun manager => gentle (performs_enqueuePrompt manager message deliverAs caller)
  | launchTask p branch briefing parent => exact safe_ret (safe_launchTask cfg p branch briefing parent)
  | poll => exact safe_poll cfg
  | teardown session force =>
    have hdoes : Does Gentle Any (teardownTask cfg session force) :=
      @performs_teardownTask True True session _ trivial cfg force trivial gentle_of_for
    exact Safe.mono (fun _ _ _ _ hq => hq.1) (safe_gentle_any stable_true hdoes trivial)
  | request op =>
    intro s₁ _ hi₁ hfinal
    refine ⟨trivial, fun w s₂ b hh => ?_⟩
    cases w with
    | done =>
      cases hh
      have hm : Mild s₁ (s₁.run op) := mild_request hi₁.managed.nodup hfinal.1 hfinal.2
      refine ⟨hm.guar, hi₁.mild hm, ?_⟩
      cases ((alone op.prog s₁.durable s₁.db).1.mapError FleetError.database) <;> exact fun _ _ _ => rfl
    | _ => cases hh

abbrev FleetPool := Pool FleetCall FleetLock FleetError Unit FleetWorld

abbrev FleetEvent := Event FleetCall FleetLock FleetError Unit FleetAnswer

/-- A request that the thread is about to make finds its caller as it was checked. -/
def Atomic (c : FleetPool) (t : ℕ) : Prop :=
  ∀ op k held, c.threads[t]? = some ⟨.perform (.request op) k, held⟩ → Final c.state.db op

/-- The request of a session whose token is checked in the state that the request finds. -/
theorem final_of_authenticate {app : AppState} {request : SessionTokens.Request} {token : String}
    {caller : PiSession}
    (hn : (d.sessions.map (·.id)).Nodup) (h : request.authenticate app token d = .ok (some caller)) :
    Final d request.op :=
  ⟨by cases request <;> trivial, not_revives_of_authenticate hn h⟩

/-- When `_ensure_pm` raises, the live managers that it launched have all live tasks of the project,
in the tables and in what is durable of them. -/
def Completes (c : FleetPool) (t : ℕ) : Prop :=
  ∀ project e k held, c.threads[t]? = some ⟨.perform (.ensured project (.error e)) k, held⟩ →
    TookOver t project c.state.ids c.state.db ∧ TookOver t project c.state.ids c.state.durable

/-- Any callers at any time; an interruption is the answer to an await. -/
def Interleaving (cfg : FleetConfig) (more : FleetPool → ℕ → Prop) : FleetPool → FleetEvent → Prop
  | _, .spawn p => Caller cfg p
  | c, .go t _ => Atomic c t ∧ more c t
  | _, .cancel _ _ => False
  | _, .crash _ => False

/-- What a process finds when it starts: nothing, or what a process before it made durable. -/
inductive Boots (cfg : FleetConfig) (more : FleetPool → ℕ → Prop) (ends : FleetWorld → Prop) : FleetWorld →
    Prop where
  | first : Boots cfg more ends {}
  | again {s : FleetWorld} {c : FleetPool} : Boots cfg more ends s →
      Pool.Reachable fleetInterp (Interleaving cfg more) s c → ends c.state → Boots cfg more ends c.state.restarted

/-- When the process ends, the live managers whose launch still goes on have all live tasks of their
project, as far as that is durable. -/
def LeavesNothing (s : FleetWorld) : Prop :=
  ∀ project, ∀ m ∈ s.durable.sessions, leads (.pm project) m → live m → Hatching s project m.id →
    Remaining project [m.id] s.durable

variable {cfg : FleetConfig} {more : FleetPool → ℕ → Prop} {ends : FleetWorld → Prop} {c : FleetPool}

theorem sound_of_reachable (hmore : ∀ c t, more c t → strict → Completes c t) (hi : Inv strict s)
    (hids : s.ids = [])
    (hc : Pool.Reachable fleetInterp (Interleaving cfg more) s c) :
    Pool.Sound fleetInterp (contract strict) (fun _ _ h' _ => h' = []) c := by
  refine Pool.Reachable.sound (contract_coherent strict) hi (fun _ => trivial) ?_
    (fun _ p hp t s _ _ => safe_caller hp)
    ?_ (fun _ _ _ hok => hok.elim) (fun _ _ hok => hok.elim) ?_ hc
  · intro l
    cases l with
    | orchestrator => trivial
    | pm project =>
      rintro - m - - - ⟨⟨t, ht⟩, -⟩
      rw [hids] at ht
      cases ht
  · intro c t w β e k held hok ht
    cases e with
    | request op => exact hok.1 op k held ht
    | ensured project result =>
      cases result with
      | ok manager => trivial
      | error e => exact fun hstrict => hmore c t hok.2 hstrict project e k held ht
    | _ => trivial
  · rintro c (⟨t, e, hok⟩ | ⟨e, hok⟩)
    · exact hok.elim
    · exact hok.elim

/-- A process finds tables that satisfy the invariant. -/
theorem inv_of_boots (hmore : ∀ c t, more c t → strict → Completes c t)
    (hends : ∀ s, ends s → strict → LeavesNothing s)
    (hb : Boots cfg more ends s) : Inv strict s ∧ s.ids = [] := by
  induction hb with
  | first =>
    have hmanaged : Managed {} := ⟨List.nodup_nil, fun _ _ hm => (nomatch hm)⟩
    have hfamily : Family (Hatching {}) {} := ⟨fun _ _ hr => (nomatch hr), fun _ _ hm => (nomatch hm)⟩
    refine ⟨⟨hmanaged, hmanaged, fun _ => ⟨hfamily, hfamily, .refl _, ?_⟩⟩, rfl⟩
    rintro project id ⟨t, ht⟩
    cases ht
  | @again s c _ hc hend ih =>
    have hi : Inv strict c.state := (sound_of_reachable hmore ih.1 ih.2 hc).inv
    refine ⟨⟨hi.durable, hi.durable, fun hstrict => ?_⟩, rfl⟩
    have hs := (hi.settled hstrict).durable
    have hfamily : Family (Hatching c.state.restarted) c.state.durable := by
      refine ⟨hs.parents, fun project m hm hlead hlive _ r hr hw hrlive => ?_⟩
      by_cases hh : Hatching c.state project m.id
      · obtain ⟨i, hmem, hparent⟩ := hends c.state hend hstrict project m hm hlead hlive hh r hr hw hrlive
        rwa [List.mem_singleton.mp hmem] at hparent
      · exact hs.adopted project m hm hlead hlive hh r hr hw hrlive
    refine ⟨hfamily, hfamily, .refl _, ?_⟩
    rintro project id ⟨t, ht⟩
    cases ht

def liveHeads (d : Tables) (l : FleetLock) : List PiSession := (heads d l).filter fun m => !m.state.terminalPm

theorem liveHeads_length_le (hd : Managed d) (l : FleetLock) : (liveHeads d l).length ≤ 1 := by
  have hmem : ∀ m ∈ liveHeads d l, m ∈ d.sessions ∧ leads l m ∧ live m := by
    intro m hm
    obtain ⟨hhead, hlive⟩ := List.mem_filter.mp hm
    exact ⟨(mem_heads.mp hhead).1, (mem_heads.mp hhead).2, by simpa [live] using hlive⟩
  have hsessions : d.sessions.Nodup := List.Nodup.of_map _ hd.nodup
  have hbyRole : ∀ role, (sessionsByRole d role).Nodup :=
    fun role => (SortedLists.sortOn_perm _ _).nodup_iff.mpr (hsessions.filter _)
  have hnodup : (liveHeads d l).Nodup := by
    refine List.Nodup.filter _ ?_
    cases l with
    | orchestrator => exact hbyRole _
    | pm project => exact (hbyRole _).filter _
  rcases hlist : liveHeads d l with _ | ⟨a, _ | ⟨b, rest⟩⟩
  · simp
  · simp
  · rw [hlist] at hmem hnodup
    obtain ⟨ha, hal, halive⟩ := hmem a (by simp)
    obtain ⟨hb, hbl, hblive⟩ := hmem b (by simp)
    have hab : a = b := hd.unique l a ha b hb hal hbl halive hblive
    simp [hab] at hnodup

/-- In every reachable state of every process at most one session leads each project, and at most
one is the orchestrator, among those that are neither stopped nor failed. -/
theorem one_live_manager (hb : Boots cfg (fun _ _ => True) (fun _ => True) s)
    (hc : Pool.Reachable fleetInterp (Interleaving cfg fun _ _ => True) s c) (l : FleetLock) :
    (liveHeads c.state.db l).length ≤ 1 := by
  obtain ⟨hi, hids⟩ := @inv_of_boots False _ _ _ _ (fun _ _ _ hn => hn.elim) (fun _ _ hn => hn.elim) hb
  exact liveHeads_length_le (sound_of_reachable (fun _ _ _ hn => hn.elim) hi hids hc).inv.managed l

def soloFleet : FleetConfig where
  machines := [{ name := "desktop", home := "/home/u" }]
  projects := [{ name := "p", machine := "desktop", repo := "/src/p", remote := "origin" }]
  sha256 := fun token => token

def answers (t : ℕ) (ws : List FleetAnswer) : List FleetEvent := ws.map (.go t ·)

/-- A request that brings no session back, whoever makes it. -/
def harmless (d : Tables) : SessionOp → Bool
  | .register payload _ _ => d.sessions.all fun s => decide (s.id ≠ payload.sessionId) || !s.state.terminalPm
  | .events _ payload _ _ => payload.state.all PiSessionState.terminalPm
  | _ => false

theorem final_of_harmless {op : SessionOp} (hop : harmless d op = true) : Final d op := by
  cases op with
  | register payload now uuid =>
    refine ⟨trivial, ?_⟩
    rintro ⟨a, ha, -, hended, hid⟩
    have hkeep := List.all_eq_true.mp hop a ha
    simp [hended, show a.id = payload.sessionId from hid] at hkeep
  | events sessionId payload now uuid =>
    refine ⟨trivial, ?_⟩
    rintro ⟨a, -, -, -, -, -, state, hstate, hlive⟩
    simp [harmless, hstate, hlive] at hop
  | _ => cases hop

/-- The test of a schedule: only harmless requests and, if `strict`, no failing `_ensure_pm`. -/
def steadyCall (strict : Bool) (d : Tables) : FleetCall β → Bool
  | .request op => harmless d op
  | .ensured _ (.error _) => !strict
  | _ => true

def steady (strict : Bool) (c : FleetPool) : FleetEvent → Bool
  | .go t _ => match c.threads[t]? with
    | some ⟨.perform e _, _⟩ => steadyCall strict c.state.db e
    | _ => true
  | _ => true

def Started (cfg : FleetConfig) : FleetEvent → Prop
  | .spawn p => Caller cfg p
  | .go _ _ => True
  | _ => False

theorem interleaving_of_steady {strict : Bool} {ev : FleetEvent} (hstart : Started cfg ev)
    (hev : steady strict c ev = true) :
    Interleaving cfg (fun c t => strict = true → Completes c t) c ev := by
  cases ev with
  | spawn p => exact hstart
  | go t w =>
    refine ⟨fun op k held ht => ?_, fun hstrict project e k held ht => ?_⟩
    · simp only [steady, ht] at hev
      exact final_of_harmless hev
    · simp [steady, ht, steadyCall, hstrict] at hev
  | cancel t e => exact hstart
  | crash e => exact hstart

theorem started_answers (t : ℕ) (ws : List FleetAnswer) : ∀ ev ∈ answers t ws, Started cfg ev := by
  intro ev hev
  obtain ⟨w, -, rfl⟩ := List.mem_map.mp hev
  trivial

/-- Two callers ask for the manager. The first is cancelled when it is about to start the agent, and
fails the session that it has inserted; the second launches another one. -/
def rivals : List FleetEvent :=
  .spawn ((ensurePm soloFleet "p").bind fun _ => .ret ()) :: .spawn
    ((ensurePm soloFleet "p").bind fun _ => .ret ()) ::
    (answers 0 [.done] ++ answers 1 [.done] ++ answers 0 [.done, .done, .text "m1", .text "token1",
      .workspace ⟨"w1", "pane1"⟩, .number 1, .done, .text "prompt", .fails .cancelledError 0, .number 2, .done,
        .text "e1",
      .number 2, .done, .done, .done, .done, .done] ++ answers 1 [.done, .done, .text "m2", .text "token2",
      .workspace ⟨"w2", "pane2"⟩, .number 3, .done])

theorem started_rivals : ∀ ev ∈ rivals, Started soloFleet ev := by
  intro ev hev
  simp only [rivals, List.mem_cons, List.mem_append, or_assoc] at hev
  rcases hev with rfl | rfl | hev | hev | hev | hev
  · exact .ensurePm "p"
  · exact .ensurePm "p"
  all_goals exact started_answers _ _ ev hev

def sessionStates (c : FleetPool) : List (String × PiSessionState) :=
  c.state.db.sessions.map fun m => (m.id, m.state)

theorem one_live_manager_rivals : ∃ c : FleetPool, sessionStates c = [("m1", .failed), ("m2", .starting)] ∧
    (liveHeads c.state.db (.pm "p")).length ≤ 1 := by
  have hrun : (Pool.checkedRun fleetInterp (steady false) ⟨{}, []⟩ rivals).map sessionStates =
      some [("m1", .failed), ("m2", .starting)] := by decide +kernel
  obtain ⟨c, hc, hstates⟩ := Option.map_eq_some_iff.mp hrun
  have hreach : Pool.Reachable fleetInterp (Interleaving soloFleet fun _ _ => True) {} c := by
    refine Pool.Reachable.checkedRun .init (fun d ev hev htest => ?_) hc
    have hok := interleaving_of_steady (started_rivals ev hev) htest
    cases ev with
    | go t w => exact ⟨hok.1, trivial⟩
    | _ => exact hok
  exact ⟨c, hstates, one_live_manager .first hreach (.pm "p")⟩

end WorkerHarness.LiveManagers
