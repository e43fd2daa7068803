import WorkerHarness.AdoptedTasks

/-!
# The transcripts that launches resume

A new manager or orchestrator continues the transcript that its predecessors recorded last. A launch
records only a path that it has checked on its own machine; a registration records what it brings, and
a new configuration may move the next launch to another machine. As long as neither leaves a path behind
that the next launch refuses, across restarts too, every launch accepts the path that is selected for it.
-/

namespace WorkerHarness.ResumePaths

open Coroutines SharedTransactions Database SessionStatements LiveSessions LaunchedSessions LiveManagers
  ManagerLaunches
open ManagerLocks ManagerRows FleetRoutes Orchestrator OrchestratorCalls AdoptedTasks

attribute [local irreducible] FleetRoutes.enqueuePrompt

variable {cfg : FleetConfig} {l : FleetLock} {row row' : PiSession} {d : Tables} {op : SessionOp} {path : String}
  {machine : Machine}

def launchMachine (cfg : FleetConfig) : FleetLock → Option Machine
  | .orchestrator => cfg.machines.find? fun m => m.name = cfg.orchestratorMachine
  | .pm project => (cfg.projects.find? fun p => p.name = project).bind fun p =>
      cfg.machines.find? fun m => m.name = p.machine

/-- The path with which `_ensure_orchestrator` and `_ensure_pm` launch, when they find no live session. -/
def selectedPath (d : Tables) (l : FleetLock) : Option String :=
  match firstLive (heads d l) with
  | some _ => none
  | none => lastResumePath (heads d l)

def Resumes (cfg : FleetConfig) (d : Tables) : Prop :=
  ∀ l machine path, launchMachine cfg l = some machine → selectedPath d l = some path →
    resumable machine path = true

def Suits (cfg : FleetConfig) (row : PiSession) (path : String) : Prop :=
  ∀ l machine, leads l row → launchMachine cfg l = some machine → resumable machine path = true

def Fit (cfg : FleetConfig) (row : PiSession) : Prop :=
  row.metaText "resume_path" = "" ∨ Suits cfg row (row.metaText "resume_path")

def AllFit (cfg : FleetConfig) (d : Tables) : Prop := ∀ row ∈ d.sessions, Fit cfg row

theorem suits_congr (hrole : row'.role = row.role) (hproject : row'.project = row.project)
    (h : Suits cfg row path) :
    Suits cfg row' path :=
  fun l machine hl => h l machine ((leads_congr hrole hproject).mp hl)

theorem suits_of_role_empty (h : row.role = "") : Suits cfg row path :=
  fun _ _ hl => absurd h (guards_role_ne (guards_of_leads hl))

theorem resumes_of_allFit (h : AllFit cfg d) : Resumes cfg d := by
  intro l machine path hmachine hselected
  unfold selectedPath at hselected
  split at hselected
  · cases hselected
  · obtain ⟨row, hrow, rfl⟩ := List.mem_map.mp (List.mem_of_find?_eq_some hselected)
    have hne : row.metaText "resume_path" ≠ "" := by simpa using List.find?_some hselected
    obtain ⟨hmem, hlead⟩ := mem_heads.mp hrow
    exact (h row hmem).resolve_left hne l machine hlead hmachine

/-- What the endpoint checks for a session that registers itself suffices while the machine of the session
has the home of the machine of the next launch. -/
theorem resumable_of_ownTranscript (h : ownTranscript cfg row path = true) (hhome : ∀ m ∈ cfg.machines,
    m.name = (if row.metaText "machine" = "" then row.host else row.metaText "machine") → m.home = machine.home) :
    resumable machine path = true := by
  unfold ownTranscript at h
  dsimp only at h
  cases hfind : cfg.machines.find? fun m => m.name = if row.metaText "machine" =
    "" then row.host else row.metaText "machine" with
  | none =>
    rw [hfind] at h
    cases h
  | some m =>
    rw [hfind] at h
    have hname := hhome m (List.mem_of_find?_eq_some hfind) (by simpa using List.find?_some hfind)
    rw [Option.any_some, resumable, hname] at h
    exact h

structure Stays (row row' : PiSession) : Prop where
  id : row'.id = row.id
  role : row'.role = row.role
  project : row'.project = row.project
  path : row'.metaText "resume_path" = row.metaText "resume_path"

inductive Origin (op : SessionOp) (d : Tables) (row' : PiSession) : Prop where
  | old (row : PiSession) (hrow : row ∈ d.sessions) (hstays : Stays row row')
  | resumed (payload : PiBridgeRegister) (now : ℕ) (uuid : ℕ → String) (hop : op = .register payload now uuid)
      (row : PiSession) (hrow : row ∈ d.sessions) (hid : row.id = payload.sessionId)
      (heq : row' = row.resumingAt payload.resumePath)
  | launched (hop : op = .insert row')
  | bridged (hrole : row'.role = "")

theorem metaText_congr {key : String} (h : row'.metaData.get key = row.metaData.get key) :
    row'.metaText key = row.metaText key := by
  unfold PiSession.metaText JsonObject.getStr
  rw [h]

theorem metaText_resumingAt (path : String) (row : PiSession) :
    (row.resumingAt path).metaText "resume_path" = path := by
  have hget : (row.resumingAt path).metaData.get "resume_path" = some (.str path) := get_set_self _ _ _
  unfold PiSession.metaText JsonObject.getStr
  rw [hget]
  rfl

theorem suits_resumingAt {recorded : String} (h : Suits cfg row path) :
    Suits cfg (row.resumingAt recorded) path := by
  have hrole : (row.resumingAt recorded).role = row.role := rfl
  exact suits_congr hrole (get_set_of_ne (by decide)) h

theorem Origin.refl (h : row ∈ d.sessions) : Origin op d row := .old row h ⟨rfl, rfl, rfl, rfl⟩

/-- An update of some sessions leaves the others as they are. -/
theorem origin_of_update {p : Tables → PiSession → Bool} {f : PiSession → PiSession}
    (h : row' ∈ ((update sessionsTable p f).apply d).sessions)
    (hf : ∀ row ∈ d.sessions, p d row = true → Origin op d (f row)) : Origin op d row' := by
  change row' ∈ d.sessions.map fun row => if p d row then f row else row at h
  obtain ⟨row, hrow, rfl⟩ := List.mem_map.mp h
  split
  · next hp => exact hf row hrow hp
  · exact .refl hrow

theorem origin_of_stays {p : Tables → PiSession → Bool} {f : PiSession → PiSession}
    (h : row' ∈ ((update sessionsTable p f).apply d).sessions) (hf : ∀ row, Stays row (f row)) : Origin op d row' :=
  origin_of_update h fun row hrow _ => .old row hrow (hf row)

/-- A patch writes the pull request and nothing else. -/
def Patches (op : SessionOp) : Prop := ∀ sessionId members, op = .patch sessionId members →
    ∀ m ∈ members, m.1 = "pr_url"

theorem origin_of_executes {st : Statement Tables} (hst : Executes op st) (hpatches : Patches op)
    (h : row' ∈ (st.apply d).sessions) : Origin op d row' := by
  have hevent : ∀ {event : PiSessionEvent}, row' ∈ ((insertEvent event).apply d).sessions → Origin op d row' := by
    intro event hrow
    obtain ⟨events, hevents⟩ := insertEvent_apply event d
    rw [hevents] at hrow
    exact .refl hrow
  cases hst with
  | inserted session =>
    change row' ∈ (if _ then d else { d with sessions := d.sessions ++ [session] } : Tables).sessions at h
    split at h
    · exact .refl h
    · rcases List.mem_append.mp h with h | h
      · exact .refl h
      · exact .launched (by rw [List.mem_singleton.mp h])
  | upserted payload now uuid createdAt =>
    change row' ∈ upsertedSessions payload now createdAt d.sessions at h
    unfold upsertedSessions at h
    split at h
    · have hupdated : row' ∈ ((update sessionsTable (fun _ s => s.id = payload.sessionId)
          (reregisteredSession payload now)).apply d).sessions := h
      exact origin_of_stays hupdated fun _ => ⟨rfl, rfl, rfl, rfl⟩
    · rcases List.mem_append.mp h with h | h
      · exact .refl h
      · exact .bridged (by rw [List.mem_singleton.mp h]; rfl)
  | resumed payload now uuid =>
    exact origin_of_update h fun row hrow hid => .resumed payload now uuid rfl row hrow (of_decide_eq_true hid) rfl
  | released => exact .refl h
  | snapshot => exact hevent h
  | batched => exact hevent h
  | reported => exact origin_of_stays h fun _ => ⟨rfl, rfl, rfl, rfl⟩
  | blocked => exact origin_of_stays h fun _ => ⟨rfl, rfl, rfl, rfl⟩
  | asked => exact hevent h
  | enqueued command now =>
    change row' ∈ (if _ then d else { d with commands := d.commands ++ [command] } : Tables).sessions at h
    split at h <;> exact .refl h
  | notified => exact origin_of_stays h fun _ => ⟨rfl, rfl, rfl, rfl⟩
  | leased => exact .refl h
  | delivered => exact .refl h
  | answered => exact origin_of_stays h fun _ => ⟨rfl, rfl, rfl, rfl⟩
  | stopped => exact origin_of_stays h fun _ => ⟨rfl, rfl, rfl, rfl⟩
  | stale => exact hevent h
  | finished => exact origin_of_stays h fun _ => ⟨rfl, rfl, rfl, rfl⟩
  | reparented => exact origin_of_stays h fun _ => ⟨rfl, rfl, rfl, rfl⟩
  | patched sessionId members =>
    have hmembers := hpatches sessionId members rfl
    refine origin_of_stays h fun row => ⟨rfl, rfl, project_patched hmembers row, ?_⟩
    exact metaText_congr (get_foldl_set fun m hm => hmembers m hm ▸ by decide)
  | nextPane =>
    exact origin_of_stays h fun row => ⟨rfl, rfl, project_nextPane row, metaText_congr (get_set_of_ne (by decide))⟩
  | event => exact hevent h

/-- What the operation records passes the check of the next launch. -/
def Allowed (cfg : FleetConfig) (d : Tables) : SessionOp → Prop
  | .insert row => Fit cfg row
  | .register payload _ _ =>
    payload.resumePath = "" ∨ ∀ row ∈ d.sessions, row.id = payload.sessionId → Suits cfg row payload.resumePath
  | .patch _ members => ∀ m ∈ members, m.1 = "pr_url"
  | _ => True

theorem patches_of_allowed (h : Allowed cfg d op) : Patches op := by
  rintro sessionId members rfl
  exact h

theorem AllFit.executes {st : Statement Tables} (hst : Executes op st) (hop : Allowed cfg d op) (h : AllFit cfg d) :
    AllFit cfg (st.apply d) := by
  intro row' hrow'
  cases origin_of_executes hst (patches_of_allowed hop) hrow' with
  | old row hrow hstays =>
    rw [Fit, hstays.path]
    exact (h row hrow).imp_right (suits_congr hstays.role hstays.project)
  | resumed payload now uuid heq row hrow hid hrow' =>
    subst heq hrow'
    rw [Fit, metaText_resumingAt]
    exact hop.imp_right fun hsuits => suits_resumingAt (hsuits row hrow hid)
  | launched heq =>
    subst heq
    exact hop
  | bridged hrole => exact .inr (suits_of_role_empty hrole)

/-- The session that registers keeps its place while it registers. -/
theorem Allowed.executes {st : Statement Tables} (hst : Executes op st) (hop : Allowed cfg d op) :
    Allowed cfg (st.apply d) op := by
  have horigin : ∀ row' ∈ (st.apply d).sessions, Origin op d row' :=
    fun row' hrow' => origin_of_executes hst (patches_of_allowed hop) hrow'
  cases op with
  | register payload now uuid =>
    refine hop.imp_right fun hsuits row' hrow' hid' => ?_
    cases horigin row' hrow' with
    | old row hrow hstays =>
      exact suits_congr hstays.role hstays.project (hsuits row hrow (hstays.id.symm.trans hid'))
    | resumed _ _ _ _ row hrow _ heq =>
      subst heq
      exact suits_resumingAt (hsuits row hrow hid')
    | launched heq => cases heq
    | bridged hrole => exact suits_of_role_empty hrole
  | _ => exact hop

/-- In the tables and in what is durable of them every recorded path passes the check. -/
def BothFit (cfg : FleetConfig) (s : FleetWorld) : Prop := AllFit cfg s.db ∧ AllFit cfg s.durable

variable {s s' : FleetWorld} {t : ℕ} {α β : Type}

/-- A database method that is allowed, perhaps interrupted, keeps the paths fit. -/
theorem bothFit_of_writes (hop : Allowed cfg s.db op) (h : BothFit cfg s)
    (hs : s' = s.run op ∨ ∃ n, s' = s.interrupt op n) : BothFit cfg s' := by
  let R : Tables → Tables → Prop := fun d d' => Allowed cfg d op ∧ AllFit cfg d → Allowed cfg d' op ∧ AllFit cfg d'
  have hstep : ∀ st, Executes op st → ∀ d, R d (st.apply d) :=
    fun st hst d hd => ⟨hd.1.executes hst, hd.2.executes hst hd.1⟩
  have hw : Writes R s s' := by
    rcases hs with rfl | ⟨n, rfl⟩
    · exact writes_run (fun _ hd => hd) (fun _ _ _ hd hd' he => hd' (hd he)) hstep s
    · exact writes_interrupt (fun _ hd => hd) (fun _ _ _ hd hd' he => hd' (hd he)) hstep s n
  exact ⟨(hw.db ⟨hop, h.1⟩).2, hw.durable_of h.2 fun d hd => (hd ⟨hop, h.1⟩).2⟩

def Records (cfg : FleetConfig) : (β : Type) → FleetCall β → Prop
  | _, .write (.insert row) => Fit cfg row
  | _, .write (.patch _ _) => False
  | _, _ => True

abbrev Recording (cfg : FleetConfig) (R : α → Prop) (p : FleetM α) : Prop := p.Issues Possible (Records cfg) R

variable {R : α → Prop} {p : FleetM α} {id sid : String} {launching : Launch}

theorem records_of_for (β : Type) (e : FleetCall β) (h : For id True True β e) : Records cfg β e := by
  cases e with
  | write op => cases op <;> trivial
  | _ => trivial

theorem recording_of_does (h : Does (Records cfg) R p) : Recording cfg R p :=
  .of_performs (fun _ _ _ hb => hb) (fun _ _ he => he) h

theorem recording_for (h : Does (For id True True) R p) : Recording cfg R p :=
  recording_of_does (h.mono records_of_for fun _ hr => hr)

theorem recording_locked {l : FleetLock} (h : Recording cfg R p) : Recording cfg R (locked l p) :=
  Prog.Issues.bind (R := Any) (.await trivial fun _ _ => trivial) fun _ _ => h.withLock

structure Placed (cfg : FleetConfig) (launching : Launch) : Prop where
  orchestrator : launching.role = .orchestrator → launchMachine cfg .orchestrator = some launching.machine
  pm : launching.role = .pm → launchMachine cfg (.pm launching.projectName) = some launching.machine

def Checked (launching : Launch) : Prop :=
  ∀ path, launching.resumePath = some path → path = "" ∨ resumable launching.machine path = true

theorem machine_of_leads (hp : Placed cfg launching) (hrow : Launched launching sid row) (hl : leads l row) :
    launchMachine cfg l = some launching.machine := by
  have hrole := hrow.role
  cases hr : launching.role with
  | orchestrator =>
    rw [hr] at hrole
    have hlead : leads .orchestrator row := hrole
    rw [guards_unique (guards_of_leads hl) (guards_of_leads hlead)]
    exact hp.orchestrator hr
  | pm =>
    rw [hr] at hrole
    have hlead : leads (.pm launching.projectName) row := ⟨hrole, hrow.project (by simp [hr])⟩
    rw [guards_unique (guards_of_leads hl) (guards_of_leads hlead)]
    exact hp.pm hr
  | task =>
    rw [hr] at hrole
    cases l <;> simp [leads, hrole, FleetRole.text] at hl

theorem fit_of_launched (hp : Placed cfg launching) (hc : Checked launching) (hrow : Launched launching sid row)
    (hpath : row.metaText "resume_path" = launching.resumePath.getD "") : Fit cfg row := by
  cases hresume : launching.resumePath with
  | none => exact .inl (by rw [hpath, hresume]; rfl)
  | some path =>
    rw [hresume, Option.getD_some] at hpath
    rw [Fit, hpath]
    refine (hc path hresume).imp_right fun hpasses l machine hl hmachine => ?_
    rw [machine_of_leads hp hrow hl] at hmachine
    cases hmachine
    exact hpasses

theorem metaText_newSession (spec : LaunchSpec) (sid tokenHash : String) (parent : Option String)
    (briefing worktree branch : String) (workspace : Option Workspace) (resumePath : Option String) (now : ℕ) :
    (newSession spec sid tokenHash parent briefing worktree branch workspace resumePath now).metaText
    "resume_path" =
      resumePath.getD "" := rfl

theorem fit_of_none (spec : LaunchSpec) (sid tokenHash : String) (parent : Option String)
    (briefing worktree branch : String) (workspace : Option Workspace) (now : ℕ) :
    Fit cfg (newSession spec sid tokenHash parent briefing worktree branch workspace none now) := .inl rfl

/-- The rows of a launch, wherever it inserts them. -/
theorem recording_launchIn (hp : Placed cfg launching) (hc : Checked launching) {l : Launch} {spec : LaunchSpec}
    (hspec : SpecFor launching sid spec l.parentSessionId) (hpath : l.resumePath = launching.resumePath)
    (token worktree branch : String) :
    Recording cfg Any (launchIn cfg l spec sid token worktree branch) := by
  refine Prog.Issues.bind (Prog.Issues.attempt (R := Any) (.await trivial fun _ _ => trivial)) fun created _ => ?_
  refine Prog.Issues.bind (R := Any) (.call trivial fun _ _ => trivial) fun now _ => ?_
  cases created with
  | ok workspace =>
    refine Prog.Issues.bind (R := Any) (.await ?_ fun _ _ => trivial) fun _ _ => ?_
    · refine fit_of_launched hp hc (hspec _ _ _ _ _ _ _) ?_
      rw [metaText_newSession, hpath]
    · exact (recording_for (performs_startAgent _ trivial trivial cfg l spec token)).mono fun _ _ => trivial
  | error e =>
    dsimp only
    split
    · refine Prog.Issues.bind (R := Any) (.await (fit_of_none ..) fun _ _ => trivial) fun _ _ => ?_
      refine (recording_for (performs_markFailed _ _ _)).bind fun _ _ => ?_
      split
      · exact (recording_for (performs_cleanupFailedWorktree _ trivial cfg)).bind fun _ _ => trivial
      · trivial
    · trivial

theorem recording_launchTaskIn (hp : Placed cfg launching) (hc : Checked launching) {spec : LaunchSpec}
    (token : String) :
    Recording cfg Any (launchTaskIn cfg launching spec sid token) := by
  refine Prog.Issues.bind (recording_for (performs_createWorktree launching.machine launching.repo launching.branch
    launching.baseBranch [1, 2, 3, 4, 5])).attempt fun created _ => ?_
  cases created with
  | ok created =>
    obtain ⟨worktree, branch⟩ := created
    refine Prog.Issues.bind (R := fun spec => launchSpec cfg launching worktree branch = .ok spec)
      (.ofExcept fun _ h => h) fun spec hspec => ?_
    exact recording_launchIn hp hc (specFor_launchSpec hspec fun _ => rfl) rfl token worktree branch
  | error e =>
    cases e with
    | worktreeError message =>
      refine Prog.Issues.bind (R := Any) (.call trivial fun _ _ => trivial) fun now _ => ?_
      refine Prog.Issues.bind (R := Any) (.await (fit_of_none ..) fun _ _ => trivial) fun _ _ => ?_
      exact (recording_for (performs_markFailed _ _ _)).bind fun _ _ => trivial
    | _ => trivial

/-- A launch records no path but the one that it has checked on its machine. -/
theorem recording_launch (hp : Placed cfg launching) : Recording cfg Any (launch cfg launching) := by
  unfold launch
  split
  · trivial
  · next hpasses =>
    have hc : Checked launching := by
      intro path hresume
      rw [hresume, Option.any_some, Bool.and_eq_true, not_and, Bool.not_eq_true'] at hpasses
      by_cases hempty : path = ""
      · exact .inl hempty
      · exact .inr (by simpa using hpasses (by simpa using hempty))
    refine Prog.Issues.bind (R := fun spec => launchSpec cfg launching launching.cwd launching.branch = .ok spec)
      (.ofExcept fun _ h => h) fun spec hspec => ?_
    refine Prog.Issues.bind (R := Any) (.call trivial fun _ _ => trivial) fun sid _ => ?_
    refine Prog.Issues.bind (R := Any) (.call trivial fun _ _ => trivial) fun token _ => ?_
    by_cases horchestrator : launching.role = .orchestrator
    · have htask : launching.role ≠ .task := by simp [horchestrator]
      rw [if_pos horchestrator, if_neg htask]
      refine recording_launchIn hp hc (specFor_launchSpec hspec fun h => absurd h htask) ?_ token "" ""
      rfl
    · rw [if_neg horchestrator]
      split
      · exact recording_launchTaskIn hp hc token
      · exact recording_launchIn hp hc (specFor_launchSpec hspec fun _ => rfl) rfl token "" ""

theorem recording_launchOrchestrator (cfg : FleetConfig) (sessions : List PiSession) :
    Recording cfg Any (launchOrchestrator cfg sessions) := by
  unfold launchOrchestrator
  split
  · trivial
  · next machine hmachine =>
    dsimp only
    generalize (if cfg.orchestratorCwd = "" then machine.home ++
      "/Work/agent-orchestrator" else cfg.orchestratorCwd) = repo
    split
    · trivial
    · exact recording_launch ⟨fun _ => hmachine, fun h => FleetRole.noConfusion h⟩

theorem recording_ensureOrchestrator (cfg : FleetConfig) : Recording cfg Any (ensureOrchestrator cfg) := by
  refine recording_locked (Prog.Issues.bind (R := Any) (.await trivial fun _ _ => trivial) fun sessions _ => ?_)
  cases firstLive sessions with
  | some session => exact (recording_for (performs_liveSession session cfg)).mono fun _ _ => trivial
  | none => exact recording_launchOrchestrator cfg sessions

theorem recording_project (name : String) :
    Recording cfg (fun p => cfg.projects.find? (fun q => q.name = name) = some p)
    (Orchestrator.project cfg name) := by
  unfold Orchestrator.project
  split
  · next p hfind => exact hfind
  · trivial

theorem recording_projectMachine (p : Project) :
    Recording cfg (fun machine => cfg.machines.find? (fun m => m.name = p.machine) = some machine)
    (projectMachine cfg p) := by
  unfold projectMachine
  split
  · next machine hfind => exact hfind
  · trivial

theorem recording_ensurePmLocked (cfg : FleetConfig) (project : String) :
    Recording cfg Any (ensurePmLocked cfg project) := by
  refine (recording_project project).bind fun p hp =>
    Prog.Issues.bind (R := Any) (.await trivial fun _ _ => trivial)
    fun sessions _ => ?_
  cases firstLive sessions with
  | some session => exact (recording_for (performs_liveSession session cfg)).mono fun _ _ => trivial
  | none =>
    refine (recording_projectMachine p).bind fun machine hmachine => ?_
    have hname : p.name = project := by simpa using List.find?_some hp
    have hplaced : launchMachine cfg (.pm p.name) = some machine := by
      rw [hname, launchMachine, hp]
      exact hmachine
    refine (recording_launch ⟨fun h => FleetRole.noConfusion h, fun _ => hplaced⟩).bind fun manager _ => ?_
    have hreparents : Recording cfg Any
      (Prog.forEach (fun previous => write (.reparent previous.id manager.id)) sessions) := by
      exact recording_of_does (.forEach trivial fun _ _ => .await trivial fun _ _ => trivial)
    exact hreparents.bind fun _ _ => trivial

theorem recording_pmSession {body : PiSession → FleetM α} (cfg : FleetConfig) (project : String)
    (hbody : ∀ manager, Recording cfg Any (body manager)) : Recording cfg Any (pmSession cfg project body) := by
  refine (recording_project project).bind fun p _ => recording_locked ?_
  refine (recording_ensurePmLocked cfg project).attempt.bind fun result _ => ?_
  refine Prog.Issues.bind (R := Any) (.call trivial fun _ _ => trivial) fun _ _ => ?_
  exact Prog.Issues.bind (R := Any) (.ofExcept fun _ _ => trivial) fun manager _ => hbody manager

theorem recording_launchTask (cfg : FleetConfig) (p : Project) (branch briefing parent : String) :
    Recording cfg Any (launchTask cfg p branch briefing parent) := by
  refine recording_locked (Prog.Issues.bind (R := Any) (.await trivial fun _ _ => trivial) fun accepted _ => ?_)
  cases accepted with
  | none => trivial
  | some manager =>
    exact (recording_projectMachine p).bind fun machine _ =>
      recording_launch ⟨fun h => FleetRole.noConfusion h, fun h => FleetRole.noConfusion h⟩

theorem recording_pollSession (cfg : FleetConfig) (now : ℕ) (tasks : List PiSession) (session : PiSession) :
    Recording cfg Any (pollSession cfg now tasks session) := by
  unfold pollSession
  split
  · trivial
  · split
    · refine (recording_of_does (performs_metaItem session "project")).bind fun project _ => ?_
      split
      · exact recording_locked (recording_for (performs_retirePm session cfg now))
      · trivial
    · exact recording_for (performs_reportState session cfg _ _)

theorem recording_forEach {f : β → FleetM Unit} (hf : ∀ b, Recording cfg Any (f b)) (bs : List β) :
    Recording cfg Any (Prog.forEach f bs) := by
  induction bs with
  | nil => trivial
  | cons b bs ih => exact (hf b).bind fun _ _ => ih

theorem recording_poll (cfg : FleetConfig) : Recording cfg Any (poll cfg) := by
  refine Prog.Issues.bind (R := Any) (.call trivial fun _ _ => trivial) fun now _ => ?_
  refine Prog.Issues.bind (R := Any) (.await trivial fun _ _ => trivial) fun tasks _ => ?_
  refine Prog.Issues.bind (R := Any) (.await trivial fun _ _ => trivial) fun orchestrators _ => ?_
  refine Prog.Issues.bind (R := Any) (.await trivial fun _ _ => trivial) fun managers _ => ?_
  refine recording_forEach (fun session => ?_) _
  refine (recording_pollSession cfg now tasks session).catching fun e => ?_
  cases e <;> trivial

theorem recording_bridgeRegister (app : AppState) (authorization : Authorization) (payload : PiBridgeRegister)
    (uuid : ℕ → String) : Recording cfg Any (bridgeRegister app cfg authorization payload uuid) := by
  have hcaller : Recording cfg Any (authorizeBridge app authorization payload.sessionId) := by
    refine Prog.Issues.bind (R := Any) ?_ fun caller _ => ?_
    · exact Prog.Issues.bind (R := Any) (.await trivial fun _ _ => trivial) fun _ _ => .ofExcept fun _ _ => trivial
    · split <;> trivial
  refine hcaller.bind fun caller _ => ?_
  split
  · trivial
  · refine Prog.Issues.bind (R := Any) (.call trivial fun _ _ => trivial) fun now _ => ?_
    refine Prog.Issues.bind (R := Any) ?_ fun _ _ => ?_
    · refine .catching (.await trivial fun _ _ => trivial) fun e => ?_
      split <;> trivial
    · exact Prog.Issues.bind (R := Any) (.call trivial fun _ _ => trivial) fun _ _ =>
        .await trivial fun _ _ => trivial

/-- What runs in the process. -/
inductive Running (cfg : FleetConfig) : FleetM Unit → Prop where
  | caller {p : FleetM Unit} : Caller cfg p → Running cfg p
  | register (app : AppState) (authorization : Authorization) (payload : PiBridgeRegister) (uuid : ℕ → String) :
      Running cfg (bridgeRegister app cfg authorization payload uuid)

theorem recording_running {p : FleetM Unit} (h : Running cfg p) : Recording cfg Any p := by
  cases h with
  | register app authorization payload uuid => exact recording_bridgeRegister app authorization payload uuid
  | caller h =>
    cases h with
    | ensureOrchestrator => exact (recording_ensureOrchestrator cfg).bind fun _ _ => trivial
    | ensurePm project =>
      have hensured : Recording cfg Any (ensurePm cfg project) :=
        recording_pmSession cfg project fun manager => (trivial : Any manager)
      exact hensured.bind fun _ _ => trivial
    | send project message deliverAs caller =>
      exact recording_pmSession cfg project fun manager =>
        recording_for (performs_enqueuePrompt manager message deliverAs caller)
    | launchTask p branch briefing parent =>
      exact (recording_launchTask cfg p branch briefing parent).bind fun _ _ => trivial
    | poll => exact recording_poll cfg
    | teardown session force =>
      exact recording_of_does (@performs_teardownTask True True session _ trivial cfg force trivial records_of_for)
    | request op => exact .await trivial fun _ _ => trivial

/-- Anything may be started at any time; a request calls what requests call. -/
def Serving (cfg : FleetConfig) : FleetPool → FleetEvent → Prop
  | _, .spawn p => Running cfg p
  | c, .go t _ => ∀ op k held, c.threads[t]? = some ⟨.perform (.request op) k, held⟩ → Requested op
  | _, _ => False

/-- A registration, by a request or the endpoint, brings a path that the next launch in the place of the
session accepts. -/
def Fitting (cfg : FleetConfig) : FleetPool → FleetEvent → Prop
  | c, .go t _ => ∀ (β : Type) (e : FleetCall β) k held payload now uuid,
      c.threads[t]? = some ⟨.perform e k, held⟩ →
      e.op? = some (.register payload now uuid) → Allowed cfg c.state.db (.register payload now uuid)
  | _, _ => True

def Accepts (cfg cfg' : FleetConfig) (d : Tables) : Prop :=
  ∀ l machine', launchMachine cfg' l = some machine' →
    (∃ machine, launchMachine cfg l = some machine ∧ machine.home = machine'.home) ∨
      ∀ row ∈ d.sessions, leads l row → row.metaText "resume_path" = "" ∨
        resumable machine' (row.metaText "resume_path") = true

/-- A process with this configuration finds these tables: the first one finds none, a later one what the
one before it made durable. -/
inductive Starts (ok : FleetConfig → FleetPool → FleetEvent → Prop)
    (may : FleetConfig → FleetConfig → Tables → Prop) :
    FleetConfig → FleetWorld → Prop where
  | first (cfg : FleetConfig) : Starts ok may cfg {}
  | again {cfg cfg' : FleetConfig} {s : FleetWorld} {c : FleetPool} : Starts ok may cfg s →
      Pool.Reachable fleetInterp (ok cfg) s c → may cfg cfg' c.state.durable → Starts ok may cfg' c.state.restarted

def Requests : (β : Type) → FleetCall β → Prop
  | _, .request op => Requested op
  | _, _ => True

theorem allowed_of_records {e : FleetCall β} (he : Records cfg β e) (hrequest : Requests β e)
    (hop : e.op? = some op)
    (hregister : ∀ payload now uuid, op = .register payload now uuid → Allowed cfg d op) : Allowed cfg d op := by
  cases op with
  | register payload now uuid => exact hregister payload now uuid rfl
  | insert row =>
    cases e with
    | write op =>
      cases hop
      exact he
    | request op =>
      cases hop
      exact hrequest.elim
    | _ => cases hop
  | patch sessionId members =>
    cases e with
    | write op =>
      cases hop
      exact he.elim
    | request op =>
      cases hop
      exact hrequest
    | _ => cases hop
  | _ => trivial

variable {c : FleetPool}

/-- While every registration is fitting, the paths stay fit. -/
theorem bothFit_of_reachable (h : BothFit cfg s)
    (hc : Pool.Reachable fleetInterp (fun c ev => Serving cfg c ev ∧ Fitting cfg c ev) s c) :
    BothFit cfg c.state := by
  refine (Pool.Reachable.issues (V := Possible) (P := Records cfg) h
    (fun _ p hok _ => recording_running hok.1) ?_ hc).1
  intro c t w β e k held s' b hok ht hfit he hh
  refine ⟨possible_of_handle hh, ?_⟩
  rcases tables_of_handle hh with ⟨op, hop, hs'⟩ | ⟨-, hdb, hdurable⟩
  · have hrequest : Requests β e := by
      cases e with
      | request op => exact hok.1 op k held ht
      | _ => trivial
    refine bothFit_of_writes (allowed_of_records he hrequest hop ?_) hfit hs'
    rintro payload now uuid rfl
    exact hok.2 β e k held payload now uuid ht hop
  · rw [BothFit, hdb, hdurable]
    exact hfit

theorem AllFit.accepts {cfg' : FleetConfig} (h : AllFit cfg d) (hmay : Accepts cfg cfg' d) : AllFit cfg' d := by
  intro row hrow
  rcases h row hrow with hempty | hsuits
  · exact .inl hempty
  · refine or_iff_not_imp_left.mpr fun hne l machine' hl hmachine' => ?_
    rcases hmay l machine' hmachine' with ⟨machine, hmachine, hhome⟩ | haccepts
    · have hpasses := hsuits l machine hl hmachine
      rwa [resumable, hhome] at hpasses
    · exact (haccepts row hrow hl).resolve_left hne

theorem bothFit_of_starts (hs : Starts (fun cfg c ev => Serving cfg c ev ∧ Fitting cfg c ev) Accepts cfg s) :
    BothFit cfg s := by
  induction hs with
  | first cfg => exact ⟨fun _ hrow => (nomatch hrow), fun _ hrow => (nomatch hrow)⟩
  | again _ hc hmay ih =>
    have hfit := (bothFit_of_reachable ih hc).2.accepts hmay
    exact ⟨hfit, hfit⟩

/-- As long as registrations are fitting, and new configurations accept what was recorded, no recorded path
stands in the way of a launch. -/
theorem resume_paths_resumable (hs : Starts (fun cfg c ev => Serving cfg c ev ∧ Fitting cfg c ev) Accepts cfg s)
    (hc : Pool.Reachable fleetInterp (fun c ev => Serving cfg c ev ∧ Fitting cfg c ev) s c) :
    Resumes cfg c.state.db :=
  resumes_of_allFit (bothFit_of_reachable (bothFit_of_starts hs) hc).1

def operatorApp : AppState where
  operatorToken := "operator"
  sha256 := fun token => token

def recordedPath (path : String) : List FleetEvent :=
  launchesPm 0 "m1" 1 ++
    .spawn (bridgeRegister operatorApp soloFleet (.bearer "operator")
      { sessionId := "m1", incarnation := "bridge",
        incarnation_ne := incarnation_ne_bridge, resumePath := path } fun _ => "") ::
    (answers 1 [.done, .number 2, .done, .text "event", .done] ++ stops 2 "m1" 3)

/-- Only what runs in a process is started. -/
def Begun (cfg : FleetConfig) : FleetEvent → Prop
  | .spawn p => Running cfg p
  | .go _ _ => True
  | _ => False

theorem begun_recordedPath (path : String) : ∀ ev ∈ recordedPath path, Begun soloFleet ev := by
  intro ev hev
  simp only [recordedPath, launchesPm, stops, answers, List.mem_append, List.mem_cons, List.mem_map,
    or_assoc] at hev
  rcases hev with rfl | ⟨w, -, rfl⟩ | rfl | ⟨w, -, rfl⟩ | rfl | ⟨w, -, rfl⟩
  · exact .caller (.ensurePm "p")
  · trivial
  · exact .register _ _ _ _
  · trivial
  · exact .caller (.request _)
  · trivial

theorem serving_of_steady {c : FleetPool} {ev : FleetEvent} (hbegun : Begun cfg ev)
    (hev : steady false c ev = true) :
    Serving cfg c ev := by
  cases ev with
  | go t w =>
    intro op k held ht
    simp only [steady, ht] at hev
    exact (final_of_harmless hev).1
  | _ => exact hbegun

def fitting (c : FleetPool) : FleetEvent → Bool
  | .go t _ => match c.threads[t]? with
    | some ⟨.perform e _, _⟩ => match e.op? with
      | some (.register payload _ _) => soloFleet.machines.all fun machine => resumable machine payload.resumePath
      | _ => true
    | _ => true
  | _ => true

theorem launchMachine_mem (h : launchMachine cfg l = some machine) : machine ∈ cfg.machines := by
  cases l with
  | orchestrator => exact List.mem_of_find?_eq_some h
  | pm project =>
    obtain ⟨p, -, hmachine⟩ := Option.bind_eq_some_iff.mp h
    exact List.mem_of_find?_eq_some hmachine

theorem fitting_of_test {c : FleetPool} {ev : FleetEvent} (hev : fitting c ev = true) : Fitting soloFleet c ev := by
  cases ev with
  | go t w =>
    intro β e k held payload now uuid ht hop
    simp only [fitting, ht, hop] at hev
    refine .inr fun row _ _ l machine _ hmachine => ?_
    exact List.all_eq_true.mp hev machine (launchMachine_mem hmachine)
  | _ => trivial

theorem resume_paths_resumable_recordedPath : ∃ c : FleetPool,
    selectedPath c.state.db (.pm "p") = some "/home/u/.omp/agent/sessions/a.jsonl" ∧
    Resumes soloFleet c.state.db := by
  have hrun : (Pool.checkedRun fleetInterp (fun c ev => steady false c ev && fitting c ev) ⟨{}, []⟩
      (recordedPath "/home/u/.omp/agent/sessions/a.jsonl")).map (fun c => selectedPath c.state.db (.pm "p")) =
        some (some "/home/u/.omp/agent/sessions/a.jsonl") := by decide +kernel
  obtain ⟨c, hc, hselected⟩ := Option.map_eq_some_iff.mp hrun
  refine ⟨c, hselected, resume_paths_resumable (.first soloFleet)
    (Pool.Reachable.checkedRun .init (fun d ev hev htest => ?_) hc)⟩
  obtain ⟨hsteady, hfitting⟩ := Bool.and_eq_true_iff.mp htest
  exact ⟨serving_of_steady (begun_recordedPath _ ev hev) hsteady, fitting_of_test hfitting⟩

/-- The operator registers whatever path it likes, and the next launch refuses it. -/
theorem recorded_path_blocks : ¬∀ (cfg : FleetConfig) (s : FleetWorld) (c : FleetPool),
    Starts Serving (fun _ _ _ => True) cfg s → Pool.Reachable fleetInterp (Serving cfg) s c →
    Resumes cfg c.state.db := by
  intro hall
  have hrun : (Pool.checkedRun fleetInterp (steady false) ⟨{}, []⟩ (recordedPath "/tmp/a.jsonl")).map
      (fun c => selectedPath c.state.db (.pm "p")) = some (some "/tmp/a.jsonl") := by decide +kernel
  obtain ⟨c, hc, hselected⟩ := Option.map_eq_some_iff.mp hrun
  have hreach : Pool.Reachable fleetInterp (Serving soloFleet) {} c :=
    .checkedRun .init (fun d ev hev htest => serving_of_steady (begun_recordedPath _ ev hev) htest) hc
  have hmachine : launchMachine soloFleet (.pm "p") = some ⟨"desktop", "/home/u"⟩ := by decide
  have hpasses := hall soloFleet {} c (.first soloFleet) hreach _ _ _ hmachine hselected
  revert hpasses
  decide +kernel

end WorkerHarness.ResumePaths
