import WorkerHarness.CleanupRetries
import WorkerHarness.WorktreeRecords

/-!
# No worktree is left behind unrecorded

A launch creates the worktree of a task before it inserts the row that names it. When the launch has ended, in
whatever way, the worktree is in a durable row, as long as a creation that is carried out is acknowledged, the
workspace fails only with the errors of remote calls, and the insertion of the row is carried out.
-/

namespace WorkerHarness.TrackedWorktrees

open Coroutines SharedTransactions Database SessionStatements LiveSessions LiveManagers ManagerRows ManagerLocks
open LaunchedSessions Orchestrator OrchestratorCalls OrchestratorWalks WorktreeRemovals CleanupRetries
  WorktreeRecords

variable {id machine repo path branch : String} {t : ℕ} {h : List FleetLock} {s s' : FleetWorld} {α β : Type}

/-- How the creation of a worktree ends: of a new worktree at most the record is missing. -/
def Creates (t : ℕ) (id machine repo : String) (h : List FleetLock) (r : Except FleetError (String × String))
    (h' : List FleetLock) (s : FleetWorld) : Prop :=
  h' = h ∧ match r with
    | .ok created => created.1 ≠ "" ∧ Pending t id machine repo created.1 created.2 s
    | .error _ => Tracked t s

theorem worktreeDir_ne_empty (machine : Machine) (repo slug : String) : machine.worktreeDir repo slug ≠ "" := by
  intro hempty
  have hlength := congrArg String.length hempty
  simp [Machine.worktreeDir, Machine.cacheRoot] at hlength

theorem moves_record {x : FleetEntry} (hx : thread x = t) (s : FleetWorld) : Moves (· = t) s (s.record x) where
  log := List.prefix_append _ _
  entries e he := (List.mem_append.mp he).imp_right fun he => by rw [List.mem_singleton.mp he, hx]
  durable := .refl _

/-- An acknowledged creation adds one worktree to those of the coroutine. -/
theorem pending_record {base : String} (hs : Tracked t s) :
    Pending t id machine repo path branch
    (s.record (.remote t id machine (.worktreeAdd repo branch base path) true)) := by
  rintro id' machine' repo' path' branch' ⟨base', he⟩
  rcases List.mem_append.mp he with he | he
  · exact .inl (hs _ _ _ _ _ ⟨base', he⟩)
  · cases List.mem_singleton.mp he
    exact .inr ⟨rfl, rfl, rfl, rfl, rfl⟩

/-- A creation that is not acknowledged adds none. -/
theorem tracked_record {command : RemoteCommand} (hs : Tracked t s) :
    Tracked t (s.record (.remote t id machine command false)) := by
  rintro id' machine' repo' path' branch' ⟨base', he⟩
  rcases List.mem_append.mp he with he | he
  · exact hs _ _ _ _ _ ⟨base', he⟩
  · cases List.mem_singleton.mp he

theorem safe_createWorktree (machine : Machine) (base : String) (attempts : List ℕ) (hs : Tracked t s) :
    Safe heedfulInterp recording t (Creates t id machine.name repo h)
      (createWorktree id machine repo branch base attempts) h s := by
  induction attempts generalizing s with
  | nil => exact fun s' hr _ => ⟨rfl, hs.idle (idle_of_rely hr)⟩
  | cons attempt attempts ih =>
    intro s₁ hr₁ hi₁ _
    have hs₁ : Tracked t s₁ := hs.idle (idle_of_rely hr₁)
    have hmoves : ∀ command ack, Moves (· = t) s₁ (s₁.record (.remote t id machine.name command ack)) :=
      fun command ack => moves_record (x := .remote t id machine.name command ack) rfl s₁
    refine ⟨trivial, fun w s₂ b hh => ?_⟩
    obtain ⟨-, hh⟩ := Interp.restrict_handle hh
    cases w with
    | done =>
      cases hh
      exact ⟨hmoves _ _, hi₁, fun s' hr' _ =>
        ⟨rfl, worktreeDir_ne_empty _ _ _, (pending_record hs₁).idle (idle_of_rely hr')⟩⟩
    | fails e n =>
      cases hh
      have hs₂ : ∀ command, Tracked t (s₁.record (.remote t id machine.name command false)) :=
        fun _ => tracked_record hs₁
      refine ⟨hmoves _ _, hi₁, ?_⟩
      cases e with
      | shimError message => exact ih (hs₂ _)
      | _ => exact fun s' hr' _ => ⟨rfl, (hs₂ _).idle (idle_of_rely hr')⟩
    | _ => cases hh

/-- An insertion that is carried out is durable. -/
theorem durable_of_ok {row : PiSession} (hok : (alone (SessionOp.prog (.insert row)) s.durable s.db).1 = .ok ()) :
    row ∈ (s.run (.insert row)).durable.sessions := by
  have hadds := adds_of_ok hok
  have hany : ¬s.db.sessions.any (fun r => decide (r.id = row.id)) = true := by simpa using hadds.new
  have hcount : (insertInto sessionsTable (·.id) row).rowcount s.db = 1 := if_neg hany
  have happly : (insertInto sessionsTable (·.id) row).apply s.db =
    { s.db with sessions := s.db.sessions ++ [row] } :=
    if_neg hany
  simp [FleetWorld.run, SessionOp.prog, insertPiSession, insertRow, execute, commit, Prog.call, alone,
    hcount, happly]

/-- The worktree is about to be recorded; a session without one has nothing to wait for. -/
structure Creating (t : ℕ) (id machine repo path branch : String) (s : FleetWorld) : Prop where
  pending : Pending t id machine repo path branch s
  tracked : path = "" → Tracked t s

theorem Creating.idle (hs : Creating t id machine repo path branch s) (hi : Idle t s s') :
    Creating t id machine repo path branch s' :=
  ⟨hs.pending.idle hi, fun hempty => (hs.tracked hempty).idle hi⟩

theorem creating_of_tracked (hs : Tracked t s) : Creating t id machine repo path branch s :=
  ⟨hs.pending, fun _ => hs⟩

theorem safe_time_bind {f : ℕ → FleetM β} (hs : Creating t id machine repo path branch s)
    (hf : ∀ now s', Creating t id machine repo path branch s' →
      Safe heedfulInterp recording t (fun _ h' s' => h' = h ∧ Tracked t s') (f now) h s') :
    Safe heedfulInterp recording t (fun _ h' s' => h' = h ∧ Tracked t s') ((Prog.call .time).bind f) h s := by
  intro s₁ hr₁ hi₁ _
  have htime : Quiet ℕ .time := trivial
  obtain ⟨hpre, hstep⟩ := quiet_call (h := h) htime (fun _ _ hs hidle => Creating.idle hs hidle) hi₁
    (hs.idle (idle_of_rely hr₁))
  refine ⟨hpre, fun w s₂ now hh => ?_⟩
  obtain ⟨hguar, hi₂, hs₂⟩ := hstep w s₂ now hh
  exact ⟨hguar, hi₂, hf now s₂ hs₂⟩

/-- Once the row is inserted, every worktree of the coroutine is in a durable row. -/
theorem safe_insert_bind {row : PiSession} {f : Unit → FleetM β} (hrow : Records id machine repo path branch row)
    (hs : Creating t id machine repo path branch s) (hf : Tracks t (f ())) :
    Safe heedfulInterp recording t (fun _ h' s' => h' = h ∧ Tracked t s') ((write (.insert row)).bind f) h s := by
  intro s₁ hr₁ hi₁ _
  refine ⟨trivial, fun w s₂ r hh => ?_⟩
  obtain ⟨hheed, hh⟩ := Interp.restrict_handle hh
  have hquiet : Quiet _ (.write (.insert row)) := fun _ _ heq => SessionOp.noConfusion heq
  have hstep : QuietStep t s₁ s₂ := quietStep_of_handle hquiet hheed hi₁ hh
  have hs₂ : Creating t id machine repo path branch s₂ := (hs.idle (idle_of_rely hr₁)).idle hstep.idle
  have htracked : Tracked t s₂ := by
    by_cases hpath : path = ""
    · exact hs₂.tracked hpath
    · obtain ⟨rfl, hok⟩ := hheed (hrow.worktree ▸ hpath)
      cases hh
      exact hs₂.pending.tracked ⟨row, durable_of_ok hok, hrow⟩
  refine ⟨hstep.moves, hstep.inv, ?_⟩
  cases r with
  | ok u => exact hf h s₂ htracked
  | error e => exact upholds_raise (walk_tracked t) e h s₂ htracked

theorem records_newSession (spec : LaunchSpec) (sid tokenHash : String) (parent : Option String)
    (briefing worktree branch : String) (workspace : Option Workspace) (resumePath : Option String) (now : ℕ) :
    Records sid spec.machine.name spec.repo worktree branch
      (newSession spec sid tokenHash parent briefing worktree branch workspace resumePath now) :=
  ⟨rfl, rfl, rfl, rfl, rfl⟩

variable {cfg : FleetConfig} {launching : Launch} {spec : LaunchSpec} {sid token worktree : String}

theorem safe_launchIn (hs : Creating t sid spec.machine.name spec.repo worktree branch s) :
    Safe heedfulInterp recording t (fun _ h' s' => h' = h ∧ Tracked t s')
      (launchIn cfg launching spec sid token worktree branch) h s := by
  intro s₁ hr₁ hi₁ _
  refine ⟨trivial, fun w s₂ created hh => ?_⟩
  obtain ⟨hheed, hh⟩ := Interp.restrict_handle hh
  have hcreate : Quiet _ (.workspaceCreate launching.machine.name spec.cwd spec.label) := trivial
  have hstep : QuietStep t s₁ s₂ := quietStep_of_handle hcreate hheed hi₁ hh
  have hs₂ := (hs.idle (idle_of_rely hr₁)).idle hstep.idle
  refine ⟨hstep.moves, hstep.inv, ?_⟩
  -- A workspace is there, or a remote call has failed: in both cases a row is inserted.
  cases created with
  | ok workspace =>
    exact safe_time_bind hs₂ fun now s₃ hs₃ =>
      safe_insert_bind (records_newSession _ _ _ _ _ _ _ _ _ _) hs₃
        (upholds_startAgent (walk_tracked t) _ launching spec token)
  | error e =>
    have hremote : e.remote = true := by
      cases w with
      | fails e' n =>
        cases hh
        exact hheed
      | _ => cases hh
    refine safe_time_bind hs₂ fun now s₃ hs₃ => ?_
    dsimp only
    rw [if_pos hremote]
    refine safe_insert_bind (records_newSession _ _ _ _ _ _ _ _ _ _) hs₃
      (upholds_bind (walk_tracked t) (upholds_markFailed (walk_tracked t) _ e _) fun _ => ?_)
    split
    · exact upholds_bind (walk_tracked t) (upholds_cleanupFailedWorktree (walk_tracked t) _) fun _ =>
        upholds_raise (walk_tracked t) e
    · exact upholds_raise (walk_tracked t) e

/-- The names of the worktree do not matter to whether a session can be described. -/
theorem exists_launchSpec (hspec : launchSpec cfg launching launching.cwd launching.branch = .ok spec)
    (htask : launching.role = .task) (cwd branch : String) :
    ∃ spec', launchSpec cfg launching cwd branch = .ok spec' ∧
      spec'.machine = launching.machine ∧ spec'.repo = launching.repo := by
  unfold launchSpec at hspec ⊢
  rw [htask] at hspec ⊢
  dsimp only at hspec ⊢
  split at hspec
  · cases hspec
  · next hnames =>
    rw [if_neg hnames]
    exact ⟨_, rfl, rfl, rfl⟩

theorem safe_launchTaskIn (htask : launching.role = .task)
    (hspec : launchSpec cfg launching launching.cwd launching.branch = .ok spec) (hs : Tracked t s) :
    Safe heedfulInterp recording t (fun _ h' s' => h' = h ∧ Tracked t s')
      (launchTaskIn cfg launching spec sid token) h s := by
  refine Safe.bind recording_coherent (Safe.attempt (Safe.mono ?_ (safe_createWorktree launching.machine
    launching.baseBranch [1, 2, 3, 4, 5] hs)))
  rintro r h' s₁ - ⟨rfl, hr⟩
  cases r with
  | ok created =>
    obtain ⟨worktree, branch⟩ := created
    obtain ⟨hne, hpending⟩ := hr
    obtain ⟨spec', hspec', hmachine, hrepo⟩ := exists_launchSpec hspec htask worktree branch
    dsimp only
    rw [hspec']
    refine safe_launchIn ?_
    rw [hmachine, hrepo]
    exact ⟨hpending, fun hempty => absurd hempty hne⟩
  | error e =>
    have hs₁ : Tracked t s₁ := hr
    cases e with
    | worktreeError message =>
      have hcreating : Creating t sid spec.machine.name spec.repo "" launching.branch s₁ := creating_of_tracked hs₁
      refine safe_time_bind hcreating fun now s₂ hs₂ => ?_
      exact safe_insert_bind (records_newSession _ _ _ _ _ _ _ _ _ _) hs₂
        (upholds_bind (walk_tracked t) (upholds_markFailed (walk_tracked t) _ _ _) fun _ => upholds_raise
          (walk_tracked t) _)
    | _ => exact upholds_raise (walk_tracked t) _ h' s₁ hs₁

theorem tracks_launch (cfg : FleetConfig) (launching : Launch) : Tracks t (launch cfg launching) :=
  upholds_launch (walk_tracked t) launching fun _ _ _ htask hspec _ _ hs => safe_launchTaskIn htask hspec hs

abbrev HostPool := Pool FleetCall FleetLock FleetError Unit RemoteWorld

abbrev HostEvent := Event FleetCall FleetLock FleetError Unit FleetAnswer

def Plain : (β : Type) → FleetCall β → FleetAnswer → Prop
  | _, .remote _ _ (.worktreeAdd _ _ _ _), .fails _ n => n = 0
  | _, _, _ => True

/-- Operations start at any time; whatever an await answers, an exception included, is allowed if it is heedful. -/
def Heeded (cfg : FleetConfig) : HostPool → HostEvent → Prop
  | _, .spawn p => Operation cfg p
  | c, .go t w => ∀ (β : Type) (e : FleetCall β) (k : β → FleetM Unit) (held : List FleetLock),
      c.threads[t]? = some ⟨.perform e k, held⟩ → Plain β e w ∧ Heedful β e w c.state.fleet
  | _, _ => False

theorem map_world {f : FleetWorld → RemoteWorld} {x : Option (FleetWorld × β)} {r' : RemoteWorld} {b : β}
    (h : x.map (fun y => (f y.1, y.2)) = some (r', b)) : ∃ fleet, x = some (fleet, b) ∧ r' = f fleet := by
  obtain ⟨y, rfl, hy⟩ := Option.map_eq_some_iff.mp h
  cases hy
  exact ⟨y.1, rfl, rfl⟩

/-- Apart from commands no effect touches a worktree. -/
def Command : (β : Type) → FleetCall β → Prop
  | _, .remote _ _ _ => True
  | _, _ => False

theorem host_cases {r r' : RemoteWorld} {e : FleetCall β} {w : FleetAnswer} {b : β}
    (hh : hostHandle e t w r = some (r', b)) : ∃ f : FleetWorld → RemoteWorld, (∀ fleet, (f fleet).fleet = fleet) ∧
      (¬Command β e → ∀ fleet, (f fleet).host.worktrees = r.host.worktrees) ∧
      (fleetHandle e t w r.fleet).map (fun y => (f y.1, y.2)) = some (r', b) := by
  cases e with
  | remote id machine command =>
    simp only [hostHandle] at hh
    split at hh
    · cases hh
    · exact ⟨fun fleet => ⟨fleet, r.host.answered machine command w⟩, fun _ => rfl, fun hn => absurd trivial hn, hh⟩
  | workspaceCreate machine cwd label =>
    cases w with
    | workspace workspace =>
      simp only [hostHandle] at hh
      split at hh
      · cases hh
      · exact ⟨fun fleet => ⟨fleet, { r.host with panes := (machine, workspace.paneId) :: r.host.panes }⟩,
          fun _ => rfl,
          fun _ _ => rfl, hh⟩
    | _ => exact ⟨fun fleet => ⟨fleet, r.host⟩, fun _ => rfl, fun _ _ => rfl, hh⟩
  | _ => exact ⟨fun fleet => ⟨fleet, r.host⟩, fun _ => rfl, fun _ _ => rfl, hh⟩

/-- The machines do what the service is told. -/
theorem fleetHandle_of_host {r r' : RemoteWorld} {e : FleetCall β} {w : FleetAnswer} {b : β}
    (hh : hostHandle e t w r = some (r', b)) : fleetHandle e t w r.fleet = some (r'.fleet, b) := by
  obtain ⟨f, hf, -, hmap⟩ := host_cases hh
  obtain ⟨fleet, hfleet, rfl⟩ := map_world hmap
  rw [hfleet, hf]

theorem worktrees_of_host {r r' : RemoteWorld} {e : FleetCall β} {w : FleetAnswer} {b : β} (he : ¬Command β e)
    (hh : hostHandle e t w r = some (r', b)) : r'.host.worktrees = r.host.worktrees := by
  obtain ⟨f, -, hf, hmap⟩ := host_cases hh
  obtain ⟨fleet, -, rfl⟩ := map_world hmap
  exact hf he fleet

/-- Every worktree of the machines was there at the start, or its creation was acknowledged. -/
def Accounted (host : Host) (r : RemoteWorld) : Prop :=
  ∀ machine path, (machine, path) ∈ r.host.worktrees → (machine, path) ∈ host.worktrees ∨
    ∃ t id repo branch, Created r.fleet.log t id machine repo path branch

theorem log_prefix_of_handle {e : FleetCall β} {w : FleetAnswer} {b : β} (hh : fleetHandle e t w s = some (s', b)) :
    s.log <+: s'.log := by
  have hacts : ∃ id, Acts id True True β e := by
    cases e with
    | remote id machine command => cases command <;> first | exact ⟨id, rfl, trivial⟩ | exact ⟨id, trivial⟩
    | _ => exact ⟨"", trivial⟩
  obtain ⟨id, hacts⟩ := hacts
  exact (oneStep_of_acts hacts hh).own.log

/-- A command adds a worktree only if it creates one. -/
theorem mem_after {host : Host} {machine' : String} {command : RemoteCommand}
    (h : (machine, path) ∈ (host.after machine' command).worktrees) : (machine, path) ∈ host.worktrees ∨
      machine' = machine ∧ ∃ repo branch base, command = .worktreeAdd repo branch base path := by
  cases command with
  | worktreeAdd repo branch base path' =>
    rcases List.mem_cons.mp h with heq | h
    · cases heq
      exact .inr ⟨rfl, repo, branch, base, rfl⟩
    · exact .inl h
  | worktreeRemove repo path' => exact .inl (List.mem_of_mem_filter h)
  | _ => exact .inl h

theorem Accounted.step {host : Host} {r r' : RemoteWorld} {e : FleetCall β} {w : FleetAnswer} {b : β}
    (hr : Accounted host r) (hplain : Plain β e w) (hh : hostHandle e t w r = some (r', b)) :
    Accounted host r' := by
  have hlog := log_prefix_of_handle (fleetHandle_of_host hh)
  have hold : ∀ machine path, (machine, path) ∈ r.host.worktrees → (machine, path) ∈ host.worktrees ∨
      ∃ t id repo branch, Created r'.fleet.log t id machine repo path branch := by
    intro machine path hmem
    refine (hr machine path hmem).imp_right ?_
    rintro ⟨t, id, repo, branch, base, he⟩
    exact ⟨t, id, repo, branch, base, hlog.subset he⟩
  intro machine path hmem
  cases e with
  | remote id machine' command =>
    simp only [hostHandle] at hh
    split at hh
    · cases hh
    · -- A command that fails adds no worktree, one that is acknowledged is in the log.
      cases w with
      | done =>
        cases hh
        rcases mem_after hmem with hmem | ⟨rfl, repo, branch, base, rfl⟩
        · exact hold machine path hmem
        · exact .inr ⟨t, id, repo, branch, base, List.mem_append_right _ (List.mem_singleton_self _)⟩
      | fails error n =>
        cases hh
        simp only [Host.answered] at hmem
        split at hmem
        · next hcarried =>
          rcases mem_after hmem with hmem | ⟨rfl, repo, branch, base, rfl⟩
          · exact hold machine path hmem
          · exact absurd hplain hcarried.1
        · exact hold machine path hmem
      | _ => cases hh
  | _ => exact hold machine path (worktrees_of_host id hh ▸ hmem)

/-- The same for the service alone. -/
def Attentive (cfg : FleetConfig) : FleetPool → FleetEvent → Prop
  | _, .spawn p => Operation cfg p
  | c, .go t w => ∀ (β : Type) (e : FleetCall β) (k : β → FleetM Unit) (held : List FleetLock),
      c.threads[t]? = some ⟨.perform e k, held⟩ → Heedful β e w c.state
  | _, _ => False

variable {d : Tables} {host : Host} {c : HostPool}

theorem attentive_of_heeded (hc : Pool.Reachable hostInterp (Heeded cfg) ⟨{ db := d, durable := d }, host⟩ c) :
    Pool.Reachable fleetInterp (Attentive cfg) { db := d, durable := d } (c.view RemoteWorld.fleet) := by
  have hfollows : ∀ (β : Type) (e : FleetCall β) t w r r' b, hostInterp.handle e t w r = some (r', b) →
      fleetInterp.handle e t w (RemoteWorld.fleet r) = some (RemoteWorld.fleet r', b) :=
    fun _ _ _ _ _ _ _ hh => fleetHandle_of_host hh
  refine hc.view (f := RemoteWorld.fleet) hfollows fun c ev hok => ?_
  cases ev with
  | spawn p => exact hok
  | go t w => exact fun β e k held ht => (hok β e k held ht).2
  | cancel t e => exact hok
  | crash e => exact hok

theorem sound_of_attentive {c : FleetPool}
    (hc : Pool.Reachable fleetInterp (Attentive cfg) { db := d, durable := d } c) :
    Pool.Sound heedfulInterp recording (fun t _ _ s => Tracked t s) c := by
  have hrestricted : Pool.Reachable heedfulInterp (Operates cfg) { db := d, durable := d } c := by
    refine hc.restrict (fun c ev hok => ?_) fun c t w β e k held hok ht => hok β e k held ht
    cases ev with
    | go t w => trivial
    | _ => exact hok
  have hinit : recording.inv { db := d, durable := d } := Carries.refl d
  refine hrestricted.sound recording_coherent hinit (fun t e he => (nomatch he)) (fun _ => trivial) ?_
    (fun _ _ _ _ _ _ _ _ _ => trivial) (fun _ _ _ hok => hok.elim) (fun _ _ hok => hok.elim) fun _ _ _ => trivial
  intro c p hp t s _ hfresh
  have hs : Tracked t s := fun id machine repo path branch hcreated => by
    obtain ⟨base, he⟩ := hcreated
    exact absurd rfl (hfresh _ he)
  exact Safe.mono (fun _ _ _ _ hq => hq.2) (upholds_operation (walk_tracked t) (tracks_launch cfg) hp [] s hs)

def Running (c : HostPool) (t : ℕ) : Prop := t < c.threads.length ∧ c.result t = none

theorem tracked_of_result (hc : Pool.Reachable hostInterp (Heeded cfg) ⟨{ db := d, durable := d }, host⟩ c)
    (ht : ¬Running c t) : Tracked t c.state.fleet := by
  have hsound := sound_of_attentive (attentive_of_heeded hc)
  by_cases hlt : t < c.threads.length
  · obtain ⟨r, hr⟩ := Option.ne_none_iff_exists'.mp fun hnone => ht ⟨hlt, hnone⟩
    obtain ⟨held, hthread⟩ := Pool.finished_of_result hr
    have hsafe := hsound.safe t _ hthread
    cases r with
    | ok a => exact hsafe _ (Moves.refl _ _) hsound.inv
    | error e => exact hsafe _ (Moves.refl _ _) hsound.inv
  · rintro id machine repo path branch ⟨base, he⟩
    exact absurd rfl (hsound.fresh t (Nat.le_of_not_lt hlt) _ he)

/-- In every reachable state each worktree that is new on a machine was created for a session, and unless the launch
still runs a durable row of the session says where it is. -/
theorem worktrees_tracked (hc : Pool.Reachable hostInterp (Heeded cfg) ⟨{ db := d, durable := d }, host⟩ c)
    (hworktree : (machine, path) ∈ c.state.host.worktrees) (hnew : (machine, path) ∉ host.worktrees) :
    ∃ t id repo branch, Created c.state.fleet.log t id machine repo path branch ∧
      (Running c t ∨ Recorded id machine repo path branch c.state.fleet.durable) := by
  have haccounted : Accounted host c.state := by
    refine hc.invariant (fun machine path hmem => .inl hmem) fun c t w β e k held r b hok ht hj hh => ?_
    exact hj.step (hok β e k held ht).1 hh
  obtain ⟨t, id, repo, branch, hcreated⟩ := (haccounted machine path hworktree).resolve_left hnew
  refine ⟨t, id, repo, branch, hcreated, ?_⟩
  by_cases hrunning : Running c t
  · exact .inl hrunning
  · exact .inr (tracked_of_result hc hrunning id machine repo path branch hcreated)

/-- The test of a schedule: what `Heeded` asks for, and no requests. -/
def heedsCall (s : FleetWorld) (w : FleetAnswer) : FleetCall β → Bool
  | .remote _ _ (.worktreeAdd _ _ _ _) => match w with
    | .fails _ n => n = 0
    | _ => true
  | .workspaceCreate _ _ _ => match w with
    | .fails e _ => e.remote
    | _ => true
  | .write (.insert row) => decide (w = .done) && (alone (SessionOp.prog (.insert row)) s.durable s.db).1.toBool
  | .request _ => false
  | _ => true

def heeds (c : HostPool) : HostEvent → Bool
  | .go t w => match c.threads[t]? with
    | some ⟨.perform e _, _⟩ => heedsCall c.state.fleet w e
    | _ => true
  | _ => true

theorem heedful_of_heedsCall {e : FleetCall β} {w : FleetAnswer} (h : heedsCall s w e = true) :
    Plain β e w ∧ Heedful β e w s := by
  cases e with
  | remote id machine command =>
    cases command with
    | worktreeAdd repo branch base path =>
      cases w with
      | fails e n =>
        have hn : decide (n = 0) = true := h
        have hzero : n = 0 := of_decide_eq_true hn
        exact ⟨hzero, trivial⟩
      | _ => exact ⟨trivial, trivial⟩
    | _ => exact ⟨trivial, trivial⟩
  | workspaceCreate machine cwd label =>
    cases w with
    | fails e n => exact ⟨trivial, h⟩
    | _ => exact ⟨trivial, trivial⟩
  | write op =>
    cases op with
    | insert row =>
      obtain ⟨hw, hok⟩ := (Bool.and_eq_true _ _).mp h
      refine ⟨trivial, fun _ => ⟨of_decide_eq_true hw, ?_⟩⟩
      cases hresult : (alone (SessionOp.prog (.insert row)) s.durable s.db).1 with
      | ok u => rfl
      | error e =>
        rw [hresult] at hok
        cases hok
    | _ => exact ⟨trivial, trivial⟩
  | request op => cases h
  | _ => exact ⟨trivial, trivial⟩

theorem heeded_of_heeds {c : HostPool} {t : ℕ} {w : FleetAnswer} (h : heeds c (.go t w) = true) :
    Heeded cfg c (.go t w) := by
  intro β e k held ht
  simp only [heeds, ht] at h
  exact heedful_of_heedsCall h

/-- No workspace can be had for a new worktree, and its removal fails. -/
def leftBehind : List HostEvent :=
  .spawn ((launch soloFleet
      { role := .task, machine := { name := "desktop", home := "/home/u" }, cwd := "/src/p", projectName := "p",
        repo := "/src/p", remote := "origin", branch := "fix", briefing := "repair it" }).bind fun _ => .ret ()) ::
    [FleetAnswer.text "task", .text "token", .done, .fails (.laneTimeout "") 0, .number 1, .done, .number 1, .done,
      .text "e1", .number 1, .done, .fails (.shimError "") 0, .text "e2", .number 1, .done].map (.go 0 ·)

theorem worktrees_tracked_leftBehind : ∃ c : HostPool,
    c.state.host.worktrees = [("desktop", "/home/u/.cache/worker-harness/worktrees/p/fix")] ∧
    c.result 0 = some (.error (.laneTimeout "")) ∧ ∃ t id repo branch,
      Created c.state.fleet.log t id "desktop" repo "/home/u/.cache/worker-harness/worktrees/p/fix" branch ∧
      (Running c t ∨
        Recorded id "desktop" repo "/home/u/.cache/worker-harness/worktrees/p/fix"
          branch c.state.fleet.durable) := by
  have hrun : (Pool.checkedRun hostInterp heeds ⟨⟨{}, {}⟩, []⟩ leftBehind).map
      (fun c => (c.state.host.worktrees, c.result 0)) =
        some ([("desktop", "/home/u/.cache/worker-harness/worktrees/p/fix")], some (.error (.laneTimeout ""))) := by
    decide +kernel
  obtain ⟨c, hc, hobs⟩ := Option.map_eq_some_iff.mp hrun
  simp only [Prod.mk.injEq] at hobs
  have hreach : Pool.Reachable hostInterp (Heeded soloFleet) ⟨{ db := {}, durable := {} }, {}⟩ c := by
    refine Pool.Reachable.checkedRun .init (fun c ev hev htest => ?_) hc
    rcases List.mem_cons.mp hev with rfl | hev
    · exact .launch _
    · obtain ⟨w, -, rfl⟩ := List.mem_map.mp hev
      exact heeded_of_heeds htest
  exact ⟨c, hobs.1, hobs.2, worktrees_tracked hreach (by rw [hobs.1]; exact List.mem_singleton_self _) (by simp)⟩

end WorkerHarness.TrackedWorktrees
