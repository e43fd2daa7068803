import WorkerHarness.LiveManagers
import WorkerHarness.UndisturbedRuns
import Mathlib.Data.Fintype.EquivFin

/-!
# Cleanups that are tried again

Launches, teardowns and stops can fail at each of their remote steps, whether the step was carried out
or not. A later cleanup meets what they left: a pane that is closed already and a worktree that is gone
are errors to the machine, and these errors end the cleanup, also when everything else succeeds.
-/

namespace WorkerHarness.CleanupRetries

open Coroutines SharedTransactions Database Orchestrator OrchestratorCalls ManagerRows ManagerLocks LiveManagers

/-- What launches leave on the machines, each with the name of its machine. -/
structure Host where
  panes : List (String × String) := []
  worktrees : List (String × String) := []
  branches : List (String × String × String) := []
  deriving DecidableEq, Repr

namespace Host

def can (h : Host) (machine : String) : RemoteCommand → Bool
  | .worktreeAdd repo branch _ path =>
  !h.worktrees.contains (machine, path) && !h.branches.contains (machine, repo, branch)
  | .worktreeRemove _ path => h.worktrees.contains (machine, path)
  | .branchDelete repo branch => h.branches.contains (machine, repo, branch)
  | .paneClose paneId => h.panes.contains (machine, paneId)
  | _ => true

def after (h : Host) (machine : String) : RemoteCommand → Host
  | .worktreeAdd repo branch _ path =>
    { h with worktrees := (machine, path) :: h.worktrees, branches := (machine, repo, branch) :: h.branches }
  | .worktreeRemove _ path => { h with worktrees := h.worktrees.filter fun w => w ≠ (machine, path) }
  | .branchDelete repo branch => { h with branches := h.branches.filter fun b => b ≠ (machine, repo, branch) }
  | .paneClose paneId => { h with panes := h.panes.filter fun p => p ≠ (machine, paneId) }
  | _ => h

/-- A command that fails may have been carried out: when `n` is not zero, it was. -/
def answered (h : Host) (machine : String) (command : RemoteCommand) : FleetAnswer → Host
  | .fails _ n => if n ≠ 0 ∧ h.can machine command = true then h.after machine command else h
  | _ => h.after machine command

/-- What the machine answers when it is reachable: a command that can be carried out succeeds. The agent of a
closed pane may be unknown to the pane server. -/
def obliges (h : Host) (machine : String) (command : RemoteCommand) (w : FleetAnswer) : Prop :=
  match command with
  | .releaseAgent _ _ _ _ => w = .done ∨ ∃ code message n, w = .fails (.herdrError code message) n
  | .paneClose _ => if h.can machine command then w = .done
    else ∃ code message n, w = .fails (.herdrError code message) n
  | _ => if h.can machine command then w = .done else ∃ message n, w = .fails (.shimError message) n

end Host

/-- The service and the machines. -/
structure RemoteWorld where
  fleet : FleetWorld := {}
  host : Host := {}

/-- A command succeeds only where it can be carried out, and a new workspace has a new pane. -/
def hostHandle : {β : Type} → FleetCall β → ℕ → FleetAnswer → RemoteWorld → Option (RemoteWorld × β)
  | _, .remote id machine command, t, w, s =>
    if w = .done ∧ s.host.can machine command = false then none
    else (fleetHandle (.remote id machine command) t w s.fleet).map fun r =>
      (⟨r.1, s.host.answered machine command w⟩, r.2)
  | _, .workspaceCreate machine cwd label, t, .workspace w, s =>
    if s.host.panes.contains (machine, w.paneId) then none
    else (fleetHandle (.workspaceCreate machine cwd label) t (.workspace w) s.fleet).map fun r =>
      (⟨r.1, { s.host with panes := (machine, w.paneId) :: s.host.panes }⟩, r.2)
  | _, e, t, w, s => (fleetHandle e t w s.fleet).map fun r => (⟨r.1, s.host⟩, r.2)

def hostInterp : Interp FleetCall RemoteWorld FleetAnswer := ⟨hostHandle⟩

/-- Every machine is reachable, and nothing else fails. -/
def Obliging : (β : Type) → FleetCall β → FleetAnswer → RemoteWorld → Prop
  | _, .remote _ machine command, w, s => s.host.obliges machine command w
  | _, _, w, _ => ∀ e n, w ≠ .fails e n

noncomputable def obligingInterp : Interp FleetCall RemoteWorld FleetAnswer := hostInterp.restrict Obliging

/-- The coroutine runs to its end, whatever the obliging answers. -/
abbrev Ends {α : Type} (t : ℕ) (Q : Except FleetError α → RemoteWorld → Prop) (p : FleetM α)
    (s : RemoteWorld) : Prop :=
  p.Always obligingInterp t (fun _ _ _ => True) Q s

structure Frame (s s' : RemoteWorld) : Prop where
  host : s'.host = s.host
  sessions : s'.fleet.db.sessions = s.fleet.db.sessions

def Known (session : PiSession) (s : RemoteWorld) : Prop := ∃ row ∈ s.fleet.db.sessions, row.id = session.id

def Stopped (session : PiSession) (s : RemoteWorld) : Prop :=
  ∃ row ∈ s.fleet.db.sessions, row.id = session.id ∧ row.state = .stopped

variable {α β : Type} {t : ℕ} {s s' s'' : RemoteWorld} {session : PiSession} {machine : Machine} {id : String}

theorem Frame.trans (h : Frame s s') (h' : Frame s' s'') : Frame s s'' :=
  ⟨h'.host.trans h.host, h'.sessions.trans h.sessions⟩

theorem Known.of_sessions (hs : Known session s) (h : s'.fleet.db.sessions = s.fleet.db.sessions) :
    Known session s' := by
  rwa [Known, h]

theorem Frame.known (h : Frame s s') (hs : Known session s) : Known session s' := hs.of_sessions h.sessions

theorem Frame.stopped (h : Frame s s') (hs : Stopped session s) : Stopped session s' := by
  rwa [Stopped, h.sessions]

theorem obliging_handle {e : FleetCall β} {w : FleetAnswer} {r : RemoteWorld × β} :
    obligingInterp.handle e t w s = some r ↔ Obliging β e w s ∧ hostHandle e t w s = some r := by
  constructor
  · intro h
    exact Interp.restrict_handle h
  · rintro ⟨hp, h⟩
    exact (Interp.restrict_handle_of hp).trans h

theorem exists_unused (s : FleetWorld) : ∃ id, s.unused id = true := by
  obtain ⟨id, hid⟩ := Infinite.exists_notMem_finset (s.ids.map (·.1) ++ s.db.sessions.map (·.id) ++
    s.db.events.map (·.id) ++ s.db.commands.map (·.id)).toFinset
  refine ⟨id, ?_⟩
  simp only [List.mem_toFinset, List.mem_append, not_or, List.mem_map, not_exists, not_and] at hid
  simp only [FleetWorld.unused, Bool.and_eq_true, Bool.not_eq_true', List.any_eq_false, decide_eq_true_eq]
  exact ⟨⟨⟨hid.1.1.1, hid.1.1.2⟩, hid.1.2⟩, hid.2⟩

theorem ends_uuid : Ends t (fun r s' => ∃ id, r = .ok id ∧ Frame s s') (Prog.call .uuid : FleetM String) s := by
  refine Prog.always_call.mpr ⟨?_, fun w s' id hh => ⟨trivial, id, rfl, ?_⟩⟩
  · obtain ⟨id, hid⟩ := exists_unused s.fleet
    refine ⟨.text id, (⟨s.fleet.give id t, s.host⟩, id),
      obliging_handle.mpr ⟨fun _ _ h => FleetAnswer.noConfusion h, ?_⟩⟩
    simp only [hostHandle, fleetHandle, if_pos hid, Option.map_some]
  · obtain ⟨-, hh⟩ := obliging_handle.mp hh
    cases w with
    | text drawn =>
      simp only [hostHandle, fleetHandle] at hh
      split at hh
      · cases hh
        exact ⟨rfl, rfl⟩
      · cases hh
    | _ => cases hh

theorem ends_time : Ends t (fun r s' => ∃ now, r = .ok now ∧ Frame s s') (Prog.call .time : FleetM ℕ) s := by
  refine Prog.always_call.mpr ⟨?_, fun w s' now hh => ⟨trivial, now, rfl, ?_⟩⟩
  · exact ⟨.number 0, _, obliging_handle.mpr ⟨fun _ _ h => FleetAnswer.noConfusion h, rfl⟩⟩
  · obtain ⟨-, hh⟩ := obliging_handle.mp hh
    cases w with
    | number n =>
      cases hh
      exact ⟨rfl, rfl⟩
    | _ => cases hh

/-- A method that returns alone returns. -/
theorem ends_write {op : SessionOp} (hok : (alone op.prog s.fleet.durable s.fleet.db).1 = .ok ()) :
    Ends t (fun r s' => ∃ u, r = .ok u ∧ s'.host = s.host ∧ s'.fleet = s.fleet.run op) (write op) s := by
  refine Prog.always_await.mpr ⟨?_, fun w s' r hh => ⟨trivial, ?_⟩⟩
  · exact ⟨.done, _, obliging_handle.mpr ⟨fun _ _ h => FleetAnswer.noConfusion h, rfl⟩⟩
  · obtain ⟨hobliging, hh⟩ := obliging_handle.mp hh
    cases w with
    | done =>
      cases hh
      refine ⟨(), ?_, rfl, rfl⟩
      rw [hok]
      rfl
    | fails e n => exact absurd rfl (hobliging e n)
    | _ => cases hh

theorem alone_insertEvent (event : PiSessionEvent) (d w : Tables) :
    (alone (SessionOp.prog (.insertEvent event)) d w).1 = .ok () ∧
      (alone (SessionOp.prog (.insertEvent event)) d w).2.2.sessions = w.sessions := by
  obtain ⟨events, hevents⟩ := insertEvent_apply event w
  simp [SessionOp.prog, insertPiSessionEvent, hevents]

theorem ends_recordEvent (id eventType : String) (payload : JsonObject) :
    Ends t (fun r s' => ∃ u, r = .ok u ∧ Frame s s') (recordEvent id eventType payload) s := by
  refine ends_uuid.bind_ok fun uuid s₁ h₁ => ends_time.bind_ok fun now s₂ h₂ => ?_
  refine (ends_write (alone_insertEvent _ _ _).1).mono ?_
  rintro r s₃ ⟨u, rfl, hhost, hfleet⟩
  refine ⟨u, rfl, (h₁.trans h₂).trans ⟨hhost, ?_⟩⟩
  rw [hfleet]
  exact (alone_insertEvent _ _ _).2

theorem ends_remoteCleanupError (session : PiSession) (operation : String) (e : FleetError) :
    Ends t (fun r s' => ∃ u, r = .ok u ∧ Frame s s') (remoteCleanupError session operation e) s :=
  ends_recordEvent _ _ _

theorem alone_finish (id : String) (state : PiSessionState) (detail : String) (now : ℕ) (d w : Tables) :
    (alone (SessionOp.prog (.finish id state detail now)) d w).1 = .ok () ∧
      (alone (SessionOp.prog (.finish id state detail now)) d w).2.2.sessions =
        updateRows (fun s => s.id = id) (PiSession.finished state detail now) w.sessions := by
  simp [SessionOp.prog, finishPiSession]

theorem ends_finish {state : PiSessionState} {detail : String} (hs : Known session s) :
    Ends t (fun r s' => ∃ u, r = .ok u ∧ s'.host = s.host ∧
      ∃ row ∈ s'.fleet.db.sessions, row.id = session.id ∧ row.state = state) (finish session state detail) s := by
  refine ends_time.bind_ok fun now s₁ h₁ => (ends_write (alone_finish _ _ _ _ _ _).1).mono ?_
  rintro r s₂ ⟨u, rfl, hhost, hfleet⟩
  refine ⟨u, rfl, hhost.trans h₁.host, ?_⟩
  obtain ⟨row, hrow, hid⟩ := h₁.known hs
  have hsessions : (s₁.fleet.run (.finish session.id state detail now)).db.sessions =
      updateRows (fun s => s.id = session.id) (PiSession.finished state detail now) s₁.fleet.db.sessions :=
    (alone_finish _ _ _ _ _ _).2
  refine ⟨PiSession.finished state detail now row, ?_, hid, rfl⟩
  rw [hfleet, hsessions]
  exact List.mem_map.mpr ⟨row, hrow, by simp [hid]⟩

theorem ends_markFailed {e : FleetError} {eventType : String} (hs : Known session s) :
    Ends t (fun r s' => ∃ u, r = .ok u ∧ s'.host = s.host) (markFailed session e eventType) s := by
  refine (ends_finish hs).bind_ok fun _ s₁ h₁ => (ends_recordEvent _ _ _).mono ?_
  rintro r s₂ ⟨u, rfl, h₂⟩
  exact ⟨u, rfl, h₂.host.trans h₁.1⟩

theorem exists_paneSequence {d : Tables} (h : ∃ row ∈ d.sessions, row.id = id) :
    ∃ n, paneSequence d id = some n := by
  obtain ⟨row, hrow, hid⟩ := h
  have hsome : (findSession d id).isSome = true := List.find?_isSome.mpr ⟨row, hrow, by simpa using hid⟩
  obtain ⟨row', hfind⟩ := Option.isSome_iff_exists.mp hsome
  exact ⟨_, by rw [paneSequence, hfind, Option.map_some]⟩

theorem ends_nextSequence (hs : Known session s) :
    Ends t (fun r s' => ∃ n, r = .ok n ∧ s'.host = s.host ∧ Known session s') (nextSequence session) s := by
  refine Prog.always_await.mpr ⟨?_, fun w s' r hh => ⟨trivial, ?_⟩⟩
  · exact ⟨.done, _, obliging_handle.mpr ⟨fun _ _ h => FleetAnswer.noConfusion h, rfl⟩⟩
  · obtain ⟨hobliging, hh⟩ := obliging_handle.mp hh
    have hknown : Known session ⟨s.fleet.run (.nextPane session.id), s.host⟩ := by
      obtain ⟨row, hrow, hid⟩ := hs
      have hop : ManagerRows.Bookkeeping (.nextPane session.id) := trivial
      obtain ⟨row', hrow', hid', -⟩ := (mild_run hop s.fleet).calm.persists row hrow
      exact ⟨row', hrow', hid'.trans hid⟩
    cases w with
    | done =>
      obtain ⟨n, hn⟩ := exists_paneSequence hknown
      simp only [hostHandle, fleetHandle, Option.map_some, hn] at hh
      cases hh
      exact ⟨n, rfl, rfl, hknown⟩
    | fails e n => exact absurd rfl (hobliging e n)
    | _ => cases hh

/-- A command that is carried out. -/
theorem ends_carriedOut {command : RemoteCommand} (hcan : s.host.can machine.name command = true)
    (hobliges : ∀ w, s.host.obliges machine.name command w ↔ w = .done) :
    Ends t (fun r s' => ∃ u, r = .ok u ∧ s'.host = s.host.after machine.name command ∧
      s'.fleet.db.sessions = s.fleet.db.sessions) (remote id machine command) s := by
  refine Prog.always_await.mpr ⟨?_, fun w s' r hh => ⟨trivial, ?_⟩⟩
  · refine ⟨.done, (⟨s.fleet.record (.remote t id machine.name command true), s.host.after machine.name command⟩,
      .ok ()),
      obliging_handle.mpr ⟨(hobliges _).mpr rfl, ?_⟩⟩
    simp [hostHandle, fleetHandle, hcan, Host.answered]
  · obtain ⟨hobliging, hh⟩ := obliging_handle.mp hh
    cases (hobliges w).mp hobliging
    simp only [hostHandle, fleetHandle, hcan, Bool.true_eq_false, and_false, if_false, Option.map_some] at hh
    cases hh
    exact ⟨(), rfl, rfl, rfl⟩

/-- A command that the machine refuses. -/
theorem ends_refused {command : RemoteCommand} {R : FleetError → Prop}
    (hcan : s.host.can machine.name command = false)
    (hR : ∃ e, R e) (hobliges : ∀ w, s.host.obliges machine.name command w ↔ ∃ e n, w = .fails e n ∧ R e) :
    Ends t (fun r s' => ∃ e, r = .error e ∧ R e ∧ Frame s s') (remote id machine command) s := by
  refine Prog.always_await.mpr ⟨?_, fun w s' r hh => ⟨trivial, ?_⟩⟩
  · obtain ⟨e, he⟩ := hR
    refine ⟨.fails e 0, (⟨s.fleet.record (.remote t id machine.name command false), s.host⟩, .error e),
      obliging_handle.mpr ⟨(hobliges _).mpr ⟨e, 0, rfl, he⟩, ?_⟩⟩
    simp [hostHandle, fleetHandle, Host.answered]
  · obtain ⟨hobliging, hh⟩ := obliging_handle.mp hh
    obtain ⟨e, n, rfl, he⟩ := (hobliges w).mp hobliging
    simp only [hostHandle, fleetHandle, Host.answered, hcan, reduceCtorEq, false_and, and_false, if_false,
      Bool.false_eq_true, Option.map_some] at hh
    cases hh
    exact ⟨e, rfl, he, rfl, rfl⟩

theorem obliges_of_can {command : RemoteCommand} (hcan : s.host.can machine.name command = true)
    (hrelease : ∀ paneId source agent sequence, command ≠ .releaseAgent paneId source agent sequence)
    (w : FleetAnswer) :
    s.host.obliges machine.name command w ↔ w = .done := by
  cases command with
  | releaseAgent paneId source agent sequence => exact absurd rfl (hrelease paneId source agent sequence)
  | _ => simp [Host.obliges, hcan]

theorem ends_paneClose_closed {paneId : String} (hcan : s.host.can machine.name (.paneClose paneId) = false) :
    Ends t (fun r s' => ∃ e, r = .error e ∧ (∃ code message, e = .herdrError code message) ∧ Frame s s')
      (remote id machine (.paneClose paneId)) s := by
  refine ends_refused hcan ⟨.herdrError "" "", "", "", rfl⟩ fun w => ?_
  simp only [Host.obliges, hcan, Bool.false_eq_true, if_false]
  constructor
  · rintro ⟨code, message, n, rfl⟩
    exact ⟨_, n, rfl, code, message, rfl⟩
  · rintro ⟨_, n, rfl, code, message, rfl⟩
    exact ⟨code, message, n, rfl⟩

/-- The shim refuses to remove what is not there. -/
theorem ends_shim_refused {command : RemoteCommand} (hcan : s.host.can machine.name command = false)
    (hobliges : ∀ w, s.host.obliges machine.name command w ↔ ∃ message n, w = .fails (.shimError message) n) :
    Ends t (fun r s' => ∃ e, r = .error e ∧ (∃ message, e = .shimError message) ∧ Frame s s')
      (remote id machine command) s := by
  refine ends_refused hcan ⟨.shimError "", "", rfl⟩ fun w => (hobliges w).trans ?_
  constructor
  · rintro ⟨message, n, rfl⟩
    exact ⟨_, n, rfl, message, rfl⟩
  · rintro ⟨_, n, rfl, message, rfl⟩
    exact ⟨message, n, rfl⟩

/-- The agent of the pane is released, or the pane server does not know it. -/
theorem ends_release (paneId source agent : String) (sequence : Int) :
    Ends t (fun r s' => (∀ e, r = .error e → e.remote = true) ∧ Frame s s')
      (remote id machine (.releaseAgent paneId source agent sequence)) s := by
  refine Prog.always_await.mpr ⟨?_, fun w s' r hh => ⟨trivial, ?_⟩⟩
  · exact ⟨.done, _, obliging_handle.mpr ⟨.inl rfl, rfl⟩⟩
  · obtain ⟨hobliging, hh⟩ := obliging_handle.mp hh
    rcases hobliging with rfl | ⟨code, message, n, rfl⟩
    · cases hh
      exact ⟨fun e he => (by cases he), rfl, rfl⟩
    · simp only [hostHandle, fleetHandle, Host.answered, Host.after, ite_self, reduceCtorEq, false_and, if_false,
        Option.map_some] at hh
      cases hh
      refine ⟨fun e he => ?_, rfl, rfl⟩
      cases he
      rfl

theorem ends_exceptRemote {p : FleetM α} {handler : FleetError → FleetM α}
    {Q : Except FleetError α → RemoteWorld → Prop}
    (hp : Ends t (fun r s' => match r with
      | .ok a => Q (.ok a) s'
      | .error e => e.remote = true ∧ Ends t Q (handler e) s') p s) : Ends t Q (exceptRemote p handler) s := by
  refine Prog.always_catching.mpr (hp.mono fun r s' hr => ?_)
  cases r with
  | ok a => exact hr
  | error e =>
    dsimp only
    rw [if_pos hr.1]
    exact hr.2

theorem ends_releaseAgent (paneId : String) (hs : Known session s) :
    Ends t (fun r s' => ∃ u, r = .ok u ∧ s'.host = s.host ∧ Known session s')
    (releaseAgent machine session paneId) s := by
  refine ends_exceptRemote ((ends_nextSequence hs).bind_ok fun n s₁ h₁ => (ends_release _ _ _ _).mono ?_)
  rintro r s₂ ⟨hremote, h₂⟩
  cases r with
  | ok u => exact ⟨u, rfl, h₂.host.trans h₁.1, h₂.known h₁.2⟩
  | error e =>
    refine ⟨hremote e rfl, (ends_remoteCleanupError session _ e).mono ?_⟩
    rintro r s₃ ⟨u, rfl, h₃⟩
    exact ⟨u, rfl, (h₂.trans h₃).host.trans h₁.1, (h₂.trans h₃).known h₁.2⟩

theorem ends_removeCache (hs : Known session s) :
    Ends t (fun r s' => ∃ u, r = .ok u ∧ Known session s') (removeCache machine session) s := by
  refine ends_exceptRemote
    ((ends_carriedOut rfl (obliges_of_can rfl fun _ _ _ _ h => RemoteCommand.noConfusion h)).mono ?_)
  rintro r s₁ ⟨u, rfl, -, hsessions⟩
  exact ⟨u, rfl, hs.of_sessions hsessions⟩

/-- The end of both cleanups. -/
theorem ends_stopped (hs : Known session s) (payload : JsonObject) :
    Ends t (fun r s' => ∃ u, r = .ok u ∧ Stopped session s') (do
      removeCache machine session
      finish session .stopped ""
      recordEvent session.id "stopped" payload) s := by
  refine (ends_removeCache hs).bind_ok fun _ s₁ h₁ => (ends_finish h₁).bind_ok fun _ s₂ h₂ => ?_
  refine (ends_recordEvent _ _ _).mono ?_
  rintro r s₃ ⟨u, rfl, h₃⟩
  exact ⟨u, rfl, h₃.stopped h₂.2⟩

theorem ends_destroyWorktree {repo path branch : String} (hs : Known session s)
    (hcan : s.host.can machine.name (.worktreeRemove repo path) = true) :
    Ends t (fun r s' => ∃ u, r = .ok u ∧ Known session s') (destroyWorktree id machine repo path branch) s := by
  refine (ends_carriedOut hcan
    (obliges_of_can hcan fun _ _ _ _ h => RemoteCommand.noConfusion h)).catching_ok.bind_ok fun _ s₁ h₁ => ?_
  have h₁' : Known session s₁ := hs.of_sessions h₁.2
  cases hbranch : s₁.host.can machine.name (.branchDelete repo branch) with
  | true =>
    refine (ends_carriedOut hbranch
      (obliges_of_can hbranch fun _ _ _ _ h => RemoteCommand.noConfusion h)).catching_ok.mono ?_
    rintro r s₂ ⟨u, rfl, -, hsessions⟩
    exact ⟨u, rfl, h₁'.of_sessions hsessions⟩
  | false =>
    refine (ends_shim_refused hbranch fun w => by simp [Host.obliges, hbranch]).catching_error ?_
    rintro e s₂ ⟨⟨message, rfl⟩, h₂⟩
    exact ⟨(), rfl, h₂.known h₁'⟩

theorem ends_destroyWorktree_missing {repo path branch : String}
    (hcan : s.host.can machine.name (.worktreeRemove repo path) = false) :
    Ends t (fun r s' => ∃ e, r = .error e ∧ (∃ message, e = .worktreeError message) ∧ Frame s s')
      (destroyWorktree id machine repo path branch) s := by
  refine Prog.Always.bind_error ((ends_shim_refused hcan fun w => by simp [Host.obliges, hcan]).catching_error ?_)
  rintro e s₁ ⟨⟨message, rfl⟩, h₁⟩
  exact ⟨_, rfl, ⟨_, rfl⟩, h₁⟩

def PaneOpen (machine : Machine) (session : PiSession) (h : Host) : Prop :=
  session.metaText "pane_id" = "" ∨ (machine.name, session.metaText "pane_id") ∈ h.panes

def WorktreeThere (machine : Machine) (session : PiSession) (h : Host) : Prop :=
  (machine.name, session.metaText "worktree") ∈ h.worktrees

def HasMembers (session : PiSession) (keys : List String) : Prop := ∀ key ∈ keys, (session.metaData.get key).isSome

instance (session : PiSession) (keys : List String) : Decidable (HasMembers session keys) :=
  inferInstanceAs (Decidable (∀ key ∈ keys, _))

/-- The members that `destroy_worktree` is called with. -/
def placeKeys : List String := ["repo", "worktree", "branch"]

def Recorded (session : PiSession) : Prop := HasMembers session placeKeys ∧ HasMembers session ["cache_dir"]

instance (session : PiSession) : Decidable (Recorded session) := inferInstanceAs (Decidable (_ ∧ _))

theorem metaItem_of_hasMembers {keys : List String} (h : HasMembers session keys) {key : String}
    (hkey : key ∈ keys) :
    metaItem session key = .ret (session.metaText key) :=
  if_pos (h key hkey)

theorem destroyRecordedWorktree_eq (h : HasMembers session placeKeys) : destroyRecordedWorktree machine session =
    destroyWorktree session.id machine (session.metaText "repo") (session.metaText "worktree")
    (session.metaText "branch") := by
  unfold destroyRecordedWorktree
  rw [metaItem_of_hasMembers h (by decide), metaItem_of_hasMembers h (by decide),
    metaItem_of_hasMembers h (by decide)]
  rfl

/-- A member that is missing stops the teardown before the worktree is touched. -/
theorem destroyRecordedWorktree_missing (h : ¬HasMembers session placeKeys) :
    ∃ key, destroyRecordedWorktree machine session = .raise (.keyError key) := by
  unfold destroyRecordedWorktree
  rcases OrchestratorCalls.metaItem_cases session "repo" with ⟨hrepoSome, hrepo⟩ | hrepo
  · rcases OrchestratorCalls.metaItem_cases session "worktree" with ⟨hworktreeSome, hworktree⟩ | hworktree
    · rcases OrchestratorCalls.metaItem_cases session "branch" with ⟨hbranchSome, hbranch⟩ | hbranch
      · exact absurd (by simp [HasMembers, placeKeys, hrepoSome, hworktreeSome, hbranchSome]) h
      · rw [hrepo, hworktree, hbranch]
        exact ⟨_, rfl⟩
    · rw [hrepo, hworktree]
      exact ⟨_, rfl⟩
  · rw [hrepo]
    exact ⟨_, rfl⟩

theorem removeRecordedCache_eq (h : HasMembers session ["cache_dir"]) :
    removeRecordedCache machine session = removeCache machine session := by
  unfold removeRecordedCache
  rw [metaItem_of_hasMembers h (by decide)]
  rfl

theorem removeRecordedCache_missing (h : ¬HasMembers session ["cache_dir"]) :
    removeRecordedCache machine session = .raise (.keyError "cache_dir") := by
  have hnone : ¬(session.metaData.get "cache_dir").isSome := fun hsome => h (by simpa [HasMembers] using hsome)
  unfold removeRecordedCache metaItem
  rw [if_neg hnone]
  rfl

theorem can_paneClose {paneId : String} {h : Host} :
    h.can machine.name (.paneClose paneId) = true ↔ (machine.name, paneId) ∈ h.panes := by
  simp [Host.can]

theorem can_worktreeRemove {repo path : String} {h : Host} :
    h.can machine.name (.worktreeRemove repo path) = true ↔ (machine.name, path) ∈ h.worktrees := by
  simp [Host.can]

theorem ends_closeForTeardown (hs : Known session s) (hopen : PaneOpen machine session s.host) :
    Ends t (fun r s' => ∃ u, r = .ok u ∧ s'.host.worktrees = s.host.worktrees ∧ Known session s')
      (closeForTeardown machine session) s := by
  unfold closeForTeardown
  split
  · exact ⟨(), rfl, rfl, hs⟩
  · next hpane =>
    have hcan := can_paneClose.mpr (hopen.resolve_left hpane)
    have hclose : Ends t (fun r s' => ∃ u, r = .ok u ∧ s'.host.worktrees = s.host.worktrees ∧ Known session s')
        (exceptRemote (remote session.id machine (.paneClose (session.metaText "pane_id"))) fun e => do
          remoteCleanupError session "pane-close" e
          .raise (.worktreeError "refusing to remove a worktree while its pane may still run")) s := by
      refine ends_exceptRemote ((ends_carriedOut hcan
        (obliges_of_can hcan fun _ _ _ _ h => RemoteCommand.noConfusion h)).mono ?_)
      rintro r s₁ ⟨u, rfl, hhost, hsessions⟩
      exact ⟨u, rfl, by rw [hhost]; rfl, hs.of_sessions hsessions⟩
    refine hclose.bind_ok fun _ s₁ h₁ => (ends_releaseAgent _ h₁.2).mono ?_
    rintro r s₂ ⟨u, rfl, hhost, hs₂⟩
    exact ⟨u, rfl, by rw [hhost, h₁.1], hs₂⟩

/-- A pane that is closed already stops the teardown. -/
theorem ends_closeForTeardown_closed (hclosed : ¬PaneOpen machine session s.host) :
    Ends t (fun r s' => ∃ e, r = .error e ∧ Frame s s') (closeForTeardown machine session) s := by
  obtain ⟨hpane, hnot⟩ := not_or.mp hclosed
  have hcan : s.host.can machine.name (.paneClose (session.metaText "pane_id")) = false :=
    Bool.eq_false_iff.mpr fun h => hnot (can_paneClose.mp h)
  unfold closeForTeardown
  rw [if_neg hpane]
  refine Prog.Always.bind_error (ends_exceptRemote ((ends_paneClose_closed hcan).mono ?_))
  rintro r s₁ ⟨e, rfl, ⟨code, message, rfl⟩, h₁⟩
  refine ⟨rfl, (ends_remoteCleanupError session _ _).bind_ok fun _ s₂ h₂ => ?_⟩
  exact ⟨_, rfl, h₁.trans h₂⟩

/-- Whatever an obliging machine answers, the cleanup returns and the session is over. -/
def Completes (t : ℕ) (session : PiSession) (p : FleetM Unit) (s : RemoteWorld) : Prop :=
  Ends t (fun r s' => ∃ u, r = .ok u ∧ Stopped session s') p s

theorem not_completes_of_error {p : FleetM Unit} {R : FleetError → RemoteWorld → Prop}
    (h : Ends t (fun r s' => ∃ e, r = .error e ∧ R e s') p s) : ¬Completes t session p s := by
  intro hc
  obtain ⟨r, s', ⟨e, rfl, -⟩, ⟨u, hu, -⟩⟩ := h.not_disjoint hc
  cases hu

variable {cfg : FleetConfig} {force : Bool}

/-- The teardown once it has found its machine. -/
theorem ends_teardown_mark {Q : Except FleetError Unit → RemoteWorld → Prop} {f : Unit → FleetM Unit}
    (hf : ∀ s', Frame s s' → Ends t Q (f ()) s') : Ends t Q ((Prog.call (.teardown session force)).bind f) s := by
  refine ⟨⟨.done, _, obliging_handle.mpr ⟨fun _ _ h => FleetAnswer.noConfusion h, rfl⟩⟩,
    fun w s' u hh => ⟨trivial, ?_⟩⟩
  obtain ⟨-, hh⟩ := obliging_handle.mp hh
  cases w with
  | done =>
    cases hh
    exact hf _ ⟨rfl, rfl⟩
  | _ => cases hh

theorem worktreeThere_congr {h h' : Host} (heq : h'.worktrees = h.worktrees) :
    WorktreeThere machine session h' ↔ WorktreeThere machine session h := by
  rw [WorktreeThere, WorktreeThere, heq]

/-- With the pane, the worktree and the recorded members there, the teardown runs to its end. -/
theorem ends_teardownChecked (hs : Known session s) (hmachine : sessionMachine cfg session = .ret machine)
    (hopen : PaneOpen machine session s.host) (hthere : WorktreeThere machine session s.host)
    (hrecorded : Recorded session) :
    Ends t (fun r s' => ∃ u, r = .ok u ∧ Stopped session s') (teardownChecked cfg session force) s := by
  unfold teardownChecked
  rw [hmachine, Prog.bind_eq, Prog.ret_bind, destroyRecordedWorktree_eq hrecorded.1,
    removeRecordedCache_eq hrecorded.2]
  refine (ends_closeForTeardown hs hopen).bind_ok fun _ s₁ h₁ => ?_
  have hcan : s₁.host.can machine.name (.worktreeRemove (session.metaText "repo") (session.metaText "worktree")) =
    true := can_worktreeRemove.mpr ((worktreeThere_congr h₁.1).mpr hthere)
  exact (ends_destroyWorktree h₁.2 hcan).catching_ok.bind_ok fun _ s₂ h₂ => ends_stopped h₂ _

/-- Without one of them it raises. -/
theorem ends_teardownChecked_blocked (hs : Known session s) (hmachine : sessionMachine cfg session = .ret machine)
    (hnot : ¬(PaneOpen machine session s.host ∧ WorktreeThere machine session s.host ∧ Recorded session)) :
    Ends t (fun r _ => ∃ e, r = .error e ∧ True) (teardownChecked cfg session force) s := by
  unfold teardownChecked
  rw [hmachine, Prog.bind_eq, Prog.ret_bind]
  by_cases hopen : PaneOpen machine session s.host
  · refine (ends_closeForTeardown hs hopen).bind_ok fun _ s₁ h₁ => ?_
    by_cases hplace : HasMembers session placeKeys
    · rw [destroyRecordedWorktree_eq hplace]
      by_cases hthere : WorktreeThere machine session s₁.host
      · have hcache : ¬HasMembers session ["cache_dir"] := fun h =>
          hnot ⟨hopen, (worktreeThere_congr h₁.1).mp hthere, hplace, h⟩
        rw [removeRecordedCache_missing hcache]
        refine (ends_destroyWorktree h₁.2 (can_worktreeRemove.mpr hthere)).catching_ok.bind_ok fun _ s₂ _ => ?_
        exact ⟨_, rfl, trivial⟩
      · have hrefuses : s₁.host.can machine.name
            (.worktreeRemove (session.metaText "repo") (session.metaText "worktree")) = false :=
          Bool.eq_false_iff.mpr (mt can_worktreeRemove.mp hthere)
        refine Prog.Always.bind_error ((ends_destroyWorktree_missing hrefuses).catching_error ?_)
        rintro e s₂ ⟨⟨message, rfl⟩, h₂⟩
        refine (ends_markFailed (h₂.known h₁.2)).bind_ok fun _ s₃ _ => ?_
        exact ⟨_, rfl, trivial⟩
    · obtain ⟨key, hraise⟩ : ∃ key, destroyRecordedWorktree machine session = .raise (.keyError key) :=
        destroyRecordedWorktree_missing hplace
      rw [hraise]
      exact ⟨_, rfl, trivial⟩
  · refine Prog.Always.bind_error ((ends_closeForTeardown_closed hopen).mono ?_)
    rintro r s₁ ⟨e, rfl, -⟩
    exact ⟨e, rfl, trivial⟩

theorem completes_teardownTask (hs : Known session s) (hmachine : sessionMachine cfg session = .ret machine)
    (hrole : session.role = "task") (hpr : session.metaText "pr_url" ≠ "" ∨ force = true) :
    Completes t session (teardownTask cfg session force) s ↔
      PaneOpen machine session s.host ∧ WorktreeThere machine session s.host ∧ Recorded session := by
  have hrefused : ¬(session.metaText "pr_url" = "" ∧ force = false) := by
    rcases hpr with hpr | hforce
    · exact fun h => hpr h.1
    · simp [hforce]
  constructor
  · intro hc
    by_contra hnot
    refine not_completes_of_error (R := fun _ _ => True) (ends_teardown_mark fun s₁ h₁ => ?_) hc
    rw [if_neg (not_not.mpr hrole), if_neg hrefused]
    exact ends_teardownChecked_blocked (h₁.known hs) hmachine (h₁.host ▸ hnot)
  · rintro ⟨hopen, hthere, hrecorded⟩
    refine ends_teardown_mark fun s₁ h₁ => ?_
    rw [if_neg (not_not.mpr hrole), if_neg hrefused]
    exact ends_teardownChecked (h₁.known hs) hmachine (h₁.host ▸ hopen) (h₁.host ▸ hthere) hrecorded

theorem completes_stopSession (hs : Known session s) (hmachine : sessionMachine cfg session = .ret machine) :
    Completes t session (stopSession cfg session) s ↔ PaneOpen machine session s.host := by
  unfold stopSession
  rw [hmachine]
  constructor
  · intro hc
    by_contra hclosed
    obtain ⟨hpane, hnot⟩ := not_or.mp hclosed
    refine not_completes_of_error (R := fun _ _ => True) ?_ hc
    rw [Prog.bind_eq, Prog.ret_bind]
    dsimp only
    rw [if_pos hpane]
    refine (ends_releaseAgent _ hs).bind_ok fun _ s₁ h₁ => Prog.Always.bind_error (ends_exceptRemote ?_)
    have hcan : s₁.host.can machine.name (.paneClose (session.metaText "pane_id")) = false :=
      Bool.eq_false_iff.mpr fun h => hnot (h₁.1 ▸ can_paneClose.mp h)
    refine (ends_paneClose_closed hcan).mono ?_
    rintro r s₂ ⟨e, rfl, ⟨code, message, rfl⟩, -⟩
    refine ⟨rfl, (ends_remoteCleanupError session _ _).bind_ok fun _ s₃ _ => ?_⟩
    exact ⟨_, rfl, trivial⟩
  · intro hopen
    rw [Prog.bind_eq, Prog.ret_bind]
    dsimp only
    split
    · next hpane =>
      refine (ends_releaseAgent _ hs).bind_ok fun _ s₁ h₁ => ?_
      have hcan := can_paneClose.mpr (h₁.1 ▸ hopen.resolve_left hpane)
      refine Prog.Always.bind_ok (R := fun _ s' => Known session s') (ends_exceptRemote ((ends_carriedOut hcan
        (obliges_of_can hcan fun _ _ _ _ h => RemoteCommand.noConfusion h)).mono ?_))
          fun _ s₂ h₂ => ends_stopped h₂ _
      rintro r s₂ ⟨u, rfl, -, hsessions⟩
      exact ⟨u, rfl, h₁.2.of_sessions hsessions⟩
    · exact ends_stopped hs _

/-- A later teardown or stop of a task completes exactly when the pane of the task, if it has one, is still open,
and for the teardown its worktree is still there and the row has the members that a launch records. -/
theorem cleanups_complete (hs : Known session s) (hmachine : sessionMachine cfg session = .ret machine)
    (hrole : session.role = "task") (hpr : session.metaText "pr_url" ≠ "" ∨ force = true) :
    (Completes t session (teardownTask cfg session force) s ↔
        PaneOpen machine session s.host ∧ WorktreeThere machine session s.host ∧ Recorded session) ∧
      (Completes t session (stopSession cfg session) s ↔ PaneOpen machine session s.host) :=
  ⟨completes_teardownTask hs hmachine hrole hpr, completes_stopSession hs hmachine⟩

def runningTask : PiSession where
  id := "task"
  role := "task"
  metaData := [("machine", .str "desktop"), ("repo", .str "/src/p"), ("worktree", .str "/wt/p/fix"),
    ("branch", .str "fix"), ("pane_id", .str "pane"), ("cache_dir", .str "/home/u/.cache/worker-harness/task")]

/-- The task is at work on its machine. -/
def runningTaskWorld : RemoteWorld where
  fleet := { db := { sessions := [runningTask] } }
  host := { panes := [("desktop", "pane")], worktrees := [("desktop", "/wt/p/fix")] }

theorem cleanups_complete_runningTask :
    Completes 0 runningTask (teardownTask soloFleet runningTask true) runningTaskWorld ∧
      Completes 0 runningTask (stopSession soloFleet runningTask) runningTaskWorld := by
  have hknown : Known runningTask runningTaskWorld := ⟨runningTask, List.mem_singleton_self _, rfl⟩
  have hmachine : sessionMachine soloFleet runningTask = .ret ⟨"desktop", "/home/u"⟩ := by
    have hname : runningTask.metaText "machine" = "desktop" := by decide +kernel
    simp [sessionMachine, hname, soloFleet]
  have hopen : PaneOpen ⟨"desktop", "/home/u"⟩ runningTask runningTaskWorld.host := .inr (by decide)
  have hthere : WorktreeThere ⟨"desktop", "/home/u"⟩ runningTask runningTaskWorld.host := by
    show _ ∈ _
    decide
  obtain ⟨hteardown, hstop⟩ := cleanups_complete (t := 0) hknown hmachine rfl (.inr rfl)
  exact ⟨hteardown.mpr ⟨hopen, hthere, by decide +kernel⟩, hstop.mpr hopen⟩

inductive Undertaken (cfg : FleetConfig) (d : Tables) : FleetM Unit → Prop where
  | launch (launching : Launch) : Undertaken cfg d ((launch cfg launching).bind fun _ => .ret ())
  | teardown {session : PiSession} (force : Bool) : session ∈ d.sessions →
    Undertaken cfg d (teardownTask cfg session force)
  | stop {session : PiSession} : session ∈ d.sessions → Undertaken cfg d (stopSession cfg session)

inductive History (cfg : FleetConfig) : RemoteWorld → Prop where
  | init : History cfg {}
  | step {s s' : RemoteWorld} {p : FleetM Unit} {t : ℕ} {r : Except FleetError Unit} : History cfg s →
      Undertaken cfg s.fleet.db p → Prog.Runs hostInterp t (fun _ => True) p s r s' → History cfg s'

def fixLaunch : Launch where
  role := .task
  machine := { name := "desktop", home := "/home/u" }
  cwd := "/src/p"
  projectName := "p"
  repo := "/src/p"
  remote := "origin"
  branch := "fix"
  briefing := "repair it"

/-- The launch of a task starts its agent, whose bridge does not register in time; the pane is closed. -/
def timedOut : List FleetAnswer :=
  [.text "task", .text "token", .done, .workspace ⟨"workspace", "pane"⟩, .number 1, .done, .text "prompt",
    .done, .done,
    .done, .done, .number 1, .text "command", .done, .text "event1", .number 1, .done, .done, .done, .done, .done,
    .number 1, .done, .done, .text "no output", .number 61, .done, .done, .done, .text "event2", .number 61, .done]

theorem cleanup_blocked : ¬∀ (cfg : FleetConfig) (s : RemoteWorld) (session : PiSession) (machine : Machine)
    (force : Bool)
    (t : ℕ), History cfg s → session ∈ s.fleet.db.sessions → session.role = "task" →
      sessionMachine cfg session = .ret machine → session.metaText "pr_url" ≠ "" ∨ force = true →
        Completes t session (teardownTask cfg session force) s ∧
        Completes t session (stopSession cfg session) s := by
  intro hall
  have hrun : (((launch soloFleet fixLaunch).bind fun _ => (.ret () : FleetM Unit)).replay hostInterp 0
    {} timedOut).map
      (fun r => (r.2.host.panes, r.2.fleet.db.sessions.map fun session =>
        (session.role, session.metaText "machine", session.metaText "pane_id"))) =
          some ([], [("task", "desktop", "pane")]) := by decide +kernel
  obtain ⟨⟨r, s⟩, hreplay, hobs⟩ := Option.map_eq_some_iff.mp hrun
  simp only [Prod.mk.injEq, List.map_eq_singleton_iff] at hobs
  obtain ⟨hpanes, session, hsessions, hrole, hname, hpane⟩ := hobs
  have hhistory : History soloFleet s :=
    .step .init (.launch fixLaunch) (Prog.runs_of_replay (fun _ _ => trivial) hreplay)
  have hmem : session ∈ s.fleet.db.sessions := hsessions ▸ List.mem_singleton_self session
  have hmachine : sessionMachine soloFleet session = .ret ⟨"desktop", "/home/u"⟩ := by
    simp [sessionMachine, hname, soloFleet]
  have hcompletes := (hall soloFleet s session _ true 1 hhistory hmem hrole hmachine (.inr rfl)).1
  obtain ⟨hopen, -⟩ := (completes_teardownTask ⟨session, hmem, rfl⟩ hmachine hrole (.inr rfl)).mp hcompletes
  rcases hopen with hempty | hopen
  · rw [hpane] at hempty
    exact absurd hempty (by decide)
  · rw [hpanes] at hopen
    cases hopen

end WorkerHarness.CleanupRetries
