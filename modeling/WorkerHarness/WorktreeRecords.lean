import WorkerHarness.OrchestratorWalks

/-!
# Where a worktree is recorded

The row of a task says on which machine and where its worktree is. No statement takes that away, and apart from
the creation of a worktree no call of the orchestrator leaves one without a durable row.
-/

namespace WorkerHarness.WorktreeRecords

open Coroutines SharedTransactions Database SessionStatements ManagerRows ManagerLocks Orchestrator WorktreeRemovals
open OrchestratorWalks

def place : List String := ["machine", "repo", "worktree", "branch"]

/-- Rows stay, with what they say about their worktree. -/
def Carries (d d' : Tables) : Prop :=
  ∀ row ∈ d.sessions, ∃ row' ∈ d'.sessions, row'.id = row.id ∧
    ∀ key ∈ place, row'.metaData.get key = row.metaData.get key

structure Records (id machine repo path branch : String) (row : PiSession) : Prop where
  id : row.id = id
  machine : row.metaText "machine" = machine
  repo : row.metaText "repo" = repo
  worktree : row.metaText "worktree" = path
  branch : row.metaText "branch" = branch

def Recorded (id machine repo path branch : String) (d : Tables) : Prop :=
  ∃ row ∈ d.sessions, Records id machine repo path branch row

variable {d d' d'' : Tables} {op : SessionOp} {id machine repo path branch : String}

theorem Carries.refl (d : Tables) : Carries d d := fun row hrow => ⟨row, hrow, rfl, fun _ _ => rfl⟩

theorem Carries.trans (h : Carries d d') (h' : Carries d' d'') : Carries d d'' := by
  intro row hrow
  obtain ⟨row', hrow', hid, hplace⟩ := h row hrow
  obtain ⟨row'', hrow'', hid', hplace'⟩ := h' row' hrow'
  exact ⟨row'', hrow'', hid'.trans hid, fun key hkey => (hplace' key hkey).trans (hplace key hkey)⟩

theorem Carries.of_subset (h : ∀ row ∈ d.sessions, row ∈ d'.sessions) : Carries d d' :=
  fun row hrow => ⟨row, h row hrow, rfl, fun _ _ => rfl⟩

theorem Carries.update {p : Tables → PiSession → Bool} {f : PiSession → PiSession}
    (hid : ∀ row, (f row).id = row.id)
    (hplace : ∀ row, ∀ key ∈ place, (f row).metaData.get key = row.metaData.get key) :
    Carries d ((update sessionsTable p f).apply d) := by
  intro row hrow
  have hmem : (if p d row then f row else row) ∈ ((Database.update sessionsTable p f).apply d).sessions :=
    List.mem_map_of_mem hrow
  refine ⟨_, hmem, ?_⟩
  split
  · exact ⟨hid row, hplace row⟩
  · exact ⟨rfl, fun _ _ => rfl⟩

theorem Recorded.carries (h : Recorded id machine repo path branch d) (hd : Carries d d') :
    Recorded id machine repo path branch d' := by
  obtain ⟨row, hrow, hrecords⟩ := h
  obtain ⟨row', hrow', hid, hplace⟩ := hd row hrow
  have htext : ∀ key ∈ place, row'.metaText key = row.metaText key := by
    intro key hkey
    unfold PiSession.metaText JsonObject.getStr
    rw [hplace key hkey]
  refine ⟨row', hrow', hid.trans hrecords.id, ?_, ?_, ?_, ?_⟩
  · exact (htext "machine" (by decide)).trans hrecords.machine
  · exact (htext "repo" (by decide)).trans hrecords.repo
  · exact (htext "worktree" (by decide)).trans hrecords.worktree
  · exact (htext "branch" (by decide)).trans hrecords.branch

def Placid (op : SessionOp) : Prop := ∀ sessionId members, op = .patch sessionId members →
    ∀ m ∈ members, m.1 ∉ place

theorem placid_of_requested (h : Requested op) : Placid op := by
  rintro sessionId members rfl m hm
  have hkey : m.1 = "pr_url" := h m hm
  rw [hkey]
  decide

theorem carries_of_executes {st : Statement Tables} (hop : Placid op) (hst : Executes op st) (d : Tables) :
    Carries d (st.apply d) := by
  have hrow : ∀ {p : Tables → PiSession → Bool} {f : PiSession → PiSession}, (∀ row, (f row).id = row.id) →
      (∀ row, (f row).metaData = row.metaData) → Carries d ((update sessionsTable p f).apply d) :=
    fun hid hmeta => .update hid fun row key _ => by rw [hmeta row]
  have hevent : ∀ event : PiSessionEvent, Carries d ((insertEvent event).apply d) := by
    intro event
    obtain ⟨events, hevents⟩ := insertEvent_apply event d
    rw [hevents]
    exact .refl d
  cases hst with
  | inserted session =>
    change Carries d (if _ then d else { d with sessions := d.sessions ++ [session] })
    split
    · exact .refl d
    · exact .of_subset fun row hmem => List.mem_append_left _ hmem
  | upserted payload now uuid createdAt =>
    change Carries d { d with sessions := upsertedSessions payload now createdAt d.sessions }
    unfold upsertedSessions
    split
    · exact hrow (p := fun _ s => s.id = payload.sessionId) (fun _ => rfl) fun _ => rfl
    · exact .of_subset fun row hmem => List.mem_append_left _ hmem
  | resumed =>
    exact .update (fun _ => rfl) fun row key hkey => get_set_of_ne fun heq => by simp [place, heq] at hkey
  | released => exact .refl d
  | snapshot => exact hevent _
  | batched => exact hevent _
  | reported => exact hrow (fun _ => rfl) fun _ => rfl
  | blocked => exact hrow (fun _ => rfl) fun _ => rfl
  | asked => exact hevent _
  | enqueued command now =>
    change Carries d (if _ then d else { d with commands := d.commands ++ [command] })
    split <;> exact .refl d
  | notified => exact hrow (fun _ => rfl) fun _ => rfl
  | leased => exact .refl d
  | delivered => exact .refl d
  | answered => exact hrow (fun _ => rfl) fun _ => rfl
  | stopped => exact hrow (fun _ => rfl) fun _ => rfl
  | stale => exact hevent _
  | finished => exact hrow (fun _ => rfl) fun _ => rfl
  | reparented => exact hrow (fun _ => rfl) fun _ => rfl
  | patched sessionId members =>
    refine .update (fun _ => rfl) fun row key hkey => get_foldl_set fun m hm heq => ?_
    exact hop sessionId members rfl m hm (heq ▸ hkey)
  | nextPane =>
    exact .update (fun _ => rfl) fun row key hkey => get_set_of_ne fun heq => by simp [place, heq] at hkey
  | event => exact hevent _

theorem writes_of_placid {s s' : FleetWorld} (hop : Placid op) (h : s' = s.run op ∨ ∃ n, s' = s.interrupt op n) :
    Writes Carries s s' := by
  rcases h with rfl | ⟨n, rfl⟩
  · exact writes_run .refl (fun _ _ _ => .trans) (fun _ hst => carries_of_executes hop hst) s
  · exact writes_interrupt .refl (fun _ _ _ => .trans) (fun _ hst => carries_of_executes hop hst) s n

/-- The coroutine created a worktree for the session, and the creation was acknowledged. -/
def Created (log : List FleetEntry) (t : ℕ) (id machine repo path branch : String) : Prop :=
  ∃ base, FleetEntry.remote t id machine (.worktreeAdd repo branch base path) true ∈ log

/-- Every worktree that the coroutine created is in a durable row. -/
def Tracked (t : ℕ) (s : FleetWorld) : Prop :=
  ∀ id machine repo path branch, Created s.log t id machine repo path branch →
    Recorded id machine repo path branch s.durable

/-- Workspaces fail with remote errors only, the insertion of a row that names a worktree is carried out, and
requests patch nothing but pull requests. -/
def Heedful : (β : Type) → FleetCall β → FleetAnswer → FleetWorld → Prop
  | _, .workspaceCreate _ _ _, .fails e _, _ => e.remote = true
  | _, .write (.insert row), w, s =>
    row.metaText "worktree" ≠ "" → w = .done ∧ (alone (SessionOp.prog (.insert row)) s.durable s.db).1 = .ok ()
  | _, .request op, _, _ => Requested op
  | _, _, _, _ => True

noncomputable def heedfulInterp : Interp FleetCall FleetWorld FleetAnswer := fleetInterp.restrict Heedful

/-- The threads for which `p` holds create worktrees, and what is recorded stays recorded. -/
structure Moves (p : ℕ → Prop) (s s' : FleetWorld) : Prop where
  log : s.log <+: s'.log
  entries : ∀ e ∈ s'.log, e ∈ s.log ∨ p (thread e)
  durable : Carries s.durable s'.durable

def recording : Contract FleetCall FleetLock FleetWorld where
  inv s := Carries s.durable s.db
  fresh t s := ∀ e ∈ s.log, thread e ≠ t
  rely t _ := Moves (· ≠ t)
  guar t _ := Moves (· = t)
  assume _ _ _ := True
  pre _ _ _ _ := True

variable {p q : ℕ → Prop} {t : ℕ} {h : List FleetLock} {s s' s'' : FleetWorld} {α β : Type}

theorem Moves.refl (p : ℕ → Prop) (s : FleetWorld) : Moves p s s := ⟨List.prefix_refl _, fun _ => .inl, .refl _⟩

theorem Moves.trans (h : Moves p s s') (h' : Moves p s' s'') : Moves p s s'' where
  log := h.log.trans h'.log
  entries e he := (h'.entries e he).elim (h.entries e) .inr
  durable := h.durable.trans h'.durable

theorem Moves.mono (hpq : ∀ t, p t → q t) (h : Moves p s s') : Moves q s s' :=
  ⟨h.log, fun e he => (h.entries e he).imp_right (hpq _), h.durable⟩

theorem recording_coherent : recording.Coherent where
  rely_refl _ _ := .refl _
  rely_trans := .trans
  guar_rely hne _ _ _ hm := hm.mono fun x (hx : x = _) => hx ▸ hne
  guar_fresh hne _ hm hfresh e he := (hm.entries e he).elim (hfresh e) fun (hx : thread e = _) => hx ▸ hne
  guar_res _ _ _ _ _ := trivial

/-- The worktrees of the coroutine, other than the one given, are in durable rows. -/
def Pending (t : ℕ) (id machine repo path branch : String) (s : FleetWorld) : Prop :=
  ∀ id' machine' repo' path' branch', Created s.log t id' machine' repo' path' branch' →
    Recorded id' machine' repo' path' branch' s.durable ∨
      id' = id ∧ machine' = machine ∧ repo' = repo ∧ path' = path ∧ branch' = branch

theorem Tracked.pending (hs : Tracked t s) : Pending t id machine repo path branch s :=
  fun _ _ _ _ _ hc => .inl (hs _ _ _ _ _ hc)

theorem Pending.tracked (hs : Pending t id machine repo path branch s)
    (hr : Recorded id machine repo path branch s.durable) :
    Tracked t s := by
  intro id' machine' repo' path' branch' hc
  rcases hs id' machine' repo' path' branch' hc with hrecorded | ⟨rfl, rfl, rfl, rfl, rfl⟩
  · exact hrecorded
  · exact hr

/-- What a step may do that creates no worktree in this coroutine. -/
structure Idle (t : ℕ) (s s' : FleetWorld) : Prop where
  created : ∀ id machine repo path branch, Created s'.log t id machine repo path branch →
    Created s.log t id machine repo path branch
  durable : Carries s.durable s'.durable

theorem idle_of_rely (hm : Moves (· ≠ t) s s') : Idle t s s' where
  created _ _ _ _ _ := fun ⟨base, he⟩ => ⟨base, (hm.entries _ he).resolve_right fun hne => hne rfl⟩
  durable := hm.durable

theorem Tracked.idle (hs : Tracked t s) (hi : Idle t s s') : Tracked t s' :=
  fun _ _ _ _ _ hc => (hs _ _ _ _ _ (hi.created _ _ _ _ _ hc)).carries hi.durable

theorem Pending.idle (hs : Pending t id machine repo path branch s) (hi : Idle t s s') :
    Pending t id machine repo path branch s' :=
  fun _ _ _ _ _ hc => (hs _ _ _ _ _ (hi.created _ _ _ _ _ hc)).imp_left fun hr => hr.carries hi.durable

theorem steady_tracked (t : ℕ) : Steady recording t (Tracked t) where
  coherent := recording_coherent
  stable _ _ _ hs hr _ := hs.idle (idle_of_rely hr)
  unprotected _ _ := trivial
  rely_tail _ _ _ _ hr := hr

def Quiet : (β : Type) → FleetCall β → Prop
  | _, .remote _ _ (.worktreeAdd _ _ _ _) => False
  | _, .write op => Placid op
  | _, _ => True

structure QuietStep (t : ℕ) (s s' : FleetWorld) : Prop where
  moves : Moves (· = t) s s'
  inv : Carries s'.durable s'.db
  idle : Idle t s s'

theorem quietStep_of_log {es : List FleetEntry} (hi : Carries s.durable s.db) (hlog : s'.log = s.log ++ es)
    (hes : ∀ e ∈ es, thread e = t ∧ ∀ id machine repo branch base path,
      e ≠ .remote t id machine (.worktreeAdd repo branch base path) true)
    (hdb : s'.db = s.db) (hdurable : s'.durable = s.durable) : QuietStep t s s' := by
  refine ⟨⟨⟨es, hlog.symm⟩, fun e he => ?_, hdurable ▸ .refl _⟩, hdb ▸ hdurable ▸ hi, ⟨?_, hdurable ▸ .refl _⟩⟩
  · rw [hlog] at he
    exact (List.mem_append.mp he).imp_right fun he => (hes e he).1
  · rintro id machine repo path branch ⟨base, he⟩
    rw [hlog] at he
    exact ⟨base, (List.mem_append.mp he).resolve_right fun he => (hes _ he).2 _ _ _ _ _ _ rfl⟩

theorem quietStep_of_writes (hi : Carries s.durable s.db) (hw : Writes Carries s s') : QuietStep t s s' := by
  have hdurable : Carries s.durable s'.durable := by
    rcases hw.durable with heq | ⟨hd, -⟩
    · exact heq ▸ .refl _
    · exact hi.trans hd
  refine ⟨⟨hw.log ▸ List.prefix_refl _, fun e he => .inl (hw.log ▸ he), hdurable⟩, ?_, ⟨?_, hdurable⟩⟩
  · rcases hw.durable with heq | ⟨-, hd⟩
    · exact heq ▸ hi.trans hw.db
    · exact hd
  · rintro id machine repo path branch ⟨base, he⟩
    exact ⟨base, hw.log ▸ he⟩

theorem quietStep_of_handle {e : FleetCall β} {w : FleetAnswer} {b : β} (he : Quiet β e) (hp : Heedful β e w s)
    (hi : Carries s.durable s.db) (hh : fleetHandle e t w s = some (s', b)) : QuietStep t s s' := by
  rcases tables_of_handle hh with ⟨op, hop, hs⟩ | ⟨-, hdb, hdurable⟩
  · have hplacid : Placid op := by
      cases e with
      | write op' => exact Option.some.inj hop ▸ he
      | nextPaneSequence sessionId => exact Option.some.inj hop ▸ fun _ _ heq => SessionOp.noConfusion heq
      | request op' => exact Option.some.inj hop ▸ placid_of_requested hp
      | _ => cases hop
    exact quietStep_of_writes hi (writes_of_placid hplacid hs)
  · obtain ⟨es, hlog, hes⟩ := log_of_handle hh
    refine quietStep_of_log hi hlog (fun x hx => ⟨(hes x hx).1, fun id machine repo branch base path heq => ?_⟩)
      hdb hdurable
    have hcommand := (hes x hx).2 _ _ _ _ _ heq
    cases e with
    | remote id' machine' command =>
      cases hcommand
      exact he
    | _ => cases hcommand

/-- What the coroutine knows of its own worktrees survives quiet calls. -/
theorem quiet_call {J : FleetWorld → Prop} {e : FleetCall β} (he : Quiet β e)
    (hJ : ∀ s s', J s → Idle t s s' → J s')
    (hi : recording.inv s) (hs : J s) : recording.pre e t h s ∧
    ∀ w s' b, heedfulInterp.handle e t w s = some (s', b) →
      recording.guar t h s s' ∧ recording.inv s' ∧ J s' := by
  refine ⟨trivial, fun w s' b hh => ?_⟩
  obtain ⟨hp, hh⟩ := Interp.restrict_handle hh
  have hstep := quietStep_of_handle he hp hi hh
  exact ⟨hstep.moves, hstep.inv, hJ s s' hs hstep.idle⟩

/-- The worktrees of the coroutine are in durable rows at its end, if they were at its start. -/
abbrev Tracks (t : ℕ) (p : FleetM α) : Prop := Upholds heedfulInterp recording t (Tracked t) p

theorem tracks_call {e : FleetCall α} (he : Quiet α e) : Tracks t (Prog.call e) :=
  (steady_tracked t).call fun _ _ hi hs _ => quiet_call he (fun _ _ hs hidle => hs.idle hidle) hi hs

theorem quiet_of_routine {e : FleetCall α} (he : Routine α e) : Quiet α e := by
  cases e with
  | remote id machine command => cases command <;> trivial
  | write op => exact fun id members heq => absurd heq (he id members)
  | _ => trivial

theorem walk_tracked (t : ℕ) : Walk heedfulInterp recording t (Tracked t) where
  steady := steady_tracked t
  routine _ he := tracks_call (quiet_of_routine he)
  sequenced session machine command k hcommand hk := by
    have hsequence : Tracks t (nextSequence session) :=
      (steady_tracked t).bind (tracks_call trivial) (steady_tracked t).ofExcept
    refine (steady_tracked t).bind hsequence fun n => (steady_tracked t).bind (tracks_call ?_) hk
    have hn := hcommand n
    cases hc : command n with
    | worktreeAdd repo branch base path =>
      rw [hc] at hn
      cases hn
    | _ => trivial
  unreported session p hp := by
    have hsequence : Tracks t (nextSequence session) :=
      (steady_tracked t).bind (tracks_call trivial) (steady_tracked t).ofExcept
    exact (steady_tracked t).bind hsequence fun _ => hp

end WorkerHarness.WorktreeRecords
