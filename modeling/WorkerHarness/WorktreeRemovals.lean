import WorkerHarness.LiveManagers

/-!
# When a worktree is removed

From the moment an agent may have run in it, the worktree of a task goes only by a teardown that has
closed the pane of the task first and was forced or found a pull request. The log tells what was
attempted: a launch knows that no other coroutine starts an agent for the session whose id it drew,
and a teardown finds its own entries after its mark.
-/

namespace WorkerHarness.WorktreeRemovals

open Coroutines Database LiveSessions LiveManagers Orchestrator OrchestratorCalls

attribute [local irreducible] FleetRoutes.enqueuePrompt

/-- The coroutine that made the entry. -/
def thread : FleetEntry → ℕ
  | .remote t _ _ _ _ => t
  | .teardown t _ _ => t
  | .ensured t _ _ => t

/-- `pane_run` was attempted for the session. -/
def Attempted (log : List FleetEntry) (id : String) : Prop :=
  ∃ t machine paneId command ack, FleetEntry.remote t id machine (.paneRun paneId command) ack ∈ log

/-- In its teardown of the session the coroutine closed the recorded pane, if there is one; the
session has a pull request, or the teardown is forced. -/
def TearingDown (log : List FleetEntry) (t : ℕ) (id : String) : Prop :=
  ∃ session force before after, log = before ++ .teardown t session force :: after ∧ session.id = id ∧
    (session.metaText "pr_url" ≠ "" ∨ force = true) ∧ (session.metaText "pane_id" ≠ "" →
      ∃ machine, FleetEntry.remote t id machine (.paneClose (session.metaText "pane_id")) true ∈ after)

def Justified (log : List FleetEntry) (t : ℕ) (id : String) : Prop := ¬Attempted log id ∨ TearingDown log t id

variable {log log' : List FleetEntry} {t : ℕ} {h : List FleetLock} {l : FleetLock} {id sid : String}
    {run remove : Prop}
  {s s' s'' : FleetWorld} {J : FleetWorld → Prop} {α β : Type}

theorem TearingDown.mono (hl : log <+: log') (ht : TearingDown log t id) : TearingDown log' t id := by
  obtain ⟨session, force, before, after, rfl, hid, hpr, hpane⟩ := ht
  obtain ⟨more, rfl⟩ := hl
  refine ⟨session, force, before, after ++ more, by simp, hid, hpr, fun hp => ?_⟩
  obtain ⟨machine, hclose⟩ := hpane hp
  exact ⟨machine, List.mem_append_left _ hclose⟩

/-- Ids are drawn once, and agents are started only for sessions whose id the coroutine drew. -/
structure Inv (s : FleetWorld) : Prop where
  owner : ∀ i t t', (i, t) ∈ s.ids → (i, t') ∈ s.ids → t = t'
  runs : ∀ t i machine paneId command ack, FleetEntry.remote t i machine (.paneRun paneId command) ack ∈ s.log →
    (i, t) ∈ s.ids

/-- Only threads for which `p` holds do anything. -/
structure By (p : ℕ → Prop) (s s' : FleetWorld) : Prop where
  log : s.log <+: s'.log
  entries : ∀ e ∈ s'.log, e ∈ s.log ∨ p (thread e)
  ids : ∀ i ∈ s.ids, i ∈ s'.ids

theorem By.refl (p : ℕ → Prop) (s : FleetWorld) : By p s s :=
  ⟨List.prefix_refl _, fun _ he => .inl he, fun _ hi => hi⟩

theorem By.trans {p : ℕ → Prop} (hb : By p s s') (hb' : By p s' s'') : By p s s'' where
  log := hb.log.trans hb'.log
  entries e he := (hb'.entries e he).elim (hb.entries e) .inr
  ids i hi := hb'.ids i (hb.ids i hi)

theorem By.mono {p q : ℕ → Prop} (hpq : ∀ t, p t → q t) (hb : By p s s') : By q s s' :=
  ⟨hb.log, fun e he => (hb.entries e he).imp_right (hpq _), hb.ids⟩

def contract : Contract FleetCall FleetLock FleetWorld where
  inv := Inv
  fresh _ _ := True
  rely t _ := By (· ≠ t)
  guar t _ := By (· = t)
  assume _ _ _ := True
  pre e t _ s := match e with
    | .remote id _ (.worktreeRemove _ _) => Justified s.log t id
    | _ => True

theorem contract_coherent : contract.Coherent where
  rely_refl _ _ s := .refl _ s
  rely_trans hb hb' := hb.trans hb'
  guar_rely hne _ _ _ hb := hb.mono fun x (ht : x = _) => ht ▸ hne
  guar_fresh _ _ _ _ := trivial
  guar_res _ _ _ _ _ := trivial

def Acts (id : String) (run remove : Prop) : (β : Type) → FleetCall β → Prop
  | _, .remote sessionId _ (.paneRun _ _) => sessionId = id ∧ run
  | _, .remote sessionId _ (.worktreeRemove _ _) => sessionId = id ∧ remove
  | _, _ => True

theorem acts {R : α → Prop} {p : FleetM α} (hp : Does (For id run remove) R p) : Does (Acts id run remove) R p := by
  refine hp.mono (fun β e he => ?_) fun _ hr => hr
  cases e with
  | remote sessionId machine command => cases command <;> first | exact he | trivial
  | _ => trivial

/-- One step: perhaps a new id, perhaps an entry of the thread that starts no agent but for the session. -/
structure OneStep (t : ℕ) (id : String) (run : Prop) (s s' : FleetWorld) : Prop where
  own : By (· = t) s s'
  starts : ∀ e ∈ s'.log, e ∈ s.log ∨ ∀ t' i machine paneId command ack,
    e = .remote t' i machine (.paneRun paneId command) ack → run ∧ i = id
  drawn : ∀ i ∈ s'.ids, i ∈ s.ids ∨ i.2 = t ∧ ∀ j ∈ s.ids, j.1 ≠ i.1

theorem oneStep_append (es : List FleetEntry) (hs : s'.log = s.log ++ es) (hids : s'.ids = s.ids)
    (hes : ∀ e ∈ es, thread e = t ∧ ∀ t' i machine paneId command ack,
      e = .remote t' i machine (.paneRun paneId command) ack → run ∧ i = id) : OneStep t id run s s' := by
  refine ⟨⟨⟨es, hs.symm⟩, fun e he => ?_, fun i hi => hids ▸ hi⟩, fun e he => ?_, fun i hi => .inl (hids ▸ hi)⟩
  · rw [hs] at he
    exact (List.mem_append.mp he).imp_right fun he => (hes e he).1
  · rw [hs] at he
    exact (List.mem_append.mp he).imp_right fun he => (hes e he).2

theorem OneStep.inv (hst : OneStep t id run s s') (hrun : run → (id, t) ∈ s.ids) (hi : Inv s) : Inv s' where
  owner i a b ha hb := by
    rcases hst.drawn _ ha with ha | ⟨ha, hnew⟩
    · rcases hst.drawn _ hb with hb | ⟨-, hnew⟩
      · exact hi.owner i a b ha hb
      · exact absurd rfl (hnew (i, a) ha)
    · rcases hst.drawn _ hb with hb | ⟨hb, -⟩
      · exact absurd rfl (hnew (i, b) hb)
      · exact ha.trans hb.symm
  runs t' i machine paneId command ack he := by
    rcases hst.starts _ he with hold | hnew
    · exact hst.own.ids _ (hi.runs t' i machine paneId command ack hold)
    · obtain ⟨hr, rfl⟩ := hnew t' i machine paneId command ack rfl
      rcases hst.own.entries _ he with hold | hthread
      · exact hst.own.ids _ (hi.runs t' i machine paneId command ack hold)
      · have ht : t' = t := hthread
        exact hst.own.ids _ (ht ▸ hrun hr)

theorem oneStep_of_acts {β : Type} {e : FleetCall β} (he : Acts id run remove β e) {w : FleetAnswer} {b : β}
    (hh : fleetHandle e t w s = some (s', b)) : OneStep t id run s s' := by
  have hsame : ∀ {s'' : FleetWorld}, s''.log = s.log → s''.ids = s.ids → OneStep t id run s s'' :=
    fun hlog hids => oneStep_append [] (by simpa using hlog) hids fun _ hmem => (nomatch hmem)
  have hremote : ∀ (i machine : String) (command : RemoteCommand) (ack : Bool),
      (∀ paneId c, command = .paneRun paneId c → run ∧ i = id) →
        OneStep t id run s (s.record (.remote t i machine command ack)) := by
    intro i machine command ack hcommand
    refine oneStep_append [_] rfl rfl fun e hmem => ?_
    rw [List.mem_singleton.mp hmem]
    refine ⟨rfl, ?_⟩
    intro t' i' machine' paneId c ack' heq
    cases heq
    exact hcommand paneId c rfl
  cases e with
  | remote i machine command =>
    have hcommand : ∀ paneId c, command = .paneRun paneId c → run ∧ i = id := by
      rintro paneId c rfl
      exact ⟨he.2, he.1⟩
    cases w with
    | done =>
      cases hh
      exact hremote i machine command true hcommand
    | fails e n =>
      cases hh
      exact hremote i machine command false hcommand
    | _ => cases hh
  | teardown session force =>
    cases w with
    | done =>
      cases hh
      refine oneStep_append [_] rfl rfl fun e hmem => ?_
      rw [List.mem_singleton.mp hmem]
      exact ⟨rfl, fun _ _ _ _ _ _ heq => FleetEntry.noConfusion heq⟩
    | _ => cases hh
  | ensured project result =>
    cases w with
    | done =>
      cases result with
      | ok manager =>
        cases hh
        refine oneStep_append [_] rfl rfl fun e hmem => ?_
        rw [List.mem_singleton.mp hmem]
        exact ⟨rfl, fun _ _ _ _ _ _ heq => FleetEntry.noConfusion heq⟩
      | error e =>
        cases hh
        refine oneStep_append _ rfl rfl fun e hmem => ?_
        obtain ⟨i, -, rfl⟩ := List.mem_map.mp hmem
        exact ⟨rfl, fun _ _ _ _ _ _ heq => FleetEntry.noConfusion heq⟩
    | _ => cases result <;> cases hh
  | uuid =>
    cases w with
    | text drawn =>
      simp only [fleetHandle] at hh
      split at hh
      · next hunused =>
        cases hh
        simp only [FleetWorld.unused, Bool.and_eq_true, Bool.not_eq_true', List.any_eq_false, decide_eq_true_eq]
          at hunused
        refine ⟨⟨List.prefix_refl _, fun _ hmem => .inl hmem, fun _ hmem => List.mem_cons_of_mem _ hmem⟩,
          fun _ hmem => .inl hmem, fun i hmem => ?_⟩
        rcases List.mem_cons.mp hmem with rfl | hmem
        · exact .inr ⟨rfl, hunused.1.1.1⟩
        · exact .inl hmem
      · cases hh
    | _ => cases hh
  | nextPaneSequence sessionId =>
    cases w with
    | done =>
      simp only [fleetHandle, Option.some.injEq, Prod.mk.injEq] at hh
      exact hh.1 ▸ hsame rfl rfl
    | fails e n =>
      cases hh
      exact hsame rfl rfl
    | _ => cases hh
  | readText path =>
    cases w with
    | text content =>
      cases hh
      exact hsame rfl rfl
    | fails e n =>
      simp only [fleetHandle] at hh
      split at hh
      · cases hh
        exact hsame rfl rfl
      · cases hh
    | _ => cases hh
  | openPr machine project branch worktree summary sessionId =>
    cases w with
    | text url =>
      simp only [fleetHandle] at hh
      split at hh
      · cases hh
        exact hsame rfl rfl
      · cases hh
    | fails e n =>
      cases hh
      exact hsame rfl rfl
    | _ => cases hh
  | _ => cases w <;> cases hh <;> exact hsame rfl rfl

/-- What the coroutine knows: the other threads cannot spoil it, nor can its own steps, and it lets
the coroutine start the agent or remove the worktree. -/
structure Knows (t : ℕ) (id : String) (run remove : Prop) (J : FleetWorld → Prop) : Prop where
  stable : ∀ s s', J s → By (· ≠ t) s s' → Inv s' → J s'
  keeps : ∀ s s', J s → OneStep t id run s s' → Inv s' → J s'
  owns : run → ∀ s, J s → (id, t) ∈ s.ids
  may : remove → ∀ s, J s → Justified s.log t id

theorem safe_acts (hJ : Knows t id run remove J) {R : α → Prop} {p : FleetM α} (hp : Does (Acts id run remove) R p)
    (hs : J s) : Safe fleetInterp contract t (fun r h' s' => h' = h ∧ (∀ a, r = .ok a → R a) ∧ J s') p h s := by
  refine Safe.of_performs (V := Possible) (P := Acts id run remove) ?_
    (fun s s' hj hr hi => hJ.stable s s' hj hr hi) ?_
    hp hs
  · intro β e w s s' b hh
    exact possible_of_handle hh
  · intro β e he s hi hj _
    refine ⟨?_, fun w s' b hh => ?_⟩
    · cases e with
      | remote i machine command =>
        cases command with
        | worktreeRemove repo path =>
          have hmay := hJ.may he.2 s hj
          rw [he.1]
          exact hmay
        | _ => trivial
      | _ => trivial
    · have hstep : OneStep t id run s s' := oneStep_of_acts he hh
      have hi' : Inv s' := hstep.inv (fun hr => hJ.owns hr s hj) hi
      exact ⟨hstep.own, hi', hJ.keeps s s' hj hstep hi'⟩

theorem safe_acts_bind (hJ : Knows t id run remove J) {R : α → Prop} {p : FleetM α} {f : α → FleetM β}
    (hp : Does (Acts id run remove) R p) (hs : J s)
    (hf : ∀ a s', R a → J s' → Safe fleetInterp contract t (fun _ h' _ => h' = h) (f a) h s') :
    Safe fleetInterp contract t (fun _ h' _ => h' = h) (p.bind f) h s := by
  refine Safe.bind contract_coherent (Safe.mono ?_ (safe_acts hJ hp hs))
  rintro r h' s' - ⟨rfl, hr, hj⟩
  cases r with
  | ok a => exact hf a s' (hr a rfl) hj
  | error e => exact fun _ _ _ => rfl

theorem safe_acts_any (hJ : Knows t id run remove J) {R : α → Prop} {p : FleetM α}
    (hp : Does (Acts id run remove) R p) (hs : J s) : Safe fleetInterp contract t (fun _ h' _ => h' = h) p h s :=
  Safe.mono (fun _ _ _ _ hq => hq.1) (safe_acts hJ hp hs)

/-- Nothing. -/
theorem knows_nothing (t : ℕ) (id : String) : Knows t id False False fun _ => True :=
  ⟨fun _ _ _ _ _ => trivial, fun _ _ _ _ _ => trivial, fun hn => hn.elim, fun hn => hn.elim⟩

def Untried (t : ℕ) (sid : String) (s : FleetWorld) : Prop := (sid, t) ∈ s.ids ∧ ¬Attempted s.log sid

theorem knows_untried (t : ℕ) (sid : String) : Knows t sid False True (Untried t sid) where
  stable s s' hs hb hi := by
    refine ⟨hb.ids _ hs.1, ?_⟩
    rintro ⟨t', machine, paneId, command, ack, he⟩
    rcases hb.entries _ he with hold | hother
    · exact hs.2 ⟨t', machine, paneId, command, ack, hold⟩
    · exact hother (hi.owner sid t' t (hi.runs _ _ _ _ _ _ he) (hb.ids _ hs.1))
  keeps s s' hs hst _ := by
    refine ⟨hst.own.ids _ hs.1, ?_⟩
    rintro ⟨t', machine, paneId, command, ack, he⟩
    rcases hst.starts _ he with hold | hnew
    · exact hs.2 ⟨t', machine, paneId, command, ack, hold⟩
    · exact (hnew _ _ _ _ _ _ rfl).1
  owns hn := hn.elim
  may _ _ hs := .inl hs.2

/-- The launch may start the agent, and removes nothing from then on. -/
theorem knows_started (t : ℕ) (sid : String) : Knows t sid True False fun s => (sid, t) ∈ s.ids :=
  ⟨fun _ _ hs hb _ => hb.ids _ hs, fun _ _ hs hst _ => hst.own.ids _ hs, fun _ _ hs => hs, fun hn => hn.elim⟩

/-- The teardown has closed the pane. -/
theorem knows_tearingDown (t : ℕ) (id : String) : Knows t id False True fun s => TearingDown s.log t id :=
  ⟨fun _ _ hs hb _ => hs.mono hb.log, fun _ _ hs hst _ => hs.mono hst.own.log, fun hn => hn.elim,
    fun _ _ hs => .inr hs⟩

def Marked (t : ℕ) (session : PiSession) (force : Bool) (s : FleetWorld) : Prop :=
  ∃ before after, s.log = before ++ .teardown t session force :: after

theorem knows_marked (t : ℕ) (session : PiSession) (force : Bool) :
    Knows t session.id False False (Marked t session force) := by
  have hmono : ∀ {s s' : FleetWorld}, Marked t session force s → s.log <+: s'.log → Marked t session force s' := by
    rintro s s' ⟨before, after, hlog⟩ ⟨more, hmore⟩
    exact ⟨before, after ++ more, by rw [← hmore, hlog]; simp⟩
  exact ⟨fun _ _ hs hb _ => hmono hs hb.log, fun _ _ hs hst _ => hmono hs hst.own.log, fun hn => hn.elim,
    fun hn => hn.elim⟩

theorem tearingDown_of_marked {session : PiSession} {force : Bool} (hs : Marked t session force s)
    (hpr : session.metaText "pr_url" ≠ "" ∨ force = true) (hpane : session.metaText "pane_id" = "") :
    TearingDown s.log t session.id := by
  obtain ⟨before, after, hlog⟩ := hs
  exact ⟨session, force, before, after, hlog, rfl, hpr, fun hp => absurd hpane hp⟩

theorem tearingDown_of_closed {session : PiSession} {force : Bool} (hs : Marked t session force s)
    (hpr : session.metaText "pr_url" ≠ "" ∨ force = true) (machine : String) :
    TearingDown (s.record (.remote t session.id machine (.paneClose (session.metaText "pane_id")) true)).log t
      session.id := by
  obtain ⟨before, after, hlog⟩ := hs
  refine ⟨session, force, before,
    after ++ [.remote t session.id machine (.paneClose (session.metaText "pane_id")) true], ?_, rfl, hpr,
    fun _ => ⟨machine, List.mem_append_right _ (List.mem_singleton_self _)⟩⟩
  simp [FleetWorld.record, hlog]

abbrev Keeps (t : ℕ) (p : FleetM α) (h : List FleetLock) (s : FleetWorld) : Prop :=
  Safe fleetInterp contract t (fun _ h' _ => h' = h) p h s

theorem keeps_raise (e : FleetError) : Keeps t (.raise e : FleetM α) h s := fun _ _ _ => rfl

theorem keeps_bind {p : FleetM α} {f : α → FleetM β} (hp : Keeps t p h s) (hf : ∀ a s', Keeps t (f a) h s') :
    Keeps t (p.bind f) h s := by
  refine Safe.bind contract_coherent (Safe.mono ?_ hp)
  rintro r h' s' - rfl
  cases r with
  | ok a => exact hf a s'
  | error e => exact fun _ _ _ => rfl

/-- The pane is closed when the coroutine goes on. -/
theorem keeps_closeForTeardown {session : PiSession} {force : Bool} {f : Unit → FleetM β} (machine : Machine)
    (hs : Marked t session force s) (hpr : session.metaText "pr_url" ≠ "" ∨ force = true)
    (hf : ∀ s', TearingDown s'.log t session.id → Keeps t (f ()) h s') :
    Keeps t ((closeForTeardown machine session).bind f) h s := by
  unfold closeForTeardown
  split
  · next hpane => exact hf s (tearingDown_of_marked hs hpr hpane)
  · -- The release of the agent follows the acknowledged close; another end of it raises.
    have hknows := knows_marked t session force
    refine Safe.bind contract_coherent (Safe.bind contract_coherent (Safe.catching contract_coherent ?_))
    intro s₁ hr₁ hi₁ _
    have hs₁ : Marked t session force s₁ := hknows.stable s s₁ hs hr₁ hi₁
    refine ⟨trivial, fun w s₂ b hh => ?_⟩
    have hacts : Acts session.id False False _
        (.remote session.id machine.name (.paneClose (session.metaText "pane_id"))) := trivial
    have hstep := oneStep_of_acts hacts hh
    have hi₂ : Inv s₂ := hstep.inv False.elim hi₁
    refine ⟨hstep.own, hi₂, ?_⟩
    cases w with
    | done =>
      cases hh
      intro s₃ hr₃ hi₃ s₄ hr₄ hi₄
      have hclosed : TearingDown s₄.log t session.id :=
        ((tearingDown_of_closed hs₁ hpr machine.name).mono hr₃.log).mono hr₄.log
      refine Safe.mono ?_ (safe_acts (knows_tearingDown t session.id)
        (acts (performs_releaseAgent session machine _)) hclosed)
      rintro r h' s₅ - ⟨rfl, -, hs₅⟩
      cases r with
      | ok u => exact hf s₅ hs₅
      | error e => exact fun _ _ _ => rfl
    | fails e n =>
      cases hh
      intro s₃ hr₃ hi₃
      have hs₃ : Marked t session force s₃ := hknows.stable _ _ (hknows.keeps _ _ hs₁ hstep hi₂) hr₃ hi₃
      have hraises : Does (For session.id False False) (fun _ => False)
          (if e.remote then do
            remoteCleanupError session "pane-close" e
            .raise (.worktreeError "refusing to remove a worktree while its pane may still run")
          else .raise e : FleetM Unit) := by
        split
        · exact (performs_remoteCleanupError session _ e).bind fun _ _ => trivial
        · trivial
      refine Safe.mono ?_ (safe_acts hknows (acts hraises) hs₃)
      rintro r h' s₅ - ⟨rfl, hr, -⟩
      cases r with
      | ok u => exact (hr u rfl).elim
      | error e => exact fun _ _ _ _ _ _ => rfl
    | _ => cases hh

theorem keeps_teardownTask (cfg : FleetConfig) (session : PiSession) (force : Bool) :
    Keeps t (teardownTask cfg session force) h s := by
  intro s₁ _ hi₁ _
  refine ⟨trivial, fun w s₂ b hh => ?_⟩
  have hacts : Acts session.id False False Unit (.teardown session force) := trivial
  have hstep := oneStep_of_acts hacts hh
  have hi₂ : Inv s₂ := hstep.inv False.elim hi₁
  refine ⟨hstep.own, hi₂, ?_⟩
  have hs₂ : Marked t session force s₂ := by
    cases w with
    | done =>
      cases hh
      exact ⟨s₁.log, [], rfl⟩
    | _ => cases hh
  change Keeps t (if session.role ≠ "task" then _ else if _ then _ else _) h s₂
  split
  · exact keeps_raise _
  · split
    · exact keeps_raise _
    · next hpr =>
      have hforced : session.metaText "pr_url" ≠ "" ∨ force = true := by
        by_cases hurl : session.metaText "pr_url" = ""
        · exact .inr (by simpa [hurl] using hpr)
        · exact .inl hurl
      refine safe_acts_bind (knows_marked t session force) (acts (performs_sessionMachine session cfg)) hs₂
        fun machine s₃ _ hs₃ => ?_
      refine keeps_closeForTeardown machine hs₃ hforced fun s₄ hs₄ => ?_
      exact safe_acts_any (knows_tearingDown t session.id)
        (acts (performs_destroyTask session trivial force machine)) hs₄

theorem untried_of_uuid {w : FleetAnswer} (hi : Inv s) (hh : fleetHandle .uuid t w s = some (s', sid)) :
    Untried t sid s' := by
  cases w with
  | text drawn =>
    simp only [fleetHandle] at hh
    split at hh
    · next hunused =>
      cases hh
      simp only [FleetWorld.unused, Bool.and_eq_true, Bool.not_eq_true', List.any_eq_false,
        decide_eq_true_eq] at hunused
      refine ⟨List.mem_cons_self .., ?_⟩
      rintro ⟨t', machine, paneId, command, ack, he⟩
      exact hunused.1.1.1 _ (hi.runs t' sid machine paneId command ack he) rfl
    · cases hh
  | _ => cases hh

/-- The session whose id is drawn has no agent yet. -/
theorem keeps_draw {f : String → FleetM β} (hf : ∀ sid s', Untried t sid s' → Keeps t (f sid) h s') :
    Keeps t ((Prog.call .uuid).bind f) h s := by
  intro s₁ _ hi₁ _
  refine ⟨trivial, fun w s₂ sid hh => ?_⟩
  have hacts : Acts sid False False String .uuid := trivial
  have hstep := oneStep_of_acts hacts hh
  exact ⟨hstep.own, hstep.inv False.elim hi₁, hf sid s₂ (untried_of_uuid hi₁ hh)⟩

variable {cfg : FleetConfig} {launching : Launch} {spec : LaunchSpec} {token : String}

theorem keeps_startAgent {session : PiSession} (hs : Untried t session.id s) :
    Keeps t (startAgent cfg launching spec session token) h s := by
  have hknows := knows_untried t session.id
  have habandon : ∀ {β : Type} {R : β → Prop} (e : FleetError),
      Does (For session.id False True) R (abandonLaunch cfg launching session false e) :=
    fun e => performs_abandonLaunch session cfg launching false (fun _ => trivial) e
  refine safe_acts_bind hknows (R := Any) (acts (Prog.Performs.catching (.await trivial fun _ _ => trivial)
    fun e => habandon _)) hs fun prompt s₁ _ hs₁ => ?_
  split
  · exact safe_acts_any hknows (R := Any) (acts (habandon _)) hs₁
  · refine safe_acts_bind hknows (acts ((performs_writeLaunchFiles session cfg launching spec token prompt).catching
      fun e => habandon _)) hs₁ fun _ s₂ _ hs₂ => ?_
    exact safe_acts_any (knows_started t session.id)
      (acts (performs_runSession session trivial cfg launching)) hs₂.1

/-- The row is inserted, and no agent started. -/
theorem keeps_insert_bind {row : PiSession} {f : Unit → FleetM β} (hs : Untried t sid s)
    (hf : ∀ s', Untried t sid s' → Keeps t (f ()) h s') : Keeps t ((write (.insert row)).bind f) h s :=
  safe_acts_bind (knows_untried t sid) (R := Any) (.await trivial fun _ _ => trivial) hs fun _ s' _ hs' => hf s' hs'

theorem keeps_markFailed_bind {session : PiSession} {e : FleetError} {eventType : String} {f : Unit → FleetM β}
    (hs : Untried t session.id s) (hf : ∀ s', Untried t session.id s' → Keeps t (f ()) h s') :
    Keeps t ((markFailed session e eventType).bind f) h s :=
  safe_acts_bind (knows_untried t session.id) (acts (performs_markFailed session e eventType)) hs
    fun _ s' _ hs' => hf s' hs'

theorem keeps_cleanupFailedWorktree {session : PiSession} (hs : Untried t session.id s) :
    Keeps t (cleanupFailedWorktree cfg session) h s :=
  safe_acts_any (knows_untried t session.id) (acts (performs_cleanupFailedWorktree session trivial cfg)) hs

theorem keeps_launchIn (worktree branch : String) (hs : Untried t sid s) :
    Keeps t (launchIn cfg launching spec sid token worktree branch) h s := by
  have hknows := knows_untried t sid
  refine safe_acts_bind hknows (R := Any)
    (acts (Prog.Performs.attempt (R := Any) (.await trivial fun _ _ => trivial)).any)
    hs fun created s₁ _ hs₁ => ?_
  refine safe_acts_bind hknows (R := Any) (acts (.call trivial fun _ _ => trivial)) hs₁ fun now s₂ _ hs₂ => ?_
  cases created with
  | ok workspace => exact keeps_insert_bind hs₂ fun s₃ hs₃ => keeps_startAgent hs₃
  | error e =>
    dsimp only
    split
    · refine keeps_insert_bind hs₂ fun s₃ hs₃ => ?_
      refine keeps_markFailed_bind hs₃ fun s₄ hs₄ => ?_
      split
      · exact keeps_bind (keeps_cleanupFailedWorktree hs₄) fun _ _ => keeps_raise _
      · exact keeps_raise _
    · exact keeps_raise _

theorem keeps_launchTaskIn (hs : Untried t sid s) : Keeps t (launchTaskIn cfg launching spec sid token) h s := by
  have hknows := knows_untried t sid
  refine safe_acts_bind hknows (R := Any) (acts (performs_createWorktree launching.machine launching.repo
    launching.branch launching.baseBranch [1, 2, 3, 4, 5]).attempt.any) hs fun created s₁ _ hs₁ => ?_
  cases created with
  | ok created =>
    obtain ⟨worktree, branch⟩ := created
    dsimp only
    cases launchSpec cfg launching worktree branch with
    | error e => exact keeps_raise e
    | ok spec' => exact keeps_launchIn worktree branch hs₁
  | error e =>
    cases e with
    | worktreeError message =>
      refine safe_acts_bind hknows (R := Any) (acts (.call trivial fun _ _ => trivial)) hs₁ fun now s₂ _ hs₂ => ?_
      refine keeps_insert_bind hs₂ fun s₃ hs₃ => ?_
      exact keeps_markFailed_bind hs₃ fun _ _ => keeps_raise _
    | _ => exact keeps_raise _

theorem keeps_launch (cfg : FleetConfig) (launching : Launch) : Keeps t (launch cfg launching) h s := by
  unfold launch
  split
  · exact keeps_raise _
  · cases launchSpec cfg launching launching.cwd launching.branch with
    | error e => exact keeps_raise e
    | ok spec =>
      refine keeps_draw fun sid s₁ hs₁ => ?_
      refine safe_acts_bind (knows_untried t sid) (R := Any) (acts (.call trivial fun _ _ => trivial)) hs₁
        fun token s₂ _ hs₂ => ?_
      generalize (if launching.role = .orchestrator then { launching with parentSessionId := none, briefing := "" }
        else launching) = l
      split
      · exact keeps_launchTaskIn hs₂
      · exact keeps_launchIn "" "" hs₂

theorem keeps_query_bind {q : Tables → α} {f : α → FleetM β} (hf : ∀ a s', Keeps t (f a) h s') :
    Keeps t ((Orchestrator.query q).bind f) h s :=
  safe_acts_bind (knows_nothing t "") (R := Any) (.await trivial fun _ _ => trivial) trivial fun a s' _ _ => hf a s'

/-- Whatever starts no agent and removes nothing. -/
theorem keeps_for (i : String) {R : α → Prop} {p : FleetM α} (hp : Does (For i False False) R p) : Keeps t p h s :=
  safe_acts_any (knows_nothing t i) (acts hp) trivial

theorem keeps_attempt {p : FleetM α} (hp : Keeps t p h s) : Keeps t p.attempt h s :=
  Safe.attempt (Safe.mono (fun _ _ _ _ hq => hq) hp)

theorem keeps_locked {p : FleetM α} (hp : ∀ s, Keeps t p [l] s) : Keeps t (locked l p) [] s := by
  refine safe_acts_bind (knows_nothing t "") (R := Any) (.await trivial fun _ _ => trivial) trivial fun _ s₁ _ _ =>
    ?_
  refine Safe.withLock contract_coherent (fun s₂ _ _ _ _ => ?_) fun s s' hr => hr
  refine Safe.mono ?_ (hp s₂)
  rintro r h' s' - rfl
  exact ⟨rfl, fun _ _ _ => trivial, fun _ _ _ => rfl⟩

theorem keeps_forEach {f : α → FleetM Unit} (hf : ∀ a s, Keeps t (f a) [] s) (as : List α) :
    Keeps t (Prog.forEach f as) [] s := by
  induction as generalizing s with
  | nil => exact fun _ _ _ => rfl
  | cons a as ih => exact keeps_bind (hf a s) fun _ s' => ih

theorem keeps_launchOrchestrator (cfg : FleetConfig) (sessions : List PiSession) :
    Keeps t (launchOrchestrator cfg sessions) h s := by
  unfold launchOrchestrator
  split
  · exact keeps_raise _
  · next machine _ =>
    dsimp only
    generalize (if cfg.orchestratorCwd = "" then machine.home ++
      "/Work/agent-orchestrator" else cfg.orchestratorCwd) = repo
    split
    · exact keeps_raise _
    · exact keeps_launch cfg _

theorem keeps_ensureOrchestrator (cfg : FleetConfig) : Keeps t (ensureOrchestrator cfg) [] s := by
  refine keeps_locked fun s₁ => keeps_query_bind fun sessions s₂ => ?_
  cases firstLive sessions with
  | some session => exact keeps_for _ (performs_liveSession session cfg)
  | none => exact keeps_launchOrchestrator cfg sessions

theorem keeps_ensurePmLocked (cfg : FleetConfig) (project : String) : Keeps t (ensurePmLocked cfg project) h s := by
  refine keeps_bind (keeps_for "" (performs_project cfg project)) fun p s₁ => keeps_query_bind fun sessions s₂ => ?_
  cases firstLive sessions with
  | some session => exact keeps_for _ (performs_liveSession session cfg)
  | none =>
    refine keeps_bind (keeps_for "" (performs_projectMachine cfg p)) fun machine s₃ => ?_
    refine keeps_bind (keeps_launch cfg _) fun manager s₄ => ?_
    have hreparents : Does (Acts "" False False) Any
        (Prog.forEach (fun previous => write (.reparent previous.id manager.id)) sessions) :=
      .forEach trivial fun _ _ => .await trivial fun _ _ => trivial
    exact keeps_bind (safe_acts_any (knows_nothing t "") hreparents trivial) fun _ _ => fun _ _ _ => rfl

theorem keeps_pmSession {project : String} {body : PiSession → FleetM α} (cfg : FleetConfig)
    (hbody : ∀ manager s, Keeps t (body manager) [.pm project] s) : Keeps t (pmSession cfg project body) [] s := by
  refine keeps_bind (keeps_for "" (performs_project cfg project)) fun p s₁ => keeps_locked fun s₂ => ?_
  refine keeps_bind (keeps_attempt (keeps_ensurePmLocked cfg project)) fun result s₃ => ?_
  have hmark : Does (Acts "" False False) Any (Prog.call (.ensured project result) : FleetM Unit) :=
    .call trivial fun _ _ => trivial
  refine keeps_bind (safe_acts_any (knows_nothing t "") hmark trivial) fun _ s₄ => ?_
  cases result with
  | ok manager => exact hbody manager s₄
  | error e => exact keeps_raise e

theorem keeps_launchTask (cfg : FleetConfig) (p : Project) (branch briefing parent : String) :
    Keeps t (launchTask cfg p branch briefing parent) [] s := by
  refine keeps_locked fun s₁ => keeps_query_bind fun accepted s₂ => ?_
  cases accepted with
  | none => exact keeps_raise _
  | some manager =>
    exact keeps_bind (keeps_for "" (performs_projectMachine cfg p)) fun machine s₃ => keeps_launch cfg _

theorem keeps_pollSession (cfg : FleetConfig) (now : ℕ) (tasks : List PiSession) (session : PiSession) :
    Keeps t (pollSession cfg now tasks session) [] s := by
  unfold pollSession
  split
  · exact fun _ _ _ => rfl
  · split
    · refine keeps_bind (keeps_for session.id (performs_metaItem session "project")) fun project s₁ => ?_
      split
      · exact keeps_locked fun s₂ => keeps_for _ (performs_retirePm session cfg now)
      · exact fun _ _ _ => rfl
    · exact keeps_for _ (performs_reportState session cfg _ _)

theorem keeps_poll (cfg : FleetConfig) : Keeps t (poll cfg) [] s := by
  have htime : Does (Acts "" False False) Any (Prog.call .time : FleetM ℕ) := .call trivial fun _ _ => trivial
  refine keeps_bind (safe_acts_any (knows_nothing t "") htime trivial) fun now s₁ =>
    keeps_query_bind fun tasks s₂ =>
    keeps_query_bind fun orchestrators s₃ => keeps_query_bind fun managers s₄ => ?_
  refine keeps_forEach (fun session s₅ => ?_) _
  refine keeps_bind (keeps_attempt (keeps_pollSession cfg now tasks session)) fun r s₆ => ?_
  cases r with
  | ok u => exact fun _ _ _ => rfl
  | error e => cases e <;> exact fun _ _ _ => rfl

inductive Operation (cfg : FleetConfig) : FleetM Unit → Prop where
  | launch (launching : Launch) : Operation cfg ((launch cfg launching).bind fun _ => .ret ())
  | waitForBridge (machine : Machine) (session : PiSession) :
      Operation cfg ((waitForBridge machine session).bind fun _ => .ret ())
  | caller {p : FleetM Unit} : Caller cfg p → Operation cfg p

theorem keeps_ret {p : FleetM α} (hp : Keeps t p h s) : Keeps t (p.bind fun _ => .ret ()) h s :=
  keeps_bind hp fun _ _ => fun _ _ _ => rfl

theorem keeps_operation {p : FleetM Unit} (hp : Operation cfg p) : Keeps t p [] s := by
  cases hp with
  | launch launching => exact keeps_ret (keeps_launch cfg launching)
  | waitForBridge machine session => exact keeps_ret (keeps_for _ (performs_waitForBridge session machine))
  | caller hp =>
    cases hp with
    | ensureOrchestrator => exact keeps_ret (keeps_ensureOrchestrator cfg)
    | ensurePm project => exact keeps_ret (keeps_pmSession cfg fun _ _ => fun _ _ _ => rfl)
    | send project message deliverAs caller =>
      exact keeps_pmSession cfg fun manager _ => keeps_for _
        (performs_enqueuePrompt manager message deliverAs caller)
    | launchTask p branch briefing parent => exact keeps_ret (keeps_launchTask cfg p branch briefing parent)
    | poll => exact keeps_poll cfg
    | teardown session force => exact keeps_teardownTask cfg session force
    | request op =>
      exact safe_acts_any (knows_nothing t "") (R := Any) (.await trivial fun _ _ => trivial) trivial

/-- Operations start at any time; whatever an await answers, an exception included, is allowed. -/
def Operates (cfg : FleetConfig) : FleetPool → FleetEvent → Prop
  | _, .spawn p => Operation cfg p
  | _, .go _ _ => True
  | _, _ => False

variable {d d' : Tables} {c : FleetPool}

theorem sound_of_operates (hc : Pool.Reachable fleetInterp (Operates cfg) { db := d, durable := d' } c) :
    Pool.Sound fleetInterp contract (fun _ _ h' _ => h' = []) c := by
  have hinit : Inv { db := d, durable := d' } :=
    ⟨fun _ _ _ hi => (nomatch hi), fun _ _ _ _ _ _ he => (nomatch he)⟩
  refine Pool.Reachable.sound contract_coherent hinit (fun _ => trivial) (fun _ => trivial)
    (fun _ p hp t s _ _ => keeps_operation hp) (fun _ _ _ _ _ _ _ _ _ => trivial) (fun _ _ _ hok => hok.elim)
    (fun _ _ hok => hok.elim) ?_ hc
  rintro c (⟨t, e, hok⟩ | ⟨e, hok⟩)
  · exact hok.elim
  · exact hok.elim

/-- Where the worktree of a session is about to be removed, no agent was ever started for the
session, or this teardown has closed its pane and is forced or has a pull request. -/
theorem worktree_removals (hc : Pool.Reachable fleetInterp (Operates cfg) { db := d, durable := d' } c)
    {machine repo
    path : String} {k : Except FleetError Unit → FleetM Unit} {held : List FleetLock}
    (ht : c.threads[t]? = some ⟨.perform (.remote id machine (.worktreeRemove repo path)) k, held⟩) :
    Justified c.state.log t id ∧
      ((∀ session force, FleetEntry.teardown t session force ∉ c.state.log) → ¬Attempted c.state.log id) := by
  have hjust : Justified c.state.log t id := (sound_of_operates hc).pre contract_coherent ht trivial
  refine ⟨hjust, fun hnone => hjust.resolve_right ?_⟩
  rintro ⟨session, force, before, after, hlog, -⟩
  exact hnone session force (hlog ▸ List.mem_append_right _ (List.mem_cons_self ..))

/-- A task is launched, and torn down by force as soon as its agent runs. -/
def forcedTeardown : List FleetEvent :=
  .spawn ((launch soloFleet
      { role := .task, machine := { name := "desktop", home := "/home/u" }, cwd := "/src/p", projectName := "p",
        repo := "/src/p", remote := "origin", branch := "fix", briefing := "repair it" }).bind fun _ => .ret ()) ::
    (answers 0 [.text "task", .text "token", .done, .workspace ⟨"workspace", "pane"⟩, .number 1, .done,
      .text "prompt",
      .done, .done, .done, .done] ++
    .spawn (teardownTask soloFleet
      { id := "task", role := "task", state := .starting, host := "desktop",
        metaData := [("repo", .str "/src/p"), ("worktree", .str "/home/u/.cache/worker-harness/worktrees/p/fix"),
          ("branch", .str "fix"), ("pane_id", .str "pane")] } true) ::
    answers 1 [.done, .done, .done, .done])

/-- The worktree that the thread is about to remove, and the session that it belongs to. -/
def removing (c : FleetPool) (t : ℕ) : Option (String × String) :=
  match c.threads[t]? with
  | some ⟨.perform (.remote id _ (.worktreeRemove _ path)) _, _⟩ => some (id, path)
  | _ => none

theorem exists_of_removing {path : String} (hr : removing c t = some (id, path)) :
    ∃ (machine repo : String) (k : Except FleetError Unit → FleetM Unit) (held : List FleetLock),
      c.threads[t]? = some ⟨.perform (.remote id machine (.worktreeRemove repo path)) k, held⟩ := by
  unfold removing at hr
  split at hr
  · next id' machine repo path' k held ht =>
    cases hr
    exact ⟨machine, repo, k, held, ht⟩
  · cases hr

/-- An agent was started for the session. -/
def attempted (log : List FleetEntry) (id : String) : Bool :=
  log.any fun
    | .remote _ sessionId _ (.paneRun _ _) _ => decide (sessionId = id)
    | _ => false

theorem worktree_removals_forcedTeardown : ∃ c : FleetPool,
    removing c 1 = some ("task", "/home/u/.cache/worker-harness/worktrees/p/fix") ∧
      attempted c.state.log "task" = true ∧ Justified c.state.log 1 "task" := by
  have hrun : (Pool.checkedRun fleetInterp (fun _ _ => true) ⟨{}, []⟩ forcedTeardown).map
      (fun c => (removing c 1, attempted c.state.log "task")) =
        some (some ("task", "/home/u/.cache/worker-harness/worktrees/p/fix"), true) := by decide +kernel
  obtain ⟨c, hc, hobs⟩ := Option.map_eq_some_iff.mp hrun
  simp only [Prod.mk.injEq] at hobs
  have hreach : Pool.Reachable fleetInterp (Operates soloFleet) { db := {}, durable := {} } c := by
    refine Pool.Reachable.checkedRun .init (fun _ ev hev _ => ?_) hc
    simp only [forcedTeardown, List.mem_cons, List.mem_append] at hev
    rcases hev with rfl | hev | rfl | hev
    · exact .launch _
    · obtain ⟨w, -, rfl⟩ := List.mem_map.mp hev
      trivial
    · exact .caller (.teardown _ _)
    · obtain ⟨w, -, rfl⟩ := List.mem_map.mp hev
      trivial
  obtain ⟨machine, repo, k, held, ht⟩ := exists_of_removing hobs.1
  exact ⟨c, hobs.1, hobs.2, (worktree_removals hreach ht).1⟩

end WorkerHarness.WorktreeRemovals
