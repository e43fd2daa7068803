import WorkerHarness.OrchestratorWalks

/-!
# Pane sequences

A report about a pane carries a sequence, with which the machine tells it from reports that have been overtaken. The
database gives out the sequences of a session. None is ever used for two reports, whatever fails in between, and a
service that starts again goes on above all that were used.
-/

namespace WorkerHarness.PaneSequences

open Coroutines SharedTransactions Database SessionStatements ManagerRows ManagerLocks Orchestrator
open LiveManagers WorktreeRemovals OrchestratorWalks

/-- `COALESCE(json_extract(meta, '$.pane_sequence'), 0)` -/
def counter (row : PiSession) : Int :=
  match row.metaData.get "pane_sequence" with
  | some (.num n) => n
  | _ => 0

theorem paneSequence_eq (d : Tables) (id : String) : paneSequence d id = (findSession d id).map counter := rfl

theorem counter_nextPane (row : PiSession) : counter row.nextPane = counter row + 1 := by
  have hget : row.nextPane.metaData.get "pane_sequence" = some (.num (counter row + 1)) := get_set_self _ _ _
  rw [counter, hget]

theorem counter_congr {row row' : PiSession} (h : row'.metaData.get "pane_sequence" =
      row.metaData.get "pane_sequence") :
    counter row' = counter row := by
  rw [counter, h]
  rfl

/-- No session loses its counter, and none goes back. -/
def Counts (d d' : Tables) : Prop := ∀ id n, paneSequence d id = some n →
    ∃ n', paneSequence d' id = some n' ∧ n ≤ n'

variable {d d' d'' : Tables} {op : SessionOp}

theorem Counts.refl (d : Tables) : Counts d d := fun _ n hn => ⟨n, hn, Int.le_refl n⟩

theorem Counts.trans (h : Counts d d') (h' : Counts d' d'') : Counts d d'' := by
  intro id n hn
  obtain ⟨n', hn', hle⟩ := h id n hn
  obtain ⟨n'', hn'', hle'⟩ := h' id n' hn'
  exact ⟨n'', hn'', Int.le_trans hle hle'⟩

theorem Counts.of_find (h : ∀ id row, findSession d id = some row →
    ∃ row', findSession d' id = some row' ∧ counter row ≤ counter row') : Counts d d' := by
  intro id n hn
  rw [paneSequence_eq, Option.map_eq_some_iff] at hn
  obtain ⟨row, hrow, rfl⟩ := hn
  obtain ⟨row', hrow', hle⟩ := h id row hrow
  exact ⟨counter row', by rw [paneSequence_eq, hrow', Option.map_some], hle⟩

theorem Counts.of_sessions (h : d'.sessions = d.sessions) : Counts d d' :=
  .of_find fun id row hrow => ⟨row, by rw [findSession, h]; exact hrow, Int.le_refl _⟩

theorem Counts.of_append {rows : List PiSession} (h : d'.sessions = d.sessions ++ rows) : Counts d d' := by
  refine .of_find fun id row hrow => ⟨row, ?_, Int.le_refl _⟩
  unfold findSession at hrow ⊢
  rw [h, List.find?_append, hrow, Option.some_or]

theorem Counts.update {p : Tables → PiSession → Bool} {f : PiSession → PiSession} (hid : ∀ row, (f row).id = row.id)
    (hcounter : ∀ row, counter row ≤ counter (f row)) : Counts d ((update sessionsTable p f).apply d) := by
  refine .of_find fun id row hrow => ?_
  have hfind : findSession ((Database.update sessionsTable p f).apply d) id =
      (findSession d id).map fun row => if p d row then f row else row :=
    find?_updateRows (fun row => by rw [hid row]) d.sessions
  refine ⟨_, by rw [hfind, hrow, Option.map_some], ?_⟩
  split
  · exact hcounter row
  · exact Int.le_refl _

/-- A patch leaves the counter alone. -/
def Uncounted (op : SessionOp) : Prop :=
  ∀ sessionId members, op = .patch sessionId members → ∀ m ∈ members, m.1 ≠ "pane_sequence"

theorem uncounted_of_requested (h : Requested op) : Uncounted op := by
  rintro sessionId members rfl m hm
  have hkey : m.1 = "pr_url" := h m hm
  rw [hkey]
  decide

theorem counts_of_executes {st : Statement Tables} (hop : Uncounted op) (hst : Executes op st) (d : Tables) :
    Counts d (st.apply d) := by
  have hrow : ∀ {p : Tables → PiSession → Bool} {f : PiSession → PiSession}, (∀ row, (f row).id = row.id) →
      (∀ row, (f row).metaData.get "pane_sequence" = row.metaData.get "pane_sequence") →
      Counts d ((update sessionsTable p f).apply d) :=
    fun hid hmeta => .update hid fun row => Int.le_of_eq (counter_congr (hmeta row)).symm
  have hevent : ∀ event : PiSessionEvent, Counts d ((insertEvent event).apply d) := by
    intro event
    obtain ⟨events, hevents⟩ := insertEvent_apply event d
    rw [hevents]
    exact .of_sessions rfl
  cases hst with
  | inserted session =>
    change Counts d (if _ then d else { d with sessions := d.sessions ++ [session] })
    split
    · exact .refl d
    · exact .of_append rfl
  | upserted payload now uuid createdAt =>
    change Counts d { d with sessions := upsertedSessions payload now createdAt d.sessions }
    unfold upsertedSessions
    split
    · have hupdate : Counts d ((update sessionsTable (fun _ s => s.id = payload.sessionId)
        (reregisteredSession payload now)).apply d) := hrow (fun _ => rfl) fun _ => rfl
      exact hupdate
    · exact .of_append rfl
  | resumed => exact hrow (fun _ => rfl) fun _ => get_set_of_ne (by decide)
  | released => exact .of_sessions rfl
  | snapshot => exact hevent _
  | batched => exact hevent _
  | reported => exact hrow (fun _ => rfl) fun _ => rfl
  | blocked => exact hrow (fun _ => rfl) fun _ => rfl
  | asked => exact hevent _
  | enqueued command now =>
    change Counts d (if _ then d else { d with commands := d.commands ++ [command] })
    split
    · exact .refl d
    · exact .of_sessions rfl
  | notified => exact hrow (fun _ => rfl) fun _ => rfl
  | leased => exact .of_sessions rfl
  | delivered => exact .of_sessions rfl
  | answered => exact hrow (fun _ => rfl) fun _ => rfl
  | stopped => exact hrow (fun _ => rfl) fun _ => rfl
  | stale => exact hevent _
  | finished => exact hrow (fun _ => rfl) fun _ => rfl
  | reparented => exact hrow (fun _ => rfl) fun _ => rfl
  | patched sessionId members =>
    refine hrow (fun _ => rfl) fun row => get_foldl_set fun m hm heq => ?_
    exact hop sessionId members rfl m hm heq.symm
  | nextPane =>
    refine .update (fun _ => rfl) fun row => ?_
    rw [counter_nextPane]
    omega
  | event => exact hevent _

/-- What is drawn is durable, and above what was there. -/
theorem paneSequence_run {s : FleetWorld} {id : String} {n : Int}
    (h : paneSequence (s.run (.nextPane id)).db id = some n) :
    paneSequence (s.run (.nextPane id)).durable id = some n ∧ paneSequence s.db id = some (n - 1) := by
  have hfind : ∀ d : Tables, findSession ((update sessionsTable (fun _ s => s.id = id) PiSession.nextPane).apply d)
    id =
      (findSession d id).map PiSession.nextPane := by
    intro d
    have hrows := find?_updateRows_id PiSession.nextPane (fun _ => rfl) d.sessions id id
    rw [if_pos rfl] at hrows
    exact hrows
  have hdb : (s.run (.nextPane id)).db = (update sessionsTable (fun _ s => s.id = id) PiSession.nextPane).apply
    s.db ∧
      (s.run (.nextPane id)).durable = (s.run (.nextPane id)).db := by
    simp only [FleetWorld.run, SessionOp.prog, nextPiSessionPaneSequence, Prog.bind_eq, alone_withLock, alone_bind,
      alone_execute, alone_commit, alone_ite]
    split <;> exact ⟨rfl, rfl⟩
  refine ⟨by rw [hdb.2]; exact h, ?_⟩
  rw [hdb.1, paneSequence_eq, hfind, Option.map_map, Option.map_eq_some_iff] at h
  obtain ⟨row, hrow, rfl⟩ := h
  rw [paneSequence_eq, hrow, Option.map_some, Function.comp_apply, counter_nextPane]
  simp

/-- The database with a record of what it has given out, and to which thread. -/
structure Numbered where
  world : FleetWorld
  draws : List ((String × Int) × ℕ) := []

def drawn : {β : Type} → FleetCall β → β → Option (String × Int)
  | _, .nextPaneSequence id, .ok n => some (id, n)
  | _, _, _ => none

def Numbered.after (s : Numbered) (world : FleetWorld) (t : ℕ) (draw : Option (String × Int)) : Numbered :=
  ⟨world, draw.toList.map (·, t) ++ s.draws⟩

def Modest : (β : Type) → FleetCall β → Prop
  | _, .request op => Requested op
  | _, _ => True

def numberedInterp : Interp FleetCall Numbered FleetAnswer :=
  ⟨fun e t w s => (fleetHandle e t w s.world).map fun y => (s.after y.1 t (drawn e y.2), y.2)⟩

noncomputable def modestInterp : Interp FleetCall Numbered FleetAnswer :=
  numberedInterp.restrict fun β e _ _ => Modest β e

/-- The sequence that a report carries, with its session. -/
def number? : FleetEntry → Option (String × Int)
  | .remote _ id _ command _ => (sequence? command).map (id, ·)
  | _ => none

def numbers (s : FleetWorld) : List (String × Int) := s.log.filterMap number?

/-- What was drawn is durable, above the start and drawn once, and every report used a sequence of its own. -/
structure Consistent (d : Tables) (s : Numbered) : Prop where
  start : Counts d s.world.durable
  counts : Counts s.world.durable s.world.db
  counted : ∀ x ∈ s.draws, ∃ n, paneSequence s.world.durable x.1.1 = some n ∧ x.1.2 ≤ n
  above : ∀ x ∈ s.draws, ∀ n, paneSequence d x.1.1 = some n → n < x.1.2
  once : (s.draws.map Prod.fst).Nodup
  used : ∀ x ∈ numbers s.world, ∃ t, (x, t) ∈ s.draws
  nodup : (numbers s.world).Nodup

/-- The threads for which `p` holds report, each with what it has drawn. -/
structure Reports (p : ℕ → Prop) (s s' : Numbered) : Prop where
  draws : ∀ x ∈ s.draws, x ∈ s'.draws
  numbers : ∀ x ∈ numbers s'.world, x ∈ numbers s.world ∨ ∃ t, p t ∧ (x, t) ∈ s'.draws

def numbering (d : Tables) : Contract FleetCall FleetLock Numbered where
  inv := Consistent d
  fresh _ _ := True
  rely t _ := Reports (· ≠ t)
  guar t _ := Reports (· = t)
  assume _ _ _ := True
  pre _ _ _ _ := True

variable {p q : ℕ → Prop} {t : ℕ} {h : List FleetLock} {s s' s'' : Numbered} {x : String × Int} {α β : Type}

theorem Reports.refl (p : ℕ → Prop) (s : Numbered) : Reports p s s := ⟨fun _ => id, fun _ => .inl⟩

theorem Reports.trans (h : Reports p s s') (h' : Reports p s' s'') : Reports p s s'' where
  draws x hx := h'.draws x (h.draws x hx)
  numbers x hx := by
    rcases h'.numbers x hx with hx | hx
    · rcases h.numbers x hx with hx | ⟨t, ht, hdraw⟩
      · exact .inl hx
      · exact .inr ⟨t, ht, h'.draws _ hdraw⟩
    · exact .inr hx

theorem Reports.mono (hpq : ∀ t, p t → q t) (h : Reports p s s') : Reports q s s' :=
  ⟨h.draws, fun x hx => (h.numbers x hx).imp_right fun ⟨t, ht, hdraw⟩ => ⟨t, hpq t ht, hdraw⟩⟩

theorem numbering_coherent (d : Tables) : (numbering d).Coherent where
  rely_refl _ _ := .refl _
  rely_trans := .trans
  guar_rely hne _ _ _ hm := hm.mono fun x (hx : x = _) => hx ▸ hne
  guar_fresh _ _ _ _ := trivial
  guar_res _ _ _ _ _ := trivial

theorem steady_true (d : Tables) (t : ℕ) : Steady (numbering d) t fun _ => True where
  coherent := numbering_coherent d
  stable _ _ _ _ _ _ := trivial
  unprotected _ _ := trivial
  rely_tail _ _ _ _ hr := hr

/-- The thread has drawn the sequence and not used it yet. -/
structure Holds (t : ℕ) (x : String × Int) (s : Numbered) : Prop where
  drawn : (x, t) ∈ s.draws
  unused : x ∉ numbers s.world

theorem fst_injective_of_once (hs : Consistent d s) {t' : ℕ} (h : (x, t) ∈ s.draws) (h' : (x, t') ∈ s.draws) :
    t = t' := by
  have hinj := List.inj_on_of_nodup_map hs.once h h' rfl
  exact congrArg Prod.snd hinj

/-- What a thread has drawn no other thread uses. -/
theorem Holds.stable (hx : Holds t x s) (hr : Reports (· ≠ t) s s') (hs' : Consistent d s') : Holds t x s' where
  drawn := hr.draws _ hx.drawn
  unused hmem := by
    rcases hr.numbers x hmem with hmem | ⟨t', hne, hdraw⟩
    · exact hx.unused hmem
    · exact hne (fst_injective_of_once hs' (hr.draws _ hx.drawn) hdraw).symm

theorem writes_of_uncounted {s s' : FleetWorld} {op : SessionOp} (hop : Uncounted op)
    (h : s' = s.run op ∨ ∃ n, s' = s.interrupt op n) : Writes Counts s s' := by
  rcases h with rfl | ⟨n, rfl⟩
  · exact writes_run .refl (fun _ _ _ => .trans) (fun _ hst => counts_of_executes hop hst) s
  · exact writes_interrupt .refl (fun _ _ _ => .trans) (fun _ hst => counts_of_executes hop hst) s n

/-- The call patches no counter. -/
def Fair : (β : Type) → FleetCall β → Prop
  | _, .write op => Uncounted op
  | _, _ => True

theorem uncounted_of_op {e : FleetCall β} {op : SessionOp} (he : Fair β e) (hm : Modest β e) (h : e.op? = some op) :
    Uncounted op := by
  cases e with
  | write op' => exact Option.some.inj h ▸ he
  | nextPaneSequence sessionId => exact Option.some.inj h ▸ fun _ _ heq => SessionOp.noConfusion heq
  | request op' => exact Option.some.inj h ▸ uncounted_of_requested hm
  | _ => cases h

/-- Counters do not go back, neither those that are durable nor those that are not. -/
theorem counts_of_handle {e : FleetCall β} {w : FleetAnswer} {s s' : FleetWorld} {b : β} (he : Fair β e)
    (hm : Modest β e)
    (hs : Counts s.durable s.db) (hh : fleetHandle e t w s = some (s', b)) :
    Counts s.durable s'.durable ∧ Counts s'.durable s'.db := by
  rcases tables_of_handle hh with ⟨op, hop, hrun⟩ | ⟨-, hdb, hdurable⟩
  · have hw := writes_of_uncounted (uncounted_of_op he hm hop) hrun
    rcases hw.durable with heq | ⟨hd, hd'⟩
    · rw [heq]
      exact ⟨.refl _, hs.trans hw.db⟩
    · exact ⟨hs.trans hd, hd'⟩
  · rw [hdb, hdurable]
    exact ⟨.refl _, hs⟩

/-- A call that neither draws nor reports. -/
theorem Consistent.idle {world : FleetWorld} (hs : Consistent d s) (hc : Counts s.world.durable world.durable)
    (hc' : Counts world.durable world.db) (hn : numbers world = numbers s.world) :
    Consistent d ⟨world, s.draws⟩ where
  start := hs.start.trans hc
  counts := hc'
  counted x hx := by
    obtain ⟨n, hn, hle⟩ := hs.counted x hx
    obtain ⟨n', hn', hle'⟩ := hc _ n hn
    exact ⟨n', hn', Int.le_trans hle hle'⟩
  above := hs.above
  once := hs.once
  used x hx := hs.used x (hn ▸ hx)
  nodup := by
    rw [hn]
    exact hs.nodup

/-- A report with a sequence that the thread holds. -/
theorem Consistent.report {world : FleetWorld} (hs : Consistent d s) (hx : Holds t x s)
    (hc : Counts s.world.durable world.durable) (hc' : Counts world.durable world.db)
    (hn : numbers world = numbers s.world ++ [x]) : Consistent d ⟨world, s.draws⟩ where
  start := hs.start.trans hc
  counts := hc'
  counted x hx := by
    obtain ⟨n, hn, hle⟩ := hs.counted x hx
    obtain ⟨n', hn', hle'⟩ := hc _ n hn
    exact ⟨n', hn', Int.le_trans hle hle'⟩
  above := hs.above
  once := hs.once
  used y hy := by
    rw [hn] at hy
    rcases List.mem_append.mp hy with hy | hy
    · exact hs.used y hy
    · exact ⟨t, List.mem_singleton.mp hy ▸ hx.drawn⟩
  nodup := by
    rw [hn]
    refine hs.nodup.append (List.nodup_singleton x) fun y hy hy' => ?_
    exact hx.unused (List.mem_singleton.mp hy' ▸ hy)

/-- A draw gives out what was never given out before. -/
theorem Consistent.draw {world : FleetWorld} {id : String} {n : Int} (hs : Consistent d s)
    (hc : Counts s.world.durable world.durable) (hc' : Counts world.durable world.db)
    (hn : numbers world = numbers s.world) (hnew : paneSequence world.durable id = some n)
    (hold : paneSequence s.world.db id = some (n - 1)) :
    Consistent d ⟨world, ((id, n), t) :: s.draws⟩ ∧ Holds t (id, n) ⟨world, ((id, n), t) :: s.draws⟩ := by
  have hidle := hs.idle hc hc' hn
  have hbelow : ∀ x ∈ s.draws, x.1.1 = id → x.1.2 < n := by
    intro x hx hid
    obtain ⟨m, hm, hle⟩ := hs.counted x hx
    obtain ⟨m', hm', hle'⟩ := hs.counts _ m hm
    rw [hid, hold] at hm'
    have heq : n - 1 = m' := Option.some.inj hm'
    omega
  have hfresh : (id, n) ∉ s.draws.map Prod.fst := by
    intro hmem
    obtain ⟨x, hx, heq⟩ := List.mem_map.mp hmem
    have hlt := hbelow x hx (by rw [heq])
    rw [heq] at hlt
    exact Int.lt_irrefl n hlt
  refine ⟨⟨hidle.start, hc', ?_, ?_, List.nodup_cons.mpr ⟨hfresh, hs.once⟩, ?_, hidle.nodup⟩,
    List.mem_cons_self .., ?_⟩
  · intro x hx
    rcases List.mem_cons.mp hx with rfl | hx
    · exact ⟨n, hnew, Int.le_refl n⟩
    · exact hidle.counted x hx
  · intro x hx m hm
    rcases List.mem_cons.mp hx with rfl | hx
    · obtain ⟨m', hm', hle⟩ := hs.start _ m hm
      obtain ⟨m'', hm'', hle'⟩ := hs.counts _ m' hm'
      rw [hold] at hm''
      have heq : n - 1 = m'' := Option.some.inj hm''
      show m < n
      omega
    · exact hs.above x hx m hm
  · intro x hx
    obtain ⟨t', ht'⟩ := hidle.used x hx
    exact ⟨t', List.mem_cons_of_mem _ ht'⟩
  · intro hmem
    obtain ⟨t', ht'⟩ := hidle.used _ hmem
    exact hfresh (List.mem_map.mpr ⟨_, ht', rfl⟩)

theorem modest_cases {e : FleetCall β} {w : FleetAnswer} {b : β} (hh : modestInterp.handle e t w s = some (s', b)) :
    Modest β e ∧ ∃ world, fleetHandle e t w s.world = some (world, b) ∧ s' = s.after world t (drawn e b) := by
  obtain ⟨hm, hh⟩ := Interp.restrict_handle hh
  obtain ⟨⟨world, b'⟩, hworld, heq⟩ := Option.map_eq_some_iff.mp hh
  cases heq
  exact ⟨hm, world, hworld, rfl⟩

/-- What a call adds to the reports is its own. -/
theorem numbers_of_handle {e : FleetCall β} {w : FleetAnswer} {s s' : FleetWorld} {b : β}
    (hh : fleetHandle e t w s = some (s', b)) : ∃ xs, numbers s' = numbers s ++ xs ∧
      ∀ x ∈ xs, ∃ machine command, command? e = some (x.1, machine, command) ∧ sequence? command = some x.2 := by
  obtain ⟨es, hlog, hes⟩ := log_of_handle hh
  refine ⟨es.filterMap number?, by rw [numbers, hlog, List.filterMap_append, numbers], fun x hx => ?_⟩
  obtain ⟨y, hy, hnumber⟩ := List.mem_filterMap.mp hx
  cases y with
  | remote t' id machine command ack =>
    obtain ⟨n, hn, rfl⟩ := Option.map_eq_some_iff.mp hnumber
    exact ⟨machine, command, (hes _ hy).2 _ _ _ _ _ rfl, hn⟩
  | _ => cases hnumber

structure Idle (e : FleetCall β) : Prop where
  fair : Fair β e
  draws : ∀ b, drawn e b = none
  reports : ∀ id machine command, command? e = some (id, machine, command) → sequence? command = none

theorem idle_of_routine {e : FleetCall β} (he : Routine β e) : Idle e := by
  cases e with
  | remote id machine command =>
    refine ⟨trivial, fun _ => rfl, fun id' machine' command' heq => ?_⟩
    cases heq
    cases command with
    | reportAgent => exact he.elim
    | releaseAgent => exact he.elim
    | _ => rfl
  | nextPaneSequence sessionId => exact he.elim
  | write op =>
    exact ⟨fun id members heq => absurd heq (he id members), fun _ => rfl, fun _ _ _ heq => by cases heq⟩
  | _ => exact ⟨trivial, fun _ => rfl, fun _ _ _ heq => by cases heq⟩

abbrev Counted (d : Tables) (t : ℕ) (p : FleetM α) : Prop := Upholds modestInterp (numbering d) t (fun _ => True) p

theorem counted_call {e : FleetCall α} (he : Idle e) : Counted d t (Prog.call e) := by
  refine (steady_true d t).call fun h s hs _ _ => ⟨trivial, fun w s' b hh => ?_⟩
  obtain ⟨hm, world, hworld, rfl⟩ := modest_cases hh
  obtain ⟨hc, hc'⟩ := counts_of_handle he.fair hm hs.counts hworld
  obtain ⟨xs, hxs, hown⟩ := numbers_of_handle hworld
  have hnone : xs = [] := by
    rw [List.eq_nil_iff_forall_not_mem]
    intro x hx
    obtain ⟨machine, command, hcommand, hsequence⟩ := hown x hx
    rw [he.reports _ _ _ hcommand] at hsequence
    cases hsequence
  rw [hnone, List.append_nil] at hxs
  rw [he.draws b]
  exact ⟨⟨fun _ => id, fun x hx => .inl (hxs ▸ hx)⟩, hs.idle hc hc' hxs, trivial⟩

/-- A report with a sequence that the thread holds. -/
theorem safe_report {id machine : String} {n : Int} {command : RemoteCommand}
    {k : Except FleetError Unit → FleetM α}
    (hcommand : sequence? command = some n) (hk : ∀ r, Counted d t (k r)) (hx : Holds t (id, n) s) :
    Safe modestInterp (numbering d) t (fun _ h' _ => h' = h ∧ True)
      ((Prog.call (.remote id machine command) : FleetM (Except FleetError Unit)).bind k) h s := by
  intro s₁ hr₁ hs₁ _
  refine ⟨trivial, fun w s₂ r hh => ?_⟩
  obtain ⟨hm, world, hworld, rfl⟩ := modest_cases hh
  have hfair : Fair _ (FleetCall.remote id machine command) := trivial
  obtain ⟨hc, hc'⟩ := counts_of_handle hfair hm hs₁.counts hworld
  have hrecorded : ∀ ack, numbers (s₁.world.record (.remote t id machine command ack)) =
    numbers s₁.world ++ [(id, n)] := by
    intro ack
    simp [numbers, FleetWorld.record, List.filterMap_append, number?, hcommand]
  have hnumbers : numbers world = numbers s₁.world ++ [(id, n)] := by
    cases w with
    | done =>
      cases hworld
      exact hrecorded true
    | fails e m =>
      cases hworld
      exact hrecorded false
    | _ => cases hworld
  have hx₁ := hx.stable hr₁ hs₁
  refine ⟨⟨fun _ hmem => hmem, fun x hmem => ?_⟩, hs₁.report hx₁ hc hc' hnumbers, hk r h _ trivial⟩
  have hmem' : x ∈ numbers s₁.world ++ [(id, n)] := hnumbers ▸ hmem
  rcases List.mem_append.mp hmem' with hmem | hmem
  · exact .inl hmem
  · exact .inr ⟨t, rfl, List.mem_singleton.mp hmem ▸ hx₁.drawn⟩

/-- A coroutine goes on with the sequence that it draws. -/
theorem counted_nextSequence (session : PiSession) {f : Int → FleetM α} (hf : ∀ n h s, Holds t (session.id, n) s →
    Safe modestInterp (numbering d) t (fun _ h' _ => h' = h ∧ True) (f n) h s) :
    Counted d t ((nextSequence session).bind f) := by
  intro h s _ s₁ hr₁ hs₁ _
  refine ⟨trivial, fun w s₂ r hh => ?_⟩
  obtain ⟨hm, world, hworld, rfl⟩ := modest_cases hh
  have hfair : Fair _ (FleetCall.nextPaneSequence session.id) := trivial
  obtain ⟨hc, hc'⟩ := counts_of_handle hfair hm hs₁.counts hworld
  have hlog : numbers world = numbers s₁.world := by
    obtain ⟨xs, hxs, hown⟩ := numbers_of_handle hworld
    have hnone : xs = [] := by
      rw [List.eq_nil_iff_forall_not_mem]
      intro x hx
      obtain ⟨_, _, hnone, -⟩ := hown x hx
      cases hnone
    rw [hxs, hnone, List.append_nil]
  cases r with
  | error e =>
    refine ⟨⟨fun _ => id, fun x hx => .inl (hlog ▸ hx)⟩, hs₁.idle hc hc' hlog, ?_⟩
    exact (steady_true d t).raise e h _ trivial
  | ok n =>
    have hdrawn : paneSequence world.durable session.id = some n ∧
      paneSequence s₁.world.db session.id = some (n - 1) := by
      cases w with
      | done =>
        simp only [fleetHandle, Option.some.injEq, Prod.mk.injEq] at hworld
        obtain ⟨rfl, hresult⟩ := hworld
        split at hresult
        · next m hm =>
          cases hresult
          exact paneSequence_run hm
        · cases hresult
      | _ => cases hworld
    obtain ⟨hs₂, hx₂⟩ := hs₁.draw (t := t) hc hc' hlog hdrawn.1 hdrawn.2
    exact ⟨⟨fun _ hx => List.mem_cons_of_mem _ hx, fun x hx => .inl (hlog ▸ hx)⟩, hs₂, hf n h _ hx₂⟩

/-- Every sequence is drawn for one report at most. -/
theorem walk_counted (d : Tables) (t : ℕ) : Walk modestInterp (numbering d) t fun _ => True where
  steady := steady_true d t
  routine _ he := counted_call (idle_of_routine he)
  sequenced session _ _ _ hcommand hk := counted_nextSequence session fun n _ _ hx => safe_report (hcommand n) hk hx
  unreported session _ hp := counted_nextSequence session fun _ h s _ => hp h s trivial

theorem counted_createWorktree (id : String) (machine : Machine) (repo branch base : String) (attempts : List ℕ) :
    Counted d t (createWorktree id machine repo branch base attempts) := by
  have hw := walk_counted d t
  induction attempts with
  | nil => exact upholds_raise hw _
  | cons attempt attempts ih =>
    have hadd : ∀ command, sequence? command = none → Idle (FleetCall.remote id machine.name command) :=
      fun command hnone => ⟨trivial, fun _ => rfl, fun _ _ _ heq => by cases heq; exact hnone⟩
    refine upholds_bind hw
      (Steady.attempt (hw.steady.bind (counted_call (hadd _ rfl)) hw.steady.ofExcept)) fun result => ?_
    cases result with
    | ok u => exact upholds_ret hw _
    | error e =>
      cases e with
      | shimError message => exact ih
      | _ => exact upholds_raise hw _

theorem counted_operation {cfg : FleetConfig} {p : FleetM Unit} (hp : Operation cfg p) : Counted d t p :=
  upholds_operation (walk_counted d t) (fun launching => upholds_launch (walk_counted d t) launching
    fun _ _ token _ _ => upholds_launchTaskIn (walk_counted d t) (counted_createWorktree _ _ _ _ _ _) token) hp

/-- Operations start at any time, and awaits answer anything. -/
def Serves (cfg : FleetConfig) : FleetPool → FleetEvent → Prop
  | _, .spawn p => Operation cfg p
  | c, .go t _ => ∀ (β : Type) (e : FleetCall β) (k : β → FleetM Unit) (held : List FleetLock),
      c.threads[t]? = some ⟨.perform e k, held⟩ → Modest β e
  | _, _ => False

variable {cfg : FleetConfig}

theorem consistent_of_reachable {c : FleetPool}
    (hc : Pool.Reachable fleetInterp (Serves cfg) { db := d, durable := d } c) :
    ∃ draws, Consistent d ⟨c.state, draws⟩ := by
  have hfollows : ∀ (β : Type) (e : FleetCall β) t w (s : Numbered) r b,
      fleetInterp.handle e t w (Numbered.world s) = some (r, b) →
        ∃ s', numberedInterp.handle e t w s = some (s', b) ∧ Numbered.world s' = r := by
    intro β e t w s r b hh
    exact ⟨s.after r t (drawn e b),
      by simp only [numberedInterp, show fleetHandle e t w s.world = some (r, b) from hh,
      Option.map_some], rfl⟩
  have hinit : Consistent d ⟨{ db := d, durable := d }, []⟩ :=
    ⟨.refl d, .refl d, fun _ hx => absurd hx List.not_mem_nil, fun _ hx => absurd hx List.not_mem_nil,
      List.nodup_nil,
      fun _ hx => absurd hx List.not_mem_nil, List.nodup_nil⟩
  have hshown : Pool.Reachable fleetInterp (Serves cfg) (Numbered.world ⟨{ db := d, durable := d }, []⟩) c := hc
  obtain ⟨c', hc', rfl⟩ := hshown.exists_view (f := Numbered.world) hfollows
  have hmodest : Pool.Reachable modestInterp (fun c ev => Serves cfg (c.view Numbered.world) ev)
      ⟨{ db := d, durable := d }, []⟩ c' :=
    hc'.restrict (fun _ _ => id) fun c t w β e k held hok ht => hok β e k held ht
  have hsound : Pool.Sound modestInterp (numbering d) (fun _ _ _ _ => True) c' := by
    refine hmodest.sound (numbering_coherent d) hinit (fun _ => trivial) (fun _ => trivial) ?_
      (fun _ _ _ _ _ _ _ _ _ => trivial) (fun _ _ _ hok => hok.elim) (fun _ _ hok => hok.elim) fun _ _ _ => trivial
    exact fun c p hp t s hs _ => Safe.mono (fun _ _ _ _ _ => trivial) (counted_operation hp [] s trivial)
  exact ⟨c'.state.draws, hsound.inv⟩

/-- The reports of a service that is stopped and started again any number of times, at any moments. -/
inductive Lives (cfg : FleetConfig) (d : Tables) : List (String × Int) → Tables → Prop where
  | start : Lives cfg d [] d
  | next {xs : List (String × Int)} {d' : Tables} {c : FleetPool} : Lives cfg d xs d' →
      Pool.Reachable fleetInterp (Serves cfg) { db := d', durable := d' } c →
      Lives cfg d (xs ++ numbers c.state) c.state.durable

/-- No two reports about a session carry one sequence, and the counter that survives is not behind any of them. -/
theorem sequences_once {xs : List (String × Int)} (hl : Lives cfg d xs d') : xs.Nodup ∧
    ∀ x ∈ xs, (∃ n, paneSequence d' x.1 = some n ∧ x.2 ≤ n) ∧ ∀ n, paneSequence d x.1 = some n → n < x.2 := by
  have hall : Counts d d' ∧ xs.Nodup ∧ ∀ x ∈ xs, (∃ n, paneSequence d' x.1 = some n ∧ x.2 ≤ n) ∧
      ∀ n, paneSequence d x.1 = some n → n < x.2 := by
    induction hl with
    | start => exact ⟨.refl d, List.nodup_nil, fun _ hx => absurd hx List.not_mem_nil⟩
    | @next xs d' c _ hc ih =>
      obtain ⟨hcounts, hnodup, hbounds⟩ := ih
      obtain ⟨draws, hs⟩ := consistent_of_reachable hc
      have hstart := hs.start
      refine ⟨hcounts.trans hstart, hnodup.append hs.nodup fun x hx hx' => ?_, fun x hx => ?_⟩
      · -- What was used before is behind the counter with which the service started again.
        obtain ⟨n, hn, hle⟩ := (hbounds x hx).1
        obtain ⟨t, ht⟩ := hs.used x hx'
        have hlt : n < x.2 := hs.above _ ht n hn
        omega
      · rcases List.mem_append.mp hx with hx | hx
        · obtain ⟨⟨n, hn, hle⟩, hstart'⟩ := hbounds x hx
          obtain ⟨n', hn', hle'⟩ := hstart _ n hn
          exact ⟨⟨n', hn', Int.le_trans hle hle'⟩, hstart'⟩
        · obtain ⟨t, ht⟩ := hs.used x hx
          refine ⟨hs.counted _ ht, fun n hn => ?_⟩
          obtain ⟨n', hn', hle⟩ := hcounts _ n hn
          have hlt : n' < x.2 := hs.above _ ht n' hn'
          omega
  exact hall.2

/-- The test of a schedule: no requests. -/
def modestCall : {β : Type} → FleetCall β → Bool
  | _, .request _ => false
  | _, _ => true

def modest (c : FleetPool) : FleetEvent → Bool
  | .go t _ => match c.threads[t]? with
    | some ⟨.perform e _, _⟩ => modestCall e
    | _ => true
  | _ => true

theorem serves_of_modest {c : FleetPool} {w : FleetAnswer} (h : modest c (.go t w) = true) :
    Serves cfg c (.go t w) := by
  intro β e k held ht
  simp only [modest, ht] at h
  cases e with
  | request op => cases h
  | _ => trivial

def atWork (sequence : List (String × JsonValue)) : Tables :=
  { sessions := [{ id := "s", role := "orchestrator", state := .working, host := "desktop",
                   metaData := [("machine", .str "desktop"), ("pane_id", .str "pane")] ++ sequence }] }

def polls (t : ℕ) : List FleetEvent := [FleetAnswer.number 1, .done, .done, .done, .done].map (.go t ·)

/-- Two polls draw one after the other and report in the other order, one of them in vain. -/
def overtaken : List FleetEvent :=
  [.spawn (poll soloFleet), .spawn (poll soloFleet)] ++ polls 0 ++ polls 1 ++
    [.go 1 .done, .go 0 (.fails (.laneTimeout "") 0)]

def polledOnce : List FleetEvent := .spawn (poll soloFleet) :: polls 0 ++ [.go 0 .done]

theorem serves_schedule {c c' : FleetPool} {evs : List FleetEvent}
    (hevs : ∀ ev ∈ evs, ev = .spawn (poll soloFleet) ∨ ∃ t w, ev = .go t w)
    (h : c.checkedRun fleetInterp modest evs = some c')
    (hc : Pool.Reachable fleetInterp (Serves soloFleet) { db := d, durable := d } c) :
    Pool.Reachable fleetInterp (Serves soloFleet) { db := d, durable := d } c' := by
  refine hc.checkedRun (fun c ev hev htest => ?_) h
  rcases hevs ev hev with rfl | ⟨t, w, rfl⟩
  · exact .caller .poll
  · exact serves_of_modest htest

theorem sequences_once_overtaken : [("s", (2 : Int)), ("s", 1), ("s", 3)].Nodup ∧ ∃ d n,
    Lives soloFleet (atWork []) [("s", 2), ("s", 1), ("s", 3)] d ∧ paneSequence d "s" = some n ∧ 3 ≤ n := by
  have hfirst : (Pool.checkedRun fleetInterp modest ⟨{ db := atWork [], durable := atWork [] }, []⟩ overtaken).map
      (fun c => (numbers c.state, c.state.durable)) =
        some ([("s", 2), ("s", 1)], atWork [("pane_sequence", .num 2)]) := by decide +kernel
  have hsecond : (Pool.checkedRun fleetInterp modest
      ⟨{ db := atWork [("pane_sequence", .num 2)], durable := atWork [("pane_sequence", .num 2)] }, []⟩
      polledOnce).map
        (fun c => numbers c.state) = some [("s", 3)] := by decide +kernel
  obtain ⟨c₁, hc₁, hobs₁⟩ := Option.map_eq_some_iff.mp hfirst
  obtain ⟨c₂, hc₂, hobs₂⟩ := Option.map_eq_some_iff.mp hsecond
  simp only [Prod.mk.injEq] at hobs₁
  have hpolls : ∀ t, ∀ ev ∈ polls t, ∃ t' w, ev = .go t' w := fun t ev hev => by
    obtain ⟨w, -, rfl⟩ := List.mem_map.mp hev
    exact ⟨t, w, rfl⟩
  have hlife₁ := Lives.next .start (serves_schedule (fun ev hev => ?_) hc₁ .init)
  · rw [hobs₁.1, hobs₁.2] at hlife₁
    have hlife₂ := Lives.next hlife₁ (serves_schedule (fun ev hev => ?_) hc₂ .init)
    · rw [hobs₂] at hlife₂
      have h := sequences_once hlife₂
      obtain ⟨⟨n, hn, hle⟩, -⟩ := h.2 ("s", 3) (by simp)
      exact ⟨h.1, _, n, hlife₂, hn, hle⟩
    · rcases List.mem_cons.mp hev with rfl | hev
      · exact .inl rfl
      · rcases List.mem_append.mp hev with hev | hev
        · exact .inr (hpolls 0 ev hev)
        · exact .inr ⟨_, _, List.mem_singleton.mp hev⟩
  · simp only [overtaken, List.mem_append, List.mem_cons, List.not_mem_nil, or_false] at hev
    rcases hev with ((hev | hev) | hev) | hev | hev
    · exact .inl (hev.elim id id)
    · exact .inr (hpolls 0 ev hev)
    · exact .inr (hpolls 1 ev hev)
    · exact .inr ⟨_, _, hev⟩
    · exact .inr ⟨_, _, hev⟩

end WorkerHarness.PaneSequences
