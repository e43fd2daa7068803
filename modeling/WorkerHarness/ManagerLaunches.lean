import WorkerHarness.LaunchedSessions

/-!
# What launches and re-parentings keep

A launched manager is the only live one of its project because nobody else was live when its
launcher took the lock. Until it has been returned it is still hatching: its tasks are being taken
over from its predecessors one by one. A launched task has the only live manager as its parent.
-/

namespace WorkerHarness.ManagerLaunches

open Coroutines SharedTransactions Database SessionStatements LiveSessions ManagerRows ManagerLocks
open LaunchedSessions Orchestrator OrchestratorCalls

variable {strict : Prop} {t : ℕ} {h : List FleetLock} {l : FleetLock} {project : String} {s s' : FleetWorld}
  {d d' : Tables} {row : PiSession}

def heads (d : Tables) : FleetLock → List PiSession
  | .orchestrator => sessionsByRole d "orchestrator"
  | .pm project => projectSessions d project

theorem mem_heads {m : PiSession} : m ∈ heads d l ↔ m ∈ d.sessions ∧ leads l m := by
  cases l with
  | orchestrator => exact mem_sessionsByRole
  | pm project => simp [heads, projectSessions, mem_sessionsByRole, leads, and_assoc]

theorem not_live_of_firstLive (hnone : firstLive (heads d l) = none) : ∀ m ∈ d.sessions, leads l m → ¬live m := by
  intro m hm hl hlive
  have hended := List.find?_eq_none.mp hnone m (mem_heads.mpr ⟨hm, hl⟩)
  rw [live] at hlive
  simp [hlive] at hended

/-- No session leads what the lock guards, and the tasks have one of `parents`. -/
structure Vacant (strict : Prop) (l : FleetLock) (parents : List String) (s : FleetWorld) : Prop where
  vacant : ∀ m ∈ s.db.sessions, leads l m → ¬live m
  remaining : strict → ∀ project, l = .pm project →
    Remaining project parents s.db ∧ Remaining project parents s.durable

/-- The thread launches the head of what the lock guards under the id `sid`, or has launched it and
takes the tasks over from `parents`. -/
structure Launching (strict : Prop) (t : ℕ) (l : FleetLock) (parents : List String) (sid : String)
    (s : FleetWorld) :
    Prop where
  mine : (sid, t) ∈ s.ids
  leader : ∀ m ∈ s.db.sessions, leads l m → live m → m.id = sid
  hatching : strict → ∀ project, l = .pm project → ¬Ensured s project sid
  remaining : strict → ∀ project, l = .pm project →
    Remaining project (sid :: parents) s.db ∧ Remaining project (sid :: parents) s.durable

variable {parents : List String} {sid : String}

theorem Remaining.cons (hr : Remaining project parents d) (id : String) : Remaining project (id :: parents) d := by
  intro r hr' hw hlive
  obtain ⟨p, hp, hparent⟩ := hr r hr' hw hlive
  exact ⟨p, List.mem_cons_of_mem id hp, hparent⟩

theorem stable_vacant (hl : l ∈ h) : Stable strict t h (Vacant strict l parents) := by
  intro s s' hs hrely
  have hheld := hrely.2 l hl
  refine ⟨fun m' hm' hlead hlive => ?_, fun hstrict project hp => ?_⟩
  · obtain ⟨m, hm, hc⟩ := hheld.unmoved m' hm' (guards_of_leads hlead)
    exact hs.vacant m hm ((leads_congr hc.role hc.project).mp hlead) (hc.live hlive)
  · subst hp
    obtain ⟨hdb, hdurable⟩ := hs.remaining hstrict project rfl
    exact ⟨hdb.unmoved hheld.unmoved, hdb.held hheld hdurable⟩

theorem stable_launching (hl : l ∈ h) : Stable strict t h (Launching strict t l parents sid) := by
  intro s s' hs hrely
  have hheld := hrely.2 l hl
  refine ⟨hrely.1.ids _ hs.mine, fun m' hm' hlead hlive => ?_, fun hstrict project hp he => ?_,
    fun hstrict project hp => ?_⟩
  · obtain ⟨m, hm, hc⟩ := hheld.unmoved m' hm' (guards_of_leads hlead)
    exact hc.id.trans (hs.leader m hm ((leads_congr hc.role hc.project).mp hlead) (hc.live hlive))
  · exact hs.hatching hstrict project hp (hheld.ensured project sid hp he)
  · subst hp
    obtain ⟨hdb, hdurable⟩ := hs.remaining hstrict project rfl
    exact ⟨hdb.unmoved hheld.unmoved, hdb.held hheld hdurable⟩

theorem launching_of_vacant (hs : Vacant strict l parents s) (hid : Drawn strict t sid s) :
    Launching strict t l parents sid s where
  mine := hid.mine
  leader m hm hlead hlive := absurd hlive (hs.vacant m hm hlead)
  hatching hstrict project _ := hid.hatching hstrict project
  remaining hstrict project hp := by
    obtain ⟨hdb, hdurable⟩ := hs.remaining hstrict project hp
    exact ⟨Remaining.cons hdb sid, Remaining.cons hdurable sid⟩

theorem Remaining.mayAdd (hadd : MayAdd row d d') (hn : ¬worksFor project row) (hr : Remaining project parents d) :
    Remaining project parents d' := by
  intro r hr' hw hlive
  rcases hadd.mem hr' with hr' | ⟨rfl, -⟩
  · exact hr r hr' hw hlive
  · exact absurd hw hn

theorem not_worksFor_of_head (hl : leads l row) : ¬worksFor project row := by
  rintro ⟨hrole, -⟩
  cases l with
  | orchestrator =>
    have : "orchestrator" = "task" := Eq.trans (Eq.symm hl) hrole
    revert this
    decide
  | pm project =>
    have : "pm" = "task" := hl.1.symm.trans hrole
    revert this
    decide

/-- The launch inserts a head of what the lock guards. -/
theorem permits_launching {launching : Launch} (hl : l ∈ h)
    (hhead : ∀ sid row, Launched launching sid row → leads l row) :
    Permits strict t h launching (Launching strict t l parents) where
  stable _ := stable_launching hl
  insert {sid row s s'} hi hs hrow hins := by
    have hlead : leads l row := hhead sid row hrow
    have hnone : (∀ r ∈ s.db.sessions, r.id ≠ row.id) → ∀ m ∈ s.db.sessions, leads l m → ¬live m :=
      fun hnew m hm hl' hlive => hnew m hm ((hs.leader m hm hl' hlive).trans hrow.id.symm)
    refine ⟨guar_of_inserts hins (guards_of_leads hlead) hl, inv_of_inserts hins hi ?_ ?_ ?_, ?_⟩
    · intro hnew l' hl' m hm hm'
      rw [← guards_unique (guards_of_leads hlead) (guards_of_leads hl')] at hm'
      exact hnone hnew m hm hm'
    · intro hstrict project hl'
      have hp : l = .pm project := guards_unique (guards_of_leads hlead) (guards_of_leads hl')
      rw [hrow.id]
      exact ⟨⟨t, hs.mine⟩, hs.hatching hstrict project hp⟩
    · exact fun project hw => absurd hw (not_worksFor_of_head hlead)
    · refine ⟨hins.ids ▸ hs.mine, fun m hm hl' hlive => ?_, fun hstrict project hp he => ?_,
        fun hstrict project hp => ?_⟩
      · rcases hins.db.mem hm with hm | ⟨rfl, -⟩
        · exact hs.leader m hm hl' hlive
        · exact hrow.id
      · exact hs.hatching hstrict project hp ((hins.ensured project sid).mp he)
      · obtain ⟨hdb, hdurable⟩ := hs.remaining hstrict project hp
        have hn : ¬worksFor project row := not_worksFor_of_head hlead
        exact ⟨Remaining.mayAdd hins.db hn hdb,
          hins.durable_of hdurable fun _ hd => Remaining.mayAdd hd hn hdb⟩

structure HasManager (strict : Prop) (project parent : String) (s : FleetWorld) : Prop where
  manager : ∃ m ∈ s.db.sessions, leads (.pm project) m ∧ m.id = parent
  leader : ∀ m ∈ s.db.sessions, leads (.pm project) m → live m → m.id = parent
  hatched : strict → NoneHatching project s

variable {parent : String}

theorem stable_hasManager (hl : .pm project ∈ h) : Stable strict t h (HasManager strict project parent) := by
  intro s s' hs hrely
  have hheld := hrely.2 _ hl
  refine ⟨?_, fun m' hm' hlead hlive => ?_, fun hstrict => (hs.hatched hstrict).held hrely.1 hheld⟩
  · obtain ⟨m, hm, hlead, hid⟩ := hs.manager
    obtain ⟨m', hm', hid', hrole, hproject⟩ := hrely.1.persists m hm
    exact ⟨m', hm', (leads_congr hrole hproject).mpr hlead, hid'.trans hid⟩
  · obtain ⟨m, hm, hc⟩ := hheld.unmoved m' hm' (guards_of_leads hlead)
    exact hc.id.trans (hs.leader m hm ((leads_congr hc.role hc.project).mp hlead) (hc.live hlive))

theorem not_leads_of_task {launching : Launch} (hrole : launching.role = .task)
    (hrow : Launched launching sid row) :
    ¬leads l row := by
  intro hl
  have hworks : worksFor launching.projectName row :=
    ⟨by rw [hrow.role, hrole]; rfl, hrow.project (by simp [hrole])⟩
  exact not_worksFor_of_head hl hworks

theorem permits_task {launching : Launch} (hl : .pm project ∈ h) (hrole : launching.role = .task)
    (hproject : launching.projectName = project) (hparent : launching.parentSessionId = some parent) :
    Permits strict t h launching fun _ => HasManager strict project parent where
  stable _ := stable_hasManager hl
  insert {sid row s s'} hi hs hrow hins := by
    have hworks : worksFor project row :=
      ⟨by rw [hrow.role, hrole]; rfl, hproject ▸ hrow.project (by simp [hrole])⟩
    have hpid : row.parentSessionId = some parent := (hrow.parent hrole).trans hparent
    have hnot : ∀ l, ¬leads l row := fun l => not_leads_of_task hrole hrow
    refine ⟨guar_of_inserts hins (l := .pm project) (.inr hworks) hl, inv_of_inserts hins hi ?_ ?_ ?_, ?_, ?_, ?_⟩
    · exact fun _ l hl' => absurd hl' (hnot l)
    · exact fun _ project' hl' => absurd hl' (hnot _)
    · intro project' hw
      have hsame : project' = project := by
        have heq := hw.2.symm.trans hworks.2
        simpa using heq
      subst hsame
      obtain ⟨m, hm, hlead, hid⟩ := hs.manager
      exact ⟨⟨m, hm, hlead, hid ▸ hpid⟩, fun m hm hlead hlive => (hs.leader m hm hlead hlive) ▸ hpid⟩
    · obtain ⟨m, hm, hlead, hid⟩ := hs.manager
      exact ⟨m, hins.db.subset hm, hlead, hid⟩
    · intro m hm hlead hlive
      rcases hins.db.mem hm with hm | ⟨rfl, -⟩
      · exact hs.leader m hm hlead hlive
      · exact absurd hlead (hnot _)
    · intro hstrict m hm hlead hlive
      rw [hins.hatching]
      rcases hins.db.mem hm with hm | ⟨rfl, -⟩
      · exact hs.hatched hstrict m hm hlead hlive
      · exact absurd hlead (hnot _)

structure Leads (project new : String) (d : Tables) : Prop where
  nodup : (d.sessions.map (·.id)).Nodup
  leader : ∃ m ∈ d.sessions, leads (.pm project) m ∧ m.id = new

def Moves (project new : String) (d d' : Tables) : Prop :=
  ∃ f, d'.sessions = d.sessions.map f ∧
    ∀ r ∈ d.sessions, f r = r ∨ worksFor project r ∧ f r = { r with parentSessionId := some new }

variable {new old : String}

theorem Moves.trans {d'' : Tables} (hm : Moves project new d d') (hm' : Moves project new d' d'') :
    Moves project new d d'' := by
  obtain ⟨f, hd, hf⟩ := hm
  obtain ⟨f', hd', hf'⟩ := hm'
  refine ⟨f' ∘ f, by rw [hd', hd, List.map_map], fun r hr => ?_⟩
  have hfr := hf' (f r) (hd ▸ List.mem_map_of_mem hr)
  rcases hf r hr with heq | ⟨hw, heq⟩
  · rw [heq] at hfr
    simpa [heq] using hfr
  · refine .inr ⟨hw, ?_⟩
    rcases hfr with hfr | ⟨-, hfr⟩
    · rw [Function.comp, hfr, heq]
    · rw [Function.comp, hfr, heq]

theorem Moves.mem (hm : Moves project new d d') {r' : PiSession} (hr' : r' ∈ d'.sessions) :
    r' ∈ d.sessions ∨ ∃ r ∈ d.sessions, worksFor project r ∧ r' = { r with parentSessionId := some new } := by
  obtain ⟨f, hd, hf⟩ := hm
  rw [hd] at hr'
  obtain ⟨r, hr, rfl⟩ := List.mem_map.mp hr'
  rcases hf r hr with heq | ⟨hw, heq⟩
  · exact .inl (heq.symm ▸ hr)
  · exact .inr ⟨r, hr, hw, heq⟩

theorem Moves.persists (hm : Moves project new d d') : Persists d d' := by
  obtain ⟨f, hd, hf⟩ := hm
  intro r hr
  refine ⟨f r, hd ▸ List.mem_map_of_mem hr, ?_⟩
  rcases hf r hr with heq | ⟨-, heq⟩ <;> simp [heq, PiSession.project]

theorem Moves.nodup (hm : Moves project new d d') (hn : (d.sessions.map (·.id)).Nodup) :
    (d'.sessions.map (·.id)).Nodup := by
  obtain ⟨f, hd, hf⟩ := hm
  have hids : (d.sessions.map f).map (·.id) = d.sessions.map (·.id) := by
    rw [List.map_map]
    refine List.map_congr_left fun r hr => ?_
    rcases hf r hr with heq | ⟨-, heq⟩ <;> simp [heq]
  rw [hd, hids]
  exact hn

theorem Moves.head (hm : Moves project new d d') {m : PiSession} (hm' : m ∈ d'.sessions) (hl : leads l m) :
    m ∈ d.sessions := by
  rcases hm.mem hm' with hm' | ⟨r, -, hw, rfl⟩
  · exact hm'
  · exact absurd (show worksFor project { r with parentSessionId := some new } from hw) (not_worksFor_of_head hl)

theorem Moves.keeps (hm : Moves project new d d') {m : PiSession} (hm' : m ∈ d.sessions) (hl : leads l m) :
    m ∈ d'.sessions := by
  obtain ⟨f, hd, hf⟩ := hm
  have hfm : f m = m := (hf m hm').resolve_right fun hw => not_worksFor_of_head hl hw.1
  rw [hd, ← hfm]
  exact List.mem_map_of_mem hm'

theorem Moves.unmoved (hm : Moves project new d d') (hl : l ≠ .pm project) : Unmoved l d d' := by
  intro r' hr' hg
  rcases hm.mem hr' with hr' | ⟨r, -, hw, rfl⟩
  · exact ⟨r', hr', .refl r'⟩
  · have hw' : guards (.pm project) { r with parentSessionId := some new } := .inr hw
    exact absurd (guards_unique hg hw') hl

theorem Moves.managed (hm : Moves project new d d') (hd : Managed d) : Managed d' where
  nodup := hm.nodup hd.nodup
  unique l m hm₁ m' hm₂ hl hl' hlive hlive' :=
    hd.unique l m (hm.head hm₁ hl) m' (hm.head hm₂ hl') hl hl' hlive hlive'

theorem Moves.family {hatching : String → String → Prop} (hm : Moves project new d d') (hf : Family hatching d)
    (hnew : ∃ m ∈ d.sessions, leads (.pm project) m ∧ m.id = new)
    (hhatch : ∀ m ∈ d.sessions, leads (.pm project) m → live m → hatching project m.id) : Family hatching d' := by
  -- A moved task works for this project only.
  have hsame : ∀ {q : String} {r : PiSession}, worksFor project r →
      worksFor q { r with parentSessionId := some new } → q = project := by
    intro q r hw hw'
    have heq := hw'.2.symm.trans hw.2
    simpa using heq
  refine ⟨fun q r' hr' hw hlive => ?_, fun q m hm' hlead hlive hn r' hr' hw hrlive => ?_⟩
  · rcases hm.mem hr' with hr' | ⟨r, -, hwr, rfl⟩
    · obtain ⟨m, hm', hlead, hparent⟩ := hf.parents q r' hr' hw hlive
      exact ⟨m, hm.keeps hm' hlead, hlead, hparent⟩
    · obtain ⟨m, hm', hlead, hid⟩ := hnew
      exact ⟨m, hm.keeps hm' hlead, hsame hwr hw ▸ hlead, congrArg some hid.symm⟩
  · have hm'' := hm.head hm' hlead
    rcases hm.mem hr' with hr' | ⟨r, -, hwr, rfl⟩
    · exact hf.adopted q m hm'' hlead hlive hn r' hr' hw hrlive
    · have hq := hsame hwr hw
      subst hq
      exact absurd (hhatch m hm'' hlead hlive) hn

theorem Remaining.moves (hm : Moves project new d d') (hr : Remaining project (new :: parents) d) :
    Remaining project (new :: parents) d' := by
  intro r' hr' hw hlive
  rcases hm.mem hr' with hr' | ⟨r, -, -, rfl⟩
  · exact hr r' hr' hw hlive
  · exact ⟨new, List.mem_cons_self .., rfl⟩

/-- While the new manager is there, a re-parenting moves tasks of its project. -/
def MovesIn (project new : String) (d d' : Tables) : Prop := Leads project new d → Moves project new d d'

theorem Moves.leads (hm : Moves project new d d') (hd : Leads project new d) : Leads project new d' := by
  obtain ⟨m, hm', hl, hid⟩ := hd.leader
  exact ⟨hm.nodup hd.nodup, m, hm.keeps hm' hl, hl, hid⟩

theorem MovesIn.refl (project new : String) (d : Tables) : MovesIn project new d d :=
  fun _ => ⟨id, (List.map_id _).symm, fun _ _ => .inl rfl⟩

theorem MovesIn.trans {d'' : Tables} (hm : MovesIn project new d d') (hm' : MovesIn project new d' d'') :
    MovesIn project new d d'' :=
  fun hd => (hm hd).trans (hm' ((hm hd).leads hd))

theorem childOf_iff (hd : Leads project new d) {r : PiSession} :
    childOf old new d r = true ↔ r.parentSessionId = some old ∧ worksFor project r := by
  obtain ⟨m, hm, hl, rfl⟩ := hd.leader
  have hfind : findSession d m.id = some m := (SessionRows.findSession_eq_some hd.nodup).mpr ⟨hm, rfl⟩
  simp only [childOf, hfind, Option.bind_some, hl.2, Bool.and_eq_true, decide_eq_true_eq, worksFor]
  constructor
  · rintro ⟨⟨⟨hp, hr⟩, -⟩, hproject⟩
    exact ⟨hp, hr, hproject⟩
  · rintro ⟨hp, hr, hproject⟩
    exact ⟨⟨⟨hp, hr⟩, by simp [hproject]⟩, hproject⟩

theorem movesIn_of_executes {st : Statement Tables} (hst : Executes (.reparent old new) st) (d : Tables) :
    MovesIn project new d (st.apply d) := by
  cases hst
  refine fun hd => ⟨fun r => if childOf old new d r then { r with parentSessionId := some new } else r, rfl, ?_⟩
  intro r hr
  dsimp only
  split
  · next hchild => exact .inr ⟨((childOf_iff hd).mp hchild).2, rfl⟩
  · exact .inl rfl

/-- A whole re-parenting leaves no task of the old manager behind, and is durable. -/
theorem remaining_of_reparent (hd : Leads project new s.db) (hr : Remaining project (new :: old :: parents) s.db) :
    Remaining project (new :: parents) (s.run (.reparent old new)).db ∧
      (s.run (.reparent old new)).durable = (s.run (.reparent old new)).db := by
  refine ⟨fun r' hr' hw hlive => ?_, rfl⟩
  obtain ⟨r, hr₁, rfl⟩ := List.mem_map.mp hr'
  dsimp only at hw hlive ⊢
  split at hw
  · next hchild => exact ⟨new, List.mem_cons_self .., by rw [if_pos hchild]⟩
  · next hchild =>
    rw [if_neg hchild] at hlive ⊢
    obtain ⟨id, hid, hparent⟩ := hr r hr₁ hw hlive
    refine ⟨id, ?_, hparent⟩
    rcases List.mem_cons.mp hid with rfl | hid
    · exact List.mem_cons_self ..
    · rcases List.mem_cons.mp hid with rfl | hid
      · exact absurd ((childOf_iff hd).mpr ⟨hparent, hw⟩) hchild
      · exact List.mem_cons_of_mem _ hid

/-- A re-parenting, perhaps interrupted, where the new manager is there. -/
theorem writes_moves (hd : Leads project new s.db) (hw : Writes (MovesIn project new) s s') :
    Writes (Moves project new) s s' where
  db := hw.db hd
  durable := hw.durable.imp id fun hdur => ⟨hdur.1 hd, hdur.2 ((hdur.1 hd).leads hd)⟩
  ids := hw.ids
  log := hw.log

theorem reparents_run (old : String) (hd : Leads project new s.db) :
    Writes (Moves project new) s (s.run (.reparent old new)) :=
  writes_moves hd (writes_run (MovesIn.refl project new) (fun _ _ _ => MovesIn.trans)
    (fun _ hst d => movesIn_of_executes hst d) s)

theorem reparents_interrupt (old : String) (hd : Leads project new s.db) (n : ℕ) :
    Writes (Moves project new) s (s.interrupt (.reparent old new) n) :=
  writes_moves hd (writes_interrupt (MovesIn.refl project new) (fun _ _ _ => MovesIn.trans)
    (fun _ hst d => movesIn_of_executes hst d) s n)

structure TakingOver (strict : Prop) (t : ℕ) (project : String) (parents : List String) (new : String)
    (s : FleetWorld) :
    Prop where
  launching : Launching strict t (.pm project) parents new s
  leader : ∃ m ∈ s.db.sessions, leads (.pm project) m ∧ m.id = new

theorem stable_takingOver (hl : .pm project ∈ h) : Stable strict t h (TakingOver strict t project parents new) := by
  intro s s' hs hrely
  refine ⟨stable_launching hl s s' hs.launching hrely, ?_⟩
  obtain ⟨m, hm, hlead, hid⟩ := hs.leader
  obtain ⟨m', hm', hid', hrole, hproject⟩ := hrely.1.persists m hm
  exact ⟨m', hm', (leads_congr hrole hproject).mpr hlead, hid'.trans hid⟩

theorem takingOver_moves (hl : .pm project ∈ h) (hi : Inv strict s) (hs : TakingOver strict t project parents new s)
    (hw : Writes (Moves project new) s s') :
    (contract strict).guar t h s s' ∧ Inv strict s' ∧ TakingOver strict t project parents new s' := by
  refine ⟨⟨hw.grows fun _ _ => Moves.persists, fun l hnot => hw.held fun _ hd => hd.unmoved ?_⟩, ?_, ?_, ?_⟩
  · rintro rfl
    exact hnot hl
  · exact hw.inv hi (fun _ _ => Moves.persists) (fun _ hd => hd.managed hi.managed) fun hstrict _ hd =>
      hd.family (hi.settled hstrict).family hs.leader fun m hm hlead hlive =>
        hs.launching.leader m hm hlead hlive ▸ ⟨⟨t, hs.launching.mine⟩, hs.launching.hatching hstrict project rfl⟩
  · refine ⟨hw.ids ▸ hs.launching.mine, fun m hm hlead hlive => ?_, fun hstrict q hq he => ?_,
      fun hstrict q hq => ?_⟩
    · exact hs.launching.leader m (hw.db.head hm hlead) hlead hlive
    · exact hs.launching.hatching hstrict q hq ((hw.ensured q new).mp he)
    · cases hq
      obtain ⟨hdb, hdurable⟩ := hs.launching.remaining hstrict project rfl
      exact ⟨Remaining.moves hw.db hdb, hw.durable_of hdurable fun _ hd => Remaining.moves hd hdb⟩
  · obtain ⟨m, hm, hlead, hid⟩ := hs.leader
    exact ⟨m, hw.db.keeps hm hlead, hlead, hid⟩

/-- The loop over the predecessors: the new manager has all tasks when it is through. -/
theorem safe_reparents (hl : .pm project ∈ h) (sessions : List PiSession)
    (hs : TakingOver strict t project (sessions.map (·.id)) new s) :
    Safe fleetInterp (contract strict) t
      (fun r h' s' => h' = h ∧ (∃ parents, TakingOver strict t project parents new s') ∧
        (r = .ok () → TakingOver strict t project [] new s'))
      (Prog.forEach (fun previous => write (.reparent previous.id new)) sessions) h s := by
  induction sessions generalizing s with
  | nil =>
    intro s' hr hi
    have hs' := stable_takingOver hl s s' hs hr
    exact ⟨rfl, ⟨[], hs'⟩, fun _ => hs'⟩
  | cons previous rest ih =>
    intro s₁ hr₁ hi₁ _
    have hs₁ := stable_takingOver hl s s₁ hs hr₁
    have hleads : Leads project new s₁.db := ⟨hi₁.managed.nodup, hs₁.leader⟩
    refine ⟨trivial, fun w s₂ b hh => ?_⟩
    cases w with
    | done =>
      cases hh
      obtain ⟨hg, hi₂, hs₂⟩ := takingOver_moves hl hi₁ hs₁ (reparents_run previous.id hleads)
      refine ⟨hg, hi₂, ih ⟨⟨hs₂.launching.mine, hs₂.launching.leader, hs₂.launching.hatching, ?_⟩, hs₂.leader⟩⟩
      rintro hstrict q hq
      cases hq
      obtain ⟨hdb, hdurable⟩ :=
        remaining_of_reparent hleads (hs₁.launching.remaining hstrict project rfl).1
      exact ⟨hdb, hdurable ▸ hdb⟩
    | fails e n =>
      cases hh
      obtain ⟨hg, hi₂, hs₂⟩ := takingOver_moves hl hi₁ hs₁ (reparents_interrupt previous.id hleads n)
      refine ⟨hg, hi₂, fun s' hr hi => ⟨rfl, ⟨_, stable_takingOver hl _ s' hs₂ hr⟩, fun he => by cases he⟩⟩
    | _ => cases hh

end WorkerHarness.ManagerLaunches
