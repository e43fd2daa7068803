import WorkerHarness.LiveManagers

/-!
# Live tasks belong to the live manager

A new manager takes the tasks over from its predecessors before `_ensure_pm` returns it, one
predecessor at a time and after its session has become visible. When that is interrupted the manager
stays, and the next `_ensure_pm` returns it as it is. As long as no manager is left behind in this
way, across crashes too, each returned manager has all live tasks of its project.
-/

namespace WorkerHarness.AdoptedTasks

open Coroutines Database ManagerRows ManagerLocks LiveManagers Orchestrator

/-- Where `_ensure_pm` returns a manager, every live task of the project has it as parent. -/
def HandedOver (c : FleetPool) : Prop :=
  ∀ (t : ℕ) (project : String) (manager : PiSession) (k : Unit → FleetM Unit) (held : List FleetLock),
    c.threads[t]? = some ⟨.perform (.ensured project (.ok manager)) k, held⟩ →
    ∀ r ∈ c.state.db.sessions, worksFor project r → live r → r.parentSessionId = some manager.id

variable {cfg : FleetConfig} {s : FleetWorld} {c : FleetPool}

/-- In every history of processes in which no launched manager is left behind without its tasks, a
returned manager has all of them. -/
theorem tasks_handed_over (hb : Boots cfg Completes LeavesNothing s)
    (hc : Pool.Reachable fleetInterp (Interleaving cfg Completes) s c) : HandedOver c := by
  obtain ⟨hi, hids⟩ := @inv_of_boots True _ _ _ _ (fun _ _ h _ => h) (fun _ h _ => h) hb
  have hsound := @sound_of_reachable True _ _ _ _ (fun _ _ h _ => h) hi hids hc
  intro t project manager k held ht r hr hw hlive
  obtain ⟨id, hid, hparent⟩ := hsound.pre (contract_coherent True) ht trivial trivial r hr hw hlive
  rwa [List.mem_singleton.mp hid] at hparent

def registers (t : ℕ) (sessionId : String) (now : ℕ) : List FleetEvent :=
  .spawn (Prog.await (.request (.register { sessionId := sessionId, incarnation := "bridge" } now fun _ => ""))) ::
    answers t [.done]

def stops (t : ℕ) (sessionId : String) (now : ℕ) : List FleetEvent :=
  .spawn (Prog.await (.request (.events sessionId { incarnation := "bridge", state := some .stopped }
    now fun _ => ""))) ::
    answers t [.done]

/-- `_ensure_pm` launches a manager and waits for its bridge. -/
def launchesPm (t : ℕ) (id : String) (now : ℕ) : List FleetEvent :=
  .spawn ((ensurePm soloFleet "p").bind fun _ => .ret ()) :: answers t
    (([.done, .done, .done, .text id, .text id, .workspace ⟨"workspace", "pane"⟩, .number now, .done,
      .text "prompt"] : List FleetAnswer) ++ List.replicate 8 .done ++ [.number 1])

/-- The first manager launches a task, which waits for its bridge. -/
def launchesTask (t : ℕ) (now : ℕ) : List FleetEvent :=
  .spawn ((launchTask soloFleet { name := "p", machine := "desktop", repo := "/src/p", remote := "origin" }
      "fix" "repair it" "m1").bind fun _ => .ret ()) :: answers t
    (([.done, .done, .done, .text "task", .text "token", .done, .workspace ⟨"workspace", "pane"⟩, .number now, .done,
      .text "prompt", .done, .done, .done, .done, .number now, .text "command", .done, .text "event",
      .number now] : List FleetAnswer) ++ List.replicate 5 .done ++ [.number 1])

/-- The first manager ends after its task has started; the second one has just registered. -/
def succession : List FleetEvent :=
  launchesPm 0 "m1" 1 ++ registers 1 "m1" 2 ++ answers 0 [.done, .done, .done] ++ launchesTask 2 3 ++
    registers 3 "task" 4 ++ answers 2 [.done, .done] ++ stops 4 "m1" 5 ++ launchesPm 5 "m2" 6 ++
      registers 6 "m2" 7 ++
    answers 5 [.done]

theorem started_registers (t : ℕ) (sessionId : String) (now : ℕ) :
    ∀ ev ∈ registers t sessionId now, Started soloFleet ev := by
  intro ev hev
  rcases List.mem_cons.mp hev with rfl | hev
  · exact .request _
  · exact started_answers _ _ ev hev

theorem started_succession : ∀ ev ∈ succession, Started soloFleet ev := by
  intro ev hev
  simp only [succession, launchesPm, launchesTask, stops, List.mem_append, List.mem_cons, or_assoc] at hev
  rcases hev with rfl | hev | hev | hev | rfl | hev | hev | hev | rfl | hev | rfl | hev | hev | hev
  · exact .ensurePm "p"
  · exact started_answers _ _ ev hev
  · exact started_registers _ _ _ ev hev
  · exact started_answers _ _ ev hev
  · exact .launchTask _ _ _ _
  · exact started_answers _ _ ev hev
  · exact started_registers _ _ _ ev hev
  · exact started_answers _ _ ev hev
  · exact .request _
  · exact started_answers _ _ ev hev
  · exact .ensurePm "p"
  · exact started_answers _ _ ev hev
  · exact started_registers _ _ _ ev hev
  · exact started_answers _ _ ev hev

def returning (c : FleetPool) (t : ℕ) : Option (String × String) :=
  match c.threads[t]? with
  | some ⟨.perform (.ensured project (.ok manager)) _, _⟩ => some (project, manager.id)
  | _ => none

theorem exists_of_returning {t : ℕ} {project id : String} (h : returning c t = some (project, id)) :
    ∃ (manager : PiSession) (k : Unit → FleetM Unit) (held : List FleetLock),
      c.threads[t]? = some ⟨.perform (.ensured project (.ok manager)) k, held⟩ ∧ manager.id = id := by
  unfold returning at h
  split at h
  · next project' manager k held ht =>
    cases h
    exact ⟨manager, k, held, ht, rfl⟩
  · cases h

def parents (c : FleetPool) : List (String × Option String) :=
  (c.state.db.sessions.filter fun r => decide (r.role = "task") && !r.state.terminalPm).map fun r =>
    (r.id, r.parentSessionId)

/-- The second manager takes the task over and is returned with it. -/
theorem tasks_handed_over_succession : ∃ c : FleetPool, returning c 5 = some ("p", "m2") ∧
    parents c = [("task", some "m2")] ∧ HandedOver c := by
  have hrun : (Pool.checkedRun fleetInterp (steady true) ⟨{}, []⟩ (succession ++ answers 5 [.done])).map
      (fun c => (returning c 5, parents c)) = some (some ("p", "m2"), [("task", some "m2")]) := by decide +kernel
  obtain ⟨c, hc, hobs⟩ := Option.map_eq_some_iff.mp hrun
  simp only [Prod.mk.injEq] at hobs
  have hreach : Pool.Reachable fleetInterp (Interleaving soloFleet Completes) {} c := by
    refine Pool.Reachable.checkedRun .init (fun d ev hev htest => ?_) hc
    have hstarted : Started soloFleet ev := by
      rcases List.mem_append.mp hev with hev | hev
      · exact started_succession ev hev
      · exact started_answers _ _ ev hev
    have hok := interleaving_of_steady hstarted htest
    cases ev with
    | go t w => exact ⟨hok.1, hok.2 rfl⟩
    | _ => exact hok
  exact ⟨c, hobs.1, hobs.2, tasks_handed_over .first hreach⟩

/-- The second manager is cancelled in the middle of taking over, and a second lookup finds it. -/
def interruption : List FleetEvent :=
  answers 5 [.fails .cancelledError 0, .done, .done] ++ .spawn ((ensurePm soloFleet "p").bind fun _ => .ret ()) ::
    answers 7 [.done, .done, .done]

def stranded (d : Tables) : Bool :=
  d.sessions.any fun r => decide (r.role = "task" ∧ r.project = some (.str "p") ∧ r.state.terminalPm = false ∧
    r.parentSessionId = some "m1")

/-- The next `_ensure_pm` returns the second manager, and the task still belongs to the first. -/
theorem interrupted_handover : ¬∀ (cfg : FleetConfig) (s : FleetWorld) (c : FleetPool),
    Boots cfg (fun _ _ => True) (fun _ => True) s →
      Pool.Reachable fleetInterp (Interleaving cfg fun _ _ => True) s c → HandedOver c := by
  intro hall
  have hrun : (Pool.checkedRun fleetInterp (steady false) ⟨{}, []⟩ (succession ++ interruption)).map
      (fun c => (returning c 7, stranded c.state.db)) = some (some ("p", "m2"), true) := by decide +kernel
  obtain ⟨c, hc, hobs⟩ := Option.map_eq_some_iff.mp hrun
  simp only [Prod.mk.injEq] at hobs
  have hreach : Pool.Reachable fleetInterp (Interleaving soloFleet fun _ _ => True) {} c := by
    refine Pool.Reachable.checkedRun .init (fun d ev hev htest => ?_) hc
    have hstarted : Started soloFleet ev := by
      simp only [interruption, List.mem_append, List.mem_cons] at hev
      rcases hev with hev | hev | rfl | hev
      · exact started_succession ev hev
      · exact started_answers _ _ ev hev
      · exact .ensurePm "p"
      · exact started_answers _ _ ev hev
    have hok := interleaving_of_steady hstarted htest
    cases ev with
    | go t w => exact ⟨hok.1, trivial⟩
    | _ => exact hok
  obtain ⟨manager, k, held, ht, hid⟩ := exists_of_returning hobs.1
  obtain ⟨r, hr, hstranded⟩ := List.any_eq_true.mp hobs.2
  obtain ⟨hrole, hproject, hlive, hparent⟩ := of_decide_eq_true hstranded
  have hadopted := hall soloFleet {} c .first hreach 7 "p" manager k held ht r hr ⟨hrole, hproject⟩ hlive
  rw [hparent, hid] at hadopted
  exact absurd hadopted (by decide)

end WorkerHarness.AdoptedTasks
