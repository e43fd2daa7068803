import WorkerHarness.DeploymentActivation

/-!
# Deployments are atomic up to one signal

A deployment that ends has put the stage in place of the live tree; one that stops is rolled back
completely, unless the signal is handled between the move of the stage and the flag that records it.
-/

namespace WorkerHarness.RemoteDeployment

open FileTrees Scripts

variable {tx : Transaction} {resolves : String → Bool} {faulty : Bool} {start staged : Tree} {c : Command}
    {b : Bool}
  {m m₀ m' : Machine} {o : Ending Command}

structure Deployed (tx : Transaction) (resolves : String → Bool) (start staged t : Tree) : Prop where
  live : ∀ q, envFile q = false → t (live ++ q) = staged q
  backup : present resolves (start RemoteDeployment.live) = true → ∀ q, ¬[".deployment-state"] <+: q →
    t (tx.backup ++ q) = start (RemoteDeployment.live ++ q)

theorem deployed_of_active (h : Active tx resolves start staged m) : Deployed tx resolves start staged m.tree := by
  refine ⟨h.staged, fun hpresent q _ => ?_⟩
  rcases h.backup with ⟨-, -, hshelved⟩ | ⟨-, hnone, -⟩
  · exact congrFun hshelved q
  · rw [hnone.entry] at hpresent
    exact absurd hpresent nofun

theorem deployed_congr (h : Deployed tx resolves start staged m.tree)
    (hlive : ∀ q, m'.tree (live ++ q) = m.tree (live ++ q))
    (hbackup : present resolves (start live) = true → ∀ q, ¬[".deployment-state"] <+: q →
      m'.tree (tx.backup ++ q) = m.tree (tx.backup ++ q)) : Deployed tx resolves start staged m'.tree :=
  ⟨fun q hq => (hlive q).trans (h.live q hq), fun hpresent q hq =>
    (hbackup hpresent q hq).trans (h.backup hpresent q hq)⟩

theorem deployed_mkdir (h : Deployed tx resolves start staged m.tree)
    (hexec : Exec tx resolves faulty (.mkdir [tx.backup]) m b m') : Deployed tx resolves start staged m'.tree := by
  have hentry : ∀ p, m.tree p ≠ none ∨ ¬p <+: tx.backup → m'.tree p = m.tree p := fun p hp => by
    rcases exec_attempt (f := fun t => [tx.backup].foldlM (fun t p => mkdir p t) t) (fun _ _ => rfl) hexec with
      ⟨-, t, ht, rfl⟩ | ⟨-, rfl, -⟩
    · rw [List.foldlM_cons] at ht
      obtain ⟨t', ht', ht⟩ := Option.bind_eq_some_iff.mp ht
      cases ht
      exact mkdir_entry ht' hp
    · rfl
  refine deployed_congr h (fun q => hentry _ (.inr ?_)) fun hpresent q hq => hentry _ ?_
  · exact fun hp => apart_live_backup.1 ((List.prefix_append live q).trans hp)
  · by_cases hnil : q = []
    · subst hnil
      refine .inl fun hnone => ?_
      have hstart := h.backup hpresent [] hq
      rw [List.append_nil] at hnone hstart
      rw [← List.append_nil live, ← hstart, hnone] at hpresent
      exact absurd hpresent nofun
    · exact .inr fun hp => hnil (List.append_right_eq_self.mp (hp.eq_of_length_le (by simp)))

theorem deployed_of_leaves (h : Deployed tx resolves start staged m.tree) (hlive : c.Avoids tx live)
    (hbackup : ∀ q, ¬[".deployment-state"] <+: q → c.Leaves tx (tx.backup ++ q))
    (hexec : Exec tx resolves faulty c m b m') : Deployed tx resolves start staged m'.tree :=
  deployed_congr h (fun q => exec_entry (hlive q) hexec) fun _ q hq => exec_entry (hbackup q hq) hexec

def Harmless (tx : Transaction) (resolves : String → Bool) (faulty : Bool) (start staged : Tree)
    (c : Command) : Prop :=
  ∀ s b s', Deployed tx resolves start staged s.tree → Exec tx resolves faulty c s b s' →
    Deployed tx resolves start staged s'.tree

theorem harmless_quiet (hc : c.Quiet) : Harmless tx resolves faulty start staged c := fun _ _ _ hs hexec =>
  exec_quiet hexec hc ▸ hs

theorem area_state : Area.state.root tx <+: tx.state := List.prefix_rfl

theorem harmless_mv : Harmless tx resolves faulty start staged
    (.mv tx.state (tx.backup ++ [".deployment-state"])) := by
  intro s b s' hs hexec
  refine deployed_of_leaves hs (avoids_mv ?_ ?_) (fun q hq => ⟨?_, fun hp => hq ?_⟩) hexec
  · exact Area.apart (by decide) area_state area_live
  · exact Area.apart (by decide) (area_backup.trans (List.prefix_append ..)) area_live
  · exact not_prefix_of_apart (Area.apart (by decide) area_state area_backup) q
  · exact (List.prefix_append_right_inj _).mp hp

theorem harmless_rmTree : Harmless tx resolves faulty start staged (.rmTree [tx.state]) := by
  intro s b s' hs hexec
  refine deployed_of_leaves hs (avoids_rmTree fun p hp => ?_) (fun q _ => avoids_rmTree (fun p hp => ?_) q) hexec
  · exact List.mem_singleton.mp hp ▸ Area.apart (by decide) area_state area_live
  · exact List.mem_singleton.mp hp ▸ Area.apart (by decide) area_state area_backup

/-- Filing the old state leaves both trees alone. -/
theorem holds_conclude : Holds (Exec tx resolves faulty) (fun s => Deployed tx resolves start staged s.tree)
    (conclude tx)
    (fun s => Deployed tx resolves start staged s.tree) fun _ s => Deployed tx resolves start staged s.tree := by
  have hrecord : (Script.seq (.run (.mkdir [tx.backup]))
    (.run (.mv tx.state (tx.backup ++ [".deployment-state"])))).Only
      (Harmless tx resolves faulty start staged) := ⟨fun _ _ _ hs hexec => deployed_mkdir hs hexec, harmless_mv⟩
  have honly : (conclude tx).Only (Harmless tx resolves faulty start staged) :=
    ⟨⟨harmless_quiet trivial, hrecord, harmless_quiet trivial, hrecord, harmless_rmTree⟩,
      harmless_quiet nofun, trivial,
      trivial⟩
  exact Holds.invariant (I := fun s : Machine => Deployed tx resolves start staged s.tree) honly

/-- What a deployment comes to: the new tree is live, or everything is back. -/
def Atomic (tx : Transaction) (resolves : String → Bool) (start staged : Tree) (o : Ending Command)
    (m : Machine) : Prop :=
  if o = .done then
    ∀ o' m', Runs (Exec tx resolves true) (conclude tx) m o' m' → Deployed tx resolves start staged m'.tree
  else RolledBack tx start staged m.tree

def redeployTransaction : Transaction where
  stage := [".worker-harness.stage.t"]
  txid := "t"
  stage_head := ⟨"t", [], by decide⟩
  txid_valid := by decide

/-- An old installation and a stage. -/
def redeployTree : Tree := fun p =>
  [([".worker-harness.stage.t"], Entry.dir), ([".worker-harness.stage.t", "install-service.sh"], .file [1]),
    ([".worker-harness.stage.t", ".env"], .file [2]), (["worker-harness"], .dir),
    (["worker-harness", "install-service.sh"], .file [3])].lookup p

/-- No units are loaded; the last answer is about the move of the stage. -/
def redeployAnswers (moved : Bool) : List Answer :=
  [false, false, false, false, true, true, true, true, false, true, true, true, moved].map fun ok => { ok }

def redeployStep (faulty : Bool) := step redeployTransaction (fun _ => false) faulty

def redeployPrepared : Machine :=
  (prepare redeployTransaction).after (redeployStep true) { tree := redeployTree } (List.replicate 42 {})

def redeployStopped (moved : Bool) : Machine :=
  (activate redeployTransaction).after (redeployStep true) redeployPrepared (redeployAnswers moved)

def redeployRolledBack (moved : Bool) : Machine :=
  (rollback redeployTransaction).tolerant.after (redeployStep false) (redeployStopped moved) (List.replicate 60 {})

theorem ready_redeployTree : Ready redeployTransaction redeployTree := by
  have hnone {name : String} (h : name ≠ ".worker-harness.stage.t" ∧ name ≠ "worker-harness") (q : Path) :
      redeployTree (name :: q) = none := by
    refine List.lookup_eq_none_iff.mpr fun e he => bne_iff_ne.mpr fun heq => ?_
    simp only [List.mem_cons, List.not_mem_nil, or_false] at he
    rcases he with rfl | rfl | rfl | rfl | rfl <;> simp [h] at heq
  refine ⟨by decide +kernel, hnone (by decide), hnone (by decide), hnone (by decide),
    fun h => ?_, 2, fun p hp => ?_⟩
  · exact absurd h (by decide +kernel)
  · by_contra hlen
    refine hp (List.lookup_eq_none_iff.mpr fun e he => bne_iff_ne.mpr fun heq => hlen ?_)
    subst heq
    simp only [List.mem_cons, List.not_mem_nil, or_false] at he
    rcases he with rfl | rfl | rfl | rfl | rfl <;> simp

theorem runs_redeployPrepared : Runs (Exec redeployTransaction (fun _ => false) true) (prepare redeployTransaction)
    { tree := redeployTree } .done redeployPrepared :=
  runs_after (by decide +kernel)

end WorkerHarness.RemoteDeployment
