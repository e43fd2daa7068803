import WorkerHarness.DeploymentPreparation

/-!
# Activation of a deployment

Under the traps, wherever the script stops it leaves enough for the rollback, except between the move of
the stage and the flag that records it.
-/

namespace WorkerHarness.RemoteDeployment

open FileTrees Scripts

variable {tx : Transaction} {resolves : String → Bool} {faulty : Bool} {start staged : Tree} {c : Command}
    {b : Bool}
  {m m₀ m' : Machine} {o : Ending Command}

/-- The rollback finds everything that it restores, if `A` is enough for the live tree. -/
structure Covered (tx : Transaction) (resolves : String → Bool) (start : Tree) (A : Machine → Prop) (m : Machine) :
    Prop where
  lock : m.vars .lockAcquired = true
  files : Restoring tx start [] m
  triggers : TriggersKept tx resolves start m
  live : A m

theorem Covered.imp {A B : Machine → Prop} (h : Covered tx resolves start A m) (hAB : A m → B m) :
    Covered tx resolves start B m := ⟨h.lock, h.files, h.triggers, hAB h.live⟩

/-- Where the script may stop under the traps. -/
def Stopped (tx : Transaction) (resolves : String → Bool) (start staged : Tree) (o : Ending Command)
    (m : Machine) : Prop :=
  if o = .signalled (.assign .activated) then Covered tx resolves start (Unrecorded tx resolves start) m
  else m.vars .lockAcquired = false ∧ RolledBack tx start staged m.tree ∨
    Covered tx resolves start (Recoverable tx resolves start staged) m

theorem stopped_of_covered (ho : o ≠ .signalled (.assign .activated))
    (h : Covered tx resolves start (Recoverable tx resolves start staged) m) :
    Stopped tx resolves start staged o m := by
  rw [Stopped, if_neg ho]
  exact .inr h

theorem stopped_of_prelock (ho : o ≠ .signalled (.assign .activated)) (hlock : m.vars .lockAcquired = false)
    (h : RolledBack tx start staged m.tree) : Stopped tx resolves start staged o m := by
  rw [Stopped, if_neg ho]
  exact .inl ⟨hlock, h⟩

def Staged (tx : Transaction) (staged : Tree) (m : Machine) : Prop := m.tree.under tx.stage = staged

abbrev Locked (tx : Transaction) (resolves : String → Bool) (start staged : Tree) : Machine → Prop :=
  Covered tx resolves start fun m => (Intact tx start m ∧ m.vars .hadLive = false) ∧ Staged tx staged m

theorem Prepared.rolledBack (hready : Ready tx start) (h : Prepared tx start m) :
    RolledBack tx start staged m.tree := by
  have hlive {p : Path} (hp : LiveSpace tx p) : m.tree.under p = start.under p := h.kept p (.inl hp)
  refine ⟨hlive (.inl rfl), hready.backup.congr (hlive (.inr (.inl rfl))), fun q _ => .inl ?_, fun f _ _ => ?_,
    fun name hname => h.kept _ (.inr (.inl ⟨name, hname, .inl rfl⟩))⟩
  · exact hready.failed.congr (hlive (.inr (.inr rfl))) q
  · exact Tree.entry_congr (h.kept _ (.inr (.inr ⟨f, rfl⟩)))

theorem Prepared.locked (hready : Ready tx start) (h : Prepared tx start m)
    (hexec : Exec tx resolves faulty (.assign .lockAcquired) m b m') :
    Locked tx resolves start (m.tree.under tx.stage) m' := by
  have hlive {p : Path} (hp : LiveSpace tx p) : m.tree.under p = start.under p := h.kept p (.inl hp)
  obtain ⟨a, hexec⟩ := hexec
  cases hexec
  refine ⟨by simp, ⟨h.saved, fun f _ hdir => ?_, nofun⟩, fun name hname => .inl ⟨?_, ?_⟩,
    ⟨⟨by simp [h.vars], hlive (.inl rfl), ?_, ?_⟩, by simp [h.vars]⟩, rfl⟩
  · exact (Tree.entry_congr (h.kept _ (.inr (.inr ⟨f, rfl⟩)))).symm.trans hdir
  · exact h.kept _ (.inr (.inl ⟨name, hname, .inl rfl⟩))
  · have hstate : start.Absent (tx.pending name) := fun q => by
      obtain ⟨r, hr⟩ : Area.state.root tx <+: tx.pending name := pending_area name
      rw [← hr, List.append_assoc]
      exact hready.state (r ++ q)
    exact hstate.congr (h.kept _ (.inr (.inl ⟨name, hname, .inr rfl⟩)))
  · exact hready.backup.congr (hlive (.inr (.inl rfl)))
  · exact hready.failed.congr (hlive (.inr (.inr rfl)))

/-- A trigger that is there is deferred, or the move fails. -/
theorem triggerKept_mv {name : String} (h : TriggerKept tx resolves start m name)
    (hfound : present resolves (m.tree (harnessDir ++ [name])) = true)
    (hexec : Exec tx resolves faulty (.mv (harnessDir ++ [name]) (tx.pending name)) m b m') :
    TriggerKept tx resolves start m' name := by
  rcases h with ⟨hin, habsent⟩ | ⟨habsent, -⟩
  · have hsrc : m.tree (harnessDir ++ [name]) ≠ none := fun hnone => by simp [hnone, present] at hfound
    rcases exec_attempt (f := mv (harnessDir ++ [name]) (tx.pending name)) (fun _ _ => rfl) hexec with
      ⟨-, t, ht, rfl⟩ | ⟨-, rfl, -⟩
    · rw [mv_absent hsrc habsent.entry] at ht
      cases ht
      refine .inr ⟨Tree.absent_rename (apart_harness_pending name name), Tree.under_rename.trans hin, ?_⟩
      exact Tree.entry_of_under hin ▸ hfound
    · exact .inl ⟨hin, habsent⟩
  · simp [habsent.entry, present] at hfound

theorem outside_stageSpace {a : Area} (ha : a ≠ .stage) : Outside tx a fun p => p = tx.stage := by
  rintro p rfl q hq
  exact Area.apart ha hq (show Area.stage.root tx <+: tx.stage from List.prefix_rfl)

theorem locked_mv_trigger {name : String} (h : Locked tx resolves start staged m)
    (hfound : present resolves (m.tree (harnessDir ++ [name])) = true)
    (hexec : Exec tx resolves faulty (.mv (harnessDir ++ [name]) (tx.pending name)) m b m') :
    Locked tx resolves start staged m' := by
  have hvars := exec_vars (c := .mv (harnessDir ++ [name]) (tx.pending name)) nofun hexec
  have hspares {S : Path → Prop} (hl : Outside tx .localFiles S) (hs : Outside tx .state S) {p : Path} (hp : S p) :
      m'.tree.under p = m.tree.under p :=
    exec_under ((spares_mv (harness_area tx name) (pending_area name) hl hs).1 p hp) hexec
  have hfile {p : Path} (hp : FileSpace tx p) : m'.tree.under p = m.tree.under p := by
    obtain ⟨f, rfl | rfl⟩ := hp
    · exact hspares (outside_configSpace (by decide)) (outside_configSpace (by decide)) ⟨f, rfl⟩
    · have hpending : Apart (tx.pending name) (f.saved tx) := by
        cases f <;> exact apart_append_left (apart_cons (by decide) _ _) tx.state
      have hharness : Apart (harnessDir ++ [name]) (f.saved tx) :=
        Area.apart (by decide) (harness_area tx name) f.saved_area
      exact exec_under (avoids_mv hharness hpending) hexec
  have hlive {p : Path} (hp : LiveSpace tx p) : m'.tree.under p = m.tree.under p :=
    hspares (outside_liveSpace (by decide)) (outside_liveSpace (by decide)) hp
  refine ⟨hvars ▸ h.lock, dependsOn_restoring [] m m' hvars (fun p hp => hfile hp) h.files, fun name' hname' => ?_,
    ⟨h.live.1.1.congr hvars fun p hp => hlive hp, hvars ▸ h.live.1.2⟩, ?_⟩
  · by_cases heq : name' = name
    · subst heq
      exact triggerKept_mv (h.triggers _ hname') hfound hexec
    · exact exec_spares (dependsOn_triggerKept tx resolves start (Ne.symm heq))
        (spares_mv_trigger (.inl rfl) (.inr rfl))
        (h.triggers _ hname') hexec
  · exact (hspares (outside_stageSpace (by decide)) (outside_stageSpace (by decide)) rfl).trans h.live.2

theorem Covered.frame {A B : Machine → Prop} (h : Covered tx resolves start A m)
    (hlock : m'.vars .lockAcquired = m.vars .lockAcquired)
    (hfiles : ∀ p, FileSpace tx p → m'.tree.under p = m.tree.under p)
    (htriggers : ∀ p, TriggerSpace tx p → m'.tree.under p = m.tree.under p) (hB : B m') :
    Covered tx resolves start B m' :=
  ⟨hlock.trans h.lock, dependsOn_restoring [] { m with vars := m'.vars } m' rfl hfiles
    ⟨h.files.saved, h.files.plain, h.files.restored⟩,
    dependsOn_triggersKept { m with vars := m'.vars } m' rfl htriggers h.triggers, hB⟩

theorem exec_assign {v : Variable} (hexec : Exec tx resolves faulty (.assign v) m b m') :
    b = true ∧ m'.tree = m.tree ∧ m'.vars v = true ∧ ∀ v', v' ≠ v → m'.vars v' = m.vars v' := by
  obtain ⟨a, hexec⟩ := hexec
  cases hexec
  exact ⟨rfl, rfl, if_pos rfl, fun v' hne => if_neg hne⟩

theorem Locked.stopped (ho : o ≠ .signalled (.assign .activated)) (h : Locked tx resolves start staged m) :
    Stopped tx resolves start staged o m :=
  stopped_of_covered ho (h.imp fun hlive => .inl hlive.1.1)

theorem locked_assign (h : Locked tx resolves start staged m)
    (hexec : Exec tx resolves faulty (.assign .deferredTrigger) m b m') : Locked tx resolves start staged m' := by
  obtain ⟨-, htree, -, hvars⟩ := exec_assign hexec
  refine h.frame (hvars _ (by decide)) (fun p _ => by rw [htree]) (fun p _ => by rw [htree])
    ⟨⟨⟨?_, ?_, ?_, ?_⟩, ?_⟩, ?_⟩
  · exact (hvars _ (by decide)).trans h.live.1.1.activated
  · exact htree ▸ h.live.1.1.live
  · exact htree ▸ h.live.1.1.backup
  · exact htree ▸ h.live.1.1.failed
  · exact (hvars _ (by decide)).trans h.live.1.2
  · exact (congrArg (Tree.under · tx.stage) htree).trans h.live.2

theorem holds_deferTriggers : Holds (Exec tx resolves faulty) (Locked tx resolves start staged)
    (.forEach triggerNames (deferTrigger tx)) (Locked tx resolves start staged)
    (Stopped tx resolves start staged) := by
  have hround : ∀ name ∈ triggerNames, ∀ done : List String, Holds (Exec tx resolves faulty)
      (Locked tx resolves start staged) (deferTrigger tx name) (Locked tx resolves start staged)
      (Stopped tx resolves start staged) := by
    intro name _ _
    refine .ite (T := fun s => Locked tx resolves start staged s ∧
      present resolves (s.tree (harnessDir ++ [name])) = true)
      (fun s s' hs hexec => ?_) (fun s s' hs hexec => ?_) (fun s hs => hs.stopped nofun)
      (.seq (.run (fun s s' hs hexec => locked_mv_trigger hs.1 hs.2 hexec)
        (fun s s' hs hexec => (locked_mv_trigger hs.1 hs.2 hexec).stopped nofun) fun s hs => hs.1.stopped nofun)
        (.run (fun s s' hs hexec => locked_assign hs hexec)
          (fun s s' hs hexec => (locked_assign hs hexec).stopped nofun)
          fun s hs => hs.stopped (by decide))) .skip
    · obtain ⟨rfl, hfound⟩ := exec_testE hexec
      exact ⟨hs, hfound.symm⟩
    · obtain ⟨rfl, -⟩ := exec_testE hexec
      exact hs
  exact Holds.forEach (I := fun _ => Locked tx resolves start staged) triggerNames [] hround

abbrev Cleared (tx : Transaction) (resolves : String → Bool) (start staged : Tree) : Machine → Prop :=
  Covered tx resolves start fun m => (Shelved tx resolves start m ∨
    Intact tx start m ∧ m.vars .hadLive = false ∧ present resolves (start live) = false) ∧ Staged tx staged m

theorem Cleared.stopped (ho : o ≠ .signalled (.assign .activated)) (h : Cleared tx resolves start staged m) :
    Stopped tx resolves start staged o m :=
  stopped_of_covered ho (h.imp fun hlive => hlive.1.elim (fun hs => .inr (.inl hs)) fun hs => .inl hs.1)

abbrev Marked (tx : Transaction) (resolves : String → Bool) (start staged : Tree) : Machine → Prop :=
  Covered tx resolves start fun m => ((Intact tx start m ∧ m.vars .hadLive = true) ∧
    present resolves (start live) = true) ∧ Staged tx staged m

theorem Marked.stopped (ho : o ≠ .signalled (.assign .activated)) (h : Marked tx resolves start staged m) :
    Stopped tx resolves start staged o m :=
  stopped_of_covered ho (h.imp fun hlive => .inl hlive.1.1.1)

theorem marked_assign (h : Locked tx resolves start staged m) (hpresent : present resolves (start live) = true)
    (hexec : Exec tx resolves faulty (.assign .hadLive) m b m') : Marked tx resolves start staged m' := by
  obtain ⟨-, htree, hhad, hvars⟩ := exec_assign hexec
  refine h.frame (hvars _ (by decide)) (fun p _ => by rw [htree]) (fun p _ => by rw [htree])
    ⟨⟨⟨⟨?_, ?_, ?_, ?_⟩, hhad⟩, hpresent⟩, ?_⟩
  · exact (hvars _ (by decide)).trans h.live.1.1.activated
  · exact htree ▸ h.live.1.1.live
  · exact htree ▸ h.live.1.1.backup
  · exact htree ▸ h.live.1.1.failed
  · exact (congrArg (Tree.under · tx.stage) htree).trans h.live.2

theorem exec_mv_true {source destination : Path} (hsrc : m.tree source ≠ none) (hdst : m.tree destination = none)
    (hexec : Exec tx resolves faulty (.mv source destination) m true m') :
    m' = { m with tree := m.tree.rename source destination } := by
  rcases exec_attempt (f := mv source destination) (fun _ _ => rfl) hexec with ⟨-, t, ht, rfl⟩ | ⟨hfalse, -⟩
  · rw [mv_absent hsrc hdst] at ht
    cases ht
    rfl
  · cases hfalse

theorem exec_mv_false {source destination : Path}
    (hexec : Exec tx resolves faulty (.mv source destination) m false m') :
    m' = m := by
  rcases exec_attempt (f := mv source destination) (fun _ _ => rfl) hexec with ⟨hfalse, -⟩ | ⟨-, hm, -⟩
  · cases hfalse
  · exact hm

theorem apart_stage_live : Apart tx.stage live := Area.apart (by decide) area_stage area_live

/-- A move between two of the trees is no concern of the files and the triggers. -/
theorem Covered.mv {A B : Machine → Prop} {source destination : Path} {a a' : Area}
    (h : Covered tx resolves start A m)
    (hs : a.root tx <+: source) (hd : a'.root tx <+: destination) (ha : a ∈ [Area.live, .backup, .stage])
    (ha' : a' ∈ [Area.live, .backup, .stage]) (hexec : Exec tx resolves faulty (.mv source destination) m b m')
    (hB : B m') : Covered tx resolves start B m' := by
  have hfile {a : Area} (ha : a ∈ [Area.live, .backup, .stage]) : Outside tx a (FileSpace tx) :=
    outside_fileSpace (by revert a; decide)
  have htrigger {a : Area} (ha : a ∈ [Area.live, .backup, .stage]) : Outside tx a (TriggerSpace tx) :=
    outside_triggerSpace (by revert a; decide)
  refine h.frame (congrFun (exec_vars (c := .mv source destination) nofun hexec) _) (fun p hp => ?_)
    (fun p hp => ?_) hB
  · exact exec_under ((spares_mv hs hd (hfile ha) (hfile ha')).1 p hp) hexec
  · exact exec_under ((spares_mv hs hd (htrigger ha) (htrigger ha')).1 p hp) hexec

theorem cleared_mv (h : Marked tx resolves start staged m)
    (hexec : Exec tx resolves faulty (.mv live tx.backup) m true m') :
    Cleared tx resolves start staged m' := by
  obtain ⟨⟨⟨hintact, hhad⟩, hpresent⟩, hstaged⟩ := h.live
  have hsrc : m.tree live ≠ none := fun hnone => by
    rw [← Tree.entry_congr hintact.live, hnone] at hpresent
    exact absurd hpresent nofun
  refine h.mv area_live area_backup (by decide) (by decide) hexec ?_
  rw [exec_mv_true hsrc hintact.backup.entry hexec]
  refine ⟨.inl ⟨hintact.activated, hhad, hpresent, Tree.absent_rename apart_live_backup,
    Tree.under_rename.trans hintact.live, ?_⟩, ?_⟩
  · exact hintact.failed.congr (Tree.under_rename_of_apart apart_live_failed apart_backup_failed)
  · exact (Tree.under_rename_of_apart apart_stage_live.symm
      (Area.apart (a := .backup) (by decide) area_backup area_stage)).trans hstaged

theorem holds_shelveLive : Holds (Exec tx resolves faulty) (Locked tx resolves start staged) (shelveLive tx)
    (Cleared tx resolves start staged) (Stopped tx resolves start staged) := by
  refine .ite (T := fun s => Locked tx resolves start staged s ∧ present resolves (start live) = true)
    (fun s s' hs hexec => ?_) (fun s s' hs hexec => ?_) (fun s hs => hs.stopped nofun)
    (.seq (.run (fun s s' hs hexec => marked_assign hs.1 hs.2 hexec)
      (fun s s' hs hexec => (marked_assign hs.1 hs.2 hexec).stopped nofun) fun s hs => hs.1.stopped (by decide))
      (.run (fun s s' hs hexec => cleared_mv hs hexec)
      (fun s s' hs hexec => ?_) fun s hs => hs.stopped nofun)) .skip
  · obtain ⟨rfl, hfound⟩ := exec_testE hexec
    exact ⟨hs, hfound.trans (congrArg _ (Tree.entry_congr hs.live.1.1.live)) |>.symm⟩
  · obtain ⟨rfl, hmissing⟩ := exec_testE hexec
    refine hs.imp fun hlive => ⟨.inr ⟨hlive.1.1, hlive.1.2, ?_⟩, hlive.2⟩
    exact (hmissing.trans (congrArg _ (Tree.entry_congr hlive.1.1.live))).symm
  · obtain rfl := exec_mv_false hexec
    exact hs.stopped nofun

structure Arrived (tx : Transaction) (resolves : String → Bool) (start staged : Tree) (m : Machine) : Prop where
  activated : m.vars .activated = false
  live : m.tree live = some .dir
  staged : m.tree.under RemoteDeployment.live = staged
  backup : m.vars .hadLive = true ∧ present resolves (start RemoteDeployment.live) = true ∧
      m.tree.under tx.backup = start.under RemoteDeployment.live ∨
    m.vars .hadLive = false ∧ start.Absent RemoteDeployment.live ∧ m.tree.Absent tx.backup
  failed : m.tree.Absent tx.failed

theorem Arrived.unrecorded (h : Arrived tx resolves start staged m) : Unrecorded tx resolves start m :=
  ⟨h.activated, h.live, h.backup.imp_right fun hnone => ⟨hnone.1, hnone.2.1.entry⟩⟩

theorem arrived_mv (hready : Ready tx start) (hdir : staged [] = some .dir) (h : Cleared tx resolves start staged m)
    (hexec : Exec tx resolves faulty (.mv tx.stage live) m true m') :
    Covered tx resolves start (Arrived tx resolves start staged) m' := by
  obtain ⟨hplace, hstaged⟩ := h.live
  have hsrc : m.tree tx.stage = some .dir := by rw [← hdir, ← hstaged, Tree.under_apply, List.append_nil]
  -- A link that leads nowhere is in the way of the stage, and the move fails.
  have hlive : m.tree.Absent live := by
    rcases hplace with hshelved | ⟨hintact, -, hmissing⟩
    · exact hshelved.live
    · have hentry : m.tree live = start live := Tree.entry_congr hintact.live
      by_cases hnone : start live = none
      · exact (hready.live hnone).congr hintact.live
      · have honto : FileTrees.mv tx.stage live m.tree = none :=
          mv_onto hsrc (hentry ▸ hnone) fun hlive => by simp [← hentry, hlive, present] at hmissing
        rcases exec_attempt (f := FileTrees.mv tx.stage live)
          (fun _ _ => rfl) hexec with ⟨-, t, ht, -⟩ | ⟨hfalse, -⟩
        · rw [honto] at ht
          cases ht
        · cases hfalse
  refine h.mv area_stage area_live (by decide) (by decide) hexec ?_
  rw [exec_mv_true (by simp [hsrc]) hlive.entry hexec]
  have hbackup : (m.tree.rename tx.stage live).under tx.backup = m.tree.under tx.backup :=
    Tree.under_rename_of_apart (Area.apart (b := .backup) (by decide) area_stage area_backup) apart_live_backup
  have hfailed : (m.tree.rename tx.stage live).under tx.failed = m.tree.under tx.failed :=
    Tree.under_rename_of_apart (Area.apart (b := .failed) (by decide) area_stage List.prefix_rfl) apart_live_failed
  have hunder : (m.tree.rename tx.stage live).under live = staged := Tree.under_rename.trans hstaged
  have hentry : m.tree.rename tx.stage live live = some .dir := by
    rw [← hdir, ← hunder, Tree.under_apply, List.append_nil]
  rcases hplace with hshelved | ⟨hintact, hhad, -⟩
  · exact ⟨hshelved.activated, hentry, hunder,
      .inl ⟨hshelved.hadLive, hshelved.present, hbackup.trans hshelved.backup⟩,
      hshelved.failed.congr hfailed⟩
  · exact ⟨hintact.activated, hentry, hunder,
      .inr ⟨hhad, hlive.congr hintact.live.symm, hintact.backup.congr hbackup⟩,
      hintact.failed.congr hfailed⟩

theorem active_assign (h : Covered tx resolves start (Arrived tx resolves start staged) m)
    (hexec : Exec tx resolves faulty (.assign .activated) m b m') :
    Covered tx resolves start (Active tx resolves start staged) m' := by
  obtain ⟨-, htree, hset, hvars⟩ := exec_assign hexec
  refine h.frame (hvars _ (by decide)) (fun p _ => by rw [htree]) (fun p _ => by rw [htree])
    ⟨hset, ?_, fun q _ => ?_, ?_, ?_⟩
  · exact htree ▸ h.live.live
  · exact (congrFun htree _).trans (congrFun h.live.staged q)
  · rw [hvars _ (by decide), htree]
    exact h.live.backup
  · exact htree ▸ h.live.failed

theorem avoids_installService {p root : Path} (hroot : root ∈ protectedPaths tx) (hp : root <+: p) :
    Command.installService.Avoids tx p := fun r =>
  List.any_eq_true.mpr ⟨root, hroot, List.isPrefixOf_iff_prefix.mpr (hp.trans (List.prefix_append p r))⟩

theorem envFile_of_installs {q : Path} {e : Option Entry} (h : installs tx (live ++ q, e) = true) :
    envFile q = true := by
  have hlive : live <+: live ++ q := List.prefix_append ..
  simp only [installs] at h
  split at h
  · cases h
  · simpa [hlive] using h

theorem not_dir_of_installs {f : ServiceFile} (hf : f ∈ serviceFiles tx) :
    installs tx (f.path, some .dir) = false := by
  have hlive : ¬live <+: f.path := (Area.apart (b := .config) (by decide) area_live (f.path_area tx)).1
  have hany : ((serviceFiles tx).any fun file => decide (file.path = f.path)) = true :=
    List.any_eq_true.mpr ⟨f, hf, by simp⟩
  simp only [installs, if_neg hlive, if_pos hany]
  split
  · rfl
  · simp

theorem active_installService (h : Covered tx resolves start (Active tx resolves start staged) m)
    (hexec : Exec tx resolves faulty .installService m b m') :
    Covered tx resolves start (Active tx resolves start staged) m' := by
  have hvars : m'.vars = m.vars := exec_vars (c := .installService) nofun hexec
  have hunder {p : Path} (root : Path) (hroot : root ∈ protectedPaths tx) (hp : root <+: p) :
      m'.tree.under p = m.tree.under p :=
    exec_under (avoids_installService hroot hp) hexec
  have hstate {p : Path} (hp : tx.state <+: p) : m'.tree.under p = m.tree.under p :=
    hunder tx.state (by simp [protectedPaths]) hp
  have hlive (q : Path) (hq : envFile q = false) : m'.tree (live ++ q) = m.tree (live ++ q) :=
    (exec_installService hexec (live ++ q)).resolve_right fun hinstalls => by
      simp [envFile_of_installs hinstalls] at hq
  have hbackup : m'.tree.under tx.backup = m.tree.under tx.backup :=
    hunder tx.backup (by simp [protectedPaths]) List.prefix_rfl
  have hfailed : m'.tree.under tx.failed = m.tree.under tx.failed :=
    hunder tx.failed (by simp [protectedPaths]) List.prefix_rfl
  refine ⟨hvars ▸ h.lock, ⟨fun f hf => ?_, fun f hf hdir => ?_, nofun⟩, ?_,
    ⟨hvars ▸ h.live.activated, ?_, fun q hq => ?_,
    ?_, h.live.failed.congr hfailed⟩⟩
  · exact (Tree.entry_congr (hstate f.saved_area)).trans (h.files.saved f hf)
  · rcases exec_installService hexec f.path with heq | hinstalls
    · exact h.files.plain f hf (heq.symm.trans hdir)
    · rw [hdir, not_dir_of_installs hf] at hinstalls
      exact absurd hinstalls nofun
  · refine dependsOn_triggersKept m m' hvars (fun p hp => ?_) h.triggers
    obtain ⟨name, hname, rfl | rfl⟩ := hp
    · have htrigger := List.mem_append_right [tx.stage, tx.backup, tx.failed, tx.state]
        (List.mem_map_of_mem (f := fun name => harnessDir ++ [name]) hname)
      exact hunder _ htrigger List.prefix_rfl
    · exact hstate (pending_area name)
  · simpa [h.live.live] using hlive [] rfl
  · exact (hlive q hq).trans (h.live.staged q hq)
  · rw [hvars, hbackup]
    exact h.live.backup.imp_right fun hnone => ⟨hnone.1, hnone.2.1, hnone.2.2.congr hbackup⟩

theorem Active.stopped (ho : o ≠ .signalled (.assign .activated))
    (h : Covered tx resolves start (Active tx resolves start staged) m) : Stopped tx resolves start staged o m :=
  stopped_of_covered ho (h.imp fun hlive => .inr (.inr hlive))

theorem holds_install : Holds (Exec tx resolves faulty)
    (Covered tx resolves start (Active tx resolves start staged))
    (install tx) (Covered tx resolves start (Active tx resolves start staged))
    (Stopped tx resolves start staged) := by
  have hquiet {p : Script Command} (hp : p.Only Command.Quiet) : Holds (Exec tx resolves faulty)
      (Covered tx resolves start (Active tx resolves start staged)) p
      (Covered tx resolves start (Active tx resolves start staged)) (Stopped tx resolves start staged) := by
    refine holds_quiet hp fun c hc s hs => ⟨Active.stopped nofun hs, Active.stopped (fun heq => ?_) hs⟩
    cases heq
    exact hc
  refine .seq (hquiet trivial) (.seq (.run (fun s s' hs hexec => active_installService hs hexec)
    (fun s s' hs hexec => (Active.stopped nofun (active_installService hs hexec)))
      fun s hs => Active.stopped nofun hs)
    (.seq (hquiet (quiet_healthCheck _ _ _)) (.seq (hquiet trivial) .skip)))

/-- Where the script under the traps ends and stops. -/
theorem holds_activate (hready : Ready tx start) (h : Prepared tx start m₀) :
    Holds (Exec tx resolves faulty) (· = m₀) (activate tx)
      (Covered tx resolves start (Active tx resolves start (m₀.tree.under tx.stage)))
      (Stopped tx resolves start (m₀.tree.under tx.stage)) := by
  have hquiesce : Holds (Exec tx resolves faulty) (· = m₀) quiesce (· = m₀)
      (Stopped tx resolves start (m₀.tree.under tx.stage)) := by
    refine holds_quiet quiet_quiesce fun c hc s hs => ?_
    subst hs
    have hstopped {o : Ending Command} (ho : o ≠ .signalled (.assign .activated)) :
        Stopped tx resolves start (s.tree.under tx.stage) o s :=
      stopped_of_prelock ho (h.vars .lockAcquired) (h.rolledBack hready)
    refine ⟨hstopped nofun, hstopped fun heq => ?_⟩
    cases heq
    exact hc
  have hdir : m₀.tree.under tx.stage [] = some .dir := by rw [Tree.under_apply, List.append_nil, h.stage]
  refine hquiesce.seq (.seq (.run (fun s s' hs hexec => ?_) (fun s s' hs hexec => ?_) fun s hs => ?_)
    (.seq holds_deferTriggers (.seq ?_ (.seq holds_shelveLive (.seq (.run (fun s s' hs hexec =>
      arrived_mv hready hdir hs hexec) (fun s s' hs hexec => ?_) fun s hs => hs.stopped nofun)
      (.seq (.run (fun s s' hs hexec => active_assign hs hexec) (fun s s' hs hexec => ?_) fun s hs => ?_)
        (.seq holds_install .skip)))))))
  · subst hs
    exact h.locked hready hexec
  · cases (exec_assign hexec).1
  · subst hs
    exact stopped_of_prelock (by decide) (h.vars .lockAcquired) (h.rolledBack hready)
  · refine holds_quiet quiet_stopServices fun c hc s hs => ⟨hs.stopped nofun, hs.stopped fun heq => ?_⟩
    cases heq
    exact hc
  · obtain rfl := exec_mv_false hexec
    exact hs.stopped nofun
  · cases (exec_assign hexec).1
  · rw [Stopped, if_pos rfl]
    exact hs.imp Arrived.unrecorded

end WorkerHarness.RemoteDeployment
