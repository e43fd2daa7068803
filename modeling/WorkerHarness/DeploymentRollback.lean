import WorkerHarness.DeploymentFrames

/-!
# Rollback of a deployment

Every stop of the deployment after the lock leaves enough to put the old state back, and the rollback puts
it back, unless a signal is handled between the move of the stage and the flag that records it.
-/

namespace WorkerHarness.RemoteDeployment

open FileTrees Scripts

variable {tx : Transaction} {resolves : String → Bool} {faulty : Bool} {start staged : Tree} {c : Command}
    {b : Bool}
  {m m' : Machine}

/-- What the script finds: a stage, fresh names, and a tree of finite depth. -/
structure Ready (tx : Transaction) (start : Tree) : Prop where
  stage : start tx.stage = some .dir
  backup : start.Absent tx.backup
  failed : start.Absent tx.failed
  state : start.Absent tx.state
  live : start live = none → start.Absent live
  depth : ∃ n, ∀ p, start p ≠ none → p.length ≤ n

structure RolledBack (tx : Transaction) (start staged t : Tree) : Prop where
  live : t.under live = start.under live
  backup : t.Absent tx.backup
  failed : ∀ q, envFile q = false → t (tx.failed ++ q) = none ∨ t (tx.failed ++ q) = staged q
  serviceFiles : ∀ f ∈ serviceFiles tx, start f.path ≠ some .dir → t f.path = start f.path
  triggers : ∀ name ∈ triggerNames, t.under (harnessDir ++ [name]) = start.under (harnessDir ++ [name])

structure Restoring (tx : Transaction) (start : Tree) (restored : List ServiceFile) (m : Machine) : Prop where
  saved : ∀ f ∈ serviceFiles tx, m.tree (f.saved tx) = start f.path
  plain : ∀ f ∈ serviceFiles tx, m.tree f.path = some .dir → start f.path = some .dir
  restored : ∀ f ∈ restored, start f.path ≠ some .dir → m.tree f.path = start f.path

theorem dependsOn_restoring (restored : List ServiceFile) :
    DependsOn (FileSpace tx) (Restoring tx start restored) := by
  intro m m' _ htree h
  have hpath : ∀ f : ServiceFile, m'.tree f.path = m.tree f.path :=
    fun f => Tree.entry_congr (htree _ ⟨f, .inl rfl⟩)
  have hsaved : ∀ f : ServiceFile, m'.tree (f.saved tx) = m.tree (f.saved tx) := fun f =>
    Tree.entry_congr (htree _ ⟨f, .inr rfl⟩)
  exact ⟨fun f hf => (hsaved f).trans (h.saved f hf), fun f hf hdir => h.plain f hf ((hpath f).symm.trans hdir),
    fun f hf hdir => (hpath f).trans (h.restored f hf hdir)⟩

theorem ServiceFile.apart_path {f g : ServiceFile} (h : f ≠ g) : Apart f.path g.path := by
  have hname (dir : Path) {name name' : String} (hne : name ≠ name') : Apart (dir ++ [name]) (dir ++ [name']) :=
    apart_append_left (apart_cons hne [] []) dir
  have hdir {d d' : String} (hne : d ≠ d') (p q : Path) : Apart (".config" :: d :: p) (".config" :: d' :: q) :=
    apart_append_left (apart_cons hne p q) [".config"]
  cases f with
  | unit name =>
    cases g with
    | unit name' => exact hname unitDir fun heq => h (congrArg _ heq)
    | config _ | rcloneConf => exact hdir (by decide) _ _
  | config name =>
    cases g with
    | config name' => exact hname workerConfigDir fun heq => h (congrArg _ heq)
    | unit _ | rcloneConf => exact hdir (by decide) _ _
  | rcloneConf =>
    cases g with
    | rcloneConf => exact absurd rfl h
    | unit _ | config _ => exact hdir (by decide) _ _

theorem ServiceFile.path_not_prefix (f : ServiceFile) :
    ¬f.path <+: unitDir ∧ ¬f.path <+: workerConfigDir ∧ ¬f.path <+: rcloneConfigDir := by
  cases f <;> simp [ServiceFile.path, unitDir, workerConfigDir, rcloneConfigDir, List.cons_prefix_cons]

theorem ServiceFile.apart_saved {f g : ServiceFile} : Apart f.path (g.saved tx) :=
  Area.apart (by decide) (f.path_area tx) g.saved_area

structure Removed (tx : Transaction) (start : Tree) (restored : List ServiceFile) (f : ServiceFile) (m : Machine) :
    Prop where
  saved : ∀ g ∈ serviceFiles tx, m.tree (g.saved tx) = start g.path
  plain : ∀ g ∈ serviceFiles tx, m.tree g.path = some .dir → start g.path = some .dir
  removed : m.tree f.path = none ∨ m.tree f.path = some .dir
  restored : ∀ g ∈ restored, g ≠ f → start g.path ≠ some .dir → m.tree g.path = start g.path

variable {f : ServiceFile} {restored : List ServiceFile}

theorem removed_rm (h : Restoring tx start restored m) (hexec : Exec tx resolves false (.rm f.path) m b m') :
    Removed tx start restored f m' := by
  have hcase := exec_attempt (f := rm f.path) (fun _ _ => rfl) hexec
  have hother : ∀ p, Apart f.path p → m'.tree p = m.tree p := fun p hp =>
    exec_entry (c := .rm f.path) hp.1 hexec
  have hsaved : ∀ g : ServiceFile, m'.tree (g.saved tx) = m.tree (g.saved tx) :=
    fun g => hother _ ServiceFile.apart_saved
  have hself : m'.tree f.path = none ∨ m'.tree f.path = some .dir ∧ m.tree f.path = some .dir := by
    rcases hcase with ⟨-, t, ht, rfl⟩ | ⟨-, rfl, hnone⟩
    · unfold rm at ht
      split at ht
      · cases ht
      · cases ht
        exact .inl Tree.absent_remove.entry
    · have hdir := hnone rfl
      unfold rm at hdir
      split at hdir
      · next hdir' => exact .inr ⟨hdir', hdir'⟩
      · cases hdir
  refine ⟨fun g hg => (hsaved g).trans (h.saved g hg), fun g hg hdir => ?_, hself.imp_right And.left,
    fun g hg hne hdir => ?_⟩
  · by_cases heq : g = f
    · subst heq
      rcases hself with hnone | hboth
      · simp [hnone] at hdir
      · exact h.plain g hg hboth.2
    · exact h.plain g hg ((hother _ (ServiceFile.apart_path (Ne.symm heq))).symm.trans hdir)
  · exact (hother _ (ServiceFile.apart_path (Ne.symm hne))).trans (h.restored g hg hdir)

/-- Nothing was saved. -/
theorem restoring_skip (hf : f ∈ serviceFiles tx) (h : Removed tx start restored f m)
    (hnone : start f.path = none) :
    Restoring tx start (f :: restored) m := by
  refine ⟨h.saved, h.plain, fun g hg hdir => ?_⟩
  by_cases heq : g = f
  · subst heq
    rcases h.removed with hremoved | hremoved
    · rw [hremoved, hnone]
    · exact absurd (h.plain g hf hremoved) hdir
  · exact h.restored g ((List.mem_cons.mp hg).resolve_left heq) heq hdir

theorem restoring_cp (hf : f ∈ serviceFiles tx) (h : Removed tx start restored f m) (hsome : start f.path ≠ none)
    (hexec : Exec tx resolves false (.cp (f.saved tx) f.path) m b m') : Restoring tx start (f :: restored) m' := by
  have hcase := exec_attempt (f := cp (f.saved tx) f.path) (fun _ _ => rfl) hexec
  have hother : ∀ p, Apart f.path p → m'.tree p = m.tree p := fun p hp =>
    exec_entry (c := .cp (f.saved tx) f.path) hp.1 hexec
  have hsaved : ∀ g : ServiceFile, m'.tree (g.saved tx) = m.tree (g.saved tx) :=
    fun g => hother _ ServiceFile.apart_saved
  have hsrc : m.tree (f.saved tx) ≠ none := h.saved f hf ▸ hsome
  -- If there is still a directory, there was one before.
  have hself : m'.tree f.path = start f.path ∨ start f.path = some .dir := by
    rcases h.removed with hremoved | hremoved
    · have hcp := cp_absent hsrc hremoved
      rcases hcase with ⟨-, t, ht, rfl⟩ | ⟨-, rfl, hnone⟩
      · rw [hcp] at ht
        cases ht
        refine .inl ?_
        change (m.tree.graft f.path (m.tree.under (f.saved tx))) f.path = start f.path
        rw [← h.saved f hf]
        exact (Tree.entry_graft_self _).trans (by simp)
      · rw [hcp] at hnone
        exact absurd (hnone rfl) nofun
    · exact .inr (h.plain f hf hremoved)
  refine ⟨fun g hg => (hsaved g).trans (h.saved g hg), fun g hg hdir => ?_, fun g hg hdir => ?_⟩
  · by_cases heq : g = f
    · subst heq
      rcases hself with hself | hself
      · exact hself ▸ hdir
      · exact hself
    · exact h.plain g hg ((hother _ (ServiceFile.apart_path (Ne.symm heq))).symm.trans hdir)
  · by_cases heq : g = f
    · subst heq
      exact hself.resolve_right hdir
    · exact (hother _ (ServiceFile.apart_path (Ne.symm heq))).trans
        (h.restored g ((List.mem_cons.mp hg).resolve_left heq) heq hdir)

/-- A round of `restore_path_set`. -/
theorem holds_restore (hf : f ∈ serviceFiles tx) (restored : List ServiceFile) :
    Holds (Exec tx resolves false) (Restoring tx start restored)
      (Script.seq (.run (.rm f.path)) (saveEntry (f.saved tx) f.path)).tolerant (Restoring tx start (f :: restored))
      fun _ _ => True := by
  refine .seq (.orTrue (fun s b s' hs h => removed_rm hs h) fun _ _ => trivial) ?_
  have hcopy : Holds (Exec tx resolves false) (fun s => Removed tx start restored f s ∧ start f.path ≠ none)
      (.orTrue (.cp (f.saved tx) f.path)) (Restoring tx start (f :: restored)) fun _ _ => True :=
    .orTrue (fun s b s' hs h => restoring_cp hf hs.1 hs.2 h) fun _ _ => trivial
  refine .ite (fun s s' hs h => ?_) (fun s s' hs h => ?_) (fun _ _ => trivial) hcopy
    (.ite (P := fun s => Removed tx start restored f s ∧ present resolves (start f.path) = false)
      (fun s s' hs h => ?_) (fun s s' hs h => ?_) (fun _ _ => trivial) hcopy .skip)
  · obtain ⟨rfl, hpresent⟩ := exec_testE h
    rw [hs.saved f hf] at hpresent
    exact ⟨hs, fun hnone => by simp [hnone, present] at hpresent⟩
  · obtain ⟨rfl, hpresent⟩ := exec_testE h
    rw [hs.saved f hf] at hpresent
    exact ⟨hs, hpresent.symm⟩
  · obtain ⟨rfl, hlink⟩ := exec_testL h
    rw [hs.1.saved f hf] at hlink
    exact ⟨hs.1, fun hnone => by simp [hnone, isLink] at hlink⟩
  · obtain ⟨rfl, hlink⟩ := exec_testL h
    rw [hs.1.saved f hf] at hlink
    exact restoring_skip hf hs.1 (none_of_not_present hs.2 hlink.symm)

/-- A call of `restore_path_set` restores its files. -/
theorem holds_restorePathSet {source destination : Path} {names : List String} (file : String → ServiceFile)
    (hpath : ∀ name ∈ names, (file name).path = destination ++ [name])
    (hsaved : ∀ name ∈ names, (file name).saved tx = source ++ [name])
    (hd : Area.config.root tx <+: destination) (hdir : ∀ f : ServiceFile, ¬f.path <+: destination)
    (hnames : ∀ name ∈ names, file name ∈ serviceFiles tx) (restored : List ServiceFile) :
    Holds (Exec tx resolves false) (Restoring tx start restored) (restorePathSet source destination names).tolerant
      (Restoring tx start ((names.map file).reverse ++ restored)) fun _ _ => True := by
  have hmkdir : (Command.mkdir [destination]).Spares tx (FileSpace tx) := by
    refine ⟨fun p hp => avoids_mkdir fun q hq => ?_, nofun⟩
    rw [List.mem_singleton.mp hq]
    obtain ⟨f, rfl | rfl⟩ := hp
    · exact hdir f
    · exact (Area.apart (by decide) f.saved_area hd).1
  refine .seq (.orTrue (fun s b s' hs h => exec_spares (dependsOn_restoring restored) hmkdir hs h) fun _ _ =>
    trivial) ?_
  rw [Script.tolerant_forEach, ← List.map_reverse]
  have hround : Holds (Exec tx resolves false) (Restoring tx start (([] : List String).map file ++ restored))
      (Script.forEach names fun name =>
        (Script.seq (.run (.rm (destination ++ [name])))
          (saveEntry (source ++ [name]) (destination ++ [name]))).tolerant)
      (Restoring tx start ((names.reverse ++ []).map file ++ restored)) fun _ _ => True :=
    Holds.forEach (I := fun done => Restoring tx start (done.map file ++ restored)) names
      [] fun name hname done => by
      rw [← hpath name hname, ← hsaved name hname]
      exact holds_restore (hnames name hname) _
  simpa using hround

theorem restoring_disable {unitName : String} (h : Restoring tx start [] m)
    (hexec : Exec tx resolves faulty (.systemctl .disable unitName) m b m') : Restoring tx start [] m' := by
  have hother : ∀ p, Apart (ServiceFile.unit unitName).path p → m'.tree p = m.tree p := fun p hp =>
    exec_entry (c := .systemctl .disable unitName) hp.1 hexec
  refine ⟨fun g hg => (hother _ ServiceFile.apart_saved).trans (h.saved g hg), fun g hg hdir => ?_,
    fun g hg => nomatch hg⟩
  by_cases heq : g = .unit unitName
  · subst heq
    obtain ⟨a, hexec⟩ := hexec
    rcases disable_cases hexec with rfl | ⟨-, rfl⟩
    · exact h.plain _ hg hdir
    · exact absurd (Tree.absent_remove.entry.symm.trans hdir) nofun
  · exact h.plain g hg ((hother _ (ServiceFile.apart_path (Ne.symm heq))).symm.trans hdir)

def Restored (tx : Transaction) (start : Tree) (m : Machine) : Prop :=
  ∀ f ∈ serviceFiles tx, start f.path ≠ some .dir → m.tree f.path = start f.path

theorem dependsOn_restored : DependsOn ConfigSpace (Restored tx start) := fun _ _ _ htree h f hf hdir =>
  (Tree.entry_congr (htree _ ⟨f, rfl⟩)).trans (h f hf hdir)

theorem holds_restoreFiles : Holds (Exec tx resolves false) (Restoring tx start []) (restoreFiles tx).tolerant
    (Restored tx start) fun _ _ => True := by
  have hstop : Holds (Exec tx resolves false) (Restoring tx start [])
      (Script.forEach tx.managedUnits fun unitName => .orTrue (.systemctl .stop unitName)).tolerant
        (Restoring tx start [])
      fun _ _ => True :=
    holds_quiet (Script.only_tolerant (Script.only_forEach fun _ _ => ⟨nofun, trivial, trivial⟩))
      fun _ _ _ _ => ⟨trivial, trivial⟩
  have hdisable : Holds (Exec tx resolves false) (Restoring tx start [])
      (Script.forEach tx.managedUnits fun unitName => .orTrue (.systemctl .disable unitName)).tolerant
      (Restoring tx start []) fun _ _ => True :=
    .keeps (Script.only_tolerant (Script.only_forEach fun _ _ =>
      ⟨⟨fun _ _ _ h hexec => restoring_disable h hexec, fun _ _ => ⟨trivial, trivial⟩⟩, trivial, trivial⟩))
  have hunits : ∀ name ∈ tx.managedUnits, ServiceFile.unit name ∈ serviceFiles tx := fun name hname => by
    simp [serviceFiles, hname]
  have hconfigs : ∀ name ∈ workerConfigNames, ServiceFile.config name ∈ serviceFiles tx := fun name hname => by
    simp [serviceFiles, hname]
  have hrclone : ∀ name ∈ ["rclone.conf"], ServiceFile.rcloneConf ∈ serviceFiles tx := fun _ _ => by
    simp [serviceFiles]
  have hconf : ∀ name ∈ ["rclone.conf"], ServiceFile.rcloneConf.path = rcloneConfigDir ++ [name] :=
    fun name hname => by
    rw [List.mem_singleton.mp hname]
    rfl
  refine hstop.seq (hdisable.seq (.seq (holds_restorePathSet .unit (fun _ _ => rfl) (fun name _ => ?_) ⟨_, rfl⟩
    (fun f => f.path_not_prefix.1) hunits [])
      (.seq (holds_restorePathSet .config (fun _ _ => rfl) (fun name _ => ?_)
      ⟨_, rfl⟩ (fun f => f.path_not_prefix.2.1) hconfigs _)
        (.seq ((holds_restorePathSet (fun _ => .rcloneConf) hconf
        (fun name hname => ?_) ⟨_, rfl⟩ (fun f => f.path_not_prefix.2.2) hrclone _).mono (fun _ h => h)
        (fun s hs => ?_)
        fun _ _ h => h) .skip))))
  · simp [ServiceFile.saved]
  · simp [ServiceFile.saved]
  · rw [List.mem_singleton.mp hname]
    simp [ServiceFile.saved]
  · intro f hf hdir
    refine hs.restored f ?_ hdir
    simp only [serviceFiles, List.mem_append, List.mem_map, List.mem_singleton] at hf
    simp only [List.mem_append, List.mem_reverse, List.mem_map, List.not_mem_nil, or_false]
    rcases hf with (hf | hf) | rfl
    · exact .inr (.inr hf)
    · exact .inr (.inl hf)
    · exact .inl ⟨"rclone.conf", by simp, rfl⟩

/-- With the lock, the rollback restores. -/
theorem holds_locked {P Q : Machine → Prop}
    (h : Holds (Exec tx resolves false) P (Script.all [restoreFiles tx, restoreLive tx, restorePendingTriggers tx,
      restoreServiceState tx, .run (.rmTree [tx.stage, tx.state])]).tolerant Q fun _ _ => True) :
    Holds (Exec tx resolves false) (fun s => s.vars .lockAcquired = true ∧ P s) (rollback tx).tolerant Q fun _ _ =>
    True := by
  refine .ite (F := fun _ => False) (fun s s' hs hexec => ?_) (fun s s' hs hexec => ?_) (fun _ _ => trivial) h
    fun _ _ _ hs => hs.elim
  · obtain ⟨rfl, -⟩ := exec_isSet hexec
    exact hs.2
  · obtain ⟨-, hset⟩ := exec_isSet hexec
    exact absurd (hset.trans hs.1) nofun

/-- Before the lock there is nothing to restore. -/
theorem holds_prelock {S : Path → Prop} {A : Machine → Prop} (hA : DependsOn S A) (hstage : Outside tx .stage S)
    (hstate : Outside tx .state S) :
    Holds (Exec tx resolves false) (fun s => s.vars .lockAcquired = false ∧ A s) (rollback tx).tolerant A
      fun _ _ => True := by
  refine .ite (T := fun _ => False) (fun s s' hs hexec => ?_) (fun s s' hs hexec => ?_) (fun _ _ => trivial)
    (fun _ _ _ hs => hs.elim) (holds_spares hA (Script.only_tolerant ⟨?_, ?_⟩))
  · obtain ⟨-, hset⟩ := exec_isSet hexec
    exact absurd (hset.trans hs.1) nofun
  · obtain ⟨rfl, -⟩ := exec_isSet hexec
    exact hs.2
  · exact spares_of_quiet quiet_restorePrelockPaths
  · exact spares_cleanup hstage hstate

theorem rollback_restores_files : Holds (Exec tx resolves false)
    (fun s => s.vars .lockAcquired = true ∧ Restoring tx start [] s) (rollback tx).tolerant (Restored tx start)
    fun _ _ => True := by
  have hout {a : Area} (ha : a ≠ .config) : Outside tx a ConfigSpace := outside_configSpace ha
  refine holds_locked (holds_restoreFiles.seq (holds_spares dependsOn_restored ⟨?_, ?_, ?_, ?_, trivial⟩))
  · exact Script.only_tolerant (spares_restoreLive (hout (by decide)) (hout (by decide)) (hout (by decide)))
  · exact Script.only_tolerant (spares_restorePendingTriggers (hout (by decide)) (hout (by decide)))
  · exact Script.only_tolerant (spares_of_quiet quiet_restoreServiceState)
  · exact Script.only_tolerant (spares_cleanup (hout (by decide)) (hout (by decide)))

/-- What happens to the live tree happens in one place. -/
theorem rollback_live {A B : Machine → Prop} (hA : DependsOn (LiveSpace tx) A) (hB : DependsOn (LiveSpace tx) B)
    (h : Holds (Exec tx resolves false) A (restoreLive tx).tolerant B fun _ _ => True) :
    Holds (Exec tx resolves false) (fun s => s.vars .lockAcquired = true ∧ A s) (rollback tx).tolerant B fun _ _ =>
    True := by
  have hout {a : Area} (ha : a ≠ .live ∧ a ≠ .backup ∧ a ≠ .failed) : Outside tx a (LiveSpace tx) :=
    outside_liveSpace ha
  refine holds_locked ((holds_spares hA (Script.only_tolerant (spares_restoreFiles (hout (by decide))))).seq
    (h.seq (holds_spares hB ⟨?_, ?_, ?_, trivial⟩)))
  · exact Script.only_tolerant (spares_restorePendingTriggers (hout (by decide)) (hout (by decide)))
  · exact Script.only_tolerant (spares_of_quiet quiet_restoreServiceState)
  · exact Script.only_tolerant (spares_cleanup (hout (by decide)) (hout (by decide)))

def TriggerKept (tx : Transaction) (resolves : String → Bool) (start : Tree) (m : Machine) (name : String) : Prop :=
  m.tree.under (harnessDir ++ [name]) = start.under (harnessDir ++ [name]) ∧ m.tree.Absent (tx.pending name) ∨
    m.tree.Absent (harnessDir ++ [name]) ∧ m.tree.under (tx.pending name) = start.under (harnessDir ++ [name]) ∧
      present resolves (start (harnessDir ++ [name])) = true

def TriggersKept (tx : Transaction) (resolves : String → Bool) (start : Tree) (m : Machine) : Prop :=
  ∀ name ∈ triggerNames, TriggerKept tx resolves start m name

def TriggerBack (start : Tree) (m : Machine) (name : String) : Prop :=
  m.tree.under (harnessDir ++ [name]) = start.under (harnessDir ++ [name])

theorem TriggerKept.congr {name : String} (h : TriggerKept tx resolves start m name)
    (hplace : m'.tree.under (harnessDir ++ [name]) = m.tree.under (harnessDir ++ [name]))
    (hpending : m'.tree.under (tx.pending name) = m.tree.under (tx.pending name)) :
    TriggerKept tx resolves start m' name := by
  rcases h with ⟨hin, habsent⟩ | ⟨habsent, hdeferred, hpresent⟩
  · exact .inl ⟨hplace.trans hin, habsent.congr hpending⟩
  · exact .inr ⟨habsent.congr hplace, hpending.trans hdeferred, hpresent⟩

theorem dependsOn_triggersKept : DependsOn (TriggerSpace tx) (TriggersKept tx resolves start) :=
  fun _ _ _ htree h name hname =>
    (h name hname).congr (htree _ ⟨name, hname, .inl rfl⟩) (htree _ ⟨name, hname, .inr rfl⟩)

theorem apart_harness {name name' : String} (h : name ≠ name') :
    Apart (harnessDir ++ [name]) (harnessDir ++ [name']) :=
  apart_append_left (apart_cons h [] []) harnessDir

theorem apart_pending {name name' : String} (h : name ≠ name') : Apart (tx.pending name) (tx.pending name') :=
  apart_append_left (apart_append_left (apart_cons h [] []) ["pending"]) tx.state

theorem apart_harness_pending (name name' : String) : Apart (harnessDir ++ [name]) (tx.pending name') :=
  Area.apart (by decide) (harness_area tx name) (pending_area name')

/-- A trigger that is found is put back. -/
theorem triggerBack_mv {name : String} (h : TriggerKept tx resolves start m name)
    (hfound : present resolves (m.tree (tx.pending name)) = true)
    (hexec : Exec tx resolves false (.mv (tx.pending name) (harnessDir ++ [name])) m b m') :
    TriggerBack start m' name := by
  rcases h with ⟨-, habsent⟩ | ⟨habsent, hdeferred, -⟩
  · simp [habsent.entry, present] at hfound
  · have hsrc : m.tree (tx.pending name) ≠ none := fun hnone => by simp [hnone, present] at hfound
    have hmv := mv_absent hsrc habsent.entry
    rcases exec_attempt (f := mv (tx.pending name) (harnessDir ++ [name])) (fun _ _ => rfl) hexec with
      ⟨-, t, ht, rfl⟩ | ⟨-, rfl, hnone⟩
    · rw [hmv] at ht
      cases ht
      exact Tree.under_rename.trans hdeferred
    · exact absurd (hmv.symm.trans (hnone rfl)) nofun

theorem triggerBack_skip {name : String} (h : TriggerKept tx resolves start m name)
    (hmissing : present resolves (m.tree (tx.pending name)) = false) : TriggerBack start m name := by
  rcases h with ⟨hin, -⟩ | ⟨-, hdeferred, hpresent⟩
  · exact hin
  · rw [Tree.entry_of_under hdeferred, hpresent] at hmissing
    exact absurd hmissing nofun

def OtherTrigger (tx : Transaction) (name : String) (p : Path) : Prop :=
  ∃ name', name ≠ name' ∧ (p = harnessDir ++ [name'] ∨ p = tx.pending name')

theorem spares_mv_trigger {source destination : Path} {name : String}
    (hs : source = harnessDir ++ [name] ∨ source = tx.pending name)
    (hd : destination = harnessDir ++ [name] ∨ destination = tx.pending name) :
    (Command.mv source destination).Spares tx (OtherTrigger tx name) := by
  have hapart : ∀ q, q = harnessDir ++ [name] ∨ q = tx.pending name → ∀ p, OtherTrigger tx name p → Apart q p := by
    rintro q (rfl | rfl) p ⟨name', hne, rfl | rfl⟩
    · exact apart_harness hne
    · exact apart_harness_pending name name'
    · exact (apart_harness_pending name' name).symm
    · exact apart_pending hne
  exact ⟨fun p hp => avoids_mv (hapart _ hs p hp) (hapart _ hd p hp), nofun⟩

theorem dependsOn_triggerKept (tx : Transaction) (resolves : String → Bool) (start : Tree) {name name' : String}
    (hne : name ≠ name') :
    DependsOn (OtherTrigger tx name) fun s => TriggerKept tx resolves start s name' := fun _ _ _ htree h =>
  h.congr (htree _ ⟨name', hne, .inl rfl⟩) (htree _ ⟨name', hne, .inr rfl⟩)

theorem dependsOn_triggerBack (tx : Transaction) (start : Tree) {name name' : String} (hne : name ≠ name') :
    DependsOn (OtherTrigger tx name) fun s => TriggerBack start s name' := fun _ _ _ htree h =>
  (htree _ ⟨name', hne, .inl rfl⟩).trans h

theorem holds_triggerBack (tx : Transaction) (resolves : String → Bool) (start : Tree) (name : String)
    {A : Machine → Prop} (hA : DependsOn (OtherTrigger tx name) A) :
    Holds (Exec tx resolves false) (fun s => TriggerKept tx resolves start s name ∧ A s)
      (Script.ite (.testE (tx.pending name)) (.run (.mv (tx.pending name) (harnessDir ++ [name]))) .skip).tolerant
      (fun s => TriggerBack start s name ∧ A s) fun _ _ => True := by
  refine .ite (T := fun s => (TriggerKept tx resolves start s name ∧ A s) ∧
    present resolves (s.tree (tx.pending name)) = true)
    (fun s s' hs hexec => ?_) (fun s s' hs hexec => ?_) (fun _ _ => trivial)
    (.orTrue (fun s b s' hs hexec => ?_) fun _ _ => trivial) .skip
  · obtain ⟨rfl, hfound⟩ := exec_testE hexec
    exact ⟨hs, hfound.symm⟩
  · obtain ⟨rfl, hmissing⟩ := exec_testE hexec
    exact ⟨triggerBack_skip hs.1 hmissing.symm, hs.2⟩
  · exact ⟨triggerBack_mv hs.1.1 hs.2 hexec, exec_spares hA (spares_mv_trigger (.inr rfl) (.inl rfl)) hs.1.2 hexec⟩

def TriggersBack (start : Tree) (m : Machine) : Prop := ∀ name ∈ triggerNames, TriggerBack start m name

theorem dependsOn_triggersBack : DependsOn HarnessSpace (TriggersBack start) := fun _ _ _ htree h name hname =>
  (htree _ ⟨name, hname, rfl⟩).trans (h name hname)

theorem holds_restorePendingTriggers : Holds (Exec tx resolves false) (TriggersKept tx resolves start)
    (restorePendingTriggers tx).tolerant (TriggersBack start) fun _ _ => True := by
  have hmkdir : (Command.mkdir [harnessDir]).Spares tx (TriggerSpace tx) := by
    refine ⟨fun p hp => avoids_mkdir fun q hq hpq => ?_, nofun⟩
    rw [List.mem_singleton.mp hq] at hpq
    rcases hp with ⟨name, -, rfl | rfl⟩
    · exact absurd hpq.length_le (by simp)
    · exact (Area.apart (a := .localFiles) (by decide) ⟨_, rfl⟩ (pending_area name)).2 hpq
  have hne : "new-image.sif" ≠ "restart-trigger" := by decide
  have himage := holds_triggerBack tx resolves start "new-image.sif" (dependsOn_triggerKept tx resolves start hne)
  have hrestart := holds_triggerBack tx resolves start "restart-trigger" (dependsOn_triggerBack tx start hne.symm)
  refine .seq (.orTrue (fun s b s' hs hexec => ?_) fun _ _ => trivial)
    (himage.seq (.seq (hrestart.mono (fun s hs => hs.symm) (fun s hs => ?_) fun _ _ h => h) .skip))
  · have hkept := exec_spares dependsOn_triggersKept hmkdir hs hexec
    exact ⟨hkept _ (by simp [triggerNames]), hkept _ (by simp [triggerNames])⟩
  · intro name hname
    simp only [triggerNames, List.mem_cons, List.not_mem_nil, or_false] at hname
    rcases hname with rfl | rfl
    · exact hs.2
    · exact hs.1

theorem rollback_restores_triggers : Holds (Exec tx resolves false)
    (fun s => s.vars .lockAcquired = true ∧ TriggersKept tx resolves start s) (rollback tx).tolerant
    (TriggersBack start)
    fun _ _ => True := by
  have hout {a : Area} (ha : a ≠ .localFiles ∧ a ≠ .state) : Outside tx a (TriggerSpace tx) :=
    outside_triggerSpace ha
  have hharness {a : Area} (ha : a ≠ .localFiles) : Outside tx a HarnessSpace := outside_harnessSpace ha
  refine holds_locked ((holds_spares dependsOn_triggersKept
    (Script.only_tolerant (spares_restoreFiles (hout (by decide))))).seq
    ((holds_spares dependsOn_triggersKept (Script.only_tolerant
      (spares_restoreLive (hout (by decide)) (hout (by decide)) (hout (by decide))))).seq
      (holds_restorePendingTriggers.seq (holds_spares dependsOn_triggersBack ⟨?_, ?_, trivial⟩))))
  · exact Script.only_tolerant (spares_of_quiet quiet_restoreServiceState)
  · exact Script.only_tolerant (spares_cleanup (hharness (by decide)) (hharness (by decide)))

structure Intact (tx : Transaction) (start : Tree) (m : Machine) : Prop where
  activated : m.vars .activated = false
  live : m.tree.under live = start.under live
  backup : m.tree.Absent tx.backup
  failed : m.tree.Absent tx.failed

structure Shelved (tx : Transaction) (resolves : String → Bool) (start : Tree) (m : Machine) : Prop where
  activated : m.vars .activated = false
  hadLive : m.vars .hadLive = true
  present : present resolves (start RemoteDeployment.live) = true
  live : m.tree.Absent live
  backup : m.tree.under tx.backup = start.under RemoteDeployment.live
  failed : m.tree.Absent tx.failed

structure Active (tx : Transaction) (resolves : String → Bool) (start staged : Tree) (m : Machine) : Prop where
  activated : m.vars .activated = true
  live : m.tree live = some .dir
  staged : ∀ q, envFile q = false → m.tree (RemoteDeployment.live ++ q) = staged q
  backup : m.vars .hadLive = true ∧ RemoteDeployment.present resolves (start RemoteDeployment.live) = true ∧
      m.tree.under tx.backup = start.under RemoteDeployment.live ∨
    m.vars .hadLive = false ∧ start.Absent RemoteDeployment.live ∧ m.tree.Absent tx.backup
  failed : m.tree.Absent tx.failed

/-- Where the signal is not expected: the stage is live, and the flag does not say so. -/
structure Unrecorded (tx : Transaction) (resolves : String → Bool) (start : Tree) (m : Machine) : Prop where
  activated : m.vars .activated = false
  live : m.tree live = some .dir
  backup : m.vars .hadLive = true ∧ present resolves (start RemoteDeployment.live) = true ∧
      m.tree.under tx.backup = start.under RemoteDeployment.live ∨
    m.vars .hadLive = false ∧ start RemoteDeployment.live = none

/-- Enough to put the live tree back. -/
def Recoverable (tx : Transaction) (resolves : String → Bool) (start staged : Tree) (m : Machine) : Prop :=
  Intact tx start m ∨ Shelved tx resolves start m ∨ Active tx resolves start staged m

structure LiveBack (tx : Transaction) (start staged : Tree) (m : Machine) : Prop where
  live : m.tree.under live = start.under live
  backup : m.tree.Absent tx.backup
  failed : ∀ q, envFile q = false → m.tree (tx.failed ++ q) = none ∨ m.tree (tx.failed ++ q) = staged q

structure Waiting (tx : Transaction) (resolves : String → Bool) (start staged : Tree) (m : Machine) : Prop where
  place : m.tree.under live = start.under live ∧ m.tree.Absent tx.backup ∨
    m.vars .hadLive = true ∧ present resolves (start live) = true ∧ m.tree.Absent live ∧
      m.tree.under tx.backup = start.under live
  failed : ∀ q, envFile q = false → m.tree (tx.failed ++ q) = none ∨ m.tree (tx.failed ++ q) = staged q

theorem area_live : Area.live.root tx <+: live := List.prefix_rfl

theorem area_backup : Area.backup.root tx <+: tx.backup := List.prefix_rfl

theorem area_stage : Area.stage.root tx <+: tx.stage := List.prefix_rfl

theorem area_failed : Area.failed.root tx <+: tx.failed := List.prefix_rfl

theorem apart_live_backup : Apart live tx.backup := Area.apart (by decide) area_live area_backup

theorem apart_live_failed : Apart live tx.failed := Area.apart (by decide) area_live area_failed

theorem apart_backup_failed : Apart tx.backup tx.failed := Area.apart (by decide) area_backup area_failed

theorem Intact.waiting (h : Intact tx start m) : Waiting tx resolves start staged m :=
  ⟨.inl ⟨h.live, h.backup⟩, fun q _ => .inl (h.failed q)⟩

theorem Shelved.waiting (h : Shelved tx resolves start m) : Waiting tx resolves start staged m :=
  ⟨.inr ⟨h.hadLive, h.present, h.live, h.backup⟩, fun q _ => .inl (h.failed q)⟩

/-- A move onto nothing succeeds when nothing else fails it. -/
theorem exec_mv_absent {source destination : Path} (hsrc : m.tree source ≠ none) (hdst : m.tree destination = none)
    (hexec : Exec tx resolves false (.mv source destination) m b m') :
    m' = { m with tree := m.tree.rename source destination } := by
  have hmv := mv_absent hsrc hdst
  rcases exec_attempt (f := mv source destination) (fun _ _ => rfl) hexec with ⟨-, t, ht, rfl⟩ | ⟨-, -, hnone⟩
  · rw [hmv] at ht
    cases ht
    rfl
  · exact absurd (hmv.symm.trans (hnone rfl)) nofun

/-- The failed deployment is set aside. -/
theorem waiting_of_active (h : Active tx resolves start staged m)
    (hexec : Exec tx resolves false (.mv live tx.failed) m b m') : Waiting tx resolves start staged m' := by
  rw [exec_mv_absent (by simp [h.live]) h.failed.entry hexec]
  have hbackup : (m.tree.rename live tx.failed).under tx.backup = m.tree.under tx.backup :=
    Tree.under_rename_of_apart apart_live_backup apart_backup_failed.symm
  have hlive : (m.tree.rename live tx.failed).Absent live := Tree.absent_rename apart_live_failed
  refine ⟨?_, fun q hq => .inr ?_⟩
  · rcases h.backup with ⟨hhad, hpresent, hshelved⟩ | ⟨-, habsent, hnone⟩
    · exact .inr ⟨hhad, hpresent, hlive, hbackup.trans hshelved⟩
    · refine .inl ⟨?_, hnone.congr hbackup⟩
      exact (Tree.absent_iff.mp hlive).trans (Tree.absent_iff.mp habsent).symm
  · exact (congrFun Tree.under_rename q).trans (h.staged q hq)

theorem back_of_waiting (h : Waiting tx resolves start staged m)
    (hfound : present resolves (m.tree tx.backup) = true)
    (hexec : Exec tx resolves false (.mv tx.backup live) m b m') : LiveBack tx start staged m' := by
  have hsrc : m.tree tx.backup ≠ none := fun hnone => by simp [hnone, present] at hfound
  rcases h.place with ⟨-, hnone⟩ | ⟨-, -, habsent, hshelved⟩
  · exact absurd hnone.entry hsrc
  · rw [exec_mv_absent hsrc habsent.entry hexec]
    refine ⟨Tree.under_rename.trans hshelved, Tree.absent_rename apart_live_backup.symm, fun q hq => ?_⟩
    have hfailed : (m.tree.rename tx.backup live).under tx.failed = m.tree.under tx.failed :=
      Tree.under_rename_of_apart apart_backup_failed apart_live_failed
    change (m.tree.rename tx.backup live).under tx.failed q = none ∨
      (m.tree.rename tx.backup live).under tx.failed q = _
    rw [hfailed]
    exact h.failed q hq

theorem Waiting.back (h : Waiting tx resolves start staged m)
    (hmissing : m.vars .hadLive = false ∨ present resolves (m.tree tx.backup) = false) :
    LiveBack tx start staged m := by
  rcases h.place with ⟨hlive, hnone⟩ | ⟨hhad, hpresent, -, hshelved⟩
  · exact ⟨hlive, hnone, h.failed⟩
  · rcases hmissing with hmissing | hmissing
    · exact absurd (hhad.symm.trans hmissing) nofun
    · rw [Tree.entry_of_under hshelved, hpresent] at hmissing
      exact absurd hmissing nofun

theorem holds_restoreLive : Holds (Exec tx resolves false) (Recoverable tx resolves start staged)
    (restoreLive tx).tolerant (LiveBack tx start staged) fun _ _ => True := by
  refine .seq (M := Waiting tx resolves start staged)
    (.ite (T := Active tx resolves start staged) (F := Waiting tx resolves start staged) (fun s s' hs hexec => ?_)
      (fun s s' hs hexec => ?_) (fun _ _ => trivial)
      (.ite (T := Active tx resolves start staged) (fun s s' hs hexec => ?_) (fun s s' hs hexec => ?_)
        (fun _ _ => trivial)
        (.orTrue (fun s b s' hs hexec => waiting_of_active hs hexec) fun _ _ => trivial) .skip) .skip)
    (.ite (T := Waiting tx resolves start staged) (fun s s' hs hexec => ?_) (fun s s' hs hexec => ?_)
      (fun _ _ => trivial)
      (.ite (T := fun s => Waiting tx resolves start staged s ∧ present resolves (s.tree tx.backup) = true)
        (fun s s' hs hexec => ?_) (fun s s' hs hexec => ?_) (fun _ _ => trivial)
        (.orTrue (fun s b s' hs hexec => back_of_waiting hs.1 hs.2 hexec) fun _ _ => trivial) .skip) .skip)
  · obtain ⟨rfl, hset⟩ := exec_isSet hexec
    rcases hs with hs | hs | hs
    · exact absurd (hset.trans hs.activated) nofun
    · exact absurd (hset.trans hs.activated) nofun
    · exact hs
  · obtain ⟨rfl, hset⟩ := exec_isSet hexec
    rcases hs with hs | hs | hs
    · exact hs.waiting
    · exact hs.waiting
    · exact absurd (hset.trans hs.activated) nofun
  · obtain ⟨rfl, -⟩ := exec_testE hexec
    exact hs
  · obtain ⟨-, hmissing⟩ := exec_testE hexec
    rw [hs.live] at hmissing
    exact absurd hmissing nofun
  · obtain ⟨rfl, -⟩ := exec_isSet hexec
    exact hs
  · obtain ⟨rfl, hset⟩ := exec_isSet hexec
    exact hs.back (.inl hset.symm)
  · obtain ⟨rfl, hfound⟩ := exec_testE hexec
    exact ⟨hs, hfound.symm⟩
  · obtain ⟨rfl, hmissing⟩ := exec_testE hexec
    exact hs.back (.inr hmissing.symm)

section Congruence

variable (hvars : m'.vars = m.vars) (htree : ∀ p, LiveSpace tx p → m'.tree.under p = m.tree.under p)

include htree

theorem under_live_congr : m'.tree.under live = m.tree.under live := htree _ (.inl rfl)

theorem under_backup_congr : m'.tree.under tx.backup = m.tree.under tx.backup := htree _ (.inr (.inl rfl))

theorem under_failed_congr : m'.tree.under tx.failed = m.tree.under tx.failed := htree _ (.inr (.inr rfl))

theorem LiveBack.congr (h : LiveBack tx start staged m) : LiveBack tx start staged m' := by
  refine ⟨(under_live_congr htree).trans h.live, h.backup.congr (under_backup_congr htree), fun q hq => ?_⟩
  have hfailed : m'.tree (tx.failed ++ q) = m.tree (tx.failed ++ q) := congrFun (under_failed_congr htree) q
  rw [hfailed]
  exact h.failed q hq

include hvars

theorem Intact.congr (h : Intact tx start m) : Intact tx start m' :=
  ⟨hvars ▸ h.activated, (under_live_congr htree).trans h.live, h.backup.congr (under_backup_congr htree),
    h.failed.congr (under_failed_congr htree)⟩

theorem Shelved.congr (h : Shelved tx resolves start m) : Shelved tx resolves start m' :=
  ⟨hvars ▸ h.activated, hvars ▸ h.hadLive, h.present, h.live.congr (under_live_congr htree),
    (under_backup_congr htree).trans h.backup, h.failed.congr (under_failed_congr htree)⟩

theorem Active.congr (h : Active tx resolves start staged m) : Active tx resolves start staged m' := by
  refine ⟨hvars ▸ h.activated, (Tree.entry_congr (under_live_congr htree)).trans h.live,
    fun q hq => (congrFun (under_live_congr htree) q).trans (h.staged q hq),
    ?_, h.failed.congr (under_failed_congr htree)⟩
  rw [hvars, under_backup_congr htree]
  exact h.backup.imp_right fun hnone => ⟨hnone.1, hnone.2.1, hnone.2.2.congr (under_backup_congr htree)⟩

theorem Unrecorded.congr (h : Unrecorded tx resolves start m) : Unrecorded tx resolves start m' := by
  refine ⟨hvars ▸ h.activated, (Tree.entry_congr (under_live_congr htree)).trans h.live, ?_⟩
  rw [hvars, under_backup_congr htree]
  exact h.backup

theorem Recoverable.congr (h : Recoverable tx resolves start staged m) : Recoverable tx resolves start staged m' :=
  h.imp (·.congr hvars htree) (Or.imp (·.congr hvars htree) (·.congr hvars htree))

end Congruence

/-- From a recoverable state the rollback puts everything back. -/
theorem rolledBack_of_recoverable (hrun : Runs (Exec tx resolves false) (rollback tx).tolerant m .done m')
    (hlock : m.vars .lockAcquired = true) (hfiles : Restoring tx start [] m)
    (htriggers : TriggersKept tx resolves start m)
    (hlive : Recoverable tx resolves start staged m) : RolledBack tx start staged m'.tree := by
  have hback : LiveBack tx start staged m' := (rollback_live (fun _ _ hvars htree h => h.congr hvars htree)
    (fun _ _ _ htree h => h.congr htree) holds_restoreLive m .done m' ⟨hlock, hlive⟩ hrun).1 rfl
  have hrestored := (rollback_restores_files m .done m' ⟨hlock, hfiles⟩ hrun).1 rfl
  have htriggersBack := (rollback_restores_triggers m .done m' ⟨hlock, htriggers⟩ hrun).1 rfl
  exact ⟨hback.live, hback.backup, hback.failed, hrestored, htriggersBack⟩

/-- Before the lock the rollback changes nothing that counts. -/
theorem rolledBack_of_prelock (hrun : Runs (Exec tx resolves false) (rollback tx).tolerant m .done m')
    (hlock : m.vars .lockAcquired = false) (h : RolledBack tx start staged m.tree) :
    RolledBack tx start staged m'.tree := by
  let S : Path → Prop := fun p => LiveSpace tx p ∨ HarnessSpace p ∨ ConfigSpace p
  have hout {a : Area} (ha : a ≠ .live ∧ a ≠ .backup ∧ a ≠ .failed) (hl : a ≠ .localFiles) (hc : a ≠ .config) :
      Outside tx a S := fun p hp =>
    hp.elim (outside_liveSpace ha p) fun hp => hp.elim (outside_harnessSpace hl p) (outside_configSpace hc p)
  have hdepends : DependsOn S fun s => RolledBack tx start staged s.tree := fun s s' _ htree h => by
    have hlive : LiveBack tx start staged s' :=
      LiveBack.congr (m := s) (fun p hp => htree p (.inl hp)) ⟨h.live, h.backup, h.failed⟩
    exact ⟨hlive.live, hlive.backup, hlive.failed,
      dependsOn_restored s s' ‹_› (fun p hp => htree p (.inr (.inr hp))) h.serviceFiles,
      dependsOn_triggersBack s s' ‹_› (fun p hp => htree p (.inr (.inl hp))) h.triggers⟩
  exact (holds_prelock hdepends (hout (by decide) (by decide) (by decide))
    (hout (by decide) (by decide) (by decide))
    m .done m' ⟨hlock, h⟩ hrun).1 rfl

structure Spoiled (tx : Transaction) (start : Tree) (m : Machine) : Prop where
  live : m.tree live = some .dir
  old : start RemoteDeployment.live = none ∨ m.tree tx.backup ≠ none ∨
    ∀ q, m.tree (RemoteDeployment.live ++ ("worker-harness.backup." ++ tx.txid) :: q) =
      start (RemoteDeployment.live ++ q)

theorem Spoiled.congr (htree : ∀ p, LiveSpace tx p → m'.tree.under p = m.tree.under p) (h : Spoiled tx start m) :
    Spoiled tx start m' := by
  have hbackup : m'.tree tx.backup = m.tree tx.backup := Tree.entry_congr (under_backup_congr htree)
  refine ⟨(Tree.entry_congr (under_live_congr htree)).trans h.live,
    h.old.imp_right (Or.imp (hbackup ▸ ·) fun hold q => ?_)⟩
  exact (congrFun (under_live_congr htree) _).trans (hold q)

/-- A tree of finite depth is not inside of itself. -/
theorem not_rolledBack_of_spoiled (hready : Ready tx start) (h : Spoiled tx start m) :
    ¬RolledBack tx start staged m.tree := by
  intro hback
  have hlive : ∀ q, m.tree (live ++ q) = start (live ++ q) := fun q => congrFun hback.live q
  have hdir : start live = some .dir := by simpa [h.live] using (hlive []).symm
  rcases h.old with hnone | hbackup | hnested
  · rw [hdir] at hnone
    exact absurd hnone nofun
  · exact hbackup hback.backup.entry
  · have hdeep : ∀ n, start (live ++ List.replicate n ("worker-harness.backup." ++ tx.txid)) = some .dir := by
      intro n
      induction n with
      | zero => simpa using hdir
      | succ n ih =>
        rw [List.replicate_succ, ← hlive, hnested]
        exact ih
    obtain ⟨n, hdepth⟩ := hready.depth
    have hlen := hdepth _ (by rw [hdeep (n + 1)]; nofun)
    simp only [List.length_append, List.length_replicate] at hlen
    omega

/-- The backup is moved into the stage. -/
theorem spoiled_of_mv (hdir : m.tree live = some .dir) (hbackup : m.tree.under tx.backup = start.under live)
    (hexec : Exec tx resolves false (.mv tx.backup live) m b m') : Spoiled tx start m' := by
  have hland : landing tx.backup live m.tree = live ++ ["worker-harness.backup." ++ tx.txid] := if_pos hdir
  have hlive : ∀ p, ¬tx.backup <+: live ∧ ¬live ++ [p] <+: live := fun p =>
    ⟨apart_live_backup.2, fun hp => absurd hp.length_le (by simp)⟩
  rcases exec_attempt (f := mv tx.backup live) (fun _ _ => rfl) hexec with ⟨-, t, ht, rfl⟩ | ⟨-, rfl, -⟩
  · unfold mv at ht
    split at ht
    · cases ht
      rw [hland]
      refine ⟨?_, .inr (.inr fun q => ?_)⟩
      · show (m.tree.rename tx.backup (live ++ ["worker-harness.backup." ++ tx.txid])) live = some .dir
        rw [Tree.rename, Tree.graft_apply_of_not (hlive _).2, Tree.remove_apply_of_not (hlive "").1, hdir]
      · have hunder := congrFun (Tree.under_rename (t := m.tree) (p := tx.backup)
          (q := live ++ ["worker-harness.backup." ++ tx.txid])) q
        rw [hbackup, Tree.under_apply, List.append_assoc] at hunder
        exact hunder
    · cases ht
  · refine ⟨hdir, ?_⟩
    by_cases hnone : start live = none
    · exact .inl hnone
    · exact .inr (.inl fun habsent => hnone ((Tree.entry_of_under hbackup).symm.trans habsent))

theorem holds_restoreLive_unrecorded : Holds (Exec tx resolves false) (Unrecorded tx resolves start)
    (restoreLive tx).tolerant (Spoiled tx start) fun _ _ => True := by
  have hskip : ∀ s, Unrecorded tx resolves start s →
      (s.vars .hadLive = false ∨ present resolves (s.tree tx.backup) = false) → Spoiled tx start s := by
    intro s hs hmissing
    rcases hs.backup with ⟨hhad, hpresent, hshelved⟩ | ⟨-, hnone⟩
    · rcases hmissing with hmissing | hmissing
      · exact absurd (hhad.symm.trans hmissing) nofun
      · rw [Tree.entry_of_under hshelved, hpresent] at hmissing
        exact absurd hmissing nofun
    · exact ⟨hs.live, .inl hnone⟩
  refine .seq (M := Unrecorded tx resolves start)
    (.ite (T := fun _ => False) (F := Unrecorded tx resolves start) (fun s s' hs hexec => ?_)
      (fun s s' hs hexec => ?_)
      (fun _ _ => trivial) (fun _ _ _ hs => hs.elim) .skip)
    (.ite (T := fun s => Unrecorded tx resolves start s ∧ s.vars .hadLive = true) (fun s s' hs hexec => ?_)
      (fun s s' hs hexec => ?_) (fun _ _ => trivial)
      (.ite (T := fun s => Unrecorded tx resolves start s ∧ s.vars .hadLive = true) (fun s s' hs hexec => ?_)
        (fun s s' hs hexec => ?_) (fun _ _ => trivial)
        (.orTrue (fun s b s' hs hexec => ?_) fun _ _ => trivial) .skip)
        .skip)
  · obtain ⟨-, hset⟩ := exec_isSet hexec
    exact absurd (hset.trans hs.activated) nofun
  · obtain ⟨rfl, -⟩ := exec_isSet hexec
    exact hs
  · obtain ⟨rfl, hset⟩ := exec_isSet hexec
    exact ⟨hs, hset.symm⟩
  · obtain ⟨rfl, hset⟩ := exec_isSet hexec
    exact hskip _ hs (.inl hset.symm)
  · obtain ⟨rfl, -⟩ := exec_testE hexec
    exact hs
  · obtain ⟨rfl, hmissing⟩ := exec_testE hexec
    exact hskip _ hs.1 (.inr hmissing.symm)
  · rcases hs.1.backup with ⟨-, -, hshelved⟩ | ⟨hhad, -⟩
    · exact spoiled_of_mv hs.1.live hshelved hexec
    · exact absurd (hs.2.symm.trans hhad) nofun

/-- From there the rollback puts nothing back. -/
theorem not_rolledBack_of_unrecorded (hready : Ready tx start)
    (hrun : Runs (Exec tx resolves false) (rollback tx).tolerant m .done m') (hlock : m.vars .lockAcquired = true)
    (h : Unrecorded tx resolves start m) : ¬RolledBack tx start staged m'.tree :=
  not_rolledBack_of_spoiled hready ((rollback_live (fun _ _ hvars htree h => h.congr hvars htree)
    (fun _ _ _ htree h => h.congr htree) holds_restoreLive_unrecorded m .done m' ⟨hlock, h⟩ hrun).1 rfl)

end WorkerHarness.RemoteDeployment
