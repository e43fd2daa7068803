import WorkerHarness.DeploymentRollback

/-!
# Preparation of a deployment

Before the traps are set the script saves the service files and leaves everything else that counts as it
was.
-/

namespace WorkerHarness.RemoteDeployment

open FileTrees Scripts

variable {tx : Transaction} {resolves : String → Bool} {faulty : Bool} {start staged : Tree} {c : Command}
    {b : Bool}
  {m m' : Machine}

theorem ServiceFile.apart_saved_saved {f g : ServiceFile} (h : f ≠ g) : Apart (f.saved tx) (g.saved tx) := by
  have hname (dir : Path) {name name' : String} (hne : name ≠ name') : Apart (dir ++ [name]) (dir ++ [name']) :=
    apart_append_left (apart_cons hne [] []) dir
  have hdir {d d' : String} (hne : d ≠ d') (p q : Path) : Apart (tx.state ++ d :: p) (tx.state ++ d' :: q) :=
    apart_append_left (apart_cons hne p q) tx.state
  cases f with
  | unit name =>
    cases g with
    | unit name' => exact apart_append_left (hname ["systemd"] fun heq => h (congrArg _ heq)) tx.state
    | config _ | rcloneConf => exact hdir (by decide) _ _
  | config name =>
    cases g with
    | config name' => exact apart_append_left (hname ["worker-config"] fun heq => h (congrArg _ heq)) tx.state
    | unit _ | rcloneConf => exact hdir (by decide) _ _
  | rcloneConf =>
    cases g with
    | rcloneConf => exact absurd rfl h
    | unit _ | config _ => exact hdir (by decide) _ _

structure Saving (tx : Transaction) (start : Tree) (done : List ServiceFile) (m : Machine) : Prop where
  path : ∀ f : ServiceFile, m.tree f.path = start f.path
  copies : ∀ f : ServiceFile, m.tree (f.saved tx) = none ∨ m.tree (f.saved tx) = start f.path
  saved : ∀ f ∈ done, m.tree (f.saved tx) = start f.path

theorem dependsOn_saving (done : List ServiceFile) : DependsOn (FileSpace tx) (Saving tx start done) := by
  intro m m' _ htree h
  have hpath : ∀ f : ServiceFile, m'.tree f.path = m.tree f.path :=
    fun f => Tree.entry_congr (htree _ ⟨f, .inl rfl⟩)
  have hsaved : ∀ f : ServiceFile, m'.tree (f.saved tx) = m.tree (f.saved tx) := fun f =>
    Tree.entry_congr (htree _ ⟨f, .inr rfl⟩)
  exact ⟨fun f => (hpath f).trans (h.path f), fun f => (hsaved f).symm ▸ h.copies f,
    fun f hf => (hsaved f).trans (h.saved f hf)⟩

variable {f : ServiceFile} {done : List ServiceFile}

/-- A copy onto nothing, or onto an earlier copy, makes the entry. -/
theorem cp_again {src dst : Path} {t t' : Tree} (hdst : t dst = none ∨ t dst = t src) (h : cp src dst t = some t') :
    t' dst = t src := by
  unfold cp at h
  split at h
  · cases h
    by_cases hdir : t dst = some .dir
    · have hland : landing src dst t = dst ++ [src.getLastD ""] := if_pos hdir
      rw [hland, Tree.graft_apply_of_not fun hp => absurd hp.length_le (by simp)]
      exact hdst.resolve_left (by simp [hdir])
    · have hland : landing src dst t = dst := if_neg hdir
      rw [hland, Tree.entry_graft_self, Tree.under_apply, List.append_nil]
  · cases h

theorem saving_cp (h : Saving tx start done m)
    (hexec : Exec tx resolves faulty (.cp f.path (f.saved tx)) m true m') :
    Saving tx start (f :: done) m' := by
  have hother : ∀ p, Apart (f.saved tx) p → m'.tree p = m.tree p := fun p hp =>
    exec_entry (c := .cp f.path (f.saved tx)) hp.1 hexec
  have hself : m'.tree (f.saved tx) = start f.path := by
    rcases exec_attempt (f := cp f.path (f.saved tx)) (fun _ _ => rfl) hexec with ⟨-, t, ht, rfl⟩ | ⟨hfalse, -⟩
    · exact (cp_again ((h.copies f).imp_right fun hcopy => hcopy.trans (h.path f).symm) ht).trans (h.path f)
    · cases hfalse
  refine ⟨fun g => (hother _ ServiceFile.apart_saved.symm).trans (h.path g), fun g => ?_, fun g hg => ?_⟩
  · by_cases heq : g = f
    · exact .inr (heq ▸ hself)
    · exact hother _ (ServiceFile.apart_saved_saved (Ne.symm heq)) ▸ h.copies g
  · by_cases heq : g = f
    · exact heq ▸ hself
    · exact (hother _ (ServiceFile.apart_saved_saved (Ne.symm heq))).trans
        (h.saved g ((List.mem_cons.mp hg).resolve_left heq))

theorem saving_skip (h : Saving tx start done m) (hnone : m.tree f.path = none) :
    Saving tx start (f :: done) m := by
  refine ⟨h.path, h.copies, fun g hg => ?_⟩
  rcases List.mem_cons.mp hg with rfl | hg
  · have hstart : start g.path = none := (h.path g).symm.trans hnone
    rw [hstart]
    exact (h.copies g).elim id fun hcopy => hcopy.trans hstart
  · exact h.saved g hg

theorem holds_saveEntry (f : ServiceFile) (done : List ServiceFile) :
    Holds (Exec tx resolves faulty) (Saving tx start done)
    (saveEntry f.path (f.saved tx)) (Saving tx start (f :: done)) fun _ _ => True := by
  have hcopy : Holds (Exec tx resolves faulty) (Saving tx start done) (.run (.cp f.path (f.saved tx)))
      (Saving tx start (f :: done)) fun _ _ => True :=
    .run (fun s s' hs hexec => saving_cp hs hexec) (fun _ _ _ _ => trivial) fun _ _ => trivial
  refine .ite (fun s s' hs hexec => ?_) (fun s s' hs hexec => ?_) (fun _ _ => trivial) hcopy
    (.ite (P := fun s => Saving tx start done s ∧ present resolves (s.tree f.path) = false)
      (fun s s' hs hexec => ?_)
      (fun s s' hs hexec => ?_) (fun _ _ => trivial) hcopy .skip)
  · obtain ⟨rfl, -⟩ := exec_testE hexec
    exact hs
  · obtain ⟨rfl, hpresent⟩ := exec_testE hexec
    exact ⟨hs, hpresent.symm⟩
  · obtain ⟨rfl, -⟩ := exec_testL hexec
    exact hs.1
  · obtain ⟨rfl, hlink⟩ := exec_testL hexec
    exact saving_skip hs.1 (none_of_not_present hs.2 hlink.symm)

def KeptSpace (tx : Transaction) (p : Path) : Prop := LiveSpace tx p ∨ TriggerSpace tx p ∨ ConfigSpace p

/-- The commands before the traps. -/
inductive Preparing (tx : Transaction) : Command → Prop where
  | quiet {c : Command} : c.Quiet → Preparing tx c
  | mkdir : Preparing tx (.mkdir [tx.state ++ ["systemd"], tx.state ++ ["worker-config"],
    tx.state ++ ["rclone-config"],
      tx.state ++ ["pending"]])
  | cp (source : Path) {dir : String} (hdir : dir ≠ "pending") (name : String) :
      Preparing tx (.cp source (tx.state ++ [dir, name]))
  | write {name : String} (hname : name ≠ "pending") (lines : List String) :
    Preparing tx (.write (tx.state ++ [name]) lines)
  | copyContent (source : Path) (name : String) : Preparing tx (.copyContent source (tx.stage ++ [name]))

theorem preparing_saveEntry (source : Path) {dir : String} (hdir : dir ≠ "pending") (name : String) :
    (saveEntry source (tx.state ++ [dir, name])).Only (Preparing tx) :=
  ⟨.quiet trivial, .cp source hdir name, .quiet trivial, .cp source hdir name, trivial⟩

theorem preparing_preserveIntoStage (name : String) (sources : List Path) :
    (preserveIntoStage (tx.stage ++ [name]) sources).Only (Preparing tx) := by
  induction sources with
  | nil => trivial
  | cons source sources ih => exact ⟨.quiet trivial, ⟨.copyContent source name, trivial, trivial⟩, ih⟩

theorem preparing_prepare : (prepare tx).Only (Preparing tx) := by
  have hquiet {c : Command} (hc : c.Quiet) : Preparing tx c := .quiet hc
  refine ⟨⟨hquiet trivial, trivial, hquiet trivial⟩,
    ⟨hquiet trivial, hquiet trivial, hquiet trivial, hquiet trivial,
    hquiet trivial, hquiet trivial, trivial⟩, .mkdir, Script.only_forEach fun _ _ => ⟨?_, ?_, ?_, trivial⟩,
    Script.only_forEach fun _ _ => ?_, ?_, .write (by decide) _, .write (by decide) _, ?_,
      ⟨hquiet trivial, trivial, ?_⟩,
    hquiet trivial, ⟨hquiet trivial, hquiet trivial, trivial⟩, trivial⟩
  · exact preparing_saveEntry _ (by decide) _
  · exact ⟨hquiet nofun, trivial, trivial⟩
  · exact ⟨hquiet nofun, trivial, trivial⟩
  · exact preparing_saveEntry _ (by decide) _
  · exact preparing_saveEntry _ (by decide) _
  · exact preparing_preserveIntoStage _ _
  · exact preparing_preserveIntoStage _ _

theorem apart_keptSpace {name : String} (hname : name ≠ "pending") (rest : Path) {p : Path} (hp : KeptSpace tx p) :
    Apart (tx.state ++ name :: rest) p := by
  have harea : Area.state.root tx <+: tx.state ++ name :: rest := ⟨_, rfl⟩
  rcases hp with hp | ⟨trigger, -, rfl | rfl⟩ | hp
  · exact outside_liveSpace (by decide) p hp _ harea
  · exact Area.apart (by decide) harea (harness_area tx trigger)
  · exact apart_append_left (apart_cons hname rest [trigger]) tx.state
  · exact outside_configSpace (by decide) p hp _ harea

theorem outside_keptSpace : Outside tx .stage (KeptSpace tx) := fun p hp =>
  hp.elim (outside_liveSpace (by decide) p) fun hp => hp.elim (outside_triggerSpace (by decide) p)
    (outside_configSpace (by decide) p)

theorem Preparing.spares (h : Preparing tx c) : c.Spares tx (KeptSpace tx) := by
  cases h with
  | quiet hc => exact spares_quiet hc
  | mkdir =>
    refine ⟨fun p hp => avoids_mkdir fun q hq hpq => ?_, nofun⟩
    simp only [List.mem_cons, List.not_mem_nil, or_false] at hq
    rcases hq with rfl | rfl | rfl | rfl
    · exact (apart_keptSpace (by decide) [] hp).2 hpq
    · exact (apart_keptSpace (by decide) [] hp).2 hpq
    · exact (apart_keptSpace (by decide) [] hp).2 hpq
    · -- The directory of the pending triggers is above them.
      have harea : Area.state.root tx <+: tx.state ++ ["pending"] := ⟨_, rfl⟩
      rcases hp with hp | ⟨trigger, -, rfl | rfl⟩ | hp
      · exact (outside_liveSpace (by decide) p hp _ harea).2 hpq
      · exact (Area.apart (by decide) harea (harness_area tx trigger)).2 hpq
      · exact absurd hpq.length_le (by simp [Transaction.pending])
      · exact (outside_configSpace (by decide) p hp _ harea).2 hpq
  | cp source hdir name => exact ⟨fun p hp => avoids_cp (apart_keptSpace hdir [name] hp), nofun⟩
  | write hname lines => exact ⟨fun p hp r => not_prefix_of_apart (apart_keptSpace hname [] hp) r, nofun⟩
  | copyContent source name =>
    exact ⟨fun p hp r => not_prefix_of_apart (outside_keptSpace p hp _ (List.prefix_append ..)) r, nofun⟩

theorem Preparing.leaves (h : Preparing tx c) : c.Leaves tx tx.stage := by
  have hapart {p : Path} (hp : Area.state.root tx <+: p) : Apart p tx.stage :=
    Area.apart (b := .stage) (by decide) hp List.prefix_rfl
  cases h with
  | quiet hc =>
    have havoids : c.Avoids tx tx.stage := avoids_quiet hc
    simpa using havoids []
  | mkdir =>
    intro q hq
    simp only [List.mem_cons, List.not_mem_nil, or_false] at hq
    rcases hq with rfl | rfl | rfl | rfl <;> exact (hapart ⟨_, rfl⟩).2
  | cp source hdir name => exact (hapart ⟨_, rfl⟩).1
  | write hname lines => exact (hapart ⟨_, rfl⟩).1
  | copyContent source name => exact fun hp => absurd hp.length_le (by simp)

/-- The state of the script when the traps are set. -/
structure Prepared (tx : Transaction) (start : Tree) (m : Machine) : Prop where
  vars : ∀ v, m.vars v = false
  kept : ∀ p, KeptSpace tx p → m.tree.under p = start.under p
  saved : ∀ f ∈ serviceFiles tx, m.tree (f.saved tx) = start f.path
  stage : m.tree tx.stage = some .dir

theorem holds_kept : Holds (Exec tx resolves faulty)
    (fun s => (∀ v, s.vars v = false) ∧ ∀ p, KeptSpace tx p → s.tree.under p = start.under p) (prepare tx)
    (fun s => (∀ v, s.vars v = false) ∧ ∀ p, KeptSpace tx p → s.tree.under p = start.under p) fun _ _ => True := by
  refine holds_spares (S := KeptSpace tx) (fun s s' hvars htree hs => ?_)
    (Script.Only.imp (fun _ hc => hc.spares) preparing_prepare)
  exact ⟨hvars ▸ hs.1, fun p hp => (htree p hp).trans (hs.2 p hp)⟩

theorem holds_stage : Holds (Exec tx resolves faulty) (fun s => s.tree tx.stage = some .dir) (prepare tx)
    (fun s => s.tree tx.stage = some .dir) fun _ _ => True :=
  .keeps (Script.Only.imp (fun _ hc => ⟨fun _ _ _ hs h => (exec_entry hc.leaves h).trans hs,
    fun _ _ => ⟨trivial, trivial⟩⟩)
    preparing_prepare)

theorem spares_preserveIntoStage {name : String} {S : Path → Prop} (hS : Outside tx .stage S)
    (sources : List Path) :
    (preserveIntoStage (tx.stage ++ [name]) sources).Only (Command.Spares tx S) := by
  induction sources with
  | nil => trivial
  | cons source sources ih =>
    refine ⟨spares_quiet trivial, ⟨⟨fun p hp r => ?_, nofun⟩, trivial, trivial⟩, ih⟩
    exact not_prefix_of_apart (hS p hp _ (List.prefix_append ..)) r

/-- The service files are saved, each of them. -/
theorem holds_saved : Holds (Exec tx resolves faulty) (Saving tx start []) (prepare tx)
    (fun s => ∀ f ∈ serviceFiles tx, s.tree (f.saved tx) = start f.path) fun _ _ => True := by
  have hquiet {p : Script Command} (done : List ServiceFile) (hp : p.Only Command.Quiet) :
      Holds (Exec tx resolves faulty) (Saving tx start done) p (Saving tx start done) fun _ _ => True :=
    holds_quiet hp fun _ _ _ _ => ⟨trivial, trivial⟩
  have hspares {p : Script Command} (done : List ServiceFile) (hp : p.Only (Command.Spares tx (FileSpace tx))) :
      Holds (Exec tx resolves faulty) (Saving tx start done) p (Saving tx start done) fun _ _ => True :=
    holds_spares (dependsOn_saving done) hp
  have hout : Outside tx .stage (FileSpace tx) := outside_fileSpace (by decide)
  have hmkdir : (Script.run (.mkdir [tx.state ++ ["systemd"], tx.state ++ ["worker-config"],
    tx.state ++ ["rclone-config"],
      tx.state ++ ["pending"]])).Only (Command.Spares tx (FileSpace tx)) := by
    refine ⟨fun p hp => avoids_mkdir fun q hq hpq => ?_, fun _ h => Command.noConfusion h⟩
    simp only [List.mem_cons, List.not_mem_nil, or_false] at hq
    obtain ⟨f, rfl | rfl⟩ := hp
    · rcases hq with rfl | rfl | rfl | rfl <;>
        exact (Area.apart (a := .state) (by decide) ⟨_, rfl⟩ (f.path_area tx)).2 hpq
    · have hlen := hpq.length_le
      cases f <;> rcases hq with rfl | rfl | rfl | rfl <;> simp [ServiceFile.saved] at hlen
  have hwrite {name : String} (hname : name ∉ ["systemd", "worker-config", "rclone-config"]) (lines : List String) :
      (Script.run (.write (tx.state ++ [name]) lines)).Only (Command.Spares tx (FileSpace tx)) := by
    refine ⟨fun p hp r => not_prefix_of_apart ?_ r, fun _ h => Command.noConfusion h⟩
    simp only [List.mem_cons, List.not_mem_nil, or_false, not_or] at hname
    obtain ⟨f, rfl | rfl⟩ := hp
    · exact Area.apart (a := .state) (by decide) ⟨_, rfl⟩ (f.path_area tx)
    · cases f with
      | unit _ => exact apart_append_left (apart_cons hname.1 [] _) tx.state
      | config _ => exact apart_append_left (apart_cons hname.2.1 [] _) tx.state
      | rcloneConf => exact apart_append_left (apart_cons hname.2.2 [] _) tx.state
  have hunits : Holds (Exec tx resolves faulty) (Saving tx start []) (.forEach tx.managedUnits fun unitName => .all
      [saveEntry (unitDir ++ [unitName]) (tx.state ++ ["systemd", unitName]),
        .orTrue (.systemctl .isActive unitName),
        .orTrue (.systemctl .isEnabled unitName)]) (Saving tx start (tx.managedUnits.reverse.map .unit))
        fun _ _ => True := by
    refine Holds.mono (Holds.forEach (I := fun done => Saving tx start (done.map .unit)) tx.managedUnits []
      fun unitName _ done => (holds_saveEntry (.unit unitName) (done.map .unit)).seq
        (hquiet _ ⟨⟨Verb.noConfusion, trivial, trivial⟩, ⟨Verb.noConfusion, trivial, trivial⟩, trivial⟩))
        (fun _ hs => hs) (fun s hs => ?_)
      fun _ _ h => h
    simpa using hs
  have hconfigs (done : List ServiceFile) : Holds (Exec tx resolves faulty) (Saving tx start done)
      (.forEach workerConfigNames fun name => saveEntry (workerConfigDir ++ [name])
        (tx.state ++ ["worker-config", name]))
      (Saving tx start (workerConfigNames.reverse.map .config ++ done)) fun _ _ => True := by
    refine Holds.mono (Holds.forEach (I := fun names => Saving tx start (names.map .config ++ done))
      workerConfigNames []
      fun name _ names => holds_saveEntry (.config name) (names.map .config ++ done))
      (fun _ hs => hs) (fun s hs => ?_)
      fun _ _ h => h
    simpa using hs
  refine .seq (hquiet [] ⟨trivial, trivial, trivial⟩)
    (.seq (hquiet [] ⟨trivial, trivial, trivial, trivial, trivial, trivial,
    trivial⟩) (.seq (hspares [] hmkdir) (.seq hunits (.seq (hconfigs _) (.seq (holds_saveEntry .rcloneConf _)
      (Holds.mono (hspares _ ⟨hwrite (by decide) _, hwrite (by decide) _, spares_preserveIntoStage hout _,
        ⟨spares_quiet trivial,
        trivial, spares_preserveIntoStage hout _⟩, spares_quiet trivial,
        ⟨spares_quiet trivial, spares_quiet trivial, trivial⟩,
        trivial⟩) (fun _ hs => hs) (fun s hs f hf => hs.saved f ?_) fun _ _ h => h))))))
  simp only [serviceFiles, List.mem_append, List.mem_map, List.mem_singleton] at hf
  simp only [List.mem_cons, List.mem_append, List.mem_map, List.mem_reverse]
  rcases hf with (hf | hf) | rfl
  · exact .inr (.inr hf)
  · exact .inr (.inl hf)
  · exact .inl rfl

theorem prepared_of_runs (hready : Ready tx start)
    (h : Runs (Exec tx resolves faulty) (prepare tx) { tree := start } .done m) :
    Prepared tx start m := by
  have hkept := (holds_kept { tree := start } .done m ⟨fun _ => rfl, fun _ _ => rfl⟩ h).1 rfl
  refine ⟨hkept.1, hkept.2, (holds_saved { tree := start } .done m ⟨fun _ => rfl, fun f => ?_, nofun⟩ h).1 rfl,
    (holds_stage { tree := start } .done m hready.stage h).1 rfl⟩
  obtain ⟨r, hr⟩ : Area.state.root tx <+: f.saved tx := f.saved_area
  exact .inl (hr ▸ hready.state r)

end WorkerHarness.RemoteDeployment
