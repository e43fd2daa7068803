import WorkerHarness.RemoteDeployment

/-!
# What a command of the deployment leaves alone

The paths of a transaction lie in areas that do not meet. Most commands change neither files nor
variables; each of the others changes the files at few paths.
-/

namespace WorkerHarness.RemoteDeployment

open FileTrees Scripts

variable {tx : Transaction} {resolves : String → Bool} {faulty : Bool} {c : Command} {b : Bool} {m m' : Machine}
  {p q : Path}

inductive Area where
  | live
  | backup
  | failed
  | state
  | stage
  | config
  | localFiles
  deriving DecidableEq, Repr

namespace Area

def root (tx : Transaction) : Area → Path
  | live => RemoteDeployment.live
  | backup => tx.backup
  | failed => tx.failed
  | state => tx.state
  | stage => tx.stage
  | config => [".config"]
  | localFiles => [".local"]

/-- How the first component of the root starts. -/
def mark : Area → String
  | live => "worker-harness"
  | backup => "worker-harness.backup."
  | failed => "worker-harness.failed."
  | state => ".worker-harness.state."
  | stage => ".worker-harness.stage."
  | config => ".config"
  | localFiles => ".local"

theorem root_marked (tx : Transaction) (a : Area) : ∃ name rest, a.root tx = name :: rest ∧
    name.toList.take 22 = a.mark.toList := by
  have happend : ∀ s s' : String, s.toList.length = 22 → (s ++ s').toList.take 22 = s.toList := fun s s' hs => by
    rw [String.toList_append, List.take_left' hs]
  cases a with
  | live => exact ⟨_, _, rfl, by decide⟩
  | backup => exact ⟨_, _, rfl, happend _ _ (by decide)⟩
  | failed => exact ⟨_, _, rfl, happend _ _ (by decide)⟩
  | state => exact ⟨_, _, rfl, happend _ _ (by decide)⟩
  | stage =>
    obtain ⟨name, rest, hstage⟩ := tx.stage_head
    exact ⟨_, rest, hstage, happend _ _ (by decide)⟩
  | config => exact ⟨_, _, rfl, by decide⟩
  | localFiles => exact ⟨_, _, rfl, by decide⟩

theorem mark_injective : ∀ a b : Area, a.mark.toList = b.mark.toList → a = b := by
  intro a b h
  cases a <;> cases b <;> first | rfl | exact absurd h (by decide +kernel)

/-- Paths in different areas do not meet. -/
theorem apart {a b : Area} (hne : a ≠ b) (hp : a.root tx <+: p) (hq : b.root tx <+: q) : Apart p q := by
  obtain ⟨name, rest, hroot, hmark⟩ := a.root_marked tx
  obtain ⟨name', rest', hroot', hmark'⟩ := b.root_marked tx
  obtain ⟨r, rfl⟩ := hp
  obtain ⟨r', rfl⟩ := hq
  rw [hroot, hroot']
  refine apart_cons (fun heq => hne (mark_injective a b ?_)) _ _
  rw [← hmark, ← hmark', heq]

end Area

/-- The command changes neither files nor variables. -/
def Command.Quiet : Command → Prop
  | .assign _ | .mv _ _ | .cp _ _ | .copyContent _ _ | .rm _ | .rmTree _ | .mkdir _ | .write _ _ => False
  | .systemctl verb _ => verb ≠ .disable
  | .installService => False
  | _ => True

abbrev Exec (tx : Transaction) (resolves : String → Bool) (faulty : Bool) : Meaning Command Machine :=
  meaning (step tx resolves faulty)

theorem exec_quiet (h : Exec tx resolves faulty c m b m') (hc : c.Quiet) : m' = m := by
  obtain ⟨a, h⟩ := h
  cases c with
  | systemctl verb unitName =>
    cases verb with
    | disable => exact absurd rfl hc
    | _ =>
      cases h
      rfl
  | testF p =>
    simp only [step] at h
    split at h <;> cases h <;> rfl
  | testX p =>
    simp only [step] at h
    split at h <;> cases h <;> rfl
  | chmod p =>
    simp only [step] at h
    split at h <;> cases h <;> rfl
  | assign _ | mv _ _ | cp _ _ | copyContent _ _ | rm _ | rmTree _ | mkdir _ | write _ _ => exact hc.elim
  | installService => exact hc.elim
  | _ =>
    cases h
    rfl

theorem quiet_stopUnitSafely (unitName : String) : (stopUnitSafely unitName).Only Command.Quiet :=
  ⟨nofun, ⟨nofun, nofun, trivial, trivial⟩, trivial⟩

theorem quiet_waitUnitInactive (unitName : String) (attempts : ℕ) :
    (waitUnitInactive unitName attempts).Only Command.Quiet := by
  induction attempts with
  | zero => trivial
  | succ attempts ih => exact ⟨nofun, ⟨trivial, ih⟩, trivial⟩

theorem quiet_quiesce : quiesce.Only Command.Quiet :=
  ⟨quiet_stopUnitSafely _, quiet_stopUnitSafely _, quiet_waitUnitInactive _ _, quiet_waitUnitInactive _ _,
    trivial, trivial⟩

theorem quiet_unmount (unitName : String) : (unmount unitName).Only Command.Quiet :=
  ⟨⟨trivial, ⟨trivial, trivial, trivial⟩, trivial⟩, trivial, trivial, trivial⟩

theorem quiet_releaseMount (unitName : String) : (releaseMount tx unitName).Only Command.Quiet :=
  ⟨trivial, ⟨trivial, quiet_unmount _, trivial⟩, trivial, quiet_unmount _, trivial⟩

theorem quiet_stopServices : (stopServices tx).Only Command.Quiet :=
  ⟨quiet_stopUnitSafely _, Script.only_forEach fun _ _ => ⟨quiet_stopUnitSafely _, quiet_releaseMount _⟩⟩

theorem quiet_healthCheck (required attempts streak : ℕ) :
    (healthCheck required attempts streak).Only Command.Quiet := by
  induction attempts generalizing streak with
  | zero =>
    unfold healthCheck
    split <;> trivial
  | succ attempts ih =>
    have hagain : ∀ streak, (Script.seq (.run .sleep) (healthCheck required attempts streak)).Only Command.Quiet :=
      fun streak => ⟨trivial, ih streak⟩
    refine ⟨nofun, ⟨trivial, ?_, hagain 0⟩, hagain 0⟩
    split
    · trivial
    · exact hagain (streak + 1)

theorem quiet_enableUnitFile (unitName : String) : (enableUnitFile unitName).Only Command.Quiet :=
  ⟨nofun, trivial, trivial⟩

theorem quiet_restoreServiceState : (restoreServiceState tx).Only Command.Quiet :=
  ⟨⟨nofun, trivial, trivial⟩, Script.only_forEach fun _ _ => quiet_enableUnitFile _,
    Script.only_forEach fun _ _ => ⟨nofun, trivial, trivial⟩, trivial⟩

theorem quiet_restorePrelockPaths : (restorePrelockPaths tx).Only Command.Quiet := by
  refine Script.only_forEach fun pathUnit _ =>
    ⟨Script.only_forEach fun value _ => ?_, Script.only_forEach fun value _ => ?_⟩
  · split
    · exact quiet_enableUnitFile _
    · trivial
  · split
    · exact ⟨nofun, trivial, trivial⟩
    · trivial

/-- Quiet scripts keep everything. -/
theorem holds_quiet {I : Machine → Prop} {R : Ending Command → Machine → Prop} {s : Script Command}
    (hs : s.Only Command.Quiet) (hR : ∀ c, c.Quiet → ∀ m, I m → R (.failed c) m ∧ R (.signalled c) m) :
    Holds (Exec tx resolves faulty) I s I R :=
  .keeps (Script.Only.imp (fun c hc => ⟨fun _ _ _ hm h => exec_quiet h hc ▸ hm, hR c hc⟩) hs)

theorem attempt_cases {f : Tree → Option Tree} {a : Answer} (h : attempt faulty f a m = some (b, m')) :
    b = true ∧ (∃ t, f m.tree = some t ∧ m' = { m with tree := t }) ∨
      b = false ∧ m' = m ∧ (faulty = false → f m.tree = none) := by
  unfold attempt at h
  split at h
  · next hnone =>
    cases h
    exact .inr ⟨rfl, rfl, fun _ => hnone⟩
  · next t ht =>
    split at h
    · cases h
      exact .inl ⟨rfl, t, ht, rfl⟩
    · split at h
      · next hf =>
        cases h
        exact .inr ⟨rfl, rfl, fun hfalse => by simp [hf] at hfalse⟩
      · cases h

/-- A command on files succeeds, or it fails and changes nothing. -/
theorem exec_attempt {f : Tree → Option Tree} (hstep : ∀ a m, step tx resolves faulty c a m = attempt faulty f a m)
    (h : Exec tx resolves faulty c m b m') :
    b = true ∧ (∃ t, f m.tree = some t ∧ m' = { m with tree := t }) ∨
      b = false ∧ m' = m ∧ (faulty = false → f m.tree = none) := by
  obtain ⟨a, h⟩ := h
  exact attempt_cases (hstep a m ▸ h)

theorem none_of_not_present {e : Option Entry} (he : present resolves e = false) (hl : isLink e = false) :
    e = none := by
  cases e with
  | none => rfl
  | some entry =>
    cases entry with
    | file content => cases he
    | link target => cases hl
    | dir => cases he

theorem exec_testE {p : Path} (h : Exec tx resolves faulty (.testE p) m b m') : m' = m ∧
    b = present resolves (m.tree p) := by
  obtain ⟨a, h⟩ := h
  cases h
  exact ⟨rfl, rfl⟩

theorem exec_testL {p : Path} (h : Exec tx resolves faulty (.testL p) m b m') : m' = m ∧ b = isLink (m.tree p) := by
  obtain ⟨a, h⟩ := h
  cases h
  exact ⟨rfl, rfl⟩

theorem exec_isSet {v : Variable} (h : Exec tx resolves faulty (.isSet v) m b m') : m' = m ∧ b = m.vars v := by
  obtain ⟨a, h⟩ := h
  cases h
  exact ⟨rfl, rfl⟩

/-- Disabling a unit may delete the link to its file. -/
theorem disable_cases {unitName : String} {a : Answer}
    (h : step tx resolves faulty (.systemctl .disable unitName) a m = some (b, m')) :
    m' = m ∨ isLink (m.tree (unitDir ++ [unitName])) = true ∧
      m' = { m with tree := m.tree.remove (unitDir ++ [unitName]) } := by
  simp only [step] at h
  split at h
  · next hlink =>
    cases h
    exact .inr ⟨hlink.2, rfl⟩
  · cases h
    exact .inl rfl

def Command.Leaves (tx : Transaction) (p : Path) : Command → Prop
  | .mv source destination => ¬source <+: p ∧ ¬destination <+: p
  | .cp _ destination | .copyContent _ destination => ¬destination <+: p
  | .rm q | .write q _ => ¬q <+: p
  | .rmTree qs => ∀ q ∈ qs, ¬q <+: p
  | .mkdir qs => ∀ q ∈ qs, ¬p <+: q
  | .systemctl .disable unitName => ¬unitDir ++ [unitName] <+: p
  | .installService => (protectedPaths tx).any (·.isPrefixOf p) = true
  | _ => True

theorem foldlM_entry {f : Path → Tree → Option Tree} {qs : List Path} {t t' : Tree}
    (hf : ∀ q ∈ qs, ∀ t t', f q t = some t' → t' p = t p) (h : qs.foldlM (fun t q => f q t) t = some t') :
    t' p = t p := by
  induction qs generalizing t with
  | nil =>
    cases h
    rfl
  | cons q qs ih =>
    rw [List.foldlM_cons] at h
    obtain ⟨t₁, h₁, h⟩ := Option.bind_eq_some_iff.mp h
    exact (ih (fun q hq => hf q (by simp [hq])) h).trans (hf q (by simp) t t₁ h₁)

/-- The last write to the path counts. -/
theorem foldl_put (ws : List (Path × Option Entry)) (t : Tree) :
    ws.foldl put t p = t p ∨ ∃ w ∈ ws, w.1 = p ∧ ws.foldl put t p = w.2 := by
  induction ws generalizing t with
  | nil => exact .inl rfl
  | cons w ws ih =>
    rcases ih (put t w) with hput | ⟨w', hw', hp, hput⟩
    · by_cases hp : p = w.1
      · exact .inr ⟨w, by simp, hp.symm, hput.trans (if_pos hp)⟩
      · exact .inl (hput.trans (if_neg hp))
    · exact .inr ⟨w', by simp [hw'], hp, hput⟩

/-- The entries that `install-service.sh` finds and leaves. -/
theorem exec_installService (h : Exec tx resolves faulty .installService m b m') (p : Path) :
    m'.tree p = m.tree p ∨ installs tx (p, m'.tree p) = true := by
  obtain ⟨a, h⟩ := h
  simp only [step] at h
  split at h
  · next hall =>
    cases h
    rcases foldl_put (p := p) a.writes m.tree with hput | ⟨w, hw, rfl, hput⟩
    · exact .inl hput
    · refine .inr ?_
      change installs tx (w.1, a.writes.foldl put m.tree w.1) = true
      rw [hput]
      exact List.all_eq_true.mp hall w hw
  · cases h

theorem exec_entry (hc : c.Leaves tx p) (h : Exec tx resolves faulty c m b m') : m'.tree p = m.tree p := by
  have hexec := h
  obtain ⟨a, h⟩ := h
  have hattempt : ∀ {faulty : Bool} {f : Tree → Option Tree}, (∀ t', f m.tree = some t' → t' p = m.tree p) →
      attempt faulty f a m = some (b, m') → m'.tree p = m.tree p := by
    intro faulty f hf h
    rcases attempt_cases h with ⟨-, t, ht, rfl⟩ | ⟨-, rfl, -⟩
    · exact hf t ht
    · rfl
  cases c with
  | mv source destination => exact hattempt (fun t' ht => mv_entry ht hc.1 hc.2) h
  | cp source destination => exact hattempt (fun t' ht => cp_entry ht hc) h
  | copyContent source destination =>
    simp only [step] at h
    split at h
    · exact hattempt (fun t' ht => write_entry ht hc) h
    · exact hattempt (fun t' ht => write_entry ht hc) h
    · cases h
      rfl
  | rm q => exact hattempt (fun t' ht => rm_entry ht hc) h
  | write q lines => exact hattempt (fun t' ht => write_entry ht hc) h
  | rmTree qs =>
    simp only [step] at h
    exact hattempt (fun t' ht => foldlM_entry (f := rmTree) (fun q hq t t' ht => rmTree_entry ht (hc q hq)) ht) h
  | mkdir qs =>
    simp only [step] at h
    exact hattempt (fun t' ht => foldlM_entry (f := mkdir) (fun q hq t t' ht => mkdir_entry ht (.inr (hc q hq))) ht)
      h
  | installService =>
    rcases exec_installService hexec p with heq | hinstalls
    · exact heq
    · simp only [Command.Leaves] at hc
      simp [installs, hc] at hinstalls
  | systemctl verb unitName =>
    by_cases hverb : verb = .disable
    · subst hverb
      rcases disable_cases h with rfl | ⟨-, rfl⟩
      · rfl
      · exact Tree.remove_apply_of_not hc
    · rw [exec_quiet ⟨a, h⟩ hverb]
  | assign v =>
    cases h
    rfl
  | _ => rw [exec_quiet ⟨a, h⟩ trivial]

def Command.Avoids (tx : Transaction) (p : Path) (c : Command) : Prop := ∀ r, c.Leaves tx (p ++ r)

theorem exec_under (hc : c.Avoids tx p) (h : Exec tx resolves faulty c m b m') : m'.tree.under p = m.tree.under p :=
  funext fun r => exec_entry (hc r) h

theorem not_prefix_of_apart (h : Apart q p) (r : Path) : ¬q <+: p ++ r := by simpa using (apart_append h [] r).1

theorem avoids_mv {source destination : Path} (hs : Apart source p) (hd : Apart destination p) :
    (Command.mv source destination).Avoids tx p := fun r => ⟨not_prefix_of_apart hs r, not_prefix_of_apart hd r⟩

theorem avoids_cp {source destination : Path} (hd : Apart destination p) :
    (Command.cp source destination).Avoids tx p :=
  fun r => not_prefix_of_apart hd r

theorem avoids_rm (hq : Apart q p) : (Command.rm q).Avoids tx p := fun r => not_prefix_of_apart hq r

theorem avoids_rmTree {qs : List Path} (hqs : ∀ q ∈ qs, Apart q p) : (Command.rmTree qs).Avoids tx p :=
  fun r q hq => not_prefix_of_apart (hqs q hq) r

theorem avoids_mkdir {qs : List Path} (hqs : ∀ q ∈ qs, ¬p <+: q) : (Command.mkdir qs).Avoids tx p :=
  fun r q hq hp => hqs q hq ((List.prefix_append p r).trans hp)

theorem avoids_disable {unitName : String} (h : Apart (unitDir ++ [unitName]) p) :
    (Command.systemctl .disable unitName).Avoids tx p := fun r => not_prefix_of_apart h r

theorem avoids_quiet (hc : c.Quiet) : c.Avoids tx p := by
  intro r
  cases c with
  | systemctl verb unitName =>
    cases verb with
    | disable => exact absurd rfl hc
    | _ => trivial
  | assign _ | mv _ _ | cp _ _ | copyContent _ _ | rm _ | rmTree _ | mkdir _ | write _ _ | installService =>
    exact hc.elim
  | _ => trivial

/-- Only an assignment changes a variable. -/
theorem exec_vars (hc : ∀ v, c ≠ .assign v) (h : Exec tx resolves faulty c m b m') : m'.vars = m.vars := by
  obtain ⟨a, h⟩ := h
  have hattempt : ∀ {faulty : Bool} {f : Tree → Option Tree}, attempt faulty f a m = some (b, m') →
    m'.vars = m.vars := by
    intro faulty f h
    rcases attempt_cases h with ⟨-, t, -, rfl⟩ | ⟨-, rfl, -⟩ <;> rfl
  cases c with
  | assign v => exact absurd rfl (hc v)
  | mv _ _ | cp _ _ | rm _ | write _ _ => exact hattempt h
  | rmTree _ | mkdir _ =>
    simp only [step] at h
    exact hattempt h
  | copyContent source destination =>
    simp only [step] at h
    split at h
    · exact hattempt h
    · exact hattempt h
    · cases h
      rfl
  | installService =>
    simp only [step] at h
    split at h <;> cases h
    rfl
  | systemctl verb unitName =>
    by_cases hverb : verb = .disable
    · subst hverb
      rcases disable_cases h with rfl | ⟨-, rfl⟩ <;> rfl
    · rw [exec_quiet ⟨a, h⟩ hverb]
  | _ => rw [exec_quiet ⟨a, h⟩ trivial]

def LiveSpace (tx : Transaction) (p : Path) : Prop := p = live ∨ p = tx.backup ∨ p = tx.failed

def TriggerSpace (tx : Transaction) (p : Path) : Prop :=
  ∃ name ∈ triggerNames, p = harnessDir ++ [name] ∨ p = tx.pending name

def HarnessSpace (p : Path) : Prop := ∃ name ∈ triggerNames, p = harnessDir ++ [name]

def FileSpace (tx : Transaction) (p : Path) : Prop := ∃ f : ServiceFile, p = f.path ∨ p = f.saved tx

def ConfigSpace (p : Path) : Prop := ∃ f : ServiceFile, p = f.path

def Outside (tx : Transaction) (a : Area) (S : Path → Prop) : Prop := ∀ p, S p → ∀ q, a.root tx <+: q → Apart q p

theorem ServiceFile.path_area (tx : Transaction) (f : ServiceFile) : Area.config.root tx <+: f.path := by
  cases f <;> exact ⟨_, rfl⟩

theorem ServiceFile.saved_area (f : ServiceFile) : Area.state.root tx <+: f.saved tx := by
  cases f <;> exact ⟨_, rfl⟩

theorem harness_area (tx : Transaction) (name : String) :
    Area.localFiles.root tx <+: harnessDir ++ [name] := ⟨_, rfl⟩

theorem pending_area (name : String) : Area.state.root tx <+: tx.pending name := ⟨_, rfl⟩

theorem outside_liveSpace {a : Area} (ha : a ≠ .live ∧ a ≠ .backup ∧ a ≠ .failed) :
    Outside tx a (LiveSpace tx) := by
  intro p hp q hq
  rcases hp with rfl | rfl | rfl
  · exact Area.apart ha.1 hq (show Area.live.root tx <+: live from List.prefix_rfl)
  · exact Area.apart ha.2.1 hq (show Area.backup.root tx <+: tx.backup from List.prefix_rfl)
  · exact Area.apart ha.2.2 hq (show Area.failed.root tx <+: tx.failed from List.prefix_rfl)

theorem outside_harnessSpace {a : Area} (ha : a ≠ .localFiles) : Outside tx a HarnessSpace := by
  rintro p ⟨name, -, rfl⟩ q hq
  exact Area.apart ha hq (harness_area tx name)

theorem outside_triggerSpace {a : Area} (ha : a ≠ .localFiles ∧ a ≠ .state) : Outside tx a (TriggerSpace tx) := by
  rintro p ⟨name, -, rfl | rfl⟩ q hq
  · exact Area.apart ha.1 hq (harness_area tx name)
  · exact Area.apart ha.2 hq (pending_area name)

theorem outside_configSpace {a : Area} (ha : a ≠ .config) : Outside tx a ConfigSpace := by
  rintro p ⟨f, rfl⟩ q hq
  exact Area.apart ha hq (f.path_area tx)

theorem outside_fileSpace {a : Area} (ha : a ≠ .config ∧ a ≠ .state) : Outside tx a (FileSpace tx) := by
  rintro p ⟨f, rfl | rfl⟩ q hq
  · exact Area.apart ha.1 hq (f.path_area tx)
  · exact Area.apart ha.2 hq f.saved_area

/-- The command changes no file in the space, and no variable. -/
def Command.Spares (tx : Transaction) (S : Path → Prop) (c : Command) : Prop :=
  (∀ p, S p → c.Avoids tx p) ∧ ∀ v, c ≠ .assign v

/-- Only the files in the space and the variables count. -/
def DependsOn (S : Path → Prop) (A : Machine → Prop) : Prop :=
  ∀ m m' : Machine, m'.vars = m.vars → (∀ p, S p → m'.tree.under p = m.tree.under p) → A m → A m'

variable {S : Path → Prop} {A : Machine → Prop}

theorem exec_spares (hA : DependsOn S A) (hc : c.Spares tx S) (hm : A m) (h : Exec tx resolves faulty c m b m') :
    A m' :=
  hA m m' (exec_vars hc.2 h) (fun p hp => exec_under (hc.1 p hp) h) hm

theorem spares_quiet (hc : c.Quiet) : c.Spares tx S := by
  refine ⟨fun p _ => avoids_quiet hc, fun v heq => ?_⟩
  subst heq
  exact hc

theorem holds_spares {s : Script Command} (hA : DependsOn S A) (hs : s.Only (Command.Spares tx S)) :
    Holds (Exec tx resolves faulty) A s A fun _ _ => True :=
  .keeps (Script.Only.imp (fun _ hc => ⟨fun _ _ _ hm h => exec_spares hA hc hm h, fun _ _ => ⟨trivial, trivial⟩⟩)
    hs)

theorem spares_of_quiet {s : Script Command} (hs : s.Only Command.Quiet) : s.Only (Command.Spares tx S) :=
  Script.Only.imp (fun _ => spares_quiet) hs

theorem spares_mv {source destination : Path} {a a' : Area} (hs : a.root tx <+: source)
    (hd : a'.root tx <+: destination)
    (ha : Outside tx a S) (ha' : Outside tx a' S) : (Command.mv source destination).Spares tx S :=
  ⟨fun p hp => avoids_mv (ha p hp source hs) (ha' p hp destination hd), nofun⟩

theorem spares_rmTree {qs : List Path} (as : List Area) (hqs : ∀ q ∈ qs, ∃ a ∈ as, a.root tx <+: q)
    (has : ∀ a ∈ as, Outside tx a S) : (Command.rmTree qs).Spares tx S := by
  refine ⟨fun p hp => avoids_rmTree fun q hq => ?_, nofun⟩
  obtain ⟨a, ha, haq⟩ := hqs q hq
  exact has a ha p hp q haq

theorem spares_disable (hS : Outside tx .config S) (unitName : String) :
    (Command.systemctl .disable unitName).Spares tx S :=
  ⟨fun p hp => avoids_disable (hS p hp _ (ServiceFile.path_area tx (.unit unitName))), nofun⟩

theorem spares_mkdir {q : Path} {a : Area} (hq : a.root tx <+: q) (hS : Outside tx a S) :
    (Command.mkdir [q]).Spares tx S := by
  refine ⟨fun p hp => avoids_mkdir fun q' hq' hpq => ?_, nofun⟩
  rw [List.mem_singleton.mp hq'] at hpq
  exact (hS p hp q hq).2 hpq

theorem spares_saveEntry {source destination : Path} {a : Area} (hd : a.root tx <+: destination)
    (hS : Outside tx a S) :
    (saveEntry source destination).Only (Command.Spares tx S) := by
  have hcp : (Command.cp source destination).Spares tx S := ⟨fun p hp => avoids_cp (hS p hp destination hd), nofun⟩
  exact ⟨spares_quiet trivial, hcp, spares_quiet trivial, hcp, trivial⟩

theorem spares_restorePathSet {source destination : Path} (hd : Area.config.root tx <+: destination)
    (hS : Outside tx .config S) (names : List String) :
    (restorePathSet source destination names).Only (Command.Spares tx S) := by
  refine ⟨spares_mkdir hd hS, Script.only_forEach fun name _ => ⟨?_, ?_⟩⟩
  · exact ⟨fun p hp => avoids_rm (hS p hp _ (hd.trans (List.prefix_append ..))), nofun⟩
  · exact spares_saveEntry (hd.trans (List.prefix_append ..)) hS

theorem spares_restoreFiles (hS : Outside tx .config S) : (restoreFiles tx).Only (Command.Spares tx S) := by
  refine ⟨Script.only_forEach fun _ _ => ⟨spares_quiet nofun, trivial, trivial⟩, Script.only_forEach fun u _ => ?_,
    ?_, ?_, ?_,
    trivial⟩
  · exact ⟨spares_disable hS u, trivial, trivial⟩
  · exact spares_restorePathSet ⟨_, rfl⟩ hS _
  · exact spares_restorePathSet ⟨_, rfl⟩ hS _
  · exact spares_restorePathSet ⟨_, rfl⟩ hS _

theorem spares_restoreLive (hlive : Outside tx .live S) (hbackup : Outside tx .backup S)
    (hfailed : Outside tx .failed S) :
    (restoreLive tx).Only (Command.Spares tx S) := by
  have hroot : ∀ a : Area, a.root tx <+: a.root tx := fun _ => List.prefix_rfl
  refine ⟨⟨spares_quiet trivial, ⟨spares_quiet trivial, ?_, trivial⟩, trivial⟩,
    spares_quiet trivial, ⟨spares_quiet trivial, ?_, trivial⟩, trivial⟩
  · exact spares_mv (hroot .live) (hroot .failed) hlive hfailed
  · exact spares_mv (hroot .backup) (hroot .live) hbackup hlive

theorem spares_restorePendingTriggers (hlocal : Outside tx .localFiles S) (hstate : Outside tx .state S) :
    (restorePendingTriggers tx).Only (Command.Spares tx S) := by
  refine ⟨spares_mkdir ⟨_, rfl⟩ hlocal, Script.only_forEach fun name _ => ⟨spares_quiet trivial, ?_, trivial⟩⟩
  exact spares_mv (pending_area name) (harness_area tx name) hstate hlocal

theorem spares_cleanup (hstage : Outside tx .stage S) (hstate : Outside tx .state S) :
    (Script.run (.rmTree [tx.stage, tx.state])).Only (Command.Spares tx S) := by
  refine spares_rmTree [.stage, .state] (fun q hq => ?_) fun a ha => ?_
  · simp only [List.mem_cons, List.not_mem_nil, or_false] at hq
    rcases hq with rfl | rfl
    · exact ⟨.stage, by simp, List.prefix_rfl⟩
    · exact ⟨.state, by simp, List.prefix_rfl⟩
  · simp only [List.mem_cons, List.not_mem_nil, or_false] at ha
    rcases ha with rfl | rfl
    · exact hstage
    · exact hstate

end WorkerHarness.RemoteDeployment
