import WorkerHarness.RemoteShim

/-!
# What passes the shim

Whatever command arrives, the shim refuses it and has done nothing, or its verb is in the table with
operands that every check of the verb admits.
-/

namespace WorkerHarness.ShimConfinement

open BashStrings RemoteShim ShimM

/-- `realpath` prints resolved names. -/
structure Resolves (host : ShimHost) : Prop where
  existing : ∀ path resolved, host.realpathExisting path = some resolved → Resolved resolved
  missing : ∀ path resolved, host.realpathMissing path = some resolved → Resolved resolved

/-- The operand is written beneath the directory, without `..`, and so is what it resolves to. -/
structure PathBeneath (host : ShimHost) (root path : Bytes) : Prop where
  literal : Beneath root path
  traversal : ¬utf8 ".." <:+: path
  resolved : ∃ target, host.realpathMissing path = some target ∧ StrictlyBeneath root target

/-- The operand is a reference, and not a range. -/
structure Ref (value : Bytes) : Prop where
  pattern : refPattern value = true
  range : ¬utf8 ".." <:+: value

/-- The verbs of the table with the operands that they take. -/
inductive Admitted (host : ShimHost) (homeRoot : Bytes) : Bytes → List Bytes → Prop where
  | herdr {args : List Bytes} : args ≠ [] → Admitted host homeRoot (utf8 "herdr") args
  | herdrUp : Admitted host homeRoot (utf8 "herdr-up") []
  | worktreeAdd {repo branch base destination : Bytes} : PathBeneath host homeRoot repo → Ref branch → Ref base →
      PathBeneath host (cacheRoot host) destination →
      Admitted host homeRoot (utf8 "worktree-add") [repo, branch, base, destination]
  | worktreeRemove {repo worktree : Bytes} : PathBeneath host homeRoot repo →
      PathBeneath host (cacheRoot host) worktree → Admitted host homeRoot (utf8 "worktree-remove") [repo, worktree]
  | branchDelete {repo branch : Bytes} : PathBeneath host homeRoot repo → Ref branch →
      Admitted host homeRoot (utf8 "branch-delete") [repo, branch]
  | push {repo branch : Bytes} : PathBeneath host homeRoot repo → Ref branch →
      Admitted host homeRoot (utf8 "push") [repo, branch]
  | prCreate {slug branch base title body : Bytes} : slugPattern slug = true → Ref branch → Ref base →
      PathBeneath host (cacheRoot host) title → PathBeneath host (cacheRoot host) body →
      Admitted host homeRoot (utf8 "pr-create") [slug, branch, base, title, body]
  | tail {path offset : Bytes} : PathBeneath host homeRoot path → offsetPattern offset = true →
      Admitted host homeRoot (utf8 "tail") [path, offset]
  | writeFile {path : Bytes} : PathBeneath host (cacheRoot host) path →
    Admitted host homeRoot (utf8 "write-file") [path]
  | rmFile {path : Bytes} : PathBeneath host (cacheRoot host) path → Admitted host homeRoot (utf8 "rm-file") [path]

/-- The part of the script refuses and has done nothing, or `P` holds. -/
def Guards {α : Type} (p : ShimM α) (P : Prop) : Prop :=
  ∀ log, P ∨ ∃ message, p log = (.error (.refused message), log)

variable {α β : Type} {P : Prop} {Q : α → Prop} {p : ShimM α} {f : α → ShimM β} {host : ShimHost} {homeRoot : Bytes}

theorem guards_of (h : P) : Guards p P := fun _ => .inl h

theorem guards_refuse (message : Bytes) : Guards (refuse message : ShimM α) P := fun _ => .inr ⟨_, rfl⟩

theorem Guards.imp {P' : Prop} (hp : Guards p P) (h : P → P') : Guards p P' := fun log => (hp log).imp_left h

theorem guards_ite {c : Prop} [Decidable c] {q : ShimM α} (hp : c → Guards p P) (hq : Guards q P) :
    Guards (if c then p else q) P := by
  by_cases hc : c
  · rw [if_pos hc]
    exact hp hc
  · rwa [if_neg hc]

theorem Guards.bind (hp : Checks p Q) (hf : ∀ a, Q a → Guards (f a) P) : Guards (p >>= f) P := by
  intro log
  rcases hp log with ⟨a, hrun, ha⟩ | ⟨message, hrun⟩
  · rw [bind_of_ok hrun]
    exact hf a ha log
  · exact .inr ⟨message, bind_of_error hrun⟩

theorem cacheRoot_ne_nil : cacheRoot host ≠ [] := by
  intro h
  have hsuffix := (List.append_eq_nil_iff.mp h).2
  revert hsuffix
  decide

theorem guards_herdr (args : List Bytes) : Guards (herdr args) (Admitted host homeRoot (utf8 "herdr") args) := by
  unfold herdr
  split
  · exact guards_refuse _
  · next hne => exact guards_of (.herdr hne)

theorem guards_herdrUp (args : List Bytes) :
    Guards (herdrUp args) (Admitted host homeRoot (utf8 "herdr-up") args) := by
  unfold herdrUp
  split
  · exact guards_of .herdrUp
  · exact guards_refuse _

section Verbs

variable (hr : Resolves host) (hhome : homeRoot ≠ [])

include hr

theorem checks_beneath {path root : Bytes} (hroot : root ≠ []) :
    Checks (requireBeneath host path root) fun _ => PathBeneath host root path := by
  intro log
  refine (checks_requireBeneath hr.missing hroot log).imp_left ?_
  rintro ⟨a, hrun, htraversal, hliteral, hresolved⟩
  exact ⟨a, hrun, hliteral, htraversal, hresolved⟩

theorem checks_cachePath {path : Bytes} :
    Checks (requireCachePath host path) fun _ => PathBeneath host (cacheRoot host) path :=
  checks_beneath hr cacheRoot_ne_nil

omit hr in
theorem checks_ref {value : Bytes} (label : String) : Checks (requireRef value label) fun _ => Ref value := by
  intro log
  refine (checks_requireRef label log).imp_left ?_
  rintro ⟨a, hrun, hpattern, hrange⟩
  exact ⟨a, hrun, hpattern, hrange⟩

include hhome

theorem guards_worktreeAdd (args : List Bytes) :
    Guards (worktreeAdd host homeRoot args) (Admitted host homeRoot (utf8 "worktree-add") args) := by
  unfold worktreeAdd
  split
  · refine .bind (checks_beneath hr hhome) fun _ hrepo => .bind (checks_cachePath hr) fun _ hdestination => ?_
    exact .bind (checks_ref "branch") fun _ hbranch => .bind (checks_ref "base ref") fun _ hbase =>
      guards_of (.worktreeAdd hrepo hbranch hbase hdestination)
  · exact guards_refuse _

theorem guards_worktreeRemove (args : List Bytes) :
    Guards (worktreeRemove host homeRoot args) (Admitted host homeRoot (utf8 "worktree-remove") args) := by
  unfold worktreeRemove
  split
  · exact .bind (checks_beneath hr hhome) fun _ hrepo => .bind (checks_cachePath hr) fun _ hworktree =>
      guards_of (.worktreeRemove hrepo hworktree)
  · exact guards_refuse _

theorem guards_branchDelete (args : List Bytes) :
    Guards (branchDelete host homeRoot args) (Admitted host homeRoot (utf8 "branch-delete") args) := by
  unfold branchDelete
  split
  · exact .bind (checks_beneath hr hhome) fun _ hrepo => .bind (checks_ref "branch") fun _ hbranch =>
      guards_of (.branchDelete hrepo hbranch)
  · exact guards_refuse _

theorem guards_push (args : List Bytes) :
    Guards (push host homeRoot args) (Admitted host homeRoot (utf8 "push") args) := by
  unfold push
  split
  · exact .bind (checks_beneath hr hhome) fun _ hrepo => .bind (checks_ref "branch") fun _ hbranch =>
      guards_of (.push hrepo hbranch)
  · exact guards_refuse _

omit hhome in
theorem guards_prCreate (args : List Bytes) :
    Guards (prCreate host args) (Admitted host homeRoot (utf8 "pr-create") args) := by
  unfold prCreate
  split
  · refine .bind (checks_requirePattern slugPattern "repo slug") fun _ hslug => ?_
    refine .bind (checks_ref "branch") fun _ hbranch => .bind (checks_ref "base ref") fun _ hbase => ?_
    exact .bind (checks_cachePath hr) fun _ htitle => .bind (checks_cachePath hr) fun _ hbody =>
      guards_of (.prCreate hslug hbranch hbase htitle hbody)
  · exact guards_refuse _

theorem guards_tail (args : List Bytes) :
    Guards (tail host homeRoot args) (Admitted host homeRoot (utf8 "tail") args) := by
  unfold tail
  split
  · exact .bind (checks_beneath hr hhome) fun _ hpath =>
      .bind (checks_requirePattern offsetPattern "offset") fun _ hoffset => guards_of (.tail hpath hoffset)
  · exact guards_refuse _

omit hhome in
theorem guards_writeFile (args : List Bytes) :
    Guards (writeFile host args) (Admitted host homeRoot (utf8 "write-file") args) := by
  unfold writeFile
  split
  · exact .bind (checks_cachePath hr) fun _ hpath => guards_of (.writeFile hpath)
  · exact guards_refuse _

omit hhome in
theorem guards_rmFile (args : List Bytes) :
    Guards (rmFile host args) (Admitted host homeRoot (utf8 "rm-file") args) := by
  unfold rmFile
  split
  · exact .bind (checks_cachePath hr) fun _ hpath => guards_of (.rmFile hpath)
  · exact guards_refuse _

theorem guards_runVerb (verb : Bytes) (args : List Bytes) :
    Guards (runVerb host homeRoot verb args) (Admitted host homeRoot verb args) := by
  unfold runVerb
  refine guards_ite (fun h => h ▸ guards_herdr args) ?_
  refine guards_ite (fun h => h ▸ guards_herdrUp args) ?_
  refine guards_ite (fun h => h ▸ guards_worktreeAdd hr hhome args) ?_
  refine guards_ite (fun h => h ▸ guards_worktreeRemove hr hhome args) ?_
  refine guards_ite (fun h => h ▸ guards_branchDelete hr hhome args) ?_
  refine guards_ite (fun h => h ▸ guards_push hr hhome args) ?_
  refine guards_ite (fun h => h ▸ guards_prCreate hr args) ?_
  refine guards_ite (fun h => h ▸ guards_tail hr hhome args) ?_
  refine guards_ite (fun h => h ▸ guards_writeFile hr args) ?_
  exact guards_ite (fun h => h ▸ guards_rmFile hr args) (guards_refuse _)

end Verbs

/-- Neither `:` nor `+`. -/
def Plain (value : Bytes) : Prop := 58 ∉ value ∧ 43 ∉ value

def hyphen : UInt8 := 45

theorem PathBeneath.absolute {root path : Bytes} (hr : Resolves host) (hroot : root ≠ [])
    (h : PathBeneath host root path) :
    path.head? = some slash := by
  obtain ⟨target, htarget, rest, -, rfl⟩ := h.resolved
  obtain ⟨rest', rfl⟩ := h.literal
  have habsolute := (hr.missing _ _ htarget).absolute
  obtain ⟨b, root, rfl⟩ := List.exists_cons_of_ne_nil hroot
  simpa using habsolute

theorem refByte_of_nameByte {b : UInt8} (h : isNameByte b = true) : isRefByte b = true := by
  simp [isRefByte, isSlugByte, h]

theorem ne_of_refByte {b : UInt8} (h : isRefByte b = true) : b ≠ 58 ∧ b ≠ 43 := by
  constructor
  · rintro rfl
    revert h
    decide
  · rintro rfl
    revert h
    decide

theorem plain_of_refBytes {value : Bytes} (h : ∀ b ∈ value, isRefByte b = true) : Plain value :=
  ⟨fun hmem => (ne_of_refByte (h 58 hmem)).1 rfl, fun hmem => (ne_of_refByte (h 43 hmem)).2 rfl⟩

theorem head_of_nameByte {b : UInt8} (rest : Bytes) (h : isNameByte b = true) :
    (b :: rest).head? ≠ some hyphen := by
  rintro ⟨⟩
  revert h
  decide

/-- What a check of a name establishes. -/
structure Tame (value : Bytes) : Prop where
  option : value.head? ≠ some hyphen
  plain : Plain value

theorem tame_of_ref {value : Bytes} (h : refPattern value = true) : Tame value := by
  cases value with
  | nil => cases h
  | cons b rest =>
    simp only [refPattern, Bool.and_eq_true, List.all_eq_true] at h
    refine ⟨head_of_nameByte rest h.1, plain_of_refBytes fun b' hb' => ?_⟩
    rcases List.mem_cons.mp hb' with rfl | hb'
    · exact refByte_of_nameByte h.1
    · exact h.2 b' hb'

theorem refBytes_of_slugName {name : Bytes} (h : slugName name = true) :
    name.head? ≠ some hyphen ∧ name ≠ [] ∧ ∀ b ∈ name, isRefByte b = true := by
  cases name with
  | nil => cases h
  | cons b rest =>
    simp only [slugName, Bool.and_eq_true, List.all_eq_true] at h
    refine ⟨head_of_nameByte rest h.1, List.cons_ne_nil _ _, fun b' hb' => ?_⟩
    rcases List.mem_cons.mp hb' with rfl | hb'
    · exact refByte_of_nameByte h.1
    · simp [isRefByte, h.2 b' hb']

theorem tame_of_slug {value : Bytes} (h : slugPattern value = true) : Tame value := by
  unfold slugPattern at h
  split at h
  · next owner name hsplit =>
    rw [Bool.and_eq_true] at h
    obtain ⟨hhead, hne, howner⟩ := refBytes_of_slugName h.1
    obtain ⟨-, -, hname⟩ := refBytes_of_slugName h.2
    have hvalue : owner ++ slash :: name = value := by
      have hjoined : [slash].intercalate (value.splitOn slash) = value := List.intercalate_splitOn slash
      rw [hsplit, intercalate_cons_cons] at hjoined
      simpa [List.intercalate] using hjoined
    refine ⟨?_, plain_of_refBytes fun b hb => ?_⟩
    · rw [← hvalue, List.head?_append_of_ne_nil _ hne]
      exact hhead
    · rw [← hvalue] at hb
      rcases List.mem_append.mp hb with hb | hb
      · exact howner b hb
      · rcases List.mem_cons.mp hb with rfl | hb
        · decide
        · exact hname b hb
  · cases h

theorem digit_of_offset {value : Bytes} (h : offsetPattern value = true) {b : UInt8} (hb : b ∈ value) :
    b ≠ hyphen ∧ b ≠ 58 ∧ b ≠ 43 ∧ b ≠ 46 := by
  simp only [offsetPattern, Bool.and_eq_true, decide_eq_true_eq, List.all_eq_true] at h
  have hrange := h.2 b hb
  refine ⟨?_, ?_, ?_, ?_⟩ <;>
    · rintro rfl
      revert hrange
      decide

theorem tame_of_offset {value : Bytes} (h : offsetPattern value = true) : Tame value := by
  refine ⟨fun hhead => ?_, fun hmem => (digit_of_offset h hmem).2.1 rfl,
    fun hmem => (digit_of_offset h hmem).2.2.1 rfl⟩
  exact (digit_of_offset h (List.mem_of_head? hhead)).1 rfl

/-- No program can read the operand of a verb as an option; names contain neither `:` nor `+`, paths
stay beneath their directory, and only the slug of a repository may contain `..`. -/
structure Harmless (host : ShimHost) (homeRoot verb : Bytes) (args : List Bytes) (operand : Bytes) : Prop where
  option : operand.head? ≠ some hyphen
  kind : Plain operand ∨ PathBeneath host homeRoot operand ∨ PathBeneath host (cacheRoot host) operand
  range : ¬utf8 ".." <:+: operand ∨ verb = utf8 "pr-create" ∧ args.head? = some operand ∧ slugPattern operand = true

section Operands

variable {verb operand : Bytes} {args : List Bytes}

theorem harmless_ref (h : Ref operand) : Harmless host homeRoot verb args operand :=
  ⟨(tame_of_ref h.pattern).option, .inl (tame_of_ref h.pattern).plain, .inl h.range⟩

variable (hr : Resolves host)

include hr

theorem harmless_home (hhome : homeRoot ≠ []) (h : PathBeneath host homeRoot operand) :
    Harmless host homeRoot verb args operand := by
  refine ⟨?_, .inr (.inl h), .inl h.traversal⟩
  rw [h.absolute hr hhome]
  decide

theorem harmless_cache (h : PathBeneath host (cacheRoot host) operand) :
    Harmless host homeRoot verb args operand := by
  refine ⟨?_, .inr (.inr h), .inl h.traversal⟩
  rw [h.absolute hr cacheRoot_ne_nil]
  decide

/-- The operands of every verb but the two for the herdr server are harmless. -/
theorem Admitted.harmless (hhome : homeRoot ≠ []) (h : Admitted host homeRoot verb args)
    (hherdr : verb ≠ utf8 "herdr")
    (hmem : operand ∈ args) : Harmless host homeRoot verb args operand := by
  cases h with
  | herdr => exact absurd rfl hherdr
  | herdrUp => cases hmem
  | worktreeAdd hrepo hbranch hbase hdestination =>
    simp only [List.mem_cons, List.not_mem_nil, or_false] at hmem
    rcases hmem with rfl | rfl | rfl | rfl
    · exact harmless_home hr hhome hrepo
    · exact harmless_ref hbranch
    · exact harmless_ref hbase
    · exact harmless_cache hr hdestination
  | worktreeRemove hrepo hworktree =>
    simp only [List.mem_cons, List.not_mem_nil, or_false] at hmem
    rcases hmem with rfl | rfl
    · exact harmless_home hr hhome hrepo
    · exact harmless_cache hr hworktree
  | branchDelete hrepo hbranch =>
    simp only [List.mem_cons, List.not_mem_nil, or_false] at hmem
    rcases hmem with rfl | rfl
    · exact harmless_home hr hhome hrepo
    · exact harmless_ref hbranch
  | push hrepo hbranch =>
    simp only [List.mem_cons, List.not_mem_nil, or_false] at hmem
    rcases hmem with rfl | rfl
    · exact harmless_home hr hhome hrepo
    · exact harmless_ref hbranch
  | prCreate hslug hbranch hbase htitle hbody =>
    simp only [List.mem_cons, List.not_mem_nil, or_false] at hmem
    rcases hmem with rfl | rfl | rfl | rfl | rfl
    · exact ⟨(tame_of_slug hslug).option, .inl (tame_of_slug hslug).plain, .inr ⟨rfl, rfl, hslug⟩⟩
    · exact harmless_ref hbranch
    · exact harmless_ref hbase
    · exact harmless_cache hr htitle
    · exact harmless_cache hr hbody
  | tail hpath hoffset =>
    simp only [List.mem_cons, List.not_mem_nil, or_false] at hmem
    rcases hmem with rfl | rfl
    · exact harmless_home hr hhome hpath
    · refine ⟨(tame_of_offset hoffset).option, .inl (tame_of_offset hoffset).plain, .inl fun hdots => ?_⟩
      have hdot : (46 : UInt8) ∈ utf8 ".." := by decide
      exact (digit_of_offset hoffset (hdots.subset hdot)).2.2.2 rfl
  | writeFile hpath =>
    rw [List.mem_singleton.mp hmem]
    exact harmless_cache hr hpath
  | rmFile hpath =>
    rw [List.mem_singleton.mp hmem]
    exact harmless_cache hr hpath

end Operands

theorem homeRoot_ne_nil {home : Bytes} (h : Resolved home) : commandSubstitution (home ++ [newline]) ≠ [] := by
  have hnul : (0 : UInt8) ∉ home ++ [newline] := by simp [h.nul, newline]
  rw [commandSubstitution, filter_nul hnul]
  intro hnil
  have hslash := List.rdropWhile_eq_nil_iff.mp hnil slash
    (List.mem_append_left _ (List.mem_of_head? h.absolute))
  revert hslash
  decide

/-- Every command is refused before anything is done, or it names a verb of the table and operands that the verb
admits. The root is the resolved home directory, unless the name of that directory ends in a newline: a command
substitution drops it, and nothing is said of the root then. -/
theorem shim_confined (hr : Resolves host) (original : Bytes) :
    (∃ message, remoteShim host original [] = (.error (.refused message), [])) ∨
      ∃ home root verb tokens args, host.realpathExisting host.home = some home ∧
        (home.getLast? ≠ some newline → root = home) ∧ words original = verb :: tokens ∧
        List.Forall₂ StandsFor tokens args ∧ Admitted host root verb args ∧
        (verb ≠ utf8 "herdr" → ∀ operand ∈ args, Harmless host root verb args operand) := by
  refine (Guards.bind checks_requireOneLine fun _ _ => ?_ : Guards (remoteShim host original) _) [] |>.symm
  split
  · exact guards_refuse _
  · next home hhome =>
    have hresolved := hr.existing host.home home hhome
    refine .bind checks_readArguments fun r hwords => ?_
    obtain ⟨tokens, hwords, hstands⟩ := hwords
    have hroot := homeRoot_ne_nil hresolved
    refine (guards_runVerb hr hroot r.1 r.2).imp fun hadmitted => ?_
    exact ⟨home, _, r.1, tokens, r.2, hhome, commandSubstitution_line hresolved.nul, hwords, hstands, hadmitted,
      fun hherdr operand hmem => hadmitted.harmless hr hroot hherdr hmem⟩

/-- A machine with one file. -/
def envHost : ShimHost where
  home := utf8 "/home/u"
  realpathExisting path := if path = utf8 "/home/u" then some path else none
  realpathMissing path := if path = utf8 "/home/u/.cache/worker-harness/env" then some path else none
  base64Decode := Base64.decode
  dirname _ := utf8 "/home/u/.cache/worker-harness"
  content _ := []
  mkdir _ := true

theorem resolves_envHost : Resolves envHost where
  existing path resolved h := by
    simp only [envHost, Option.ite_none_right_eq_some, Option.some.injEq] at h
    rw [← h.2, h.1]
    exact ⟨by decide, by decide, by decide⟩
  missing path resolved h := by
    simp only [envHost, Option.ite_none_right_eq_some, Option.some.injEq] at h
    rw [← h.2, h.1]
    exact ⟨by decide, by decide, by decide⟩

theorem shim_confined_writeFile :
    (remoteShim envHost (utf8 "write-file /home/u/.cache/worker-harness/env") []).2 =
        [.mkdir (utf8 "/home/u/.cache/worker-harness"), .write (utf8 "/home/u/.cache/worker-harness/env"),
          .exec [utf8 "cat"]] ∧
      ∃ root verb args, Admitted envHost root verb args ∧
        (verb ≠ utf8 "herdr" → ∀ operand ∈ args, Harmless envHost root verb args operand) := by
  have hrun : remoteShim envHost (utf8 "write-file /home/u/.cache/worker-harness/env") [] =
      (.error .replaced, [.mkdir (utf8 "/home/u/.cache/worker-harness"),
        .write (utf8 "/home/u/.cache/worker-harness/env"), .exec [utf8 "cat"]]) := by decide +kernel
  refine ⟨congrArg Prod.snd hrun, ?_⟩
  rcases shim_confined resolves_envHost (utf8 "write-file /home/u/.cache/worker-harness/env") with
    ⟨message, hrefused⟩ | ⟨home, root, verb, tokens, args, -, -, -, -, hadmitted, hharmless⟩
  · rw [hrun] at hrefused
    cases hrefused
  · exact ⟨root, verb, args, hadmitted, hharmless⟩

end WorkerHarness.ShimConfinement
