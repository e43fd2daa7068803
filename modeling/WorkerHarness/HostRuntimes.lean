import WorkerHarness.PosixPaths

/-!
# Host runtimes

What `wh host` records of a host: where each tool was found, and a search path that starts with the
directories of the tools. The directories stand in the order of the tools, not in that of the search path in
which the tools were found.
-/

namespace WorkerHarness.HostRuntimes

open CodePoints PosixPaths

def schemaVersion : ℕ := 1

def requiredExecutables : List String := ["wh", "pi", "bun", "node", "tmux", "tailscale"]

def optionalExecutables : List String := ["zellij", "omp"]

def standardPathFallback : List String := ["/usr/local/bin", "/usr/bin", "/bin"]

def tools : List String := requiredExecutables ++ optionalExecutables

/-- A manifest; the executables are a dictionary in the order of its keys. -/
structure HostRuntime where
  path : List Str
  executables : List (Str × Option Str)
  schemaVersion : ℕ
  generatedAt : Str
  deriving DecidableEq

/-- What a capture reads of its host: which paths lead to an executable file that is no directory, which to a
directory, and the environment. -/
structure Host where
  executable : Str → Bool
  directory : Str → Bool
  cwd : Str
  tempRoot : Str
  pathVariable : Str
  generatedAt : Str

/-- `os.pathsep`. -/
def pathsep : CodePoint := codePoint ':'

namespace HostRuntime

/-- The value of `PATH` in `environment`. -/
def environmentPath (runtime : HostRuntime) : Str := [pathsep].intercalate runtime.path

end HostRuntime

/-- `_is_under`. -/
def isUnder (value root : Str) : Bool := value ≠ [] && root ≠ [] && commonpath value root = some root

def addEntry (entries : List Str) (entry : Str) : List Str :=
  if entry ∈ entries then entries else entries ++ [entry]

/-- `_dedupe_preserving_order`. -/
def dedupePreservingOrder (entries : List Str) : List Str := entries.foldl addEntry []

namespace Host

/-- `shutil.which(name, path=path)`. -/
def which (h : Host) (path name : Str) : Option Str :=
  if path = [] then none else ((path.splitOn pathsep).map (join · name)).find? h.executable

/-- `os.path.abspath`. -/
def absolutePath (h : Host) (path : Str) : Str := abspath (if isAbsolute path then path else join h.cwd path)

def discovered (h : Host) (name : String) : Option Str := (h.which h.pathVariable (str name)).map h.absolutePath

def keptEntries (h : Host) (existingPathEntries : List Str) : List Str :=
  existingPathEntries.filter fun entry =>
    entry ≠ [] && isAbsolute entry && h.directory entry && !isUnder entry h.tempRoot

/-- `_capture_path`; what was not discovered has no directory. -/
def capturePath (h : Host) (requiredBins : List (Str × Str)) (optionalBins : List (Str × Option Str))
    (existingPathEntries : List Str) : List Str :=
  let directories := requiredBins.map (fun bin => dirname bin.2) ++ optionalBins.filterMap fun bin =>
    bin.2.map dirname
  let primary := (directories.filter (· ≠ [])).foldl addEntry []
  let fallback := (standardPathFallback.map str).filter h.directory
  fallback.foldl addEntry ((h.keptEntries existingPathEntries).foldl addEntry primary)

def captureHostRuntime (h : Host) : Except String HostRuntime :=
  let discoveredRequired := requiredExecutables.filterMap fun name => (h.discovered name).map fun path =>
    (str name, path)
  let missingRequired := requiredExecutables.filter fun name => h.discovered name = none
  let discoveredOptional := optionalExecutables.map fun name => (str name, h.discovered name)
  if missingRequired ≠ [] then
    .error ("required host executables missing from PATH: " ++ ", ".intercalate missingRequired)
  else
    let pathEntries := (h.pathVariable.splitOn pathsep).filter (· ≠ [])
    .ok {
      path := h.capturePath discoveredRequired discoveredOptional pathEntries
      executables := discoveredRequired.map (fun bin => (bin.1, some bin.2)) ++ discoveredOptional
      schemaVersion := schemaVersion
      generatedAt := h.generatedAt }

def toolDirectory (h : Host) (name : String) : Option Str := (h.discovered name).map dirname

def FindsExecutables (h : Host) (runtime : HostRuntime) : Prop :=
  ∀ name file, (name, some file) ∈ runtime.executables → h.which runtime.environmentPath name = some file

/-- The file of a tool can be executed by its absolute path, and no tool that stands before all tools of its
directory has an executable of its name beside it. -/
def Undisturbed (h : Host) (name : String) : Prop :=
  ∀ file, h.discovered name = some file → h.executable file = true ∧
    ∀ other ∈ tools.takeWhile fun tool => h.toolDirectory tool ≠ h.toolDirectory name,
      ∀ d, h.toolDirectory other = some d → h.executable (join d (str name)) = false

end Host

variable {h : Host} {runtime : HostRuntime} {name : String} {file d : Str} {entries entries' : List Str}

theorem find?_foldl_addEntry (p : Str → Bool) : (entries'.foldl addEntry entries).find? p =
    (entries ++ entries').find? p := by
  induction entries' generalizing entries with
  | nil => rw [List.foldl_nil, List.append_nil]
  | cons entry entries' ih =>
    rw [List.foldl_cons, ih, addEntry]
    split
    · next hmem =>
      rw [List.find?_append, List.find?_append, List.find?_cons]
      cases hp : p entry with
      | false => rfl
      | true =>
        obtain ⟨found, hfound⟩ : ∃ found, entries.find? p = some found :=
          Option.isSome_iff_exists.mp (List.find?_isSome.mpr ⟨entry, hmem, hp⟩)
        rw [hfound]
        rfl
    · rw [List.append_assoc, List.singleton_append]

theorem mem_foldl_addEntry {entry : Str} : entry ∈ entries'.foldl addEntry entries ↔ entry ∈ entries ∨
    entry ∈ entries' := by
  induction entries' generalizing entries with
  | nil => simp
  | cons e entries' ih =>
    rw [List.foldl_cons, ih, addEntry, List.mem_cons]
    split
    · next hmem =>
      constructor
      · rintro (h | h)
        · exact .inl h
        · exact .inr (.inr h)
      · rintro (h | rfl | h)
        · exact .inl h
        · exact .inl hmem
        · exact .inr h
    · rw [List.mem_append, List.mem_singleton, or_assoc]

theorem tools_spec : ∀ name ∈ tools, FileName (str name) ∧ pathsep ∉ str name := by
  intro name hname
  have hcheck : tools.all fun name =>
      decide (slash ∉ str name ∧ str name ≠ [] ∧ str name ≠ str "." ∧ str name ≠ str ".." ∧
        pathsep ∉ str name) := by
    decide +kernel
  obtain ⟨hslash, hne, hdot, hup, hsep⟩ := of_decide_eq_true (List.all_eq_true.mp hcheck name hname)
  exact ⟨⟨hslash, hne, hdot, hup⟩, hsep⟩

theorem fallback_spec : ∀ entry ∈ standardPathFallback.map str, entry ≠ [] ∧ pathsep ∉ entry := by
  decide +kernel

def AbsoluteEntries (h : Host) : Prop := ∀ entry ∈ h.pathVariable.splitOn pathsep, isAbsolute entry = true

/-- A capture that succeeds has discovered all required tools. -/
theorem discovered_of_capture (hcapture : h.captureHostRuntime = .ok runtime) :
    ∀ name ∈ requiredExecutables, h.discovered name ≠ none := by
  unfold Host.captureHostRuntime at hcapture
  dsimp only at hcapture
  split at hcapture
  · cases hcapture
  · next hmissing =>
    intro name hname hnone
    apply hmissing
    exact List.ne_nil_of_mem (List.mem_filter.mpr ⟨hname, decide_eq_true hnone⟩)

theorem captureHostRuntime_ok (hcapture : h.captureHostRuntime = .ok runtime) :
    runtime.executables = tools.map (fun name => (str name, h.discovered name)) ∧
    runtime.schemaVersion = schemaVersion ∧
    runtime.generatedAt = h.generatedAt ∧
    ∃ existing fallback : List Str, (∀ entry ∈ existing, entry ∈ h.pathVariable.splitOn pathsep ∧
      isAbsolute entry = true) ∧
      (∀ entry ∈ fallback, entry ∈ standardPathFallback.map str) ∧
      runtime.path = fallback.foldl addEntry (existing.foldl addEntry
        (((tools.filterMap h.toolDirectory).filter (· ≠ [])).foldl addEntry [])) := by
  have hfound := discovered_of_capture hcapture
  unfold Host.captureHostRuntime at hcapture
  dsimp only at hcapture
  split at hcapture
  · cases hcapture
  · cases hcapture
    refine ⟨?_, rfl, rfl, ?_⟩
    · have hrequired : (requiredExecutables.filterMap fun name => (h.discovered name).map fun path =>
        (str name, path)).map
          (fun bin => (bin.1, some bin.2)) = requiredExecutables.map fun name => (str name, h.discovered name) := by
        rw [List.map_filterMap, ← List.filterMap_eq_map]
        apply List.filterMap_congr
        intro name hname
        obtain ⟨path, hpath⟩ := Option.ne_none_iff_exists'.mp (hfound name hname)
        simp [hpath]
      rw [hrequired, tools, List.map_append]
    · refine ⟨h.keptEntries ((h.pathVariable.splitOn pathsep).filter (· ≠ [])),
        (standardPathFallback.map str).filter h.directory, ?_, ?_, ?_⟩
      · intro entry hentry
        obtain ⟨hmem, hkept⟩ := List.mem_filter.mp hentry
        simp only [Bool.and_eq_true] at hkept
        exact ⟨List.mem_of_mem_filter hmem, hkept.1.1.2⟩
      · intro entry hentry
        exact List.mem_of_mem_filter hentry
      · have hdirectories : (requiredExecutables.filterMap fun name => (h.discovered name).map fun path =>
          (str name, path)).map
            (fun bin => dirname bin.2) ++
              (optionalExecutables.map fun name => (str name, h.discovered name)).filterMap
            (fun bin => bin.2.map dirname) = tools.filterMap h.toolDirectory := by
          rw [List.map_filterMap, List.filterMap_map, tools, List.filterMap_append]
          congr 1
          apply List.filterMap_congr
          intro name _
          rw [Option.map_map]
          rfl
        unfold Host.capturePath
        dsimp only
        rw [hdirectories]

theorem which_eq_some {path name : Str} (hfile : h.which path name = some file) :
    ∃ entry ∈ path.splitOn pathsep, file = join entry name ∧ h.executable file = true := by
  unfold Host.which at hfile
  split at hfile
  · cases hfile
  · obtain ⟨entry, hentry, rfl⟩ := List.mem_map.mp (List.mem_of_find?_eq_some hfile)
    exact ⟨entry, hentry, rfl, List.find?_some hfile⟩

theorem isAbsolute_join {path name : Str} (hpath : isAbsolute path = true) :
    isAbsolute (join path name) = true := by
  obtain ⟨rest, rfl⟩ := List.isPrefixOf_iff_prefix.mp hpath
  apply List.isPrefixOf_iff_prefix.mpr
  unfold join
  split
  · exact ⟨rest ++ name, by simp⟩
  · exact ⟨rest ++ slash :: name, by simp⟩

/-- A discovered tool lies in its directory. -/
theorem exists_of_discovered (habs : AbsoluteEntries h) (hname : name ∈ tools)
    (hfile : h.discovered name = some file) :
    ∃ d, h.toolDirectory name = some d ∧ DirectoryForm d ∧ join d (str name) = file ∧ pathsep ∉ d := by
  obtain ⟨found, hfound, rfl⟩ := Option.map_eq_some_iff.mp hfile
  obtain ⟨entry, hentry, rfl, -⟩ := which_eq_some hfound
  have hentryAbs := habs entry hentry
  have hnormal : h.absolutePath (join entry (str name)) = abspath (join entry (str name)) := by
    rw [Host.absolutePath, if_pos (isAbsolute_join hentryAbs)]
  obtain ⟨d, hform, heq⟩ := exists_directory (tools_spec name hname).1 hentryAbs
  have hdir : dirname (abspath (join entry (str name))) = d := by
    rw [heq, dirname_join (tools_spec name hname).1 hform]
  refine ⟨d, ?_, hform, by rw [hnormal, heq], ?_⟩
  · rw [Host.toolDirectory, hfile, Option.map_some, hnormal, hdir]
  · intro hsep
    rw [← hdir] at hsep
    rcases mem_abspath (mem_of_mem_dirname hsep) with hsep | hsep
    · have hjoin : pathsep ∈ entry ∨ pathsep ∈ str name := by
        unfold join at hsep
        split at hsep
        · exact List.mem_append.mp hsep
        · rw [List.mem_append, List.mem_cons] at hsep
          have hslash : pathsep ≠ slash := by decide
          exact hsep.imp_right fun h => h.resolve_left hslash
      rcases hjoin with hsep | hsep
      · exact notMem_of_mem_splitOn hentry hsep
      · exact (tools_spec name hname).2 hsep
    · exact absurd hsep (by decide)

/-- Searching the captured path is searching the directories of the tools, and then others. -/
theorem exists_which (habs : AbsoluteEntries h) (hcapture : h.captureHostRuntime = .ok runtime) :
    ∃ rest, ∀ name, h.which runtime.environmentPath name =
      (((tools.filterMap h.toolDirectory ++ rest).map (join · name)).find? h.executable) := by
  obtain ⟨-, -, -, existing, fallback, hexisting, hfallback, hpath⟩ := captureHostRuntime_ok hcapture
  have hdirectories : ∀ d ∈ tools.filterMap h.toolDirectory, d ≠ [] ∧ pathsep ∉ d := by
    intro d hd
    obtain ⟨name, hname, hdir⟩ := List.mem_filterMap.mp hd
    obtain ⟨file, hfile, -⟩ := Option.map_eq_some_iff.mp hdir
    obtain ⟨d', hdir', hform, -, hsep⟩ := exists_of_discovered habs hname hfile
    rw [hdir, Option.some.injEq] at hdir'
    subst hdir'
    exact ⟨hform.ne_nil, hsep⟩
  have hfilter : (tools.filterMap h.toolDirectory).filter (· ≠ []) = tools.filterMap h.toolDirectory :=
    List.filter_eq_self.mpr fun d hd => decide_eq_true (hdirectories d hd).1
  rw [hfilter] at hpath
  have hentries : ∀ entry ∈ runtime.path, pathsep ∉ entry := by
    intro entry hentry
    rw [hpath, mem_foldl_addEntry, mem_foldl_addEntry, mem_foldl_addEntry] at hentry
    rcases hentry with ((hentry | hentry) | hentry) | hentry
    · cases hentry
    · exact (hdirectories entry hentry).2
    · exact notMem_of_mem_splitOn (hexisting entry hentry).1
    · exact (fallback_spec entry (hfallback entry hentry)).2
  have hne : ∀ entry ∈ runtime.path, entry ≠ [] := by
    intro entry hentry
    rw [hpath, mem_foldl_addEntry, mem_foldl_addEntry, mem_foldl_addEntry] at hentry
    rcases hentry with ((hentry | hentry) | hentry) | hentry
    · cases hentry
    · exact (hdirectories entry hentry).1
    · rintro rfl
      exact absurd (hexisting [] hentry).2 (by decide)
    · exact (fallback_spec entry (hfallback entry hentry)).1
  refine ⟨existing ++ fallback, fun name => ?_⟩
  have hsearch : ((tools.filterMap h.toolDirectory ++ (existing ++ fallback)).map (join · name)).find?
    h.executable =
      (runtime.path.map (join · name)).find? h.executable := by
    simp only [List.find?_map, hpath, find?_foldl_addEntry, List.find?_append, List.nil_append, Option.or_assoc]
  rw [hsearch]
  unfold Host.which HostRuntime.environmentPath
  cases hentry : runtime.path with
  | nil => rfl
  | cons first others =>
    have hfirst := hne first (by rw [hentry]; exact List.mem_cons_self)
    obtain ⟨c, hc⟩ := List.exists_mem_of_ne_nil first hfirst
    have henvironment : [pathsep].intercalate (first :: others) ≠ [] :=
      List.ne_nil_of_mem (mem_intercalate List.mem_cons_self hc)
    rw [if_neg henvironment, List.splitOn_intercalate pathsep (hentry ▸ hentries) (List.cons_ne_nil _ _)]

theorem find?_map_append_cons {α β : Type} {l l' : List α} {a : α} {f : α → β} {p : β → Bool}
    (hdiffer : ∀ b ∈ l, f b ≠ f a) :
    ((l ++ a :: l').map f).find? p = some (f a) ↔ p (f a) = true ∧ ∀ b ∈ l, p (f b) = false := by
  induction l with
  | nil =>
    rw [List.nil_append, List.map_cons, List.find?_cons]
    cases hp : p (f a) with
    | true => simp
    | false =>
      constructor
      · intro hfind
        have htrue := List.find?_some hfind
        rw [hp] at htrue
        cases htrue
      · intro h
        cases h.1
  | cons b l ih =>
    have ih := ih fun c hc => hdiffer c (List.mem_cons_of_mem _ hc)
    rw [List.cons_append, List.map_cons, List.find?_cons, List.forall_mem_cons]
    cases hp : p (f b) with
    | true =>
      constructor
      · intro hfind
        exact absurd (Option.some.inj hfind) (hdiffer b List.mem_cons_self)
      · intro h
        cases h.2.1
    | false =>
      rw [ih]
      simp

/-- A tool is found where it was discovered exactly when it is undisturbed. -/
theorem which_eq_some_iff (habs : AbsoluteEntries h) (hcapture : h.captureHostRuntime = .ok runtime)
    (hname : name ∈ tools)
    (hfile : h.discovered name = some file) : h.which runtime.environmentPath (str name) = some file ↔
      h.executable file = true ∧ ∀ other ∈ tools.takeWhile fun tool => h.toolDirectory tool ≠ h.toolDirectory name,
        ∀ d, h.toolDirectory other = some d → h.executable (join d (str name)) = false := by
  obtain ⟨rest, hwhich⟩ := exists_which habs hcapture
  obtain ⟨d, hdir, hform, rfl, -⟩ := exists_of_discovered habs hname hfile
  -- The first tool in the directory of this one ends what stands before it.
  obtain ⟨before, first, after, htools, htake, hfirst⟩ : ∃ before first after, tools = before ++ first :: after ∧
      tools.takeWhile (fun tool => h.toolDirectory tool ≠ h.toolDirectory name) = before ∧
      h.toolDirectory first = h.toolDirectory name := by
    have hsplit := List.takeWhile_append_dropWhile
      (p := fun tool => decide (h.toolDirectory tool ≠ h.toolDirectory name))
      (l := tools)
    cases hdrop : tools.dropWhile fun tool => decide (h.toolDirectory tool ≠ h.toolDirectory name) with
    | nil =>
      have hall := List.dropWhile_eq_nil_iff.mp hdrop name hname
      simp at hall
    | cons first after =>
      rw [hdrop] at hsplit
      have hstop := List.head_dropWhile_not (p := fun tool => decide (h.toolDirectory tool ≠ h.toolDirectory name))
        (l := tools) (by rw [hdrop]; exact List.cons_ne_nil _ _)
      simp only [hdrop, List.head_cons] at hstop
      exact ⟨_, first, after, hsplit.symm, rfl, by simpa using hstop⟩
  have hdirectories : tools.filterMap h.toolDirectory ++ rest =
      before.filterMap h.toolDirectory ++ d :: (after.filterMap h.toolDirectory ++ rest) := by
    rw [htools, List.filterMap_append, List.filterMap_cons, hfirst, hdir]
    simp
  have hdiffer : ∀ d' ∈ before.filterMap h.toolDirectory, join d' (str name) ≠ join d (str name) := by
    intro d' hd' heq
    obtain ⟨other, hother, hdir'⟩ := List.mem_filterMap.mp hd'
    have hmem : other ∈ tools := by
      rw [htools]
      exact List.mem_append_left _ hother
    obtain ⟨file', hfile', -⟩ := Option.map_eq_some_iff.mp hdir'
    obtain ⟨d'', hdir'', hform', -⟩ := exists_of_discovered habs hmem hfile'
    rw [hdir', Option.some.injEq] at hdir''
    subst hdir''
    have hsame := congrArg dirname heq
    rw [dirname_join (tools_spec name hname).1 hform', dirname_join (tools_spec name hname).1 hform] at hsame
    rw [← htake] at hother
    have hne := List.mem_takeWhile_imp hother
    rw [decide_eq_true_eq, hdir', hdir, hsame] at hne
    exact hne rfl
  rw [hwhich, hdirectories, find?_map_append_cons hdiffer, htake]
  refine and_congr_right fun _ => ?_
  constructor
  · intro hfree other hother d' hdir'
    exact hfree d' (List.mem_filterMap.mpr ⟨other, hother, hdir'⟩)
  · intro hfree d' hd'
    obtain ⟨other, hother, hdir'⟩ := List.mem_filterMap.mp hd'
    exact hfree other hother d' hdir'

/-- The captured path finds the recorded executables exactly when each of them is undisturbed. -/
theorem finds_executables_iff (habs : AbsoluteEntries h) (hcapture : h.captureHostRuntime = .ok runtime) :
    h.FindsExecutables runtime ↔ ∀ name ∈ tools, h.Undisturbed name := by
  have hexecutables := (captureHostRuntime_ok hcapture).1
  constructor
  · intro hfinds name hname file hfile
    apply (which_eq_some_iff habs hcapture hname hfile).mp
    apply hfinds
    rw [hexecutables, List.mem_map]
    exact ⟨name, hname, by rw [hfile]⟩
  · intro hundisturbed key file hmem
    rw [hexecutables, List.mem_map] at hmem
    obtain ⟨name, hname, heq⟩ := hmem
    obtain ⟨rfl, hfile⟩ := Prod.mk.inj heq
    exact (which_eq_some_iff habs hcapture hname hfile).mpr (hundisturbed name hname file hfile)

/-- All tools but `wh` lie in `/a`, which stands first. -/
def twoDirectories (others : List String) : Host where
  executable path := path ∈ (["/b/wh", "/a/pi", "/a/bun", "/a/node", "/a/tmux", "/a/tailscale"] ++ others).map str
  directory path := path ∈ ["/a", "/b"].map str
  cwd := str "/"
  tempRoot := str "/tmp"
  pathVariable := str "/a:/b"
  generatedAt := str "2026-01-01T00:00:00+00:00"

/-- What is captured there. -/
def twoDirectoriesRuntime : HostRuntime where
  path := ["/b", "/a"].map str
  executables := [(str "wh", some (str "/b/wh")), (str "pi", some (str "/a/pi")), (str "bun", some (str "/a/bun")),
    (str "node", some (str "/a/node")), (str "tmux", some (str "/a/tmux")),
      (str "tailscale", some (str "/a/tailscale")),
    (str "zellij", none), (str "omp", none)]
  schemaVersion := 1
  generatedAt := str "2026-01-01T00:00:00+00:00"

theorem absoluteEntries_twoDirectories (others : List String) : AbsoluteEntries (twoDirectories others) := by
  have hcheck : ((str "/a:/b").splitOn pathsep).all isAbsolute = true := by decide +kernel
  exact List.all_eq_true.mp hcheck

theorem captureHostRuntime_twoDirectories : (twoDirectories []).captureHostRuntime = .ok twoDirectoriesRuntime := by
  decide +kernel

theorem finds_executables_iff_twoDirectories : (twoDirectories []).FindsExecutables twoDirectoriesRuntime ↔
    ∀ name ∈ tools, (twoDirectories []).Undisturbed name :=
  finds_executables_iff (absoluteEntries_twoDirectories []) captureHostRuntime_twoDirectories

/-- With another `pi` beside `wh`, the captured path finds this one. -/
theorem not_finds_executables : ¬∀ (h : Host) (runtime : HostRuntime), AbsoluteEntries h →
    (∀ entry ∈ h.pathVariable.splitOn pathsep, isUnder entry h.tempRoot = false) →
    h.captureHostRuntime = .ok runtime → h.FindsExecutables runtime := by
  intro hall
  have hfinds := hall (twoDirectories ["/b/pi"]) twoDirectoriesRuntime (absoluteEntries_twoDirectories _)
    (List.forall_mem_iff_forall_getElem.mpr (by decide +kernel)) (by decide +kernel)
  have hwhich : (twoDirectories ["/b/pi"]).which twoDirectoriesRuntime.environmentPath (str "pi") =
    some (str "/b/pi") := by
    decide +kernel
  have hpi := hfinds (str "pi") (str "/a/pi") (by decide +kernel)
  rw [hwhich] at hpi
  exact absurd hpi (by decide +kernel)

end WorkerHarness.HostRuntimes
