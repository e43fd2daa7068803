import WorkerHarness.HostRuntimes
import WorkerHarness.JsonWriting
import WorkerHarness.SortedLists

/-!
# The manifest of a host

A captured runtime is written to a temporary file that then takes the place of the manifest, and it is loaded
with the checks of its owner, its mode and its fields. Any step of the writing may fail, be interrupted or be
the last one of the process.
-/

namespace WorkerHarness.RuntimeManifests

open CodePoints PosixPaths HostRuntimes JsonTexts JsonWriting

structure File where
  text : Option Str
  uid : ℕ
  mode : ℕ

/-- What stands under the name of the manifest; something else than a file may lead to one. -/
inductive Entry
  | absent
  | regular (file : File)
  | directory
  | other (found : Bool)

structure Directory where
  uid : ℕ
  mode : ℕ
  manifest : Entry

structure Disk where
  directory : Option Directory
  isFile : Str → Bool
  executable : Str → Bool

/-- A `HostRuntimeError`, or an exception of `json.loads` and of decoding that is not caught. The errors with an
argument are those of the schema version, of a relative entry, and of what is no file or cannot be executed. -/
inductive LoadError
  | hostRuntimeError (message : String)
  | unsupportedSchema (schemaVersion : Option Json)
  | relativeEntry (entry : Str)
  | notRegularFile (name path : Str)
  | lacksPermission (name path : Str)
  | valueError
  | recursionError

/-- `_is_absolute_nonempty` -/
def isAbsoluteNonempty (value : Str) : Bool := value ≠ [] && isAbsolute value

/-- `value == SCHEMA_VERSION` -/
def isSchemaVersion : Json → Bool
  | .int n => n = schemaVersion
  | .bool b => (if b then 1 else 0) = schemaVersion
  | .float (.finite x) => x = schemaVersion
  | _ => false

def pathEntry : Json → Except LoadError Str
  | .string entry => if isAbsoluteNonempty entry then .ok entry else .error (.relativeEntry entry)
  | _ => .error (.hostRuntimeError "manifest 'path' entries must be strings")

def requiredExecutable (executables : List (Str × Json)) (name : String) : Except LoadError (Str × Option Str) :=
  match getMember (str name) executables with
  | some (.string value) =>
    if isAbsoluteNonempty value then .ok (str name, some value)
    else .error (.hostRuntimeError ("required executable '" ++ name ++ "' missing or not an absolute path"))
  | _ => .error (.hostRuntimeError ("required executable '" ++ name ++ "' missing or not an absolute path"))

def optionalExecutable (executables : List (Str × Json)) (name : String) : Except LoadError (Str × Option Str) :=
  match getMember (str name) executables with
  | none => .ok (str name, none)
  | some .null => .ok (str name, none)
  | some (.string value) =>
    if isAbsoluteNonempty value then .ok (str name, some value)
    else .error (.hostRuntimeError ("optional executable '" ++ name ++ "' must be null or an absolute path"))
  | _ => .error (.hostRuntimeError ("optional executable '" ++ name ++ "' must be null or an absolute path"))

/-- `_validate_loaded_payload`; the schema version is the one that was compared with. -/
def validateLoadedPayload (payload : Json) : Except LoadError HostRuntime :=
  match payload with
  | .object members => do
    match getMember (str "schema_version") members with
    | some version => if isSchemaVersion version then pure () else throw (.unsupportedSchema (some version))
    | none => throw (.unsupportedSchema none)
    let generatedAt ← match getMember (str "generated_at") members with
      | some (.string generatedAt) =>
        if generatedAt = [] then throw (.hostRuntimeError "manifest missing or invalid generated_at")
        else pure generatedAt
      | _ => throw (.hostRuntimeError "manifest missing or invalid generated_at")
    let entries ← match getMember (str "path") members with
      | some (.array entries) => entries.mapM pathEntry
      | _ => throw (.hostRuntimeError "manifest 'path' must be a list of strings")
    match getMember (str "executables") members with
    | some (.object executables) =>
      let required ← requiredExecutables.mapM (requiredExecutable executables)
      let optional ← optionalExecutables.mapM (optionalExecutable executables)
      return ⟨entries, required ++ optional, schemaVersion, generatedAt⟩
    | _ => throw (.hostRuntimeError "manifest 'executables' must be a JSON object")
  | _ => .error (.hostRuntimeError "manifest must decode to a JSON object")

/-- `_validate_executables_on_disk` -/
def validateExecutable (disk : Disk) : Str × Option Str → Except LoadError Unit
  | (_, none) => .ok ()
  | (name, some path) =>
    if disk.isFile path then
      if disk.executable path then .ok () else .error (.lacksPermission name path)
    else .error (.notRegularFile name path)

def readManifest (limit uid : ℕ) (disk : Disk) (directory : Directory) (file : File) :
    Except LoadError HostRuntime :=
  if file.uid ≠ uid ∨ file.mode ≠ 0o600 then
    .error (.hostRuntimeError "manifest must be owned by the current user with mode 0600")
  else if directory.uid ≠ uid ∨ directory.mode ≠ 0o700 then
    .error (.hostRuntimeError "manifest directory must be owned by the current user with mode 0700")
  else
    match file.text with
    | none => .error .valueError
    | some text =>
      match loads limit text with
      | .error .decodeError => .error (.hostRuntimeError "manifest is not valid JSON")
      | .error .overlongInteger => .error .valueError
      | .error .tooDeep => .error .recursionError
      | .ok payload => do
        let runtime ← validateLoadedPayload payload
        runtime.executables.forM (validateExecutable disk)
        return { runtime with path := dedupePreservingOrder runtime.path }

/-- `load_host_runtime`; the files can be inspected, and at most `limit` containers are read in each other. -/
def loadHostRuntime (limit uid : ℕ) (disk : Disk) (required : Bool) : Except LoadError (Option HostRuntime) :=
  let notFound : Except LoadError (Option HostRuntime) :=
    if required then .error (.hostRuntimeError "host runtime manifest not found") else .ok none
  match disk.directory with
  | none => notFound
  | some directory =>
    match directory.manifest with
    | .absent => notFound
    | .other false => notFound
    | .other true => .error (.hostRuntimeError "manifest is not a regular file")
    | .directory => .error (.hostRuntimeError "manifest is not a regular file")
    | .regular file => (readManifest limit uid disk directory file).map some

def executableText : Option Str → Str
  | none => nullText
  | some path => stringText path

def sortKeys (members : List (Str × Str)) : List (Str × Str) := SortedLists.sortOn Prod.fst members

/-- `json.dump(payload, handle, indent=2, sort_keys=True)` -/
def manifestText (runtime : HostRuntime) : Str :=
  objectText 0 (sortKeys [
    (str "schema_version", IntLiterals.decimal schemaVersion),
    (str "generated_at", stringText runtime.generatedAt),
    (str "path", arrayText 1 (runtime.path.map stringText)),
    (str "executables", objectText 1 (sortKeys (runtime.executables.map fun e => (e.1, executableText e.2))))])

inductive Step
  | mkdir
  | chmodDirectory
  | mkstemp
  | bindTempPath
  | writeTemp
  | chmodTemp
  | replace
  | unlink
  | chmodManifest
  | fsyncDirectory
deriving DecidableEq

/-- An `OSError`, another `Exception`, or what is none: an interrupt. -/
inductive Raised
  | osError
  | exception
  | interrupt
deriving DecidableEq

/-- How a step ends. One that raises, or with which the process ends, may have taken effect or not. -/
inductive Outcome
  | done
  | raised (e : Raised) (took : Bool)
  | killed (took : Bool)

structure WriteState where
  disk : Disk
  temporary : Option File
  taken : List Step

def Disk.setDirectory (disk : Disk) (directory : Directory) : Disk := { disk with directory := some directory }

def effect (uid : ℕ) (runtime : HostRuntime) (s : WriteState) : Step → Option WriteState
  | .mkdir =>
    match s.disk.directory with
    | none => some { s with disk := s.disk.setDirectory ⟨uid, 0o700, .absent⟩ }
    | some _ => some s
  | .chmodDirectory =>
    match s.disk.directory with
    | none => none
    | some directory =>
      if uid = directory.uid ∨ uid = 0 then some
        { s with disk := s.disk.setDirectory { directory with mode := 0o700 } } else none
  | .mkstemp => some { s with temporary := some ⟨some [], uid, 0o600⟩ }
  | .bindTempPath => some s
  | .writeTemp =>
    some { s with
      temporary := s.temporary.map fun file => { file with text := some (manifestText runtime ++ [codePoint '\n']) } }
  | .chmodTemp => some { s with temporary := s.temporary.map fun file => { file with mode := 0o600 } }
  | .replace =>
    match s.disk.directory, s.temporary with
    | some directory, some file =>
      match directory.manifest with
      | .directory => none
      | _ =>
        some { s with disk := s.disk.setDirectory { directory with manifest := .regular file }, temporary := none }
    | _, _ => none
  | .unlink => some { s with temporary := none }
  | .chmodManifest =>
    match s.disk.directory with
    | none => none
    | some directory =>
      match directory.manifest with
      | .regular file =>
        some { s with
          disk := s.disk.setDirectory { directory with manifest := .regular { file with mode := 0o600 } } }
      | _ => none
  | .fsyncDirectory => some s

/-- How the steps end when not all of them are done. -/
inductive Ended
  | raised (e : Raised)
  | killed
deriving DecidableEq

def WriteState.take (uid : ℕ) (runtime : HostRuntime) (s : WriteState) (step : Step) : WriteState :=
  match effect uid runtime s step with
  | none => s
  | some s' => { s' with taken := step :: s.taken }

def runStep (uid : ℕ) (runtime : HostRuntime) (answers : Step → Outcome) (s : WriteState) (step : Step) :
    WriteState × Option Ended :=
  match answers step with
  | .done =>
    (s.take uid runtime step, if (effect uid runtime s step).isSome then none else some (.raised .osError))
  | .raised e took => (if took then s.take uid runtime step else s, some (.raised e))
  | .killed took => (if took then s.take uid runtime step else s, some .killed)

def runSteps (uid : ℕ) (runtime : HostRuntime) (answers : Step → Outcome) : List Step → WriteState →
    WriteState × Option (Step × Ended)
  | [], s => (s, none)
  | step :: steps, s =>
    match runStep uid runtime answers s step with
    | (s, none) => runSteps uid runtime answers steps s
    | (s, some ended) => (s, some (step, ended))

inductive WriteResult
  | returned
  | hostRuntimeError
  | raised (e : Raised)
  | killed
deriving DecidableEq

def Ended.result : Ended → WriteResult
  | .raised e => .raised e
  | .killed => .killed

/-- An `Exception` is raised again as a `HostRuntimeError`. -/
def reraised : Raised → WriteResult
  | .osError | .exception => .hostRuntimeError
  | .interrupt => .raised .interrupt

/-- The handler of the exceptions: the temporary file is removed if its path is known. -/
def cleanUp (uid : ℕ) (runtime : HostRuntime) (answers : Step → Outcome) (s : WriteState) (step : Step)
    (ended : Ended) :
    WriteState × WriteResult :=
  match ended with
  | .killed => (s, .killed)
  | .raised e =>
    if step = .mkstemp ∨ step = .bindTempPath then (s, reraised e)
    else
      match runStep uid runtime answers s .unlink with
      | (s, none) => (s, reraised e)
      | (s, some (.raised .osError)) => (s, reraised e)
      | (s, some ended) => (s, ended.result)

/-- `write_host_runtime` -/
def writeHostRuntime (uid : ℕ) (runtime : HostRuntime) (answers : Step → Outcome) (disk : Disk) :
    WriteState × WriteResult :=
  match runSteps uid runtime answers [.mkdir, .chmodDirectory] ⟨disk, none, []⟩ with
  | (s, some (_, ended)) => (s, ended.result)
  | (s, none) =>
    match runSteps uid runtime answers [.mkstemp, .bindTempPath, .writeTemp, .chmodTemp, .replace] s with
    | (s, some (step, ended)) => cleanUp uid runtime answers s step ended
    | (s, none) =>
      match runStep uid runtime answers s .chmodManifest with
      | (s, some ended) => (s, ended.result)
      | (s, none) =>
        match runStep uid runtime answers s .fsyncDirectory with
        | (s, none) => (s, .returned)
        | (s, some (.raised .osError)) => (s, .returned)
        | (s, some ended) => (s, ended.result)

/-- A host with the texts that the system gives: bytes that are no text are read as lone second halves of code
points. -/
structure SystemHost extends Host where
  pathVariable_text : NoHighSurrogate pathVariable
  cwd_text : NoHighSurrogate cwd
  generatedAt_text : NoHighSurrogate generatedAt
  generatedAt_ne_nil : generatedAt ≠ []

variable {h : SystemHost} {runtime : HostRuntime} {name : String} {file path path' : Str}

theorem noHighSurrogate_of_all {text : Str} (hall : (text.all fun c => !isHighSurrogate c.val) = true) :
    NoHighSurrogate text := by
  intro c hc
  simpa using List.all_eq_true.mp hall c hc

theorem noHighSurrogate_tools : ∀ name ∈ tools, NoHighSurrogate (str name) := by
  intro name hname
  have hcheck : tools.all fun name => (str name).all fun c => !isHighSurrogate c.val := by decide +kernel
  exact noHighSurrogate_of_all (List.all_eq_true.mp hcheck name hname)

theorem noHighSurrogate_fallback : ∀ entry ∈ standardPathFallback.map str, isAbsoluteNonempty entry = true ∧
    NoHighSurrogate entry := by
  intro entry hentry
  have hcheck : (standardPathFallback.map str).all fun entry => isAbsoluteNonempty entry && entry.all fun c =>
    !isHighSurrogate c.val := by
    decide +kernel
  have hall := List.all_eq_true.mp hcheck entry hentry
  rw [Bool.and_eq_true] at hall
  exact ⟨hall.1, noHighSurrogate_of_all hall.2⟩

theorem slash_low : isHighSurrogate slash.val = false := by decide

theorem noHighSurrogate_join (hpath : NoHighSurrogate path) (hpath' : NoHighSurrogate path') :
    NoHighSurrogate (join path path') := by
  intro c hc
  unfold join at hc
  split at hc
  · exact (List.mem_append.mp hc).elim (hpath c) (hpath' c)
  · rcases List.mem_append.mp hc with hc | hc
    · exact hpath c hc
    · rcases List.mem_cons.mp hc with rfl | hc
      · exact slash_low
      · exact hpath' c hc

theorem isAbsoluteNonempty_iff : isAbsoluteNonempty path = true ↔ ∃ rest, path = slash :: rest := by
  unfold isAbsoluteNonempty
  rw [Bool.and_eq_true, decide_eq_true_eq]
  constructor
  · rintro ⟨-, habs⟩
    obtain ⟨rest, rfl⟩ := List.isPrefixOf_iff_prefix.mp habs
    exact ⟨rest, rfl⟩
  · rintro ⟨rest, rfl⟩
    exact ⟨List.cons_ne_nil _ _, List.isPrefixOf_iff_prefix.mpr ⟨rest, rfl⟩⟩

theorem isAbsoluteNonempty_abspath (path : Str) : isAbsoluteNonempty (abspath path) = true := by
  apply isAbsoluteNonempty_iff.mpr
  unfold abspath
  rcases initialSlashes_cases path with heq | heq
  · exact ⟨_, by rw [heq]; rfl⟩
  · exact ⟨_, by rw [heq]; rfl⟩

theorem isAbsoluteNonempty_of_prefix (hhead : path' <+: path) (hne : path' ≠ [])
    (hpath : isAbsoluteNonempty path = true) :
    isAbsoluteNonempty path' = true := by
  obtain ⟨rest, rfl⟩ := isAbsoluteNonempty_iff.mp hpath
  obtain ⟨c, rest', rfl⟩ := List.exists_cons_of_ne_nil hne
  obtain ⟨rfl, -⟩ := List.cons_prefix_cons.mp hhead
  exact isAbsoluteNonempty_iff.mpr ⟨rest', rfl⟩

/-- The directory of an absolute path is one. -/
theorem isAbsoluteNonempty_dirname (hpath : isAbsoluteNonempty path = true) :
    isAbsoluteNonempty (dirname path) = true := by
  have hhead : isAbsoluteNonempty (path.rdropWhile (· ≠ slash)) = true := by
    apply isAbsoluteNonempty_of_prefix (List.rdropWhile_prefix _ _) _ hpath
    intro hnil
    obtain ⟨rest, rfl⟩ := isAbsoluteNonempty_iff.mp hpath
    have hall := List.rdropWhile_eq_nil_iff.mp hnil slash List.mem_cons_self
    simp at hall
  unfold dirname
  dsimp only
  split
  · exact hhead
  · next hsome =>
    apply isAbsoluteNonempty_of_prefix (List.rdropWhile_prefix _ _) _ hhead
    intro hnil
    exact hsome (List.all_eq_true.mpr (List.rdropWhile_eq_nil_iff.mp hnil))

theorem discovered_spec (hname : name ∈ tools) (hfile : h.discovered name = some file) :
    isAbsoluteNonempty file = true ∧ NoHighSurrogate file := by
  obtain ⟨found, hfound, rfl⟩ := Option.map_eq_some_iff.mp hfile
  obtain ⟨entry, hentry, rfl, -⟩ := which_eq_some hfound
  have hentryText : NoHighSurrogate entry := fun c hc => h.pathVariable_text c (mem_of_mem_splitOn hentry hc)
  have hjoin := noHighSurrogate_join hentryText (noHighSurrogate_tools name hname)
  refine ⟨isAbsoluteNonempty_abspath _, fun c hc => ?_⟩
  rcases mem_abspath hc with hc | rfl
  · split at hc
    · exact hjoin c hc
    · exact noHighSurrogate_join h.cwd_text hjoin c hc
  · exact slash_low

theorem nodup_foldl_addEntry {entries entries' : List Str} (hnodup : entries.Nodup) :
    (entries'.foldl addEntry entries).Nodup := by
  induction entries' generalizing entries with
  | nil => exact hnodup
  | cons entry entries' ih =>
    rw [List.foldl_cons, addEntry]
    split
    · exact ih hnodup
    · next hnot => exact ih (by simpa using hnodup.concat hnot)

/-- The entries of the captured path differ, and each of them is an absolute path. -/
theorem path_spec (hcapture : h.captureHostRuntime = .ok runtime) :
    runtime.path.Nodup ∧ ∀ entry ∈ runtime.path, isAbsoluteNonempty entry = true ∧ NoHighSurrogate entry := by
  obtain ⟨-, -, -, existing, fallback, hexisting, hfallback, hpath⟩ := captureHostRuntime_ok hcapture
  rw [hpath]
  refine ⟨nodup_foldl_addEntry (nodup_foldl_addEntry (nodup_foldl_addEntry List.nodup_nil)), fun entry hentry => ?_⟩
  rw [mem_foldl_addEntry, mem_foldl_addEntry, mem_foldl_addEntry] at hentry
  rcases hentry with ((hentry | hentry) | hentry) | hentry
  · cases hentry
  · obtain ⟨name, hname, hdir⟩ := List.mem_filterMap.mp (List.mem_of_mem_filter hentry)
    obtain ⟨file, hfile, rfl⟩ := Option.map_eq_some_iff.mp hdir
    obtain ⟨habs, htext⟩ := discovered_spec hname hfile
    exact ⟨isAbsoluteNonempty_dirname habs, fun c hc => htext c (mem_of_mem_dirname hc)⟩
  · obtain ⟨hmem, habs⟩ := hexisting entry hentry
    refine ⟨?_, fun c hc => h.pathVariable_text c (mem_of_mem_splitOn hmem hc)⟩
    obtain ⟨rest, rfl⟩ := List.isPrefixOf_iff_prefix.mp habs
    exact isAbsoluteNonempty_iff.mpr ⟨rest, rfl⟩
  · exact noHighSurrogate_fallback entry (hfallback entry hentry)

theorem foldl_addEntry_of_nodup {entries entries' : List Str} (hnodup : (entries ++ entries').Nodup) :
    entries'.foldl addEntry entries = entries ++ entries' := by
  induction entries' generalizing entries with
  | nil => simp
  | cons entry entries' ih =>
    have hnot : entry ∉ entries := fun hmem => (List.disjoint_of_nodup_append hnodup) hmem List.mem_cons_self
    rw [List.append_cons] at hnodup ⊢
    rw [List.foldl_cons, addEntry, if_neg hnot, ih hnodup]

def executableJson : Option Str → Json
  | none => .null
  | some path => .string path

def executableMembers (runtime : HostRuntime) : List Member :=
  runtime.executables.map fun e => (e.1, executableText e.2, executableJson e.2)

def sortMembers (members : List Member) : List Member := SortedLists.sortOn Prod.fst members

def executableValues (runtime : HostRuntime) : List (Str × Json) :=
  setMembers [] (sortMembers (executableMembers runtime))

def manifestMembers (runtime : HostRuntime) : List Member :=
  [(str "schema_version", IntLiterals.decimal schemaVersion, .int schemaVersion),
    (str "generated_at", stringText runtime.generatedAt, .string runtime.generatedAt),
    (str "path", arrayText 1 (runtime.path.map stringText), .array (runtime.path.map .string)),
    (str "executables", objectText 1 (sortKeys (runtime.executables.map fun e => (e.1, executableText e.2))),
      .object (executableValues runtime))]

theorem sortKeys_written (members : List Member) : sortKeys (members.map Member.written) =
    (sortMembers members).map Member.written :=
  (List.map_insertionSort _ _ Member.written members fun _ _ _ _ => Iff.rfl).symm

theorem mem_sortMembers {member : Member} {members : List Member} : member ∈ sortMembers members ↔
    member ∈ members :=
  SortedLists.mem_sortOn

theorem nodup_sortMembers {members : List Member} (hnodup : (members.map Prod.fst).Nodup) :
    ((sortMembers members).map Prod.fst).Nodup :=
  ((SortedLists.sortOn_perm _ members).map Prod.fst).nodup_iff.mpr hnodup

/-- A runtime whose texts are read back. -/
structure Readable (runtime : HostRuntime) : Prop where
  generatedAt : NoHighSurrogate runtime.generatedAt
  path : ∀ entry ∈ runtime.path, NoHighSurrogate entry
  names : ∀ e ∈ runtime.executables, NoHighSurrogate e.1
  files : ∀ name file, (name, some file) ∈ runtime.executables → NoHighSurrogate file

theorem denotes_executables (hreadable : Readable runtime) :
    Denotes (objectText 1 (sortKeys (runtime.executables.map fun e => (e.1, executableText e.2))))
      (.object (executableValues runtime)) 1 := by
  have hwritten : (runtime.executables.map fun e => (e.1, executableText e.2)) =
    (executableMembers runtime).map Member.written := by
    rw [executableMembers, List.map_map]
    rfl
  rw [hwritten, sortKeys_written]
  apply denotes_object
  intro member hmember
  obtain ⟨⟨name, path⟩, he, rfl⟩ := List.mem_map.mp (mem_sortMembers.mp hmember)
  refine ⟨hreadable.names _ he, ?_⟩
  cases path with
  | none => exact denotes_null
  | some path => exact denotes_string (hreadable.files name path he)

theorem denotes_path (hreadable : Readable runtime) :
    Denotes (arrayText 1 (runtime.path.map stringText)) (.array (runtime.path.map .string)) 1 := by
  have hitem : ∀ item ∈ runtime.path.map fun entry => (stringText entry, Json.string entry),
    Denotes item.1 item.2 0 := by
    intro item hitem
    obtain ⟨entry, hentry, rfl⟩ := List.mem_map.mp hitem
    exact denotes_string (hreadable.path entry hentry)
  have hitems := denotes_array hitem 1
  rwa [List.map_map, List.map_map] at hitems

theorem denotes_manifest (hreadable : Readable runtime) :
    Denotes (manifestText runtime) (.object (setMembers [] (sortMembers (manifestMembers runtime)))) 2 := by
  have hwritten : manifestText runtime = objectText 0 (sortKeys ((manifestMembers runtime).map Member.written)) :=
    rfl
  have hkeys : (manifestMembers runtime).map Prod.fst =
    ["schema_version", "generated_at", "path", "executables"].map str := rfl
  have hascii : ∀ key ∈ ["schema_version", "generated_at", "path", "executables"].map str, NoHighSurrogate key := by
    intro key hkey
    have hcheck : (["schema_version", "generated_at", "path", "executables"].map str).all
        fun key => key.all fun c => !isHighSurrogate c.val := by
      decide +kernel
    exact noHighSurrogate_of_all (List.all_eq_true.mp hcheck key hkey)
  rw [hwritten, sortKeys_written]
  apply denotes_object
  intro member hmember
  have hmem := mem_sortMembers.mp hmember
  refine ⟨hascii _ (hkeys ▸ List.mem_map_of_mem hmem), ?_⟩
  simp only [manifestMembers, List.mem_cons, List.not_mem_nil, or_false] at hmem
  rcases hmem with rfl | rfl | rfl | rfl
  · exact (denotes_decimal (Nat.one_lt_pow (by decide) (by decide))).mono (by omega)
  · exact (denotes_string hreadable.generatedAt).mono (by omega)
  · exact denotes_path hreadable
  · exact denotes_executables hreadable

theorem loads_manifest {limit : ℕ} (hlimit : 2 ≤ limit) (hreadable : Readable runtime) :
    loads limit (manifestText runtime ++ [codePoint '\n']) =
    .ok (.object (setMembers [] (sortMembers (manifestMembers runtime)))) := by
  have hhead : ∃ rest, manifestText runtime = codePoint '{' :: rest := by
    unfold manifestText objectText bracketed
    split
    · exact ⟨_, rfl⟩
    · exact ⟨_, rfl⟩
  obtain ⟨rest, hrest⟩ := hhead
  apply loads_of_denotes (denotes_manifest hreadable) hlimit
  · rw [hrest, List.head?_cons]
    exact fun heq => absurd (Option.some.inj heq) (by decide)
  · rw [hrest]
    exact List.cons_ne_nil _ _

theorem mapM_ok {α β : Type} {f : α → Except LoadError β} {g : α → β} {l : List α}
    (hall : ∀ a ∈ l, f a = .ok (g a)) :
    l.mapM f = .ok (l.map g) := by
  induction l with
  | nil => rfl
  | cons a l ih =>
    rw [List.mapM_cons, hall a List.mem_cons_self, ih fun b hb => hall b (List.mem_cons_of_mem _ hb)]
    rfl

theorem forM_ok {α : Type} {f : α → Except LoadError Unit} {l : List α} (hall : ∀ a ∈ l, f a = .ok ()) :
    l.forM f = .ok () := by
  induction l with
  | nil => rfl
  | cons a l ih =>
    change (f a >>= fun _ => l.forM f) = .ok ()
    rw [hall a List.mem_cons_self]
    exact ih fun b hb => hall b (List.mem_cons_of_mem _ hb)

theorem getMember_manifest {member : Member} (hmem : member ∈ manifestMembers runtime) :
    getMember member.1 (setMembers [] (sortMembers (manifestMembers runtime))) = some member.2.2 := by
  apply getMember_setMembers (nodup_sortMembers _) (mem_sortMembers.mpr hmem)
  change (["schema_version", "generated_at", "path", "executables"].map str).Nodup
  decide +kernel

theorem getMember_executables (hnodup : (runtime.executables.map Prod.fst).Nodup) {path : Option Str}
    (hmem : (str name, path) ∈ runtime.executables) : getMember (str name) (executableValues runtime) =
    some (executableJson path) := by
  have hkeys : (executableMembers runtime).map Prod.fst = runtime.executables.map Prod.fst := by
    rw [executableMembers, List.map_map]
    rfl
  have hmember : (str name, executableText path, executableJson path) ∈ sortMembers (executableMembers runtime) :=
    mem_sortMembers.mpr (List.mem_map.mpr ⟨_, hmem, rfl⟩)
  exact getMember_setMembers (nodup_sortMembers (hkeys ▸ hnodup)) hmember []

theorem nodup_executables (hcapture : h.captureHostRuntime = .ok runtime) :
    (runtime.executables.map Prod.fst).Nodup := by
  rw [(captureHostRuntime_ok hcapture).1, List.map_map]
  change (tools.map str).Nodup
  decide +kernel

theorem mem_executables (hcapture : h.captureHostRuntime = .ok runtime) (hname : name ∈ tools) :
    (str name, h.discovered name) ∈ runtime.executables := by
  rw [(captureHostRuntime_ok hcapture).1]
  exact List.mem_map.mpr ⟨name, hname, rfl⟩

theorem requiredExecutable_ok (hcapture : h.captureHostRuntime = .ok runtime) (hname : name ∈ requiredExecutables) :
    requiredExecutable (executableValues runtime) name = .ok (str name, h.discovered name) := by
  have htool : name ∈ tools := List.mem_append_left _ hname
  obtain ⟨file, hfile⟩ := Option.ne_none_iff_exists'.mp (discovered_of_capture hcapture name hname)
  have hget := getMember_executables (nodup_executables hcapture) (mem_executables hcapture htool)
  rw [hfile] at hget ⊢
  unfold requiredExecutable
  rw [hget]
  exact if_pos (discovered_spec htool hfile).1

theorem optionalExecutable_ok (hcapture : h.captureHostRuntime = .ok runtime) (hname : name ∈ optionalExecutables) :
    optionalExecutable (executableValues runtime) name = .ok (str name, h.discovered name) := by
  have htool : name ∈ tools := List.mem_append_right _ hname
  have hget := getMember_executables (nodup_executables hcapture) (mem_executables hcapture htool)
  unfold optionalExecutable
  rw [hget]
  cases hfile : h.discovered name with
  | none => rfl
  | some file => exact if_pos (discovered_spec htool hfile).1

theorem pathEntry_ok (hcapture : h.captureHostRuntime = .ok runtime) :
    (runtime.path.map .string).mapM pathEntry = .ok runtime.path := by
  rw [List.mapM_map]
  apply (mapM_ok fun entry hentry => ?_).trans (congrArg _ (List.map_id _))
  exact if_pos ((path_spec hcapture).2 entry hentry).1

theorem validateLoadedPayload_ok (hcapture : h.captureHostRuntime = .ok runtime) :
    validateLoadedPayload (.object (setMembers [] (sortMembers (manifestMembers runtime)))) = .ok runtime := by
  obtain ⟨hexecutables, hversion, hgenerated, -⟩ := captureHostRuntime_ok hcapture
  have hversionMember : getMember (str "schema_version") (setMembers [] (sortMembers (manifestMembers runtime))) =
      some (.int schemaVersion) := getMember_manifest (.head _)
  have hgeneratedMember : getMember (str "generated_at") (setMembers [] (sortMembers (manifestMembers runtime))) =
      some (.string runtime.generatedAt) := getMember_manifest (.tail _ (.head _))
  have hpathMember : getMember (str "path") (setMembers [] (sortMembers (manifestMembers runtime))) =
      some (.array (runtime.path.map .string)) := getMember_manifest (.tail _ (.tail _ (.head _)))
  have hexecutablesMember : getMember (str "executables") (setMembers [] (sortMembers (manifestMembers runtime))) =
      some (.object (executableValues runtime)) := getMember_manifest (.tail _ (.tail _ (.tail _ (.head _))))
  have hne : runtime.generatedAt ≠ [] := by
    rw [hgenerated]
    exact h.generatedAt_ne_nil
  have hrequired := mapM_ok fun name (hname : name ∈ requiredExecutables) => requiredExecutable_ok hcapture hname
  have hoptional := mapM_ok fun name (hname : name ∈ optionalExecutables) => optionalExecutable_ok hcapture hname
  have hruntime : (⟨runtime.path, requiredExecutables.map (fun name => (str name, h.discovered name)) ++
      optionalExecutables.map (fun name => (str name, h.discovered name)), schemaVersion,
      runtime.generatedAt⟩ : HostRuntime) =
      runtime := by
    rw [← List.map_append, ← hversion]
    change (⟨runtime.path, tools.map (fun name => (str name, h.discovered name)), _, _⟩ : HostRuntime) = runtime
    rw [← hexecutables]
  unfold validateLoadedPayload
  dsimp only
  rw [hversionMember, hgeneratedMember, hpathMember, hexecutablesMember]
  dsimp only
  rw [if_neg hne, pathEntry_ok hcapture, hrequired, hoptional]
  exact congrArg _ hruntime

theorem readable_of_capture (hcapture : h.captureHostRuntime = .ok runtime) : Readable runtime := by
  obtain ⟨hexecutables, -, hgenerated, -⟩ := captureHostRuntime_ok hcapture
  constructor
  · rw [hgenerated]
    exact h.generatedAt_text
  · exact fun entry hentry => ((path_spec hcapture).2 entry hentry).2
  · intro e he
    rw [hexecutables] at he
    obtain ⟨name, hname, rfl⟩ := List.mem_map.mp he
    exact noHighSurrogate_tools name hname
  · intro key file hmem
    rw [hexecutables] at hmem
    obtain ⟨name, hname, heq⟩ := List.mem_map.mp hmem
    obtain ⟨-, hfile⟩ := Prod.mk.inj heq
    exact (discovered_spec hname hfile).2

/-- A manifest with its owner, its modes and its text is loaded. -/
theorem readManifest_ok {limit uid : ℕ} {disk : Disk} {entry : Entry} (hlimit : 2 ≤ limit)
    (hcapture : h.captureHostRuntime = .ok runtime)
    (hfiles : ∀ name file, (name, some file) ∈ runtime.executables → disk.isFile file = true ∧
      disk.executable file = true) :
    readManifest limit uid disk ⟨uid, 0o700, entry⟩ ⟨some (manifestText runtime ++ [codePoint '\n']), uid, 0o600⟩ =
    .ok runtime := by
  have hforM : runtime.executables.forM (validateExecutable disk) = .ok () := by
    apply forM_ok
    rintro ⟨name, path⟩ hmem
    cases path with
    | none => rfl
    | some file =>
      obtain ⟨hfile, hmode⟩ := hfiles name file hmem
      rw [validateExecutable, if_pos hfile, if_pos hmode]
  have hdedupe : dedupePreservingOrder runtime.path = runtime.path :=
    foldl_addEntry_of_nodup (by simpa using (path_spec hcapture).1)
  unfold readManifest
  dsimp only
  rw [if_neg (by simp), if_neg (by simp), loads_manifest hlimit (readable_of_capture hcapture)]
  dsimp only
  rw [validateLoadedPayload_ok hcapture]
  change (runtime.executables.forM (validateExecutable disk) >>= fun _ =>
    Except.ok { runtime with path := dedupePreservingOrder runtime.path }) = _
  rw [hforM, hdedupe]
  rfl

variable {uid limit : ℕ} {answers : Step → Outcome} {disk : Disk} {s s' : WriteState} {step : Step}
    {steps : List Step}
  {ended : Ended} {P : WriteState → Prop}

/-- A step that is done has had its effect. -/
theorem runStep_eq_none (hrun : runStep uid runtime answers s step = (s', none)) :
    answers step = .done ∧ ∃ after, effect uid runtime s step = some after ∧
    s' = { after with taken := step :: s.taken } := by
  unfold runStep at hrun
  cases hanswer : answers step with
  | done =>
    rw [hanswer] at hrun
    obtain ⟨hstate, hend⟩ := Prod.mk.inj hrun
    cases heffect : effect uid runtime s step with
    | none =>
      rw [heffect] at hend
      cases hend
    | some after =>
      rw [WriteState.take, heffect] at hstate
      exact ⟨rfl, after, rfl, hstate.symm⟩
  | raised e took =>
    rw [hanswer] at hrun
    cases (Prod.mk.inj hrun).2
  | killed took =>
    rw [hanswer] at hrun
    cases (Prod.mk.inj hrun).2

theorem runSteps_cons_eq_none (hrun : runSteps uid runtime answers (step :: steps) s = (s', none)) :
    ∃ after, effect uid runtime s step = some after ∧
      runSteps uid runtime answers steps { after with taken := step :: s.taken } = (s', none) := by
  rw [runSteps] at hrun
  split at hrun
  · next state hstep =>
    obtain ⟨-, after, heffect, rfl⟩ := runStep_eq_none hstep
    exact ⟨after, heffect, hrun⟩
  · cases hrun

theorem runStep_preserves (answers : Step → Outcome) (htake : ∀ s, P s → P (s.take uid runtime step)) (hs : P s) :
    P (runStep uid runtime answers s step).1 := by
  unfold runStep
  split
  · exact htake s hs
  · split
    · exact htake s hs
    · exact hs
  · split
    · exact htake s hs
    · exact hs

theorem runSteps_preserves (answers : Step → Outcome) (steps : List Step)
    (htake : ∀ s, ∀ step ∈ steps, P s → P (s.take uid runtime step)) (hs : P s) :
    P (runSteps uid runtime answers steps s).1 := by
  induction steps generalizing s with
  | nil => exact hs
  | cons step steps ih =>
    have hstep := runStep_preserves answers (fun s => htake s step List.mem_cons_self) hs
    rw [runSteps]
    split
    · next state hrun =>
      rw [hrun] at hstep
      exact ih (fun s step hmem => htake s step (List.mem_cons_of_mem _ hmem)) hstep
    · next state ended hrun =>
      rw [hrun] at hstep
      exact hstep

theorem cleanUp_preserves (htake : ∀ s step, P s → P (s.take uid runtime step)) (hs : P s) :
    P (cleanUp uid runtime answers s step ended).1 := by
  have hunlink := runStep_preserves answers (fun s => htake s .unlink) hs
  unfold cleanUp
  split
  · exact hs
  · split
    · exact hs
    · split <;> next hrun => rwa [hrun] at hunlink

/-- What every step keeps is kept by the whole writing. -/
theorem writeHostRuntime_preserves (htake : ∀ s step, P s → P (s.take uid runtime step))
    (hdisk : P ⟨disk, none, []⟩) :
    P (writeHostRuntime uid runtime answers disk).1 := by
  have hprepared := runSteps_preserves answers [.mkdir, .chmodDirectory] (fun s step _ => htake s step) hdisk
  unfold writeHostRuntime
  split
  · next hrun => rwa [hrun] at hprepared
  · next prepared hrun =>
    rw [hrun] at hprepared
    have hreplaced := runSteps_preserves answers [.mkstemp, .bindTempPath, .writeTemp, .chmodTemp, .replace]
      (fun s step _ => htake s step) hprepared
    split
    · next hrun =>
      rw [hrun] at hreplaced
      exact cleanUp_preserves htake hreplaced
    · next replaced hrun =>
      rw [hrun] at hreplaced
      have hchmod := runStep_preserves answers (fun s => htake s .chmodManifest) hreplaced
      split
      · next hrun => rwa [hrun] at hchmod
      · next written hrun =>
        rw [hrun] at hchmod
        have hfsync := runStep_preserves answers (fun s => htake s .fsyncDirectory) hchmod
        split <;> next hrun => rwa [hrun] at hfsync

/-- A manifest is loaded only with its owner and its modes. -/
structure Guarded (uid : ℕ) (disk : Disk) (directory : Directory) (file : File) : Prop where
  there : disk.directory = some directory
  manifest : directory.manifest = .regular file
  directoryUid : directory.uid = uid
  directoryMode : directory.mode = 0o700
  fileMode : file.mode = 0o600

theorem exists_guarded {required : Bool} {loaded : HostRuntime}
    (hload : loadHostRuntime limit uid disk required = .ok (some loaded)) :
    ∃ directory file, Guarded uid disk directory file := by
  have hnotFound : (if required then Except.error
    (LoadError.hostRuntimeError "host runtime manifest not found") else .ok none) ≠
      .ok (some loaded) := by
    split
    · simp
    · simp
  unfold loadHostRuntime at hload
  dsimp only at hload
  cases hdirectory : disk.directory with
  | none =>
    rw [hdirectory] at hload
    exact absurd hload hnotFound
  | some directory =>
    rw [hdirectory] at hload
    dsimp only at hload
    cases hmanifest : directory.manifest with
    | absent =>
      rw [hmanifest] at hload
      exact absurd hload hnotFound
    | other found =>
      rw [hmanifest] at hload
      cases found with
      | false => exact absurd hload hnotFound
      | true => cases hload
    | directory =>
      rw [hmanifest] at hload
      cases hload
    | regular file =>
      rw [hmanifest] at hload
      dsimp only [readManifest] at hload
      by_cases hfile : file.uid ≠ uid ∨ file.mode ≠ 0o600
      · rw [if_pos hfile] at hload
        cases hload
      · rw [if_neg hfile] at hload
        by_cases hguard : directory.uid ≠ uid ∨ directory.mode ≠ 0o700
        · rw [if_pos hguard] at hload
          cases hload
        · simp only [not_or, not_not] at hfile hguard
          exact ⟨directory, file, hdirectory, hmanifest, hguard.1, hguard.2, hfile.2⟩

theorem setDirectory_self {directory : Directory} (hdirectory : disk.directory = some directory) :
    disk.setDirectory directory = disk := by
  rw [Disk.setDirectory, ← hdirectory]

/-- Until the temporary file takes the place of a manifest that can be loaded, the disk stays as it is. -/
theorem take_keeps {directory : Directory} {file : File} (hguarded : Guarded uid disk directory file)
    (s : WriteState) (step : Step)
    (hs : .replace ∈ s.taken ∨ s.disk = disk) :
    .replace ∈ (s.take uid runtime step).taken ∨ (s.take uid runtime step).disk = disk := by
  have hmore : ∀ after, effect uid runtime s step = some after → .replace ∈ s.taken →
      .replace ∈ (s.take uid runtime step).taken := by
    intro after heffect htaken
    rw [WriteState.take, heffect]
    exact List.mem_cons_of_mem _ htaken
  cases heffect : effect uid runtime s step with
  | none =>
    rw [WriteState.take, heffect]
    exact hs
  | some after =>
    rcases hs with htaken | hdisk
    · exact .inl (hmore after heffect htaken)
    · have hdirectory : s.disk.directory = some directory := by rw [hdisk, hguarded.there]
      rw [WriteState.take, heffect]
      cases step with
      | replace => exact .inl List.mem_cons_self
      | mkdir =>
        right
        rw [effect, hdirectory] at heffect
        cases heffect
        exact hdisk
      | chmodDirectory =>
        right
        have hmode : { directory with mode := 0o700 } = directory := by
          rw [← hguarded.directoryMode]
        rw [effect, hdirectory] at heffect
        dsimp only at heffect
        rw [if_pos (.inl hguarded.directoryUid.symm), hmode, setDirectory_self hdirectory] at heffect
        cases heffect
        exact hdisk
      | chmodManifest =>
        right
        have hmode : ({ directory with manifest := .regular { file with mode := 0o600 } } : Directory) =
          directory := by
          rw [← hguarded.fileMode, ← hguarded.manifest]
        rw [effect, hdirectory] at heffect
        dsimp only at heffect
        rw [hguarded.manifest] at heffect
        dsimp only at heffect
        rw [hmode, setDirectory_self hdirectory] at heffect
        cases heffect
        exact hdisk
      | _ =>
        right
        cases heffect
        exact hdisk

/-- Only root can write into the directory of another user. -/
def OwnDirectory (uid : ℕ) (disk : Disk) : Prop := uid = 0 → ∀ directory, disk.directory = some directory →
    directory.uid = 0

def manifestFile (uid : ℕ) (runtime : HostRuntime) : File :=
  ⟨some (manifestText runtime ++ [codePoint '\n']), uid, 0o600⟩

theorem disk_of_prepared (hown : OwnDirectory uid disk)
    (hrun : runSteps uid runtime answers [.mkdir, .chmodDirectory] ⟨disk, none, []⟩ = (s, none)) :
    ∃ manifest, s.disk = disk.setDirectory ⟨uid, 0o700, manifest⟩ := by
  obtain ⟨made, hmkdir, hrun⟩ := runSteps_cons_eq_none hrun
  obtain ⟨changed, hchmod, hrun⟩ := runSteps_cons_eq_none hrun
  cases hrun
  cases hdirectory : disk.directory with
  | none =>
    rw [effect] at hmkdir
    dsimp only at hmkdir
    rw [hdirectory] at hmkdir
    cases hmkdir
    rw [effect] at hchmod
    dsimp only [Disk.setDirectory] at hchmod
    rw [if_pos (.inl rfl)] at hchmod
    cases hchmod
    exact ⟨.absent, rfl⟩
  | some directory =>
    rw [effect] at hmkdir
    dsimp only at hmkdir
    rw [hdirectory] at hmkdir
    cases hmkdir
    rw [effect] at hchmod
    dsimp only at hchmod
    rw [hdirectory] at hchmod
    dsimp only at hchmod
    split at hchmod
    · next howner =>
      cases hchmod
      have huid : directory.uid = uid := by
        rcases howner with heq | hroot
        · exact heq.symm
        · rw [hown hroot directory hdirectory, hroot]
      exact ⟨directory.manifest, by rw [← huid]⟩
    · cases hchmod

theorem disk_of_replaced {manifest : Entry} (hdisk : s.disk = disk.setDirectory ⟨uid, 0o700, manifest⟩)
    (hrun : runSteps uid runtime answers [.mkstemp, .bindTempPath, .writeTemp, .chmodTemp, .replace] s =
      (s', none)) :
    s'.disk = disk.setDirectory ⟨uid, 0o700, .regular (manifestFile uid runtime)⟩ ∧ .replace ∈ s'.taken := by
  obtain ⟨made, hmkstemp, hrun⟩ := runSteps_cons_eq_none hrun
  obtain ⟨bound, hbind, hrun⟩ := runSteps_cons_eq_none hrun
  obtain ⟨written, hwrite, hrun⟩ := runSteps_cons_eq_none hrun
  obtain ⟨changed, hchmod, hrun⟩ := runSteps_cons_eq_none hrun
  obtain ⟨replaced, hreplace, hrun⟩ := runSteps_cons_eq_none hrun
  cases hrun
  cases hmkstemp
  cases hbind
  cases hwrite
  cases hchmod
  rw [effect] at hreplace
  dsimp only at hreplace
  rw [hdisk] at hreplace
  dsimp only [Disk.setDirectory, Option.map_some] at hreplace
  refine ⟨?_, List.mem_cons_self⟩
  cases manifest with
  | directory => cases hreplace
  | _ =>
    cases hreplace
    rfl

theorem disk_of_chmodManifest (hdisk : s.disk = disk.setDirectory ⟨uid, 0o700, .regular (manifestFile uid runtime)⟩)
    (hrun : runStep uid runtime answers s .chmodManifest = (s', none)) : s'.disk = s.disk := by
  obtain ⟨-, changed, hchmod, rfl⟩ := runStep_eq_none hrun
  rw [effect, hdisk] at hchmod
  cases hchmod
  rw [hdisk]
  rfl

theorem disk_fsyncDirectory (s : WriteState) : (runStep uid runtime answers s .fsyncDirectory).1.disk = s.disk := by
  have htake : (s.take uid runtime .fsyncDirectory).disk = s.disk := rfl
  unfold runStep
  split
  · exact htake
  · split
    · exact htake
    · rfl
  · split
    · exact htake
    · rfl

theorem Ended.result_ne_returned (ended : Ended) : ended.result ≠ .returned := by
  cases ended with
  | raised e => simp [Ended.result]
  | killed => simp [Ended.result]

theorem reraised_ne_returned (e : Raised) : reraised e ≠ .returned := by
  cases e <;> simp [reraised]

theorem cleanUp_ne_returned (s : WriteState) (step : Step) (ended : Ended) :
    (cleanUp uid runtime answers s step ended).2 ≠ .returned := by
  unfold cleanUp
  split
  · simp
  · next e =>
    split
    · exact reraised_ne_returned e
    · split
      · exact reraised_ne_returned e
      · exact reraised_ne_returned e
      · next ended _ _ => exact Ended.result_ne_returned _

theorem disk_of_returned (hown : OwnDirectory uid disk)
    (hreturned : (writeHostRuntime uid runtime answers disk).2 = .returned) :
    (writeHostRuntime uid runtime answers disk).1.disk =
    disk.setDirectory ⟨uid, 0o700, .regular (manifestFile uid runtime)⟩ := by
  unfold writeHostRuntime at hreturned ⊢
  split at hreturned
  · exact absurd hreturned (Ended.result_ne_returned _)
  · next prepared hprepared =>
    obtain ⟨manifest, hdisk⟩ := disk_of_prepared hown hprepared
    split at hreturned
    · exact absurd hreturned (cleanUp_ne_returned _ _ _)
    · next replaced hreplaced =>
      obtain ⟨hreplacedDisk, -⟩ := disk_of_replaced hdisk hreplaced
      split at hreturned
      · exact absurd hreturned (Ended.result_ne_returned _)
      · next written hwritten =>
        have hwrittenDisk := disk_of_chmodManifest hreplacedDisk hwritten
        have hfsync : (runStep uid runtime answers written .fsyncDirectory).1.disk = written.disk :=
          disk_fsyncDirectory written
        split at hreturned
        · next hrun =>
          rw [hrun] at hfsync
          rw [hfsync, hwrittenDisk, hreplacedDisk]
        · next hrun =>
          rw [hrun] at hfsync
          rw [hfsync, hwrittenDisk, hreplacedDisk]
        · exact absurd hreturned (Ended.result_ne_returned _)

/-- The path of the temporary file is known once the file is there, and the file is removed when it is to be. -/
structure Removes (answers : Step → Outcome) : Prop where
  made : ∀ e, answers .mkstemp ≠ .raised e true
  bound : answers .bindTempPath = .done
  removed : answers .unlink = .done ∨ ∃ e, answers .unlink = .raised e true

theorem temporary_runStep (hremoves : Removes answers) (s : WriteState) :
    (runStep uid runtime answers s .unlink).1.temporary = none := by
  unfold runStep
  rcases hremoves.removed with hanswer | ⟨e, hanswer⟩
  · rw [hanswer]
    rfl
  · rw [hanswer]
    rfl

theorem temporary_cleanUp (hremoves : Removes answers)
    (hstep : step = .mkstemp ∨ step = .bindTempPath → s.temporary = none)
    (hkilled : (cleanUp uid runtime answers s step ended).2 ≠ .killed) :
    (cleanUp uid runtime answers s step ended).1.temporary = none := by
  have hunlink : (runStep uid runtime answers s .unlink).1.temporary = none := temporary_runStep hremoves s
  unfold cleanUp at hkilled ⊢
  split at hkilled
  · exact absurd rfl hkilled
  · split
    · next hearly => exact hstep hearly
    · split <;> next hrun => rwa [hrun] at hunlink

/-- The temporary file is not there before it is made. -/
theorem temporary_prepared : (runSteps uid runtime answers [.mkdir, .chmodDirectory] ⟨disk, none, []⟩).1.temporary =
    none := by
  apply runSteps_preserves (P := fun s => s.temporary = none)
  · intro s step hstep hs
    rw [WriteState.take]
    simp only [List.mem_cons, List.not_mem_nil, or_false] at hstep
    rcases hstep with rfl | rfl
    · rw [effect]
      split
      · exact hs
      · next heffect =>
        split at heffect <;> cases heffect <;> exact hs
    · rw [effect]
      split
      · exact hs
      · next heffect =>
        split at heffect
        · cases heffect
        · split at heffect
          · cases heffect
            exact hs
          · cases heffect
  · rfl

theorem step_mem_of_runSteps (hrun : runSteps uid runtime answers steps s = (s', some (step, ended))) :
    step ∈ steps := by
  induction steps generalizing s with
  | nil => cases hrun
  | cons first steps ih =>
    rw [runSteps] at hrun
    split at hrun
    · exact List.mem_cons_of_mem _ (ih hrun)
    · cases hrun
      exact List.mem_cons_self

/-- Where the path of the temporary file is not known, there is none. -/
theorem temporary_of_early (hremoves : Removes answers) (hnone : s.temporary = none)
    (hrun : runSteps uid runtime answers [.mkstemp, .bindTempPath, .writeTemp, .chmodTemp, .replace] s =
      (s', some (step, ended)))
    (hkilled : ended ≠ .killed) (hstep : step = .mkstemp ∨ step = .bindTempPath) : s'.temporary = none := by
  rw [runSteps] at hrun
  split at hrun
  · next made hmade =>
    rw [runSteps] at hrun
    split at hrun
    · have hmem := step_mem_of_runSteps hrun
      rcases hstep with rfl | rfl <;> simp at hmem
    · next hbind =>
      rw [runStep, hremoves.bound] at hbind
      cases hbind
  · next hmade =>
    cases hrun
    rw [runStep] at hmade
    cases hanswer : answers .mkstemp with
    | done =>
      rw [hanswer] at hmade
      cases hmade
    | raised e took =>
      rw [hanswer] at hmade
      cases took with
      | true => exact absurd hanswer (hremoves.made e)
      | false =>
        cases hmade
        exact hnone
    | killed took =>
      rw [hanswer] at hmade
      cases (Prod.mk.inj hmade).2
      exact absurd rfl hkilled

theorem replace_mem_of_replaced
    (hrun : runSteps uid runtime answers [.mkstemp, .bindTempPath, .writeTemp, .chmodTemp, .replace] s =
      (s', none)) :
    .replace ∈ s'.taken := by
  obtain ⟨made, hmkstemp, hrun⟩ := runSteps_cons_eq_none hrun
  obtain ⟨bound, hbind, hrun⟩ := runSteps_cons_eq_none hrun
  obtain ⟨written, hwrite, hrun⟩ := runSteps_cons_eq_none hrun
  obtain ⟨changed, hchmod, hrun⟩ := runSteps_cons_eq_none hrun
  obtain ⟨replaced, hreplace, hrun⟩ := runSteps_cons_eq_none hrun
  cases hrun
  exact List.mem_cons_self

theorem mem_taken_take {other : Step} (htaken : other ∈ s.taken) : other ∈ (s.take uid runtime step).taken := by
  rw [WriteState.take]
  split
  · exact htaken
  · exact List.mem_cons_of_mem _ htaken

/-- No temporary file remains where the writing ends before the temporary file takes the place of the manifest. -/
theorem temporary_of_not_replaced (hremoves : Removes answers)
    (hkilled : (writeHostRuntime uid runtime answers disk).2 ≠ .killed)
    (hreplace : .replace ∉ (writeHostRuntime uid runtime answers disk).1.taken) :
    (writeHostRuntime uid runtime answers disk).1.temporary = none := by
  have htemporary : (runSteps uid runtime answers [.mkdir, .chmodDirectory] ⟨disk, none, []⟩).1.temporary = none :=
    temporary_prepared
  unfold writeHostRuntime at hkilled hreplace ⊢
  split at hkilled
  · next hprepared => rwa [hprepared] at htemporary
  · next prepared hprepared =>
    rw [hprepared] at htemporary
    split at hkilled
    · next replaced step ended hreplaced =>
      apply temporary_cleanUp hremoves _ hkilled
      intro hearly
      apply temporary_of_early hremoves htemporary hreplaced _ hearly
      rintro rfl
      exact hkilled rfl
    · next replaced hreplaced =>
      -- all steps up to the renaming are done, which no later step takes back
      exfalso
      have hmem := replace_mem_of_replaced hreplaced
      have hchmod : .replace ∈ (runStep uid runtime answers replaced .chmodManifest).1.taken :=
        runStep_preserves answers (P := fun s => .replace ∈ s.taken) (fun _ => mem_taken_take) hmem
      rw [hprepared] at hreplace
      dsimp only at hreplace
      rw [hreplaced] at hreplace
      dsimp only at hreplace
      split at hreplace
      · next hrun =>
        rw [hrun] at hchmod
        exact hreplace hchmod
      · next written hrun =>
        rw [hrun] at hchmod
        have hfsync : .replace ∈ (runStep uid runtime answers written .fsyncDirectory).1.taken :=
          runStep_preserves answers (P := fun s => .replace ∈ s.taken) (fun _ => mem_taken_take) hchmod
        split at hreplace <;> next hrun =>
          rw [hrun] at hfsync
          exact hreplace hfsync

def RoundTrips (limit uid : ℕ) (runtime : HostRuntime) (answers : Step → Outcome) (disk : Disk) : Prop :=
  (writeHostRuntime uid runtime answers disk).2 = .returned → ∀ required,
    loadHostRuntime limit uid (writeHostRuntime uid runtime answers disk).1.disk required = .ok (some runtime)

def KeepsManifest (limit uid : ℕ) (runtime : HostRuntime) (answers : Step → Outcome) (disk : Disk) : Prop :=
  (writeHostRuntime uid runtime answers disk).2 ≠ .returned →
    .replace ∉ (writeHostRuntime uid runtime answers disk).1.taken →
    ∀ required loaded, loadHostRuntime limit uid disk required = .ok (some loaded) →
      loadHostRuntime limit uid (writeHostRuntime uid runtime answers disk).1.disk required = .ok (some loaded)

def LeavesNoTemporary (uid : ℕ) (runtime : HostRuntime) (answers : Step → Outcome) (disk : Disk) : Prop :=
  (writeHostRuntime uid runtime answers disk).2 ≠ .returned →
    (writeHostRuntime uid runtime answers disk).2 ≠ .killed →
    .replace ∉ (writeHostRuntime uid runtime answers disk).1.taken →
      (writeHostRuntime uid runtime answers disk).1.temporary = none

def ExecutablesOn (disk : Disk) (runtime : HostRuntime) : Prop :=
  ∀ name file, (name, some file) ∈ runtime.executables → disk.isFile file = true ∧ disk.executable file = true

theorem roundTrips (hlimit : 2 ≤ limit) (hcapture : h.captureHostRuntime = .ok runtime)
    (hfiles : ExecutablesOn disk runtime)
    (hown : OwnDirectory uid disk) : RoundTrips limit uid runtime answers disk := by
  intro hreturned required
  rw [disk_of_returned hown hreturned]
  have hread : readManifest limit uid (disk.setDirectory ⟨uid, 0o700, .regular (manifestFile uid runtime)⟩)
      ⟨uid, 0o700, .regular (manifestFile uid runtime)⟩ (manifestFile uid runtime) = .ok runtime :=
    readManifest_ok hlimit hcapture hfiles
  change (readManifest _ _ _ _ _).map some = _
  rw [hread]
  rfl

theorem keepsManifest : KeepsManifest limit uid runtime answers disk := by
  intro _ hreplace required loaded hload
  obtain ⟨directory, file, hguarded⟩ := exists_guarded hload
  have hkept : .replace ∈ (writeHostRuntime uid runtime answers disk).1.taken ∨
      (writeHostRuntime uid runtime answers disk).1.disk = disk :=
    writeHostRuntime_preserves (P := fun s => .replace ∈ s.taken ∨ s.disk = disk) (take_keeps hguarded) (.inr rfl)
  rw [hkept.resolve_left hreplace]
  exact hload

/-- Unless root writes into the directory of another user, a captured runtime is read back as it was written. A
write that fails keeps the manifest, and removes the temporary file unless this fails too. -/
theorem manifest_round_trip (limit uid : ℕ) (h : SystemHost) (runtime : HostRuntime) (answers : Step → Outcome)
    (disk : Disk)
    (hlimit : 2 ≤ limit) (hcapture : h.captureHostRuntime = .ok runtime) (hfiles : ExecutablesOn disk runtime) :
    (OwnDirectory uid disk → RoundTrips limit uid runtime answers disk) ∧
    KeepsManifest limit uid runtime answers disk ∧
      (Removes answers → LeavesNoTemporary uid runtime answers disk) :=
  ⟨roundTrips hlimit hcapture hfiles, keepsManifest, fun hremoves _ => temporary_of_not_replaced hremoves⟩

def twoDirectoriesSystem : SystemHost where
  toHost := twoDirectories []
  pathVariable_text := noHighSurrogate_of_all (by decide +kernel)
  cwd_text := noHighSurrogate_of_all (by decide +kernel)
  generatedAt_text := noHighSurrogate_of_all (by decide +kernel)
  generatedAt_ne_nil := by decide

def diskWith (directory : Option Directory) : Disk := ⟨directory, fun _ => true, fun _ => true⟩

theorem executablesOn_diskWith (directory : Option Directory) (runtime : HostRuntime) :
    ExecutablesOn (diskWith directory) runtime :=
  fun _ _ _ => ⟨rfl, rfl⟩

def fullDisk : Step → Outcome
  | .writeTemp => .raised .osError false
  | .unlink => .raised .osError false
  | _ => .done

/-- The steps of a write that is interrupted after it has made its file readable. -/
def interrupted : Step → Outcome
  | .chmodTemp => .raised .interrupt true
  | _ => .done

theorem removes_interrupted : Removes interrupted where
  made := by simp [interrupted]
  bound := rfl
  removed := .inl rfl

theorem manifest_round_trip_twoDirectories :
    loadHostRuntime 2 1000 (writeHostRuntime 1000 twoDirectoriesRuntime (fun _ => .done) (diskWith none)).1.disk
    true =
        .ok (some twoDirectoriesRuntime) ∧
      (writeHostRuntime 1000 twoDirectoriesRuntime interrupted (diskWith none)).2 = .raised .interrupt ∧
      (writeHostRuntime 1000 twoDirectoriesRuntime interrupted (diskWith none)).1.temporary = none := by
  have hdone := manifest_round_trip 2 1000 twoDirectoriesSystem twoDirectoriesRuntime (fun _ => .done)
    (diskWith none) (by decide)
    captureHostRuntime_twoDirectories (executablesOn_diskWith none _)
  have hinterrupted := manifest_round_trip 2 1000 twoDirectoriesSystem twoDirectoriesRuntime interrupted
    (diskWith none) (by decide)
    captureHostRuntime_twoDirectories (executablesOn_diskWith none _)
  have hown : OwnDirectory 1000 (diskWith none) := fun huid => absurd huid (by decide)
  have hresult : (writeHostRuntime 1000 twoDirectoriesRuntime interrupted (diskWith none)).2 = .raised .interrupt :=
    rfl
  have htaken : .replace ∉ (writeHostRuntime 1000 twoDirectoriesRuntime interrupted (diskWith none)).1.taken := by
    change .replace ∉ [Step.unlink, .chmodTemp, .writeTemp, .bindTempPath, .mkstemp, .chmodDirectory, .mkdir]
    decide
  refine ⟨hdone.1 hown rfl true, hresult, hinterrupted.2.2 removes_interrupted ?_ ?_ htaken⟩
  · rw [hresult]
    decide
  · rw [hresult]
    decide

/-- The steps of a write that is interrupted when its temporary file is made and its path is not yet recorded. -/
def unrecorded : Step → Outcome
  | .bindTempPath => .raised .interrupt false
  | _ => .done

/-- Root loads no manifest from the directory of another user. A write on a full disk that cannot remove its
temporary file leaves it, and so does one that is interrupted before it knows the path, where the removal would
be done. -/
theorem not_round_trips_or_leaves :
    (¬∀ (limit uid : ℕ) (h : SystemHost) (runtime : HostRuntime) (answers : Step → Outcome) (disk : Disk),
      2 ≤ limit →
      h.captureHostRuntime = .ok runtime → ExecutablesOn disk runtime → RoundTrips limit uid runtime answers disk) ∧
    (¬∀ (uid : ℕ) (h : SystemHost) (runtime : HostRuntime) (answers : Step → Outcome) (disk : Disk),
      h.captureHostRuntime = .ok runtime → ExecutablesOn disk runtime →
        LeavesNoTemporary uid runtime answers disk) ∧
    ¬∀ (uid : ℕ) (h : SystemHost) (runtime : HostRuntime) (answers : Step → Outcome) (disk : Disk),
      h.captureHostRuntime = .ok runtime → ExecutablesOn disk runtime → answers .unlink = .done →
        LeavesNoTemporary uid runtime answers disk := by
  refine ⟨fun hall => ?_, fun hall => ?_, fun hall => ?_⟩
  · have hload := hall 2 0 twoDirectoriesSystem twoDirectoriesRuntime (fun _ => .done)
      (diskWith (some ⟨1000, 0o700, .absent⟩))
      (by decide) captureHostRuntime_twoDirectories (executablesOn_diskWith _ _) rfl true
    have hrefused : loadHostRuntime 2 0
        (writeHostRuntime 0 twoDirectoriesRuntime (fun _ => .done) (diskWith (some ⟨1000, 0o700, .absent⟩))).1.disk
          true =
        .error (.hostRuntimeError "manifest directory must be owned by the current user with mode 0700") := rfl
    rw [hrefused] at hload
    cases hload
  · have hresult : (writeHostRuntime 1000 twoDirectoriesRuntime fullDisk (diskWith none)).2 = .hostRuntimeError :=
      rfl
    have htaken : .replace ∉ (writeHostRuntime 1000 twoDirectoriesRuntime fullDisk (diskWith none)).1.taken := by
      change .replace ∉ [Step.bindTempPath, .mkstemp, .chmodDirectory, .mkdir]
      decide
    have hnone := hall 1000 twoDirectoriesSystem twoDirectoriesRuntime fullDisk
      (diskWith none) captureHostRuntime_twoDirectories
      (executablesOn_diskWith none _) (by rw [hresult]; decide) (by rw [hresult]; decide) htaken
    have hleft : (writeHostRuntime 1000 twoDirectoriesRuntime fullDisk (diskWith none)).1.temporary =
      some ⟨some [], 1000, 0o600⟩ := rfl
    rw [hleft] at hnone
    cases hnone
  · have hresult : (writeHostRuntime 1000 twoDirectoriesRuntime unrecorded (diskWith none)).2 =
      .raised .interrupt := rfl
    have htaken : .replace ∉ (writeHostRuntime 1000 twoDirectoriesRuntime unrecorded (diskWith none)).1.taken := by
      change .replace ∉ [Step.mkstemp, .chmodDirectory, .mkdir]
      decide
    have hnone := hall 1000 twoDirectoriesSystem twoDirectoriesRuntime unrecorded
      (diskWith none) captureHostRuntime_twoDirectories
      (executablesOn_diskWith none _) rfl (by rw [hresult]; decide) (by rw [hresult]; decide) htaken
    have hleft : (writeHostRuntime 1000 twoDirectoriesRuntime unrecorded (diskWith none)).1.temporary =
      some ⟨some [], 1000, 0o600⟩ := rfl
    rw [hleft] at hnone
    cases hnone

end WorkerHarness.RuntimeManifests
