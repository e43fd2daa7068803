import WorkerHarness.DataCopies
import WorkerHarness.EnvCommand
import WorkerHarness.Orchestrator
import WorkerHarness.ShellWords

/-!
# Launch lines

How an agent is started in a pane: a shell line with all of its arguments is written to a script, and a short line
that runs the script is typed into the pane. Whatever the arguments are, the two shells and `env` take them apart
into the program, the arguments and the environment that were meant.
-/

namespace WorkerHarness.LaunchLines

open EnvCommand (Environment Process IsName env operands unsets assigns)
open ShellWords (words Spells)
open DataCopies (shlexQuote shellSafe)
open Orchestrator (Launch LaunchSpec remote writeLaunchFiles)

def rolePaths : List String :=
  ["~/Work", "~/mnt", "~/.omp", "~/.config/local-vault-production", "~/.config/pi/local-vault.token"]

/-- `paths_file_content`. -/
def pathsFileContent (role : FleetRole) (home : String) : String :=
  let home := rstripSlash home
  let expand (path : String) := if path.startsWith "~/" then home ++ String.ofList (path.toList.drop 1) else path
  "\n".intercalate (("# worker-harness " ++ role.text ++ " sandbox paths") :: rolePaths.map expand) ++ "\n"

def orchestratorTools : String := "read,grep,glob,todo,hub,web_search"

/-- The arguments of `launch_command`, with the path of the transcript to resume. -/
structure LaunchArguments where
  machine : Machine
  role : FleetRole
  pathsFile : String
  sessionId : String
  token : String
  baseUrl : String
  promptFile : String
  addDirs : List String
  resumePath : Option String

def LaunchArguments.texts (a : LaunchArguments) : List String :=
  [a.machine.home, a.pathsFile, a.sessionId, a.token, a.baseUrl, a.promptFile, a.resumePath.getD ""] ++ a.addDirs

/-- No text holds a zero byte: neither a path nor an argument or a variable of a process can. -/
structure Representable (a : LaunchArguments) : Prop where
  noNul : ∀ s ∈ a.texts, '\x00' ∉ s.toList

variable (a : LaunchArguments)

/-- The dictionary `env`. -/
def environment : List (String × String) :=
  [("AGENT_SANDBOX_NO_GIT_CREDENTIALS", "1"),
    ("AGENT_SANDBOX_PATHS", a.pathsFile),
    ("AGENT_SANDBOX_SESSION_DIR", a.machine.sessionDir a.sessionId),
    ("WH_ORCHESTRATOR_URL", rstripSlash a.baseUrl),
    ("WH_SESSION_ID", a.sessionId),
    ("WH_SESSION_TOKEN", a.token),
    ("WH_SESSION_ROLE", a.role.text),
    ("LOCAL_VAULT_READONLY", if a.role = .task then "1" else "0")]

def promptFlag (role : FleetRole) : String := if role =
    .orchestrator then "--system-prompt" else "--append-system-prompt"

def argv : List String :=
  [rstripSlash a.machine.home ++ "/.local/bin/omp", promptFlag a.role, a.promptFile] ++
    (if a.role = .orchestrator then ["--tools", orchestratorTools] else []) ++
    a.addDirs.flatMap fun directory => ["--add-dir", directory]

/-- `launch_command`. -/
def launchCommand : String :=
  let assignments := " ".intercalate ((environment a).map fun m => m.1 ++ "=" ++ shlexQuote m.2)
  "exec env -u WH_PI_SESSION_ID -u WH_OPERATOR_TOKEN -u WH_OPERATOR_TOKEN_FILE " ++
    (assignments ++ " " ++ " ".intercalate ((argv a).map shlexQuote))

/-- The content of `launch.sh`. -/
def launchScript : String :=
  let resume := match a.resumePath with
    | some path => if path = "" then "" else " --resume " ++ shlexQuote path
    | none => ""
  launchCommand a ++ resume ++ "\n"

def launchFile : String := a.machine.sessionDir a.sessionId ++ "/launch.sh"

def runLine : String := "exec /bin/sh " ++ shlexQuote (launchFile a)

/-- What a shell becomes that reads the script, where its first line replaces it by `env`. -/
def start (script : String) (inherited : Environment) : Option Process :=
  match words script.toList with
  | some (command :: program :: rest) =>
    if command = "exec".toList ∧ program = "env".toList then env rest inherited else none
  | _ => none

def withheld : List String := ["WH_PI_SESSION_ID", "WH_OPERATOR_TOKEN", "WH_OPERATOR_TOKEN_FILE"]

def arguments : List String :=
  argv a ++ match a.resumePath with
    | some path => if path = "" then [] else ["--resume", path]
    | none => []

/-- The agent as it is meant to be started. -/
def agent (inherited : Environment) : Process where
  argv := (arguments a).map String.toList
  environment name :=
    (((environment a).lookup (String.ofList name)).map String.toList).or
      (if String.ofList name ∈ withheld then none else inherited name)

def Launches : Prop :=
  words (runLine a).toList = some ["exec".toList, "/bin/sh".toList, (launchFile a).toList] ∧
    ∀ inherited, start (launchScript a) inherited = some (agent a inherited)

theorem shellSafe_eq (c : Char) : shellSafe c = ShellWords.safe c := by
  simp [shellSafe, ShellWords.safe]

theorem toList_shlexQuote (s : String) : (shlexQuote s).toList = ShellWords.quote s.toList := by
  have hempty : s.toList = [] ↔ s = "" := String.toList_eq_nil_iff
  have hall : s.toList.all shellSafe = s.toList.all ShellWords.safe := by rw [funext shellSafe_eq]
  unfold shlexQuote ShellWords.quote
  by_cases hs : s = ""
  · rw [if_pos hs, if_pos (hempty.mpr hs)]
    rfl
  · rw [if_neg hs, if_neg (mt hempty.mp hs), hall]
    by_cases hsafe : s.toList.all ShellWords.safe = true
    · rw [if_pos hsafe, if_pos hsafe]
    · rw [if_neg hsafe, if_neg hsafe, String.toList_ofList]
      rfl

/-- The options of `env`, with the two words before them. -/
def options : List String := ["exec", "env"] ++ withheld.flatMap fun name => ["-u", name]

def assignments : List String := (environment a).map fun m => m.1 ++ "=" ++ shlexQuote m.2

def spellings : List String := options ++ assignments a ++ (arguments a).map shlexQuote

theorem intercalate_options :
    " ".intercalate options ++ " " =
    "exec env -u WH_PI_SESSION_ID -u WH_OPERATOR_TOKEN -u WH_OPERATOR_TOKEN_FILE " := by
  simp [options, withheld]

theorem launchCommand_eq :
    launchCommand a = " ".intercalate (options ++ assignments a ++ (argv a).map shlexQuote) := by
  have hoptions : options ≠ [] := by simp [options]
  have hassignments : assignments a ≠ [] := by simp [assignments, environment]
  have hargv : (argv a).map shlexQuote ≠ [] := by simp [argv]
  have happend : options ++ assignments a ≠ [] := List.append_ne_nil_of_left_ne_nil hoptions _
  unfold launchCommand
  calc
    _ = " ".intercalate options ++ " " ++
        (" ".intercalate (assignments a) ++ " " ++ " ".intercalate ((argv a).map shlexQuote)) := by
      rw [intercalate_options]
      rfl
    _ = _ := by
      rw [String.intercalate_append_of_ne_nil happend hargv,
        String.intercalate_append_of_ne_nil hoptions hassignments]
      simp only [String.append_assoc]

theorem launchScript_eq : launchScript a = " ".intercalate (spellings a) ++ "\n" := by
  have hargv : options ++ assignments a ++ (argv a).map shlexQuote ≠ [] := by simp [options]
  have hresume : shlexQuote "--resume" = "--resume" := by decide
  unfold launchScript spellings arguments
  rw [launchCommand_eq]
  split
  · next path _ =>
    split
    · simp only [List.append_nil, String.append_empty]
    · rw [List.map_append, ← List.append_assoc, String.intercalate_append_of_ne_nil hargv (by simp)]
      simp only [List.map_cons, List.map_nil, hresume, String.intercalate_cons_cons, String.intercalate_singleton]
      simp only [String.append_assoc]
      rfl
  · simp only [List.append_nil, String.append_empty]

variable {a}

theorem noNul_append {s t : String} (hs : '\x00' ∉ s.toList) (ht : '\x00' ∉ t.toList) :
    '\x00' ∉ (s ++ t).toList := by
  rw [String.toList_append, List.mem_append]
  exact not_or.mpr ⟨hs, ht⟩

theorem noNul_rstripSlash {s : String} (hs : '\x00' ∉ s.toList) : '\x00' ∉ (rstripSlash s).toList := by
  rw [rstripSlash, String.toList_ofList]
  exact fun hmem => hs ((List.rdropWhile_prefix _ _).subset hmem)

theorem noNul_environment (ha : Representable a) {m : String × String} (hm : m ∈ environment a) :
    '\x00' ∉ m.2.toList := by
  have h := ha.noNul
  simp only [LaunchArguments.texts, List.forall_mem_append, List.forall_mem_cons] at h
  obtain ⟨⟨hhome, hpaths, hsession, htoken, hurl, -⟩, -⟩ := h
  simp only [environment, List.mem_cons, List.not_mem_nil, or_false] at hm
  rcases hm with rfl | rfl | rfl | rfl | rfl | rfl | rfl | rfl
  · decide
  · exact hpaths
  · exact noNul_append (noNul_append (noNul_append (noNul_rstripSlash hhome) (by decide)) (by decide)) hsession
  · exact noNul_rstripSlash hurl
  · exact hsession
  · exact htoken
  · cases a.role <;> decide
  · cases a.role <;> decide

theorem noNul_argv (ha : Representable a) {w : String} (hw : w ∈ argv a) : '\x00' ∉ w.toList := by
  have h := ha.noNul
  simp only [LaunchArguments.texts, List.forall_mem_append, List.forall_mem_cons] at h
  obtain ⟨⟨hhome, -, -, -, -, hprompt, -⟩, hdirs⟩ := h
  rw [argv, List.mem_append, List.mem_append, List.mem_flatMap] at hw
  rcases hw with (hw | hw) | ⟨directory, hdirectory, hw⟩
  · simp only [List.mem_cons, List.not_mem_nil, or_false] at hw
    rcases hw with rfl | rfl | rfl
    · exact noNul_append (noNul_rstripSlash hhome) (by decide)
    · cases a.role <;> decide
    · exact hprompt
  · split at hw
    · revert w
      decide
    · cases hw
  · simp only [List.mem_cons, List.not_mem_nil, or_false] at hw
    rcases hw with rfl | rfl
    · decide
    · exact hdirs _ hdirectory

theorem noNul_arguments (ha : Representable a) {w : String} (hw : w ∈ arguments a) : '\x00' ∉ w.toList := by
  have hresume : '\x00' ∉ (a.resumePath.getD "").toList := ha.noNul _ (by simp [LaunchArguments.texts])
  rw [arguments, List.mem_append] at hw
  rcases hw with hw | hw
  · exact noNul_argv ha hw
  · split at hw
    · next path hpath =>
      rw [hpath] at hresume
      split at hw
      · cases hw
      · simp only [List.mem_cons, List.not_mem_nil, or_false] at hw
        rcases hw with rfl | rfl
        · decide
        · exact hresume
    · cases hw

variable (a)

def names : List String :=
  ["AGENT_SANDBOX_NO_GIT_CREDENTIALS", "AGENT_SANDBOX_PATHS", "AGENT_SANDBOX_SESSION_DIR", "WH_ORCHESTRATOR_URL",
    "WH_SESSION_ID", "WH_SESSION_TOKEN", "WH_SESSION_ROLE", "LOCAL_VAULT_READONLY"]

theorem map_environment : (environment a).map Prod.fst = names := rfl

theorem spells_option {w : String} (hw : w ∈ options) : Spells w.toList w.toList := by
  have hplain : options.all (fun w => ShellWords.plain w.toList) = true := by decide +kernel
  exact ShellWords.spells_of_plain (List.all_eq_true.mp hplain w hw)

theorem spells_name {name : String} (hname : name ∈ names) : Spells (name ++ "=").toList (name ++ "=").toList := by
  have hplain : names.all (fun name => ShellWords.plain (name ++ "=").toList) = true := by decide +kernel
  exact ShellWords.spells_of_plain (List.all_eq_true.mp hplain name hname)

theorem spells_shlexQuote {w : String} (hw : '\x00' ∉ w.toList) : Spells (shlexQuote w).toList w.toList := by
  rw [toList_shlexQuote]
  exact ShellWords.spells_quote hw

/-- What `env` is given. -/
def envWords : List (List Char) :=
  unsets (withheld.map String.toList) ++ (assigns ((environment a).map fun m => (m.1.toList, m.2.toList)) ++
    (arguments a).map String.toList)

theorem words_launchScript (ha : Representable a) :
    words (launchScript a).toList = some ("exec".toList :: "env".toList :: envWords a) := by
  have hpairs : ∀ p ∈ options.map (fun w => (w.toList, w.toList)) ++
      (environment a).map (fun m => ((m.1 ++ "=" ++ shlexQuote m.2).toList, (m.1 ++ "=" ++ m.2).toList)) ++
      (arguments a).map (fun w => ((shlexQuote w).toList, w.toList)), Spells p.1 p.2 := by
    intro p hp
    rw [List.mem_append, List.mem_append, List.mem_map, List.mem_map, List.mem_map] at hp
    rcases hp with (⟨w, hw, rfl⟩ | ⟨m, hm, rfl⟩) | ⟨w, hw, rfl⟩
    · exact spells_option hw
    · have hname : m.1 ∈ names := map_environment a ▸ List.mem_map_of_mem hm
      simpa only [String.toList_append] using (spells_name hname).append
        (spells_shlexQuote (noNul_environment ha hm))
    · exact spells_shlexQuote (noNul_arguments ha hw)
  have hnewline : ∀ w, ShellWords.read (.word w) ['\n'] = some [w] := fun _ => rfl
  have hread := ShellWords.read_spelled hpairs hnewline rfl
  have htext : (launchScript a).toList = [' '].intercalate ((spellings a).map String.toList) ++ ['\n'] := by
    rw [launchScript_eq, String.toList_append, String.toList_intercalate]
    rfl
  rw [words, htext]
  simp only [spellings, assignments, List.map_append, List.map_map] at hread ⊢
  have hassigns : (environment a).map
      (Prod.snd ∘ fun m => ((m.1 ++ "=" ++ shlexQuote m.2).toList, (m.1 ++ "=" ++ m.2).toList)) =
      assigns ((environment a).map fun m => (m.1.toList, m.2.toList)) := by
    rw [assigns, List.map_map]
    refine List.map_congr_left fun m _ => ?_
    simp
  rw [hassigns, List.append_assoc] at hread
  exact hread

theorem lookup_map_toList (values : List (String × String)) (name : List Char) :
    (values.map fun m => (m.1.toList, m.2.toList)).lookup name =
    (values.lookup (String.ofList name)).map String.toList := by
  induction values with
  | nil => rfl
  | cons m values ih =>
    rw [List.map_cons, List.lookup_cons, List.lookup_cons, ih]
    have hname : (name == m.1.toList) = (String.ofList name == m.1) := by
      rw [Bool.eq_iff_iff, beq_iff_eq, beq_iff_eq, ← String.toList_inj, String.toList_ofList]
    rw [hname]
    cases String.ofList name == m.1 <;> rfl

theorem isName_withheld {name : List Char} (hname : name ∈ withheld.map String.toList) : IsName name := by
  have hall : ∀ name ∈ withheld.map String.toList, name ≠ [] ∧ '=' ∉ name := by decide
  exact ⟨(hall name hname).1, (hall name hname).2⟩

theorem isName_assigned {m : List Char × List Char}
    (hm : m ∈ (environment a).map fun m => (m.1.toList, m.2.toList)) : IsName m.1 := by
  have hall : ∀ name ∈ names, name.toList ≠ [] ∧ '=' ∉ name.toList := by decide +kernel
  obtain ⟨m, hmem, rfl⟩ := List.mem_map.mp hm
  have hname : m.1 ∈ names := map_environment a ▸ List.mem_map_of_mem hmem
  exact ⟨(hall m.1 hname).1, (hall m.1 hname).2⟩

theorem environment_agent (inherited : Environment) :
    ((environment a).map fun m => (m.1.toList, m.2.toList)).foldl
      (fun (e : Environment) m => Function.update e m.1 (some m.2))
      ((withheld.map String.toList).foldl (fun (e : Environment) name => Function.update e name none) inherited) =
      (agent a inherited).environment := by
  have hnodup : (((environment a).map fun m => (m.1.toList, m.2.toList)).map Prod.fst).Nodup := by
    have hnames : (names.map String.toList).Nodup := by decide +kernel
    rw [← map_environment a, List.map_map] at hnames
    rw [List.map_map]
    exact hnames
  funext name
  rw [EnvCommand.foldl_assign hnodup, EnvCommand.foldl_unset, lookup_map_toList]
  have hwithheld : name ∈ withheld.map String.toList ↔ String.ofList name ∈ withheld := by
    rw [List.mem_map]
    constructor
    · rintro ⟨w, hw, rfl⟩
      rwa [String.ofList_toList]
    · exact fun hw => ⟨_, hw, String.toList_ofList⟩
  rw [if_congr hwithheld rfl rfl]
  rfl

/-- The program is the command of `env`, unless it looks like an assignment. -/
theorem start_launchScript (ha : Representable a) (inherited : Environment) :
    start (launchScript a) inherited = operands ((arguments a).map String.toList)
    (agent a inherited).environment := by
  rw [start, words_launchScript a ha]
  change (if _ then env (envWords a) inherited else none) = _
  rw [if_pos ⟨rfl, rfl⟩, envWords, EnvCommand.env_unsets fun name hname => isName_withheld hname]
  have hoperand : ∀ e,
      env (assigns ((environment a).map fun m => (m.1.toList, m.2.toList)) ++ (arguments a).map String.toList) e =
        operands (assigns ((environment a).map fun m => (m.1.toList, m.2.toList)) ++
          (arguments a).map String.toList) e :=
    fun e => EnvCommand.env_operand (by decide) _ _
  rw [hoperand, EnvCommand.operands_assigns fun m hm => isName_assigned a hm, environment_agent]

theorem isAssignment_program :
    '=' ∈ (rstripSlash a.machine.home ++ "/.local/bin/omp").toList ↔ '=' ∈ a.machine.home.toList := by
  have hsuffix : '=' ∉ "/.local/bin/omp".toList := by decide
  rw [String.toList_append, List.mem_append, or_iff_left hsuffix, rstripSlash, String.toList_ofList]
  constructor
  · exact fun hmem => (List.rdropWhile_prefix _ _).subset hmem
  · intro hmem
    rw [← List.rdropWhile_append_rtakeWhile (p := fun c => decide (c = '/')) (l := a.machine.home.toList),
      List.mem_append] at hmem
    refine hmem.resolve_right fun hslash => ?_
    have hall := List.mem_rtakeWhile_imp hslash
    exact absurd hall (by decide)

theorem noNul_launchFile (ha : Representable a) : '\x00' ∉ (launchFile a).toList := by
  have h := ha.noNul
  simp only [LaunchArguments.texts, List.forall_mem_append, List.forall_mem_cons] at h
  obtain ⟨⟨hhome, -, hsession, -⟩, -⟩ := h
  exact noNul_append (noNul_append (noNul_append (noNul_append (noNul_rstripSlash hhome) (by decide)) (by decide))
    hsession)
    (by decide)

theorem exec_sh_eq (file : String) :
    "exec /bin/sh " ++ shlexQuote file = " ".intercalate (["exec", "/bin/sh", file].map shlexQuote) := by
  have hexec : shlexQuote "exec" = "exec" := by decide
  have hsh : shlexQuote "/bin/sh" = "/bin/sh" := by decide
  have hwords : "exec" ++ " " ++ ("/bin/sh" ++ " ") = "exec /bin/sh " := by decide
  simp only [List.map_cons, List.map_nil, hexec, hsh, String.intercalate_cons_cons, String.intercalate_singleton]
  rw [← hwords, String.append_assoc]

theorem words_runLine (ha : Representable a) :
    words (runLine a).toList = some ["exec".toList, "/bin/sh".toList, (launchFile a).toList] := by
  have hfile := noNul_launchFile a ha
  unfold runLine
  generalize launchFile a = file at hfile
  have hargs : ∀ w ∈ ["exec".toList, "/bin/sh".toList, file.toList], '\x00' ∉ w := by
    have hfixed : ∀ w ∈ ["exec".toList, "/bin/sh".toList], '\x00' ∉ w := by decide
    intro w hw
    rw [List.mem_cons, List.mem_cons, List.mem_singleton] at hw
    rcases hw with rfl | rfl | rfl
    · exact hfixed _ (List.mem_cons_self ..)
    · exact hfixed _ (List.mem_cons_of_mem _ (List.mem_cons_self ..))
    · exact hfile
  have hread := ShellWords.words_quoted hargs
  rw [exec_sh_eq, String.toList_intercalate]
  simp only [List.map_cons, List.map_nil, toList_shlexQuote] at hread ⊢
  exact hread

def dictatedLaunch : LaunchArguments where
  machine := ⟨"desktop", "/home/o'neil & sons/"⟩
  role := .task
  pathsFile := "/home/o'neil & sons/.cache/worker-harness/s1/sandbox-paths"
  sessionId := "s1"
  token := "$(id)"
  baseUrl := "http://localhost:8000/"
  promptFile := "-u"
  addDirs := ["", "A=B", "two\nlines"]
  resumePath := some "~/session; exit.jsonl"

/-- The service with the sandbox of this module. -/
def composed (cfg : FleetConfig) (baseUrl : String) : FleetConfig :=
  { cfg with
    pathsFileContent := pathsFileContent
    launchCommand := fun role machine pathsFile sessionId token promptFile addDirs =>
      launchCommand ⟨machine, role, pathsFile, sessionId, token, baseUrl, promptFile, addDirs, none⟩ }

/-- What `_launch` passes on. -/
def launchArguments (l : Launch) (spec : LaunchSpec) (session : PiSession) (token baseUrl : String) :
    LaunchArguments :=
  ⟨l.machine, l.role, session.metaText "paths_file", session.id, token, baseUrl, session.metaText "prompt_file",
    spec.addDirs, l.resumePath⟩

/-- A launch writes the script. -/
theorem writeLaunchFiles_composed (cfg : FleetConfig) (baseUrl : String) (l : Launch) (spec : LaunchSpec)
    (session : PiSession) (token prompt : String) :
    writeLaunchFiles (composed cfg baseUrl) l spec session token prompt = (do
      remote session.id l.machine
        (.writeFile (session.metaText "paths_file") (pathsFileContent l.role l.machine.home))
      remote session.id l.machine (.writeFile (session.metaText "prompt_file") prompt)
      remote session.id l.machine (.writeFile (session.metaText "cache_dir" ++ "/launch.sh")
        (launchScript (launchArguments l spec session token baseUrl)))) := by
  unfold writeLaunchFiles launchScript
  cases hpath : l.resumePath with
  | none =>
    simp only [launchArguments, hpath]
    rfl
  | some path =>
    by_cases hempty : path = ""
    · simp only [launchArguments, hpath, hempty, if_true]
      rfl
    · simp only [launchArguments, hpath, hempty, if_false]
      rfl

end WorkerHarness.LaunchLines
