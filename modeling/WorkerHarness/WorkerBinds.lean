import WorkerHarness.DelimitedLists
import WorkerHarness.JsonWriting
import WorkerHarness.SortedLists
import Mathlib.Data.List.Lex

/-!
# The binds of a worker container

`start-wh.sh` collects the directories of its host that the container gets to see, and writes a manifest
of the places where they appear.
-/

namespace WorkerHarness.WorkerBinds

open CodePoints DelimitedLists PosixPaths JsonTexts JsonWriting SortedLists

def semicolon : CodePoint := codePoint ';'

def colon : CodePoint := codePoint ':'

def lineFeed : CodePoint := codePoint '\n'

/-- What the launcher reads of its environment, the mounts that `findmnt` lists, and what it finds at paths. -/
structure Host where
  home : Str
  codeRoot : Str := []
  ibexUserRoot : Str := []
  ibexProjects : Str := str "c2324"
  ibexProjectRoot : Str := str "/ibex/project"
  extraBinds : Str := []
  mounts : List Str := []
  pathExists : Str → Bool
  isDir : Str → Bool
  readlink : Str → Str

/-- The three lists that the launcher keeps. -/
structure Binds where
  effectiveBinds : Str := []
  managedBindSources : Str := []
  managedBindRoots : Str := []

/-- `$(printf '%s\n' "$text")` -/
def commandSubstitution (text : Str) : Str := text.rdropWhile (· = lineFeed)

/-- `IFS=';' read -ra` of a text: of its first line. -/
def readList (text : Str) : List Str := readFields semicolon (text.takeWhile (· ≠ lineFeed))

namespace Binds

def appendEffectiveBind (pair : Str) (b : Binds) : Binds :=
  { b with effectiveBinds := add semicolon b.effectiveBinds pair }

def appendManagedSource (item : Str) (b : Binds) : Binds :=
  { b with managedBindSources := commandSubstitution (add semicolon b.managedBindSources item) }

def appendManagedRoot (item : Str) (b : Binds) : Binds :=
  { b with managedBindRoots := commandSubstitution (add semicolon b.managedBindRoots item) }

def isManagedSource (source : Str) (b : Binds) : Bool :=
  Mentions semicolon b.managedBindSources source ||
    (readList b.managedBindRoots).any fun root => source = root || (root ++ [slash]).isPrefixOf source

end Binds

/-- The four spellings of the home directory. -/
def expandHome (home source : Str) : Str :=
  if source = str "~" then home
  else if (str "~/").isPrefixOf source then home ++ slash :: source.drop 2
  else if source = str "$HOME" then home
  else if (str "$HOME/").isPrefixOf source then home ++ slash :: source.drop 6
  else source

/-- Slashes at the end go, but a last one that is all. -/
def trimSlashes (source : Str) : Str :=
  if source.all (· = slash) then source.take 1 else source.rdropWhile (· = slash)

def normalizeHostSource (host : Host) (source : Str) : Str :=
  let source := trimSlashes (expandHome host.home source)
  commandSubstitution (if host.pathExists source then commandSubstitution (host.readlink source) else source)

/-- `basename path` -/
def basename (path : Str) : Str := (((path.splitOn slash).filter (· ≠ [])).getLast?).getD [slash]

def mnt : Str := str "/mnt"

namespace Host

variable (host : Host)

def ibexRoot : Str := if host.isDir host.ibexUserRoot then host.ibexUserRoot else []

def chosenCodeRoot : Str :=
  normalizeHostSource host
    (if host.codeRoot ≠ [] then host.codeRoot
    else if host.isDir (host.home ++ str "/Work") then host.home ++ str "/Work"
    else if host.isDir (host.home ++ str "/Dev") then host.home ++ str "/Dev"
    else host.ibexRoot)

def addCode (b : Binds) : Binds :=
  if host.isDir host.chosenCodeRoot then
    ((b.appendManagedSource host.home).appendManagedRoot host.chosenCodeRoot).appendEffectiveBind
      (host.chosenCodeRoot ++ str ":/code")
  else b

/-- Mounted right below `/mnt`. -/
def belowMnt (mount : Str) : Bool := (mnt ++ [slash]).isPrefixOf mount && !(mount.drop 5).contains slash

def addMounts (b : Binds) : Binds :=
  if mnt ∈ host.mounts then (b.appendEffectiveBind (mnt ++ str ":/data/local")).appendManagedRoot mnt
  else (host.mounts.filter belowMnt).foldl (fun b mount =>
    (b.appendEffectiveBind (mount ++ str ":/data/local/" ++ basename mount)).appendManagedRoot mount) b

def addIbex (b : Binds) : Binds :=
  if host.ibexRoot ≠ [] then
    (b.appendEffectiveBind (normalizeHostSource host host.ibexRoot ++ str ":/data/shared/ibex")).appendManagedRoot
      (normalizeHostSource host host.ibexRoot)
  else b

def projectDir (project : Str) : Str := host.ibexProjectRoot ++ slash :: project

def projects : List Str := (readList host.ibexProjects).filter fun project =>
    project ≠ [] && host.isDir (host.projectDir project)

def addProjects (b : Binds) : Binds :=
  host.projects.foldl (fun b project =>
    (b.appendEffectiveBind (host.projectDir project ++ str ":/data/shared/ibex_" ++ project)).appendManagedRoot
      (host.projectDir project)) b

/-- `${pair%%:*}` -/
def sourceOf (pair : Str) : Str := pair.takeWhile (· ≠ colon)

def addExtra (b : Binds) (pair : Str) : Binds :=
  if b.isManagedSource (normalizeHostSource host (sourceOf pair)) then b else b.appendEffectiveBind pair

def addExtras (b : Binds) : Binds := ((readList host.extraBinds).filter (· ≠ [])).foldl host.addExtra b

def binds : Binds := host.addExtras (host.addProjects (host.addIbex (host.addMounts (host.addCode {}))))

/-- The arguments of `--bind` besides those of the container itself. -/
def bindArgs : List Str := readList host.binds.effectiveBinds

end Host

structure Plain (text : Str) : Prop where
  ne_nil : text ≠ []
  noSemicolon : semicolon ∉ text
  noLineFeed : lineFeed ∉ text

namespace Host

variable (host : Host)

/-- The directories that every container of this host gets, and where it sees them. -/
def layout : List (Str × Str) :=
  (if host.isDir host.chosenCodeRoot then [(host.chosenCodeRoot, str "/code")] else []) ++
    (if mnt ∈ host.mounts then [(mnt, str "/data/local")]
      else (host.mounts.filter belowMnt).map fun mount => (mount, str "/data/local/" ++ basename mount)) ++
    (if host.ibexRoot ≠ [] then [(normalizeHostSource host host.ibexRoot, str "/data/shared/ibex")] else []) ++
    host.projects.map fun project => (host.projectDir project, str "/data/shared/ibex_" ++ project)

def refused : Str := if host.isDir host.chosenCodeRoot then host.home else []

/-- A source that the container sees already. -/
def Managed (source : Str) : Prop :=
  source = host.refused ∨ ∃ root ∈ host.layout.map Prod.fst, source = root ∨ root ++ [slash] <+: source

instance (source : Str) : Decidable (host.Managed source) := inferInstanceAs (Decidable (_ ∨ _))

/-- The binds that the operator adds. -/
def extras : List Str :=
  ((readList host.extraBinds).filter (· ≠ [])).filter fun pair =>
    ¬host.Managed (normalizeHostSource host (sourceOf pair))

def wanted : List Str := (host.layout.map fun bind => bind.1 ++ colon :: bind.2) ++ host.extras

end Host

/-- The texts of a host that stand in its lists have no separator and no line break. -/
structure PlainHost (host : Host) : Prop where
  home : Plain host.home
  sources : ∀ bind ∈ host.layout, Plain bind.1

theorem readList_eq {text : Str} (hline : lineFeed ∉ text) (hne : ∀ item ∈ items semicolon text, item ≠ []) :
    readList text = items semicolon text := by
  have htext : text.takeWhile (· ≠ lineFeed) = text := by
    apply List.takeWhile_eq_self_iff.mpr
    intro c hc
    simpa using fun heq : c = lineFeed => hline (heq ▸ hc)
  rw [readList, htext, readFields_of_forall hne]

/-- What the three texts hold. -/
structure Lists (b : Binds) (pairs roots : List Str) (source : Str) : Prop where
  pairs : items semicolon b.effectiveBinds = pairs.eraseDups
  roots : items semicolon b.managedBindRoots = roots.eraseDups
  source : b.managedBindSources = source
  pairsLine : lineFeed ∉ b.effectiveBinds
  rootsLine : lineFeed ∉ b.managedBindRoots

variable {host : Host} {b : Binds} {text item source : Str} {pairs roots : List Str} {bind : Str × Str}

theorem commandSubstitution_of_notMem (h : lineFeed ∉ text) : commandSubstitution text = text := by
  apply List.rdropWhile_eq_self_iff.mpr
  intro hne hlast
  have heq : text.getLast hne = lineFeed := by simpa using hlast
  exact h (heq ▸ List.getLast_mem hne)

theorem lineFeed_notMem_add (htext : lineFeed ∉ text) (hitem : lineFeed ∉ item) :
    lineFeed ∉ add semicolon text item := by
  intro h
  rcases mem_add h with h | h | h
  · exact htext h
  · exact hitem h
  · simp [lineFeed, semicolon] at h

namespace Lists

theorem appendEffectiveBind (h : Lists b pairs roots source) (hitem : Plain item) :
    Lists (b.appendEffectiveBind item) (pairs ++ [item]) roots source where
  pairs := items_add_eraseDups hitem.ne_nil hitem.noSemicolon h.pairs
  roots := h.roots
  source := h.source
  pairsLine := lineFeed_notMem_add h.pairsLine hitem.noLineFeed
  rootsLine := h.rootsLine

theorem appendManagedRoot (h : Lists b pairs roots source) (hitem : Plain item) :
    Lists (b.appendManagedRoot item) pairs (roots ++ [item]) source := by
  have hline := lineFeed_notMem_add h.rootsLine hitem.noLineFeed
  have htext : (b.appendManagedRoot item).managedBindRoots = add semicolon b.managedBindRoots item :=
    commandSubstitution_of_notMem hline
  constructor
  · exact h.pairs
  · rw [htext]
    exact items_add_eraseDups hitem.ne_nil hitem.noSemicolon h.roots
  · exact h.source
  · exact h.pairsLine
  · rwa [htext]

end Lists

/-- A directory of the layout is bound and managed. -/
def Binds.bindManaged (b : Binds) (bind : Str × Str) : Binds :=
  (b.appendEffectiveBind (bind.1 ++ colon :: bind.2)).appendManagedRoot bind.1

theorem Plain.pair (hsource : Plain bind.1) (hdestination : Plain bind.2) : Plain (bind.1 ++ colon :: bind.2) := by
  constructor
  · simp
  · have hcolon : semicolon ≠ colon := by decide
    simp [hsource.noSemicolon, hdestination.noSemicolon, hcolon]
  · have hcolon : lineFeed ≠ colon := by decide
    simp [hsource.noLineFeed, hdestination.noLineFeed, hcolon]

theorem Lists.foldl_bindManaged {binds : List (Str × Str)} (h : Lists b pairs roots source)
    (hplain : ∀ bind ∈ binds, Plain bind.1 ∧ Plain bind.2) :
    Lists (binds.foldl Binds.bindManaged b) (pairs ++ binds.map fun bind => bind.1 ++ colon :: bind.2)
      (roots ++ binds.map Prod.fst) source := by
  induction binds generalizing b pairs roots with
  | nil => simpa using h
  | cons bind binds ih =>
    obtain ⟨hsource, hdestination⟩ := hplain bind List.mem_cons_self
    have hstep := (h.appendEffectiveBind (hsource.pair hdestination)).appendManagedRoot hsource
    have hrest := ih hstep fun bind' hbind => hplain bind' (List.mem_cons_of_mem _ hbind)
    simpa [Binds.bindManaged] using hrest

theorem plain_of_mem_readList (h : item ∈ readList text) (hne : item ≠ []) : Plain item := by
  constructor
  · exact hne
  · exact notMem_of_mem_readFields h
  · intro hline
    have hmem := List.mem_takeWhile_imp (mem_of_mem_readFields h hline)
    simp at hmem

theorem notMem_basename {c : CodePoint} (htext : c ∉ text) (hslash : c ≠ slash) : c ∉ basename text := by
  intro h
  unfold basename at h
  cases hlast : ((text.splitOn slash).filter (· ≠ [])).getLast? with
  | none =>
    rw [hlast] at h
    exact hslash (List.mem_singleton.mp h)
  | some last =>
    rw [hlast] at h
    have hmem := (List.mem_filter.mp (List.mem_of_getLast? hlast)).1
    exact htext (mem_of_mem_splitOn hmem h)

/-- A fixed beginning and a text without the two marks. -/
theorem Plain.prepend {front : Str} (hfront : Plain front) (hsemicolon : semicolon ∉ item)
    (hline : lineFeed ∉ item) :
    Plain (front ++ item) := by
  constructor
  · exact List.append_ne_nil_of_left_ne_nil hfront.ne_nil _
  · simp [hfront.noSemicolon, hsemicolon]
  · simp [hfront.noLineFeed, hline]

theorem plain_code : Plain (str "/code") := by constructor <;> decide

theorem plain_local : Plain (str "/data/local") := by constructor <;> decide

theorem plain_ibex : Plain (str "/data/shared/ibex") := by constructor <;> decide

theorem plain_destination (h : PlainHost host) (hbind : bind ∈ host.layout) : Plain bind.2 := by
  have hsource := h.sources bind hbind
  simp only [Host.layout, List.mem_append, or_assoc] at hbind
  rcases hbind with hbind | hbind | hbind | hbind
  · split at hbind
    · rw [List.mem_singleton.mp hbind]
      exact plain_code
    · cases hbind
  · split at hbind
    · rw [List.mem_singleton.mp hbind]
      exact plain_local
    · obtain ⟨mount, -, rfl⟩ := List.mem_map.mp hbind
      have hfront : Plain (str "/data/local/") := by constructor <;> decide
      exact hfront.prepend (notMem_basename hsource.noSemicolon (by decide))
        (notMem_basename hsource.noLineFeed (by decide))
  · split at hbind
    · rw [List.mem_singleton.mp hbind]
      exact plain_ibex
    · cases hbind
  · obtain ⟨project, hproject, rfl⟩ := List.mem_map.mp hbind
    obtain ⟨hmem, hkept⟩ := List.mem_filter.mp hproject
    have hne : project ≠ [] := fun hnil => by simp [hnil] at hkept
    have hplain := plain_of_mem_readList hmem hne
    have hfront : Plain (str "/data/shared/ibex_") := by constructor <;> decide
    exact hfront.prepend hplain.noSemicolon hplain.noLineFeed

/-- The lists after the layout: one directory after another. -/
theorem layout_binds (h : Plain host.home) : host.addProjects (host.addIbex (host.addMounts (host.addCode {}))) =
    host.layout.foldl Binds.bindManaged { managedBindSources := host.refused } := by
  have hcode : host.addCode {} =
      (if host.isDir host.chosenCodeRoot then [(host.chosenCodeRoot, str "/code")] else []).foldl Binds.bindManaged
        { managedBindSources := host.refused } := by
    unfold Host.addCode Host.refused
    split
    · have hhome : commandSubstitution (add semicolon [] host.home) = host.home :=
        commandSubstitution_of_notMem h.noLineFeed
      simp [Binds.bindManaged, Binds.appendManagedSource, Binds.appendManagedRoot, Binds.appendEffectiveBind, hhome,
        colon, str]
    · rfl
  have hmounts : ∀ b, host.addMounts b =
      (if mnt ∈ host.mounts then [(mnt, str "/data/local")]
        else (host.mounts.filter Host.belowMnt).map fun mount =>
          (mount, str "/data/local/" ++ basename mount)).foldl
          Binds.bindManaged b := by
    intro b
    unfold Host.addMounts
    split
    · rfl
    · rw [List.foldl_map]
      simp [Binds.bindManaged, colon, str]
  have hibex : ∀ b, host.addIbex b =
      (if host.ibexRoot ≠ [] then [(normalizeHostSource host host.ibexRoot, str "/data/shared/ibex")] else []).foldl
        Binds.bindManaged b := by
    intro b
    unfold Host.addIbex
    split
    · rfl
    · rfl
  have hprojects : ∀ b, host.addProjects b =
      (host.projects.map fun project => (host.projectDir project, str "/data/shared/ibex_" ++ project)).foldl
        Binds.bindManaged b := by
    intro b
    rw [List.foldl_map]
    simp [Host.addProjects, Binds.bindManaged, colon, str]
  rw [hcode, hmounts, hibex, hprojects, Host.layout, List.foldl_append, List.foldl_append, List.foldl_append]

theorem lists_layout (h : PlainHost host) :
    Lists (host.addProjects (host.addIbex (host.addMounts (host.addCode {}))))
      (host.layout.map fun bind => bind.1 ++ colon :: bind.2) (host.layout.map Prod.fst) host.refused := by
  have hstart : Lists { managedBindSources := host.refused } [] [] host.refused := by
    constructor <;> simp [items]
  rw [layout_binds h.home]
  have hlists := hstart.foldl_bindManaged fun bind hbind => ⟨h.sources bind hbind, plain_destination h hbind⟩
  simpa using hlists

/-- The loop over the roots finds what the layout manages. -/
theorem isManagedSource_iff (hlists : Lists b pairs (host.layout.map Prod.fst) host.refused) (h : PlainHost host) :
    b.isManagedSource source = true ↔ host.Managed source := by
  have hrefused : semicolon ∉ host.refused := by
    unfold Host.refused
    split
    · exact h.home.noSemicolon
    · simp
  have hroots : readList b.managedBindRoots = (host.layout.map Prod.fst).eraseDups := by
    rw [readList_eq hlists.rootsLine, hlists.roots]
    intro item hitem
    rw [hlists.roots, List.mem_eraseDups] at hitem
    obtain ⟨bind, hbind, rfl⟩ := List.mem_map.mp hitem
    exact (h.sources bind hbind).ne_nil
  -- The list has one item, so that a source which is found in it is all of it.
  have hsource : Mentions semicolon host.refused source ↔ source = host.refused := by
    rw [mentions_iff, List.splitOn_eq_singleton hrefused]
    constructor
    · intro hinfix
      have hlength := hinfix.length_le
      have hne := List.splitOn_ne_nil semicolon source
      have hone : source.splitOn semicolon = [host.refused] := by
        apply hinfix.eq_of_length_le
        exact List.length_pos_of_ne_nil hne
      calc source = [semicolon].intercalate (source.splitOn semicolon) := (List.intercalate_splitOn semicolon).symm
        _ = host.refused := by rw [hone, List.intercalate_singleton]
    · intro heq
      rw [heq, List.splitOn_eq_singleton hrefused]
  rw [Binds.isManagedSource, hlists.source, hroots]
  simp only [Bool.or_eq_true, decide_eq_true_eq, hsource, List.any_eq_true, List.mem_eraseDups,
    List.isPrefixOf_iff_prefix,
    Host.Managed]

/-- No extra bind changes what is managed, so that each one is checked against the layout alone. -/
theorem lists_foldl_addExtra {added : List Str} (hlists : Lists b pairs (host.layout.map Prod.fst) host.refused)
    (h : PlainHost host) (hadded : ∀ pair ∈ added, Plain pair) :
    Lists (added.foldl host.addExtra b)
      (pairs ++ added.filter fun pair => ¬host.Managed (normalizeHostSource host (Host.sourceOf pair)))
      (host.layout.map Prod.fst) host.refused := by
  induction added generalizing b pairs with
  | nil => simpa using hlists
  | cons pair added ih =>
    have hrest := fun pair' hpair => hadded pair' (List.mem_cons_of_mem pair hpair)
    rw [List.foldl_cons, Host.addExtra]
    by_cases hmanaged : host.Managed (normalizeHostSource host (Host.sourceOf pair))
    · rw [if_pos ((isManagedSource_iff hlists h).mpr hmanaged), List.filter_cons_of_neg (by simpa using hmanaged)]
      exact ih hlists hrest
    · rw [if_neg fun hm => hmanaged ((isManagedSource_iff hlists h).mp hm),
        List.filter_cons_of_pos (by simpa using hmanaged)]
      have hstep := hlists.appendEffectiveBind (hadded pair List.mem_cons_self)
      simpa using ih hstep hrest

theorem lists_binds (h : PlainHost host) : Lists host.binds host.wanted
    (host.layout.map Prod.fst) host.refused := by
  apply lists_foldl_addExtra (lists_layout h) h
  intro pair hpair
  obtain ⟨hmem, hne⟩ := List.mem_filter.mp hpair
  exact plain_of_mem_readList hmem (by simpa using hne)

theorem plain_of_mem_wanted (h : PlainHost host) (hitem : item ∈ host.wanted) : Plain item := by
  rcases List.mem_append.mp hitem with hmem | hmem
  · obtain ⟨bind, hbind, rfl⟩ := List.mem_map.mp hmem
    exact (h.sources bind hbind).pair (plain_destination h hbind)
  · obtain ⟨hmem, hne⟩ := List.mem_filter.mp (List.mem_filter.mp hmem).1
    exact plain_of_mem_readList hmem (by simpa using hne)

/-- The container is started with the layout and the binds of the operator that are outside of it, each once. -/
theorem bindArgs_eq (h : PlainHost host) : host.bindArgs = host.wanted.eraseDups := by
  have hlists := lists_binds h
  rw [Host.bindArgs, readList_eq hlists.pairsLine, hlists.pairs]
  intro item hitem
  rw [hlists.pairs, List.mem_eraseDups] at hitem
  exact (plain_of_mem_wanted h hitem).ne_nil

/-- The place that the manifest names for a bind. -/
def destination (pair : Str) : Option Str :=
  ((pair.splitOn colon)[1]?).bind fun destination =>
    if isAbsolute destination && destination ≠ [slash] && !(destination.splitOn slash).contains (str "..") then
      some (destination.rdropWhile (· = slash))
    else none

/-- `sorted(set(paths))` -/
def sortedSet (paths : List Str) : List Str := sortOn id paths.eraseDups

def manifestPaths (raw : Str) : List Str :=
  sortedSet (((raw.splitOn semicolon).filter (· ≠ [])).filterMap destination)

/-- `json.dump({"paths": paths}, handle, separators=(",", ":"))` and the line break after it. -/
def manifestText (raw : Str) : Str :=
  str "\x7b\"paths\":[" ++ [codePoint ','].intercalate ((manifestPaths raw).map stringText) ++ str "]\x7d\n"

theorem manifestText_eq (raw : Str) :
    manifestText raw = compactStrings (str "paths") (manifestPaths raw) ++ [codePoint '\n'] := by
  have hopening : str "\x7b\"paths\":[" = codePoint '{' :: stringText (str "paths") ++
    [codePoint ':', codePoint '['] := by decide
  have hclosing : str "]\x7d\n" = [codePoint ']', codePoint '}', codePoint '\n'] := rfl
  rw [manifestText, hopening, hclosing, compactStrings]
  simp

/-- The paths that the launcher wrote are read. -/
theorem loads_manifestText {raw : Str} {limit : ℕ} (h : ∀ path ∈ manifestPaths raw, NoHighSurrogate path)
    (hlimit : 2 ≤ limit) : loads limit (manifestText raw) =
    .ok (.object [(str "paths", .array ((manifestPaths raw).map .string))]) := by
  have hall : (str "paths").all (fun c => !isHighSurrogate c.val) = true := by decide
  have hkey : NoHighSurrogate (str "paths") := fun c hc => by simpa using List.all_eq_true.mp hall c hc
  rw [manifestText_eq]
  apply loads_of_denotes (denotes_compactStrings hkey h) hlimit
  · exact fun h => absurd (Option.some.inj h) (by simp)
  · exact List.cons_ne_nil _ _

/-- The container sees the bind at `path`. -/
def Leads (bind path : Str) : Prop :=
  ∃ source place options, bind = source ++ colon :: (place ++ options) ∧ colon ∉ source ∧ colon ∉ place ∧
    (options = [] ∨ ∃ rest, options = colon :: rest) ∧ isAbsolute place = true ∧ place ≠ [slash] ∧
    str ".." ∉ place.splitOn slash ∧ path = place.rdropWhile (· = slash)

/-- The second field of a bind is between its first two colons. -/
theorem field_iff {place : Str} : (text.splitOn colon)[1]? = some place ↔ ∃ source options,
    text = source ++ colon :: (place ++ options) ∧ colon ∉ source ∧ colon ∉ place ∧
      (options = [] ∨ ∃ rest, options = colon :: rest) := by
  constructor
  · intro h
    obtain ⟨source, fields, hfields⟩ := List.exists_cons_of_ne_nil (List.splitOn_ne_nil colon text)
    rw [hfields, List.getElem?_cons_succ] at h
    obtain ⟨rest, rfl⟩ : ∃ rest, fields = place :: rest := by
      cases fields with
      | nil => cases h
      | cons field rest =>
        obtain rfl := Option.some.inj h
        exact ⟨rest, rfl⟩
    have hsource : colon ∉ source := notMem_of_mem_splitOn (l := text) (by rw [hfields]; exact List.mem_cons_self)
    have hplace : colon ∉ place := notMem_of_mem_splitOn (l := text) (by rw [hfields]; simp)
    have htext : [colon].intercalate (text.splitOn colon) = text := List.intercalate_splitOn colon
    rw [hfields, List.intercalate_cons_cons] at htext
    cases rest with
    | nil =>
      refine ⟨source, [], ?_, hsource, hplace, .inl rfl⟩
      rw [← htext]
      simp
    | cons field rest =>
      refine ⟨source, colon :: [colon].intercalate (field :: rest), ?_, hsource, hplace, .inr ⟨_, rfl⟩⟩
      rw [← htext, List.intercalate_cons_cons]
      simp
  · rintro ⟨source, options, rfl, hsource, hplace, hoptions⟩
    rw [List.splitOn_append_cons_self, List.splitOn_eq_singleton hsource]
    rcases hoptions with rfl | ⟨rest, rfl⟩
    · rw [List.append_nil, List.splitOn_eq_singleton hplace]
      rfl
    · rw [List.splitOn_append_cons_self, List.splitOn_eq_singleton hplace]
      rfl

theorem leads_iff {path : Str} : Leads text path ↔ destination text = some path := by
  unfold Leads destination
  rw [Option.bind_eq_some_iff]
  constructor
  · rintro ⟨source, place, options, htext, hsource, hplace, hoptions, habsolute, hroot, hup, rfl⟩
    refine ⟨place, field_iff.mpr ⟨source, options, htext, hsource, hplace, hoptions⟩, if_pos ?_⟩
    simp [habsolute, hroot, hup]
  · rintro ⟨place, hfield, hplace⟩
    obtain ⟨source, options, htext, hsource, hcolon, hoptions⟩ := field_iff.mp hfield
    split at hplace
    · next hcheck =>
      simp only [Bool.and_eq_true, decide_eq_true_eq, Bool.not_eq_true', List.contains_eq_mem,
        decide_eq_false_iff_not] at hcheck
      exact ⟨source, place, options, htext, hsource, hcolon, hoptions, hcheck.1.1, hcheck.1.2, hcheck.2,
        (Option.some.inj hplace).symm⟩
    · cases hplace

theorem sortedSet_pairwise (paths : List Str) : (sortedSet paths).Pairwise (· < ·) := by
  have hnodup : (paths.eraseDups.map id).Nodup := by
    rw [List.map_id]
    exact nodup_eraseDups paths
  exact sortOn_pairwise_lt hnodup

theorem mem_sortedSet {paths : List Str} {path : Str} : path ∈ sortedSet paths ↔ path ∈ paths := by
  rw [sortedSet, mem_sortOn, List.mem_eraseDups]

/-- The manifest names the places of the binds that the container was started with. -/
theorem mem_manifestPaths (h : PlainHost host) {path : Str} :
    path ∈ manifestPaths host.binds.effectiveBinds ↔ ∃ bind ∈ host.bindArgs, Leads bind path := by
  have hfields : (host.binds.effectiveBinds.splitOn semicolon).filter (· ≠ []) = host.bindArgs := by
    have hlists := lists_binds h
    have hne : ∀ item ∈ host.wanted.eraseDups, decide (item ≠ []) = true := by
      intro item hitem
      simpa using (plain_of_mem_wanted h (List.mem_eraseDups.mp hitem)).ne_nil
    rw [bindArgs_eq h, ← hlists.pairs, items]
    split
    · next hnil =>
      rw [hnil]
      simp
    · next hnil =>
      rw [← items_of_ne_nil hnil, hlists.pairs]
      exact List.filter_eq_self.mpr hne
  rw [manifestPaths, mem_sortedSet, hfields, List.mem_filterMap]
  simp only [leads_iff]

end WorkerHarness.WorkerBinds
