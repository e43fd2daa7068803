import WorkerHarness.WorkerBinds

/-!
# Discovery of shared data

A worker advertises the directories right below the places that the manifest of its launcher names. These
are the directories, and no links, that its container holds right below its binds.
-/

namespace WorkerHarness.DataDiscovery

open CodePoints PosixPaths JsonTexts JsonWriting WorkerBinds

/-- What `is_symlink` and `is_dir` find of an entry; they fail where it may not be looked at. -/
inductive EntryKind
  | directory
  | link
  | other
  | denied
deriving DecidableEq

inductive DaemonError
  | typeError
  | valueError
  | recursionError
deriving DecidableEq

/-- What the daemon can read: the manifest, and directories with their entries in the order of `iterdir`. -/
structure Container where
  manifest : Option Str
  iterdir : Str → Option (List (Str × EntryKind))

/-- A text that can name a file: its surrogates stand for bytes. -/
def FileText (text : Str) : Prop :=
  ∀ c ∈ text, c.val ≠ 0 ∧ (0xd800 ≤ c.val → c.val ≤ 0xdfff → 0xdc80 ≤ c.val ∧ c.val ≤ 0xdcff)

instance (text : Str) : Decidable (FileText text) := inferInstanceAs (Decidable (∀ c ∈ text, _))

/-- `str(Path(value))` of an absolute or an empty path. -/
def pathText (value : Str) : Str :=
  if value = [] then str "."
  else initialSlashes value ++ [slash].intercalate ((value.splitOn slash).filter fun c => c ≠ [] ∧ c ≠ str ".")

/-- `str(child)` -/
def childText (value name : Str) : Str := if value = [] then name else join (pathText value) name

def inspected (entries : List (Str × EntryKind)) : List (Str × EntryKind) :=
  entries.takeWhile fun entry => entry.2 ≠ .denied

/-- The directories below a root. A directory that cannot be read has none. -/
def below (container : Container) (value : Str) : List Str :=
  ((inspected ((container.iterdir (pathText value)).getD [])).filter fun entry => entry.2 =
    .directory).map fun entry =>
    childText value entry.1

def shareable (container : Container) (value : Str) : Except DaemonError (List Str) :=
  if FileText value then .ok (below container value) else .error .valueError

def isRoot (value : Str) : Bool := isAbsolute value && value ≠ [slash] && !(value.splitOn slash).contains (str "..")

def collect (container : Container) : List Json → Except DaemonError (List Str)
  | [] => .ok []
  | .string value :: values =>
    if isRoot value then do
      let children ← shareable container (value.rdropWhile (· = slash))
      let later ← collect container values
      .ok (children ++ later)
    else collect container values
  | _ :: values => collect container values

/-- `for value in roots` -/
def iterate : Json → Except DaemonError (List Json)
  | .array items => .ok items
  | .string s => .ok (s.map fun c => .string [c])
  | .object members => .ok (members.map fun member => .string member.1)
  | _ => .error .typeError

def roots : Json → Except DaemonError (List Json)
  | .object members =>
    match getMember (str "paths") members with
    | none => .ok []
    | some value => iterate value
  | _ => .ok []

def getDataPaths (limit : ℕ) (container : Container) : Except DaemonError (List Str) :=
  match container.manifest with
  | none => .ok []
  | some text =>
    match loads limit text with
    | .error .tooDeep => .error .recursionError
    | .error _ => .ok []
    | .ok payload => do
      let values ← roots payload
      let paths ← collect container values
      .ok (sortedSet paths)

variable {host : Host} {container : Container} {place path : Str}

theorem isRoot_rdropWhile (habsolute : isAbsolute place = true) (hup : str ".." ∉ place.splitOn slash)
    (hne : place.rdropWhile (· = slash) ≠ []) : isRoot (place.rdropWhile (· = slash)) = true := by
  have htrimmed : (place.rdropWhile (· = slash)).rdropWhile (· = slash) = place.rdropWhile (· = slash) :=
    List.rdropWhile_idempotent _ _
  have hfirst : isAbsolute (place.rdropWhile (· = slash)) = true := by
    obtain ⟨rest, hrest⟩ := List.isPrefixOf_iff_prefix.mp habsolute
    obtain ⟨c, after, hcons⟩ := List.exists_cons_of_ne_nil hne
    have hprefix := List.rdropWhile_prefix (p := (· = slash)) place
    rw [hcons, ← hrest, List.singleton_append, List.cons_prefix_cons] at hprefix
    rw [hcons, hprefix.1]
    rfl
  have hroot : place.rdropWhile (· = slash) ≠ [slash] := by
    intro heq
    rw [heq] at htrimmed
    cases htrimmed
  -- A slash at the end only adds an empty component.
  have hkept : str ".." ∉ (place.rdropWhile (· = slash)).splitOn slash := by
    clear habsolute hne htrimmed hfirst hroot
    induction place using List.reverseRecOn with
    | nil => exact hup
    | append_singleton place c ih =>
      by_cases hc : c = slash
      · subst hc
        rw [List.rdropWhile_concat_pos _ _ _ (by simp)]
        apply ih
        rw [List.splitOn_append_cons_self] at hup
        exact fun hmem => hup (List.mem_append_left _ hmem)
      · rwa [List.rdropWhile_concat_neg _ _ _ (by simpa using hc)]
  simp [isRoot, hfirst, hroot, hkept]

/-- What is not empty at the places of a manifest is a root that the daemon takes as it is. -/
structure Place (place : Str) : Prop where
  text : FileText place
  trimmed : place.rdropWhile (· = slash) = place
  isRoot : place ≠ [] → DataDiscovery.isRoot place = true

theorem place_of_leads {bind : Str} (h : Leads bind place) (htext : FileText bind) : Place place := by
  obtain ⟨source, field, options, rfl, -, -, -, habsolute, -, hup, rfl⟩ := h
  have hmem : ∀ c ∈ field.rdropWhile (· = slash), c ∈ source ++ colon :: (field ++ options) := by
    intro c hc
    have hfield := (List.rdropWhile_prefix (p := (· = slash)) field).subset hc
    simp [hfield]
  exact ⟨fun c hc => htext c (hmem c hc), List.rdropWhile_idempotent _ _, isRoot_rdropWhile habsolute hup⟩

/-- The container lists the directory `path` right below the place. -/
def Holds (container : Container) (place path : Str) : Prop :=
  ∃ before name after, container.iterdir (pathText place) = some (before ++ (name, .directory) :: after) ∧
    (∀ entry ∈ before, entry.2 ≠ .denied) ∧ path = join (pathText place) name

theorem mem_inspected {entry : Str × EntryKind} {entries : List (Str × EntryKind)} (h : entry.2 ≠ .denied) :
    entry ∈ inspected entries ↔ ∃ before after, entries = before ++ entry :: after ∧
    ∀ e ∈ before, e.2 ≠ .denied := by
  induction entries with
  | nil => simp [inspected]
  | cons first entries ih =>
    by_cases hfirst : first.2 = .denied
    · -- The listing ends here, and no entry can stand after this one.
      have hnone : inspected (first :: entries) = [] := List.takeWhile_cons_of_neg (by simpa using hfirst)
      rw [hnone]
      constructor
      · intro hmem
        cases hmem
      · rintro ⟨before, after, heq, hbefore⟩
        cases before with
        | nil =>
          obtain ⟨rfl, -⟩ := List.cons.inj heq
          exact absurd hfirst h
        | cons e before =>
          obtain ⟨rfl, -⟩ := List.cons.inj heq
          exact absurd hfirst (hbefore _ List.mem_cons_self)
    · have hsome : inspected (first :: entries) = first :: inspected entries :=
        List.takeWhile_cons_of_pos (by simpa using hfirst)
      rw [hsome, List.mem_cons, ih]
      constructor
      · rintro (rfl | ⟨before, after, rfl, hbefore⟩)
        · exact ⟨[], entries, rfl, by simp⟩
        · refine ⟨first :: before, after, rfl, fun e he => ?_⟩
          rcases List.mem_cons.mp he with rfl | he
          · exact hfirst
          · exact hbefore e he
      · rintro ⟨before, after, heq, hbefore⟩
        cases before with
        | nil => exact .inl (List.cons.inj heq).1.symm
        | cons e before =>
          exact .inr ⟨before, after, (List.cons.inj heq).2, fun e' he' => hbefore e' (List.mem_cons_of_mem _ he')⟩

theorem mem_below (hne : place ≠ []) : path ∈ below container place ↔ Holds container place path := by
  unfold below Holds
  simp only [List.mem_map, List.mem_filter, decide_eq_true_eq]
  constructor
  · rintro ⟨⟨name, kind⟩, ⟨hmem, rfl⟩, rfl⟩
    obtain ⟨before, after, hentries, hbefore⟩ := (mem_inspected (by simp)).mp hmem
    refine ⟨before, name, after, ?_, hbefore, if_neg hne⟩
    cases hlisted : container.iterdir (pathText place) with
    | none => simp [hlisted] at hentries
    | some entries =>
      rw [hlisted, Option.getD_some] at hentries
      rw [hentries]
  · rintro ⟨before, name, after, hlisted, hbefore, rfl⟩
    refine ⟨(name, .directory), ⟨?_, rfl⟩, if_neg hne⟩
    rw [hlisted, Option.getD_some, mem_inspected (by simp)]
    exact ⟨before, after, rfl, hbefore⟩

theorem collect_strings {places : List Str} (h : ∀ place ∈ places, Place place) :
    collect container (places.map .string) = .ok ((places.filter (· ≠ [])).flatMap (below container)) := by
  induction places with
  | nil => rfl
  | cons place places ih =>
    have hplace := h place List.mem_cons_self
    have ih := ih fun place hplace => h place (List.mem_cons_of_mem _ hplace)
    rw [List.map_cons, collect]
    by_cases hnil : place = []
    · subst hnil
      have hroot : ¬isRoot [] = true := by decide
      rw [if_neg hroot, ih, List.filter_cons_of_neg (by simp)]
    · have hchildren : shareable container place = .ok (below container place) := if_pos hplace.text
      rw [if_pos (hplace.isRoot hnil), hplace.trimmed, hchildren, ih, List.filter_cons_of_pos (by simpa using hnil),
        List.flatMap_cons]
      rfl

theorem noHighSurrogate_of_fileText {text : Str} (h : FileText text) : NoHighSurrogate text := by
  intro c hc
  have hlow := (h c hc).2
  simp only [isHighSurrogate, Bool.and_eq_false_iff, decide_eq_false_iff_not]
  omega

/-- The container is started with the layout of its host and the extra binds outside of it, each once, and the
worker advertises the directories that this container lists right below them. -/
theorem bound_advertised {limit : ℕ} (h : PlainHost host) (htext : ∀ bind ∈ host.wanted, FileText bind)
    (hlimit : 2 ≤ limit)
    (hmanifest : container.manifest = some (manifestText host.binds.effectiveBinds)) :
    host.bindArgs = host.wanted.eraseDups ∧ ∃ paths, getDataPaths limit container = .ok paths ∧
    paths.Pairwise (· < ·) ∧
      ∀ path, path ∈ paths ↔ ∃ bind ∈ host.wanted, ∃ place, Leads bind place ∧ place ≠ [] ∧
      Holds container place path := by
  have hbinds : ∀ bind, bind ∈ host.bindArgs ↔ bind ∈ host.wanted := by
    intro bind
    rw [bindArgs_eq h, List.mem_eraseDups]
  have hplaces : ∀ place ∈ manifestPaths host.binds.effectiveBinds, Place place := by
    intro place hplace
    obtain ⟨bind, hbind, hleads⟩ := (mem_manifestPaths h).mp hplace
    exact place_of_leads hleads (htext bind ((hbinds bind).mp hbind))
  have hloads := loads_manifestText (fun place hplace => noHighSurrogate_of_fileText (hplaces place hplace).text)
    hlimit
  refine ⟨bindArgs_eq h, sortedSet (((manifestPaths host.binds.effectiveBinds).filter (· ≠ [])).flatMap
    (below container)), ?_,
    sortedSet_pairwise _, fun path => ?_⟩
  · have hroots : roots (.object [(str "paths", .array ((manifestPaths host.binds.effectiveBinds).map .string))]) =
        .ok ((manifestPaths host.binds.effectiveBinds).map .string) := by
      simp [roots, getMember, iterate]
    simp only [getDataPaths, hmanifest, hloads, hroots, collect_strings hplaces, bind, Except.bind]
  · rw [mem_sortedSet, List.mem_flatMap]
    constructor
    · rintro ⟨place, hplace, hbelow⟩
      obtain ⟨hmem, hkept⟩ := List.mem_filter.mp hplace
      have hne : place ≠ [] := by simpa using hkept
      obtain ⟨bind, hbind, hleads⟩ := (mem_manifestPaths h).mp hmem
      exact ⟨bind, (hbinds bind).mp hbind, place, hleads, hne, (mem_below hne).mp hbelow⟩
    · rintro ⟨bind, hbind, place, hleads, hne, hholds⟩
      have hmem := (mem_manifestPaths h).mpr ⟨bind, (hbinds bind).mpr hbind, hleads⟩
      exact ⟨place, List.mem_filter.mpr ⟨hmem, by simpa using hne⟩, (mem_below hne).mpr hholds⟩

def isPrintable (c : CodePoint) : Bool := 0x20 ≤ c.val && c.val ≤ 0x7e

theorem fileText_of_all {text : Str} (h : text.all isPrintable = true) : FileText text := by
  intro c hc
  have hprintable := List.all_eq_true.mp h c hc
  simp only [isPrintable, Bool.and_eq_true, decide_eq_true_eq] at hprintable
  omega

/-- A host with its code in `~/Work`. Of the two extra binds one is inside of it. -/
def workHost : Host where
  home := str "/home/u"
  extraBinds := str "/srv/sets:/data/sets;~/Work/sets:/sets"
  mounts := [str "/"]
  pathExists := fun _ => false
  isDir := fun path => path = str "/home/u/Work"
  readlink := id

/-- Its container, where the second entry of `/data/sets` is a link and the last one may not be looked at. -/
def workContainer : Container where
  manifest := some (manifestText workHost.binds.effectiveBinds)
  iterdir := fun path =>
    if path = str "/data/sets" then
      some [(str "birds", .directory), (str "elsewhere", .link), (str "cats", .directory), (str "private", .denied)]
    else none

theorem bound_advertised_workHost : workHost.bindArgs = workHost.wanted.eraseDups ∧
    ∃ paths, getDataPaths 2 workContainer = .ok paths ∧
    paths.Pairwise (· < ·) ∧ ∀ path, path ∈ paths ↔ ∃ bind ∈ workHost.wanted, ∃ place, Leads bind place ∧
    place ≠ [] ∧
      Holds workContainer place path := by
  have hlayout : workHost.layout = [(str "/home/u/Work", str "/code")] := by decide
  have hwanted : workHost.wanted = [str "/home/u/Work:/code", str "/srv/sets:/data/sets"] := by decide
  have hplain : PlainHost workHost := by
    constructor
    · constructor <;> decide
    · rw [hlayout]
      intro bind hbind
      rw [List.mem_singleton.mp hbind]
      constructor <;> decide
  have htext : ∀ bind ∈ workHost.wanted, FileText bind := by
    rw [hwanted]
    intro bind hbind
    have hall : [str "/home/u/Work:/code", str "/srv/sets:/data/sets"].all (fun text => text.all isPrintable) =
      true := by decide
    exact fileText_of_all (List.all_eq_true.mp hall bind hbind)
  exact bound_advertised hplain htext (by omega) rfl

end WorkerHarness.DataDiscovery
