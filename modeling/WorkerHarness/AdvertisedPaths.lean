import WorkerHarness.DataPaths

/-!
# Advertised paths

What a data path means is the list of its names. The checks compare spellings instead, and keep the two
leading slashes that POSIX lets a path have: they agree with the names exactly where no such spelling and no
second spelling of one directory is involved.
-/

namespace WorkerHarness.AdvertisedPaths

open DataPaths SortedLists PosixPaths

def components (path : String) : List String :=
  ((path.toList.splitOn '/').map String.ofList).filter fun name => name ≠ "" ∧ name ≠ "."

def Absolute (path : String) : Prop := ['/'].isPrefixOf path.toList = true

def TwoSlashes (path : String) : Prop := (path.toList.takeWhile (· = '/')).length = 2

instance (path : String) : Decidable (Absolute path) := inferInstanceAs (Decidable (_ = _))

instance (path : String) : Decidable (TwoSlashes path) := inferInstanceAs (Decidable (_ = _))

def Valid (path : String) : Prop := Absolute path ∧ components path ≠ [] ∧ ".." ∉ components path

instance (path : String) : Decidable (Valid path) := inferInstanceAs (Decidable (_ ∧ _))

def spelling (names : List String) : String := "/" ++ "/".intercalate names

def Canonical (path : String) : Prop := Valid path ∧ path = spelling (components path)

variable {path candidate root : String} {names names' : List String}

def rootOf (path : String) : String := if TwoSlashes path then "//" else "/"

theorem rootOf_cases (path : String) : rootOf path = "/" ∨ rootOf path = "//" := by
  unfold rootOf
  split
  · exact .inr rfl
  · exact .inl rfl

theorem pathParts_eq (h : Absolute path) : pathParts path = rootOf path :: components path := by
  have hroot : path.toList.takeWhile (· = '/') ≠ [] := by
    obtain ⟨l, hl⟩ := List.isPrefixOf_iff_prefix.mp h
    rw [← hl, List.cons_append, List.takeWhile_cons_of_pos (by rfl)]
    exact List.cons_ne_nil _ _
  unfold pathParts rootOf components
  dsimp only
  rw [if_neg hroot]
  split
  · next htwo => rw [if_pos (show TwoSlashes path from htwo)]
  · next htwo => rw [if_neg (show ¬TwoSlashes path from htwo)]

theorem pathName_of_mem_components {name : String} (h : name ∈ components path) : PathName name := by
  obtain ⟨hmem, hne⟩ := List.mem_filter.mp h
  obtain ⟨part, hpart, rfl⟩ := List.mem_map.mp hmem
  rw [decide_eq_true_eq] at hne
  exact ⟨by simpa using notMem_of_mem_splitOn hpart, hne.1, hne.2⟩

theorem absolute_joinParts (hroot : root = "/" ∨ root = "//") : Absolute (joinParts (root :: names)) := by
  unfold Absolute
  rw [toList_joinParts hroot]
  rcases hroot with rfl | rfl <;> rfl

/-- Spelling the names of a path gives a path with these names. -/
theorem parts_joinParts (hroot : root = "/" ∨ root = "//") (hnames : ∀ name ∈ names, PathName name) :
    rootOf (joinParts (root :: names)) = root ∧ components (joinParts (root :: names)) = names := by
  have hparts := pathParts_joinParts hroot hnames
  rw [pathParts_eq (absolute_joinParts hroot)] at hparts
  exact List.cons.inj hparts

theorem spelling_eq : spelling names = joinParts ("/" :: names) := rfl

theorem up_mem_pathParts (h : Absolute path) : ".." ∈ pathParts path ↔ ".." ∈ components path := by
  rw [pathParts_eq h, List.mem_cons]
  constructor
  · intro hup
    rcases hup with hup | hup
    · rcases rootOf_cases path with hroot | hroot <;> simp [hroot] at hup
    · exact hup
  · exact .inr

/-- Only the root is spelled with one slash. -/
theorem joinParts_eq_slash (hnames : ∀ name ∈ names, PathName name) (hroot : root = "/" ∨ root = "//") :
    joinParts (root :: names) = "/" ↔ root = "/" ∧ names = [] := by
  constructor
  · intro h
    obtain ⟨hr, hn⟩ := parts_joinParts hroot hnames
    have hslash : joinParts ("/" :: []) = "/" := by decide +kernel
    rw [h, ← hslash] at hr hn
    have hempty : ∀ name ∈ ([] : List String), PathName name := nofun
    obtain ⟨hr', hn'⟩ := parts_joinParts (.inl (rfl : "/" = "/")) hempty
    exact ⟨hr.symm.trans hr', hn.symm.trans hn'⟩
  · rintro ⟨rfl, rfl⟩
    decide +kernel

/-- What is accepted, and how it is spelled then. -/
theorem validateDataPath_eq_ok {normalized : String} : validateDataPath path = .ok normalized ↔
    Absolute path ∧ ".." ∉ components path ∧ (components path ≠ [] ∨ TwoSlashes path) ∧
      normalized = joinParts (rootOf path :: components path) := by
  have hnames : ∀ name ∈ components path, PathName name := fun name => pathName_of_mem_components
  have hroot := rootOf_cases path
  by_cases habs : Absolute path
  · have hposix : posixPath path = joinParts (rootOf path :: components path) := by
      rw [posixPath, pathParts_eq habs]
    have hdot : posixPath path ≠ "." := by
      intro hdot
      have h : Absolute (joinParts (rootOf path :: components path)) := absolute_joinParts hroot
      rw [← hposix, hdot] at h
      exact absurd h (by decide)
    have hslash : posixPath path = "/" ↔ components path = [] ∧ ¬TwoSlashes path := by
      rw [hposix, joinParts_eq_slash hnames hroot, and_comm]
      refine and_congr_right fun _ => ?_
      unfold rootOf
      split
      · next htwo => simp [htwo]
      · next htwo => simp [htwo]
    unfold validateDataPath
    rw [if_pos (show ['/'].isPrefixOf path.toList = true from habs)]
    simp only [hslash, hdot, false_or, up_mem_pathParts habs]
    split
    · next hbad =>
      constructor
      · intro h
        cases h
      · rintro ⟨-, hup, hne, -⟩
        rcases hbad with ⟨hnil, htwo⟩ | hbad
        · exact absurd hne (by simp [hnil, htwo])
        · exact absurd hbad hup
    · next hgood =>
      push Not at hgood
      rw [Except.ok.injEq, hposix, eq_comm]
      constructor
      · intro h
        refine ⟨habs, hgood.2, ?_, h⟩
        by_cases hnil : components path = []
        · exact .inr (hgood.1 hnil)
        · exact .inl hnil
      · intro h
        exact h.2.2.2
  · constructor
    · intro h
      exact absurd (validateDataPath_ok h).2.2.2 habs
    · intro h
      exact absurd h.1 habs

theorem rootOf_eq_iff : rootOf root = rootOf path ↔ (TwoSlashes root ↔ TwoSlashes path) := by
  unfold rootOf
  by_cases hroot : TwoSlashes root <;> by_cases hpath : TwoSlashes path <;> simp [hroot, hpath]

theorem absolute_of_twoSlashes (h : TwoSlashes path) : Absolute path := by
  unfold TwoSlashes at h
  unfold Absolute
  cases hl : path.toList with
  | nil => simp [hl] at h
  | cons c l =>
    rw [hl, List.takeWhile_cons] at h
    split at h
    · next hc => simpa using (of_decide_eq_true hc).symm
    · cases h

theorem parts_normalized (path : String) : rootOf (joinParts (rootOf path :: components path)) = rootOf path ∧
    components (joinParts (rootOf path :: components path)) = components path :=
  parts_joinParts (rootOf_cases path) fun _ => pathName_of_mem_components

/-- Two leading slashes stay. -/
theorem joinParts_ne_spelling (h : TwoSlashes path) :
    joinParts (rootOf path :: components path) ≠ spelling (components path) := by
  intro hone
  have hroot := (parts_normalized path).1
  rw [hone, spelling_eq, (parts_joinParts (.inl rfl) fun _ => pathName_of_mem_components).1, rootOf,
    if_pos h] at hroot
  exact absurd hroot (by decide)

structure ValidatedExactly (path : String) : Prop where
  accepted : (∃ normalized, validateDataPath path = .ok normalized) ↔ Valid path
  spelled : ∀ normalized, validateDataPath path = .ok normalized →
    normalized = spelling (components path) ∧ components normalized = components path ∧ components normalized ≠ []
  again : ∀ normalized, validateDataPath path = .ok normalized → validateDataPath normalized = .ok normalized

theorem validated_exactly_iff (path : String) : ValidatedExactly path ↔
    (TwoSlashes path → ".." ∈ components path) := by
  have hnames : ∀ name ∈ components path, PathName name := fun name => pathName_of_mem_components
  constructor
  · intro h htwo
    by_contra hup
    have hok := validateDataPath_eq_ok.mpr ⟨absolute_of_twoSlashes htwo, hup, .inr htwo, rfl⟩
    exact joinParts_ne_spelling htwo (h.spelled _ hok).1
  · intro h
    constructor
    · constructor
      · intro ⟨normalized, hok⟩
        obtain ⟨habs, hup, hne, -⟩ := validateDataPath_eq_ok.mp hok
        exact ⟨habs, hne.resolve_right fun htwo => hup (h htwo), hup⟩
      · intro ⟨habs, hne, hup⟩
        exact ⟨_, validateDataPath_eq_ok.mpr ⟨habs, hup, .inl hne, rfl⟩⟩
    · intro normalized hok
      obtain ⟨-, hup, hne, rfl⟩ := validateDataPath_eq_ok.mp hok
      have htwo : ¬TwoSlashes path := fun htwo => hup (h htwo)
      have hroot : rootOf path = "/" := if_neg htwo
      rw [hroot, (parts_joinParts (.inl rfl) hnames).2]
      exact ⟨rfl, rfl, hne.resolve_right htwo⟩
    · intro normalized hok
      exact validateDataPath_idem hok

structure AdvertisedExactly (candidate : String) (advertised : List String) : Prop where
  valid : Valid candidate → (isAdvertisedDataPath candidate advertised = .ok true ↔
    ∃ root ∈ advertised, Valid root ∧ components root <+: components candidate)
  invalid : ¬Valid candidate → isAdvertisedDataPath candidate advertised ≠ .ok true

def TwoSlashRoot (path : String) : Prop := TwoSlashes path ∧ components path = []

theorem takeWhile_joinParts (hroot : root = "/" ∨ root = "//") (hnames : ∀ name ∈ names, PathName name) :
    (joinParts (root :: names)).toList.takeWhile (· = '/') = root.toList := by
  have hslashes : ∀ c ∈ root.toList, decide (c = '/') = true := by
    rcases hroot with rfl | rfl <;> simp
  rw [toList_joinParts hroot, List.takeWhile_append_of_pos hslashes]
  have hfirst : (['/'].intercalate (names.map String.toList)).takeWhile (· = '/') = [] := by
    cases names with
    | nil => rfl
    | cons name names =>
      obtain ⟨hslash, hne, -⟩ := hnames name List.mem_cons_self
      cases hl : name.toList with
      | nil => exact absurd (String.toList_eq_nil_iff.mp hl) hne
      | cons c l =>
        have hc : ¬c = '/' := fun heq => hslash (by simp [hl, heq])
        cases names with
        | nil => simp [hl, hc]
        | cons name' names => simp [hl, hc]
  rw [hfirst, List.append_nil]

theorem joinParts_root (hroot : root = "/" ∨ root = "//") : joinParts [root] = root := by
  rcases hroot with rfl | rfl <;> decide +kernel

theorem length_joinParts (hroot : root = "/" ∨ root = "//") (hnames : ∀ name ∈ names, PathName name)
    (hne : names ≠ []) :
    (joinParts (root :: names)).toList.length ≠ root.toList.length := by
  intro hlength
  rw [toList_joinParts hroot, List.length_append] at hlength
  have hnil : ['/'].intercalate (names.map String.toList) = [] := List.length_eq_zero_iff.mp (by omega)
  have hsame : joinParts (root :: names) = joinParts [root] := by
    rw [← String.toList_inj, toList_joinParts hroot, hnil, joinParts_root hroot, List.append_nil]
  have hnames' := (parts_joinParts hroot hnames).2
  rw [hsame, (parts_joinParts hroot (List.forall_mem_nil _)).2] at hnames'
  exact hne hnames'.symm

/-- What is spelled with a longer list of names starts with the shorter path and a slash. -/
theorem startsWith_iff {root' : String} (hroot : root = "/" ∨ root = "//") (hroot' : root' = "/" ∨ root' = "//")
    (hnames : ∀ name ∈ names, PathName name) (hnames' : ∀ name ∈ names', PathName name)
    (hne : names ≠ [] ∨ root = "//") :
    (joinParts (root :: names) ++ "/").toList.isPrefixOf (joinParts (root' :: names')).toList = true ↔
      root = root' ∧ names ≠ [] ∧ names <+: names' ∧ names ≠ names' := by
  rw [List.isPrefixOf_iff_prefix, String.toList_append]
  have hlead := takeWhile_joinParts hroot hnames
  have hlead' := takeWhile_joinParts hroot' hnames'
  constructor
  · intro ⟨t, ht⟩
    have hsplit : (joinParts (root' :: names')).toList = (joinParts (root :: names)).toList ++ '/' :: t := by
      rw [← ht]
      simp
    have hcomponents : names' = names ++ components (String.ofList t) := by
      rw [← (parts_joinParts hroot hnames).2, ← (parts_joinParts hroot' hnames').2]
      simp only [components, hsplit, List.splitOn_append_cons_self, List.map_append, List.filter_append,
        String.toList_ofList]
    rw [hsplit, List.takeWhile_append, hlead] at hlead'
    have hsome : names ≠ [] := by
      rintro rfl
      obtain rfl := hne.resolve_left (fun h => h rfl)
      rw [joinParts_root hroot, if_pos rfl] at hlead'
      have hlength := congrArg List.length hlead'
      rcases hroot' with rfl | rfl <;> simp at hlength
    rw [if_neg (length_joinParts hroot hnames hsome).symm, String.toList_inj] at hlead'
    subst hlead'
    refine ⟨rfl, hsome, ⟨_, hcomponents.symm⟩, ?_⟩
    intro hsame
    rw [← hsame] at hsplit
    have hlength := congrArg List.length hsplit
    simp at hlength
  · rintro ⟨rfl, hsome, ⟨more, rfl⟩, hdiffer⟩
    have hmore : more ≠ [] := by
      rintro rfl
      exact hdiffer (List.append_nil _).symm
    rw [toList_joinParts hroot, toList_joinParts hroot, List.map_append,
      intercalate_append (by simpa using hsome) (by simpa using hmore)]
    exact ⟨['/'].intercalate (more.map String.toList), by simp⟩

/-- What is accepted covers the paths with the same leading slashes whose names it begins; a root covers itself
only. -/
theorem advertised_iff {advertised : List String} : isAdvertisedDataPath candidate advertised = .ok true ↔
    (∃ normalized, validateDataPath candidate = .ok normalized) ∧ ∃ root ∈ advertised,
      (∃ normalized, validateDataPath root = .ok normalized) ∧ (TwoSlashes root ↔ TwoSlashes candidate) ∧
      components root <+: components candidate ∧ (components root = [] → components candidate = []) := by
  unfold isAdvertisedDataPath
  cases hcandidate : validateDataPath candidate with
  | error detail => simp
  | ok normalized =>
    obtain ⟨habs, hup, hne, rfl⟩ := validateDataPath_eq_ok.mp hcandidate
    have hnames : ∀ name ∈ components candidate, PathName name := fun name => pathName_of_mem_components
    simp only [Except.ok.injEq, List.any_eq_true, exists_eq', true_and]
    refine exists_congr fun root => and_congr_right fun _ => ?_
    cases hroot : validateDataPath root with
    | error detail => simp
    | ok normalizedRoot =>
      obtain ⟨-, -, hne', rfl⟩ := validateDataPath_eq_ok.mp hroot
      have hnames' : ∀ name ∈ components root, PathName name := fun name => pathName_of_mem_components
      have hsame : joinParts (rootOf candidate :: components candidate) =
        joinParts (rootOf root :: components root) ↔
          rootOf root = rootOf candidate ∧ components root = components candidate := by
        constructor
        · intro h
          have hparts := parts_joinParts (rootOf_cases candidate) hnames
          rw [h, (parts_joinParts (rootOf_cases root) hnames').1,
            (parts_joinParts (rootOf_cases root) hnames').2] at hparts
          exact hparts
        · rintro ⟨hr, hn⟩
          rw [hr, hn]
      have hne'' : components root ≠ [] ∨ rootOf root = "//" := hne'.imp_right fun htwo => if_pos htwo
      rw [Bool.or_eq_true, decide_eq_true_eq, hsame,
        startsWith_iff (rootOf_cases root) (rootOf_cases candidate) hnames' hnames hne'', rootOf_eq_iff]
      simp only [Except.ok.injEq, exists_eq', true_and]
      constructor
      · rintro (⟨hr, hn⟩ | ⟨hr, hsome, hprefix, -⟩)
        · exact ⟨hr, hn ▸ List.prefix_refl _, fun hnil => hn ▸ hnil⟩
        · exact ⟨hr, hprefix, fun hnil => absurd hnil hsome⟩
      · rintro ⟨hr, hprefix, hnil⟩
        by_cases hn : components root = components candidate
        · exact .inl ⟨hr, hn⟩
        · exact .inr ⟨hr, fun h => hn (h.trans (hnil h).symm), hprefix, hn⟩

/-- The check is exact unless a directory is covered under the other form of its leading slashes only, or the root
itself is advertised and asked for with two slashes. -/
theorem advertised_exactly_iff (candidate : String) (advertised : List String) :
    AdvertisedExactly candidate advertised ↔
    (Valid candidate → (∃ root ∈ advertised, Valid root ∧ components root <+: components candidate) →
      ∃ root ∈ advertised, Valid root ∧ components root <+: components candidate ∧
        (TwoSlashes root ↔ TwoSlashes candidate)) ∧
    ¬(TwoSlashRoot candidate ∧ ∃ root ∈ advertised, TwoSlashRoot root) := by
  have hvalid (path : String) : Valid path ↔ (∃ normalized, validateDataPath path = .ok normalized) ∧
    components path ≠ [] := by
    constructor
    · intro ⟨habs, hne, hup⟩
      exact ⟨⟨_, validateDataPath_eq_ok.mpr ⟨habs, hup, .inl hne, rfl⟩⟩, hne⟩
    · intro ⟨⟨normalized, hok⟩, hne⟩
      obtain ⟨habs, hup, -⟩ := validateDataPath_eq_ok.mp hok
      exact ⟨habs, hne, hup⟩
  have hroot (path : String) (h : TwoSlashRoot path) : ∃ normalized, validateDataPath path = .ok normalized :=
    ⟨_, validateDataPath_eq_ok.mpr ⟨absolute_of_twoSlashes h.1, by rw [h.2]; exact List.not_mem_nil, .inr h.1, rfl⟩⟩
  -- A valid candidate is covered by a valid path with the same leading slashes.
  have hcovered (hcandidate : Valid candidate) : isAdvertisedDataPath candidate advertised = .ok true ↔
      ∃ root ∈ advertised, Valid root ∧ components root <+: components candidate ∧
        (TwoSlashes root ↔ TwoSlashes candidate) := by
    rw [advertised_iff]
    constructor
    · intro ⟨_, root, hmem, hok, hslashes, hprefix, hnil⟩
      exact ⟨root, hmem, (hvalid root).mpr ⟨hok, fun h => hcandidate.2.1 (hnil h)⟩, hprefix, hslashes⟩
    · intro ⟨root, hmem, hrootValid, hprefix, hslashes⟩
      exact ⟨((hvalid candidate).mp hcandidate).1, root, hmem, ((hvalid root).mp hrootValid).1, hslashes, hprefix,
        fun h => absurd h hrootValid.2.1⟩
  constructor
  · intro h
    constructor
    · intro hcandidate hprefix
      exact (hcovered hcandidate).mp ((h.valid hcandidate).mpr hprefix)
    · intro ⟨hcandidate, root, hmem, hrootTwo⟩
      refine h.invalid (fun hv => hv.2.1 hcandidate.2) (advertised_iff.mpr ?_)
      refine ⟨hroot candidate hcandidate, root, hmem, hroot root hrootTwo,
        iff_of_true hrootTwo.1 hcandidate.1, ?_, ?_⟩
      · rw [hrootTwo.2]
        exact List.nil_prefix
      · exact fun _ => hcandidate.2
  · intro ⟨halike, hroots⟩
    constructor
    · intro hcandidate
      rw [hcovered hcandidate]
      constructor
      · intro ⟨root, hmem, hrootValid, hrootPrefix, _⟩
        exact ⟨root, hmem, hrootValid, hrootPrefix⟩
      · exact halike hcandidate
    · intro hcandidate htrue
      obtain ⟨⟨normalized, hok⟩, root, hmem, ⟨normalizedRoot, hok'⟩, hslashes, hrootPrefix, -⟩ :=
        advertised_iff.mp htrue
      obtain ⟨habs, hup, hne, -⟩ := validateDataPath_eq_ok.mp hok
      have hnil : components candidate = [] := by
        by_contra hsome
        exact hcandidate ⟨habs, hsome, hup⟩
      have htwo : TwoSlashes candidate := hne.resolve_left fun hsome => hsome hnil
      rw [hnil] at hrootPrefix
      exact hroots ⟨⟨htwo, hnil⟩, root, hmem, hslashes.mpr htwo, List.prefix_nil.mp hrootPrefix⟩

def eligible (workers : List DataWorker) (includeOffline : Bool) : List DataWorker :=
  workers.filter fun worker => includeOffline || decide (worker.status = .online)

def Advertises (worker : DataWorker) (path : String) : Prop :=
  ∃ advertised ∈ worker.dataPaths, Valid advertised ∧ components advertised = components path

instance (worker : DataWorker) (path : String) : Decidable (Advertises worker path) :=
  inferInstanceAs (Decidable (∃ advertised ∈ worker.dataPaths, _))

structure ReversedExactly (workers : List DataWorker) (includeOffline : Bool) : Prop where
  distinct : ((reverseDataPaths workers includeOffline).map Prod.fst).Nodup
  canonical : ∀ path ∈ (reverseDataPaths workers includeOffline).map Prod.fst, Canonical path
  entries : ∀ path, Canonical path → ((reverseDataPaths workers includeOffline).lookup path).getD [] =
    ((eligible workers includeOffline).filter (Advertises · path)).map fun worker => (worker.id, worker.name)

variable {workers : List DataWorker} {worker : DataWorker} {includeOffline : Bool}

def spellings (worker : DataWorker) (path : String) : List String :=
  worker.dataPaths.dedup.filter fun advertised => validateDataPath advertised = .ok path

theorem mem_acceptedPaths : path ∈ acceptedPaths worker ↔
    ∃ advertised ∈ worker.dataPaths, validateDataPath advertised = .ok path := by
  unfold acceptedPaths
  rw [List.mem_filterMap]
  refine exists_congr fun advertised => ?_
  rw [mem_sortOn, List.mem_dedup]
  refine and_congr_right fun _ => ?_
  cases validateDataPath advertised with
  | error detail => simp [Except.toOption]
  | ok normalized => simp [Except.toOption]

theorem count_acceptedPaths : (acceptedPaths worker).count path = (spellings worker path).length := by
  have hperm := ((sortOn_perm id worker.dataPaths.dedup).filterMap fun path =>
    (validateDataPath path).toOption).count_eq path
  unfold acceptedPaths spellings
  rw [hperm, List.count_filterMap, List.countP_eq_length_filter]
  congr 2
  funext advertised
  cases validateDataPath advertised with
  | error detail => simp [Except.toOption]
  | ok normalized => simp [Except.toOption, beq_eq_decide]

theorem lookup_map_self {f : String → List (String × String)} {paths : List String} :
    ((paths.map fun p => (p, f p)).lookup path).getD [] = if path ∈ paths then f path else [] := by
  induction paths with
  | nil => rfl
  | cons p paths ih =>
    rw [List.map_cons, List.lookup_cons]
    by_cases hp : path = p
    · subst hp
      simp
    · have hne : (path == p) = false := beq_eq_false_iff_ne.mpr hp
      rw [hne]
      simp only [ih, List.mem_cons, hp, false_or]

/-- What the map has for a path: each eligible worker as often as it advertises a spelling. -/
theorem lookup_reverseDataPaths : ((reverseDataPaths workers includeOffline).lookup path).getD [] =
    (eligible workers includeOffline).flatMap fun worker =>
      List.replicate (spellings worker path).length (worker.id, worker.name) := by
  have hentries : (((eligible workers includeOffline).flatMap fun worker =>
      (acceptedPaths worker).map fun p => (p, worker.id, worker.name)).filter fun entry =>
        entry.1 = path).map Prod.snd =
      (eligible workers includeOffline).flatMap fun worker =>
        List.replicate (spellings worker path).length (worker.id, worker.name) := by
    rw [List.filter_flatMap, List.map_flatMap]
    congr 1
    funext worker
    rw [List.filter_map, List.map_map, List.eq_replicate_iff, List.length_map, ← count_acceptedPaths, List.count,
      List.countP_eq_length_filter]
    constructor
    · congr 2
    · intro entry hentry
      obtain ⟨p, -, rfl⟩ := List.mem_map.mp hentry
      rfl
  unfold reverseDataPaths
  dsimp only
  rw [lookup_map_self, ← hentries]
  split
  · rfl
  · next hpath =>
    rw [mem_sortOn, List.mem_dedup] at hpath
    symm
    rw [List.map_eq_nil_iff, List.filter_eq_nil_iff]
    intro entry hentry heq
    exact hpath (List.mem_map.mpr ⟨entry, hentry, of_decide_eq_true heq⟩)

/-- A list of copies is the list itself exactly when each element that is kept is there once. -/
theorem flatMap_replicate_eq {α β : Type} {l : List α} {copies : α → ℕ} {f : α → β} {p : α → Bool}
    (h : ∀ a ∈ l, p a = true ↔ 0 < copies a) :
    (l.flatMap fun a => List.replicate (copies a) (f a)) = (l.filter p).map f ↔ ∀ a ∈ l, copies a ≤ 1 := by
  have hle (l : List α) (h : ∀ a ∈ l, p a = true ↔ 0 < copies a) :
      ((l.filter p).map f).length ≤ (l.flatMap fun a => List.replicate (copies a) (f a)).length := by
    induction l with
    | nil => simp
    | cons a l ih =>
      have ih := ih fun b hb => h b (List.mem_cons_of_mem _ hb)
      have ha := h a List.mem_cons_self
      rw [List.flatMap_cons, List.length_append, List.length_replicate, List.filter_cons]
      split
      · next hp =>
        have := ha.mp hp
        simp only [List.map_cons, List.length_cons]
        omega
      · omega
  induction l with
  | nil => simp
  | cons a l ih =>
    have htail : ∀ b ∈ l, p b = true ↔ 0 < copies b := fun b hb => h b (List.mem_cons_of_mem _ hb)
    have ha := h a List.mem_cons_self
    have hle := hle l htail
    have hiff := ih htail
    rw [List.forall_mem_cons, List.flatMap_cons, List.filter_cons]
    constructor
    · intro heq
      have hlength := congrArg List.length heq
      rw [List.length_append, List.length_replicate] at hlength
      cases hp : p a with
      | true =>
        have hpos := ha.mp hp
        rw [hp, if_pos rfl, List.map_cons, List.length_cons] at hlength
        have hone : copies a = 1 := by omega
        rw [hp, if_pos rfl, hone] at heq
        exact ⟨le_of_eq hone, hiff.mp (List.cons.inj heq).2⟩
      | false =>
        have hzero : copies a = 0 := by
          by_contra hpos
          rw [ha.mpr (Nat.pos_of_ne_zero hpos)] at hp
          cases hp
        rw [hp, if_neg Bool.false_ne_true, hzero] at heq
        exact ⟨by omega, hiff.mp heq⟩
    · intro ⟨hone, hones⟩
      rw [hiff.mpr hones]
      cases hp : p a with
      | true =>
        have hpos := ha.mp hp
        have hone : copies a = 1 := by omega
        rw [if_pos rfl, hone]
        rfl
      | false =>
        have hzero : copies a = 0 := by
          by_contra hpos
          rw [ha.mpr (Nat.pos_of_ne_zero hpos)] at hp
          cases hp
        rw [if_neg Bool.false_ne_true, hzero]
        rfl

theorem mem_keys : path ∈ (reverseDataPaths workers includeOffline).map Prod.fst ↔
    ∃ worker ∈ eligible workers includeOffline, ∃ advertised ∈ worker.dataPaths, validateDataPath advertised =
    .ok path := by
  unfold reverseDataPaths
  simp only [List.map_map, Function.comp_def, List.map_id', mem_sortOn, List.mem_dedup, List.mem_map,
    List.mem_flatMap]
  constructor
  · rintro ⟨entry, ⟨worker, hworker, p, hp, rfl⟩, rfl⟩
    exact ⟨worker, hworker, mem_acceptedPaths.mp hp⟩
  · rintro ⟨worker, hworker, h⟩
    exact ⟨_, ⟨worker, hworker, path, mem_acceptedPaths.mpr h, rfl⟩, rfl⟩

theorem nodup_keys : ((reverseDataPaths workers includeOffline).map Prod.fst).Nodup := by
  unfold reverseDataPaths
  simp only [List.map_map, Function.comp_def, List.map_id']
  exact (sortOn_perm _ _).nodup_iff.mpr (List.nodup_dedup _)

/-- Which path a path is accepted as, when it does not start with two slashes. -/
theorem validateDataPath_eq_canonical {advertised : String}
    (h : TwoSlashes advertised → ".." ∈ components advertised)
    (hpath : Canonical path) :
    validateDataPath advertised = .ok path ↔ Valid advertised ∧ components advertised = components path := by
  have hexact := (validated_exactly_iff advertised).mpr h
  constructor
  · intro hok
    exact ⟨hexact.accepted.mp ⟨path, hok⟩, (hexact.spelled path hok).2.1.symm⟩
  · intro ⟨hvalid, hsame⟩
    obtain ⟨normalized, hok⟩ := hexact.accepted.mpr hvalid
    rw [hok, (hexact.spelled normalized hok).1, hsame, ← hpath.2]

/-- The entry of a path is exact when no eligible worker advertises two spellings of it. -/
theorem entry_exact_iff
    (h : ∀ worker ∈ eligible workers includeOffline, ∀ path ∈ worker.dataPaths, TwoSlashes path →
      ".." ∈ components path)
    (hpath : Canonical path) : ((reverseDataPaths workers includeOffline).lookup path).getD [] =
      ((eligible workers includeOffline).filter (Advertises · path)).map (fun worker => (worker.id, worker.name)) ↔
    ∀ worker ∈ eligible workers includeOffline, (spellings worker path).length ≤ 1 := by
  rw [lookup_reverseDataPaths]
  apply flatMap_replicate_eq
  intro worker hworker
  rw [decide_eq_true_eq, List.length_pos_iff_exists_mem]
  refine exists_congr fun advertised => ?_
  rw [spellings, List.mem_filter, List.mem_dedup, decide_eq_true_eq]
  refine and_congr_right fun hmem => ?_
  exact (validateDataPath_eq_canonical (h worker hworker advertised hmem) hpath).symm

theorem length_spellings_le_one : (spellings worker path).length ≤ 1 ↔
    ∀ p ∈ spellings worker path, ∀ p' ∈ spellings worker path, p = p' := by
  have hnodup : (spellings worker path).Nodup := (List.nodup_dedup _).filter _
  constructor
  · intro h p hp p' hp'
    obtain ⟨q, hq⟩ := List.length_eq_one_iff.mp (le_antisymm h (List.length_pos_of_mem hp))
    rw [hq, List.mem_singleton] at hp hp'
    rw [hp, hp']
  · intro h
    match hs : spellings worker path with
    | [] => simp
    | [p] => simp
    | p :: p' :: rest =>
      rw [hs] at hnodup h
      have hne := (List.nodup_cons.mp hnodup).1
      rw [h p (by simp) p' (by simp)] at hne
      exact absurd List.mem_cons_self hne

/-- The map is exact unless an eligible worker advertises a path with two leading slashes, or one path twice. -/
theorem reversed_exactly_iff (workers : List DataWorker) (includeOffline : Bool) :
    ReversedExactly workers includeOffline ↔
    ∀ worker ∈ eligible workers includeOffline,
    (∀ path ∈ worker.dataPaths, TwoSlashes path → ".." ∈ components path) ∧
      ∀ path ∈ worker.dataPaths, ∀ path' ∈ worker.dataPaths, Valid path → Valid path' →
        components path = components path' → path = path' := by
  constructor
  · intro h
    have hone : ∀ worker ∈ eligible workers includeOffline, ∀ path ∈ worker.dataPaths,
        TwoSlashes path → ".." ∈ components path := by
      intro worker hworker path hmem htwo
      by_contra hup
      have hok := validateDataPath_eq_ok.mpr ⟨absolute_of_twoSlashes htwo, hup, .inr htwo, rfl⟩
      obtain ⟨-, hspelling⟩ := h.canonical _ (mem_keys.mpr ⟨worker, hworker, path, hmem, hok⟩)
      rw [(parts_normalized path).2] at hspelling
      exact joinParts_ne_spelling htwo hspelling
    intro worker hworker
    refine ⟨hone worker hworker, ?_⟩
    intro path hpath path' hpath' hvalid hvalid' hsame
    obtain ⟨normalized, hok⟩ := ((validated_exactly_iff path).mpr (hone worker hworker path hpath)).accepted.mpr
      hvalid
    have hcanonical : Canonical normalized := h.canonical _ (mem_keys.mpr ⟨worker, hworker, path, hpath, hok⟩)
    have hcount := (entry_exact_iff hone hcanonical).mp (h.entries normalized hcanonical) worker hworker
    have hnames := ((validateDataPath_eq_canonical (hone worker hworker path hpath) hcanonical).mp hok).2
    have hok' := (validateDataPath_eq_canonical (hone worker hworker path' hpath') hcanonical).mpr
      ⟨hvalid', hsame.symm.trans hnames⟩
    exact length_spellings_le_one.mp hcount path (by simp [spellings, hpath, hok]) path'
      (by simp [spellings, hpath', hok'])
  · intro h
    have hone : ∀ worker ∈ eligible workers includeOffline, ∀ path ∈ worker.dataPaths,
        TwoSlashes path → ".." ∈ components path := fun worker hworker => (h worker hworker).1
    constructor
    · exact nodup_keys
    · intro path hpath
      obtain ⟨worker, hworker, advertised, hmem, hok⟩ := mem_keys.mp hpath
      have hexact := (validated_exactly_iff advertised).mpr (hone worker hworker advertised hmem)
      obtain ⟨hspelling, hnames, -⟩ := hexact.spelled path hok
      refine ⟨(((validated_exactly_iff path).mpr ?_).accepted.mp ⟨path, validateDataPath_idem hok⟩), ?_⟩
      · intro htwo
        have hadvertised : ∀ name ∈ components advertised, PathName name := fun _ => pathName_of_mem_components
        have hlead := (parts_joinParts (.inl rfl) hadvertised).1
        rw [← spelling_eq, ← hspelling, rootOf, if_pos htwo] at hlead
        exact absurd hlead (by decide)
      · rw [hnames]
        exact hspelling
    · intro path hpath
      rw [entry_exact_iff hone hpath]
      intro worker hworker
      rw [length_spellings_le_one]
      intro p hp p' hp'
      simp only [spellings, List.mem_filter, List.mem_dedup, decide_eq_true_eq] at hp hp'
      obtain ⟨hmem, hok⟩ := hp
      obtain ⟨hmem', hok'⟩ := hp'
      obtain ⟨hvalid, hnames⟩ := (validateDataPath_eq_canonical (hone worker hworker p hmem) hpath).mp hok
      obtain ⟨hvalid', hnames'⟩ := (validateDataPath_eq_canonical (hone worker hworker p' hmem') hpath).mp hok'
      exact (h worker hworker).2 p hmem p' hmem' hvalid hvalid' (hnames.trans hnames'.symm)

/-- Exactly when the checks of data paths do what the names of the paths say. -/
theorem data_paths_exactly_iff (path candidate : String) (advertised : List String) (workers : List DataWorker)
    (includeOffline : Bool) :
    (ValidatedExactly path ↔ (TwoSlashes path → ".." ∈ components path)) ∧
    (AdvertisedExactly candidate advertised ↔
      (Valid candidate → (∃ root ∈ advertised, Valid root ∧ components root <+: components candidate) →
        ∃ root ∈ advertised, Valid root ∧ components root <+: components candidate ∧
          (TwoSlashes root ↔ TwoSlashes candidate)) ∧
      ¬(TwoSlashRoot candidate ∧ ∃ root ∈ advertised, TwoSlashRoot root)) ∧
    (ReversedExactly workers includeOffline ↔
      ∀ worker ∈ eligible workers includeOffline,
        (∀ path ∈ worker.dataPaths, TwoSlashes path → ".." ∈ components path) ∧
        ∀ path ∈ worker.dataPaths, ∀ path' ∈ worker.dataPaths, Valid path → Valid path' →
          components path = components path' → path = path') :=
  ⟨validated_exactly_iff path, advertised_exactly_iff candidate advertised,
    reversed_exactly_iff workers includeOffline⟩

/-- The root with two slashes is accepted, its spelling hides a directory, and one directory is listed twice. -/
theorem not_data_paths_exactly : (¬∀ path, ValidatedExactly path) ∧
    (¬∀ candidate advertised, AdvertisedExactly candidate advertised) ∧
    ¬∀ workers includeOffline, ReversedExactly workers includeOffline := by
  refine ⟨?_, ?_, ?_⟩
  · intro h
    exact absurd ((validated_exactly_iff "//").mp (h "//")) (by decide +kernel)
  · intro h
    have hexact := ((advertised_exactly_iff "/data/a" ["//data/a"]).mp (h "/data/a" ["//data/a"])).1
    exact absurd hexact (by decide +kernel)
  · intro h
    have hexact := (reversed_exactly_iff
      [{ id := "w", name := "worker", status := .online, dataPaths := ["/data/a", "/data/a/"] }] false).mp (h _ _)
    exact absurd hexact (by decide +kernel)

end WorkerHarness.AdvertisedPaths
