import WorkerHarness.FleetEffects
import WorkerHarness.PosixPaths
import WorkerHarness.SortedLists
import Mathlib.Data.List.Dedup

/-!
# Shared data paths

The paths that workers advertise for copies: which paths are accepted, which of them lie below an
advertised directory, and the map from paths to the workers that have them.
-/

namespace WorkerHarness.DataPaths

open SortedLists PosixPaths

structure DataWorker extends Worker where
  sshHost : String := ""
  dataPaths : List String := []
  deriving DecidableEq

/-- The path with these parts. -/
def joinParts : List String → String
  | [] => "."
  | root :: names =>
    if root = "/" ∨ root = "//" then root ++ "/".intercalate names else "/".intercalate (root :: names)

/-- `str(PurePosixPath(path))`. -/
def posixPath (path : String) : String := joinParts (pathParts path)

/-- `str(PurePosixPath(path).parent)`. -/
def posixParent (path : String) : String :=
  match pathParts path with
  | [root] => if root = "/" ∨ root = "//" then root else "."
  | parts => joinParts parts.dropLast

/-- `validate_data_path`; the error is the text of the `DataPathError`. -/
def validateDataPath (path : String) : Except String String :=
  if ['/'].isPrefixOf path.toList then
    let normalized := posixPath path
    if normalized = "/" ∨ normalized = "." ∨ ".." ∈ pathParts path then
      .error "path must not be the filesystem root or contain '..'"
    else .ok normalized
  else .error "path must be absolute"

/-- `is_advertised_data_path`. -/
def isAdvertisedDataPath (path : String) (advertisedPaths : List String) : Except String Bool :=
  match validateDataPath path with
  | .error detail => .error detail
  | .ok candidate => .ok <| advertisedPaths.any fun root =>
    match validateDataPath root with
    | .error _ => false
    | .ok normalizedRoot =>
      decide (candidate = normalizedRoot) || (normalizedRoot ++ "/").toList.isPrefixOf candidate.toList

/-- The accepted paths of a worker, in the order of `sorted(set(worker.data_paths))`. -/
def acceptedPaths (worker : DataWorker) : List String :=
  (sortOn id worker.dataPaths.dedup).filterMap fun path => (validateDataPath path).toOption

/-- `reverse_data_paths`: each path with the ids and the names of the workers that have it. -/
def reverseDataPaths (workers : List DataWorker) (includeOffline : Bool) : List (String × List (String × String)) :=
  let advertised := (workers.filter fun worker => includeOffline || decide (worker.status = .online)).flatMap
    fun worker => (acceptedPaths worker).map fun path => (path, worker.id, worker.name)
  (sortOn id (advertised.map Prod.fst).dedup).map fun path =>
    (path, (advertised.filter fun entry => entry.1 = path).map Prod.snd)

variable {path normalized root : String} {names : List String}

/-- What is accepted is absolute, and neither the root nor a way out of it. -/
theorem validateDataPath_ok (h : validateDataPath path = .ok normalized) :
    normalized = posixPath path ∧ normalized ≠ "/" ∧ ".." ∉ pathParts path ∧ ['/'].isPrefixOf path.toList := by
  unfold validateDataPath at h
  split at h
  · next habs =>
    dsimp only at h
    split at h
    · cases h
    · next hsafe =>
      cases h
      push Not at hsafe
      exact ⟨rfl, hsafe.1, hsafe.2.2, habs⟩
  · cases h

structure PathName (name : String) : Prop where
  slash : '/' ∉ name.toList
  ne_empty : name ≠ ""
  ne_dot : name ≠ "."

/-- The parts of an absolute path. -/
theorem pathParts_absolute (h : ['/'].isPrefixOf path.toList) :
    ∃ root names, pathParts path = root :: names ∧ (root = "/" ∨ root = "//") ∧ ∀ name ∈ names, PathName name := by
  have hroot : path.toList.takeWhile (· = '/') ≠ [] := by
    obtain ⟨l, hl⟩ := List.isPrefixOf_iff_prefix.mp h
    rw [← hl, List.cons_append, List.takeWhile_cons_of_pos (by rfl)]
    exact List.cons_ne_nil _ _
  have hnames : ∀ name ∈ ((path.toList.splitOn '/').map String.ofList).filter fun name => name ≠ "" ∧ name ≠ ".",
      PathName name := by
    intro name hname
    obtain ⟨hmem, hne⟩ := List.mem_filter.mp hname
    obtain ⟨part, hpart, rfl⟩ := List.mem_map.mp hmem
    rw [decide_eq_true_eq] at hne
    exact ⟨by simpa using notMem_of_mem_splitOn hpart, hne.1, hne.2⟩
  unfold pathParts
  dsimp only
  rw [if_neg hroot]
  split
  · exact ⟨_, _, rfl, .inr rfl, hnames⟩
  · exact ⟨_, _, rfl, .inl rfl, hnames⟩

/-- The characters of an absolute path with these parts. -/
theorem toList_joinParts (hroot : root = "/" ∨ root = "//") :
    (joinParts (root :: names)).toList = root.toList ++ ['/'].intercalate (names.map String.toList) := by
  rw [joinParts, if_pos hroot, String.toList_append, String.toList_intercalate]
  rfl

theorem splitOn_intercalate_names (hnames : ∀ name ∈ names, PathName name) (hne : names ≠ []) :
    ((['/'].intercalate (names.map String.toList)).splitOn '/').map String.ofList = names := by
  rw [List.splitOn_intercalate '/' (fun l hl => ?_) (by simpa using hne), List.map_map]
  · exact (List.map_congr_left fun name _ => String.ofList_toList).trans (List.map_id names)
  · obtain ⟨name, hname, rfl⟩ := List.mem_map.mp hl
    exact (hnames name hname).slash

/-- A path made of normal parts has these parts. -/
theorem pathParts_joinParts (hroot : root = "/" ∨ root = "//") (hnames : ∀ name ∈ names, PathName name) :
    pathParts (joinParts (root :: names)) = root :: names := by
  cases names with
  | nil => rcases hroot with rfl | rfl <;> decide +kernel
  | cons name names =>
    have hfilter : (name :: names).filter (fun name => name ≠ "" ∧ name ≠ ".") = name :: names :=
      List.filter_eq_self.mpr fun n hn => by
        rw [decide_eq_true_eq]
        exact ⟨(hnames n hn).ne_empty, (hnames n hn).ne_dot⟩
    have hsplit := splitOn_intercalate_names hnames (List.cons_ne_nil _ _)
    -- The first name starts with no slash.
    obtain ⟨c, rest, hc, hlist⟩ : ∃ c rest, c ≠ '/' ∧ ['/'].intercalate ((name :: names).map String.toList) =
      c :: rest := by
      have hname := hnames name List.mem_cons_self
      cases hl : name.toList with
      | nil => exact absurd (String.toList_eq_nil_iff.mp hl) hname.ne_empty
      | cons c l =>
        have hc : c ≠ '/' := fun heq => hname.slash (by simp [hl, heq])
        cases names with
        | nil => exact ⟨c, l, hc, by simp [hl]⟩
        | cons name' names =>
          exact ⟨c, _, hc, by rw [List.map_cons, List.map_cons, List.intercalate_cons_cons, hl]; rfl⟩
    unfold pathParts
    rw [toList_joinParts hroot]
    rw [hlist] at hsplit ⊢
    dsimp only
    rcases hroot with rfl | rfl
    · have htake : ("/".toList ++ c :: rest).takeWhile (fun x => decide (x = '/')) = ['/'] := by simp [hc]
      rw [htake]
      have hall : (("/".toList ++ c :: rest).splitOn '/').map String.ofList = "" :: name :: names := by
        rw [← hsplit]
        simp [List.splitOn_cons_eq_if_modifyHead (x := '/')]
      rw [hall, List.filter_cons_of_neg (by simp), hfilter]
      rfl
    · have htake : ("//".toList ++ c :: rest).takeWhile (fun x => decide (x = '/')) = ['/', '/'] := by simp [hc]
      rw [htake]
      have hall : (("//".toList ++ c :: rest).splitOn '/').map String.ofList = "" :: "" :: name :: names := by
        rw [← hsplit]
        simp [List.splitOn_cons_eq_if_modifyHead (x := '/')]
      rw [hall, List.filter_cons_of_neg (by simp), List.filter_cons_of_neg (by simp), hfilter]
      rfl

/-- What is accepted once is accepted again, as it is. -/
theorem validateDataPath_idem (h : validateDataPath path = .ok normalized) :
    validateDataPath normalized = .ok normalized := by
  obtain ⟨rfl, hne, hup, habs⟩ := validateDataPath_ok h
  obtain ⟨root, names, hparts, hroot, hnames⟩ := pathParts_absolute habs
  have hagain : pathParts (posixPath path) = root :: names := by
    rw [posixPath, hparts, pathParts_joinParts hroot hnames]
  have hslash : ['/'].isPrefixOf (posixPath path).toList = true := by
    rw [posixPath, hparts, toList_joinParts hroot]
    rcases hroot with rfl | rfl <;> rfl
  have hfix : posixPath (posixPath path) = posixPath path := by
    rw [posixPath, hagain, posixPath, hparts]
  have hdot : posixPath path ≠ "." := fun heq => by
    rw [heq] at hslash
    exact absurd hslash (by decide)
  unfold validateDataPath
  rw [if_pos hslash]
  dsimp only
  rw [hfix, if_neg]
  rw [hagain, ← hparts]
  push Not
  exact ⟨hne, hdot, hup⟩

end WorkerHarness.DataPaths
