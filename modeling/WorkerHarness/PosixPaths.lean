import WorkerHarness.CodePoints
import Mathlib.Data.List.DropRight
import Mathlib.Data.List.Infix

/-!
# Paths as texts

The functions of `os.path` on POSIX paths: joining, the directory of a path, and the normal form of an
absolute path. A file that is looked up in a directory stays that file when its path is normalized and its
directory is joined with its name again.
-/

namespace WorkerHarness.PosixPaths

open CodePoints

def slash : CodePoint := codePoint '/'

def isAbsolute (path : Str) : Bool := [slash].isPrefixOf path

/-- `os.path.join(path, name)` for a name that is not absolute. -/
def join (path name : Str) : Str :=
  if path = [] ∨ [slash].isSuffixOf path = true then path ++ name else path ++ slash :: name

/-- `os.path.dirname`. -/
def dirname (path : Str) : Str :=
  let head := path.rdropWhile (· ≠ slash)
  if head.all (· = slash) then head else head.rdropWhile (· = slash)

/-- The loop of `os.path.normpath` over the components of an absolute path. -/
def normalComponents (components : List Str) : List Str :=
  components.foldl (fun new component =>
    if component = [] ∨ component = str "." then new
    else if component ≠ str ".." ∨ new.getLast? = some (str "..") then new ++ [component]
    else new.dropLast) []

def initialSlashes (path : Str) : Str := if (path.takeWhile (· = slash)).length = 2 then [slash, slash] else [slash]

/-- `os.path.normpath` of an absolute path, which is its `os.path.abspath`. -/
def abspath (path : Str) : Str :=
  initialSlashes path ++ [slash].intercalate (normalComponents (path.splitOn slash))

/-- `os.path.commonpath` of two paths; a mixture of absolute and relative paths has none. -/
def commonpath (path other : Str) : Option Str :=
  let components (p : Str) : List Str := (p.splitOn slash).filter fun c => c ≠ [] ∧ c ≠ str "."
  let common := (((components path).zip (components other)).takeWhile fun c => c.1 = c.2).map Prod.fst
  if isAbsolute path ≠ isAbsolute other then none
  else some ((if isAbsolute path then [slash] else []) ++ [slash].intercalate common)

structure FileName (name : Str) : Prop where
  slash : slash ∉ name
  ne_empty : name ≠ []
  ne_dot : name ≠ str "."
  ne_up : name ≠ str ".."

variable {path name : Str} {components : List Str}

theorem splitOn_join (hname : FileName name) (hpath : isAbsolute path = true) :
    ∃ before, (join path name).splitOn slash = before ++ [name] := by
  have hsingle : name.splitOn slash = [name] := List.splitOn_eq_singleton hname.slash
  unfold join
  split
  · next h =>
    rcases h with rfl | h
    · cases hpath
    · obtain ⟨front, rfl⟩ := List.isSuffixOf_iff_suffix.mp h
      refine ⟨front.splitOn slash, ?_⟩
      rw [List.append_assoc, List.singleton_append, List.splitOn_append_cons_self, hsingle]
  · exact ⟨path.splitOn slash, by rw [List.splitOn_append_cons_self, hsingle]⟩

theorem normalComponents_append_singleton (hname : FileName name) :
    normalComponents (components ++ [name]) = normalComponents components ++ [name] := by
  unfold normalComponents
  rw [List.foldl_append, List.foldl_cons, List.foldl_nil, if_neg, if_pos (.inl hname.ne_up)]
  rintro (h | h)
  · exact hname.ne_empty h
  · exact hname.ne_dot h

theorem mem_normalComponents {components : List Str} {component : Str}
    (h : component ∈ normalComponents components) :
    component ∈ components ∧ component ≠ [] := by
  induction components using List.reverseRecOn with
  | nil => cases h
  | append_singleton components last ih =>
    unfold normalComponents at h ih
    rw [List.foldl_append, List.foldl_cons, List.foldl_nil] at h
    split at h
    · exact ⟨List.mem_append_left _ (ih h).1, (ih h).2⟩
    · next hlast =>
      split at h
      · rcases List.mem_append.mp h with h | h
        · exact ⟨List.mem_append_left _ (ih h).1, (ih h).2⟩
        · rw [List.mem_singleton.mp h]
          exact ⟨by simp, fun hnil => hlast (.inl hnil)⟩
      · exact ⟨List.mem_append_left _ (ih (List.mem_of_mem_dropLast h)).1, (ih (List.mem_of_mem_dropLast h)).2⟩

/-- The parts between separators have no separator. -/
theorem notMem_of_mem_splitOn {α : Type} [BEq α] [LawfulBEq α] {a : α} {l part : List α} (h : part ∈ l.splitOn a) :
    a ∉ part := by
  induction l generalizing part with
  | nil =>
    rw [List.splitOn_nil, List.mem_singleton] at h
    rw [h]
    exact List.not_mem_nil
  | cons c l ih =>
    rw [List.splitOn_cons_eq_if_modifyHead] at h
    split at h
    · rcases List.mem_cons.mp h with rfl | h
      · exact List.not_mem_nil
      · exact ih h
    · next hc =>
      obtain ⟨first, rest, hsplit⟩ := List.exists_cons_of_ne_nil (List.splitOn_ne_nil a l)
      rw [hsplit] at h ih
      rcases List.mem_cons.mp h with rfl | h
      · intro hmem
        rcases List.mem_cons.mp hmem with heq | hmem
        · exact hc (beq_iff_eq.mpr heq.symm)
        · exact ih (List.mem_cons_self) hmem
      · exact ih (List.mem_cons_of_mem _ h)

theorem mem_intercalate {α : Type} {a c : α} {part : List α} {parts : List (List α)} (h : part ∈ parts)
    (hc : c ∈ part) :
    c ∈ [a].intercalate parts := by
  induction parts with
  | nil => cases h
  | cons first parts ih =>
    cases parts with
    | nil =>
      rw [List.mem_singleton] at h
      rwa [List.intercalate_singleton, ← h]
    | cons second parts =>
      rw [List.intercalate_cons_cons]
      rcases List.mem_cons.mp h with rfl | h
      · exact List.mem_append_left _ (List.mem_append_left _ hc)
      · exact List.mem_append_right _ (ih h)

theorem mem_of_mem_splitOn {α : Type} [BEq α] [LawfulBEq α] {a c : α} {l part : List α} (h : part ∈ l.splitOn a)
    (hc : c ∈ part) : c ∈ l := by
  have hmem := mem_intercalate (a := a) h hc
  rwa [List.intercalate_splitOn] at hmem

theorem mem_of_mem_intercalate {α : Type} {a c : α} {parts : List (List α)} (h : c ∈ [a].intercalate parts) :
    c = a ∨ ∃ part ∈ parts, c ∈ part := by
  induction parts with
  | nil => simp at h
  | cons part parts ih =>
    cases parts with
    | nil => exact .inr ⟨part, List.mem_cons_self, by simpa using h⟩
    | cons part' parts =>
      rw [List.intercalate_cons_cons, List.mem_append, List.mem_append, List.mem_singleton] at h
      rcases h with (h | h) | h
      · exact .inr ⟨part, List.mem_cons_self, h⟩
      · exact .inl h
      · obtain h | ⟨p, hp, hc⟩ := ih h
        · exact .inl h
        · exact .inr ⟨p, List.mem_cons_of_mem _ hp, hc⟩

/-- What is spelled with slashes between names does not end with a slash. -/
theorem exists_last_of_intercalate (hne : components ≠ []) (h : ∀ c ∈ components, slash ∉ c ∧ c ≠ []) :
    ∃ front last, [slash].intercalate components = front ++ [last] ∧ last ≠ slash := by
  induction components with
  | nil => exact absurd rfl hne
  | cons c components ih =>
    cases components with
    | nil =>
      obtain ⟨hslash, hc⟩ := h c List.mem_cons_self
      obtain ⟨front, last, rfl⟩ := List.eq_nil_or_concat' c |>.resolve_left hc
      refine ⟨front, last, List.intercalate_singleton, ?_⟩
      rintro rfl
      exact hslash (by simp)
    | cons c' components =>
      obtain ⟨front, last, heq, hlast⟩ := ih (List.cons_ne_nil _ _) fun d hd => h d (List.mem_cons_of_mem _ hd)
      refine ⟨c ++ slash :: front, last, ?_, hlast⟩
      rw [List.intercalate_cons_cons, heq]
      simp

/-- Two lists of parts are joined by one more separator. -/
theorem intercalate_append {α : Type} {a : α} {parts parts' : List (List α)} (h : parts ≠ []) (h' : parts' ≠ []) :
    [a].intercalate (parts ++ parts') = [a].intercalate parts ++ a :: [a].intercalate parts' := by
  induction parts with
  | nil => exact absurd rfl h
  | cons part parts ih =>
    cases parts with
    | nil =>
      rw [List.singleton_append, List.intercalate_cons_of_ne_nil h', List.intercalate_singleton]
      simp
    | cons part' parts =>
      rw [List.cons_append, List.intercalate_cons_of_ne_nil (by simp), ih (List.cons_ne_nil _ _),
        List.intercalate_cons_of_ne_nil (List.cons_ne_nil _ _)]
      simp

theorem initialSlashes_cases (path : Str) : initialSlashes path = [slash] ∨
    initialSlashes path = [slash, slash] := by
  unfold initialSlashes
  split
  · exact .inr rfl
  · exact .inl rfl

/-- A directory as `dirname` gives it: one or two slashes, or a path that does not end with a slash. -/
def DirectoryForm (path : Str) : Prop :=
  path = [slash] ∨ path = [slash, slash] ∨ ∃ front last, path = front ++ [last] ∧ last ≠ slash

theorem DirectoryForm.ne_nil (h : DirectoryForm path) : path ≠ [] := by
  rcases h with rfl | rfl | ⟨front, last, rfl, -⟩
  · exact List.cons_ne_nil _ _
  · exact List.cons_ne_nil _ _
  · exact List.append_ne_nil_of_right_ne_nil _ (List.cons_ne_nil _ _)

theorem join_of_last {front : Str} {last : CodePoint} (h : last ≠ slash) :
    join (front ++ [last]) name = front ++ [last] ++ slash :: name := by
  rw [join, if_neg]
  rintro (hempty | hsuffix)
  · simp at hempty
  · obtain ⟨t, ht⟩ := List.isSuffixOf_iff_suffix.mp hsuffix
    have hend := congrArg List.getLast? ht
    simp only [List.getLast?_append, List.getLast?_singleton, Option.some_or, Option.some.injEq] at hend
    exact h hend.symm

theorem dirname_join (hname : FileName name) (hpath : DirectoryForm path) : dirname (join path name) = path := by
  have hstop : ∀ c ∈ name, decide (c ≠ slash) = true := fun c hc => decide_eq_true fun heq => hname.slash (heq ▸ hc)
  rcases hpath with rfl | rfl | ⟨front, last, rfl, hlast⟩
  · have hhead : (join [slash] name).rdropWhile (· ≠ slash) = [slash] := rdropWhile_append_of_forall hstop
    rw [dirname, hhead]
    rfl
  · have hhead : (join [slash, slash] name).rdropWhile (· ≠ slash) = [slash, slash] :=
      rdropWhile_append_of_forall hstop
    rw [dirname, hhead]
    rfl
  · have hhead : (front ++ [last] ++ slash :: name).rdropWhile (· ≠ slash) = front ++ [last] ++ [slash] := by
      have happend : front ++ [last] ++ slash :: name = front ++ [last] ++ [slash] ++ name := by simp
      rw [happend, rdropWhile_append_of_forall hstop, List.rdropWhile_concat_neg _ _ _ (by simp)]
    have hsome : ¬(front ++ [last] ++ [slash]).all (· = slash) = true := by
      simp [hlast]
    rw [join_of_last hlast, dirname, hhead, if_neg hsome, List.rdropWhile_concat_pos _ _ _ (by simp),
      List.rdropWhile_concat_neg _ _ _ (by simpa using hlast)]

/-- The absolute path of a file that is looked up in a directory. -/
theorem exists_directory (hname : FileName name) (hpath : isAbsolute path = true) :
    ∃ d, DirectoryForm d ∧ abspath (join path name) = join d name := by
  obtain ⟨before, hsplit⟩ := splitOn_join hname hpath
  have hslashes := initialSlashes_cases (join path name)
  unfold abspath
  generalize initialSlashes (join path name) = slashes at hslashes ⊢
  rw [hsplit, normalComponents_append_singleton hname]
  have hcomponents : ∀ c ∈ normalComponents before, slash ∉ c ∧ c ≠ [] := by
    intro c hc
    obtain ⟨hmem, hne⟩ := mem_normalComponents hc
    refine ⟨notMem_of_mem_splitOn (l := join path name) ?_, hne⟩
    rw [hsplit]
    exact List.mem_append_left _ hmem
  generalize normalComponents before = components at hcomponents ⊢
  by_cases hnil : components = []
  · subst hnil
    refine ⟨slashes, hslashes.imp_right .inl, ?_⟩
    rw [List.nil_append, List.intercalate_singleton]
    rcases hslashes with rfl | rfl <;> rfl
  · obtain ⟨front, last, heq, hlast⟩ := exists_last_of_intercalate hnil hcomponents
    have hform : DirectoryForm (slashes ++ front ++ [last]) := .inr (.inr ⟨_, _, rfl, hlast⟩)
    refine ⟨slashes ++ front ++ [last], hform, ?_⟩
    rw [intercalate_append hnil (List.cons_ne_nil _ _), heq, List.intercalate_singleton, join_of_last hlast]
    simp

/-- Only slashes are added by normalizing. -/
theorem mem_abspath {c : CodePoint} (h : c ∈ abspath path) : c ∈ path ∨ c = slash := by
  unfold abspath at h
  rcases List.mem_append.mp h with h | h
  · rcases initialSlashes_cases path with heq | heq <;> simp_all
  · rcases mem_of_mem_intercalate h with rfl | ⟨component, hmem, hc⟩
    · exact .inr rfl
    · exact .inl (mem_of_mem_splitOn (mem_normalComponents hmem).1 hc)

theorem mem_of_mem_dirname {c : CodePoint} (h : c ∈ dirname path) : c ∈ path := by
  unfold dirname at h
  dsimp only at h
  split at h
  · exact (List.rdropWhile_prefix _ _).subset h
  · exact (List.rdropWhile_prefix _ _).subset ((List.rdropWhile_prefix _ _).subset h)

end WorkerHarness.PosixPaths
