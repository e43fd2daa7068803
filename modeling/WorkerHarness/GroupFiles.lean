import WorkerHarness.JsonTexts
import WorkerHarness.PosixPaths
import WorkerHarness.TextLines
import Mathlib.Data.List.Forall2
import Mathlib.Data.List.Nodup
import Mathlib.Logic.Function.Basic

/-!
# The group file of a worker container

The groups of the image are merged with those of the host. The lines are numbered as they are read, with the
empty ones, and kept without them; the numbers are then taken for places among the lines that are kept.
-/

namespace WorkerHarness.GroupFiles

open CodePoints TextLines PosixPaths

def colon : CodePoint := codePoint ':'

def comma : CodePoint := codePoint ','

def newline : CodePoint := codePoint '\n'

/-- `line.split(":")` -/
def fields (line : Str) : List Str := line.splitOn colon

/-- `[m for m in field.split(",") if m]` -/
def memberList (field : Str) : List Str := (field.splitOn comma).filter (· ≠ [])

/-- `group_lines` and `by_gid` -/
structure Groups where
  lines : List Str := []
  byGid : Str → Option ℕ := fun _ => none

def readLine (idx : ℕ) (line : Str) (groups : Groups) : Groups :=
  if line = [] then groups
  else if (fields line).length < 4 then { groups with lines := groups.lines ++ [line] }
  else
    { lines := groups.lines ++ [line], byGid := Function.update groups.byGid ((fields line).getD 2 []) (some idx) }

/-- The lines from number `idx` on. -/
def readLines : ℕ → List Str → Groups → Groups
  | _, [], groups => groups
  | idx, line :: lines, groups => readLines (idx + 1) lines (readLine idx line groups)

def withMember (user line : Str) : Str :=
  let parts := fields line ++ List.replicate (4 - (fields line).length) []
  let members := memberList (parts.getD 3 [])
  let members := if user ∈ members then members else members ++ [user]
  [colon].intercalate ((parts.set 3 ([comma].intercalate members)).take 4)

/-- The name of a group: what `getent group` prints of it, if it prints something. -/
def groupName (output : Option Str) (groupId : Str) : Str :=
  let resolved := (output.map stripText).getD []
  if resolved ≠ [] then (fields resolved).headD [] else str "whg" ++ groupId

def newGroup (getent : Str → Option Str) (user groupId : Str) : Str :=
  [colon].intercalate [groupName (getent groupId) groupId, str "x", groupId, user]

inductive MergeError
  | indexError

def addMembership (getent : Str → Option Str) (user : Str) (groups : Groups) (groupId : Str) :
    Except MergeError Groups :=
  match groups.byGid groupId with
  | some idx =>
    match groups.lines[idx]? with
    | some line => .ok { groups with lines := groups.lines.set idx (withMember user line) }
    | none => .error .indexError
  | none => .ok { groups with lines := groups.lines ++ [newGroup getent user groupId] }

def mergeGroups (getent : Str → Option Str) (user : Str) (hostGroupIds : List Str) (baseGroup : Str) :
    Except MergeError Str :=
  (hostGroupIds.foldlM (addMembership getent user) (readLines 0 (splitlines baseGroup) {})).map fun groups =>
    [newline].intercalate groups.lines ++ [newline]

def isBlank (line : Str) : Bool := line.all isWhitespace

def gidOf (line : Str) : Option Str := if (fields line).length < 4 then none else some ((fields line).getD 2 [])

/-- The name of an account; it separates neither fields nor members. -/
structure AccountName where
  name : Str
  ne_nil : name ≠ []
  ordinary : ∀ c ∈ name, c ≠ colon ∧ c ≠ comma ∧ isLineBreak c = false

structure BaseFile where
  text : Str
  wellFormed : ∀ line ∈ splitlines text, isBlank line = true ∨ (fields line).length = 4
  distinct : ((splitlines text).filterMap gidOf).Nodup

/-- What `id -G` prints. -/
structure HostGroups where
  ids : List Str
  decimal : ∀ id ∈ ids, ∀ c ∈ id, JsonTexts.isDigit c = true
  distinct : ids.Nodup

/-- `getent group` prints at most one line for an id. -/
structure GroupDatabase where
  getent : Str → Option Str
  single : ∀ id output, getent id = some output → ∀ c ∈ stripText output, isLineBreak c = false

def entries (text : Str) : List Str := (splitlines text).filter fun line => !isBlank line

/-- A group of the base file is kept; the user joins it if the host has its id. -/
def Kept (user : Str) (ids : List Str) (line line' : Str) : Prop :=
  ∃ name password gid members members', fields line = [name, password, gid, members] ∧
    fields line' = [name, password, gid, members'] ∧
    memberList members' = if gid ∈ ids ∧ user ∉ memberList members then memberList members ++
      [user] else memberList members

def Added (user gid line : Str) : Prop :=
  ∃ name members, fields line = [name, str "x", gid, members] ∧ memberList members = [user]

def absentIds (base : Str) (ids : List Str) : List Str :=
  ids.filter fun id => id ∉ (splitlines base).filterMap gidOf

/-- The written file has the groups of the base file in order and then one group for each other id. -/
def Merges (base : Str) (ids : List Str) (user : Str) (result : Except MergeError Str) : Prop :=
  ∃ out kept added, result = .ok out ∧ entries out = kept ++ added ∧
    List.Forall₂ (Kept user ids) (entries base) kept ∧
    List.Forall₂ (Added user) (absentIds base ids) added

def keptLines (base : Str) : List Str := (splitlines base).filter (· ≠ [])

def lineNumber (base gid : Str) : Option ℕ := (splitlines base).findIdx? fun line => gidOf line = some gid

def lineNumbers (base : Str) (ids : List Str) : List ℕ := ids.filterMap (lineNumber base)

/-- Every number is a place among the lines that are kept or that were added before. A kept line at such a
place is a group that the user is or becomes a member of, and every group the user must join is at one. -/
structure Aligned (base : Str) (ids : List Str) (user : Str) : Prop where
  inRange : ∀ earlier id later number, ids = earlier ++ id :: later → lineNumber base id = some number →
    number < (keptLines base).length + (absentIds base earlier).length
  granted : ∀ number ∈ lineNumbers base ids, ∀ line, (keptLines base)[number]? = some line →
    ∃ name password gid members, fields line = [name, password, gid, members] ∧
      (gid ∈ ids ∨ user ∈ memberList members)
  joined : ∀ number line name password gid members, (keptLines base)[number]? = some line →
    fields line = [name, password, gid, members] → gid ∈ ids → user ∈ memberList members ∨
      number ∈ lineNumbers base ids

variable {base line user gid : Str} {ids : List Str} {lines : List Str} {groups : Groups} {idx number : ℕ}
    {getent : Str → Option Str}
  {name password members : Str}

theorem lines_readLine (idx : ℕ) (line : Str) (groups : Groups) :
    (readLine idx line groups).lines = groups.lines ++ [line].filter (· ≠ []) := by
  unfold readLine
  by_cases hnil : line = []
  · simp [hnil]
  · rw [if_neg hnil, List.filter_singleton]
    split <;> simp [hnil]

theorem lines_readLines (lines : List Str) (idx : ℕ) (groups : Groups) :
    (readLines idx lines groups).lines = groups.lines ++ lines.filter (· ≠ []) := by
  induction lines generalizing idx groups with
  | nil => exact (List.append_nil _).symm
  | cons line lines ih =>
    rw [readLines, ih, lines_readLine, List.append_assoc, ← List.filter_append, List.singleton_append]

/-- The fields of the empty line are one. -/
theorem gidOf_nil : gidOf [] = none := rfl

theorem byGid_readLine (idx : ℕ) (line : Str) (groups : Groups) (gid : Str) :
    (readLine idx line groups).byGid gid = if gidOf line = some gid then some idx else groups.byGid gid := by
  unfold readLine
  by_cases hnil : line = []
  · rw [if_pos hnil, hnil, gidOf_nil]
    rfl
  · rw [if_neg hnil, gidOf]
    by_cases hlt : (fields line).length < 4
    · rw [if_pos hlt, if_pos hlt]
      rfl
    · rw [if_neg hlt, if_neg hlt]
      by_cases hgid : gid = (fields line).getD 2 []
      · subst hgid
        simp
      · rw [if_neg fun h => hgid (Option.some.inj h).symm]
        exact Function.update_of_ne hgid _ _

/-- With an id for each group, an id has the number of its line. -/
theorem byGid_readLines (h : (lines.filterMap gidOf).Nodup) (idx : ℕ) (groups : Groups) (gid : Str) :
    (readLines idx lines groups).byGid gid =
      ((lines.findIdx? fun line => gidOf line = some gid).map (· + idx)).or (groups.byGid gid) := by
  induction lines generalizing idx groups with
  | nil => rfl
  | cons line lines ih =>
    have htail : (lines.filterMap gidOf).Nodup := h.sublist ((List.sublist_cons_self line lines).filterMap gidOf)
    rw [readLines, ih htail, byGid_readLine, List.findIdx?_cons]
    by_cases hgid : gidOf line = some gid
    · have hrest : (lines.findIdx? fun line => gidOf line = some gid) = none := by
        rw [List.filterMap_cons_some hgid, List.nodup_cons] at h
        apply List.findIdx?_eq_none_iff.mpr
        intro line' hline'
        simpa using fun heq => h.1 (List.mem_filterMap.mpr ⟨line', hline', heq⟩)
      simp [hgid, hrest]
    · rw [if_neg hgid, if_neg (by simpa using hgid), Option.map_map]
      have hshift : ((· + idx) ∘ (· + 1) : ℕ → ℕ) = (· + (idx + 1)) := by
        funext k
        simp only [Function.comp_apply]
        omega
      rw [hshift]

/-- The lines that are kept, and the number of each id. -/
theorem readLines_spec (base : BaseFile) :
    readLines 0 (splitlines base.text) {} = ⟨keptLines base.text, lineNumber base.text⟩ := by
  have hlines := lines_readLines (splitlines base.text) 0 {}
  have hnumbers : (readLines 0 (splitlines base.text) {}).byGid = lineNumber base.text := by
    funext gid
    rw [byGid_readLines base.distinct]
    simp [lineNumber]
  cases hread : readLines 0 (splitlines base.text) {} with
  | mk lines byGid =>
    rw [hread] at hlines hnumbers
    dsimp only at hlines hnumbers
    rw [hlines, hnumbers, List.nil_append, keptLines]

theorem colon_notMem_of_mem_fields {field : Str} (h : field ∈ fields line) : colon ∉ field :=
  notMem_of_mem_splitOn h

theorem fields_join {parts : List Str} (h : ∀ part ∈ parts, colon ∉ part) (hne : parts ≠ []) :
    fields ([colon].intercalate parts) = parts :=
  List.splitOn_intercalate colon h hne

theorem memberList_join {list : List Str} (h : ∀ m ∈ list, comma ∉ m ∧ m ≠ []) (hne : list ≠ []) :
    memberList ([comma].intercalate list) = list := by
  rw [memberList, List.splitOn_intercalate comma (fun m hm => (h m hm).1) hne, List.filter_eq_self]
  exact fun m hm => by simpa using (h m hm).2

def joinedMembers (user field : Str) : List Str :=
  if user ∈ memberList field then memberList field else memberList field ++ [user]

theorem joinedMembers_ne_nil (user field : Str) : joinedMembers user field ≠ [] := by
  unfold joinedMembers
  split
  · next hmem => exact List.ne_nil_of_mem hmem
  · simp

theorem mem_joinedMembers {m : Str} (h : m ∈ joinedMembers user members) : m ∈ memberList members ∨ m = user := by
  unfold joinedMembers at h
  split at h
  · exact .inl h
  · simpa using h

theorem memberList_joinedMembers (user : AccountName) (field : Str) :
    memberList ([comma].intercalate (joinedMembers user.name field)) = joinedMembers user.name field := by
  apply memberList_join _ (joinedMembers_ne_nil _ _)
  intro m hm
  rcases mem_joinedMembers hm with hm | rfl
  · obtain ⟨hsplit, hne⟩ := List.mem_filter.mp hm
    exact ⟨notMem_of_mem_splitOn hsplit, by simpa using hne⟩
  · exact ⟨fun hcomma => (user.ordinary _ hcomma).2.1 rfl, user.ne_nil⟩

theorem withMember_eq (user : Str) (h : fields line = [name, password, gid, members]) :
    withMember user line = [colon].intercalate
    [name, password, gid, [comma].intercalate (joinedMembers user members)] := by
  rw [withMember, h]
  rfl

/-- Only the members of a group change. -/
theorem fields_withMember (user : AccountName) (h : fields line = [name, password, gid, members]) :
    fields (withMember user.name line) = [name, password, gid,
      [comma].intercalate (joinedMembers user.name members)] := by
  have hfield : ∀ field ∈ [name, password, gid, members], colon ∉ field := fun field hfield =>
    colon_notMem_of_mem_fields (h ▸ hfield)
  rw [withMember_eq _ h]
  apply fields_join _ (List.cons_ne_nil _ _)
  simp only [List.forall_mem_cons] at hfield ⊢
  refine ⟨hfield.1, hfield.2.1, hfield.2.2.1, fun hcolon => ?_, fun x hx => absurd hx List.not_mem_nil⟩
  rcases mem_of_mem_intercalate hcolon with hcomma | ⟨m, hm, hcolon⟩
  · exact absurd hcomma (by decide)
  · rcases mem_joinedMembers hm with hm | rfl
    · exact hfield.2.2.2.1 (mem_of_mem_splitOn (List.mem_filter.mp hm).1 hcolon)
    · exact (user.ordinary _ hcolon).1 rfl

/-- A kept group whose line is written again must be one that the user is or becomes a member of. -/
theorem kept_withMember_iff (user : AccountName) (h : fields line = [name, password, gid, members]) :
    Kept user.name ids line (withMember user.name line) ↔ gid ∈ ids ∨ user.name ∈ memberList members := by
  have hwritten := fields_withMember user h
  constructor
  · rintro ⟨name', password', gid', members', written, hread, hwrite, hmembers⟩
    rw [h] at hread
    rw [hwritten] at hwrite
    cases hread
    cases hwrite
    rw [memberList_joinedMembers, joinedMembers] at hmembers
    by_cases hmem : user.name ∈ memberList members
    · exact .inr hmem
    · rw [if_neg hmem] at hmembers
      by_cases hgid : gid ∈ ids
      · exact .inl hgid
      · rw [if_neg fun hboth => hgid hboth.1] at hmembers
        exact absurd hmembers (by simp)
  · intro hjoin
    refine ⟨name, password, gid, members, _, h, hwritten, ?_⟩
    rw [memberList_joinedMembers, joinedMembers]
    by_cases hmem : user.name ∈ memberList members
    · rw [if_pos hmem, if_neg fun hboth => hboth.2 hmem]
    · rw [if_neg hmem, if_pos ⟨hjoin.resolve_right hmem, hmem⟩]

/-- A kept group whose line stays must be one that the user need not join. -/
theorem kept_self_iff (h : fields line = [name, password, gid, members]) :
    Kept user ids line line ↔ (gid ∈ ids → user ∈ memberList members) := by
  constructor
  · rintro ⟨name', password', gid', members', written, hread, hwrite, hmembers⟩ hgid
    rw [h] at hread hwrite
    cases hread
    cases hwrite
    by_contra hmem
    rw [if_pos ⟨hgid, hmem⟩] at hmembers
    exact absurd hmembers (by simp)
  · intro hjoin
    refine ⟨name, password, gid, members, members, h, h, ?_⟩
    rw [if_neg fun hboth => hboth.2 (hjoin hboth.1)]

theorem digit_ne {c : CodePoint} (h : JsonTexts.isDigit c = true) : c ≠ colon ∧ isLineBreak c = false := by
  simp only [JsonTexts.isDigit, Bool.and_eq_true, decide_eq_true_eq] at h
  refine ⟨fun heq => ?_, ?_⟩
  · subst heq
    exact absurd h (by decide)
  · simp only [isLineBreak, decide_eq_false_iff_not, List.mem_cons, List.not_mem_nil, or_false]
    omega

theorem ordinary_groupName (database : GroupDatabase) (hdigits : ∀ c ∈ gid, JsonTexts.isDigit c = true) :
    ∀ c ∈ groupName (database.getent gid) gid, c ≠ colon ∧ isLineBreak c = false := by
  intro c hc
  have hprefix : ((str "whg").all fun c => decide (c ≠ colon) && !isLineBreak c) = true := by decide
  unfold groupName at hc
  dsimp only at hc
  split at hc
  · next hresolved =>
    cases houtput : database.getent gid with
    | none => exact absurd (by rw [houtput]; rfl) hresolved
    | some output =>
      rw [houtput] at hc
      obtain ⟨first, rest, hfields⟩ := List.exists_cons_of_ne_nil (List.splitOn_ne_nil colon (stripText output))
      simp only [Option.map_some, Option.getD_some, fields, hfields, List.headD_cons] at hc
      have hfirst : first ∈ (stripText output).splitOn colon := hfields ▸ List.mem_cons_self
      refine ⟨?_, database.single gid output houtput c (mem_of_mem_splitOn hfirst hc)⟩
      rintro rfl
      exact notMem_of_mem_splitOn hfirst hc
  · rcases List.mem_append.mp hc with hc | hc
    · simpa using List.all_eq_true.mp hprefix c hc
    · exact digit_ne (hdigits c hc)

theorem fields_newGroup (database : GroupDatabase) (user : AccountName)
    (hdigits : ∀ c ∈ gid, JsonTexts.isDigit c = true) :
    fields (newGroup database.getent user.name gid) =
    [groupName (database.getent gid) gid, str "x", gid, user.name] := by
  apply fields_join _ (List.cons_ne_nil _ _)
  have hx : colon ∉ str "x" := by decide
  simp only [List.forall_mem_cons]
  exact ⟨fun hc => (ordinary_groupName database hdigits _ hc).1 rfl, hx, fun hc => (digit_ne (hdigits _ hc)).1 rfl,
    fun hc => (user.ordinary _ hc).1 rfl, fun x hx => absurd hx List.not_mem_nil⟩

theorem memberList_user (user : AccountName) : memberList user.name = [user.name] := by
  rw [memberList, List.splitOn_eq_singleton fun hc => (user.ordinary _ hc).2.1 rfl, List.filter_singleton]
  simp [user.ne_nil]

theorem added_newGroup (database : GroupDatabase) (user : AccountName)
    (hdigits : ∀ c ∈ gid, JsonTexts.isDigit c = true) :
    Added user.name gid (newGroup database.getent user.name gid) :=
  ⟨_, _, fields_newGroup database user hdigits, memberList_user user⟩

/-- The user is a member of a new group already. -/
theorem withMember_newGroup (database : GroupDatabase) (user : AccountName)
    (hdigits : ∀ c ∈ gid, JsonTexts.isDigit c = true) :
    withMember user.name (newGroup database.getent user.name gid) = newGroup database.getent user.name gid := by
  rw [withMember_eq _ (fields_newGroup database user hdigits), joinedMembers, memberList_user,
    if_pos List.mem_cons_self,
    List.intercalate_singleton, newGroup]

theorem colon_mem_withMember (user line : Str) : colon ∈ withMember user line := by
  unfold withMember
  dsimp only
  generalize memberList _ = list
  have hlength : 4 ≤ (fields line ++ List.replicate (4 - (fields line).length) []).length := by
    rw [List.length_append, List.length_replicate]
    omega
  generalize fields line ++ List.replicate (4 - (fields line).length) [] = parts at hlength
  match parts, hlength with
  | a :: b :: c :: d :: parts, _ =>
    simp only [List.set_cons_succ, List.set_cons_zero, List.take_succ_cons, List.intercalate_cons_cons]
    simp

theorem colon_mem_newGroup (getent : Str → Option Str) (user gid : Str) : colon ∈ newGroup getent user gid := by
  simp [newGroup, List.intercalate_cons_cons]

theorem isBlank_of_colon_mem (h : colon ∈ line) : isBlank line = false := by
  rw [isBlank, List.all_eq_false]
  exact ⟨colon, h, by decide⟩

/-- A blank line is one field. -/
theorem fields_of_isBlank (h : isBlank line = true) : fields line = [line] := by
  apply List.splitOn_eq_singleton
  intro hc
  rw [isBlank_of_colon_mem hc] at h
  cases h

theorem single_withMember (user : AccountName) (h : ∀ c ∈ line, isLineBreak c = false) :
    ∀ c ∈ withMember user.name line, isLineBreak c = false := by
  have hcolon : isLineBreak colon = false := by decide
  have hcomma : isLineBreak comma = false := by decide
  have hparts : ∀ part ∈ fields line ++ List.replicate (4 - (fields line).length) [], ∀ c ∈ part,
    isLineBreak c = false := by
    intro part hpart c hc
    rcases List.mem_append.mp hpart with hpart | hpart
    · exact h c (mem_of_mem_splitOn hpart hc)
    · rw [List.eq_of_mem_replicate hpart] at hc
      exact absurd hc List.not_mem_nil
  intro c hc
  rcases mem_of_mem_intercalate hc with rfl | ⟨part, hpart, hc⟩
  · exact hcolon
  rcases List.mem_or_eq_of_mem_set (List.mem_of_mem_take hpart) with hpart | rfl
  · exact hparts part hpart c hc
  rcases mem_of_mem_intercalate hc with rfl | ⟨m, hm, hc⟩
  · exact hcomma
  rcases mem_joinedMembers hm with hm | rfl
  · have hfield := mem_of_mem_splitOn (List.mem_filter.mp hm).1 hc
    rw [List.getD_eq_getElem?_getD] at hfield
    cases hget : (fields line ++ List.replicate (4 - (fields line).length) [])[3]? with
    | none =>
      rw [hget] at hfield
      exact absurd hfield List.not_mem_nil
    | some part =>
      rw [hget] at hfield
      exact hparts part (List.mem_of_getElem? hget) c hfield
  · exact (user.ordinary c hc).2.2

theorem single_newGroup (database : GroupDatabase) (user : AccountName)
    (hdigits : ∀ c ∈ gid, JsonTexts.isDigit c = true) :
    ∀ c ∈ newGroup database.getent user.name gid, isLineBreak c = false := by
  have hcolon : isLineBreak colon = false := by decide
  have hx : ((str "x").all fun c => !isLineBreak c) = true := by decide
  intro c hc
  rcases mem_of_mem_intercalate hc with rfl | ⟨part, hpart, hmem⟩
  · exact hcolon
  simp only [List.mem_cons, List.not_mem_nil, or_false] at hpart
  rcases hpart with rfl | rfl | rfl | rfl
  · exact (ordinary_groupName database hdigits c hmem).2
  · simpa using List.all_eq_true.mp hx c hmem
  · exact (digit_ne (hdigits c hmem)).2
  · exact (user.ordinary c hmem).2.2

/-- Lines that are joined are read back. -/
theorem splitlines_join (h : ∀ line ∈ lines, ∀ c ∈ line, isLineBreak c = false) (hne : lines ≠ []) :
    splitlines ([newline].intercalate lines ++ [newline]) = lines := by
  induction lines with
  | nil => exact absurd rfl hne
  | cons line lines ih =>
    obtain ⟨hline, hlines⟩ := List.forall_mem_cons.mp h
    cases lines with
    | nil =>
      rw [List.intercalate_singleton]
      exact splitlines_append hline []
    | cons line' lines =>
      have hrest := splitlines_append hline ([newline].intercalate (line' :: lines) ++ [newline])
      rw [ih hlines (List.cons_ne_nil _ _)] at hrest
      rw [List.intercalate_cons_cons, List.append_assoc, List.append_assoc, List.singleton_append]
      exact hrest

theorem entries_join (h : ∀ line ∈ lines, ∀ c ∈ line, isLineBreak c = false) :
    entries ([newline].intercalate lines ++ [newline]) = lines.filter fun line => !isBlank line := by
  by_cases hnil : lines = []
  · rw [hnil]
    rfl
  · rw [entries, splitlines_join h hnil]

def marked (user : Str) (numbers : List ℕ) (lines : List Str) : List Str :=
  lines.mapIdx fun i line => if i ∈ numbers then withMember user line else line

def mergedLines (getent : Str → Option Str) (user base : Str) (ids : List Str) : List Str :=
  marked user (lineNumbers base ids) (keptLines base) ++ (absentIds base ids).map (newGroup getent user)

theorem lineNumber_eq_none_iff : lineNumber base gid = none ↔ gid ∉ (splitlines base).filterMap gidOf := by
  simp [lineNumber, List.mem_filterMap]

/-- The line with a number has the id. -/
theorem gidOf_of_lineNumber (h : lineNumber base gid = some number) :
    ∃ line, (splitlines base)[number]? = some line ∧ gidOf line = some gid := by
  obtain ⟨hlt, hgid, -⟩ := List.findIdx?_eq_some_iff_getElem.mp h
  exact ⟨_, List.getElem?_eq_getElem hlt, by simpa using hgid⟩

theorem lineNumber_injective {gid' : Str} (h : lineNumber base gid = some number)
    (h' : lineNumber base gid' = some number) : gid = gid' := by
  obtain ⟨line, hline, hgid⟩ := gidOf_of_lineNumber h
  obtain ⟨line', hline', hgid'⟩ := gidOf_of_lineNumber h'
  rw [hline] at hline'
  cases hline'
  rw [hgid] at hgid'
  exact Option.some.inj hgid'

theorem length_marked (user : Str) (numbers : List ℕ) (lines : List Str) :
    (marked user numbers lines).length = lines.length :=
  List.length_mapIdx

theorem getElem?_marked (user : Str) (numbers : List ℕ) (lines : List Str) (i : ℕ) :
    (marked user numbers lines)[i]? = lines[i]?.map fun line =>
    if i ∈ numbers then withMember user line else line :=
  List.getElem?_mapIdx

/-- One more line gets the user. -/
theorem set_marked {numbers : List ℕ} (h : lines[number]? = some line) :
    (marked user numbers lines).set number (withMember user line) = marked user (numbers ++ [number]) lines := by
  apply List.ext_getElem?
  intro i
  rw [List.getElem?_set, getElem?_marked, getElem?_marked, length_marked]
  by_cases hi : number = i
  · subst hi
    have hlt : number < lines.length := (List.getElem?_eq_some_iff.mp h).1
    rw [if_pos rfl, if_pos hlt, h, Option.map_some, if_pos (by simp)]
  · rw [if_neg hi]
    have hmem : i ∈ numbers ++ [number] ↔ i ∈ numbers := by simp [Ne.symm hi]
    simp only [hmem]

/-- A number beyond the kept lines marks none of them. -/
theorem marked_of_le {numbers : List ℕ} (h : lines.length ≤ number) :
    marked user (numbers ++ [number]) lines = marked user numbers lines := by
  apply List.ext_getElem?
  intro i
  rw [getElem?_marked, getElem?_marked]
  rcases Nat.lt_or_ge i lines.length with hi | hi
  · have hmem : i ∈ numbers ++ [number] ↔ i ∈ numbers := by
      simp only [List.mem_append, List.mem_singleton, or_iff_left_iff_imp]
      omega
    simp only [hmem]
  · rw [List.getElem?_eq_none hi]
    rfl

section Merge

variable {database : GroupDatabase} {account : AccountName}

/-- The id of a group that the base file has. -/
theorem addMembership_present (hdigits : ∀ id ∈ ids, ∀ c ∈ id, JsonTexts.isDigit c = true) (hfresh : gid ∉ ids)
    (hnumber : lineNumber base gid = some number)
    (hlt : number < (keptLines base).length + (absentIds base ids).length) :
    addMembership database.getent account.name ⟨mergedLines database.getent account.name base ids,
      lineNumber base⟩ gid =
      .ok ⟨mergedLines database.getent account.name base (ids ++ [gid]), lineNumber base⟩ := by
  have habsent : absentIds base (ids ++ [gid]) = absentIds base ids := by
    have hpresent : ¬(gid ∉ (splitlines base).filterMap gidOf) := by
      rw [← lineNumber_eq_none_iff, hnumber]
      simp
    rw [absentIds, List.filter_append, List.filter_cons_of_neg (by simpa using hpresent), List.filter_nil,
      List.append_nil, absentIds]
  have hnumbers : lineNumbers base (ids ++ [gid]) = lineNumbers base ids ++ [number] := by
    rw [lineNumbers, List.filterMap_append, List.filterMap_cons_some hnumber, List.filterMap_nil, lineNumbers]
  have hnew : number ∉ lineNumbers base ids := by
    intro hmem
    obtain ⟨gid', hgid', hsame⟩ := List.mem_filterMap.mp hmem
    rw [lineNumber_injective hnumber hsame] at hfresh
    exact hfresh hgid'
  rw [addMembership]
  dsimp only
  rw [hnumber]
  dsimp only
  rw [mergedLines, mergedLines, habsent, hnumbers]
  rcases Nat.lt_or_ge number (keptLines base).length with hkept | hkept
  · have hline := List.getElem?_eq_getElem hkept
    rw [List.getElem?_append_left (by rwa [length_marked]), getElem?_marked, hline, Option.map_some, if_neg hnew]
    dsimp only
    rw [List.set_append_left _ _ (by rwa [length_marked]), set_marked hline]
  · -- The number is that of a group that was added, and the user is its member already.
    have hplace : number - (keptLines base).length < (absentIds base ids).length := by omega
    have hmem : (absentIds base ids)[number - (keptLines base).length] ∈ ids :=
      (List.mem_filter.mp (List.getElem_mem hplace)).1
    have hget : ((absentIds base ids).map
      (newGroup database.getent account.name))[number - (keptLines base).length]? =
        some (newGroup database.getent account.name (absentIds base ids)[number - (keptLines base).length]) := by
      rw [List.getElem?_map, List.getElem?_eq_getElem hplace, Option.map_some]
    rw [List.getElem?_append_right (by rwa [length_marked]), length_marked, hget, marked_of_le hkept]
    dsimp only
    obtain ⟨hlt, hself⟩ := List.getElem?_eq_some_iff.mp hget
    rw [withMember_newGroup database account (hdigits _ hmem), List.set_append_right _ _ (by rwa [length_marked]),
      length_marked,
      ← hself, List.set_getElem_self hlt]

theorem addMembership_outside (hnumber : lineNumber base gid = some number)
    (hge : (keptLines base).length + (absentIds base ids).length ≤ number) :
    addMembership database.getent account.name ⟨mergedLines database.getent account.name base ids,
      lineNumber base⟩ gid =
      .error .indexError := by
  have hlength : (mergedLines database.getent account.name base ids).length ≤ number := by
    rw [mergedLines, List.length_append, length_marked, List.length_map]
    exact hge
  rw [addMembership]
  dsimp only
  rw [hnumber]
  dsimp only
  rw [List.getElem?_eq_none hlength]

/-- The id of a group that only the host has. -/
theorem addMembership_absent (hnumber : lineNumber base gid = none) :
    addMembership database.getent account.name ⟨mergedLines database.getent account.name base ids,
      lineNumber base⟩ gid =
      .ok ⟨mergedLines database.getent account.name base (ids ++ [gid]), lineNumber base⟩ := by
  have habsent : absentIds base (ids ++ [gid]) = absentIds base ids ++ [gid] := by
    rw [absentIds, List.filter_append, List.filter_singleton, absentIds]
    simp [lineNumber_eq_none_iff.mp hnumber]
  have hnumbers : lineNumbers base (ids ++ [gid]) = lineNumbers base ids := by
    rw [lineNumbers, List.filterMap_append, List.filterMap_cons_none hnumber, List.filterMap_nil, List.append_nil,
      lineNumbers]
  rw [addMembership]
  dsimp only
  rw [hnumber]
  dsimp only
  rw [mergedLines, mergedLines, habsent, hnumbers, List.map_append, List.append_assoc, List.map_singleton]

def InRange (base : Str) (ids : List Str) : Prop :=
  ∀ earlier id later number, ids = earlier ++ id :: later → lineNumber base id = some number →
    number < (keptLines base).length + (absentIds base earlier).length

theorem inRange_concat : InRange base (ids ++ [gid]) ↔ InRange base ids ∧
    ∀ number, lineNumber base gid = some number →
      number < (keptLines base).length + (absentIds base ids).length := by
  constructor
  · intro h
    refine ⟨fun earlier id later number heq => h earlier id (later ++ [gid]) number ?_,
      fun number => h ids gid [] number rfl⟩
    rw [heq, List.append_assoc, List.cons_append]
  · rintro ⟨hids, hlast⟩ earlier id later number heq
    rcases List.eq_nil_or_concat later with rfl | ⟨later, last, rfl⟩
    · obtain ⟨rfl, hsingle⟩ := List.append_inj' heq rfl
      cases hsingle
      exact hlast number
    · rw [List.concat_eq_append, ← List.cons_append, ← List.append_assoc] at heq
      exact hids earlier id later number (List.append_inj' heq rfl).1

/-- The merge gets through all ids, or a number is no place. -/
theorem run_spec (base : Str) (database : GroupDatabase) (account : AccountName)
    (hdigits : ∀ id ∈ ids, ∀ c ∈ id, JsonTexts.isDigit c = true) (hids : ids.Nodup) :
    InRange base ids ∧ ids.foldlM (addMembership database.getent account.name) ⟨keptLines base, lineNumber base⟩ =
        .ok ⟨mergedLines database.getent account.name base ids, lineNumber base⟩ ∨
      ¬InRange base ids ∧ ids.foldlM (addMembership database.getent account.name)
      ⟨keptLines base, lineNumber base⟩ =
        .error .indexError := by
  induction ids using List.reverseRecOn with
  | nil =>
    refine .inl ⟨fun earlier id later number heq => absurd heq (by simp), ?_⟩
    have hmarked : marked account.name [] (keptLines base) = keptLines base :=
      List.ext_getElem? fun i => by simp [getElem?_marked]
    have hlines : mergedLines database.getent account.name base [] = keptLines base := by
      rw [mergedLines, absentIds, List.filter_nil, List.map_nil, List.append_nil, lineNumbers,
        List.filterMap_nil, hmarked]
    rw [hlines]
    rfl
  | append_singleton ids gid ih =>
    have hdigits' : ∀ id ∈ ids, ∀ c ∈ id, JsonTexts.isDigit c = true :=
      fun id hid => hdigits id (List.mem_append_left _ hid)
    obtain ⟨hids', -, hfresh⟩ := List.nodup_append.mp hids
    have hfresh : gid ∉ ids := fun hmem => hfresh gid hmem gid (List.mem_singleton_self gid) rfl
    rw [List.foldlM_append, inRange_concat]
    rcases ih hdigits' hids' with ⟨hrange, hrun⟩ | ⟨hrange, hrun⟩
    · rw [hrun]
      cases hnumber : lineNumber base gid with
      | none =>
        refine .inl ⟨⟨hrange, fun number h => by cases h⟩, ?_⟩
        change (addMembership _ _ _ gid >>= pure) = _
        rw [addMembership_absent hnumber]
        rfl
      | some number =>
        by_cases hlt : number < (keptLines base).length + (absentIds base ids).length
        · refine .inl ⟨⟨hrange, fun number' h => Option.some.inj h ▸ hlt⟩, ?_⟩
          change (addMembership _ _ _ gid >>= pure) = _
          rw [addMembership_present hdigits' hfresh hnumber hlt]
          rfl
        · refine .inr ⟨fun h => hlt (h.2 number rfl), ?_⟩
          change (addMembership _ _ _ gid >>= pure) = _
          rw [addMembership_outside hnumber (Nat.not_lt.mp hlt)]
          rfl
    · rw [hrun]
      exact .inr ⟨fun h => hrange h.1, rfl⟩

end Merge

/-- A kept line as it is written. -/
def written (user : Str) (numbers : List ℕ) (numbered : Str × ℕ) : Str :=
  if numbered.2 ∈ numbers then withMember user numbered.1 else numbered.1

theorem marked_eq (user : Str) (numbers : List ℕ) (lines : List Str) :
    marked user numbers lines = lines.zipIdx.map (written user numbers) :=
  List.mapIdx_eq_zipIdx_map

theorem entries_eq (base : Str) :
    entries base = ((keptLines base).zipIdx.filter fun numbered => !isBlank numbered.1).map Prod.fst := by
  have hmap : ((keptLines base).zipIdx.filter fun numbered => !isBlank numbered.1).map Prod.fst =
      ((keptLines base).zipIdx.map Prod.fst).filter fun line => !isBlank line := by rw [List.filter_map]; rfl
  have hblank : isBlank [] = true := rfl
  rw [hmap, List.zipIdx_map_fst, keptLines, List.filter_filter, entries]
  apply List.filter_congr
  intro line _
  by_cases hnil : line = []
  · rw [hnil, hblank]
    rfl
  · simp [hnil]

theorem single_mergedLines (base : Str) (database : GroupDatabase) (account : AccountName)
    (hdigits : ∀ id ∈ ids, ∀ c ∈ id, JsonTexts.isDigit c = true) :
    ∀ line ∈ mergedLines database.getent account.name base ids, ∀ c ∈ line, isLineBreak c = false := by
  intro line hline
  rcases List.mem_append.mp hline with hline | hline
  · obtain ⟨i, hi⟩ := List.mem_iff_getElem?.mp hline
    rw [getElem?_marked] at hi
    obtain ⟨line', hline', rfl⟩ := Option.map_eq_some_iff.mp hi
    have hkept : ∀ c ∈ line', isLineBreak c = false := fun c hc =>
      isLineBreak_of_mem_splitlines (List.mem_filter.mp (List.mem_of_getElem? hline')).1 hc
    split
    · exact single_withMember account hkept
    · exact hkept
  · obtain ⟨gid, hgid, rfl⟩ := List.mem_map.mp hline
    exact single_newGroup database account (hdigits gid (List.mem_filter.mp hgid).1)

/-- The entries of the written file are kept lines and new groups. -/
theorem entries_written (base : Str) (database : GroupDatabase) (account : AccountName)
    (hdigits : ∀ id ∈ ids, ∀ c ∈ id, JsonTexts.isDigit c = true) :
    entries ([newline].intercalate (mergedLines database.getent account.name base ids) ++ [newline]) =
      ((keptLines base).zipIdx.filter fun numbered => !isBlank
        (written account.name (lineNumbers base ids) numbered)).map
        (written account.name (lineNumbers base ids)) ++ (absentIds base ids).map
        (newGroup database.getent account.name) := by
  have hnew : ((absentIds base ids).map (newGroup database.getent account.name)).filter
    (fun line => !isBlank line) =
      (absentIds base ids).map (newGroup database.getent account.name) := by
    rw [List.filter_eq_self]
    intro line hline
    obtain ⟨gid, -, rfl⟩ := List.mem_map.mp hline
    rw [isBlank_of_colon_mem (colon_mem_newGroup _ _ _)]
    rfl
  rw [entries_join (single_mergedLines base database account hdigits), mergedLines, List.filter_append, hnew,
    marked_eq, List.filter_map]
  rfl

theorem isBlank_written (numbers : List ℕ) (numbered : Str × ℕ) (h : isBlank numbered.1 = false) :
    isBlank (written user numbers numbered) = false := by
  unfold written
  split
  · exact isBlank_of_colon_mem (colon_mem_withMember _ _)
  · exact h

theorem four_fields (h : (fields line).length = 4) : ∃ name password gid members,
    fields line = [name, password, gid, members] := by
  match hfields : fields line, h with
  | [name, password, gid, members], _ => exact ⟨name, password, gid, members, rfl⟩

theorem forall₂_added (base : Str) (database : GroupDatabase) (account : AccountName)
    (hdigits : ∀ id ∈ ids, ∀ c ∈ id, JsonTexts.isDigit c = true) :
    List.Forall₂ (Added account.name) (absentIds base ids)
    ((absentIds base ids).map (newGroup database.getent account.name)) := by
  rw [List.forall₂_map_right_iff, List.forall₂_same]
  intro gid hgid
  exact added_newGroup database account (hdigits gid (List.mem_filter.mp hgid).1)

def WrittenWell (base user : Str) (ids : List Str) : Prop :=
  ∀ numbered ∈ (keptLines base).zipIdx, (isBlank (written user (lineNumbers base ids) numbered) = false →
    isBlank numbered.1 = false ∧ Kept user ids numbered.1 (written user (lineNumbers base ids) numbered))

theorem merges_written_iff (base : Str) (database : GroupDatabase) (account : AccountName)
    (hdigits : ∀ id ∈ ids, ∀ c ∈ id, JsonTexts.isDigit c = true) :
    Merges base ids account.name
    (.ok ([newline].intercalate (mergedLines database.getent account.name base ids) ++ [newline])) ↔
      WrittenWell base account.name ids := by
  have hadded := forall₂_added base database account hdigits
  have hentries := entries_written base database account hdigits
  have hsub : ((keptLines base).zipIdx.filter fun numbered => !isBlank numbered.1).Sublist
      ((keptLines base).zipIdx.filter fun numbered => !isBlank
        (written account.name (lineNumbers base ids) numbered)) := by
    apply List.monotone_filter_right
    intro numbered h
    simp only [Bool.not_eq_true'] at h ⊢
    exact isBlank_written _ numbered h
  constructor
  · rintro ⟨out, kept, added, hout, hsplit, hkept, hadd⟩
    cases hout
    rw [hentries] at hsplit
    have hlength : added.length = ((absentIds base ids).map (newGroup database.getent account.name)).length := by
      rw [← hadd.length_eq, List.length_map]
    obtain ⟨rfl, rfl⟩ := List.append_inj' hsplit hlength.symm
    rw [entries_eq] at hkept
    have hsame := hsub.eq_of_length (by simpa using hkept.length_eq)
    rw [← hsame, List.forall₂_map_left_iff, List.forall₂_map_right_iff, List.forall₂_same] at hkept
    intro numbered hmem hwritten
    have hfilter : numbered ∈ (keptLines base).zipIdx.filter fun numbered => !isBlank numbered.1 := by
      rw [hsame]
      exact List.mem_filter.mpr ⟨hmem, by rw [hwritten]; rfl⟩
    exact ⟨by simpa using (List.mem_filter.mp hfilter).2, hkept numbered hfilter⟩
  · intro h
    have hsame : ((keptLines base).zipIdx.filter fun numbered => !isBlank
      (written account.name (lineNumbers base ids) numbered)) =
        (keptLines base).zipIdx.filter fun numbered => !isBlank numbered.1 := by
      apply List.filter_congr
      intro numbered hmem
      cases hwritten : isBlank (written account.name (lineNumbers base ids) numbered) with
      | false => rw [(h numbered hmem hwritten).1]
      | true =>
        cases hblank : isBlank numbered.1 with
        | false =>
          rw [isBlank_written _ numbered hblank] at hwritten
          cases hwritten
        | true => rfl
    refine ⟨_, _, _, rfl, hentries, ?_, hadded⟩
    rw [entries_eq, hsame, List.forall₂_map_left_iff, List.forall₂_map_right_iff, List.forall₂_same]
    intro numbered hfilter
    obtain ⟨hmem, hblank⟩ := List.mem_filter.mp hfilter
    exact (h numbered hmem (isBlank_written _ numbered (by simpa using hblank))).2

/-- The user gets into the lines of the right groups exactly when the numbers agree with the places. -/
theorem writtenWell_iff (base : BaseFile) (account : AccountName) : InRange base.text ids ∧
    WrittenWell base.text account.name ids ↔
    Aligned base.text ids account.name := by
  have hfour : ∀ line ∈ keptLines base.text, isBlank line = false →
      ∃ name password gid members, fields line = [name, password, gid, members] := by
    intro line hline hblank
    rcases base.wellFormed line (List.mem_filter.mp hline).1 with hblank' | hlength
    · rw [hblank] at hblank'
      cases hblank'
    · exact four_fields hlength
  have hnonblank : ∀ {line name password gid members}, fields line = [name, password, gid, members] →
    isBlank line = false := by
    intro line name password gid members hfields
    rw [← Bool.not_eq_true]
    intro hblank
    rw [fields_of_isBlank hblank] at hfields
    cases hfields
  constructor
  · rintro ⟨hrange, hwell⟩
    refine ⟨hrange, ?_, ?_⟩
    · intro number hnumber line hline
      have hwritten : written account.name (lineNumbers base.text ids) (line, number) =
        withMember account.name line := if_pos hnumber
      obtain ⟨hblank, hkept⟩ := hwell (line, number) (List.mk_mem_zipIdx_iff_getElem?.mpr hline)
        (by rw [hwritten]; exact isBlank_of_colon_mem (colon_mem_withMember _ _))
      obtain ⟨name, password, gid, members, hfields⟩ := hfour line (List.mem_of_getElem? hline) hblank
      rw [hwritten] at hkept
      exact ⟨name, password, gid, members, hfields, (kept_withMember_iff account hfields).mp hkept⟩
    · intro number line name password gid members hline hfields hgid
      by_cases hnumber : number ∈ lineNumbers base.text ids
      · exact .inr hnumber
      · have hwritten : written account.name (lineNumbers base.text ids) (line, number) = line := if_neg hnumber
        obtain ⟨-, hkept⟩ := hwell (line, number) (List.mk_mem_zipIdx_iff_getElem?.mpr hline)
          (by rw [hwritten]; exact hnonblank hfields)
        rw [hwritten] at hkept
        exact .inl ((kept_self_iff hfields).mp hkept hgid)
  · rintro ⟨hrange, hgranted, hjoined⟩
    refine ⟨hrange, ?_⟩
    rintro ⟨line, number⟩ hmem hwritten
    have hline := List.mk_mem_zipIdx_iff_getElem?.mp hmem
    by_cases hnumber : number ∈ lineNumbers base.text ids
    · obtain ⟨name, password, gid, members, hfields, hgid⟩ := hgranted number hnumber line hline
      have hwrite : written account.name (lineNumbers base.text ids) (line, number) =
        withMember account.name line := if_pos hnumber
      rw [hwrite]
      exact ⟨hnonblank hfields, (kept_withMember_iff account hfields).mpr hgid⟩
    · have hwrite : written account.name (lineNumbers base.text ids) (line, number) = line := if_neg hnumber
      rw [hwrite] at hwritten ⊢
      obtain ⟨name, password, gid, members, hfields⟩ := hfour line (List.mem_of_getElem? hline) hwritten
      refine ⟨hwritten, (kept_self_iff hfields).mpr fun hgid => ?_⟩
      exact (hjoined number line name password gid members hline hfields hgid).resolve_right hnumber

/-- The groups are merged as meant exactly when the numbers of the lines agree with their places. -/
theorem merges_iff (base : BaseFile) (host : HostGroups) (database : GroupDatabase) (account : AccountName) :
    Merges base.text host.ids account.name (mergeGroups database.getent account.name host.ids base.text) ↔
      Aligned base.text host.ids account.name := by
  rw [mergeGroups, readLines_spec]
  rcases run_spec base.text database account host.decimal host.distinct with
    ⟨hrange, hrun⟩ | ⟨hrange, hrun⟩
  · rw [hrun]
    change Merges _ _ _ (.ok _) ↔ _
    rw [merges_written_iff _ database account host.decimal, ← writtenWell_iff base account, and_iff_right hrange]
  · rw [hrun]
    refine iff_of_false ?_ fun h => hrange h.inRange
    rintro ⟨out, kept, added, hout, -⟩
    cases hout

theorem getElem?_keptLines (h : (splitlines base)[number]? = some line) (hline : line ≠ [])
    (hbefore : [] ∉ (splitlines base).take number) :
    (keptLines base)[number]? = some line := by
  obtain ⟨hlt, hget⟩ := List.getElem?_eq_some_iff.mp h
  have hsplit : splitlines base = (splitlines base).take number ++ line :: (splitlines base).drop (number + 1) := by
    rw [← hget, ← List.drop_eq_getElem_cons hlt, List.take_append_drop]
  have htake : ((splitlines base).take number).filter (· ≠ []) = (splitlines base).take number := by
    rw [List.filter_eq_self]
    intro line' hline'
    simpa using fun hnil : line' = [] => hbefore (hnil ▸ hline')
  have hlength : ((splitlines base).take number).length = number := by
    rw [List.length_take]
    omega
  rw [keptLines, hsplit, List.filter_append, htake, List.filter_cons_of_pos (by simpa using hline),
    List.getElem?_append_right hlength.le, hlength, Nat.sub_self]
  rfl

theorem gidOf_of_fields (h : fields line = [name, password, gid, members]) : gidOf line = some gid := by
  rw [gidOf, h]
  rfl

/-- Where no empty line comes before a group of the host, the numbers agree with the places. -/
theorem aligned_of_no_empty_before (base : BaseFile) (user : Str)
    (h : ∀ id ∈ ids, ∀ number, lineNumber base.text id = some number → [] ∉ (splitlines base.text).take number) :
    Aligned base.text ids user := by
  have hplace : ∀ id ∈ ids, ∀ number, lineNumber base.text id = some number →
      ∃ line, (keptLines base.text)[number]? = some line ∧ gidOf line = some id := by
    intro id hid number hnumber
    obtain ⟨line, hline, hgid⟩ := gidOf_of_lineNumber hnumber
    refine ⟨line, getElem?_keptLines hline ?_ (h id hid number hnumber), hgid⟩
    rintro rfl
    cases hgid
  have hdistinct : (keptLines base.text).Pairwise fun line line' => ∀ gid, gidOf line = some gid →
    ∀ gid', gidOf line' = some gid' → gid ≠ gid' := by
    have hpairs := List.pairwise_filterMap.mp base.distinct
    exact hpairs.sublist List.filter_sublist
  constructor
  · intro earlier id later number hids hnumber
    obtain ⟨line, hline, -⟩ := hplace id (by simp [hids]) number hnumber
    have hlt := (List.getElem?_eq_some_iff.mp hline).1
    omega
  · intro number hnumber line hline
    obtain ⟨id, hid, hnumber⟩ := List.mem_filterMap.mp hnumber
    obtain ⟨line', hline', hgid⟩ := hplace id hid number hnumber
    rw [hline] at hline'
    cases hline'
    have hlength : (fields line).length = 4 := by
      rcases base.wellFormed line (List.mem_filter.mp (List.mem_of_getElem? hline)).1 with hblank | hlength
      · rw [gidOf, fields_of_isBlank hblank] at hgid
        cases hgid
      · exact hlength
    obtain ⟨name, password, gid, members, hfields⟩ := four_fields hlength
    rw [gidOf_of_fields hfields] at hgid
    cases hgid
    exact ⟨name, password, _, members, hfields, .inl hid⟩
  · intro number line name password gid members hline hfields hgid
    have hline_gid := gidOf_of_fields hfields
    right
    cases hnumber : lineNumber base.text gid with
    | none =>
      refine absurd (List.mem_filterMap.mpr ⟨line, ?_, hline_gid⟩) (lineNumber_eq_none_iff.mp hnumber)
      exact (List.mem_filter.mp (List.mem_of_getElem? hline)).1
    | some number' =>
      obtain ⟨line', hline', hgid'⟩ := hplace gid hgid number' hnumber
      obtain ⟨hlt, rfl⟩ := List.getElem?_eq_some_iff.mp hline
      obtain ⟨hlt', rfl⟩ := List.getElem?_eq_some_iff.mp hline'
      have hsame : number = number' := by
        rcases Nat.lt_trichotomy number number' with hbefore | heq | hafter
        · exact absurd rfl (List.pairwise_iff_getElem.mp hdistinct number number' hlt hlt' hbefore _
            hline_gid _ hgid')
        · exact heq
        · exact absurd rfl (List.pairwise_iff_getElem.mp hdistinct number' number hlt' hlt hafter _ hgid' _
            hline_gid)
      exact List.mem_filterMap.mpr ⟨gid, hgid, hsame ▸ hnumber⟩

/-- An empty line, and two groups without members. -/
def shiftedFile : BaseFile where
  text := ['\n', 'a', ':', 'x', ':', '1', ':', '\n', 'b', ':', 'x', ':', '2', ':', '\n'].map codePoint
  wellFormed := by decide
  distinct := by decide

def firstGroup : HostGroups where
  ids := [['1'].map codePoint]
  decimal := by simp [JsonTexts.isDigit, codePoint]
  distinct := by decide

def emptyDatabase : GroupDatabase where
  getent := fun _ => none
  single := fun _ _ h => by cases h

def newUser : AccountName where
  name := ['u'].map codePoint
  ne_nil := by decide
  ordinary := by simp [colon, comma, isLineBreak, codePoint]

/-- The host has the first group; the second one gets the user. -/
theorem not_merges : ¬∀ (base : BaseFile) (host : HostGroups) (database : GroupDatabase) (account : AccountName),
    Merges base.text host.ids account.name (mergeGroups database.getent account.name host.ids base.text) := by
  intro hall
  have hout : mergeGroups emptyDatabase.getent newUser.name firstGroup.ids shiftedFile.text =
      .ok (['a', ':', 'x', ':', '1', ':', '\n', 'b', ':', 'x', ':', '2', ':', 'u', '\n'].map codePoint) := by rfl
  have hbase : entries shiftedFile.text = [['a', ':', 'x', ':', '1', ':'].map codePoint,
    ['b', ':', 'x', ':', '2', ':'].map codePoint] := by rfl
  obtain ⟨out, kept, added, hresult, hentries, hkept, -⟩ := hall shiftedFile firstGroup emptyDatabase newUser
  rw [hout] at hresult
  cases hresult
  rw [hbase] at hkept
  cases hkept with
  | cons hfirst _ =>
    obtain ⟨hline, -⟩ := List.cons.inj hentries
    rw [← hline] at hfirst
    have hfields : fields (['a', ':', 'x', ':', '1', ':'].map codePoint) =
        [['a'].map codePoint, ['x'].map codePoint, ['1'].map codePoint, []] := by rfl
    have hmember := (kept_self_iff hfields).mp hfirst List.mem_cons_self
    exact absurd hmember (by decide)

end WorkerHarness.GroupFiles
