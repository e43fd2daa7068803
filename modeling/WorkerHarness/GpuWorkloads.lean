import WorkerHarness.Binary64
import WorkerHarness.IntLiterals
import Mathlib.Logic.Function.Basic
import Mathlib.Algebra.BigOperators.Group.List.Basic

/-!
# Which GPUs are busy

A worker asks `nvidia-smi` for its GPUs and for the processes that compute on them, and reads the rows of
both answers by the position of their fields. A GPU is busy if a process of some size is on it, or if more of
its memory is used than the small and the ignored processes account for.
-/

namespace WorkerHarness.GpuWorkloads

open CodePoints TextLines IntLiterals Binary64 PosixPaths

inductive Query | gpus | computeApps
deriving DecidableEq

inductive Answer
  | output (out : Str)
  | fileNotFound
  | calledProcessError
  | timeoutExpired
  | otherError
deriving DecidableEq

/-- What `nvidia-smi` answers under each of its names. -/
abbrev NvidiaSmi := String → Query → Answer

def commands : List String := ["nvidia-smi", "/usr/bin/nvidia-smi", "/usr/local/nvidia/bin/nvidia-smi"]

def comma : CodePoint := codePoint ','

def space : CodePoint := codePoint ' '

def gpuProcessIgnoreMb : ℤ := 512

/-- `1.0 - GPU_MOSTLY_FREE_FRACTION` -/
def occupiedFraction : ℚ := nearest (1 - nearest (90 / 100))

def ignoredGpuProcessNames : List Str := [str "xorg", str "xwayland", str "gnome-shell", str "kwin_wayland"]

/-- The code points of which `str.lower` makes ASCII; no other one matters for the names that are ignored. -/
def lowerPoint (c : CodePoint) : Str :=
  if 0x41 ≤ c.val ∧ c.val ≤ 0x5a then [Fin.ofNat _ (c.val + 0x20)]
  else if c.val = 0x130 then [codePoint 'i', codePoint '\u0307']
  else if c.val = 0x212a then [codePoint 'k']
  else [c]

def lower (text : Str) : Str := text.flatMap lowerPoint

/-- `Path(path).name` -/
def pathName (path : Str) : Str :=
  ((path.splitOn slash).filter fun part => part ≠ [] ∧ part ≠ str ".").getLast?.getD []

structure Usage where
  significant : List Str
  ignoredMemory : Str → ℤ

def Usage.empty : Usage := ⟨[], fun _ => 0⟩

def Usage.count (usage : Usage) (gpuUuid executable : Str) (usedMb : ℤ) : Usage :=
  if usedMb < gpuProcessIgnoreMb ∨ executable ∈ ignoredGpuProcessNames then
    { usage with
      ignoredMemory := Function.update usage.ignoredMemory gpuUuid (usage.ignoredMemory gpuUuid + usedMb) }
  else { usage with significant := usage.significant.insert gpuUuid }

def countLine (usage : Usage) (line : Str) : Usage :=
  if line = [] then usage
  else
    match (split [comma] 2 line).map stripText with
    | [gpuUuid, processName, usedMbText] =>
      match intLiteral usedMbText with
      | none => usage
      | some usedMb => usage.count gpuUuid (lower (pathName processName)) usedMb
    | _ => usage

/-- There is none where an exception is not caught. -/
def gpuProcessUsage (smi : NvidiaSmi) (command : String) : Option Usage :=
  match smi command .computeApps with
  | .output out => some ((splitlines (stripText out)).foldl countLine .empty)
  | .fileNotFound | .calledProcessError | .timeoutExpired => some .empty
  | .otherError => none

/-- What `round(total_mb * (1.0 - GPU_MOSTLY_FREE_FRACTION))` gives, and at least the size of a small process. -/
def mostlyFreeLimitMb (totalMb : ℤ) : Option ℤ := do
  let total ← float totalMb
  let product ← float (total * occupiedFraction)
  return max gpuProcessIgnoreMb (roundHalfEven product)

/-- `round(mb / 1024, 1)` -/
def vramGb (mb : ℤ) : Option ℚ := do
  let quotient ← float (mb / 1024)
  float (roundHalfEven (quotient * 10) / 10)

structure GpuEntry where
  index : ℤ
  name : Str
  vramTotalGb : ℚ
  vramUsedGb : ℚ
  busy : Bool
deriving DecidableEq

structure GpuInfo where
  gpuCount : ℕ
  gpus : List GpuEntry
deriving DecidableEq

def gpuEntry (usage : Usage) (line : Str) : Option GpuEntry :=
  match split [comma, space] 4 line with
  | [idx, gpuUuid, name, totalMbText, usedMbText] => do
    let totalMb ← intLiteral (stripText totalMbText)
    let usedMb ← intLiteral (stripText usedMbText)
    let relevantUsedMb := max 0 (usedMb - usage.ignoredMemory (stripText gpuUuid))
    let limitMb ← mostlyFreeLimitMb totalMb
    let index ← intLiteral (stripText idx)
    let vramTotalGb ← vramGb totalMb
    let vramUsedGb ← vramGb usedMb
    return ⟨index, stripText name, vramTotalGb, vramUsedGb, stripText gpuUuid ∈ usage.significant ∨
      limitMb < relevantUsedMb⟩
  | _ => none

def listGpus (smi : NvidiaSmi) : List String → Option (String × Str)
  | [] => none
  | command :: commands =>
    match smi command .gpus with
    | .output out => some (command, out)
    | .fileNotFound | .calledProcessError => listGpus smi commands
    | .timeoutExpired | .otherError => none

/-- Every exception gives the empty result. -/
def getGpuInfo (smi : NvidiaSmi) : GpuInfo :=
  let gpus : Option (List GpuEntry) := do
    let (command, out) ← listGpus smi commands
    let usage ← gpuProcessUsage smi command
    ((splitlines (stripText out)).filter (· ≠ [])).mapM (gpuEntry usage)
  match gpus with
  | none => ⟨0, []⟩
  | some gpus => ⟨gpus.length, gpus⟩

/-- An identifier, which neither separators nor white space are in. -/
structure Uuid where
  text : Str
  ne_nil : text ≠ []
  plain : ∀ c ∈ text, isWhitespace c = false ∧ c ≠ comma

structure Name where
  text : Str
  single : ∀ c ∈ text, isLineBreak c = false

structure Gpu where
  index : ℕ
  uuid : Uuid
  name : Name
  totalMb : ℤ
  usedMb : ℤ

structure Process where
  uuid : Uuid
  name : Name
  usedMb : ℤ

def separator : Str := [comma, space]

def Gpu.row (gpu : Gpu) : Str :=
  intText gpu.index ++ separator ++ gpu.uuid.text ++ separator ++ gpu.name.text ++ separator ++
    intText gpu.totalMb ++
    separator ++ intText gpu.usedMb

def Process.row (process : Process) : Str :=
  process.uuid.text ++ separator ++ process.name.text ++ separator ++ intText process.usedMb

variable {smi : NvidiaSmi} {gpus : List Gpu} {processes : List Process} {gpu : Gpu} {process : Process}
    {usage : Usage}

def Reports (smi : NvidiaSmi) (gpus : List Gpu) (processes : List Process) : Prop :=
  ∃ before command after, commands = before ++ command :: after ∧
    (∀ c ∈ before, smi c .gpus = .fileNotFound ∨ smi c .gpus = .calledProcessError) ∧
    smi command .gpus = .output (unlines (gpus.map Gpu.row)) ∧
    smi command .computeApps = .output (unlines (processes.map Process.row))

def Process.executable (process : Process) : Str := lower (pathName (stripText process.name.text))

def Process.Ignored (process : Process) : Prop :=
  process.usedMb < gpuProcessIgnoreMb ∨ process.executable ∈ ignoredGpuProcessNames

instance (process : Process) : Decidable process.Ignored := inferInstanceAs (Decidable (_ ∨ _))

def Gpu.Occupied (gpu : Gpu) (processes : List Process) : Prop :=
  ∃ process ∈ processes, process.uuid.text = gpu.uuid.text ∧ ¬process.Ignored

instance (gpu : Gpu) (processes : List Process) : Decidable (gpu.Occupied processes) :=
  inferInstanceAs (Decidable (∃ process ∈ processes, _))

def Gpu.ignoredMb (gpu : Gpu) (processes : List Process) : ℤ :=
  ((processes.filter fun process => process.uuid.text = gpu.uuid.text ∧ process.Ignored).map Process.usedMb).sum

def Gpu.limitMb (gpu : Gpu) : ℤ := max gpuProcessIgnoreMb (roundHalfEven (gpu.totalMb / 10))

def Gpu.Busy (gpu : Gpu) (processes : List Process) : Prop :=
  gpu.Occupied processes ∨ gpu.limitMb < max 0 (gpu.usedMb - gpu.ignoredMb processes)

def Classifies (info : GpuInfo) (gpus : List Gpu) (processes : List Process) : Prop :=
  info.gpuCount = gpus.length ∧
    List.Forall₂ (fun gpu entry => entry.index = gpu.index ∧ (entry.busy = true ↔ gpu.Busy processes))
      gpus info.gpus

/-- A process whose row is not skipped. -/
def Process.Readable (process : Process) : Prop := comma ∉ process.name.text ∧
    process.usedMb.natAbs < 10 ^ maxDigits

instance (process : Process) : Decidable process.Readable := inferInstanceAs (Decidable (_ ∧ _))

/-- A GPU whose row has five fields, with numbers that are converted. -/
structure Gpu.Readable (gpu : Gpu) : Prop where
  name : ¬separator <:+: gpu.name.text
  index : gpu.index < 10 ^ maxDigits
  total : gpu.totalMb.natAbs < 10 ^ maxDigits
  used : gpu.usedMb.natAbs < 10 ^ maxDigits
  totalFloat : (float gpu.totalMb).isSome
  vramUsed : (vramGb gpu.usedMb).isSome

theorem Uuid.head (uuid : Uuid) (rest : Str) : ∀ c ∈ (uuid.text ++ rest).head?, isWhitespace c = false := by
  rw [List.head?_append_of_ne_nil _ uuid.ne_nil]
  exact fun c hc => (uuid.plain c (List.mem_of_mem_head? hc)).1

theorem last_intText (text : Str) (z : ℤ) : ∀ c ∈ (text ++ intText z).getLast?, isWhitespace c = false := by
  rw [List.getLast?_append_of_ne_nil _ (intText_ne_nil z)]
  exact fun c hc => isWhitespace_of_mem_intText (List.mem_of_mem_getLast? hc)

theorem isLineBreak_of_isWhitespace {c : CodePoint} (h : isWhitespace c = false) : isLineBreak c = false := by
  by_contra hbreak
  rw [isWhitespace_of_isLineBreak (Bool.not_eq_false _ ▸ hbreak)] at h
  cases h

theorem isLineBreak_of_mem_intText {c : CodePoint} {z : ℤ} (h : c ∈ intText z) : isLineBreak c = false :=
  isLineBreak_of_isWhitespace (isWhitespace_of_mem_intText h)

theorem isLineBreak_of_mem_separator {c : CodePoint} (h : c ∈ separator) : isLineBreak c = false := by
  rcases List.mem_pair.mp h with rfl | rfl <;> rfl

theorem Uuid.single (uuid : Uuid) {c : CodePoint} (h : c ∈ uuid.text) : isLineBreak c = false :=
  isLineBreak_of_isWhitespace (uuid.plain c h).1

theorem Process.row_row (process : Process) : Row process.row where
  ne_nil := by
    simp [Process.row, process.uuid.ne_nil]
  single := by
    intro c hc
    simp only [Process.row, List.mem_append] at hc
    rcases hc with (((hc | hc) | hc) | hc) | hc
    · exact process.uuid.single hc
    · exact isLineBreak_of_mem_separator hc
    · exact process.name.single c hc
    · exact isLineBreak_of_mem_separator hc
    · exact isLineBreak_of_mem_intText hc
  head := by
    simp only [Process.row, List.append_assoc]
    exact process.uuid.head _
  last := last_intText _ _

theorem Gpu.row_row (gpu : Gpu) : Row gpu.row where
  ne_nil := by
    simp [Gpu.row, intText_ne_nil]
  single := by
    intro c hc
    simp only [Gpu.row, List.mem_append] at hc
    rcases hc with (((((((hc | hc) | hc) | hc) | hc) | hc) | hc) | hc) | hc
    · exact isLineBreak_of_mem_intText hc
    · exact isLineBreak_of_mem_separator hc
    · exact gpu.uuid.single hc
    · exact isLineBreak_of_mem_separator hc
    · exact gpu.name.single c hc
    · exact isLineBreak_of_mem_separator hc
    · exact isLineBreak_of_mem_intText hc
    · exact isLineBreak_of_mem_separator hc
    · exact isLineBreak_of_mem_intText hc
  head := by
    simp only [Gpu.row, List.append_assoc]
    rw [List.head?_append_of_ne_nil _ (intText_ne_nil _)]
    exact fun c hc => isWhitespace_of_mem_intText (List.mem_of_mem_head? hc)
  last := last_intText _ _

theorem comma_notMem_intText (z : ℤ) : comma ∉ intText z := by
  intro h
  rcases mem_intText h with heq | hrange
  · exact absurd heq (by decide)
  · exact absurd hrange (by decide)

theorem intLiteral_eq_none_of_comma {text : Str} (h : comma ∈ text) : intLiteral text = none :=
  intLiteral_eq_none h (by decide) (by decide) (by decide) (by decide) (by decide)

theorem stripText_intText (z : ℤ) : stripText (intText z) = intText z :=
  stripText_of_forall fun _ => isWhitespace_of_mem_intText

theorem Uuid.strip_text (uuid : Uuid) : stripText uuid.text = uuid.text :=
  stripText_of_forall fun c hc => (uuid.plain c hc).1

theorem split_row (process : Process) : split [comma] 2 process.row =
    process.uuid.text :: split [comma] 1 (space :: process.name.text ++
      comma :: space :: intText process.usedMb) := by
  have hrow : process.row = process.uuid.text ++ comma ::
    (space :: process.name.text ++ comma :: space :: intText process.usedMb) := by
    simp [Process.row, separator]
  have hfirst : comma ∉ process.uuid.text := fun h => (process.uuid.plain _ h).2 rfl
  rw [hrow, split, partition_singleton hfirst]

def Usage.add (usage : Usage) (process : Process) : Usage :=
  usage.count process.uuid.text process.executable process.usedMb

theorem Usage.add_of_ignored (h : process.Ignored) : usage.add process = { usage with
    ignoredMemory := Function.update usage.ignoredMemory process.uuid.text
      (usage.ignoredMemory process.uuid.text + process.usedMb) } :=
  if_pos h

theorem Usage.add_of_not_ignored (h : ¬process.Ignored) :
    usage.add process = { usage with significant := usage.significant.insert process.uuid.text } :=
  if_neg h

/-- A row is counted as the process it stands for, or it is skipped. -/
theorem countLine_row (usage : Usage) (process : Process) : countLine usage process.row =
    if process.Readable then usage.add process else usage := by
  rw [countLine, if_neg process.row_row.ne_nil, split_row]
  by_cases hcomma : comma ∈ process.name.text
  · obtain ⟨before, after, hname⟩ := List.append_of_mem hcomma
    obtain ⟨first, left, hpartition, hsuffix⟩ := exists_partition (List.cons_ne_nil comma []) (space :: before)
      (after ++ comma :: space :: intText process.usedMb)
    have htext : space :: process.name.text ++ comma :: space :: intText process.usedMb =
        space :: before ++ ([comma] ++ (after ++ comma :: space :: intText process.usedMb)) := by
      simp [hname]
    have hleft : comma ∈ stripText left := mem_stripText (hsuffix.subset (by simp)) (by decide)
    rw [htext, split, hpartition, if_neg fun h => h.1 hcomma]
    simp only [split, List.map_cons, List.map_nil, intLiteral_eq_none_of_comma hleft]
  · have hsecond : comma ∉ space :: process.name.text := by
      intro h
      rcases List.mem_cons.mp h with h | h
      · exact absurd h (by decide)
      · exact hcomma h
    rw [split, partition_singleton hsecond]
    simp only [split, List.map_cons, List.map_nil, process.uuid.strip_text,
      stripText_cons (by decide : isWhitespace space = true),
      stripText_intText, intLiteral_intText]
    by_cases hmax : process.usedMb.natAbs < 10 ^ maxDigits
    · rw [if_pos hmax, if_pos (show process.Readable from ⟨hcomma, hmax⟩)]
      rfl
    · rw [if_neg hmax, if_neg fun h : process.Readable => hmax h.2]

def readable (processes : List Process) : List Process := processes.filter fun process => process.Readable

theorem foldl_countLine (processes : List Process) (usage : Usage) :
    (processes.map Process.row).foldl countLine usage = (readable processes).foldl Usage.add usage := by
  induction processes generalizing usage with
  | nil => rfl
  | cons process processes ih =>
    rw [List.map_cons, List.foldl_cons, countLine_row, ih]
    by_cases h : process.Readable
    · simp [h, readable]
    · simp [h, readable]

/-- The GPUs that are occupied, and the memory of the processes that do not occupy them. -/
theorem foldl_add (processes : List Process) (usage : Usage) (gpu : Gpu) :
    (gpu.uuid.text ∈ (processes.foldl Usage.add usage).significant ↔
      gpu.uuid.text ∈ usage.significant ∨ gpu.Occupied processes) ∧
    (processes.foldl Usage.add usage).ignoredMemory gpu.uuid.text =
      usage.ignoredMemory gpu.uuid.text + gpu.ignoredMb processes := by
  induction processes generalizing usage with
  | nil => simp [Gpu.Occupied, Gpu.ignoredMb]
  | cons process processes ih =>
    obtain ⟨hsignificant, hignored⟩ := ih (usage.add process)
    have hoccupied : gpu.Occupied (process :: processes) ↔
        process.uuid.text = gpu.uuid.text ∧ ¬process.Ignored ∨ gpu.Occupied processes := by
      simp [Gpu.Occupied]
    rw [List.foldl_cons, hsignificant, hignored, hoccupied]
    by_cases h : process.Ignored
    · rw [Usage.add_of_ignored h]
      constructor
      · simp only [h, not_true_eq_false, and_false, false_or]
      · by_cases huuid : process.uuid.text = gpu.uuid.text
        · simp [Gpu.ignoredMb, huuid, h, add_assoc]
        · simp [Gpu.ignoredMb, huuid, Function.update_of_ne (Ne.symm huuid)]
    · rw [Usage.add_of_not_ignored h]
      constructor
      · simp only [h, not_false_eq_true, and_true]
        rw [List.mem_insert_iff, eq_comm, or_assoc, or_left_comm]
      · simp [Gpu.ignoredMb, h]

theorem gpuProcessUsage_eq {command : String}
    (h : smi command .computeApps = .output (unlines (processes.map Process.row))) :
    gpuProcessUsage smi command = some ((readable processes).foldl Usage.add .empty) := by
  have hrows : splitlines (stripText (unlines (processes.map Process.row))) = processes.map Process.row := by
    apply splitlines_stripText_unlines
    intro row hrow
    obtain ⟨process, -, rfl⟩ := List.mem_map.mp hrow
    exact process.row_row
  rw [gpuProcessUsage, h]
  dsimp only
  rw [hrows, foldl_countLine]

theorem comma_space : comma ≠ space := by decide

/-- The first two fields are the index and the identifier. -/
theorem split_gpu_row (gpu : Gpu) : split [comma, space] 4 gpu.row = intText gpu.index :: gpu.uuid.text ::
    split [comma, space] 2 (gpu.name.text ++ separator ++ intText gpu.totalMb ++ separator ++
      intText gpu.usedMb) := by
  have hrow : gpu.row = intText gpu.index ++ comma :: space ::
    (gpu.uuid.text ++ comma :: space :: (gpu.name.text ++ separator ++
      intText gpu.totalMb ++ separator ++ intText gpu.usedMb)) := by
    simp [Gpu.row, separator]
  have hindex : ¬[comma, space] <:+: intText gpu.index := fun h => comma_notMem_intText _ (h.subset (by simp))
  have huuid : ¬[comma, space] <:+: gpu.uuid.text := fun h => (gpu.uuid.plain _ (h.subset (by simp))).2 rfl
  rw [hrow, split, partition_pair comma_space hindex]
  dsimp only
  rw [split, partition_pair comma_space huuid]

theorem gpuEntry_eq_none_of_separator (h : separator <:+: gpu.name.text) : gpuEntry usage gpu.row = none := by
  obtain ⟨before, after, hname⟩ := h
  have htext : gpu.name.text ++ separator ++ intText gpu.totalMb ++ separator ++ intText gpu.usedMb =
      before ++ ([comma, space] ++ (after ++ separator ++ intText gpu.totalMb ++ separator ++
        intText gpu.usedMb)) := by
    simp [← hname, separator]
  obtain ⟨first, left, hpartition, tail, hleft⟩ := exists_partition (List.cons_ne_nil comma [space]) before
    (after ++ separator ++ intText gpu.totalMb ++ separator ++ intText gpu.usedMb)
  have hagain : left = tail ++ after ++
    ([comma, space] ++ (intText gpu.totalMb ++ separator ++ intText gpu.usedMb)) := by
    simp [← hleft, separator]
  obtain ⟨second, left', hpartition', hsuffix⟩ := exists_partition (List.cons_ne_nil comma [space]) (tail ++ after)
    (intText gpu.totalMb ++ separator ++ intText gpu.usedMb)
  have hcomma : comma ∈ stripText left' := mem_stripText (hsuffix.subset (by simp [separator])) (by decide)
  rw [gpuEntry, split_gpu_row, htext, split, hpartition]
  dsimp only
  rw [split, hagain, hpartition']
  simp only [split, intLiteral_eq_none_of_comma hcomma]
  cases intLiteral (stripText second) <;> rfl

theorem gpuEntry_row (h : ¬separator <:+: gpu.name.text) (usage : Usage) : gpuEntry usage gpu.row = (do
    let totalMb ← intLiteral (intText gpu.totalMb)
    let usedMb ← intLiteral (intText gpu.usedMb)
    let limitMb ← mostlyFreeLimitMb totalMb
    let index ← intLiteral (intText gpu.index)
    let vramTotalGb ← vramGb totalMb
    let vramUsedGb ← vramGb usedMb
    return ⟨index, stripText gpu.name.text, vramTotalGb, vramUsedGb, gpu.uuid.text ∈ usage.significant ∨
      limitMb < max 0 (usedMb - usage.ignoredMemory gpu.uuid.text)⟩) := by
  have hname : gpu.name.text ++ separator ++ intText gpu.totalMb ++ separator ++ intText gpu.usedMb =
      gpu.name.text ++ comma :: space :: (intText gpu.totalMb ++ comma :: space :: intText gpu.usedMb) := by
    simp [separator]
  have htotal : ¬[comma, space] <:+: intText gpu.totalMb := fun h => comma_notMem_intText _ (h.subset (by simp))
  rw [gpuEntry, split_gpu_row, hname, split, partition_pair comma_space h]
  dsimp only
  rw [split, partition_pair comma_space htotal]
  simp only [split, stripText_intText, gpu.uuid.strip_text]

theorem intLiteral_intText_of_lt {z : ℤ} (h : z.natAbs < 10 ^ maxDigits) : intLiteral (intText z) = some z := by
  rw [intLiteral_intText, if_pos h]

theorem natAbs_lt_of_intLiteral {z n : ℤ} (h : intLiteral (intText z) = some n) : z.natAbs < 10 ^ maxDigits ∧
    n = z := by
  rw [intLiteral_intText] at h
  split at h
  · next hlt => exact ⟨hlt, (Option.some.inj h).symm⟩
  · cases h

theorem nearest_nine_tenths : nearest (90 / 100) = 8106479329266893 / 2 ^ 53 := by
  have hunit : unit (90 / 100) = 2 ^ (-53 : ℤ) := by
    apply unit_eq (-1)
    · norm_num
    · norm_num
    · omega
  have hround : roundHalfEven ((90 / 100) / 2 ^ (-53 : ℤ)) = 8106479329266893 := by
    apply roundHalfEven_eq
    norm_num [abs_lt]
  rw [nearest, hunit, hround]
  norm_num

theorem occupiedFraction_eq : occupiedFraction = 900719925474099 / 2 ^ 53 := by
  have hunit : unit (900719925474099 / 2 ^ 53) = 2 ^ (-56 : ℤ) := by
    apply unit_eq (-4)
    · norm_num
    · norm_num
    · omega
  have hdifference : (1 : ℚ) - 8106479329266893 / 2 ^ 53 = 900719925474099 / 2 ^ 53 := by norm_num
  rw [occupiedFraction, nearest_nine_tenths, hdifference]
  apply nearest_eq 7205759403792792
  rw [hunit]
  norm_num

/-- The limit is computed for every memory that is converted. -/
theorem mostlyFreeLimitMb_isSome {totalMb : ℤ} : (mostlyFreeLimitMb totalMb).isSome ↔ (float totalMb).isSome := by
  unfold mostlyFreeLimitMb
  cases hfloat : float totalMb with
  | none => rfl
  | some total =>
    have hhalf : |total * occupiedFraction| ≤ 2 ^ 1023 := by
      have hpower : (2 : ℚ) ^ 1024 = 2 ^ 1023 * 2 := pow_succ 2 1023
      have hfraction : |occupiedFraction| ≤ 1 / 2 := by
        rw [occupiedFraction_eq]
        norm_num [abs_le]
      calc |total * occupiedFraction| = |total| * |occupiedFraction| := abs_mul _ _
        _ ≤ 2 ^ 1024 * (1 / 2) := by
          gcongr
          exact (abs_lt_of_float hfloat).le
        _ = 2 ^ 1023 := by
          rw [hpower]
          generalize (2 : ℚ) ^ 1023 = half
          ring
    simp only [Option.bind_eq_bind, Option.bind_some, float_eq hhalf]
    rfl

theorem vramGb_isSome {mb : ℤ} (h : |(mb : ℚ)| ≤ 2 ^ 1025) : (vramGb mb).isSome := by
  have hlarge : (16 : ℚ) * 2 ^ 1015 ≤ 2 ^ 1023 := by
    rw [← show (2 : ℚ) ^ 4 = 16 by norm_num, ← pow_add]
    exact pow_le_pow_right₀ (by norm_num) (by omega)
  have hone : (1 : ℚ) ≤ 2 ^ 1015 := one_le_pow₀ (by norm_num)
  have hdiv : |(mb : ℚ) / 1024| ≤ 2 ^ 1015 := by
    rw [abs_div, abs_of_pos (by norm_num : (0 : ℚ) < 1024), div_le_iff₀ (by norm_num),
      ← show (2 : ℚ) ^ 10 = 1024 by norm_num, ← pow_add]
    exact h
  generalize (2 : ℚ) ^ 1015 = bound at hlarge hone hdiv
  have hquotient : |nearest ((mb : ℚ) / 1024)| ≤ 2 * bound := by
    have htriangle := abs_add_le (nearest ((mb : ℚ) / 1024) - mb / 1024) (mb / 1024)
    rw [sub_add_cancel] at htriangle
    linarith [abs_nearest_sub_le ((mb : ℚ) / 1024), unit_le_add ((mb : ℚ) / 1024)]
  have hround : |(roundHalfEven (nearest ((mb : ℚ) / 1024) * 10) : ℚ) / 10| ≤ 4 * bound := by
    generalize nearest ((mb : ℚ) / 1024) = quotient at hquotient
    have htriangle := abs_add_le ((roundHalfEven (quotient * 10) : ℚ) - quotient * 10) (quotient * 10)
    have herror := abs_roundHalfEven_sub_le (quotient * 10)
    rw [sub_add_cancel, abs_mul, abs_of_pos (by norm_num : (0 : ℚ) < 10)] at htriangle
    rw [abs_div, abs_of_pos (by norm_num : (0 : ℚ) < 10)]
    linarith
  have hfour : 4 * bound ≤ 2 ^ 1023 := le_trans (by linarith) hlarge
  rw [vramGb, float_eq (hdiv.trans (le_trans (by linarith) hfour))]
  simp only [Option.bind_eq_bind, Option.bind_some, float_eq (hround.trans hfour)]
  rfl

theorem vramGb_isSome_of_float {mb : ℤ} (h : (float mb).isSome) : (vramGb mb).isSome := by
  obtain ⟨total, htotal⟩ := Option.isSome_iff_exists.mp h
  exact vramGb_isSome (abs_le_of_float htotal)

theorem exists_gpuEntry (h : gpu.Readable) (usage : Usage) : ∃ entry limitMb, gpuEntry usage gpu.row = some entry ∧
    mostlyFreeLimitMb gpu.totalMb = some limitMb ∧ entry.index = gpu.index ∧ (entry.busy = true ↔
      gpu.uuid.text ∈ usage.significant ∨ limitMb < max 0 (gpu.usedMb - usage.ignoredMemory gpu.uuid.text)) := by
  obtain ⟨limitMb, hlimit⟩ := Option.isSome_iff_exists.mp (mostlyFreeLimitMb_isSome.mpr h.totalFloat)
  obtain ⟨total, htotal⟩ := Option.isSome_iff_exists.mp (vramGb_isSome_of_float h.totalFloat)
  obtain ⟨used, hused⟩ := Option.isSome_iff_exists.mp h.vramUsed
  have hindex : intLiteral (intText gpu.index) = some (gpu.index : ℤ) := intLiteral_intText_of_lt h.index
  rw [gpuEntry_row h.name, intLiteral_intText_of_lt h.total, intLiteral_intText_of_lt h.used, hindex]
  simp only [Option.bind_eq_bind, Option.bind_some, hlimit, htotal, hused]
  exact ⟨_, limitMb, rfl, rfl, rfl, decide_eq_true_iff⟩

/-- A row that is not read is an exception. -/
theorem readable_of_gpuEntry {entry : GpuEntry} (h : gpuEntry usage gpu.row = some entry) : gpu.Readable := by
  have hname : ¬separator <:+: gpu.name.text := by
    intro hseparator
    rw [gpuEntry_eq_none_of_separator hseparator] at h
    cases h
  rw [gpuEntry_row hname] at h
  simp only [Option.bind_eq_bind, Option.bind_eq_some_iff] at h
  obtain ⟨total, htotal, used, hused, limitMb, hlimit, index, hindex, vramTotal, hvramTotal, vramUsed,
    hvramUsed, -⟩ := h
  obtain ⟨htotalLt, rfl⟩ := natAbs_lt_of_intLiteral htotal
  obtain ⟨husedLt, rfl⟩ := natAbs_lt_of_intLiteral hused
  obtain ⟨hindexLt, -⟩ := natAbs_lt_of_intLiteral hindex
  exact ⟨hname, hindexLt, htotalLt, husedLt, mostlyFreeLimitMb_isSome.mp (Option.isSome_of_mem hlimit),
    Option.isSome_of_mem hvramUsed⟩

theorem listGpus_append {before after : List String} {command : String} {out : Str}
    (hbefore : ∀ c ∈ before, smi c .gpus = .fileNotFound ∨ smi c .gpus = .calledProcessError)
    (h : smi command .gpus = .output out) : listGpus smi (before ++ command :: after) = some (command, out) := by
  induction before with
  | nil => rw [List.nil_append, listGpus, h]
  | cons c before ih =>
    have hrest := ih fun d hd => hbefore d (List.mem_cons_of_mem _ hd)
    rcases hbefore c List.mem_cons_self with hc | hc
    · rw [List.cons_append, listGpus, hc]
      exact hrest
    · rw [List.cons_append, listGpus, hc]
      exact hrest

/-- What the rows of the GPUs give once the processes have been counted. -/
theorem getGpuInfo_eq (h : Reports smi gpus processes) : getGpuInfo smi =
    match (gpus.map Gpu.row).mapM (gpuEntry ((readable processes).foldl Usage.add .empty)) with
    | none => ⟨0, []⟩
    | some entries => ⟨entries.length, entries⟩ := by
  obtain ⟨before, command, after, hcommands, hbefore, hgpus, hprocesses⟩ := h
  have hrow : ∀ row ∈ gpus.map Gpu.row, Row row := by
    intro row hrow
    obtain ⟨gpu, -, rfl⟩ := List.mem_map.mp hrow
    exact gpu.row_row
  have hlines : (splitlines (stripText (unlines (gpus.map Gpu.row)))).filter (· ≠ []) = gpus.map Gpu.row := by
    rw [splitlines_stripText_unlines hrow, List.filter_eq_self]
    exact fun row hmem => decide_eq_true (hrow row hmem).ne_nil
  rw [getGpuInfo, hcommands, listGpus_append hbefore hgpus]
  simp only [Option.bind_eq_bind, Option.bind_some, gpuProcessUsage_eq hprocesses, hlines]

theorem mapM_cases {α β : Type} (f : α → Option β) (l : List α) :
    (∃ entries, l.mapM f = some entries ∧ List.Forall₂ (fun a entry => f a = some entry) l entries) ∨
      l.mapM f = none ∧ ∃ a ∈ l, f a = none := by
  induction l with
  | nil => exact .inl ⟨[], rfl, .nil⟩
  | cons a l ih =>
    rw [List.mapM_cons]
    cases ha : f a with
    | none => exact .inr ⟨rfl, a, List.mem_cons_self, ha⟩
    | some entry =>
      rcases ih with ⟨entries, hentries, hforall⟩ | ⟨hnone, a', hmem, ha'⟩
      · rw [hentries]
        exact .inl ⟨entry :: entries, rfl, .cons ha hforall⟩
      · rw [hnone]
        exact .inr ⟨rfl, a', List.mem_cons_of_mem _ hmem, ha'⟩

/-- A relation that depends on the left side only. -/
theorem forall₂_iff {α β : Type} {R S : α → β → Prop} {p : α → Prop} {l : List α} {l' : List β}
    (h : List.Forall₂ R l l')
    (hiff : ∀ a b, R a b → (S a b ↔ p a)) : List.Forall₂ S l l' ↔ ∀ a ∈ l, p a := by
  induction h with
  | nil => simp
  | cons hhead _ ih => rw [List.forall₂_cons, hiff _ _ hhead, ih, List.forall_mem_cons]

def skipped (processes : List Process) : List Process := processes.filter fun process => ¬process.Readable

/-- The limit in doubles: up to 10 ^ 15 MB it is a tenth of the memory, with halves rounded down. -/
def Gpu.limitMbInDoubles (gpu : Gpu) : ℤ :=
  max gpuProcessIgnoreMb (if gpu.totalMb ≤ 10 ^ 15 then (gpu.totalMb + 4) / 10
    else roundHalfEven (nearest (nearest gpu.totalMb * occupiedFraction)))

def Gpu.unaccountedMb (gpu : Gpu) (processes : List Process) : ℤ := gpu.usedMb - gpu.ignoredMb processes

/-- The rows that are skipped and the limit in doubles make no difference to a GPU: a process that is counted
occupies it; or one that is skipped does, and the memory alone is over the limit; or none does, and the memory
is not between the limit and where the skipped processes move it. -/
inductive Gpu.Unaffected (gpu : Gpu) (processes : List Process) : Prop
  | counted (h : gpu.Occupied (readable processes))
  | full (h : gpu.Occupied (skipped processes))
    (hfull : gpu.limitMbInDoubles < gpu.unaccountedMb (readable processes))
  | apart (h : ¬gpu.Occupied processes)
      (hbelow : ¬(gpu.limitMbInDoubles - gpu.ignoredMb (skipped processes) < gpu.unaccountedMb processes ∧
        gpu.unaccountedMb processes ≤ gpu.limitMb))
      (habove : ¬(gpu.limitMb < gpu.unaccountedMb processes ∧
        gpu.unaccountedMb processes ≤ gpu.limitMbInDoubles - gpu.ignoredMb (skipped processes)))

theorem Gpu.occupied_iff : gpu.Occupied processes ↔ gpu.Occupied (readable processes) ∨
    gpu.Occupied (skipped processes) := by
  simp only [Gpu.Occupied, readable, skipped, List.mem_filter, decide_eq_true_eq, ← exists_or]
  apply exists_congr
  intro process
  tauto

theorem Gpu.ignoredMb_cons : gpu.ignoredMb (process :: processes) =
    (if process.uuid.text = gpu.uuid.text ∧ process.Ignored then process.usedMb else 0) +
    gpu.ignoredMb processes := by
  simp only [Gpu.ignoredMb, List.filter_cons, decide_eq_true_eq]
  split
  · rw [List.map_cons, List.sum_cons]
  · rw [zero_add]

theorem Gpu.ignoredMb_eq : gpu.ignoredMb processes = gpu.ignoredMb (readable processes) + gpu.ignoredMb
    (skipped processes) := by
  induction processes with
  | nil => rfl
  | cons process processes ih =>
    rw [Gpu.ignoredMb_cons, ih]
    by_cases hreadable : process.Readable
    · have hread : readable (process :: processes) = process :: readable processes := by simp [readable, hreadable]
      have hskip : skipped (process :: processes) = skipped processes := by simp [skipped, hreadable]
      rw [hread, hskip, Gpu.ignoredMb_cons, add_assoc]
    · have hread : readable (process :: processes) = readable processes := by simp [readable, hreadable]
      have hskip : skipped (process :: processes) = process :: skipped processes := by simp [skipped, hreadable]
      rw [hread, hskip, Gpu.ignoredMb_cons, add_left_comm]

theorem ignoreMb_le_of_mostlyFreeLimitMb {totalMb limitMb : ℤ} (h : mostlyFreeLimitMb totalMb = some limitMb) :
    gpuProcessIgnoreMb ≤ limitMb := by
  simp only [mostlyFreeLimitMb, Option.bind_eq_bind, Option.bind_eq_some_iff] at h
  obtain ⟨total, -, product, -, h⟩ := h
  rw [← Option.some.inj h]
  exact le_max_left _ _

/-- Nothing is below the limit only because it is not counted below zero. -/
theorem lt_max_zero_iff {limitMb used : ℤ} (h : gpuProcessIgnoreMb ≤ limitMb) : limitMb < max 0 used ↔
    limitMb < used := by
  unfold gpuProcessIgnoreMb at h
  omega

/-- The product is a tenth of the memory, and a little less. -/
theorem product_bounds {totalMb : ℤ} (h : 0 ≤ totalMb) (hmax : totalMb ≤ 10 ^ 15) :
    (totalMb : ℚ) / 10 - 1 / 20 ≤ nearest (totalMb * occupiedFraction) ∧
      nearest (totalMb * occupiedFraction) ≤ totalMb / 10 ∧
      (0 < totalMb → nearest (totalMb * occupiedFraction) < totalMb / 10) := by
  rcases h.eq_or_lt with rfl | hpos
  · have hzero : nearest 0 = 0 := by simpa using nearest_intCast (show |((0 : ℤ) : ℚ)| < 2 ^ 53 by norm_num)
    rw [Int.cast_zero, zero_mul, hzero]
    norm_num
  · have hcast : (1 : ℚ) ≤ totalMb := by exact_mod_cast hpos
    have hcastMax : (totalMb : ℚ) ≤ 10 ^ 15 := by exact_mod_cast hmax
    have hproduct : |(totalMb : ℚ) * occupiedFraction| = totalMb * occupiedFraction := by
      rw [occupiedFraction_eq]
      exact abs_of_nonneg (by positivity)
    have hnormal : (2 : ℚ) ^ (-1022 : ℤ) ≤ |(totalMb : ℚ) * occupiedFraction| := by
      have hone : (2 : ℚ) ^ (-1022 : ℤ) ≤ 2 ^ (-4 : ℤ) := zpow_le_zpow_right₀ (by norm_num) (by omega)
      have hfraction : (2 : ℚ) ^ (-4 : ℤ) ≤ occupiedFraction := by
        rw [occupiedFraction_eq]
        norm_num
      rw [hproduct]
      calc (2 : ℚ) ^ (-1022 : ℤ) ≤ occupiedFraction := hone.trans hfraction
        _ ≤ totalMb * occupiedFraction := le_mul_of_one_le_left (le_trans (by positivity) hfraction) hcast
    have herror := abs_nearest_sub_le_mul hnormal
    rw [hproduct, abs_le, occupiedFraction_eq] at herror
    obtain ⟨hlow, hhigh⟩ := herror
    rw [occupiedFraction_eq]
    norm_num at hlow hhigh hcastMax ⊢
    refine ⟨?_, ?_, fun _ => ?_⟩ <;> linarith

/-- A tenth of the memory, halves rounded down. -/
theorem mostlyFreeLimitMb_eq {totalMb : ℤ} (h : 0 ≤ totalMb) (hmax : totalMb ≤ 10 ^ 15) :
    mostlyFreeLimitMb totalMb = some (max gpuProcessIgnoreMb ((totalMb + 4) / 10)) := by
  have hcast : |(totalMb : ℚ)| ≤ 10 ^ 15 := by
    rw [abs_of_nonneg (by exact_mod_cast h)]
    exact_mod_cast hmax
  have hexact : |(totalMb : ℚ)| < 2 ^ 53 := hcast.trans_lt (by norm_num)
  have hproduct : |(totalMb : ℚ) * occupiedFraction| ≤ 2 ^ 1023 := by
    calc |(totalMb : ℚ) * occupiedFraction| = |(totalMb : ℚ)| * |occupiedFraction| := abs_mul _ _
      _ ≤ 2 ^ 53 * 1 := by
        gcongr
        rw [occupiedFraction_eq]
        norm_num [abs_le]
      _ ≤ 2 ^ 1023 := by
        rw [mul_one]
        exact pow_le_pow_right₀ (by norm_num) (by omega)
  obtain ⟨hlow, hhigh, hbelow⟩ := product_bounds h hmax
  have hround : roundHalfEven (nearest (totalMb * occupiedFraction)) = (totalMb + 4) / 10 := by
    apply roundHalfEven_eq
    obtain ⟨q, hq⟩ : ∃ q, (totalMb + 4) / 10 = q := ⟨_, rfl⟩
    rw [hq]
    have hge : 10 * q ≤ totalMb + 4 := by omega
    have hle : totalMb ≤ 10 * q + 5 := by omega
    have hgeCast : 10 * (q : ℚ) ≤ totalMb + 4 := by exact_mod_cast hge
    have hleCast : (totalMb : ℚ) ≤ 10 * q + 5 := by exact_mod_cast hle
    rw [abs_lt]
    constructor
    · linarith
    · rcases h.eq_or_lt with rfl | hpos
      · have hzero : 0 ≤ (q : ℚ) := by exact_mod_cast (show 0 ≤ q by omega)
        norm_num at hhigh ⊢
        linarith
      · linarith [hbelow hpos]
  rw [mostlyFreeLimitMb, float_intCast hexact]
  simp only [Option.bind_eq_bind, Option.bind_some, float_eq hproduct, hround]
  rfl

theorem mostlyFreeLimitMb_of_nonpos {totalMb limitMb : ℤ} (h : totalMb ≤ 0)
    (hlimit : mostlyFreeLimitMb totalMb = some limitMb) :
    limitMb = gpuProcessIgnoreMb := by
  simp only [mostlyFreeLimitMb, Option.bind_eq_bind, Option.bind_eq_some_iff] at hlimit
  obtain ⟨total, htotal, product, hproduct, hlimit⟩ := hlimit
  have hcast : (totalMb : ℚ) ≤ 0 := by exact_mod_cast h
  have hnonpos : total * occupiedFraction ≤ 0 := by
    rw [eq_nearest_of_float htotal]
    apply mul_nonpos_of_nonpos_of_nonneg (nearest_nonpos hcast)
    rw [occupiedFraction_eq]
    norm_num
  have hround : roundHalfEven product ≤ 0 := by
    rw [eq_nearest_of_float hproduct]
    exact roundHalfEven_nonpos (nearest_nonpos hnonpos)
  rw [← Option.some.inj hlimit]
  exact max_eq_left (hround.trans (by decide))

/-- The limit as it is computed. -/
theorem Gpu.limitMbInDoubles_eq {limitMb : ℤ} (h : mostlyFreeLimitMb gpu.totalMb = some limitMb) :
    gpu.limitMbInDoubles = limitMb := by
  rw [Gpu.limitMbInDoubles]
  by_cases hmax : gpu.totalMb ≤ 10 ^ 15
  · rw [if_pos hmax]
    rcases le_total gpu.totalMb 0 with hnonpos | hnonneg
    · rw [mostlyFreeLimitMb_of_nonpos hnonpos h]
      exact max_eq_left (by unfold gpuProcessIgnoreMb; omega)
    · exact Option.some.inj ((mostlyFreeLimitMb_eq hnonneg hmax).symm.trans h)
  · rw [if_neg hmax]
    simp only [mostlyFreeLimitMb, Option.bind_eq_bind, Option.bind_eq_some_iff] at h
    obtain ⟨total, htotal, product, hproduct, h⟩ := h
    rw [← Option.some.inj h, eq_nearest_of_float hproduct, eq_nearest_of_float htotal]

theorem busy_iff_unaffected {limitMb : ℤ} (h : mostlyFreeLimitMb gpu.totalMb = some limitMb) :
    ((gpu.Occupied (readable processes) ∨ limitMb < max 0 (gpu.usedMb - gpu.ignoredMb (readable processes))) ↔
      gpu.Busy processes) ↔ gpu.Unaffected processes := by
  have hlimit : gpuProcessIgnoreMb ≤ gpu.limitMb := le_max_left _ _
  have hmoved : gpu.unaccountedMb processes = gpu.unaccountedMb (readable processes) - gpu.ignoredMb
    (skipped processes) := by
    rw [Gpu.unaccountedMb, Gpu.ignoredMb_eq, Gpu.unaccountedMb]
    ring
  rw [Gpu.Busy, lt_max_zero_iff (ignoreMb_le_of_mostlyFreeLimitMb h), lt_max_zero_iff hlimit,
    ← Gpu.limitMbInDoubles_eq h]
  change (gpu.Occupied (readable processes) ∨ gpu.limitMbInDoubles < gpu.unaccountedMb (readable processes) ↔
    gpu.Occupied processes ∨ gpu.limitMb < gpu.unaccountedMb processes) ↔ _
  by_cases hcounted : gpu.Occupied (readable processes)
  · exact iff_of_true (iff_of_true (.inl hcounted) (.inl (Gpu.occupied_iff.mpr (.inl hcounted))))
      (.counted hcounted)
  by_cases hskipped : gpu.Occupied (skipped processes)
  · have hoccupied : gpu.Occupied processes := Gpu.occupied_iff.mpr (.inr hskipped)
    constructor
    · intro hiff
      exact .full hskipped ((hiff.mpr (.inl hoccupied)).resolve_left hcounted)
    · rintro (hseen | ⟨-, hfull⟩ | ⟨hnone, -⟩)
      · exact absurd hseen hcounted
      · exact iff_of_true (.inr hfull) (.inl hoccupied)
      · exact absurd hoccupied hnone
  · have hoccupied : ¬gpu.Occupied processes := fun hin => (Gpu.occupied_iff.mp hin).elim hcounted hskipped
    rw [or_iff_right hcounted, or_iff_right hoccupied]
    constructor
    · intro hiff
      refine .apart hoccupied ?_ ?_
      · omega
      · omega
    · rintro (hseen | ⟨hseen, -⟩ | ⟨-, hbelow, habove⟩)
      · exact absurd hseen hcounted
      · exact absurd hseen hskipped
      · omega

/-- In exact arithmetic, halves go to the even neighbour. -/
theorem roundHalfEven_tenth (totalMb : ℤ) :
    roundHalfEven (totalMb / 10) = if totalMb % 20 = 15 then (totalMb + 4) / 10 + 1 else (totalMb + 4) / 10 := by
  have hfloor : ⌊(totalMb : ℚ) / 10⌋ = totalMb / 10 := by
    exact_mod_cast Rat.floor_intCast_div_natCast totalMb 10
  have hmod : 10 * (totalMb / 10) + totalMb % 10 = totalMb := Int.mul_ediv_add_emod totalMb 10
  have hcast : (totalMb : ℚ) / 10 - (totalMb / 10 : ℤ) = (totalMb % 10 : ℤ) / 10 := by
    have hq : (10 : ℚ) * (totalMb / 10 : ℤ) + (totalMb % 10 : ℤ) = totalMb := by exact_mod_cast hmod
    rw [← hq]
    ring
  have hhalf : ((totalMb % 10 : ℤ) : ℚ) / 10 < 1 / 2 ↔ totalMb % 10 < 5 := by
    rw [div_lt_div_iff₀ (by norm_num) (by norm_num)]
    constructor
    · intro h
      have hint : totalMb % 10 * 2 < 1 * 10 := by exact_mod_cast h
      omega
    · intro h
      have hint : totalMb % 10 * 2 < 1 * 10 := by omega
      exact_mod_cast hint
  have hmore : (1 : ℚ) / 2 < ((totalMb % 10 : ℤ) : ℚ) / 10 ↔ 5 < totalMb % 10 := by
    rw [div_lt_div_iff₀ (by norm_num) (by norm_num)]
    constructor
    · intro h
      have hint : 1 * 10 < totalMb % 10 * 2 := by exact_mod_cast h
      omega
    · intro h
      have hint : 1 * 10 < totalMb % 10 * 2 := by omega
      exact_mod_cast hint
  rw [roundHalfEven, hfloor, hcast]
  simp only [hhalf, hmore, Int.even_iff]
  split_ifs <;> omega

/-- The limit is as it should be, but for a tenth that lies halfway below an even number. -/
theorem Gpu.limitMbInDoubles_eq_limitMb_iff (h : gpu.totalMb ≤ 10 ^ 15) :
    gpu.limitMbInDoubles = gpu.limitMb ↔ ¬(5135 ≤ gpu.totalMb ∧ gpu.totalMb % 20 = 15) := by
  rw [Gpu.limitMbInDoubles, if_pos h, Gpu.limitMb, roundHalfEven_tenth, gpuProcessIgnoreMb]
  split_ifs <;> omega

theorem Gpu.readable_of_le (hname : ¬separator <:+: gpu.name.text) (hindex : gpu.index ≤ 10 ^ 15)
    (htotal : 0 ≤ gpu.totalMb)
    (hmax : gpu.totalMb ≤ 10 ^ 15) (hused : |gpu.usedMb| ≤ 10 ^ 15) : gpu.Readable where
  name := hname
  index := hindex.trans_lt (Nat.pow_lt_pow_right (by omega) (by decide))
  total := by
    have hlt : 10 ^ 15 < 10 ^ maxDigits := Nat.pow_lt_pow_right (by omega) (by decide)
    omega
  used := by
    have hlt : 10 ^ 15 < 10 ^ maxDigits := Nat.pow_lt_pow_right (by omega) (by decide)
    rw [Int.abs_eq_natAbs] at hused
    omega
  totalFloat := mostlyFreeLimitMb_isSome.mp (by
    rw [mostlyFreeLimitMb_eq htotal hmax]
    rfl)
  vramUsed := by
    have hcast : |(gpu.usedMb : ℚ)| ≤ 10 ^ 15 := by exact_mod_cast hused
    apply vramGb_isSome
    calc |(gpu.usedMb : ℚ)| ≤ 2 ^ 50 := hcast.trans (by norm_num)
      _ ≤ 2 ^ 1025 := pow_le_pow_right₀ (by norm_num) (by omega)

theorem skipped_eq_nil (h : ∀ process ∈ processes, process.Readable) : skipped processes = [] := by
  rw [skipped, List.filter_eq_nil_iff]
  intro process hprocess
  simpa using h process hprocess

theorem readable_eq_self (h : ∀ process ∈ processes, process.Readable) : readable processes = processes :=
  List.filter_eq_self.mpr fun process hprocess => decide_eq_true (h process hprocess)

/-- Where every row is read and the limit is exact, nothing is decided differently. -/
theorem Gpu.unaffected_of_readable (h : ∀ process ∈ processes, process.Readable) (hmax : gpu.totalMb ≤ 10 ^ 15)
    (hhalf : ¬(5135 ≤ gpu.totalMb ∧ gpu.totalMb % 20 = 15)) : gpu.Unaffected processes := by
  have hlimit : gpu.limitMbInDoubles = gpu.limitMb := (Gpu.limitMbInDoubles_eq_limitMb_iff hmax).mpr hhalf
  by_cases hoccupied : gpu.Occupied processes
  · exact .counted (by rwa [readable_eq_self h])
  · have hnone : gpu.ignoredMb (skipped processes) = 0 := by
      rw [skipped_eq_nil h]
      rfl
    refine .apart hoccupied ?_ ?_
    · omega
    · omega

theorem classifies_iff_of_readable (h : Reports smi gpus processes) (hreadable : ∀ gpu ∈ gpus, gpu.Readable) :
    Classifies (getGpuInfo smi) gpus processes ↔ ∀ gpu ∈ gpus, gpu.Unaffected processes := by
  rw [getGpuInfo_eq h]
  generalize husage : (readable processes).foldl Usage.add .empty = usage
  rcases mapM_cases (gpuEntry usage) (gpus.map Gpu.row) with ⟨entries, hentries, hforall⟩ | ⟨-, row, hmem, hnone⟩
  · rw [List.forall₂_map_left_iff] at hforall
    rw [hentries, Classifies]
    dsimp only
    rw [hforall.length_eq, eq_self_iff_true, true_and]
    apply forall₂_iff hforall
    intro gpu entry hentry
    obtain ⟨entry', limitMb, heq, hlimit, hindex, hbusy⟩ := exists_gpuEntry (readable_of_gpuEntry hentry) usage
    obtain rfl : entry = entry' := Option.some.inj (hentry.symm.trans heq)
    obtain ⟨hsignificant, hignored⟩ := foldl_add (readable processes) .empty gpu
    rw [husage] at hsignificant hignored
    rw [hbusy, hsignificant, hignored, ← busy_iff_unaffected hlimit]
    simp [hindex, Usage.empty]
  · obtain ⟨gpu, hgpu, rfl⟩ := List.mem_map.mp hmem
    obtain ⟨entry, _, hentry, -⟩ := exists_gpuEntry (hreadable gpu hgpu) usage
    rw [hnone] at hentry
    cases hentry

/-- One row that is not read leaves none. -/
theorem not_classifies_of_unreadable (h : Reports smi gpus processes) (hgpu : gpu ∈ gpus)
    (hunreadable : ¬gpu.Readable) :
    ¬Classifies (getGpuInfo smi) gpus processes := by
  rw [getGpuInfo_eq h]
  generalize (readable processes).foldl Usage.add .empty = usage
  rcases mapM_cases (gpuEntry usage) (gpus.map Gpu.row) with ⟨entries, hentries, hforall⟩ | ⟨hnone, -⟩
  · rw [List.forall₂_map_left_iff] at hforall
    have hall : _ ↔ ∀ gpu ∈ gpus, gpu.Readable :=
      forall₂_iff hforall fun gpu entry hentry => iff_of_true hentry (readable_of_gpuEntry hentry)
    exact absurd (hall.mp hforall gpu hgpu) hunreadable
  · rw [hnone]
    rintro ⟨hcount, -⟩
    rw [List.length_eq_zero_iff.mp hcount.symm] at hgpu
    cases hgpu

/-- The GPUs are classified as the rule says if and only if all their rows are read, and the rows of processes
that are not and the limit in doubles make no difference. -/
theorem classifies_iff (h : Reports smi gpus processes) : Classifies (getGpuInfo smi) gpus processes ↔
    (∀ gpu ∈ gpus, gpu.Readable) ∧ ∀ gpu ∈ gpus, gpu.Unaffected processes := by
  by_cases hreadable : ∀ gpu ∈ gpus, gpu.Readable
  · rw [classifies_iff_of_readable h hreadable]
    exact (and_iff_right hreadable).symm
  · obtain ⟨gpu, hgpu, hunreadable⟩ : ∃ gpu ∈ gpus, ¬gpu.Readable := by simpa using hreadable
    exact iff_of_false (not_classifies_of_unreadable h hgpu hunreadable) fun hboth => hreadable hboth.1

/-- So they are for every table whose rows are all read, if no tenth of a memory lies halfway below an even
number. -/
theorem classifies_of_readable (h : Reports smi gpus processes) (hgpus : ∀ gpu ∈ gpus, gpu.Readable)
    (hprocesses : ∀ process ∈ processes, process.Readable)
    (htotals : ∀ gpu ∈ gpus, gpu.totalMb ≤ 10 ^ 15 ∧ ¬(5135 ≤ gpu.totalMb ∧ gpu.totalMb % 20 = 15)) :
    Classifies (getGpuInfo smi) gpus processes := by
  rw [classifies_iff_of_readable h hgpus]
  intro gpu hgpu
  exact Gpu.unaffected_of_readable hprocesses (htotals gpu hgpu).1 (htotals gpu hgpu).2

def nvidiaSmi (gpus : List Gpu) (processes : List Process) : NvidiaSmi
  | _, .gpus => .output (unlines (gpus.map Gpu.row))
  | _, .computeApps => .output (unlines (processes.map Process.row))

theorem reports_nvidiaSmi (gpus : List Gpu) (processes : List Process) :
    Reports (nvidiaSmi gpus processes) gpus processes :=
  ⟨[], _, _, rfl, fun _ h => absurd h List.not_mem_nil, rfl, rfl⟩

theorem forall_mem_of_all {p : CodePoint → Prop} [DecidablePred p] {text : Str}
    (hall : (text.all fun c => p c) = true) :
    ∀ c ∈ text, p c := by
  simpa using hall

def firstUuid : Uuid := ⟨['G', 'P', 'U'].map codePoint, by decide, forall_mem_of_all (by decide)⟩

def firstGpu : Gpu := ⟨0, firstUuid, ⟨['A'].map codePoint, forall_mem_of_all (by decide)⟩, 10000, 600⟩

def training : Process := ⟨firstUuid, ⟨['a', ',', 'b'].map codePoint, forall_mem_of_all (by decide)⟩, 600⟩

def secondUuid : Uuid := ⟨['I', 'D'].map codePoint, by decide, forall_mem_of_all (by decide)⟩

def secondGpu : Gpu := ⟨1, secondUuid, ⟨['A', ' ', 'B'].map codePoint, forall_mem_of_all (by decide)⟩, 10015, 1003⟩

def workloads : List Process :=
  [⟨firstUuid, ⟨['p', 'i'].map codePoint, forall_mem_of_all (by decide)⟩, 600⟩,
    ⟨secondUuid, ⟨['a', ',', ' ', 'b'].map codePoint, forall_mem_of_all (by decide)⟩, 40⟩,
    ⟨secondUuid, ⟨['s', 'h'].map codePoint, forall_mem_of_all (by decide)⟩, 3⟩]

theorem readable_firstGpu : firstGpu.Readable := by
  apply Gpu.readable_of_le
  · decide
  · decide
  · decide
  · decide
  · decide

theorem readable_secondGpu : secondGpu.Readable := by
  apply Gpu.readable_of_le
  · decide
  · decide
  · decide
  · decide
  · decide

theorem unaffected_secondGpu : secondGpu.Unaffected workloads := by
  have hlimit : secondGpu.limitMb = 1002 := by
    rw [Gpu.limitMb, roundHalfEven_tenth]
    decide
  have hdoubles : secondGpu.limitMbInDoubles = 1001 := by
    rw [Gpu.limitMbInDoubles, if_pos (by decide)]
    decide
  have hunaccounted : secondGpu.unaccountedMb workloads = 960 := by decide
  have hskipped : secondGpu.ignoredMb (skipped workloads) = 40 := by decide +kernel
  refine .apart (by decide) ?_ ?_
  · omega
  · omega

theorem classifies_workloads :
    Classifies (getGpuInfo (nvidiaSmi [firstGpu, secondGpu] workloads)) [firstGpu, secondGpu] workloads := by
  refine (classifies_iff (reports_nvidiaSmi _ _)).mpr ⟨?_, ?_⟩
  · intro gpu hgpu
    rcases List.mem_pair.mp hgpu with rfl | rfl
    · exact readable_firstGpu
    · exact readable_secondGpu
  · intro gpu hgpu
    rcases List.mem_pair.mp hgpu with rfl | rfl
    · exact .counted (by decide +kernel)
    · exact unaffected_secondGpu

theorem not_classifies : ¬∀ smi gpus processes, Reports smi gpus processes →
    Classifies (getGpuInfo smi) gpus processes := by
  intro hall
  have hunaffected := (classifies_iff_of_readable (reports_nvidiaSmi [firstGpu] [training])
    (by simpa using readable_firstGpu)).mp
    (hall _ _ _ (reports_nvidiaSmi _ _)) firstGpu List.mem_cons_self
  have hoccupied : firstGpu.Occupied [training] := ⟨training, List.mem_cons_self, rfl, by decide⟩
  rcases hunaffected with ⟨process, hprocess, -⟩ | ⟨-, hfull⟩ | ⟨hnone, -⟩
  · cases hprocess
  · have hdoubles : firstGpu.limitMbInDoubles = 1000 := by
      rw [Gpu.limitMbInDoubles, if_pos (by decide)]
      decide
    have hunaccounted : firstGpu.unaccountedMb (readable [training]) = 600 := by decide
    omega
  · exact hnone hoccupied

end WorkerHarness.GpuWorkloads
