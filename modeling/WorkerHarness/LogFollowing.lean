import WorkerHarness.SplitLines
import Mathlib.Data.List.DropRight
import Mathlib.Tactic.Common

/-!
# Following the log of a job

The reader polls the last lines of a log and keeps only how many lines it saw last. What it emits is the
log that follows, if between two polls no line leaves the window and the earlier one ends with a line break.
-/

namespace WorkerHarness.LogFollowing

open SplitLines

abbrev Text := List Char

/-- The line breaks of `str.splitlines`. -/
def isLineBreak (c : Char) : Bool :=
  c ∈ ['\n', '\r', '\x0b', '\x0c', '\x1c', '\x1d', '\x1e', '\u0085', '\u2028', '\u2029']

/-- `\r\n` is one line break. -/
def inLine (c c' : Char) : Bool := !isLineBreak c || c = '\r' && c' = '\n'

/-- `text.splitlines(keepends=True)`. -/
def splitlines (text : Text) : List Text := text.splitBy inLine

/-- A line without its line break, as in `text.splitlines()`. -/
def stripEnd (line : Text) : Text := line.rdropWhile isLineBreak

def inUnixLine (c _ : Char) : Bool := c ≠ '\n'

def unixLines (log : Text) : List Text := log.splitBy inUnixLine

def tailLines (n : ℕ) (log : Text) : Text := ((unixLines log).drop ((unixLines log).length - n)).flatten

def headLines (n : ℕ) (log : Text) : Text := ((unixLines log).take n).flatten

/-- `grep -E '^EXIT:'`, or else a message. -/
def grepExit (log : Text) : Text :=
  match (unixLines log).filter fun line => "EXIT:".toList.isPrefixOf line with
  | [] => "still running\n".toList
  | lines => (lines.map fun line => line.rdropWhile (· = '\n') ++ ['\n']).flatten

def sshReadLog (log : Text) (tail head : Option ℕ) : Text :=
  match head, tail with
  | some head, _ => headLines head log
  | none, some 0 => grepExit log
  | none, some (tail + 1) => tailLines (tail + 1) log
  | none, none => tailLines 10 log

def getLogs (log : Text) (tail head : Option ℕ) : Text := sshReadLog log tail head

/-- One poll: the lines to emit, and the number of lines to skip the next time. -/
def poll (tail lastLen : ℕ) (log : Text) : List Text × ℕ :=
  let lines := splitlines (getLogs log (some tail) none)
  (lines.drop lastLen, lines.length)

/-- The lines that are emitted while the log grows. -/
def follow (tail : ℕ) : ℕ → List Text → List Text
  | _, [] => []
  | lastLen, log :: logs => (poll tail lastLen log).1 ++ follow tail (poll tail lastLen log).2 logs

def jobsLogsStream (tail : ℕ) (logs : List Text) : Text := (follow tail 0 logs).flatten

/-- The lines that `--follow` prints. -/
def jobLogsFollow (logs : List Text) : List Text := (follow 50 0 logs).map stripEnd

variable {tail : ℕ} {log d : Text}

def aboveTail (tail : ℕ) (log : Text) : Text := ((unixLines log).take ((unixLines log).length - tail)).flatten

theorem aboveTail_append_tailLines (tail : ℕ) (log : Text) : aboveTail tail log ++ tailLines tail log = log := by
  rw [aboveTail, tailLines, ← List.flatten_append, List.take_append_drop, unixLines, List.flatten_splitBy]

/-- Only the last line may change when the log grows. -/
theorem unixLines_append (log d : Text) : (unixLines log).length ≤ (unixLines (log ++ d)).length ∧
    ∀ k, k < (unixLines log).length → (unixLines (log ++ d)).take k = (unixLines log).take k := by
  unfold unixLines
  by_cases h : Breaks inUnixLine log d
  · rw [splitBy_append_of_breaks h]
    exact ⟨by simp, fun k hk => List.take_append_of_le_length hk.le⟩
  · obtain ⟨ls, u, v, ls', -, -, hlast, -, happend⟩ := splitBy_append_of_not_breaks h
    rw [hlast, happend]
    refine ⟨by simp, fun k hk => ?_⟩
    have hle : k ≤ ls.length := by simpa [Nat.lt_succ_iff] using hk
    rw [List.take_append_of_le_length hle, List.take_append_of_le_length hle]

/-- The lines that leave the window are whole lines. -/
theorem exists_slid (htail : 0 < tail) (log d : Text) :
    ∃ s, tailLines tail log ++ d = s ++ tailLines tail (log ++ d) ∧
    (s = [] ↔ (unixLines (log ++ d)).length - tail = (unixLines log).length - tail) ∧
    ∀ x ∈ s.getLast?, x = '\n' := by
  obtain ⟨hlen, htake⟩ := unixLines_append log d
  have hflat : (unixLines (log ++ d)).flatten = log ++ d := List.flatten_splitBy ..
  have hnil : [] ∉ unixLines (log ++ d) := List.nil_notMem_splitBy inUnixLine (log ++ d)
  generalize hk : (unixLines log).length - tail = k
  generalize hk' : (unixLines (log ++ d)).length - tail = k'
  have hle : k ≤ k' := by omega
  have habove : ((unixLines (log ++ d)).take k).flatten = aboveTail tail log := by
    rw [aboveTail, hk]
    by_cases hzero : k = 0
    · simp [hzero]
    · rw [htake k (by omega)]
  have hsplit : (unixLines (log ++ d)).take k' =
      (unixLines (log ++ d)).take k ++ ((unixLines (log ++ d)).take k').drop k := by
    have htwice : ((unixLines (log ++ d)).take k').take k = (unixLines (log ++ d)).take k := by
      rw [List.take_take, Nat.min_eq_left hle]
    rw [← htwice, List.take_append_drop]
  refine ⟨(((unixLines (log ++ d)).take k').drop k).flatten, ?_, ?_, fun x hx => ?_⟩
  · have hall : aboveTail tail log ++ (tailLines tail log ++ d) = aboveTail tail log ++
        ((((unixLines (log ++ d)).take k').drop k).flatten ++ tailLines tail (log ++ d)) := by
      calc aboveTail tail log ++ (tailLines tail log ++ d)
          = log ++ d := by rw [← List.append_assoc, aboveTail_append_tailLines]
        _ = ((unixLines (log ++ d)).take k').flatten ++ ((unixLines (log ++ d)).drop k').flatten := by
          rw [← List.flatten_append, List.take_append_drop, hflat]
        _ = _ := by
          rw [hsplit, List.flatten_append, habove, List.append_assoc, tailLines, hk', ← hsplit]
    exact List.append_cancel_left hall
  · rw [List.flatten_eq_nil_iff]
    constructor
    · intro hall
      by_contra hne
      have hpos : 0 < (((unixLines (log ++ d)).take k').drop k).length := by
        simp only [List.length_drop, List.length_take]
        omega
      obtain ⟨u, hu⟩ := List.exists_mem_of_length_pos hpos
      exact hnil (hall u hu ▸ List.mem_of_mem_take (List.mem_of_mem_drop hu))
    · intro heq u hu
      rw [heq, List.drop_of_length_le (List.length_take_le _ _)] at hu
      cases hu
  · have hbreaks := breaks_of_splitBy (r := inUnixLine) (a := log ++ d) (List.take_append_drop k' _).symm
    have hne : (((unixLines (log ++ d)).take k').drop k).flatten ≠ [] := fun hnil => by simp [hnil] at hx
    have hrest : ((unixLines (log ++ d)).drop k').flatten ≠ [] := by
      rw [Ne, List.flatten_eq_nil_iff]
      intro hall
      have hpos : 0 < ((unixLines (log ++ d)).drop k').length := by
        have hsome : unixLines (log ++ d) ≠ [] := fun hempty => hne (by simp [hempty])
        have := List.length_pos_iff.mpr hsome
        rw [List.length_drop]
        omega
      obtain ⟨u, hu⟩ := List.exists_mem_of_length_pos hpos
      exact hnil (hall u hu ▸ List.mem_of_mem_drop hu)
    obtain ⟨y, hy⟩ := Option.isSome_iff_exists.mp (List.isSome_head?.mpr hrest)
    have hlast : x ∈ ((unixLines (log ++ d)).take k').flatten.getLast? := by
      rw [hsplit, List.flatten_append, List.getLast?_append_of_ne_nil _ hne]
      exact hx
    simpa [inUnixLine] using hbreaks x hlast y hy

theorem getLast?_tailLines (htail : 0 < tail) (log : Text) : (tailLines tail log).getLast? = log.getLast? := by
  by_cases hnil : tailLines tail log = []
  · have hlog : unixLines log = [] := by
      by_contra hne
      have hpos := List.length_pos_iff.mpr hne
      have hdrop : 0 < ((unixLines log).drop ((unixLines log).length - tail)).length := by
        rw [List.length_drop]
        omega
      obtain ⟨u, hu⟩ := List.exists_mem_of_length_pos hdrop
      have hempty : u = [] := List.flatten_eq_nil_iff.mp hnil u hu
      exact List.nil_notMem_splitBy inUnixLine log (hempty ▸ List.mem_of_mem_drop hu)
    rw [hnil, List.splitBy_eq_nil.mp hlog]
  · conv_rhs => rw [← aboveTail_append_tailLines tail log]
    rw [List.getLast?_append_of_ne_nil _ hnil]

/-- Nothing is appended; or no line leaves the window and what is appended starts a new line. -/
def StepComplete (tail : ℕ) (log log' : Text) : Prop :=
  log' = log ∨ (unixLines log').length - tail = (unixLines log).length - tail ∧
    Breaks inLine log (log'.drop log.length)

/-- The reader never emits what is not new, and it emits all of it if the step is complete. -/
theorem poll_append (htail : 0 < tail) (log d : Text) :
    (poll tail (splitlines (tailLines tail log)).length (log ++ d)).1.flatten <:+ d ∧
      ((poll tail (splitlines (tailLines tail log)).length (log ++ d)).1.flatten = d ↔
        StepComplete tail log (log ++ d)) := by
  have hpoll : (poll tail (splitlines (tailLines tail log)).length (log ++ d)).1 =
      (splitlines (tailLines tail (log ++ d))).drop (splitlines (tailLines tail log)).length := by
    obtain ⟨tail, rfl⟩ := Nat.exists_eq_succ_of_ne_zero htail.ne'
    rfl
  rw [hpoll]
  by_cases hd : d = []
  · subst hd
    simp [StepComplete]
  obtain ⟨s, hslid, hs, hlast⟩ := exists_slid htail log d
  have hstep : StepComplete tail log (log ++ d) ↔ s = [] ∧ Breaks inLine log d := by
    rw [StepComplete, List.drop_left, hs]
    simp [hd]
  by_cases hnil : s = []
  · rw [hnil, List.nil_append] at hslid
    have hbreaks : Breaks inLine (tailLines tail log) d ↔ Breaks inLine log d := by
      unfold Breaks
      rw [getLast?_tailLines htail]
    rw [hstep, ← hbreaks, ← hslid]
    exact ⟨(drop_splitBy_append _ d).1, (drop_splitBy_append _ d).2.trans (by simp [hnil])⟩
  · have hends : ∀ x ∈ s.getLast?, ∀ y, inLine x y = false := fun x hx y => by
      rw [hlast x hx]
      simp [inLine, isLineBreak]
    obtain ⟨hsuffix, hne⟩ := drop_splitBy_slid hslid hnil hends hd
    exact ⟨hsuffix, iff_of_false hne fun hcomplete => hnil (hstep.mp hcomplete).1⟩

theorem poll_snd (htail : 0 < tail) (lastLen : ℕ) (log : Text) :
    (poll tail lastLen log).2 = (splitlines (tailLines tail log)).length := by
  obtain ⟨tail, rfl⟩ := Nat.exists_eq_succ_of_ne_zero htail.ne'
  rfl

/-- Over more polls: at most what is appended, and all of it if every step is complete. -/
theorem follow_append (htail : 0 < tail) (log : Text) (logs : List Text)
    (hgrows : (log :: logs).IsChain (· <+: ·)) :
    ∃ d, (log :: logs).getLast (by simp) = log ++ d ∧
      (follow tail (splitlines (tailLines tail log)).length logs).flatten.length ≤ d.length ∧
      ((follow tail (splitlines (tailLines tail log)).length logs).flatten = d ↔
        (log :: logs).IsChain (StepComplete tail)) := by
  induction logs generalizing log with
  | nil => exact ⟨[], by simp, by simp [follow], by simp [follow]⟩
  | cons log' logs ih =>
    obtain ⟨⟨d, rfl⟩, hrest⟩ := List.isChain_cons_cons.mp hgrows
    obtain ⟨d', hlast, hle, hiff⟩ := ih (log ++ d) hrest
    obtain ⟨hsuffix, hstep⟩ := poll_append htail log d
    refine ⟨d ++ d', ?_, ?_, ?_⟩
    · rw [List.getLast_cons (by simp), hlast, List.append_assoc]
    · rw [follow, poll_snd htail, List.flatten_append, List.length_append, List.length_append]
      exact Nat.add_le_add hsuffix.length_le hle
    · rw [follow, poll_snd htail, List.flatten_append, List.isChain_cons_cons, ← hstep, ← hiff]
      constructor
      · intro heq
        have hlen := congrArg List.length heq
        rw [List.length_append, List.length_append] at hlen
        have hlen' := hsuffix.length_le
        exact List.append_inj heq (by omega)
      · rintro ⟨heq, heq'⟩
        rw [heq, heq']

/-- The lines of a complete step are the lines of what is appended. -/
theorem splitlines_of_stepComplete (htail : 0 < tail) {log d : Text} (h : StepComplete tail log (log ++ d)) :
    splitlines (tailLines tail (log ++ d)) = splitlines (tailLines tail log) ++
      (poll tail (splitlines (tailLines tail log)).length (log ++ d)).1 ∧
    tailLines tail (log ++ d) = tailLines tail log ++ d := by
  have hpoll : (poll tail (splitlines (tailLines tail log)).length (log ++ d)).1 =
      (splitlines (tailLines tail (log ++ d))).drop (splitlines (tailLines tail log)).length := by
    obtain ⟨tail, rfl⟩ := Nat.exists_eq_succ_of_ne_zero htail.ne'
    rfl
  rw [hpoll]
  by_cases hd : d = []
  · subst hd
    simp
  obtain ⟨s, hslid, hs, -⟩ := exists_slid htail log d
  rw [StepComplete, List.drop_left, ← hs] at h
  obtain ⟨hnil, hbreaks⟩ := h.resolve_left (by simp [hd])
  rw [hnil, List.nil_append] at hslid
  have hwindow : Breaks inLine (tailLines tail log) d := by
    unfold Breaks
    rw [getLast?_tailLines htail]
    exact hbreaks
  have hlines : splitlines (tailLines tail log ++ d) = splitlines (tailLines tail log) ++ splitlines d :=
    splitBy_append_of_breaks hwindow
  rw [← hslid, hlines, List.drop_left]
  exact ⟨rfl, rfl⟩

theorem follow_lines (htail : 0 < tail) (log : Text) (logs : List Text) (hgrows : (log :: logs).IsChain (· <+: ·))
    (hsteps : (log :: logs).IsChain (StepComplete tail)) : ∃ d, (log :: logs).getLast (by simp) = log ++ d ∧
      splitlines (tailLines tail log ++ d) = splitlines (tailLines tail log) ++
        follow tail (splitlines (tailLines tail log)).length logs := by
  induction logs generalizing log with
  | nil => exact ⟨[], by simp, by simp [follow]⟩
  | cons log' logs ih =>
    obtain ⟨⟨d, rfl⟩, hrest⟩ := List.isChain_cons_cons.mp hgrows
    obtain ⟨hstep, hsteps⟩ := List.isChain_cons_cons.mp hsteps
    obtain ⟨d', hlast, hlines⟩ := ih (log ++ d) hrest hsteps
    obtain ⟨hsplit, hwindow⟩ := splitlines_of_stepComplete htail hstep
    refine ⟨d ++ d', ?_, ?_⟩
    · rw [List.getLast_cons (by simp), hlast, List.append_assoc]
    · rw [follow, poll_snd htail, ← List.append_assoc, ← hwindow, hlines, hsplit, List.append_assoc]

/-- What is followed is the log from the first line of the first answer on. -/
def followed (tail : ℕ) (log : Text) (logs : List Text) : Text :=
  ((log :: logs).getLast (by simp)).drop (aboveTail tail log).length

theorem follow_zero (htail : 0 < tail) (log : Text) (logs : List Text) : follow tail 0 (log :: logs) =
    splitlines (tailLines tail log) ++ follow tail (splitlines (tailLines tail log)).length logs := by
  obtain ⟨tail, rfl⟩ := Nat.exists_eq_succ_of_ne_zero htail.ne'
  rfl

theorem followed_eq {d : Text} {logs : List Text} (h : (log :: logs).getLast (by simp) = log ++ d) :
    followed tail log logs = tailLines tail log ++ d := by
  have hlog : log ++ d = aboveTail tail log ++ (tailLines tail log ++ d) := by
    rw [← List.append_assoc, aboveTail_append_tailLines]
  rw [followed, h, hlog, List.drop_left]

end WorkerHarness.LogFollowing
