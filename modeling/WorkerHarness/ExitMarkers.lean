import WorkerHarness.IntLiterals

/-!
# The exit marker of a job

The script of a job appends the status of its command to the log, as a line of its own, and every reader of the
log looks for that line. All of them are right about every moment of the job if and only if the command ends what
it prints with a line break and prints no line that starts like the marker.
-/

namespace WorkerHarness.ExitMarkers

open CodePoints SplitLines TextLines IntLiterals

def newline : CodePoint := codePoint '\n'

def marker : Str := str "EXIT:"

/-- What a command prints, if it is text: `grep` does not print the lines of other files. -/
abbrev Output := { text : Str // codePoint '\x00' ∉ text }

/-- `echo EXIT:$ec`. -/
def exitLine (code : Fin 256) : Str := marker ++ decimal code ++ [newline]

def inUnixLine (c _ : CodePoint) : Bool := c ≠ newline

/-- The lines that `grep '^EXIT:'` selects; there are none in a log that does not exist. -/
def exitLines (log : Str) : List Str := (log.splitBy inUnixLine).filter fun line => marker.isPrefixOf line

/-- `grep -q '^EXIT:' … && echo 'done' || echo 'running'`, where the command succeeds. -/
def sshTmuxRunning (log : Str) : Bool :=
  stripText (if exitLines log = [] then str "running\n" else str "done\n") = str "running"

/-- `grep -E '^EXIT:' … | sed 's/EXIT://'`: the first marker of such a line is the one that it starts with. -/
def exitCodes (log : Str) : Str :=
  (exitLines log).flatMap fun line => (line.rdropWhile (· = newline)).drop marker.length ++ [newline]

def sshGetExitCode (log : Str) : Option ℤ :=
  if stripText (exitCodes log) = [] then none else intLiteral (stripText (exitCodes log))

def joinLines (lines : List Str) : Str := [newline].intercalate lines

def stdout (log : Str) : Str := joinLines ((splitlines log).filter fun line => !marker.isPrefixOf line)

/-- What the readers say is true before and after the command ends, and the reply has the lines of the output. -/
structure Reported (output : Str) (code : Fin 256) : Prop where
  running : ∀ log, log <+: output → sshTmuxRunning log = true
  finished : sshTmuxRunning (output ++ exitLine code) = false
  exitCode : sshGetExitCode (output ++ exitLine code) = some (code : ℤ)
  stdout : stdout (output ++ exitLine code) = joinLines (splitlines output)

structure Unmarked (output : Str) : Prop where
  terminated : ∀ c ∈ output.getLast?, c = newline
  lines : ∀ line ∈ splitlines output, ¬marker <+: line

variable {r : CodePoint → CodePoint → Bool} {m log rest output a b : Str} {code : Fin 256}

def StartsLine (r : CodePoint → CodePoint → Bool) (m log : Str) : Prop := ∃ a b, log = a ++ (m ++ b) ∧ Breaks r a m

theorem breaks_append_right (hm : m ≠ []) : Breaks r a (m ++ b) ↔ Breaks r a m := by
  unfold Breaks
  rw [List.head?_append_of_ne_nil _ hm]

/-- A text without a break is in one line with what it starts. -/
theorem exists_first_line (hm : m ≠ []) (hchain : m.IsChain fun c c' => r c c' = true) (b : Str) :
    ∃ line lines, (m ++ b).splitBy r = line :: lines ∧ m <+: line := by
  have hsplit : m.splitBy r = [m] := List.splitBy_of_isChain hm hchain
  by_cases h : Breaks r m b
  · refine ⟨m, b.splitBy r, ?_, List.prefix_rfl⟩
    rw [splitBy_append_of_breaks h, hsplit]
    rfl
  · obtain ⟨ls, u, v, ls', -, -, hlast, -, happend⟩ := splitBy_append_of_not_breaks h
    rw [hsplit] at hlast
    obtain ⟨rfl, rfl⟩ : ls = [] ∧ u = m := by
      cases ls with
      | nil => exact ⟨rfl, (List.cons.inj hlast).1.symm⟩
      | cons l ls => simp at hlast
    exact ⟨u ++ v, ls', happend, List.prefix_append _ _⟩

theorem exists_line_iff (hm : m ≠ []) (hchain : m.IsChain fun c c' => r c c' = true) :
    (∃ line ∈ log.splitBy r, m <+: line) ↔ StartsLine r m log := by
  constructor
  · rintro ⟨line, hmem, rest, rfl⟩
    obtain ⟨before, after, hsplit⟩ := List.append_of_mem hmem
    have hbreaks : Breaks r before.flatten ((m ++ rest) :: after).flatten := breaks_of_splitBy hsplit
    have hlog : log = before.flatten ++ (m ++ (rest ++ after.flatten)) := by
      rw [← List.flatten_splitBy r log, hsplit]
      simp
    refine ⟨before.flatten, rest ++ after.flatten, hlog, ?_⟩
    rw [List.flatten_cons, List.append_assoc] at hbreaks
    exact (breaks_append_right hm).mp hbreaks
  · rintro ⟨a, b, rfl, hbreaks⟩
    obtain ⟨line, lines, hfirst, hstarts⟩ := exists_first_line hm hchain b
    refine ⟨line, ?_, hstarts⟩
    rw [splitBy_append_of_breaks ((breaks_append_right hm).mpr hbreaks), hfirst]
    simp

theorem StartsLine.append (h : StartsLine r m log) (rest : Str) : StartsLine r m (log ++ rest) := by
  obtain ⟨a, b, rfl, hbreaks⟩ := h
  exact ⟨a, b ++ rest, by simp, hbreaks⟩

theorem marker_ne_nil : marker ≠ [] := by decide

theorem length_marker : marker.length = 5 := by decide

theorem newline_notMem_marker : newline ∉ marker := by decide

theorem isLineBreak_of_mem_marker {c : CodePoint} (h : c ∈ marker) : isLineBreak c = false := by
  have hall : marker.all (fun c => !isLineBreak c) = true := by decide
  simpa using List.all_eq_true.mp hall c h

theorem isChain_unix_marker : marker.IsChain fun c c' => inUnixLine c c' = true := by decide

theorem isChain_marker : marker.IsChain fun c c' => inLine c c' = true := by decide

theorem exitLines_eq_nil_iff : exitLines log = [] ↔ ¬StartsLine inUnixLine marker log := by
  rw [exitLines, List.filter_eq_nil_iff, ← exists_line_iff marker_ne_nil isChain_unix_marker]
  simp only [List.isPrefixOf_iff_prefix, not_exists, not_and]

theorem sshTmuxRunning_eq_true_iff : sshTmuxRunning log = true ↔ ¬StartsLine inUnixLine marker log := by
  rw [← exitLines_eq_nil_iff, sshTmuxRunning]
  split
  · next h => exact iff_of_true (by decide) h
  · next h => exact iff_of_false (by decide) h

/-- A prefix without a break is not trimmed off. -/
theorem prefix_rdropWhile {p : CodePoint → Bool} (h : ∀ c ∈ m, p c = false) (hstarts : m <+: log) :
    m <+: log.rdropWhile p := by
  obtain ⟨rest, rfl⟩ := hstarts
  induction rest using List.reverseRecOn with
  | nil =>
    rw [List.append_nil]
    by_cases hm : m = []
    · rw [hm]
      exact List.nil_prefix
    · rw [List.rdropWhile_eq_self_iff.mpr fun _ => by simp [h _ (List.getLast_mem _)]]
  | append_singleton rest c ih =>
    rw [← List.append_assoc]
    cases hc : p c with
    | true =>
      rw [List.rdropWhile_concat_pos _ _ _ hc]
      exact ih
    | false =>
      rw [List.rdropWhile_concat_neg _ _ _ (by simp [hc])]
      exact ⟨rest ++ [c], by simp⟩

/-- A line that starts with the marker, as Python takes the lines. -/
theorem exists_splitlines_iff : (∃ line ∈ splitlines log, marker <+: line) ↔ StartsLine inLine marker log := by
  rw [← exists_line_iff marker_ne_nil isChain_marker]
  constructor
  · rintro ⟨line, hmem, hstarts⟩
    obtain ⟨whole, hwhole, rfl⟩ := List.mem_map.mp hmem
    exact ⟨whole, hwhole, hstarts.trans (List.rdropWhile_prefix _ _)⟩
  · rintro ⟨whole, hwhole, hstarts⟩
    exact ⟨_, List.mem_map_of_mem hwhole, prefix_rdropWhile (fun c hc => isLineBreak_of_mem_marker hc) hstarts⟩

/-- The lines of the shell start where lines of Python start. -/
theorem startsLine_of_unix (h : StartsLine inUnixLine marker log) : StartsLine inLine marker log := by
  obtain ⟨a, b, rfl, hbreaks⟩ := h
  refine ⟨a, b, rfl, fun x hx y hy => ?_⟩
  have hx' : x = newline := by simpa [inUnixLine] using hbreaks x hx y hy
  have hy' : y = codePoint 'E' := (Option.mem_some.mp hy).symm
  rw [hx', hy']
  decide

theorem exitLine_eq (code : Fin 256) : exitLine code = marker ++ (decimal code ++ [newline]) := by
  rw [exitLine, List.append_assoc]

theorem newline_notMem_decimal (n : ℕ) : newline ∉ decimal n := by
  intro hmem
  exact absurd (mem_decimal hmem) (by decide)

theorem isLineBreak_of_mem_decimal {c : CodePoint} {n : ℕ} (h : c ∈ decimal n) : isLineBreak c = false := by
  have hrange := mem_decimal h
  simp only [isLineBreak, decide_eq_false_iff_not, List.mem_cons, List.not_mem_nil, or_false]
  omega

theorem notMem_exitBody : newline ∉ marker ++ decimal code := by
  rw [List.mem_append, not_or]
  exact ⟨newline_notMem_marker, newline_notMem_decimal _⟩

/-- The marker does not overlap itself. -/
theorem eq_nil_of_overlap {p t u : Str} (hp : p ++ (marker ++ t) = marker ++ u) (hlt : p.length < marker.length) :
    p = [] := by
  have hfirst : ∀ i < 5, marker[i]? = some (codePoint 'E') → i = 0 := by decide
  have hat : (p ++ (marker ++ t))[p.length]? = some (codePoint 'E') := by
    rw [List.getElem?_append_right le_rfl, Nat.sub_self]
    rfl
  rw [hp, List.getElem?_append_left hlt] at hat
  exact List.length_eq_zero_iff.mp (hfirst _ (length_marker ▸ hlt) hat)

/-- Where an unmarked output ends, a marked line can start only at its end. -/
theorem startsLine_append_exitLine (hnot : ¬StartsLine inUnixLine marker output) :
    StartsLine inUnixLine marker (output ++ exitLine code) ↔ ∀ c ∈ output.getLast?, c = newline := by
  have hbreaks : Breaks inUnixLine output marker ↔ ∀ c ∈ output.getLast?, c = newline := by
    constructor
    · intro h c hc
      simpa [inUnixLine] using h c hc (codePoint 'E') rfl
    · intro h c hc d _
      rw [h c hc]
      rfl
  rw [← hbreaks]
  constructor
  · rintro ⟨a, b, heq, h⟩
    rw [exitLine_eq] at heq
    rcases List.append_eq_append_iff.mp heq with ⟨p, rfl, hp⟩ | ⟨p, rfl, hp⟩
    · -- The marker would start inside the last line of the script.
      cases p with
      | nil => rwa [List.append_nil] at h
      | cons c p =>
        have hlast : (c :: p).getLast (List.cons_ne_nil _ _) = newline := by
          have hmem : (c :: p).getLast (List.cons_ne_nil _ _) ∈ (output ++ c :: p).getLast? := by
            rw [List.getLast?_append_of_ne_nil _ (List.cons_ne_nil _ _)]
            exact List.getLast_mem_getLast? _
          simpa [inUnixLine] using h _ hmem (codePoint 'E') rfl
        have hnewline : newline ∈ c :: p := hlast ▸ List.getLast_mem _
        have hstarts : c :: p <+: marker ++ decimal code ++ [newline] :=
          ⟨marker ++ b, by rw [List.append_assoc]; exact hp.symm⟩
        rcases List.prefix_concat_iff.mp hstarts with heq | hstarts
        · rw [List.append_assoc] at heq
          rw [heq] at hp
          exact absurd (List.append_right_eq_self.mp hp.symm) (by simp [marker_ne_nil])
        · exact absurd (hstarts.subset hnewline) notMem_exitBody
    · by_cases hlt : p.length < marker.length
      · have hnil := eq_nil_of_overlap hp.symm hlt
        rwa [hnil, List.append_nil]
      · have hmarker : marker <+: p ++ (marker ++ (decimal code ++ [newline])) := hp ▸ List.prefix_append _ _
        obtain ⟨q, hq⟩ : marker <+: p := List.prefix_of_prefix_length_le hmarker (List.prefix_append _ _)
          (Nat.le_of_not_lt hlt)
        exact absurd ⟨a, q, by rw [hq], h⟩ hnot
  · intro h
    exact ⟨output, decimal code ++ [newline], by rw [exitLine_eq], h⟩

theorem breaks_exitLine (hr : ∀ c, r newline c = false) (hterminated : ∀ c ∈ output.getLast?, c = newline) :
    Breaks r output (exitLine code) := by
  intro c hc d _
  rw [hterminated c hc]
  exact hr d

theorem isChain_unixLine {text : Str} (h : newline ∉ text) :
    (text ++ [newline]).IsChain fun c c' => inUnixLine c c' = true := by
  induction text with
  | nil => exact List.IsChain.singleton _
  | cons c text ih =>
    rw [List.mem_cons, not_or] at h
    rw [List.cons_append, List.isChain_cons]
    exact ⟨fun d _ => by simpa [inUnixLine] using Ne.symm h.1, ih h.2⟩

theorem splitBy_exitLine (code : Fin 256) : (exitLine code).splitBy inUnixLine = [exitLine code] :=
  List.splitBy_of_isChain (by simp [exitLine]) (isChain_unixLine notMem_exitBody)

theorem exitLines_append_exitLine (hnot : ¬StartsLine inUnixLine marker output)
    (h : ∀ c ∈ output.getLast?, c = newline) :
    exitLines (output ++ exitLine code) = [exitLine code] := by
  have hnone := exitLines_eq_nil_iff.mpr hnot
  have hmarked : marker.isPrefixOf (exitLine code) = true := by
    rw [List.isPrefixOf_iff_prefix, exitLine_eq]
    exact List.prefix_append _ _
  have hbreaks : Breaks inUnixLine output (exitLine code) := breaks_exitLine (fun _ => rfl) h
  rw [exitLines, splitBy_append_of_breaks hbreaks, List.filter_append, splitBy_exitLine]
  rw [exitLines] at hnone
  rw [hnone, List.nil_append, List.filter_cons_of_pos hmarked, List.filter_nil]

theorem exitCodes_append_exitLine (hnot : ¬StartsLine inUnixLine marker output)
    (h : ∀ c ∈ output.getLast?, c = newline) :
    exitCodes (output ++ exitLine code) = decimal code ++ [newline] := by
  have hbody : (exitLine code).rdropWhile (· = newline) = marker ++ decimal code := by
    rw [exitLine, List.rdropWhile_concat_pos _ _ _ (by simp), List.rdropWhile_eq_self_iff]
    intro hne hlast
    have heq : (marker ++ decimal code).getLast hne = newline := by simpa using hlast
    exact notMem_exitBody (heq ▸ List.getLast_mem hne)
  rw [exitCodes, exitLines_append_exitLine hnot h, List.flatMap_singleton, hbody, List.drop_left]

theorem stripText_decimal (n : ℕ) : stripText (decimal n ++ [newline]) = decimal n := by
  have hspace : ∀ c ∈ decimal n, isWhitespace c = false := fun c hc => by
    have hrange := mem_decimal hc
    simp only [isWhitespace, spaces, decide_eq_false_iff_not, List.mem_cons, List.not_mem_nil, or_false]
    omega
  apply stripText_append_singleton
  · exact fun c hc => hspace c (List.mem_of_mem_head? hc)
  · exact fun c hc => hspace c (List.mem_of_mem_getLast? hc)
  · decide

theorem sshGetExitCode_append_exitLine (hnot : ¬StartsLine inUnixLine marker output)
    (h : ∀ c ∈ output.getLast?, c = newline) :
    sshGetExitCode (output ++ exitLine code) = some (code : ℤ) := by
  have hbound : ((code : ℕ) : ℤ).natAbs < 10 ^ maxDigits := by
    rw [Int.natAbs_natCast]
    calc (code : ℕ) < 256 := code.isLt
      _ ≤ 10 ^ 3 := by omega
      _ ≤ 10 ^ maxDigits := Nat.pow_le_pow_right (by omega) (by decide)
  have htext : decimal code = intText ((code : ℕ) : ℤ) := by
    rw [intText, if_neg (by omega), Int.natAbs_natCast]
  rw [sshGetExitCode, exitCodes_append_exitLine hnot h, stripText_decimal, if_neg (decimal_ne_nil _), htext,
    intLiteral_intText, if_pos hbound]

theorem sshGetExitCode_eq_none (h : ¬StartsLine inUnixLine marker log) : sshGetExitCode log = none := by
  rw [sshGetExitCode, exitCodes, exitLines_eq_nil_iff.mpr h]
  rfl

/-- The log of a job that prints `output`, and has ended with `status` if it has. -/
inductive Moment (output : Str) (status : Option (Fin 256)) : Str → Prop where
  | running {log : Str} : log <+: output → Moment output status log
  | ended {code : Fin 256} : status = some code → Moment output status (output ++ exitLine code)

variable {status : Option (Fin 256)}

/-- At no moment another exit code is read than that of the command, if its output starts no line like the
marker. -/
theorem Moment.exitCode_eq (h : Moment output status log) (hnot : ¬StartsLine inUnixLine marker output) {z : ℤ}
    (hread : sshGetExitCode log = some z) : ∃ code : Fin 256, status = some code ∧ z = code := by
  cases h with
  | running hstarts =>
    obtain ⟨rest, rfl⟩ := hstarts
    rw [sshGetExitCode_eq_none fun hstart => hnot (hstart.append rest)] at hread
    cases hread
  | @ended code hstatus =>
    by_cases hends : StartsLine inUnixLine marker (output ++ exitLine code)
    · rw [sshGetExitCode_append_exitLine hnot ((startsLine_append_exitLine hnot).mp hends)] at hread
      exact ⟨code, hstatus, (Option.some.inj hread).symm⟩
    · rw [sshGetExitCode_eq_none hends] at hread
      cases hread

theorem length_joinLines (lines : List Str) : (joinLines lines).length = (lines.map (·.length + 1)).sum - 1 := by
  induction lines with
  | nil => rfl
  | cons line lines ih =>
    cases lines with
    | nil => simp [joinLines]
    | cons next lines =>
      have hjoin : joinLines (line :: next :: lines) = line ++ newline :: joinLines (next :: lines) := by
        simp [joinLines, List.intercalate]
      rw [hjoin, List.length_append, List.length_cons, ih]
      simp only [List.map_cons, List.sum_cons]
      omega

/-- Lines of some length are missed in the joined text. -/
theorem joinLines_filter_eq_iff {p : Str → Bool} {lines : List Str}
    (hp : ∀ line ∈ lines, p line = false → line ≠ []) :
    joinLines (lines.filter p) = joinLines lines ↔ ∀ line ∈ lines, p line = true := by
  have hsum : ((lines.filter p).map (·.length + 1)).sum ≤ (lines.map (·.length + 1)).sum ∧
      ((∀ line ∈ lines, p line = true) ∨ ((lines.filter p).map (·.length + 1)).sum + 2 ≤
        (lines.map (·.length + 1)).sum) := by
    induction lines with
    | nil => simp
    | cons line lines ih =>
      obtain ⟨hle, hlt⟩ := ih fun l hl => hp l (List.mem_cons_of_mem _ hl)
      cases hline : p line with
      | true =>
        rw [List.filter_cons_of_pos hline]
        simp only [List.map_cons, List.sum_cons, List.forall_mem_cons]
        exact ⟨by omega, hlt.imp (fun hall => ⟨hline, hall⟩) (by omega)⟩
      | false =>
        have hpos := List.length_pos_iff.mpr (hp line List.mem_cons_self hline)
        rw [List.filter_cons_of_neg (by simp [hline])]
        simp only [List.map_cons, List.sum_cons]
        exact ⟨by omega, .inr (by omega)⟩
  constructor
  · intro heq
    refine hsum.2.resolve_right fun hlt => ?_
    have hlength := congrArg List.length heq
    rw [length_joinLines, length_joinLines] at hlength
    omega
  · intro hall
    rw [List.filter_eq_self.mpr hall]

theorem stdout_append_exitLine (h : ∀ c ∈ output.getLast?, c = newline) :
    stdout (output ++ exitLine code) =
      joinLines ((splitlines output).filter fun line => !marker.isPrefixOf line) := by
  have hbody : ∀ c ∈ marker ++ decimal code, isLineBreak c = false := fun c hc =>
    (List.mem_append.mp hc).elim isLineBreak_of_mem_marker isLineBreak_of_mem_decimal
  have hbreaks : Breaks inLine output (exitLine code) := breaks_exitLine (fun _ => rfl) h
  have hline : splitlines (exitLine code) = [marker ++ decimal code] := by
    exact splitlines_append hbody []
  have hmarked : marker.isPrefixOf (marker ++ decimal code) = true :=
    List.isPrefixOf_iff_prefix.mpr (List.prefix_append _ _)
  have hsplit : splitlines (output ++ exitLine code) = splitlines output ++ [marker ++ decimal code] := by
    rw [← hline, splitlines, splitBy_append_of_breaks hbreaks, List.map_append]
    rfl
  rw [stdout, hsplit, List.filter_append, List.filter_cons_of_neg (by simp [hmarked]), List.filter_nil,
    List.append_nil]

/-- The readers are right about a command's job, whatever its status, if and only if its output is unmarked. -/
theorem reported_iff (output : Output) (code : Fin 256) : Reported output.val code ↔ Unmarked output.val := by
  constructor
  · intro h
    have hnot : ¬StartsLine inUnixLine marker output.val :=
      sshTmuxRunning_eq_true_iff.mp (h.running _ List.prefix_rfl)
    have hends : StartsLine inUnixLine marker (output.val ++ exitLine code) := by
      by_contra hnone
      have hrunning := sshTmuxRunning_eq_true_iff.mpr hnone
      rw [h.finished] at hrunning
      cases hrunning
    have hterminated := (startsLine_append_exitLine hnot).mp hends
    refine ⟨hterminated, fun line hline hstarts => ?_⟩
    have hstdout := h.stdout
    rw [stdout_append_exitLine hterminated, joinLines_filter_eq_iff] at hstdout
    · have hkept := hstdout line hline
      simp [List.isPrefixOf_iff_prefix.mpr hstarts] at hkept
    · intro line _ hmarked hnil
      rw [hnil] at hmarked
      exact absurd hmarked (by decide)
  · intro h
    have hnot : ¬StartsLine inUnixLine marker output.val := fun hstart => by
      obtain ⟨line, hline, hstarts⟩ := exists_splitlines_iff.mpr (startsLine_of_unix hstart)
      exact h.lines line hline hstarts
    refine ⟨fun log hlog => ?_, ?_, sshGetExitCode_append_exitLine hnot h.terminated, ?_⟩
    · rw [sshTmuxRunning_eq_true_iff]
      rintro hstart
      obtain ⟨rest, hrest⟩ := hlog
      exact hnot (hrest ▸ hstart.append rest)
    · rw [← Bool.not_eq_true, sshTmuxRunning_eq_true_iff, not_not]
      exact (startsLine_append_exitLine hnot).mpr h.terminated
    · rw [stdout_append_exitLine h.terminated, joinLines_filter_eq_iff]
      · intro line hline
        rw [Bool.not_eq_true', ← Bool.not_eq_true, List.isPrefixOf_iff_prefix]
        exact h.lines line hline
      · intro line _ hmarked hnil
        rw [hnil] at hmarked
        exact absurd hmarked (by decide)

end WorkerHarness.ExitMarkers
