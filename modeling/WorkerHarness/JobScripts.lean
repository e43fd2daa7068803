import WorkerHarness.GpuAssignments
import WorkerHarness.ShellLexing

/-!
# The job script

The command of a job is spliced into a line of the job script. The script parses as intended unless
the command ends in a comment or makes an arithmetic command of the parentheses around it.
-/

namespace WorkerHarness.JobScripts

open ShellLexing GpuAssignments BashStrings Database

variable {worker : Worker} {jobId command : String} {gpuIndices : Option (List ℕ)} {body : List Token}

def word (text : String) : Token := .word text.toList

def logPath (worker : Worker) (jobId : String) : String := workerHarnessDir worker ++ "/" ++ jobId ++ "/output.log"

/-- What the script is meant to be, around the tokens of the command. -/
def jobStatements (worker : Worker) (jobId : String) (gpuIndices : Option (List ℕ)) (body : List Token) :
    List Statement :=
  [Statement.simple
    [word "exec", .op '>', .op '>', word (logPath worker jobId), word "2", .op '>', .op '&', word "1"]] ++
    (gpuIndices.elim [] fun indices =>
      [.simple [word "export", word ("CUDA_VISIBLE_DEVICES=" ++ ",".intercalate (indices.map toString))]]) ++
    [.subshell body, .simple [word "ec=$?"], .simple [word "echo", word "EXIT:$ec"],
      .simple [word "sleep", word "60"],
      .simple [word "tmux", word "kill-session", word "-t", word ("wh_" ++ jobId),
        word "2", .op '>', word "/dev/null"]]

/-- A command list that is complete by itself, as far as quotes, comments and parentheses go: a here-document, `$(`
within double quotes or a reserved word such as `do` counts for text. -/
structure Complete (command : String) (body : List Token) : Prop where
  tokens : tokens? command.toList = some body
  balanced : depth 0 body = some 0
  hasCommand : HasCommand body

structure Embeds (worker : Worker) (jobId command : String) (gpuIndices : Option (List ℕ)) (body : List Token) :
    Prop where
  parses : parse (scriptContent worker jobId command gpuIndices).toList =
    some (jobStatements worker jobId gpuIndices body)
  marker : ∀ status : List Token → ℕ, printed status (scriptContent worker jobId command gpuIndices).toList =
    some [("EXIT:" ++ toString (status body)).toList]

def EndsInComment (command : String) : Prop := (run start command.toList).2 = .comment

instance : DecidablePred EndsInComment := fun _ => inferInstanceAs (Decidable (_ = _))

def isPlain (c : Char) : Bool := c.isAlphanum || c = '-' || c = '_' || c = '.' || c = '/'

def Plain (text : String) : Prop := ∀ c ∈ text.toList, isPlain c = true

instance (text : String) : Decidable (Plain text) := List.decidableBAll _ _

theorem ordinary_of_plain {c : Char} (hc : isPlain c = true) : Ordinary c := by
  constructor
  · intro hmem
    simp only [List.mem_cons, List.not_mem_nil, or_false] at hmem
    rcases hmem with rfl | rfl | rfl | rfl <;> exact absurd hc (by decide)
  · unfold separator?
    split <;> first | rfl | exact absurd hc (by decide)

theorem run_plain {text : String} (h : Plain text) (before : List Char) :
    run (.unquoted before) text.toList = ([], .unquoted (before ++ text.toList)) :=
  run_ordinary (fun c hc => ordinary_of_plain (h c hc)) before

theorem ordinary_toString (n : ℕ) : ∀ c ∈ (toString n).toList, Ordinary c := by
  intro c hc
  rw [Nat.toString_eq_repr, Nat.toList_repr] at hc
  have hdigit : c.isDigit = true := Nat.isDigit_of_mem_toDigits (by decide) (by decide) hc
  exact ordinary_of_plain (by simp [isPlain, Char.isAlphanum, hdigit])

theorem ordinary_intercalate {texts : List String} (h : ∀ text ∈ texts, ∀ c ∈ text.toList, Ordinary c) :
    ∀ c ∈ (",".intercalate texts).toList, Ordinary c := by
  induction texts with
  | nil => simp
  | cons text texts ih =>
    have hrest := ih fun text' htext' => h text' (List.mem_cons_of_mem _ htext')
    cases texts with
    | nil => simpa using h text (List.mem_cons_self ..)
    | cons text' texts =>
      intro c hc
      rw [String.intercalate_cons_cons, String.toList_append, String.toList_append] at hc
      rcases List.mem_append.mp hc with hc | hc
      · rcases List.mem_append.mp hc with hc | hc
        · exact h text (List.mem_cons_self ..) c hc
        · have hcomma : c = ',' := by simpa using hc
          rw [hcomma]
          decide
      · exact hrest c hc

def markerLines : String := "echo EXIT:$ec\n" ++ "sleep 60\n" ++ "tmux kill-session -t wh_"

theorem toList_scriptContent : (scriptContent worker jobId command gpuIndices).toList =
    ("#!/bin/bash\n" ++ "exec >>").toList ++ ((workerHarnessDir worker ++ "/" ++ jobId).toList ++
      (("/output.log 2>&1" ++ "\n").toList ++ ((gpuExport gpuIndices).toList ++ ("(".toList ++ (command.toList ++
        ("); ec=$?\n".toList ++ (markerLines.toList ++ (jobId.toList ++ " 2>/dev/null\n".toList)))))))) := by
  unfold scriptContent markerLines
  simp only [String.toList_append, List.append_assoc]

def gpuTokens : Option (List ℕ) → List Token
  | none => []
  | some indices =>
    [word "export", .blank, word ("CUDA_VISIBLE_DEVICES=" ++ ",".intercalate (indices.map toString)), .newline]

def headTokens (worker : Worker) (jobId : String) (gpuIndices : Option (List ℕ)) : List Token :=
  [.newline, word "exec", .blank, .op '>', .op '>', word (logPath worker jobId), .blank, word "2", .op '>', .op '&',
    word "1", .newline] ++ gpuTokens gpuIndices

def footTokens (jobId : String) : List Token :=
  [word "echo", .blank, word "EXIT:$ec", .newline, word "sleep", .blank, word "60", .newline, word "tmux", .blank,
    word "kill-session", .blank, word "-t", .blank, word ("wh_" ++ jobId), .blank, word "2", .op '>',
      word "/dev/null",
    .newline]

theorem run_close (text : List Char) : run (.unquoted text) "); ec=$?\n".toList =
    (flush text ++ [.rparen, .semicolon, .blank, word "ec=$?", .newline], start) := by
  simp [run, step, separator?, start, flush, word]

theorem run_close_comment : run .comment "); ec=$?\n".toList = ([.newline], start) := by decide

theorem run_gpuExport (gpuIndices : Option (List ℕ)) :
    run start (gpuExport gpuIndices).toList = (gpuTokens gpuIndices, start) := by
  cases gpuIndices with
  | none => rfl
  | some indices =>
    have hname : run start "export CUDA_VISIBLE_DEVICES=".toList =
        ([word "export", .blank], .unquoted "CUDA_VISIBLE_DEVICES=".toList) := by decide
    have hlist : ∀ c ∈ (",".intercalate (indices.map toString)).toList, Ordinary c := by
      refine ordinary_intercalate fun text htext => ?_
      obtain ⟨index, -, rfl⟩ := List.mem_map.mp htext
      exact ordinary_toString index
    have hline : ∀ text : List Char, run (.unquoted text) "\n".toList = (flush text ++ [.newline], start) :=
      fun text => by
      simp [run, step, separator?, start, flush]
    unfold gpuExport gpuTokens
    rw [String.toList_append, String.toList_append, List.append_assoc]
    refine (run_seq hname (run_seq (run_ordinary hlist _) (hline _))).trans ?_
    simp [flush, word]

theorem run_head (hdir : Plain (workerHarnessDir worker)) (hid : Plain jobId) :
    run start (("#!/bin/bash\n" ++ "exec >>").toList ++ ((workerHarnessDir worker ++ "/" ++ jobId).toList ++
      (("/output.log 2>&1" ++ "\n").toList ++ (gpuExport gpuIndices).toList))) =
    (headTokens worker jobId gpuIndices, start) := by
  have hexec : run start ("#!/bin/bash\n" ++ "exec >>").toList =
    ([.newline, word "exec", .blank, .op '>', .op '>'], start) := by
    decide
  have hpath : Plain (workerHarnessDir worker ++ "/" ++ jobId) := by
    intro c hc
    simp only [String.toList_append, List.mem_append] at hc
    rcases hc with (hc | hc) | hc
    · exact hdir c hc
    · have hslash : Plain "/" := by decide
      exact hslash c hc
    · exact hid c hc
  have hlog : ∀ text : List Char, run (.unquoted text) ("/output.log 2>&1" ++ "\n").toList =
      ([.word (text ++ "/output.log".toList), .blank, word "2", .op '>', .op '&', word "1", .newline], start) :=
        fun text => by
    simp [run, step, separator?, start, flush, word]
  rw [run_seq hexec (run_seq (run_plain hpath []) (run_seq (hlog _) (run_gpuExport gpuIndices)))]
  simp [headTokens, logPath, word]

theorem run_foot (hid : Plain jobId) :
    run start (markerLines.toList ++ (jobId.toList ++ " 2>/dev/null\n".toList)) = (footTokens jobId, start) := by
  have hmarker : run start markerLines.toList =
    ([word "echo", .blank, word "EXIT:$ec", .newline, word "sleep", .blank,
      word "60", .newline, word "tmux", .blank, word "kill-session", .blank, word "-t", .blank],
      .unquoted "wh_".toList) := by
    decide
  have hnull : ∀ text : List Char, text ≠ [] → run (.unquoted text) " 2>/dev/null\n".toList =
      ([.word text, .blank, word "2", .op '>', word "/dev/null", .newline], start) := fun text htext => by
    simp [run, step, separator?, start, flush, word, htext]
  rw [run_seq hmarker (run_seq (run_plain hid _) (hnull _ (by simp)))]
  simp [footTokens, word]

theorem run_script (hdir : Plain (workerHarnessDir worker)) (hid : Plain jobId) {close : List Token}
    (hclose : run (run start command.toList).2 "); ec=$?\n".toList = (close, start)) :
    run start (scriptContent worker jobId command gpuIndices).toList =
      (headTokens worker jobId gpuIndices ++ .lparen ::
        ((run start command.toList).1 ++ (close ++ footTokens jobId)), start) := by
  have hopen : run start "(".toList = ([.lparen], start) := by decide
  have hhead : run start _ = (headTokens worker jobId gpuIndices, start) := run_head hdir hid
  have hcommand : run start command.toList = ((run start command.toList).1, (run start command.toList).2) := rfl
  have hfoot := run_seq hcommand (run_seq hclose (run_foot hid))
  have hall := run_seq hhead (run_seq hopen hfoot)
  simpa [toList_scriptContent] using hall

/-- The lines before the one of the command. -/
def headStatements (worker : Worker) (jobId : String) (gpuIndices : Option (List ℕ)) : List (List Token) :=
  [word "exec", .op '>', .op '>', word (logPath worker jobId), word "2", .op '>', .op '&', word "1"] ::
    gpuIndices.elim [] fun indices =>
      [[word "export", word ("CUDA_VISIBLE_DEVICES=" ++ ",".intercalate (indices.map toString))]]

def footStatements (jobId : String) : List (List Token) :=
  [[word "ec=$?"], [word "echo", word "EXIT:$ec"], [word "sleep", word "60"],
    [word "tmux", word "kill-session", word "-t", word ("wh_" ++ jobId), word "2", .op '>', word "/dev/null"]]

theorem statements_head (rest : List Token) : statements 0 [] (headTokens worker jobId gpuIndices ++ rest) =
    (statements 0 [] rest).map (([] :: headStatements worker jobId gpuIndices) ++ ·) := by
  cases gpuIndices with
  | none =>
    simp only [headTokens, gpuTokens, headStatements, word, Option.elim]
    simp only [List.append_nil, List.cons_append, List.nil_append, statements, Option.map_map]
    rfl
  | some indices =>
    simp only [headTokens, gpuTokens, headStatements, word, Option.elim]
    simp only [List.cons_append, List.nil_append, statements, Option.map_map]
    rfl

theorem statements_foot : statements 0 [] (word "ec=$?" :: .newline :: footTokens jobId) =
    some (footStatements jobId ++ [[]]) := by
  simp only [footTokens, footStatements, word, statements, List.nil_append, List.cons_append, Option.map_some]

theorem statements_script (hbody : depth 0 body = some 0) : statements 0 []
    (headTokens worker jobId gpuIndices ++ Token.lparen ::
      (body ++ ([Token.rparen, .semicolon, .blank, word "ec=$?", .newline] ++ footTokens jobId))) =
    some ([] :: headStatements worker jobId gpuIndices ++
      (Token.lparen :: (body ++ [Token.rparen])) :: (footStatements jobId ++ [[]])) := by
  have hgroup : statements 0 []
      (Token.lparen :: (body ++ ([Token.rparen, .semicolon, .blank, word "ec=$?", .newline] ++ footTokens jobId))) =
        some ((Token.lparen :: (body ++ [Token.rparen])) :: (footStatements jobId ++ [[]])) := by
    change statements 1 [.lparen] _ = _
    rw [statements_group hbody]
    simp only [List.cons_append, List.nil_append, statements, statements_foot, Option.map_some]
  rw [statements_head, hgroup]
  rfl

theorem mapM_simple {sts : List (List Token)} (h : ∀ ts ∈ sts, ts.head? ≠ some .lparen) :
    sts.mapM statement? = some (sts.map .simple) := by
  induction sts with
  | nil => rfl
  | cons ts sts ih =>
    have hts : statement? ts = some (.simple ts) := by
      have hhead := h ts (List.mem_cons_self ..)
      unfold statement? group?
      split
      · rfl
      · next heq =>
        split at heq
        · exact absurd rfl hhead
        · cases heq
    rw [List.mapM_cons, hts, ih fun ts' hts' => h ts' (List.mem_cons_of_mem _ hts')]
    rfl

/-- The script of a command that does not end in a comment. -/
theorem parse_script (hdir : Plain (workerHarnessDir worker)) (hid : Plain jobId) (hcommand : Complete command body)
    (hcomment : ¬EndsInComment command) : parse (scriptContent worker jobId command gpuIndices).toList =
      some ((headStatements worker jobId gpuIndices).map Statement.simple ++
        (if (group? body).isSome then Statement.arithmetic body else .subshell body) ::
          (footStatements jobId).map Statement.simple) := by
  obtain ⟨text, hfinal, hbody⟩ : ∃ text, (run start command.toList).2 = .unquoted text ∧
      (run start command.toList).1 ++ flush text = body := by
    have htokens := hcommand.tokens
    unfold tokens? at htokens
    unfold EndsInComment at hcomment
    cases hstate : (run start command.toList).2 with
    | unquoted text =>
      rw [hstate] at htokens
      exact ⟨text, rfl, Option.some.inj htokens⟩
    | comment => exact absurd hstate hcomment
    | _ =>
      rw [hstate] at htokens
      cases htokens
  have hrun : run start (scriptContent worker jobId command gpuIndices).toList = _ :=
    run_script hdir hid (hfinal ▸ run_close text)
  have htokens : tokens? (scriptContent worker jobId command gpuIndices).toList =
    some (headTokens worker jobId gpuIndices ++
      .lparen :: (body ++ ([.rparen, .semicolon, .blank, word "ec=$?", .newline] ++ footTokens jobId))) := by
    rw [tokens?, hrun, ← hbody]
    simp [finish, start, flush]
  have hhead : ∀ ts ∈ headStatements worker jobId gpuIndices, ts ≠ [] ∧ ts.head? ≠ some .lparen := by
    cases gpuIndices <;> simp [headStatements, word]
  have hfoot : ∀ ts ∈ footStatements jobId, ts ≠ [] ∧ ts.head? ≠ some .lparen := by simp [footStatements, word]
  have hfilter : ([] :: headStatements worker jobId gpuIndices ++ (Token.lparen :: (body ++ [.rparen])) ::
      (footStatements jobId ++ [[]])).filter (· ≠ []) =
      headStatements worker jobId gpuIndices ++ (.lparen :: (body ++ [.rparen])) :: footStatements jobId := by
    have hkeep {sts : List (List Token)} (h : ∀ ts ∈ sts, ts ≠ [] ∧ ts.head? ≠ some .lparen) :
        sts.filter (· ≠ []) = sts := List.filter_eq_self.mpr fun ts hts => by simpa using (h ts hts).1
    rw [List.cons_append, List.filter_cons_of_neg (by simp), List.filter_append, hkeep hhead,
      List.filter_cons_of_pos (by simp), List.filter_append, hkeep hfoot]
    simp
  have hmap : (headStatements worker jobId gpuIndices ++
    (.lparen :: (body ++ [.rparen])) :: footStatements jobId).mapM
      statement? = some ((headStatements worker jobId gpuIndices).map Statement.simple ++
        (if (group? body).isSome then Statement.arithmetic body else .subshell body) ::
          (footStatements jobId).map Statement.simple) := by
    rw [List.mapM_append, mapM_simple fun ts hts => (hhead ts hts).2, List.mapM_cons,
      statement_parentheses hcommand.balanced hcommand.hasCommand, mapM_simple fun ts hts => (hfoot ts hts).2]
    rfl
  rw [parse, htokens]
  change ((statements 0 [] _).bind fun sts => (sts.filter (· ≠ [])).mapM statement?) = _
  rw [statements_script hcommand.balanced]
  exact (congrArg (List.mapM statement?) hfilter).trans hmap

/-- The comment at the end of a command hides the parenthesis that closes the subshell. -/
theorem parse_script_comment (hdir : Plain (workerHarnessDir worker)) (hid : Plain jobId)
    (hcommand : Complete command body)
    (hcomment : EndsInComment command) : parse (scriptContent worker jobId command gpuIndices).toList = none := by
  have hbody : (run start command.toList).1 = body := by
    have htokens := hcommand.tokens
    rw [tokens?, show (run start command.toList).2 = .comment from hcomment] at htokens
    simpa [finish] using htokens
  have hrun : run start (scriptContent worker jobId command gpuIndices).toList = _ :=
    run_script hdir hid (show run _ _ = _ from (congrArg (run · _) hcomment).trans run_close_comment)
  have htokens : tokens? (scriptContent worker jobId command gpuIndices).toList =
    some (headTokens worker jobId gpuIndices ++
      .lparen :: (body ++ (.newline :: footTokens jobId))) := by
    rw [tokens?, hrun, ← hbody]
    simp [finish, start, flush]
  have hunclosed : statements 0 [] (.lparen :: (body ++ (.newline :: footTokens jobId))) = none := by
    change statements 1 [.lparen] _ = _
    rw [statements_group hcommand.balanced]
    exact statements_unclosed (by simp [footTokens, word]) _ _
  rw [parse, htokens]
  change ((statements 0 [] _).bind fun sts => (sts.filter (· ≠ [])).mapM statement?) = _
  rw [statements_head, hunclosed]
  rfl

theorem jobStatements_eq : jobStatements worker jobId gpuIndices body =
    (headStatements worker jobId gpuIndices).map Statement.simple ++
    Statement.subshell body :: (footStatements jobId).map Statement.simple := by
  cases gpuIndices <;> rfl

theorem expand_status (value : List Char → List Char) : expand value 0 "$?".toList = value ['?'] := by
  simp [expand]

theorem expand_marker (value : List Char → List Char) :
    expand value 0 "EXIT:$ec".toList = "EXIT:".toList ++ value "ec".toList := by
  have hname : ['e', 'c'].takeWhile isNameChar = ['e', 'c'] := by decide
  simp [expand, hname]

theorem exec_head (status : List Token → ℕ) (shell : Shell) :
    (((headStatements worker jobId gpuIndices).map Statement.simple).foldl (Shell.exec status) shell).output =
      shell.output := by
  have hexport : "export".toList ≠ "echo".toList := by decide
  cases gpuIndices with
  | none => rfl
  | some indices =>
    simp only [headStatements, Option.elim, List.map_cons, List.map_nil, List.foldl_cons, List.foldl_nil, word,
      Shell.exec,
      if_neg hexport]

/-- The status of the command is saved and printed. -/
theorem exec_foot (status : List Token → ℕ) (shell : Shell) (body : List Token) :
    ((Statement.subshell body :: (footStatements jobId).map .simple).foldl (Shell.exec status) shell).output =
      shell.output ++ [("EXIT:" ++ toString (status body)).toList] := by
  have hassign : assignment? "ec=$?".toList = some ("ec".toList, "$?".toList) := by decide
  have hsleep : "sleep".toList ≠ "echo".toList := by decide
  have hname : "ec".toList ≠ ['?'] := by decide
  simp only [footStatements, List.map_cons, List.map_nil, List.foldl_cons, List.foldl_nil, word,
    Shell.exec, hassign,
    if_neg hsleep, if_true, expand_status, expand_marker, Shell.value, if_neg hname, String.toList_append]

theorem embeds_of_parses (h : parse (scriptContent worker jobId command gpuIndices).toList =
    some (jobStatements worker jobId gpuIndices body)) : Embeds worker jobId command gpuIndices body := by
  refine ⟨h, fun status => ?_⟩
  rw [printed, h, Option.map_some, jobStatements_eq, List.foldl_append, exec_foot, exec_head]
  rfl

theorem buildJobCommand_script : ∃ before script after,
    buildJobCommand worker jobId command gpuIndices = before ++ script ++ after ∧
      Base64.decode (utf8 script) = some (utf8 (scriptContent worker jobId command gpuIndices)) := by
  refine ⟨_, decodeAscii (Base64.encode (utf8 (scriptContent worker jobId command gpuIndices))), _, rfl, ?_⟩
  rw [utf8_decodeAscii fun _ hb => Base64.ascii_of_mem_encode hb, Base64.decode_encode]

def makeWorker : Worker := { id := "w", name := "w" }

end WorkerHarness.JobScripts
