import WorkerHarness.FleetEffects
import WorkerHarness.LogFollowing

/-!
# Pull requests of task agents

The summary of a pull request has to have all required sections, and gives the pull request its title.
One scanner looks for the headings, another one for the first text under `## Task`; they agree on a
summary exactly when the first `## Task` section is not empty.
-/

namespace WorkerHarness.PullRequests

open LogFollowing

def prSections : List String :=
  ["## Task", "## Planned implementation", "## Deviations and issues", "## Surprises and decisions", "## Outcome",
    "## Change size and architecture impact"]

/-- `PR_SECTIONS[0]`. -/
def taskSection : Text := "## Task".toList

inductive PrError where
  | prRejected (missing : List String)
  | valueError (message : String)
  | runtimeError (message : String)
  | shimError (verb stderr : String)
  | laneTimeout
  | cancelledError
  | other (message : String)
  deriving DecidableEq, Repr

/-- `summary.splitlines()`. -/
def lines (summary : String) : List Text := (splitlines summary.toList).map stripEnd

/-- `line.strip()`. -/
def stripped (line : Text) : Text := (line.dropWhile isSpace).rdropWhile isSpace

/-- `re.fullmatch(rf"{re.escape(section)}\s*", line)`. -/
def isHeading (heading line : Text) : Bool := heading.isPrefixOf line && (line.drop heading.length).all isSpace

def missingSections (summary : String) : List String :=
  prSections.filter fun heading => !(lines summary).any (isHeading heading.toList)

/-- The loop of `_task_title`. -/
def titleLoop : Bool → List Text → Option Text
  | _, [] => none
  | inTask, line :: rest =>
    if isHeading taskSection line then titleLoop true rest
    else if inTask && "## ".toList.isPrefixOf line then none
    else if inTask && stripped line ≠ [] then some ((stripped line).take 72)
    else titleLoop inTask rest

def taskTitle (summary : String) : Except PrError String :=
  match titleLoop false (lines summary) with
  | some title => .ok (String.ofList title)
  | none => .error (.valueError "PR summary has no title text under ## Task")

/-- The commands on the machine of the task. -/
inductive PrCall where
  | push (worktree branch : String)
  | writeFile (path content : String)
  | prCreate (remote branch baseBranch titleFile bodyFile : String)
  deriving DecidableEq, Repr

abbrev PrM (σ : Type) := ExceptT PrError (StateM σ)

def isPrUrl (remote : String) (line : Text) : Bool :=
  let start := ("https://github.com/" ++ remote ++ "/pull/").toList
  start.isPrefixOf line && match line.drop start.length with
    | [] => false
    | c :: digits => '1' ≤ c && c ≤ '9' && digits.all fun d => '0' ≤ d && d ≤ '9'

/-- The URLs in the output of `pr-create`. -/
def prUrls (remote output : String) : List Text := ((lines output).map stripped).filter (isPrUrl remote)

def openPr {σ : Type} (shim : PrCall → PrM σ String) (machine : Machine) (project : Project)
    (branch worktree summary sessionId : String) : PrM σ String := do
  if missingSections summary ≠ [] then throw (.prRejected (missingSections summary))
  let title ← ExceptT.mk (pure (taskTitle summary))
  let sessionDir := machine.sessionDir sessionId
  let titleFile := sessionDir ++ "/pr-title.txt"
  let bodyFile := sessionDir ++ "/pr-body.md"
  let _ ← shim (.push worktree branch)
  let _ ← shim (.writeFile titleFile (title ++ "\n"))
  let _ ← shim (.writeFile bodyFile summary)
  let output ← shim (.prCreate project.remote branch project.baseBranch titleFile bodyFile)
  match (prUrls project.remote output).getLast? with
  | none => throw (.runtimeError "pr-create succeeded without returning a PR URL for the project")
  | some url => return String.ofList url

/-- Under the first `## Task` heading, a line of text comes before any other heading. -/
def TaskTitled (document : List Text) : Prop :=
  ∃ before heading skipped line after, document = before ++ heading :: (skipped ++ line :: after) ∧
    (∀ l ∈ before, isHeading taskSection l = false) ∧ isHeading taskSection heading = true ∧
    (∀ l ∈ skipped, isHeading taskSection l = true ∨ stripped l = []) ∧
    stripped line ≠ [] ∧ "## ".toList.isPrefixOf line = false

structure TitleOf (document : List Text) (title : String) : Prop where
  ne_empty : title ≠ ""
  short : title.length ≤ 72
  one_line : ∀ c ∈ title.toList, isLineBreak c = false
  from_body : ∃ before heading body after line, document = before ++ heading :: (body ++ after) ∧
    isHeading taskSection heading = true ∧ (∀ l ∈ body, "## ".toList.isPrefixOf l = false) ∧ line ∈ body ∧
    title = String.ofList ((stripped line).take 72)

variable {document rest body skipped : List Text} {line l heading title : Text} {summary : String}

theorem stripped_eq_nil_iff : stripped line = [] ↔ ∀ c ∈ line, isSpace c = true := by
  unfold stripped
  rw [List.rdropWhile_eq_nil_iff]
  constructor
  · intro h c hc
    by_contra hspace
    have hmem : c ∈ line.dropWhile isSpace := by
      rw [← List.takeWhile_append_dropWhile (p := isSpace) (l := line), List.mem_append] at hc
      exact hc.resolve_left fun hin => hspace (List.mem_takeWhile_imp hin)
    exact hspace (h c hmem)
  · intro h c hc
    exact h c ((List.dropWhile_suffix _).subset hc)

/-- A heading is no blank line. -/
theorem stripped_ne_nil_of_heading (h : "## ".toList.isPrefixOf line = true) : stripped line ≠ [] := by
  intro hblank
  obtain ⟨l, rfl⟩ := List.isPrefixOf_iff_prefix.mp h
  have hsharp := stripped_eq_nil_iff.mp hblank '#' (by simp)
  exact absurd hsharp (by decide)

theorem startsHeading_of_isHeading (h : isHeading taskSection line = true) :
    "## ".toList.isPrefixOf line = true := by
  rw [isHeading, Bool.and_eq_true] at h
  have hsharp : "## ".toList <+: taskSection := by decide
  exact List.isPrefixOf_iff_prefix.mpr (hsharp.trans (List.isPrefixOf_iff_prefix.mp h.1))

/-- Under a heading, the loop looks for the first line of text, and stops at any other heading. -/
theorem titleLoop_true_iff : titleLoop true document = some title ↔ ∃ skipped line after,
    document = skipped ++ line :: after ∧ (∀ l ∈ skipped, isHeading taskSection l = true ∨ stripped l = []) ∧
    stripped line ≠ [] ∧ "## ".toList.isPrefixOf line = false ∧ (stripped line).take 72 = title := by
  induction document with
  | nil =>
    constructor
    · intro h
      cases h
    · intro ⟨skipped, line, after, h, _⟩
      simp at h
  | cons l rest ih =>
    have hskip (hl : isHeading taskSection l = true ∨ stripped l = []) : (∃ skipped line after,
        l :: rest = skipped ++ line :: after ∧ (∀ l ∈ skipped, isHeading taskSection l = true ∨ stripped l = []) ∧
        stripped line ≠ [] ∧ "## ".toList.isPrefixOf line = false ∧ (stripped line).take 72 = title) ↔
        titleLoop true rest = some title := by
      rw [ih]
      constructor
      · intro ⟨skipped, line, after, heq, hskipped, htext, hstart, htitle⟩
        cases skipped with
        | nil =>
          obtain ⟨rfl, rfl⟩ := List.cons.inj heq
          rcases hl with hl | hl
          · rw [startsHeading_of_isHeading hl] at hstart
            cases hstart
          · exact absurd hl htext
        | cons l' skipped =>
          obtain ⟨rfl, rfl⟩ := List.cons.inj heq
          exact ⟨skipped, line, after, rfl, fun m hm => hskipped m (List.mem_cons_of_mem _ hm), htext,
            hstart, htitle⟩
      · intro ⟨skipped, line, after, heq, hskipped, htext, hstart, htitle⟩
        refine ⟨l :: skipped, line, after, by rw [heq, List.cons_append], ?_, htext, hstart, htitle⟩
        intro m hm
        rcases List.mem_cons.mp hm with rfl | hm
        · exact hl
        · exact hskipped m hm
    -- A line that the loop does not skip decides.
    have hstop (hl : ¬(isHeading taskSection l = true ∨ stripped l = [])) : (∃ skipped line after,
        l :: rest = skipped ++ line :: after ∧ (∀ l ∈ skipped, isHeading taskSection l = true ∨ stripped l = []) ∧
        stripped line ≠ [] ∧ "## ".toList.isPrefixOf line = false ∧ (stripped line).take 72 = title) ↔
        "## ".toList.isPrefixOf l = false ∧ (stripped l).take 72 = title := by
      constructor
      · intro ⟨skipped, line, after, heq, hskipped, htext, hstart, htitle⟩
        cases skipped with
        | nil =>
          obtain ⟨rfl, rfl⟩ := List.cons.inj heq
          exact ⟨hstart, htitle⟩
        | cons l' skipped =>
          obtain ⟨rfl, rfl⟩ := List.cons.inj heq
          exact absurd (hskipped l List.mem_cons_self) hl
      · intro ⟨hstart, htitle⟩
        exact ⟨[], l, rest, rfl, nofun, fun h => hl (.inr h), hstart, htitle⟩
    rw [titleLoop]
    by_cases hheading : isHeading taskSection l = true
    · rw [if_pos hheading, hskip (.inl hheading)]
    · rw [if_neg hheading, Bool.true_and]
      by_cases hstart : "## ".toList.isPrefixOf l = true
      · have htext := stripped_ne_nil_of_heading hstart
        rw [if_pos hstart, hstop fun h => h.elim hheading htext, hstart]
        simp
      · rw [if_neg hstart, Bool.true_and]
        by_cases hblank : stripped l = []
        · rw [if_neg (by simpa using hblank), hskip (.inr hblank)]
        · rw [if_pos (by simpa using hblank), hstop fun h => h.elim hheading hblank, Option.some.injEq,
            Bool.eq_false_iff.mpr hstart]
          simp

theorem titleLoop_false_iff : titleLoop false document = some title ↔ ∃ before heading rest,
    document = before ++ heading :: rest ∧ (∀ l ∈ before, isHeading taskSection l = false) ∧
    isHeading taskSection heading = true ∧ titleLoop true rest = some title := by
  induction document with
  | nil =>
    constructor
    · intro h
      cases h
    · intro ⟨before, heading, rest, h, _⟩
      simp at h
  | cons l document ih =>
    rw [titleLoop]
    by_cases hheading : isHeading taskSection l = true
    · rw [if_pos hheading]
      constructor
      · intro h
        exact ⟨[], l, document, rfl, nofun, hheading, h⟩
      · intro ⟨before, heading, rest, heq, hbefore, _, h⟩
        cases before with
        | nil =>
          obtain ⟨rfl, rfl⟩ := List.cons.inj heq
          exact h
        | cons l' before =>
          obtain ⟨rfl, rfl⟩ := List.cons.inj heq
          rw [hbefore l List.mem_cons_self] at hheading
          cases hheading
    · simp only [if_neg hheading, Bool.false_and, Bool.false_eq_true, if_false]
      rw [ih]
      constructor
      · intro ⟨before, heading, rest, heq, hbefore, hfirst, h⟩
        refine ⟨l :: before, heading, rest, by rw [heq, List.cons_append], ?_, hfirst, h⟩
        intro m hm
        rcases List.mem_cons.mp hm with rfl | hm
        · exact Bool.eq_false_iff.mpr hheading
        · exact hbefore m hm
      · intro ⟨before, heading, rest, heq, hbefore, hfirst, h⟩
        cases before with
        | nil =>
          obtain ⟨rfl, rfl⟩ := List.cons.inj heq
          exact absurd hfirst hheading
        | cons l' before =>
          obtain ⟨rfl, rfl⟩ := List.cons.inj heq
          exact ⟨before, heading, rest, rfl, fun m hm => hbefore m (List.mem_cons_of_mem _ hm), hfirst, h⟩

/-- A title can be formed exactly when the first section has a text. -/
theorem exists_title_iff : (∃ title, taskTitle summary = .ok title) ↔ TaskTitled (lines summary) := by
  have hok : (∃ title, taskTitle summary = .ok title) ↔ ∃ title, titleLoop false (lines summary) = some title := by
    unfold taskTitle
    cases titleLoop false (lines summary) with
    | none => simp
    | some title => simp
  rw [hok]
  constructor
  · intro ⟨title, h⟩
    obtain ⟨before, heading, rest, heq, hbefore, hfirst, h⟩ := titleLoop_false_iff.mp h
    obtain ⟨skipped, line, after, rfl, hskipped, htext, hstart, -⟩ := titleLoop_true_iff.mp h
    exact ⟨before, heading, skipped, line, after, heq, hbefore, hfirst, hskipped, htext, hstart⟩
  · intro ⟨before, heading, skipped, line, after, heq, hbefore, hfirst, hskipped, htext, hstart⟩
    have htrue := titleLoop_true_iff.mpr ⟨skipped, line, after, rfl, hskipped, htext, hstart, rfl⟩
    exact ⟨_, titleLoop_false_iff.mpr ⟨before, heading, _, heq, hbefore, hfirst, htrue⟩⟩

/-- What is skipped under a heading ends with the last heading and blank lines. -/
theorem exists_body (hheading : isHeading taskSection heading = true)
    (hskipped : ∀ l ∈ skipped, isHeading taskSection l = true ∨ stripped l = []) :
    ∃ before heading' body, heading :: skipped = before ++ heading' :: body ∧
    isHeading taskSection heading' = true ∧
      ∀ l ∈ body, stripped l = [] := by
  induction skipped using List.reverseRecOn with
  | nil => exact ⟨[], heading, [], rfl, hheading, nofun⟩
  | append_singleton skipped l ih =>
    obtain ⟨before, heading', body, heq, hheading', hbody⟩ := ih fun m hm => hskipped m (List.mem_append_left _ hm)
    rcases hskipped l (by simp) with hl | hl
    · exact ⟨heading :: skipped, l, [], by simp, hl, nofun⟩
    · refine ⟨before, heading', body ++ [l], ?_, hheading', ?_⟩
      · rw [← List.cons_append, heq, List.append_assoc, List.cons_append]
      · intro m hm
        rcases List.mem_append.mp hm with hm | hm
        · exact hbody m hm
        · rw [List.mem_singleton.mp hm]
          exact hl

/-- In a line with its end, only the end breaks lines. -/
theorem exists_content (h : line.IsChain fun c c' => inLine c c' = true) :
    ∃ content ending, line = content ++ ending ∧ (∀ c ∈ content, isLineBreak c = false) ∧
    ∀ c ∈ ending, isLineBreak c = true := by
  induction line with
  | nil => exact ⟨[], [], rfl, nofun, nofun⟩
  | cons c line ih =>
    cases hbreak : isLineBreak c with
    | false =>
      obtain ⟨content, ending, rfl, hcontent, hending⟩ := ih h.tail
      refine ⟨c :: content, ending, rfl, ?_, hending⟩
      intro d hd
      rcases List.mem_cons.mp hd with rfl | hd
      · exact hbreak
      · exact hcontent d hd
    | true =>
      refine ⟨[], c :: line, rfl, nofun, ?_⟩
      cases line with
      | nil => simpa using hbreak
      | cons d line =>
        rw [List.isChain_cons_cons] at h
        have hpair : c = '\r' ∧ d = '\n' := by simpa [inLine, hbreak] using h.1
        obtain ⟨rfl, rfl⟩ := hpair
        cases line with
        | nil => exact List.forall_mem_cons.mpr ⟨by decide, List.forall_mem_singleton.mpr (by decide)⟩
        | cons e line =>
          rw [List.isChain_cons_cons] at h
          have hend : inLine '\n' e = false := by
            have hnewline : isLineBreak '\n' = true := by decide
            simp [inLine, hnewline]
          rw [hend] at h
          exact absurd h.2.1 Bool.false_ne_true

/-- A line has no line breaks. -/
theorem isLineBreak_of_mem_lines (hl : line ∈ lines summary) : ∀ c ∈ line, isLineBreak c = false := by
  obtain ⟨full, hfull, rfl⟩ := List.mem_map.mp hl
  obtain ⟨content, ending, rfl, hcontent, hending⟩ := exists_content (List.isChain_of_mem_splitBy hfull)
  intro c hc
  apply hcontent
  unfold stripEnd at hc
  clear hfull hl
  induction ending using List.reverseRecOn with
  | nil => exact (List.rdropWhile_prefix _ _).subset (by simpa using hc)
  | append_singleton ending d ih =>
    have hd : isLineBreak d = true := hending d (by simp)
    rw [← List.append_assoc, List.rdropWhile_concat_pos _ _ _ hd] at hc
    exact ih (fun e he => hending e (List.mem_append_left _ he)) hc

theorem mem_of_mem_stripped {c : Char} (hc : c ∈ stripped line) : c ∈ line :=
  (List.dropWhile_suffix _).subset ((List.rdropWhile_prefix _ _).subset hc)

/-- What `_task_title` returns is a title from a section with the heading of the task. -/
theorem titleOf_taskTitle {title : String} (h : taskTitle summary = .ok title) : TitleOf (lines summary) title := by
  unfold taskTitle at h
  split at h
  · next text htext =>
    cases h
    obtain ⟨before, heading, rest, hdocument, -, hheading, hloop⟩ := titleLoop_false_iff.mp htext
    obtain ⟨skipped, line, after, rfl, hskipped, hline, hstart, rfl⟩ := titleLoop_true_iff.mp hloop
    obtain ⟨before', heading', body, hbody, hheading', hblank⟩ := exists_body hheading hskipped
    have hmem : line ∈ lines summary := by rw [hdocument]; simp
    constructor
    · intro hnil
      have hlen := congrArg String.length hnil
      have hpos := List.length_pos_iff.mpr hline
      simp at hlen
      exact hline hlen
    · simp
    · intro c hc
      rw [String.toList_ofList] at hc
      exact isLineBreak_of_mem_lines hmem c (mem_of_mem_stripped (List.mem_of_mem_take hc))
    · refine ⟨before ++ before', heading', body ++ [line], after, line, ?_, hheading', ?_, by simp, rfl⟩
      · calc lines summary = before ++ (heading :: skipped) ++ line :: after := by rw [hdocument]; simp
          _ = _ := by rw [hbody]; simp
      · intro l hl
        rcases List.mem_append.mp hl with hl | hl
        · exact Bool.eq_false_iff.mpr fun hstart => stripped_ne_nil_of_heading hstart (hblank l hl)
        · rw [List.mem_singleton.mp hl]
          exact hstart
  · cases h

section Running

variable {σ α β : Type} {s : σ}

/-- A result without an exception is passed on. -/
def andThen (r : Except PrError α × σ) (f : α → σ → Except PrError β × σ) : Except PrError β × σ :=
  match r with
  | (.ok a, s) => f a s
  | (.error e, s) => (.error e, s)

@[simp] theorem andThen_ok (a : α) (f : α → σ → Except PrError β × σ) : andThen (.ok a, s) f = f a s := rfl

@[simp] theorem andThen_error (e : PrError) (f : α → σ → Except PrError β × σ) :
    andThen (.error e, s) f = (.error e, s) := rfl

theorem run_bind (x : PrM σ α) (f : α → PrM σ β) : (x >>= f).run s = andThen (x.run s) fun a s' =>
    (f a).run s' := by
  simp only [ExceptT.run, bind, ExceptT.bind, ExceptT.mk, StateT.bind]
  cases x s with
  | mk r s' =>
    cases r with
    | ok a => rfl
    | error e => rfl

/-- The pull request that `pr-create` announces. -/
def announced (remote output : String) : Except PrError String :=
  match (prUrls remote output).getLast? with
  | none => .error (.runtimeError "pr-create succeeded without returning a PR URL for the project")
  | some url => .ok (String.ofList url)

/-- The four commands of an accepted summary, one after another. -/
theorem run_openPr {title : String} (h : missingSections summary = []) (htitle : taskTitle summary = .ok title)
    (shim : PrCall → PrM σ String) (machine : Machine) (project : Project) (branch worktree sessionId : String) :
    (openPr shim machine project branch worktree summary sessionId).run s =
      andThen ((shim (.push worktree branch)).run s) fun _ s =>
        andThen ((shim (.writeFile (machine.sessionDir sessionId ++ "/pr-title.txt") (title ++ "\n"))).run
          s) fun _ s =>
          andThen ((shim (.writeFile (machine.sessionDir sessionId ++ "/pr-body.md") summary)).run s) fun _ s =>
            andThen ((shim (.prCreate project.remote branch project.baseBranch
              (machine.sessionDir sessionId ++ "/pr-title.txt")
                (machine.sessionDir sessionId ++ "/pr-body.md"))).run s)
              fun output s => (announced project.remote output, s) := by
  have hstart : (ExceptT.mk (pure (taskTitle summary)) : PrM σ String).run s = (.ok title, s) := by
    rw [htitle]
    rfl
  have hend (output : String) (s' : σ) : (match (prUrls project.remote output).getLast? with
      | none => throw (.runtimeError "pr-create succeeded without returning a PR URL for the project")
      | some url => return String.ofList url : PrM σ String).run s' = (announced project.remote output, s') := by
    unfold announced
    cases (prUrls project.remote output).getLast? with
    | none => rfl
    | some url => rfl
  unfold openPr
  rw [if_neg (by simpa using h)]
  simp only [run_bind, hstart, andThen_ok, hend]

end Running

def noted (answer : PrCall → Except PrError String) (call : PrCall) : PrM (List PrCall) String :=
  ExceptT.mk fun calls => (answer call, calls ++ [call])

theorem run_noted (answer : PrCall → Except PrError String) (call : PrCall) (calls : List PrCall) :
    (noted answer call).run calls = (answer call, calls ++ [call]) := rfl

/-- What `open_pr` returns and which commands it issues. -/
def opened (answer : PrCall → Except PrError String) (machine : Machine) (project : Project)
    (branch worktree summary sessionId : String) : Except PrError String × List PrCall :=
  (openPr (noted answer) machine project branch worktree summary sessionId).run []

structure AcceptanceConsistent (summary : String) : Prop where
  titled : missingSections summary = [] → ∃ title, taskTitle summary = .ok title ∧ TitleOf (lines summary) title
  pushed : missingSections summary = [] → ∀ answer machine project branch worktree sessionId,
    (opened answer machine project branch worktree summary sessionId).2.head? = some (.push worktree branch)
  refused : (∀ title, taskTitle summary ≠ .ok title) → ∀ answer machine project branch worktree sessionId,
    opened answer machine project branch worktree summary sessionId =
      (.error (.prRejected (missingSections summary)), [])

theorem opened_of_missing (h : missingSections summary ≠ []) (answer : PrCall → Except PrError String)
    (machine : Machine)
    (project : Project) (branch worktree sessionId : String) :
    opened answer machine project branch worktree summary sessionId =
    (.error (.prRejected (missingSections summary)), []) := by
  unfold opened openPr
  rw [if_pos h]
  rfl

theorem head?_opened {title : String} (h : missingSections summary = []) (htitle : taskTitle summary = .ok title)
    (answer : PrCall → Except PrError String) (machine : Machine) (project : Project)
    (branch worktree sessionId : String) :
    (opened answer machine project branch worktree summary sessionId).2.head? = some (.push worktree branch) := by
  rw [opened, run_openPr h htitle]
  simp only [run_noted, List.nil_append]
  cases answer (.push worktree branch) with
  | error e => rfl
  | ok _ =>
    rw [andThen_ok]
    cases answer (.writeFile (machine.sessionDir sessionId ++ "/pr-title.txt") (title ++ "\n")) with
    | error e => rfl
    | ok _ =>
      rw [andThen_ok]
      cases answer (.writeFile (machine.sessionDir sessionId ++ "/pr-body.md") summary) with
      | error e => rfl
      | ok _ =>
        rw [andThen_ok]
        cases answer (.prCreate project.remote branch project.baseBranch
          (machine.sessionDir sessionId ++ "/pr-title.txt")
            (machine.sessionDir sessionId ++ "/pr-body.md")) with
        | error e => rfl
        | ok _ => rfl

/-- A summary is treated consistently exactly when a section is missing or the first `## Task` section has a
text. -/
theorem acceptance_consistent_iff (summary : String) :
    AcceptanceConsistent summary ↔ (missingSections summary = [] → TaskTitled (lines summary)) := by
  constructor
  · intro h hnone
    obtain ⟨title, htitle, -⟩ := h.titled hnone
    exact exists_title_iff.mp ⟨title, htitle⟩
  · intro h
    constructor
    · intro hnone
      obtain ⟨title, htitle⟩ := exists_title_iff.mpr (h hnone)
      exact ⟨title, htitle, titleOf_taskTitle htitle⟩
    · intro hnone
      obtain ⟨title, htitle⟩ := exists_title_iff.mpr (h hnone)
      exact head?_opened hnone htitle
    · intro hno
      apply opened_of_missing
      intro hnone
      obtain ⟨title, htitle⟩ := exists_title_iff.mpr (h hnone)
      exact hno title htitle

def emptySections : String := "\n".intercalate prSections

/-- Empty sections are all there, but give no title. -/
theorem not_acceptance_consistent : ¬∀ summary, AcceptanceConsistent summary := by
  intro h
  have hlines : lines emptySections = prSections.map String.toList := by decide +kernel
  have hnone : missingSections emptySections = [] := by
    unfold missingSections
    rw [hlines]
    decide +kernel
  obtain ⟨title, htitle, -⟩ := (h emptySections).titled hnone
  have herror : taskTitle emptySections = .error (.valueError "PR summary has no title text under ## Task") := by
    unfold taskTitle
    rw [hlines]
    rfl
  rw [herror] at htitle
  cases htitle

end WorkerHarness.PullRequests
