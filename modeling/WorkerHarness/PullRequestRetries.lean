import WorkerHarness.ManagerRows
import WorkerHarness.PullRequests

/-!
# Retries of pull requests

A submission pushes the branch, writes two files, creates the pull request and records its URL. Each of
these steps may be carried out although it is reported as failed. Pushing and writing can be repeated;
creating cannot while the pull request is open.
-/

namespace WorkerHarness.PullRequestRetries

open Coroutines FleetRoutes Orchestrator PullRequests LogFollowing ManagerRows

/-- The row of the task, its branch and files, the open pull request of the branch, and all that were created. -/
structure PrWorld where
  row : PiSession
  pushed : Bool := false
  files : List (String × String) := []
  openUrl : Option String := none
  created : List String := []

/-- What a remote command answers, whether it was carried out, and the URL of a pull request that it creates. -/
structure CallOutcome where
  result : Except PrError String
  executed : Bool
  url : String

/-- What the awaits of one submission answer; a database call that fails may have been executed. -/
structure Outcomes where
  lookup : Option PrError := none
  call : PrCall → CallOutcome
  record : Option (PrError × Bool) := none

/-- `gh pr create` refuses a branch that has an open pull request. -/
def alreadyExists : PrError := .shimError "pr-create" "a pull request for branch already exists"

def PrWorld.create (w : PrWorld) (url : String) : PrWorld :=
  { w with openUrl := some url, created := url :: w.created }

def PrWorld.record (w : PrWorld) (url : String) : PrWorld :=
  { w with row := PiSession.patched [("pr_url", .str url)] w.row }

/-- The commands on the machine of the task. -/
def remoteShim (o : Outcomes) (call : PrCall) : PrM PrWorld String := ExceptT.mk fun w =>
  match call with
  | .push _ _ => ((o.call call).result, { w with pushed := w.pushed || (o.call call).executed })
  | .writeFile path content =>
    ((o.call call).result, if (o.call call).executed then { w with files := (path, content) :: w.files } else w)
  | .prCreate _ _ _ _ _ =>
    if w.openUrl.isSome then
      (match (o.call call).result with
        | .error e => .error e
        | .ok _ => .error alreadyExists, w)
    else ((o.call call).result, if (o.call call).executed then w.create (o.call call).url else w)

inductive SubmitError where
  | httpException (statusCode : ℕ) (message : String) (missing : List String)
  | raised (e : PrError)
  deriving DecidableEq, Repr

def refusal (statusCode : ℕ) (message : String) : Except SubmitError String :=
  .error (.httpException statusCode message [])

/-- The end of `pi_session_submit_pr`, after `open_pr`. -/
def recordPr (o : Outcomes) : Except PrError String × PrWorld → Except SubmitError String × PrWorld
  | (.error (.prRejected missing), w) =>
    (.error (.httpException 422 ("missing required PR sections: " ++ ", ".intercalate missing) missing), w)
  | (.error e, w) => (.error (.raised e), w)
  | (.ok url, w) =>
    match o.record with
    | none => (.ok url, w.record url)
    | some (e, executed) => (.error (.raised e), if executed then w.record url else w)

def launchMetadata (cfg : FleetConfig) (row : PiSession) : Option (Project × Machine) := do
  let project ← cfg.projects.find? fun p => p.name = row.metaText "project"
  let machineName := if row.metaText "machine" = "" then project.machine else row.metaText "machine"
  let machine ← cfg.machines.find? fun m => m.name = machineName
  return (project, machine)

/-- `pi_session_submit_pr` for the task of the row. -/
def piSessionSubmitPr (cfg : FleetConfig) (o : Outcomes) (caller : PiSession) (sessionId summary : String)
    (w : PrWorld) :
    Except SubmitError String × PrWorld :=
  match o.lookup with
  | some e => (.error (.raised e), w)
  | none =>
    if w.row.id ≠ sessionId then (refusal 404 "Pi session not found", w)
    else match ownTask caller w.row with
      | some detail => (refusal 403 detail, w)
      | none =>
        match launchMetadata cfg w.row with
        | none => (refusal 409 "task launch metadata is incomplete", w)
        | some (project, machine) =>
          recordPr o ((openPr (remoteShim o) machine project (w.row.metaText "branch")
            (w.row.metaText "worktree") summary
            w.row.id).run w)

/-- The answers fit what is done: a command that succeeds was carried out, and `pr-create` makes a new pull
request of the project and prints the URL of no other one. -/
structure Fair (remote : String) (o : Outcomes) : Prop where
  executed : ∀ call output, (o.call call).result = .ok output → (o.call call).executed = true
  pull : ∀ branch base title body, isPrUrl remote (o.call (.prCreate remote branch base title body)).url.toList =
    true
  printed : ∀ branch base title body output, (o.call (.prCreate remote branch base title body)).result =
    .ok output →
    ∀ url ∈ prUrls remote output, url = (o.call (.prCreate remote branch base title body)).url.toList

/-- A submission, a `pr-create` that is carried out after it timed out, the end of the open pull request, or a
write of another handler to the row. -/
inductive Step : PrWorld → PrWorld → Prop where
  | submit (cfg : FleetConfig) (o : Outcomes) (caller : PiSession) (sessionId summary : String) (w : PrWorld) :
      (∀ project machine, launchMetadata cfg w.row = some (project, machine) → Fair project.remote o) →
      Step w (piSessionSubmitPr cfg o caller sessionId summary w).2
  | late (url : String) (w : PrWorld) : w.openUrl = none → Step w (w.create url)
  | closed (w : PrWorld) : Step w { w with openUrl := none }
  | other (row : PiSession) (w : PrWorld) : row.metaText "pr_url" = w.row.metaText "pr_url" →
    Step w { w with row := row }

/-- What has become of a task without a pull request. -/
inductive History : PrWorld → Prop where
  | start (row : PiSession) : row.metaText "pr_url" = "" → History { row := row }
  | step {w w' : PrWorld} : History w → Step w w' → History w'

/-- The machine is reachable: every command succeeds, and a `pr-create` prints the URL of its pull request. -/
structure Reachable (remote : String) (o : Outcomes) : Prop where
  lookup : o.lookup = none
  record : o.record = none
  calls : ∀ call, ∃ output, (o.call call).result = .ok output
  shown : ∀ branch base title body output, (o.call (.prCreate remote branch base title body)).result = .ok output →
    prUrls remote output ≠ []

/-- A teardown without `force` passes its checks. -/
def TeardownGoesOn (cfg : FleetConfig) (row : PiSession) : Prop :=
  teardownTask cfg row false = (Prog.call (.teardown row false)).bind fun _ => teardownChecked cfg row false

/-- A teardown without `force` is refused. -/
def TeardownRefused (cfg : FleetConfig) (row : PiSession) : Prop :=
  ∃ message, teardownTask cfg row false =
    (Prog.call (.teardown row false)).bind fun _ => .raise (.worktreeError message)

/-- The submission returns the URL of a pull request of the project and records it. -/
def Submitted (cfg : FleetConfig) (project : Project) (r : Except SubmitError String × PrWorld) : Prop :=
  ∃ url, r.1 = .ok url ∧ isPrUrl project.remote url.toList = true ∧ r.2.row.metaText "pr_url" = url ∧
    url ∈ r.2.created ∧ TeardownGoesOn cfg r.2.row

variable {cfg : FleetConfig} {remote summary sessionId : String} {o : Outcomes} {w w' w'' : PrWorld} {α : Type}

@[simp] theorem metaText_record (url : String) : (w.record url).row.metaText "pr_url" = url := by
  have hget : (w.record url).row.metaData.get "pr_url" = some (.str url) := get_set_self _ _ _
  unfold PiSession.metaText JsonObject.getStr
  rw [hget]
  rfl

@[simp] theorem created_record (url : String) : (w.record url).created = w.created := rfl

def Keeps (w w' : PrWorld) : Prop := w'.row = w.row ∧ w.created ⊆ w'.created

theorem Keeps.refl (w : PrWorld) : Keeps w w := ⟨rfl, List.Subset.refl _⟩

theorem Keeps.trans (h : Keeps w w') (h' : Keeps w' w'') : Keeps w w'' :=
  ⟨h'.1.trans h.1, List.Subset.trans h.2 h'.2⟩

theorem keeps_create (url : String) : Keeps w (w.create url) := ⟨rfl, List.subset_cons_self _ _⟩

section Create

variable (o : Outcomes) (repo branch base title body : String)

theorem run_prCreate_open (h : w.openUrl.isSome = true) :
    ∃ e, (remoteShim o (.prCreate repo branch base title body)).run w = (.error e, w) := by
  simp only [remoteShim, ExceptT.run_mk, h, if_true]
  cases (o.call (.prCreate repo branch base title body)).result with
  | error e => exact ⟨e, rfl⟩
  | ok _ => exact ⟨alreadyExists, rfl⟩

theorem run_prCreate (h : w.openUrl = none) : (remoteShim o (.prCreate repo branch base title body)).run w =
    ((o.call (.prCreate repo branch base title body)).result,
      if (o.call (.prCreate repo branch base title body)).executed
      then w.create (o.call (.prCreate repo branch base title body)).url else w) := by
  simp only [remoteShim, ExceptT.run_mk, h, Option.isSome_none, Bool.false_eq_true, if_false]

end Create

theorem keeps_remoteShim (o : Outcomes) (call : PrCall) : Keeps w ((remoteShim o call).run w).2 := by
  cases call with
  | push worktree branch => exact Keeps.refl w
  | writeFile path content =>
    simp only [remoteShim, ExceptT.run_mk]
    split
    · exact ⟨rfl, List.Subset.refl _⟩
    · exact Keeps.refl w
  | prCreate repo branch base title body =>
    cases hopen : w.openUrl with
    | some url =>
      obtain ⟨e, hrun⟩ := run_prCreate_open o repo branch base title body (w := w) (by rw [hopen]; rfl)
      rw [hrun]
      exact Keeps.refl w
    | none =>
      rw [run_prCreate o repo branch base title body hopen]
      dsimp only
      split
      · exact keeps_create _
      · exact Keeps.refl w

/-- A result that keeps the row, and is the URL of a pull request if there is one. -/
def Sound (w : PrWorld) (r : Except PrError String × PrWorld) : Prop :=
  Keeps w r.2 ∧ ∀ url, r.1 = .ok url → url ∈ r.2.created

theorem sound_error (e : PrError) (h : Keeps w w') : Sound w (.error e, w') := ⟨h, nofun⟩

theorem sound_andThen {r : Except PrError α × PrWorld} {f : α → PrWorld → Except PrError String × PrWorld}
    (hr : Keeps w r.2) (hf : ∀ a, r.1 = .ok a → Sound r.2 (f a r.2)) : Sound w (andThen r f) := by
  obtain ⟨r, w'⟩ := r
  cases r with
  | error e => exact sound_error e hr
  | ok a =>
    obtain ⟨hkeeps, hurl⟩ := hf a rfl
    exact ⟨hr.trans hkeeps, hurl⟩

/-- The announced URL is one that was printed. -/
theorem mem_of_announced {output url : String} (h : announced remote output = .ok url) :
    url.toList ∈ prUrls remote output := by
  unfold announced at h
  split at h
  · cases h
  · next text htext =>
    cases h
    rw [String.toList_ofList]
    exact List.mem_of_getLast? htext

/-- What is announced was created. -/
theorem sound_announced (hfair : Fair remote o) (branch base title body : String) :
    Sound w (andThen ((remoteShim o (.prCreate remote branch base title body)).run w) fun output s =>
      (announced remote output, s)) := by
  cases hopen : w.openUrl with
  | some url =>
    obtain ⟨e, hrun⟩ := run_prCreate_open o remote branch base title body (w := w) (by rw [hopen]; rfl)
    rw [hrun]
    exact sound_error e (Keeps.refl w)
  | none =>
    have hkeeps := keeps_remoteShim (w := w) o (.prCreate remote branch base title body)
    rw [run_prCreate o remote branch base title body hopen] at hkeeps ⊢
    refine sound_andThen hkeeps fun output houtput => ⟨Keeps.refl _, fun url hurl => ?_⟩
    have hsame := hfair.printed _ _ _ _ _ houtput _ (mem_of_announced hurl)
    rw [String.toList_inj] at hsame
    simp [hfair.executed _ _ houtput, hsame, PrWorld.create]

theorem sound_openPr (machine : Machine) {project : Project} (hfair : Fair project.remote o)
    (branch worktree summary sessionId : String) :
    Sound w ((openPr (remoteShim o) machine project branch worktree summary sessionId).run w) := by
  by_cases hmissing : missingSections summary = []
  · cases htitle : taskTitle summary with
    | error e =>
      have hrun : (openPr (remoteShim o) machine project branch worktree summary sessionId).run w =
        (.error e, w) := by
        unfold openPr
        rw [if_neg (by simpa using hmissing), htitle]
        rfl
      rw [hrun]
      exact sound_error e (Keeps.refl w)
    | ok title =>
      rw [run_openPr hmissing htitle]
      refine sound_andThen (keeps_remoteShim o _) fun _ _ => ?_
      refine sound_andThen (keeps_remoteShim o _) fun _ _ => ?_
      refine sound_andThen (keeps_remoteShim o _) fun _ _ => ?_
      exact sound_announced hfair _ _ _ _
  · have hrun : (openPr (remoteShim o) machine project branch worktree summary sessionId).run w =
        (.error (.prRejected (missingSections summary)), w) := by
      unfold openPr
      rw [if_pos hmissing]
      rfl
    rw [hrun]
    exact sound_error _ (Keeps.refl w)

def Recorded (w : PrWorld) : Prop := w.row.metaText "pr_url" ≠ "" → w.row.metaText "pr_url" ∈ w.created

theorem Recorded.keeps (h : Recorded w) (hkeeps : Keeps w w') : Recorded w' := by
  intro hurl
  rw [hkeeps.1] at hurl ⊢
  exact hkeeps.2 (h hurl)

theorem recorded_recordPr (h : Recorded w) {r : Except PrError String × PrWorld} (hsound : Sound w r)
    (o : Outcomes) :
    Recorded (recordPr o r).2 := by
  obtain ⟨r, w'⟩ := r
  obtain ⟨hkeeps, hurl⟩ := hsound
  have hrecord (url : String) (hr : r = .ok url) : Recorded (w'.record url) := by
    intro _
    rw [metaText_record]
    exact hurl url hr
  unfold recordPr
  split
  · next heq =>
    cases heq
    exact h.keeps hkeeps
  · next heq =>
    cases heq
    exact h.keeps hkeeps
  · next url _ heq =>
    cases heq
    cases o.record with
    | none => exact hrecord url rfl
    | some failure =>
      obtain ⟨e, executed⟩ := failure
      cases executed with
      | true => exact hrecord url rfl
      | false => exact h.keeps hkeeps

theorem recorded_submit (h : Recorded w)
    (hfair : ∀ project machine, launchMetadata cfg w.row = some (project, machine) → Fair project.remote o)
    (caller : PiSession) (sessionId summary : String) :
    Recorded (piSessionSubmitPr cfg o caller sessionId summary w).2 := by
  unfold piSessionSubmitPr
  split
  · exact h
  · split
    · exact h
    · split
      · exact h
      · split
        · exact h
        · next project machine hmeta =>
          exact recorded_recordPr h (sound_openPr machine (hfair project machine hmeta) _ _ summary w.row.id) o

/-- No history records a pull request that was not created. -/
theorem recorded_of_history (h : History w) : Recorded w := by
  induction h with
  | start row hrow => exact fun hurl => absurd hrow hurl
  | step _ hstep ih =>
    cases hstep with
    | submit cfg o caller sessionId summary w hfair => exact recorded_submit ih hfair caller sessionId summary
    | late url w =>
      intro hurl
      exact List.mem_cons_of_mem _ (ih hurl)
    | closed w => exact ih
    | other row w hrow =>
      intro hurl
      simp only at hurl ⊢
      rw [hrow] at hurl ⊢
      exact ih hurl

theorem run_push (hreach : Reachable remote o) (w : PrWorld) (worktree branch : String) :
    ∃ output w', (remoteShim o (.push worktree branch)).run w = (.ok output, w') ∧ w'.row = w.row ∧
    w'.openUrl = w.openUrl := by
  obtain ⟨output, houtput⟩ := hreach.calls (.push worktree branch)
  simp only [remoteShim, ExceptT.run_mk, houtput]
  exact ⟨output, _, rfl, rfl, rfl⟩

theorem run_writeFile (hreach : Reachable remote o) (w : PrWorld) (path content : String) :
    ∃ output w', (remoteShim o (.writeFile path content)).run w = (.ok output, w') ∧ w'.row = w.row ∧
    w'.openUrl = w.openUrl := by
  obtain ⟨output, houtput⟩ := hreach.calls (.writeFile path content)
  simp only [remoteShim, ExceptT.run_mk, houtput]
  refine ⟨output, _, rfl, ?_⟩
  split
  · exact ⟨rfl, rfl⟩
  · exact ⟨rfl, rfl⟩

theorem role_of_ownTask {caller task : PiSession} (h : ownTask caller task = none) : task.role = "task" := by
  unfold ownTask at h
  split at h
  · cases h
  · next hnot =>
    by_contra hrole
    exact hnot (.inl hrole)

theorem teardownGoesOn {row : PiSession} (hrole : row.role = "task") (hurl : row.metaText "pr_url" ≠ "") :
    TeardownGoesOn cfg row := by
  unfold TeardownGoesOn teardownTask
  simp only [hrole, ne_eq, not_true_eq_false, if_false, hurl, false_and]
  rfl

/-- Without a recorded pull request it takes `force`. -/
theorem teardownRefused {row : PiSession} (hurl : row.metaText "pr_url" = "") : TeardownRefused cfg row := by
  unfold TeardownRefused teardownTask
  by_cases hrole : row.role = "task"
  · simp only [hrole, ne_eq, not_true_eq_false, if_false, hurl, true_and, if_true]
    exact ⟨_, rfl⟩
  · simp only [ne_eq, hrole, not_false_eq_true, if_true]
    exact ⟨_, rfl⟩

section Reachable

variable {caller : PiSession} {project : Project} {machine : Machine} {title : String}
  (hreach : Reachable project.remote o) (hmeta : launchMetadata cfg w.row = some (project, machine))
  (hown : ownTask caller w.row = none) (hmissing : missingSections summary = [])
  (htitle : taskTitle summary = .ok title)

include hreach hmeta hown hmissing htitle

/-- On a reachable machine, it is `pr-create` that decides. -/
theorem submit_of_reachable : ∃ w' branch base title body, w'.row = w.row ∧ w'.openUrl = w.openUrl ∧
    piSessionSubmitPr cfg o caller w.row.id summary w =
      recordPr o (andThen ((remoteShim o (.prCreate project.remote branch base title body)).run w') fun output s =>
        (announced project.remote output, s)) := by
  obtain ⟨_, w₁, hpush, hrow₁, hopen₁⟩ := run_push hreach w (w.row.metaText "worktree") (w.row.metaText "branch")
  obtain ⟨_, w₂, htitleFile, hrow₂, hopen₂⟩ :=
    run_writeFile hreach w₁ (machine.sessionDir w.row.id ++ "/pr-title.txt") (title ++ "\n")
  obtain ⟨_, w₃, hbodyFile, hrow₃, hopen₃⟩ :=
    run_writeFile hreach w₂ (machine.sessionDir w.row.id ++ "/pr-body.md") summary
  refine ⟨w₃, w.row.metaText "branch", project.baseBranch, machine.sessionDir w.row.id ++ "/pr-title.txt",
    machine.sessionDir w.row.id ++ "/pr-body.md", by rw [hrow₃, hrow₂, hrow₁], by rw [hopen₃, hopen₂, hopen₁], ?_⟩
  unfold piSessionSubmitPr
  simp only [hreach.lookup, ne_eq, not_true_eq_false, if_false, hown, hmeta]
  rw [run_openPr hmissing htitle, hpush, andThen_ok, htitleFile, andThen_ok, hbodyFile, andThen_ok]

/-- While no pull request is open, one is created and recorded. -/
theorem submitted_of_not_open (hfair : Fair project.remote o) (hopen : w.openUrl = none) :
    Submitted cfg project (piSessionSubmitPr cfg o caller w.row.id summary w) := by
  obtain ⟨w', branch, base, titleFile, bodyFile, hrow, hopen', hrun⟩ :=
    submit_of_reachable hreach hmeta hown hmissing htitle
  obtain ⟨output, houtput⟩ := hreach.calls (.prCreate project.remote branch base titleFile bodyFile)
  have hurl := List.getLast?_eq_some_getLast (hreach.shown _ _ _ _ _ houtput)
  have hcreated := hfair.printed _ _ _ _ _ houtput _ (List.mem_of_getLast? hurl)
  have hannounced : announced project.remote output =
      .ok (o.call (.prCreate project.remote branch base titleFile bodyFile)).url := by
    unfold announced
    rw [hurl, hcreated]
    simp
  have hpull := hfair.pull branch base titleFile bodyFile
  rw [hrun, run_prCreate o project.remote branch base titleFile bodyFile (hopen'.trans hopen), houtput, andThen_ok,
    hfair.executed _ _ houtput, if_pos rfl, hannounced]
  simp only [recordPr, hreach.record]
  generalize (o.call (.prCreate project.remote branch base titleFile bodyFile)).url = created at hpull ⊢
  refine ⟨created, rfl, hpull, metaText_record created, List.mem_cons_self, ?_⟩
  apply teardownGoesOn
  · exact (congrArg PiSession.role hrow).trans (role_of_ownTask hown)
  · rw [metaText_record]
    rintro rfl
    simp [isPrUrl] at hpull

/-- While a pull request is open, no submission succeeds. -/
theorem not_submitted_of_open (hopen : w.openUrl.isSome = true) :
    ∃ e, (piSessionSubmitPr cfg o caller w.row.id summary w).1 = .error e ∧
      (piSessionSubmitPr cfg o caller w.row.id summary w).2.row = w.row := by
  obtain ⟨w', branch, base, titleFile, bodyFile, hrow, hopen', hrun⟩ :=
    submit_of_reachable hreach hmeta hown hmissing htitle
  obtain ⟨e, hcreate⟩ := run_prCreate_open o project.remote branch base titleFile bodyFile (w := w')
    (by rw [hopen', hopen])
  rw [hrun, hcreate, andThen_error]
  unfold recordPr
  split
  · next heq =>
    cases heq
    exact ⟨_, rfl, hrow⟩
  · next heq =>
    cases heq
    exact ⟨_, rfl, hrow⟩
  · next heq => cases heq

end Reachable

/-- What a later submission on a reachable machine does after any history. -/
theorem later_submission (h : History w) {cfg : FleetConfig} {project : Project} {machine : Machine}
    (hmeta : launchMetadata cfg w.row = some (project, machine)) {o : Outcomes}
    (hreach : Reachable project.remote o)
    (hfair : Fair project.remote o) {caller : PiSession} (hown : ownTask caller w.row = none) {summary : String}
    (hmissing : missingSections summary = []) (htitled : TaskTitled (lines summary)) :
    (w.row.metaText "pr_url" ≠ "" → w.row.metaText "pr_url" ∈ w.created) ∧
    (w.openUrl = none → Submitted cfg project (piSessionSubmitPr cfg o caller w.row.id summary w)) ∧
    (w.openUrl.isSome = true → (∃ e, (piSessionSubmitPr cfg o caller w.row.id summary w).1 = .error e ∧
      (piSessionSubmitPr cfg o caller w.row.id summary w).2.row = w.row)) ∧
    (w.row.metaText "pr_url" = "" → TeardownRefused cfg w.row) ∧
    (w.row.metaText "pr_url" ≠ "" → TeardownGoesOn cfg w.row) := by
  obtain ⟨title, htitle⟩ := exists_title_iff.mpr htitled
  refine ⟨recorded_of_history h, ?_, ?_, teardownRefused, teardownGoesOn (role_of_ownTask hown)⟩
  · exact submitted_of_not_open hreach hmeta hown hmissing htitle hfair
  · exact not_submitted_of_open hreach hmeta hown hmissing htitle

def desktop : Machine := { name := "desktop", home := "/home/u" }

def pulledProject : Project := { name := "p", machine := "desktop", repo := "/src/p", remote := "org/p" }

def pullFleet : FleetConfig where
  machines := [desktop]
  projects := [pulledProject]
  sha256 := fun token => token

def manager : PiSession := { id := "m", role := "pm", metaData := [("project", .str "p")] }

def ownedTask : PiSession :=
  { id := "t", parentSessionId := some "m", role := "task",
    metaData := [("project", .str "p"), ("branch", .str "wh/t"), ("worktree", .str "/w/t")] }

def filledText : Text := (prSections.map fun heading => heading.toList ++ "\nDone.\n".toList).flatten

def filledSections : String := String.ofList filledText

/-- Each command is carried out; the answer of `pr-create` is given. -/
def creates (number : String) (answer : Except PrError String) : Outcomes where
  call
    | .prCreate _ _ _ _ _ =>
      { result := answer, executed := true, url := "https://github.com/org/p/pull/" ++ number }
    | _ => { result := .ok "", executed := true, url := "" }

def lostAnswer : Outcomes := creates "1" (.error .laneTimeout)

def secondAnswer : Outcomes := creates "2" (.ok "https://github.com/org/p/pull/2\n")

theorem fair_creates {number : String} {answer : Except PrError String}
    (hpull : isPrUrl "org/p" ("https://github.com/org/p/pull/" ++ number).toList = true)
    (hanswer : ∀ output, answer = .ok output → prUrls "org/p" output =
      [("https://github.com/org/p/pull/" ++ number).toList]) :
    Fair "org/p" (creates number answer) := by
  constructor
  · intro call output _
    cases call <;> rfl
  · intro branch base title body
    exact hpull
  · intro branch base title body output houtput url hurl
    rw [hanswer output houtput] at hurl
    exact List.mem_singleton.mp hurl

theorem fair_lostAnswer : Fair "org/p" lostAnswer := fair_creates (by decide) nofun

theorem prUrls_secondAnswer :
    prUrls "org/p" "https://github.com/org/p/pull/2\n" = ["https://github.com/org/p/pull/2".toList] := by
  decide +kernel

theorem fair_secondAnswer : Fair "org/p" secondAnswer := by
  apply fair_creates
  · decide
  · intro output houtput
    cases houtput
    exact prUrls_secondAnswer

theorem reachable_secondAnswer : Reachable "org/p" secondAnswer := by
  constructor
  · rfl
  · rfl
  · intro call
    cases call <;> exact ⟨_, rfl⟩
  · intro branch base title body output houtput
    cases houtput
    rw [prUrls_secondAnswer]
    exact List.cons_ne_nil _ _

theorem lines_filledSections : lines filledSections =
    (prSections.map fun heading => [heading.toList, "Done.".toList]).flatten := by
  simp only [lines, filledSections, String.toList_ofList]
  decide +kernel

theorem missingSections_filledSections : missingSections filledSections = [] := by
  unfold missingSections
  rw [lines_filledSections]
  decide +kernel

/-- The line under the first heading is the title. -/
theorem taskTitled_filledSections : TaskTitled (lines filledSections) := by
  rw [lines_filledSections]
  refine ⟨[], taskSection, [], "Done.".toList, _, rfl, ?_, ?_, ?_, ?_, ?_⟩
  · exact fun _ h => absurd h List.not_mem_nil
  · decide +kernel
  · exact fun _ h => absurd h List.not_mem_nil
  · decide
  · decide

theorem launchMetadata_ownedTask : launchMetadata pullFleet ownedTask = some (pulledProject, desktop) := by
  simp [launchMetadata, pullFleet, pulledProject, desktop, ownedTask, PiSession.metaText, JsonObject.getStr,
    JsonObject.get,
    List.lookup_cons]

theorem ownTask_ownedTask : ownTask manager ownedTask = none := by
  simp [ownTask, sameProject, PiSession.project, manager, ownedTask, PiSession.metaText, JsonObject.getStr,
    JsonObject.get]

/-- The first attempt creates a pull request and records nothing. -/
theorem exists_firstAttempt : ∃ w, History w ∧ w.row = ownedTask ∧
    w.openUrl = some "https://github.com/org/p/pull/1" ∧
    w.created = ["https://github.com/org/p/pull/1"] := by
  refine ⟨_, (History.start ownedTask rfl).step (.submit pullFleet lostAnswer manager "t" filledSections _ ?_), ?_⟩
  · intro project machine hmeta
    rw [launchMetadata_ownedTask, Option.some.injEq] at hmeta
    cases hmeta
    exact fair_lostAnswer
  · have hid : ownedTask.id = "t" := rfl
    have hlookup : lostAnswer.lookup = none := rfl
    unfold piSessionSubmitPr
    simp only [hlookup, hid, ne_eq, not_true_eq_false, if_false, ownTask_ownedTask, launchMetadata_ownedTask]
    obtain ⟨title, htitle⟩ := exists_title_iff.mpr taskTitled_filledSections
    rw [run_openPr missingSections_filledSections htitle]
    exact ⟨rfl, rfl, rfl⟩

/-- Once the unannounced pull request is closed, a submission succeeds; until then teardown takes `force`. -/
theorem later_submission_closed : ∃ w, History w ∧ w.created = ["https://github.com/org/p/pull/1"] ∧
    TeardownRefused pullFleet w.row ∧
    Submitted pullFleet pulledProject
    (piSessionSubmitPr pullFleet secondAnswer manager w.row.id filledSections w) := by
  obtain ⟨w, hhistory, hrow, -, hcreated⟩ := exists_firstAttempt
  have hclosed : History { w with openUrl := none } := hhistory.step (.closed w)
  have hmeta : launchMetadata pullFleet w.row = some (pulledProject, desktop) := by
    rw [hrow]
    exact launchMetadata_ownedTask
  have hown : ownTask manager w.row = none := by
    rw [hrow]
    exact ownTask_ownedTask
  obtain ⟨-, hsubmitted, -, hrefused, -⟩ :=
    later_submission hclosed hmeta reachable_secondAnswer fair_secondAnswer hown
    missingSections_filledSections taskTitled_filledSections
  refine ⟨{ w with openUrl := none }, hclosed, hcreated, hrefused ?_, hsubmitted rfl⟩
  change w.row.metaText "pr_url" = ""
  rw [hrow]
  simp [ownedTask, PiSession.metaText, JsonObject.getStr, JsonObject.get, List.lookup_cons]

/-- After the lost answer, a submission on a reachable machine fails. -/
theorem not_submitted_after_lost_answer : ¬∀ w, History w →
    ∀ (cfg : FleetConfig) (project : Project) (machine : Machine),
    launchMetadata cfg w.row = some (project, machine) → ∀ o, Reachable project.remote o → Fair project.remote o →
    ∀ caller, ownTask caller w.row = none → ∀ summary, missingSections summary = [] → TaskTitled (lines summary) →
    Submitted cfg project (piSessionSubmitPr cfg o caller w.row.id summary w) := by
  intro h
  obtain ⟨w, hhistory, hrow, hopen, -⟩ := exists_firstAttempt
  have hmeta : launchMetadata pullFleet w.row = some (pulledProject, desktop) := by
    rw [hrow]
    exact launchMetadata_ownedTask
  have hown : ownTask manager w.row = none := by
    rw [hrow]
    exact ownTask_ownedTask
  obtain ⟨url, hok, -⟩ := h w hhistory pullFleet pulledProject desktop hmeta secondAnswer
    reachable_secondAnswer fair_secondAnswer manager hown filledSections missingSections_filledSections
    taskTitled_filledSections
  obtain ⟨title, htitle⟩ := exists_title_iff.mpr taskTitled_filledSections
  obtain ⟨e, herror, -⟩ := not_submitted_of_open reachable_secondAnswer hmeta hown missingSections_filledSections
    htitle (by rw [hopen]; rfl)
  rw [hok] at herror
  cases herror

end WorkerHarness.PullRequestRetries
