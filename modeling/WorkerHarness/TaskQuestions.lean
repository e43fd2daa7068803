import WorkerHarness.SessionRows

/-!
# Blocked tasks and their questions

A task that asks its manager is blocked until a prompt is acknowledged. Two things are meant
to hold in every run: a session is blocked exactly when it has a question, and the prompt that
unblocks it is younger than the question. An event batch that itself reports the state
`blocked` breaks the first, a prompt that is still undelivered when the task asks breaks the
second; runs without them keep both.
-/

namespace WorkerHarness.TaskQuestions

open Database SessionRows

/-- Operations as the control server issues them: launches insert fresh sessions, questions have
a text, and a finish ends the session. -/
def Issued : SessionOp → Prop
  | .insert session => session.state = .starting ∧ session.question = ""
  | .block _ question _ _ => question ≠ ""
  | .finish _ state _ _ => state = .stopped ∨ state = .failed
  | _ => True

instance (op : SessionOp) : Decidable (Issued op) := by
  unfold Issued
  split <;> infer_instance

inductive SessionRun (ok : Tables → SessionOp → Prop) : Tables → Prop where
  | init (d : Tables) (hs : d.sessions = []) (hc : d.commands = []) : SessionRun ok d
  | step {d : Tables} {op : SessionOp} : SessionRun ok d → Issued op → ok d op → SessionRun ok (op.run d)

variable {ok : Tables → SessionOp → Prop} {d : Tables} {op : SessionOp} {s s' : PiSession}

theorem SessionRun.sessions_nodup (h : SessionRun ok d) : (d.sessions.map (·.id)).Nodup := by
  induction h with
  | init d hs => simp [hs]
  | step _ _ _ ih => exact sessions_nodup_run ih _

theorem SessionRun.commands_nodup (h : SessionRun ok d) : (d.commands.map (·.id)).Nodup := by
  induction h with
  | init d _ hc => simp [hc]
  | step _ _ _ ih => exact commands_nodup_run ih _

/-- No accepted event batch reports the state `blocked` of a session that is not blocked. -/
def ReportsNoBlock (d : Tables) (op : SessionOp) : Prop :=
  ∀ sessionId payload now uuid, op = .events sessionId payload now uuid → payload.state = some .blocked →
    ∀ s ∈ d.sessions, s.id = sessionId → s.bridgeIncarnation = some payload.incarnation → s.state = .blocked

def Consistent (s : PiSession) : Prop := s.state = .blocked ↔ s.question ≠ ""

def DeliversPrompt (d : Tables) (op : SessionOp) (sessionId : String) : Prop :=
  ∃ commandId incarnation now, op = .ack sessionId commandId incarnation now ∧
    (atomically (ackPiSessionCommand sessionId commandId incarnation now) d).1 = .ok true ∧
    ∃ c ∈ d.commands, c.ackable sessionId commandId incarnation = true ∧ c.kind = "prompt"

/-- How the operation may change whether a row is blocked. -/
structure BlocksByRule (d : Tables) (op : SessionOp) (s s' : PiSession) : Prop where
  enters : s.state ≠ .blocked → s'.state = .blocked → ∃ question uuid now, op = .block s.id question uuid now
  leaves : s.state = .blocked → s'.state ≠ .blocked →
    s'.state = .working ∧ DeliversPrompt d op s.id ∨ s'.state.terminal = true

theorem BlocksByRule.of_state_eq (h : s'.state = s.state) : BlocksByRule d op s s' :=
  ⟨fun hs hs' => absurd (h ▸ hs') hs, fun hs hs' => absurd (h.trans hs) hs'⟩

/-- The state and the question that an event batch writes. -/
theorem batchedSession_state (payload : PiBridgeEventBatch) (pending persisted : Bool) (now : ℕ)
    (hb : payload.state = some .blocked → s.state = .blocked) (hs : Consistent s) :
    Consistent (batchedSession s payload pending now persisted) ∧
      ((batchedSession s payload pending now persisted).state = .blocked → s.state = .blocked) ∧
      (s.state = .blocked → (batchedSession s payload pending now persisted).state ≠ .blocked →
        (batchedSession s payload pending now persisted).state.terminal = true) := by
  unfold Consistent at hs ⊢
  unfold batchedSession
  dsimp only
  cases hp : payload.state with
  | none =>
    dsimp only
    cases hst : s.state <;> simp [PiSessionState.terminal, hst] at hs ⊢ <;> exact hs
  | some state =>
    rw [hp] at hb
    dsimp only
    by_cases hblocked : s.state = .blocked
    · cases state <;> simp [PiSessionState.terminal, hblocked] at hs ⊢ <;> exact hs
    · have hne : state ≠ .blocked := fun he => hblocked (hb (he ▸ rfl))
      have hq : s.question = "" := by
        by_contra hq
        exact hblocked (hs.mpr hq)
      cases state <;> simp [PiSessionState.terminal, hblocked, hq] at hne ⊢

/-- The found prompt of an answer is the acknowledged command. -/
theorem deliversPrompt (hcommands : (d.commands.map (·.id)).Nodup) {commandId incarnation : String} (now : ℕ)
    (hs : s ∈ d.sessions) (hsessions : (d.sessions.map (·.id)).Nodup)
    (hi : s.bridgeIncarnation = some incarnation) (ha : Answers s.id commandId incarnation s d) :
    DeliversPrompt d (.ack s.id commandId incarnation now) s.id := by
  obtain ⟨hany, hkind, -⟩ := ha
  obtain ⟨c, hc, hack⟩ := List.any_eq_true.mp hany
  obtain ⟨c', hfind, hkind⟩ := Option.map_eq_some_iff.mp hkind
  have hcheck : checkIncarnation s.id incarnation (findSession d s.id) = .ok s :=
    checkIncarnation_eq_ok.mpr ⟨(findSession_eq_some hsessions).mpr ⟨hs, rfl⟩, hi⟩
  have hid : c'.id = c.id := by
    have h' := List.find?_some hfind
    simp only [PiSessionCommand.ackable, Bool.and_eq_true, decide_eq_true_eq] at h' hack
    exact h'.1.trans hack.1.1.symm
  have heq : c' = c := List.inj_on_of_nodup_map hcommands (List.mem_of_find?_eq_some hfind) hc hid
  refine ⟨commandId, incarnation, now, rfl, ?_, c, hc, hack, heq ▸ hkind⟩
  rw [atomically_ackPiSessionCommand, hcheck]
  exact congrArg Except.ok hany

theorem row_step (h : RowStep d op s s') (hop : Issued op) (hs : s ∈ d.sessions) (hok : ReportsNoBlock d op)
    (hc : Consistent s) (hsessions : (d.sessions.map (·.id)).Nodup) (hcommands : (d.commands.map (·.id)).Nodup) :
    Consistent s' ∧ BlocksByRule d op s s' := by
  cases h with
  | same => exact ⟨hc, .of_state_eq rfl⟩
  | @registered payload now =>
    have hstate := registeredRow_some_state (s := s) payload now
    have hquestion := registeredRow_some_question (s := s) payload now
    by_cases hb : s.state = .blocked
    · rw [if_pos hb] at hstate
      refine ⟨?_, .of_state_eq (hstate.trans hb.symm)⟩
      rw [Consistent, hquestion, hstate]
      exact iff_of_true rfl (hc.mp hb)
    · rw [if_neg hb] at hstate
      refine ⟨?_, ⟨fun _ hs' => ?_, fun hs' => absurd hs' hb⟩⟩
      · rw [Consistent, hquestion, hstate]
        exact iff_of_false (by decide) fun hq => hb (hc.mpr hq)
      · rw [hstate] at hs'
        cases hs'
  | @reported payload now uuid _ persisted hi =>
    obtain ⟨hcons, henters, hleaves⟩ := batchedSession_state payload
      (payload.hasPendingMessages.isSome && d.commands.any (PiSessionCommand.undelivered s.id)) persisted now
      (fun hp => hok _ payload now uuid rfl hp s hs rfl hi) hc
    exact ⟨hcons, fun hs' hs'' => absurd (henters hs'') hs', fun hs' hs'' => .inr (hleaves hs' hs'')⟩
  | @blocked question uuid now _ hterm =>
    exact ⟨iff_of_true rfl hop, fun _ _ => ⟨question, uuid, now, rfl⟩, fun _ hs' => absurd rfl hs'⟩
  | notified => exact ⟨hc, .of_state_eq rfl⟩
  | answered hi ha =>
    exact ⟨iff_of_false (by simp [PiSession.answered]) (not_not_intro rfl), fun hs' => absurd ha.2.2 hs',
      fun _ _ => .inl ⟨rfl, deliversPrompt hcommands _ hs hsessions hi ha⟩⟩
  | stale =>
    exact ⟨iff_of_false (by simp [PiSession.stale]) (not_not_intro rfl), fun _ hs' => (by cases hs'),
      fun _ _ => .inr rfl⟩
  | finished =>
    rcases hop with rfl | rfl
    · exact ⟨iff_of_false (by simp [PiSession.finished]) (not_not_intro rfl), fun _ hs' => (by cases hs'),
        fun _ _ => .inr rfl⟩
    · exact ⟨iff_of_false (by simp [PiSession.finished]) (not_not_intro rfl), fun _ hs' => (by cases hs'),
        fun _ _ => .inr rfl⟩
  | reparented => exact ⟨hc, .of_state_eq rfl⟩
  | patched => exact ⟨hc, .of_state_eq rfl⟩
  | nextPane => exact ⟨hc, .of_state_eq rfl⟩

theorem newRow_consistent (h : NewRow op s) (hop : Issued op) : Consistent s ∧ s.state ≠ .blocked := by
  cases h with
  | inserted =>
    have hne : s.state ≠ .blocked := by simp [hop.1]
    exact ⟨iff_of_false hne (not_not_intro hop.2), hne⟩
  | registered payload now =>
    have hne : (registeredRow payload now none).state ≠ .blocked := by simp [registeredRow_none_state]
    exact ⟨iff_of_false hne (not_not_intro (registeredRow_none_question payload now)), hne⟩

/-- The blocked-state machine at the tables of a run: what holds there, and what the next operation
may do to any session. -/
def BlockedStateMachine (ok : Tables → SessionOp → Prop) (d : Tables) : Prop :=
  (∀ s ∈ d.sessions, s.state = .blocked ↔ s.question ≠ "") ∧
  ∀ op, Issued op → ok d op → ∀ s' ∈ (op.run d).sessions,
    (∀ s ∈ d.sessions, s.id = s'.id → BlocksByRule d op s s') ∧
    ((∀ s ∈ d.sessions, s.id ≠ s'.id) → s'.state ≠ .blocked)

/-- In every run whose event batches do not report the state `blocked` by themselves, the
blocked-state machine holds. -/
theorem blocked_state_machine (h : SessionRun ReportsNoBlock d) : BlockedStateMachine ReportsNoBlock d := by
  have hcons : ∀ s ∈ d.sessions, Consistent s := by
    induction h with
    | init d hs => simp [hs]
    | @step d op h hop hok ih =>
      intro s' hs'
      rcases mem_run h.sessions_nodup hs' with ⟨s, hs, hstep⟩ | ⟨hnew, -⟩
      · exact (row_step hstep hop hs hok (ih s hs) h.sessions_nodup h.commands_nodup).1
      · exact (newRow_consistent hnew hop).1
  refine ⟨hcons, fun op hop hok s' hs' => ?_⟩
  rcases mem_run h.sessions_nodup hs' with ⟨a, ha, hstep⟩ | ⟨hnew, hid⟩
  · refine ⟨fun s hs hs'' => ?_, fun hno => absurd hstep.id_eq.symm (hno a ha)⟩
    rw [eq_of_session_id h.sessions_nodup hs ha (hs''.trans hstep.id_eq)]
    exact (row_step hstep hop ha hok (hcons a ha) h.sessions_nodup h.commands_nodup).2
  · refine ⟨fun s hs hs'' => absurd (List.mem_map.mpr ⟨s, hs, hs''⟩) hid, fun _ => (newRow_consistent hnew hop).2⟩

theorem SessionRun.foldl {ops : List SessionOp} (hd : SessionRun ok d) (h : ∀ op ∈ ops, Issued op)
    (hok : ∀ d, ∀ op ∈ ops, ok d op) : SessionRun ok (ops.foldl SessionOp.run d) := by
  induction ops generalizing d with
  | nil => exact hd
  | cons op ops ih =>
    exact ih (hd.step (h op (by simp)) (hok d op (by simp))) (fun op' h' => h op' (by simp [h']))
      fun d' op' h' => hok d' op' (by simp [h'])

def launchedTask : List SessionOp :=
  [.insert { id := "t", role := "task", state := .starting, tokenHash := "h", parentSessionId := some "m" },
    .register { sessionId := "t", incarnation := "A", incarnation_ne := incarnation_ne_A } 10 fun _ => "e"]

def answeredTask : List SessionOp :=
  launchedTask ++ [.block "t" "which branch?" "e1" 11, .enqueue { id := "c", sessionId := "t", createdAt := 12 } 12,
    .claim "t" "A" 13 30, .ack "t" "c" "A" 14]

theorem blocked_state_machine_answeredTask :
    BlockedStateMachine ReportsNoBlock (answeredTask.foldl SessionOp.run {}) := by
  refine blocked_state_machine (SessionRun.foldl (.init {} rfl rfl) (by decide) ?_)
  rintro d op hop sessionId payload now uuid rfl
  simp [answeredTask, launchedTask] at hop

/-- The bridge of the task reports the state `blocked` on its own. -/
def reportedTask : List SessionOp :=
  launchedTask ++ [.events "t" { incarnation := "A", state := some .blocked } 11 fun _ => "e1"]

/-- A bridge that reports the state `blocked` puts its session into that state without a question. -/
theorem reported_block_has_no_question : SessionRun (fun _ _ => True) (reportedTask.foldl SessionOp.run {}) ∧
    ¬BlockedStateMachine (fun _ _ => True) (reportedTask.foldl SessionOp.run {}) := by
  refine ⟨SessionRun.foldl (.init {} rfl rfl) (by decide) fun _ _ _ => trivial, fun h => ?_⟩
  have hrow := h.1
  revert hrow
  decide

/-- The database, and for each session the commands that existed when its question was recorded. -/
structure Asking where
  db : Tables := {}
  older : String → List String := fun _ => []

namespace Asking

def step (m : Asking) (op : SessionOp) : Asking where
  db := op.run m.db
  older := match op with
    | .block sessionId _ _ _ => fun id => if id = sessionId then m.db.commands.map (·.id) else m.older id
    | _ => m.older

end Asking

inductive AskingRun (ok : Tables → SessionOp → Prop) : Asking → Prop where
  | init (d : Tables) (hs : d.sessions = []) (hc : d.commands = []) : AskingRun ok { db := d }
  | step {m : Asking} {op : SessionOp} : AskingRun ok m → Issued op → ok m.db op → AskingRun ok (m.step op)

def AsksWithEmptyMailbox (d : Tables) (op : SessionOp) : Prop :=
  ∀ sessionId question uuid now, op = .block sessionId question uuid now →
    ∀ s ∈ d.sessions, s.id = sessionId → s.state.terminal = false →
      ∀ c ∈ d.commands, c.kind = "prompt" → c.undelivered sessionId = false

/-- Whatever clears a question by an acknowledgement was enqueued after the question was recorded. -/
def CausalAnswers (m : Asking) : Prop :=
  ∀ s ∈ m.db.sessions, s.state = .blocked → s.question ≠ "" →
    ∀ commandId incarnation now, ∀ s' ∈ ((SessionOp.ack s.id commandId incarnation now).run m.db).sessions,
      s'.id = s.id → s'.question = "" →
        (∃ c ∈ m.db.commands, c.id = commandId ∧ c.sessionId = s.id) ∧ commandId ∉ m.older s.id

/-- A session with a question is blocked, and its older prompts are delivered. -/
structure AskingInv (m : Asking) : Prop where
  sessions : (m.db.sessions.map (·.id)).Nodup
  commands : (m.db.commands.map (·.id)).Nodup
  known : ∀ sessionId, ∀ id ∈ m.older sessionId, id ∈ m.db.commands.map (·.id)
  blocked : ∀ s ∈ m.db.sessions, s.question ≠ "" → s.state = .blocked
  answered : ∀ s ∈ m.db.sessions, s.question ≠ "" → ∀ c ∈ m.db.commands, c.id ∈ m.older s.id →
    c.sessionId = s.id → c.kind = "prompt" → c.deliveredAt ≠ 0

/-- A question is new, or it stood before. -/
theorem question_step (h : RowStep d op s s') (hq : s'.question ≠ "") :
    (∃ question uuid now, op = .block s.id question uuid now) ∧ s'.state = .blocked ∧ s.state.terminal = false ∨
      s.question ≠ "" ∧ (s.state = .blocked → s'.state = .blocked) := by
  cases h with
  | @blocked question uuid now _ hterm => exact .inl ⟨⟨question, uuid, now, rfl⟩, rfl, hterm⟩
  | @registered payload now =>
    refine .inr ⟨registeredRow_some_question (s := s) payload now ▸ hq, fun hb => ?_⟩
    rw [registeredRow_some_state, if_pos hb]
  | @reported payload now _ _ persisted =>
    simp only [PiSession.reported, batchedSession] at hq ⊢
    cases hp : payload.state with
    | none =>
      simp only [hp] at hq ⊢
      exact .inr ⟨fun hs => hq (by rw [hs, ite_self]), id⟩
    | some state =>
      simp only [hp] at hq ⊢
      refine .inr ⟨fun hs => hq (by rw [hs, ite_self]), fun hb => ?_⟩
      cases state <;> simp [hb, PiSessionState.terminal] at hq ⊢
  | answered => exact absurd rfl hq
  | stale => exact absurd rfl hq
  | finished => exact absurd rfl hq
  | _ => exact .inr ⟨hq, id⟩

theorem AskingInv.step {m : Asking} (h : AskingInv m) (hop : Issued op) (hok : AsksWithEmptyMailbox m.db op) :
    AskingInv (m.step op) := by
  obtain ⟨f, new, hcs, hf, hnew⟩ := commandsStepped_run m.db op
  have hkept : ∀ id ∈ m.db.commands.map (·.id), id ∈ (op.run m.db).commands.map (·.id) := by
    intro id hid
    obtain ⟨c, hc, rfl⟩ := List.mem_map.mp hid
    rw [hcs]
    exact List.mem_map.mpr ⟨f c, List.mem_append_left _ (List.mem_map_of_mem hc), (hf c hc).id_eq⟩
  have hnoQuestion : ∀ s', NewRow op s' → s'.question = "" := by
    intro s' hs'
    cases hs' with
    | inserted => exact hop.2
    | registered payload now => exact registeredRow_none_question payload now
  refine ⟨sessions_nodup_run h.sessions op, commands_nodup_run h.commands op,
    fun sessionId id hid => hkept id ?_, fun s' hs' hq => ?_,
    fun s' hs' hq c' hc' holder hsession hkind => ?_⟩
  · cases op with
    | block sessionId' =>
      simp only [Asking.step] at hid
      split at hid
      · exact hid
      · exact h.known _ _ hid
    | _ => exact h.known _ _ hid
  · rcases mem_run h.sessions hs' with ⟨s, hs, hstep⟩ | ⟨hn, -⟩
    · rcases question_step hstep hq with ⟨-, hb, -⟩ | ⟨hq', hb⟩
      · exact hb
      · exact hb (h.blocked s hs hq')
    · exact absurd (hnoQuestion s' hn) hq
  · rcases mem_run h.sessions hs' with ⟨s, hs, hstep⟩ | ⟨hn, -⟩
    swap
    · exact absurd (hnoQuestion s' hn) hq
    rw [hstep.id_eq] at holder hsession
    change c' ∈ (op.run m.db).commands at hc'
    rw [hcs, List.mem_append, List.mem_map] at hc'
    rcases hc' with ⟨c, hc, rfl⟩ | hc'
    · have hstepc := hf c hc
      rw [hstepc.id_eq] at holder
      rw [hstepc.sessionId_eq] at hsession
      rw [hstepc.kind_eq] at hkind
      suffices hdelivered : c.deliveredAt ≠ 0 by rwa [hstepc.deliveredAt_eq hdelivered]
      -- An ask finds delivered prompts only; any other operation leaves the record of the older commands.
      by_cases hask : ∃ question uuid now, op = .block s.id question uuid now
      · obtain ⟨question, uuid, now, rfl⟩ := hask
        have hterm : s.state.terminal = false := by
          rcases question_step hstep hq with ⟨-, -, hterm⟩ | ⟨hq', -⟩
          · exact hterm
          · rw [h.blocked s hs hq']
            rfl
        have hno := hok s.id question uuid now rfl s hs rfl hterm c hc hkind
        simpa [PiSessionCommand.undelivered, hsession] using hno
      · have hq' : s.question ≠ "" := by
          rcases question_step hstep hq with ⟨hask', -⟩ | ⟨hq', -⟩
          · exact absurd hask' hask
          · exact hq'
        refine h.answered s hs hq' c hc ?_ hsession hkind
        cases op with
        | block sessionId' question uuid now =>
          have hne : s.id ≠ sessionId' := fun he => hask ⟨question, uuid, now, by rw [he]⟩
          simpa [Asking.step, hne] using holder
        | _ => exact holder
    · obtain ⟨⟨now, rfl⟩, hid⟩ := hnew c' (Option.mem_toList.mp hc')
      exact absurd (h.known _ _ holder) hid

theorem AskingRun.inv {m : Asking} (h : AskingRun AsksWithEmptyMailbox m) : AskingInv m := by
  induction h with
  | init d hs hc => exact ⟨by simp [hs], by simp [hc], by simp, by simp [hs], by simp [hs]⟩
  | step _ hop hok ih => exact ih.step hop hok

/-- In every run in which tasks ask with no undelivered prompt in their mailbox, an answer is
younger than the question that it clears. -/
theorem answers_are_causal {m : Asking} (h : AskingRun AsksWithEmptyMailbox m) : CausalAnswers m := by
  intro s hs hb hq commandId incarnation now s' hs' hid hq'
  have hinv := h.inv
  rcases mem_run hinv.sessions hs' with ⟨a, ha, hstep⟩ | ⟨hnew, -⟩
  swap
  · cases hnew
  obtain rfl : a = s := eq_of_session_id hinv.sessions ha hs (hstep.id_eq.symm.trans hid)
  rcases hstep.ack_cases with rfl | ⟨-, hi, hans, -⟩
  · exact absurd hq' hq
  · obtain ⟨_, _, _, hop, -, c, hc, hack, hkind⟩ := deliversPrompt hinv.commands now hs hinv.sessions hi hans
    cases hop
    simp only [PiSessionCommand.ackable, Bool.and_eq_true, decide_eq_true_eq,
      PiSessionCommand.undelivered_iff] at hack
    obtain ⟨⟨rfl, hsession, hundelivered⟩, -⟩ := hack
    exact ⟨⟨c, hc, rfl, hsession⟩, fun holder => hinv.answered a hs hq c hc holder hsession hkind hundelivered⟩

theorem AskingRun.foldl {m : Asking} (hm : AskingRun ok m) {ops : List SessionOp} (h : ∀ op ∈ ops, Issued op)
    (hok : ∀ d, ∀ op ∈ ops, ok d op) : AskingRun ok (ops.foldl Asking.step m) := by
  induction ops generalizing m with
  | nil => exact hm
  | cons op ops ih =>
    exact ih (hm.step (h op (by simp)) (hok m.db op (by simp))) (fun op' h' => h op' (by simp [h']))
      fun d op' h' => hok d op' (by simp [h'])

def askedTask : Asking :=
  (launchedTask.foldl Asking.step {}).step (.block "t" "which branch?" "e1" 11)

def answeredQuestion : Asking :=
  [.enqueue { id := "c", sessionId := "t", createdAt := 12 } 12, .claim "t" "A" 13 30].foldl Asking.step askedTask

theorem answers_are_causal_askingTask :
    (∃ c ∈ answeredQuestion.db.commands, c.id = "c" ∧ c.sessionId = "t") ∧ "c" ∉ answeredQuestion.older "t" := by
  have hlaunched : AskingRun AsksWithEmptyMailbox (launchedTask.foldl Asking.step {}) := by
    refine AskingRun.foldl (.init {} rfl rfl) (by decide) ?_
    rintro d op hop sessionId question uuid now rfl
    simp [launchedTask] at hop
  have hasked : AskingRun AsksWithEmptyMailbox askedTask := by
    refine hlaunched.step (by decide) ?_
    rintro sessionId question uuid now - s - - - c hc
    exact absurd hc List.not_mem_nil
  have hrun : AskingRun AsksWithEmptyMailbox answeredQuestion := by
    refine AskingRun.foldl hasked (by decide) ?_
    rintro d op hop sessionId question uuid now rfl
    simp at hop
  have hrow : ∃ s ∈ answeredQuestion.db.sessions, s.id = "t" ∧ s.state = .blocked ∧ s.question ≠ "" := by decide
  obtain ⟨s, hs, hid, hb, hq⟩ := hrow
  have hack : ∃ s' ∈ ((SessionOp.ack "t" "c" "A" 14).run answeredQuestion.db).sessions,
      s'.id = "t" ∧ s'.question = "" := by decide
  obtain ⟨s', hs', hid', hq'⟩ := hack
  rw [← hid] at hs' hid' ⊢
  exact answers_are_causal hrun s hs hb hq "c" "A" 14 s' hs' hid' hq'

def briefedTask : List SessionOp :=
  launchedTask ++ [.enqueue { id := "c", sessionId := "t", message := "briefing", createdAt := 10 } 10,
    .claim "t" "A" 11 30, .block "t" "which branch?" "e1" 12]

/-- The acknowledgement of the briefing clears the question that the task asked after claiming it. -/
theorem briefing_answers_question : AskingRun (fun _ _ => True) (briefedTask.foldl Asking.step {}) ∧
    ¬CausalAnswers (briefedTask.foldl Asking.step {}) := by
  refine ⟨AskingRun.foldl (.init {} rfl rfl) (by decide) fun _ _ _ => trivial, fun hnew => ?_⟩
  have hrow : ∃ s ∈ (briefedTask.foldl Asking.step {}).db.sessions, s.id = "t" ∧ s.state = .blocked ∧
      s.question ≠ "" := by decide
  obtain ⟨s, hs, hid, hb, hq⟩ := hrow
  have hack : ∃ s' ∈ ((SessionOp.ack "t" "c" "A" 13).run (briefedTask.foldl Asking.step {}).db).sessions,
      s'.id = "t" ∧ s'.question = "" := by decide
  obtain ⟨s', hs', hid', hq'⟩ := hack
  have holder : "c" ∈ (briefedTask.foldl Asking.step {}).older "t" := by decide
  rw [← hid] at hs' hid' holder
  exact (hnew s hs hb hq "c" "A" 13 s' hs' hid' hq').2 holder

end WorkerHarness.TaskQuestions
