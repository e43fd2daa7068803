import WorkerHarness.DataCopies
import Mathlib.Control.Monad.Basic

/-!
# Exports are closed

After an export has been opened its cleanup is issued, by the route or by the task that it leaves
behind, unless the route fails at one of a few places where it does not look for failures. Once the
copy job was started the cleanup waits for its end, for the end of the export, or for a failure of
the monitor.
-/

namespace WorkerHarness.DataCopies

open Coroutines DataPaths

variable {α β : Type} {answers rest : List JobAnswer} {es : List JobEvent}
    {x : Except CopyError (α × List JobAnswer)}

theorem performed_bind (p : ManagerM β) (f : β → ManagerM α) (answers : List JobAnswer) :
    performed (p.bind f) answers = match performed p answers with
      | (.ok (b, rest), es) => ((performed (f b) rest).1, es ++ (performed (f b) rest).2)
      | (.error e, es) => (.error e, es) := by
  induction p generalizing answers with
  | ret a => simp [performed]
  | raise e => rfl
  | acquire l k ih => exact ih answers
  | release l k ih => exact ih answers
  | perform e k ih =>
    cases answers with
    | nil => rfl
    | cons answer answers =>
      obtain ⟨w, a⟩ := answer
      simp only [Prog.bind, performed]
      cases jobInterp.handle e 0 a w with
      | none => rfl
      | some r =>
        simp only [ih]
        rcases performed (k r.2) answers with ⟨⟨e⟩ | ⟨b, rest⟩, es⟩ <;> simp

/-- A lock changes nothing for what a method does. -/
theorem performed_withLock (l : DispatchLock) (p : ManagerM α) (answers : List JobAnswer) :
    performed (Prog.withLock l p) answers = performed p answers := by
  show performed (p.attempt.bind fun r => .release l (Prog.ofExcept r)) answers = performed p answers
  induction p generalizing answers with
  | ret a => rfl
  | raise e => rfl
  | acquire l' k ih => exact ih answers
  | release l' k ih => exact ih answers
  | perform e k ih =>
    cases answers with
    | nil => rfl
    | cons answer answers =>
      obtain ⟨w, a⟩ := answer
      simp only [Prog.attempt, Prog.bind, performed]
      cases jobInterp.handle e 0 a w with
      | none => rfl
      | some r => simp only [ih]

/-- A method that returns was given an answer to its call. -/
theorem performed_perform {e : JobCall β} {k : β → ManagerM α} {a : α}
    (h : performed (.perform e k) answers = (.ok (a, rest), es)) :
    ∃ w ans w' b more es', jobInterp.handle e 0 ans w = some (w', b) ∧
      performed (k b) more = (.ok (a, rest), es') ∧ es = jobEvents e b ++ es' := by
  cases answers with
  | nil => cases h
  | cons answer answers =>
    obtain ⟨w, ans⟩ := answer
    simp only [performed] at h
    split at h
    · cases h
    · next w' b hh =>
      obtain ⟨h₁, h₂⟩ := Prod.mk.inj h
      exact ⟨w, ans, w', b, answers, _, hh, Prod.ext h₁ rfl, h₂.symm⟩

theorem performed_call {e : JobCall β} {k : β → ManagerM α} {a : α}
    (h : performed ((Prog.call e).bind k) answers = (.ok (a, rest), es)) :
    ∃ w ans w' b more es', jobInterp.handle e 0 ans w = some (w', b) ∧
      performed (k b) more = (.ok (a, rest), es') ∧ es = jobEvents e b ++ es' :=
  performed_perform h

/-- A sequence that returns has returned from both of its parts. -/
theorem performed_bind_ok {p : ManagerM β} {f : β → ManagerM α} {a : α}
    (h : performed (p.bind f) answers = (.ok (a, rest), es)) :
    ∃ b more es₁ es₂, performed p answers = (.ok (b, more), es₁) ∧ performed (f b) more = (.ok (a, rest), es₂) ∧
      es = es₁ ++ es₂ := by
  rw [performed_bind] at h
  rcases hp : performed p answers with ⟨e | ⟨b, more⟩, es₁⟩
  · rw [hp] at h
    cases h
  · rw [hp] at h
    obtain ⟨h₁, h₂⟩ := Prod.mk.inj h
    exact ⟨b, more, es₁, _, rfl, Prod.ext h₁ rfl, h₂.symm⟩

theorem performed_orRaise {r : Except DbError β} {b : β}
    (h : performed (JobManager.orRaise r) answers = (.ok (b, rest), es)) : r = .ok b ∧ es = [] := by
  cases r with
  | error e => cases h
  | ok b' =>
    cases h
    exact ⟨rfl, rfl⟩

theorem performed_ret {a b : α} (h : performed (.ret a) answers = (.ok (b, rest), es)) : b = a ∧ es = [] := by
  cases h
  exact ⟨rfl, rfl⟩

/-- An SSH command that returns has an answer. -/
theorem performed_ssh {e : JobCall (Option β)} {b : β}
    (h : performed (JobManager.ssh e) answers = (.ok (b, rest), es)) :
    ∃ w ans w', jobInterp.handle e 0 ans w = some (w', some b) ∧ es = jobEvents e (some b) := by
  obtain ⟨w, ans, w', r, more, es', hh, hk, rfl⟩ := performed_call h
  cases r with
  | none => cases hk
  | some b' =>
    obtain ⟨rfl, rfl⟩ := performed_ret (a := b') hk
    exact ⟨w, ans, w', hh, by simp⟩

theorem performed_updateJob {job : Job} {u : Unit}
    (h : performed (JobManager.updateJob job) answers = (.ok (u, rest), es)) :
    es = if isTerminal job.status then [.terminal job.id] else [] := by
  obtain ⟨w, ans, w', r, more, es', hh, hk, rfl⟩ := performed_call h
  obtain ⟨rfl, rfl⟩ := performed_orRaise hk
  simp [jobEvents]

/-- A job whose launch has happened is returned with its id, and neither done nor failed. -/
theorem launchJob_launched {worker : Worker} {job job' : Job} {workerId jobId : String}
    (h : performed (JobManager.launchJob worker job) answers = (.ok (job', rest), es))
    (hl : .launched workerId jobId ∈ es) (hjob : isTerminal job.status = false) :
    jobId = job.id ∧ job'.id = job.id ∧ isTerminal job'.status = false := by
  obtain ⟨w, ans, w', launched, more, es', hh, hk, rfl⟩ := performed_call h
  obtain ⟨code, more', es₁, es₂, hssh, hcode, rfl⟩ := performed_bind_ok hk
  obtain ⟨w₂, ans₂, w₂', hh₂, rfl⟩ := performed_ssh hssh
  have hfits : codeFits launched (some code) = true := by
    simp only [jobInterp] at hh₂
    split at hh₂
    · next hfits =>
      simp only [Option.some.injEq, Prod.mk.injEq] at hh₂
      rwa [hh₂.2] at hfits
    · cases hh₂
  split at hcode
  · obtain ⟨rfl, rfl⟩ := performed_ret hcode
    cases launched <;> simp [jobEvents] at hl
    exact ⟨hl.2, rfl, hjob⟩
  · next hunknown =>
    push Not at hunknown
    split at hcode
    · next hne =>
      -- The launch is known not to have happened.
      have hnot : launched = false := by
        have hpos : 0 < code := by omega
        simpa [codeFits, hne, hpos, hunknown.2] using hfits
      subst hnot
      obtain ⟨w₃, ans₃, w₃', finishedAt, more₃, es₃, -, hk₃, rfl⟩ := performed_call hcode
      obtain ⟨u, more₄, es₄, es₅, hupdate, hret, rfl⟩ := performed_bind_ok hk₃
      have hes := performed_updateJob hupdate
      obtain ⟨rfl, rfl⟩ := performed_ret hret
      simp [hes, jobEvents, isTerminal] at hl
    · obtain ⟨u, more₄, es₄, es₅, hupdate, hret, rfl⟩ := performed_bind_ok hcode
      have hes := performed_updateJob hupdate
      obtain ⟨rfl, rfl⟩ := performed_ret hret
      cases launched <;> simp [hes, jobEvents, isTerminal] at hl
      exact ⟨hl.2, rfl, rfl⟩

theorem startJob_launched {manager : ℕ} {worker : Worker} {command : String} {name : Option String} {pty : Bool}
    {job : Job} {workerId jobId : String}
    (h : performed (JobManager.startJob manager worker command name pty) answers = (.ok (job, rest), es))
    (hl : .launched workerId jobId ∈ es) : jobId = job.id ∧ isTerminal job.status = false := by
  obtain ⟨w, ans, w', id, more, es', -, hk, rfl⟩ := performed_call h
  obtain ⟨w₂, ans₂, w₂', now, more₂, es₂, -, hk₂, rfl⟩ := performed_call hk
  rw [performed_withLock] at hk₂
  obtain ⟨w₃, ans₃, w₃', r, more₃, es₃, -, hk₃, rfl⟩ := performed_call hk₂
  obtain ⟨u, more₄, es₄, es₅, hr, hlaunch, rfl⟩ := performed_bind_ok hk₃
  obtain ⟨rfl, rfl⟩ := performed_orRaise hr
  have hl₅ : .launched workerId jobId ∈ es₅ := by simpa [jobEvents] using hl
  obtain ⟨hid, hid', hstatus⟩ := launchJob_launched hlaunch hl₅ rfl
  exact ⟨hid.trans hid'.symm, hstatus⟩

/-- A refresh returns the job, and a job that is done or failed has been seen so. -/
theorem refreshUnderLock_seen {worker : Worker} {current job : Job} {finished : Bool}
    (h : performed (JobManager.refreshUnderLock worker current) answers = (.ok ((job, finished), rest), es)) :
    job.id = current.id ∧ (isTerminal job.status = true → isTerminal current.status = true ∨
      .terminal job.id ∈ es) := by
  obtain ⟨w, ans, w', row, more, es', hh, hk, rfl⟩ := performed_call h
  cases row with
  | none =>
    obtain ⟨hret, rfl⟩ := performed_ret hk
    cases hret
    exact ⟨rfl, .inl⟩
  | some row =>
    have hid : row.id = current.id := by
      simp only [jobInterp, Option.some.injEq, Prod.mk.injEq] at hh
      have hfind := hh.2
      rw [Database.findJob] at hfind
      simpa using List.find?_some hfind
    have hsame : job = row → job.id = current.id ∧
      (isTerminal job.status = true → isTerminal current.status = true ∨
        .terminal job.id ∈ jobEvents (.getJob current.id) (some row) ++ es') := by
      rintro rfl
      refine ⟨hid, fun ht => .inr (List.mem_append_left _ ?_)⟩
      simp [jobEvents, ht]
    have hreturned : ∀ more', performed (.ret (row, false)) more' = (.ok ((job, finished), rest), es') →
      job = row := by
      intro more' hret
      obtain ⟨hret, -⟩ := performed_ret hret
      exact congrArg Prod.fst hret
    dsimp only at hk
    split at hk
    · exact hsame (hreturned _ hk)
    · split at hk
      · exact hsame (hreturned _ hk)
      · split at hk
        · exact hsame (hreturned _ hk)
        · obtain ⟨isRunning, more₁, es₁, es₂, -, hrunning, rfl⟩ := performed_bind_ok hk
          split at hrunning
          · exact hsame (congrArg Prod.fst (performed_ret hrunning).1)
          · obtain ⟨exitCode, more₃, es₃, es₄, -, hexit, rfl⟩ := performed_bind_ok hrunning
            cases exitCode with
            | none => exact hsame (congrArg Prod.fst (performed_ret hexit).1)
            | some exitCode =>
              obtain ⟨w₅, ans₅, w₅', finishedAt, more₅, es₅, -, hnow, rfl⟩ := performed_call hexit
              obtain ⟨u, more₆, es₆, es₇, hupdate, hret, rfl⟩ := performed_bind_ok hnow
              have hes := performed_updateJob hupdate
              obtain ⟨hret, rfl⟩ := performed_ret hret
              cases hret
              refine ⟨hid, fun ht => .inr ?_⟩
              rw [if_pos ht] at hes
              simp [hes]

theorem refreshJobStatus_seen {fuel manager : ℕ} {worker : Worker} {current job : Job}
    (h : performed (JobManager.refreshJobStatus fuel manager worker current) answers = (.ok (job, rest), es)) :
    job.id = current.id ∧ (isTerminal job.status = true → isTerminal current.status = true ∨
      .terminal job.id ∈ es) := by
  obtain ⟨⟨row, finished⟩, more, es₁, es₂, hlocked, hk, rfl⟩ := performed_bind_ok h
  rw [performed_withLock] at hlocked
  obtain ⟨hid, hseen⟩ := refreshUnderLock_seen hlocked
  have hdispatch : ∀ more es', performed (if row.queueManaged = true then
      (JobManager.dispatchWorker fuel manager worker).bind fun _ => .ret row else .ret row) more = (.ok (job, rest), es') →
        job = row := by
    intro more es' hk
    split at hk
    · obtain ⟨_, _, _, _, -, hret, -⟩ := performed_bind_ok hk
      exact (performed_ret hret).1
    · exact (performed_ret hk).1
  have hjob : job = row := by
    dsimp only at hk
    split at hk
    · exact (performed_ret hk).1
    · split at hk
      · obtain ⟨_, _, _, _, -, hrest, -⟩ := performed_bind_ok hk
        exact hdispatch _ _ hrest
      · exact hdispatch _ _ hk
  subst hjob
  exact ⟨hid, fun ht => (hseen ht).imp_right (List.mem_append_left _)⟩

namespace Traced

variable {x : Traced α} {f : α → Traced β} {a : α} {e : CopyError}

theorem bind_of_ok (h : x.result = .ok a) : (x >>= f).result = (f a).result ∧
    (x >>= f).events = x.events ++ (f a).events := by
  show (x.bind f).result = _ ∧ (x.bind f).events = _
  unfold Traced.bind
  rw [h]
  exact ⟨rfl, rfl⟩

theorem bind_of_error (h : x.result = .error e) : (x >>= f).result = .error e ∧ (x >>= f).events = x.events := by
  show (x.bind f).result = _ ∧ (x.bind f).events = _
  unfold Traced.bind
  rw [h]
  exact ⟨rfl, rfl⟩

theorem catching_of_ok {handler : CopyError → Traced α} (h : x.result = .ok a) : x.catching handler = x := by
  unfold catching
  rw [h]

theorem catching_of_error {handler : CopyError → Traced α} (h : x.result = .error e) :
    (x.catching handler).result = (handler e).result ∧
    (x.catching handler).events = x.events ++ (handler e).events := by
  unfold catching
  rw [h]
  exact ⟨rfl, rfl⟩

/-- What only happens before an exit happens whatever the part returned. -/
theorem events_then {y : α → Traced β} (h : ∀ a, (y a).events = []) : (x >>= y).events = x.events := by
  cases hx : x.result with
  | ok a => rw [(bind_of_ok hx).2, h, List.append_nil]
  | error e => exact (bind_of_error hx).2

end Traced

variable {server : CopyServer} {request : CheckedCopy} {transferId : String} {o : CopyOutcomes} {job : Job}

def cleanupIssued (request : CheckedCopy) (transferId : String) : CopyEvent :=
  .issued request.source.id (withWorkerDir request.source (sourceCleanupCommand transferId))

def Watched (jobId : String) (events : List CopyEvent) : Prop :=
  .watching (.terminal jobId) ∈ events ∨ .ttlElapsed ∈ events ∨ .monitoringFailed ∈ events

theorem Watched.mono {jobId : String} {events events' : List CopyEvent} (h : Watched jobId events)
    (hsub : ∀ e ∈ events, e ∈ events') : Watched jobId events' :=
  h.imp (hsub _) (Or.imp (hsub _) (hsub _))

theorem Watched.of_append {jobId : String} {events events' : List CopyEvent}
    (h : Watched jobId (events ++ events')) :
    Watched jobId events ∨ Watched jobId events' := by
  rcases h with h | h | h <;> rcases List.mem_append.mp h with h | h
  · exact .inl (.inl h)
  · exact .inr (.inl h)
  · exact .inl (.inr (.inl h))
  · exact .inr (.inr (.inl h))
  · exact .inl (.inr (.inr h))
  · exact .inr (.inr (.inr h))

theorem cleanUp_events : (cleanUp request transferId o).events =
    if o.cleaned.issued then [cleanupIssued request transferId] else [] := rfl

def ofMonitor : CopyEvent → Bool
  | .watching _ | .ttlElapsed | .monitoringFailed => true
  | _ => false

theorem monitorLoop_events {destination : DataWorker} {deadline : ℚ} {rounds : List Round} :
    ∀ e ∈ (monitorLoop server destination deadline job rounds).events, ofMonitor e = true := by
  induction rounds generalizing job with
  | nil => exact fun _ he => nomatch he
  | cons round rounds ih =>
    rw [monitorLoop]
    split
    · have hwatch : ∀ e ∈ (managed .watching (JobManager.refreshJobStatus server.fuel server.manager
          destination.toWorker job) round.answers).events, ofMonitor e = true := by
        intro e he
        obtain ⟨j, -, rfl⟩ := List.mem_map.mp he
        rfl
      cases hres : (managed .watching (JobManager.refreshJobStatus server.fuel server.manager
          destination.toWorker job) round.answers).result with
      | error e =>
        rw [(Traced.bind_of_error hres).2]
        exact hwatch
      | ok current =>
        rw [(Traced.bind_of_ok hres).2]
        intro e he
        rcases List.mem_append.mp he with he | he
        · exact hwatch e he
        · split at he
          · exact nomatch he
          · split at he
            · exact ih e he
            · exact nomatch he
    · intro e he
      rw [List.mem_singleton.mp he]
      rfl

/-- The loop ends by itself only when the job was seen to be over, or the export has expired. -/
theorem monitorLoop_ok {destination : DataWorker} {deadline : ℚ} {rounds : List Round}
    (h : (monitorLoop server destination deadline job rounds).result = .ok ())
    (hjob : isTerminal job.status = false) :
    Watched job.id (monitorLoop server destination deadline job rounds).events := by
  induction rounds generalizing job with
  | nil => cases h
  | cons round rounds ih =>
    rw [monitorLoop] at h ⊢
    split at h
    · next htime =>
      rw [if_pos htime]
      rcases hp : performed (JobManager.refreshJobStatus server.fuel server.manager destination.toWorker job)
        round.answers with ⟨e | ⟨current, rest⟩, es⟩
      · have hres : (managed .watching (JobManager.refreshJobStatus server.fuel server.manager
            destination.toWorker job) round.answers).result = .error e := by rw [managed, hp]; rfl
        rw [(Traced.bind_of_error hres).1] at h
        cases h
      · have hres : (managed .watching (JobManager.refreshJobStatus server.fuel server.manager
            destination.toWorker job) round.answers).result = .ok current := by rw [managed, hp]; rfl
        have hes : (managed .watching (JobManager.refreshJobStatus server.fuel server.manager
            destination.toWorker job) round.answers).events = es.map .watching := by rw [managed, hp]
        obtain ⟨hid, hseen⟩ := refreshJobStatus_seen hp
        rw [(Traced.bind_of_ok hres).1] at h
        rw [(Traced.bind_of_ok hres).2, hes]
        cases hterminal : isTerminal current.status with
        | true =>
          rcases hseen hterminal with hbefore | hnow
          · rw [hjob] at hbefore
            cases hbefore
          · rw [hid] at hnow
            exact .inl (List.mem_append_left _ (List.mem_map.mpr ⟨_, hnow, rfl⟩))
        | false =>
          rw [hterminal, if_neg Bool.false_ne_true] at h
          rw [if_neg Bool.false_ne_true]
          split at h
          · next hslept =>
            rw [if_pos hslept]
            have hw := ih h hterminal
            rw [hid] at hw
            exact hw.mono fun e he => List.mem_append_right _ he
          · cases h
    · next htime =>
      rw [if_neg htime]
      exact .inr (.inl (List.mem_singleton.mpr rfl))

/-- The monitor issues the cleanup at its end, when it has watched the job to its end, or failed. -/
theorem cleanupAfterCopy_events (server : CopyServer) (request : CheckedCopy) (transferId : String) (job : Job)
    (o : CopyOutcomes) : ∃ watched, (cleanupAfterCopy server request transferId job o).events =
    watched ++ (cleanUp request transferId o).events ∧ (∀ e ∈ watched, ofMonitor e = true) ∧
      (isTerminal job.status = false → Watched job.id watched) := by
  have hlast : (do let _ ← cleanUp request transferId o; return () : Traced Unit).events =
    (cleanUp request transferId o).events :=
    Traced.events_then fun _ => rfl
  unfold cleanupAfterCopy Traced.andFinally
  rw [hlast]
  refine ⟨_, rfl, ?_⟩
  unfold Traced.catching
  cases hres : (monitorLoop server request.destination
    (o.monitorStart + request.ttlSeconds) job o.rounds).result with
  | ok u => exact ⟨monitorLoop_events, fun hjob => monitorLoop_ok hres hjob⟩
  | error e =>
    have hfail : (do Traced.note .monitoringFailed; if e = .cancelledError then .raise e : Traced Unit).events =
        [.monitoringFailed] := by
      refine Traced.events_then fun _ => ?_
      split <;> rfl
    dsimp only
    rw [hfail]
    refine ⟨fun e' he' => ?_, fun _ => .inr (.inr (List.mem_append_right _ (List.mem_singleton.mpr rfl)))⟩
    rcases List.mem_append.mp he' with he' | he'
    · exact monitorLoop_events e' he'
    · rw [List.mem_singleton.mp he']
      rfl

structure Closes (request : CheckedCopy) (transferId : String) (events : List CopyEvent) : Prop where
  issued : cleanupIssued request transferId ∈ events
  late : ∀ workerId jobId, .starting (.launched workerId jobId) ∈ events → ∀ before after,
    events = before ++ cleanupIssued request transferId :: after → Watched jobId before

/-- A route that has not issued the cleanup before its end. -/
theorem closes_cleanUp {events : List CopyEvent} (h : cleanupIssued request transferId ∉ events) :
    Closes request transferId (events ++ (cleanUp request transferId o).events) ↔ o.cleaned.issued = true ∧
      ∀ workerId jobId, .starting (.launched workerId jobId) ∈ events → Watched jobId events := by
  rw [cleanUp_events]
  constructor
  · intro hc
    have hissued : o.cleaned.issued = true := by
      by_contra hnot
      have hmem := hc.issued
      rw [if_neg hnot, List.append_nil] at hmem
      exact h hmem
    refine ⟨hissued, fun workerId jobId hl => hc.late workerId jobId (List.mem_append_left _ hl) events [] ?_⟩
    rw [if_pos hissued]
  · rintro ⟨hissued, hlate⟩
    rw [if_pos hissued]
    refine ⟨List.mem_append_right _ (List.mem_singleton.mpr rfl), fun workerId jobId hl before after heq => ?_⟩
    have hbefore : before = events := by
      rcases List.append_eq_append_iff.mp heq with ⟨mid, hb, hm⟩ | ⟨mid, he, hm⟩
      · cases mid with
        | nil => simpa using hb
        | cons e mid => simp at hm
      · cases mid with
        | nil => simpa using he.symm
        | cons e mid =>
          cases hm
          exact absurd (he ▸ List.mem_append_right _ List.mem_cons_self) h
    rw [hbefore]
    refine hlate workerId jobId ?_
    rcases List.mem_append.mp hl with hl | hl
    · exact hl
    · cases List.mem_singleton.mp hl

theorem not_closes {events : List CopyEvent} (h : cleanupIssued request transferId ∉ events) :
    ¬Closes request transferId events := fun hc => h hc.issued

structure Before (request : CheckedCopy) (transferId : String) (events : List CopyEvent) : Prop where
  cleanup : cleanupIssued request transferId ∉ events
  launched : ∀ workerId jobId, .starting (.launched workerId jobId) ∉ events
  watched : ∀ jobId, ¬Watched jobId events

variable {events events' : List CopyEvent} {endpoint : Endpoint} {path : String}

theorem Before.append (h : Before request transferId events) (h' : Before request transferId events') :
    Before request transferId (events ++ events') := by
  constructor
  · rw [List.mem_append]
    exact fun hm => hm.elim h.cleanup h'.cleanup
  · intro workerId jobId hm
    exact (List.mem_append.mp hm).elim (h.launched workerId jobId) (h'.launched workerId jobId)
  · exact fun jobId hw => hw.of_append.elim (h.watched jobId) (h'.watched jobId)

theorem before_nil : Before request transferId [] :=
  ⟨List.not_mem_nil, fun _ _ => List.not_mem_nil, fun _ hw => by simp [Watched] at hw⟩

/-- The two commands of an export differ after the name of the script. -/
theorem exportCommand_ne {worker : DataWorker} {ttlSeconds : ℕ} {command : String}
    (h : sourceExportCommand path transferId ttlSeconds = .ok command) :
    withWorkerDir worker command ≠ withWorkerDir worker (sourceCleanupCommand transferId) := by
  unfold sourceExportCommand at h
  obtain ⟨path', -, hcommand⟩ : ∃ path', validateDataPath path = .ok path' ∧
      .ok ("/usr/local/lib/worker-harness/wh-data-export" ++ (" --path " ++ shlexQuote path' ++ " --transfer-id " ++
        shlexQuote transferId ++ " --ttl-seconds " ++ toString ttlSeconds)) =
          (Except.ok command : Except String String) := by
    cases hpath : validateDataPath path with
    | error detail =>
      rw [hpath] at h
      cases h
    | ok path' =>
      rw [hpath] at h
      exact ⟨path', rfl, h⟩
  cases hcommand
  intro heq
  have htail := (String.append_right_inj _).mp ((String.append_right_inj _).mp heq)
  have hlist := congrArg String.toList htail
  simp only [String.toList_append] at hlist
  simp at hlist

theorem before_export (request : CheckedCopy) {ttlSeconds : ℕ} {command : String}
    (h : sourceExportCommand path transferId ttlSeconds = .ok command) :
    Before request transferId [.issued request.source.id (withWorkerDir request.source command)] := by
  constructor
  · intro hm
    exact exportCommand_ne h (CopyEvent.issued.inj (List.mem_singleton.mp hm)).2.symm
  · intro workerId jobId hm
    cases List.mem_singleton.mp hm
  · intro jobId hw
    simp [Watched] at hw

theorem before_upload (request : CheckedCopy) (transferId : String) (o : CopyOutcomes) : Before request transferId
    (sshUploadBytes request.destination (secretPath request transferId) o.uploaded).events := by
  unfold sshUploadBytes
  dsimp only
  split
  · constructor
    · intro hm
      cases List.mem_singleton.mp hm
    · intro workerId jobId hm
      cases List.mem_singleton.mp hm
    · intro jobId hw
      simp [Watched] at hw
  · exact before_nil

def Starts (start : Traced Job) : Prop :=
  match start.result with
  | .ok _ => True
  | .error e => e ≠ .cancelledError ∧ ∀ workerId jobId, .starting (.launched workerId jobId) ∉ start.events

/-- The password has an encoding, its upload returns, and the copy job starts after an upload with code 0. -/
def HandsOver (server : CopyServer) (request : CheckedCopy) (transferId : String) (o : CopyOutcomes)
    (endpoint : Endpoint) : Prop :=
  endpoint.password.surrogates = false ∧ ∃ uploaded, o.uploaded.result 60 = .ok uploaded ∧
    (uploaded.returncode = 0 → ∀ command, copyCommand request transferId endpoint = .ok command →
      Starts (startCopy server request transferId command o))

/-- The process of the cleanup call is started, and no remote step before it fails where the route does
not look for a failure. -/
def Survives (server : CopyServer) (request : CheckedCopy) (transferId : String) (o : CopyOutcomes)
    (stdout : String) :
    Prop :=
  o.cleaned.issued = true ∧ match endpointOf server.python stdout with
    | .error e => e.isMetadata = true
    | .ok endpoint => HandsOver server request transferId o endpoint

/-- The exit through a cleanup before the copy job was started. -/
theorem closes_before (h : Before request transferId events) :
    Closes request transferId (events ++ (cleanUp request transferId o).events) ↔ o.cleaned.issued = true := by
  rw [closes_cleanUp h.cleanup]
  constructor
  · exact And.left
  · exact fun hissued => ⟨hissued, fun workerId jobId hl => absurd hl (h.launched workerId jobId)⟩

theorem start_events {command : String} {e : CopyEvent}
    (he : e ∈ (startCopy server request transferId command o).events) :
    ∃ j, e = .starting j := by
  obtain ⟨j, -, rfl⟩ := List.mem_map.mp he
  exact ⟨j, rfl⟩

theorem start_cleanup {command : String} :
    cleanupIssued request transferId ∉ (startCopy server request transferId command o).events := by
  intro hm
  obtain ⟨j, hj⟩ := start_events hm
  cases hj

theorem start_watched {command jobId : String} :
    ¬Watched jobId (startCopy server request transferId command o).events := by
  rintro (hw | hw | hw) <;> obtain ⟨j, hj⟩ := start_events hw <;> cases hj

/-- The exit through the cleanup when the start of the copy job has failed. -/
theorem closes_failedStart {command : String} (h : Before request transferId events) :
    Closes request transferId (events ++ ((startCopy server request transferId command o).events ++
      (cleanUp request transferId o).events)) ↔ o.cleaned.issued = true ∧
        ∀ workerId jobId, .starting (.launched workerId jobId) ∉ (startCopy server request transferId command
          o).events := by
  rw [← List.append_assoc, closes_cleanUp]
  · refine and_congr_right fun _ => forall_congr' fun workerId => forall_congr' fun jobId => ?_
    constructor
    · intro hw hl
      exact (hw (List.mem_append_right _ hl)).of_append.elim (h.watched jobId) start_watched
    · intro hnot hl
      exact (List.mem_append.mp hl).elim (fun hl => absurd hl (h.launched workerId jobId)) fun hl => absurd hl hnot
  · exact fun hm => (List.mem_append.mp hm).elim h.cleanup start_cleanup

/-- The monitor closes the export when its call for the cleanup is made. -/
theorem closes_monitored {command : String} (h : Before request transferId events)
    (hstart : (startCopy server request transferId command o).result = .ok job) :
    Closes request transferId (events ++ ((startCopy server request transferId command o).events ++
      (cleanupAfterCopy server request transferId job o).events)) ↔ o.cleaned.issued = true := by
  obtain ⟨watched, hevents, hmonitor, hwatched⟩ := cleanupAfterCopy_events server request transferId job o
  have hlaunched : ∀ workerId jobId, .starting (.launched workerId jobId) ∈
      (startCopy server request transferId command o).events → jobId = job.id ∧ isTerminal job.status = false := by
    intro workerId jobId hl
    rcases hp : performed (JobManager.startJob server.manager request.destination.toWorker command
      (some ("data-copy-" ++ transferId)) false) o.started with ⟨e | ⟨job', rest⟩, es⟩
    · rw [startCopy, managed, hp] at hstart
      cases hstart
    · rw [startCopy, managed, hp] at hstart hl
      cases hstart
      obtain ⟨j, hj, hsame⟩ := List.mem_map.mp hl
      cases hsame
      exact startJob_launched hp hj
  rw [hevents, ← List.append_assoc, ← List.append_assoc, closes_cleanUp]
  · refine and_iff_left fun workerId jobId hl => ?_
    rcases List.mem_append.mp hl with hl | hl
    · rcases List.mem_append.mp hl with hl | hl
      · exact absurd hl (h.launched workerId jobId)
      · obtain ⟨rfl, hnot⟩ := hlaunched workerId jobId hl
        exact (hwatched hnot).mono fun e he => List.mem_append_right _ he
    · cases hmonitor _ hl
  · intro hm
    rcases List.mem_append.mp hm with hm | hm
    · exact (List.mem_append.mp hm).elim h.cleanup start_cleanup
    · cases hmonitor _ hm

theorem checkCopy_ok {payload : DataCopyRequest} {source destination : Option DataWorker}
    (h : checkCopy payload source destination = .ok request) :
    validateDataPath request.srcPath = .ok request.srcPath ∧
    validateDataPath request.dstPath = .ok request.dstPath := by
  unfold checkCopy at h
  dsimp only at h
  split at h
  · cases h
  · cases h
  · next srcPath dstPath hsrc hdst =>
    split at h
    · cases h
    · split at h
      · cases h
      · cases h
      · split at h
        · cases h
        · split at h
          · cases h
          · split at h
            · cases h
              exact ⟨validateDataPath_idem hsrc, validateDataPath_idem hdst⟩
            · cases h

theorem sourceExportCommand_ok (transferId : String) (ttlSeconds : ℕ) (h : validateDataPath path = .ok path) :
    ∃ command, sourceExportCommand path transferId ttlSeconds = .ok command := by
  unfold sourceExportCommand
  rw [h]
  exact ⟨_, rfl⟩

theorem endpointOf_port {python : Python} {stdout : String} (h : endpointOf python stdout = .ok endpoint) :
    22000 ≤ endpoint.port ∧ endpoint.port ≤ 22999 := by
  unfold endpointOf at h
  split at h
  · cases h
  · simp only [bind, Except.bind] at h
    repeat' split at h
    all_goals cases h
    next hvalid => exact ⟨hvalid.1, hvalid.2.1⟩

theorem copyCommand_ok (transferId : String) (hdst : validateDataPath request.dstPath = .ok request.dstPath)
    (hport : 22000 ≤ endpoint.port ∧ endpoint.port ≤ 22999) :
    ∃ command, copyCommand request transferId endpoint = .ok command := by
  have hrange : ¬(endpoint.port < 22000 ∨ 22999 < endpoint.port) := by omega
  unfold copyCommand destinationCopyCommand
  rw [if_neg hrange, hdst]
  exact ⟨_, rfl⟩

theorem refusal_events {statusCode : ℕ} {detail : String} {f : β → Traced α} :
    (do let _ ← cleanUp request transferId o; let b ← (refuse statusCode detail : Traced β); f b : Traced α).events =
      (cleanUp request transferId o).events :=
  Traced.events_then fun _ => rfl

/-- A failed start that is not a cancellation is refused after the cleanup. -/
theorem failedStart_events (request : CheckedCopy) (transferId : String) (o : CopyOutcomes) (e : CopyError) : ∃ e',
    (if e = .cancelledError then .raise e
      else do
        let _ ← cleanUp request transferId o
        refuse 502 "destination copy job failed to start: " : Traced Job).result = .error e' ∧
    (if e = .cancelledError then .raise e
      else do
        let _ ← cleanUp request transferId o
        refuse 502 "destination copy job failed to start: " : Traced Job).events =
      if e = .cancelledError then [] else (cleanUp request transferId o).events := by
  by_cases hcancelled : e = .cancelledError
  · simp only [if_pos hcancelled]
    exact ⟨e, rfl, rfl⟩
  · simp only [if_neg hcancelled]
    cases hresult : (cleanUp request transferId o).result with
    | ok r => exact ⟨_, (Traced.bind_of_ok hresult).1, Traced.events_then fun _ => rfl⟩
    | error e' => exact ⟨_, (Traced.bind_of_error hresult).1, Traced.events_then fun _ => rfl⟩

/-- The copy job is started, and left to the monitor. -/
theorem started_closes {command : String} (h : Before request transferId events) :
    Closes request transferId (events ++ (do
      let job ← (startCopy server request transferId command o).catching fun e =>
        if e = .cancelledError then .raise e
        else do
          let _ ← cleanUp request transferId o
          refuse 502 "destination copy job failed to start: "
      Traced.createTask (cleanupAfterCopy server request transferId job o)
      return job : Traced Job).events) ↔
        o.cleaned.issued = true ∧ Starts (startCopy server request transferId command o) := by
  cases hstart : (startCopy server request transferId command o).result with
  | ok job =>
    have hstarts : Starts (startCopy server request transferId command o) ↔ True := by rw [Starts, hstart]
    rw [hstarts, and_true, Traced.catching_of_ok hstart, (Traced.bind_of_ok hstart).2,
      Traced.events_then (fun _ => rfl)]
    exact closes_monitored h hstart
  | error e =>
    have hstarts : Starts (startCopy server request transferId command o) ↔ e ≠ .cancelledError ∧
        ∀ workerId jobId, .starting (.launched workerId jobId) ∉ (startCopy server request transferId command
          o).events := by
      rw [Starts, hstart]
    rw [hstarts]
    obtain ⟨e', hresult, hevents⟩ := failedStart_events request transferId o e
    rw [(Traced.bind_of_error ((Traced.catching_of_error hstart).1.trans hresult)).2,
      (Traced.catching_of_error hstart).2,
      hevents]
    split
    · next hcancelled =>
      refine iff_of_false (not_closes fun hm => ?_) fun hs => hs.2.1 hcancelled
      rw [List.append_nil] at hm
      exact (List.mem_append.mp hm).elim h.cleanup start_cleanup
    · next hcancelled =>
      rw [closes_failedStart h, and_iff_right hcancelled]

theorem copyFrom_closes (h : Before request transferId events)
    (hdst : validateDataPath request.dstPath = .ok request.dstPath)
    (hport : 22000 ≤ endpoint.port ∧ endpoint.port ≤ 22999) :
    Closes request transferId (events ++ (copyFrom server request transferId o endpoint).events) ↔
      o.cleaned.issued = true ∧ HandsOver server request transferId o endpoint := by
  unfold copyFrom
  cases hsurrogates : endpoint.password.surrogates with
  | true =>
    rw [if_pos rfl, (Traced.bind_of_error (e := .python .unicodeEncodeError) rfl).2]
    refine iff_of_false (not_closes ?_) fun hs => ?_
    · exact (h.append before_nil).cleanup
    · rw [hs.2.1] at hsurrogates
      cases hsurrogates
  | false =>
    rw [if_neg Bool.false_ne_true]
    dsimp only
    have hupload := h.append (before_upload request transferId o)
    have hands : HandsOver server request transferId o endpoint ↔ ∃ uploaded, o.uploaded.result 60 = .ok uploaded ∧
        (uploaded.returncode = 0 → ∀ command, copyCommand request transferId endpoint = .ok command →
          Starts (startCopy server request transferId command o)) := and_iff_right hsurrogates
    rw [hands]
    cases hresult : o.uploaded.result 60 with
    | error e =>
      rw [(Traced.bind_of_error (x := sshUploadBytes request.destination (secretPath request transferId) o.uploaded)
        hresult).2]
      refine iff_of_false (not_closes hupload.cleanup) fun hs => ?_
      obtain ⟨uploaded, hok, -⟩ := hs.2
      cases hok
    | ok uploaded =>
      rw [(Traced.bind_of_ok (x := sshUploadBytes request.destination (secretPath request transferId) o.uploaded)
        hresult).2]
      simp only [Except.ok.injEq, exists_eq_left']
      by_cases hcode : uploaded.returncode = 0
      · obtain ⟨command, hcommand⟩ := copyCommand_ok transferId hdst hport
        rw [if_neg (not_not.mpr hcode), hcommand]
        simp only [hcode, Except.ok.injEq, forall_const, forall_eq']
        rw [← List.append_assoc]
        exact started_closes hupload
      · rw [if_pos hcode, refusal_events, ← List.append_assoc, closes_before hupload]
        exact (and_iff_left fun hzero => absurd hzero hcode).symm

/-- After an export has been opened it is closed exactly when the route survives what follows. -/
theorem dataCopy_closes_iff {payload : DataCopyRequest} {source destination : Option DataWorker}
    {stdout stderr : String}
    (hcheck : checkCopy payload source destination = .ok request) (hexport : o.exported = .exited stdout stderr 0) :
    Closes request transferId (dataCopy server payload source destination transferId o).events ↔
      Survives server request transferId o stdout := by
  obtain ⟨hsrc, hdst⟩ := checkCopy_ok hcheck
  obtain ⟨command, hcommand⟩ := sourceExportCommand_ok transferId request.ttlSeconds hsrc
  have hbefore := before_export request hcommand
  have hexported : asyncSshRun request.source (withWorkerDir request.source command) 30 o.exported =
      { result := .ok { stdout := stdout, stderr := stderr, returncode := 0 }
        events := [.issued request.source.id (withWorkerDir request.source command)] } := by
    rw [asyncSshRun, hexport]
    rfl
  unfold dataCopy
  rw [hcheck, (Traced.bind_of_ok (a := request) rfl).2, hcommand]
  dsimp only
  rw [hexported, (Traced.bind_of_ok rfl).2, if_neg (by simp)]
  dsimp only [Traced.ofExcept]
  rw [List.nil_append, Survives]
  cases hendpoint : endpointOf server.python stdout with
  | ok endpoint => exact copyFrom_closes hbefore hdst (endpointOf_port hendpoint)
  | error e =>
    dsimp only
    cases hmetadata : e.isMetadata with
    | false =>
      rw [if_neg Bool.false_ne_true]
      refine iff_of_false (not_closes ?_) fun hs => Bool.false_ne_true hs.2
      exact (hbefore.append before_nil).cleanup
    | true =>
      rw [if_pos rfl, Traced.events_then (fun _ => rfl), closes_before hbefore, and_iff_left rfl]

section samples

def endpointLine : String := "\x7b\"port\": 22000, \"username\": \"u\", \"password\": \"p\"\x7d"

def endpointValue : JsonValue :=
  .object [("port", .int 22000), ("username", .string { text := "u" }), ("password", .string { text := "p" })]

def samplePython : Python where
  loads s := if s = endpointLine then .ok endpointValue else .error .valueError
  parseInt _ := none
  str _ := { text := "" }

def sampleServer : CopyServer := { python := samplePython, fuel := 0, manager := 0 }

def samplePayload : DataCopyRequest :=
  { srcWorker := "a", srcPath := "/data", dstWorker := "b", dstPath := "/data" }

def sampleWorker (id : String) : DataWorker :=
  { id := id, name := id, status := .online, harnessDir := "/srv/worker-harness", sshHost := id,
    dataPaths := ["/data"] }

def sampleRequest : CheckedCopy :=
  { source := sampleWorker "a", destination := sampleWorker "b", srcPath := "/data", dstPath := "/data",
    ttlSeconds := 21600 }

/-- A copy that runs until its export expires, when the upload ends like this. -/
def sampleOutcomes (uploaded : SshOutcome) : CopyOutcomes :=
  { exported := .exited (endpointLine ++ "\n") "" 0
    uploaded := uploaded
    started := [({}, { id := "j" }), ({}, { time := 1 }), ({}, {}), ({}, { launches := true }),
      ({}, { code := some 0 }), ({}, {})]
    rounds := [{ time := 30000, answers := [] }]
    cleaned := .exited "" "" 0 }

theorem sampleCheck : checkCopy samplePayload (some (sampleWorker "a")) (some (sampleWorker "b")) =
    .ok sampleRequest := by
  decide +kernel

theorem sampleEndpoint : endpointOf samplePython (endpointLine ++ "\n") =
    .ok { port := 22000, username := { text := "u" }, password := { text := "p" } } := by
  decide +kernel

theorem starts_of_isSome {start : Traced Job} (h : start.result.toOption.isSome = true) : Starts start := by
  unfold Starts
  cases hresult : start.result with
  | ok job => trivial
  | error e =>
    rw [hresult] at h
    cases h

theorem dataCopy_closes_iff_sample : Closes sampleRequest "t" (dataCopy sampleServer samplePayload
    (some (sampleWorker "a")) (some (sampleWorker "b")) "t" (sampleOutcomes (.exited "" "" 0))).events := by
  refine (dataCopy_closes_iff sampleCheck rfl).mpr ⟨rfl, ?_⟩
  rw [show sampleServer.python = samplePython from rfl, sampleEndpoint]
  refine ⟨rfl, _, rfl, fun _ command hcommand => ?_⟩
  have hcopy : copyCommand sampleRequest "t"
    { port := 22000, username := { text := "u" }, password := { text := "p" } } =
      .ok ("WH_DIR=/srv /usr/local/lib/worker-harness/wh-data-import --host a --port 22000 --destination /data" ++
        " --username u --password-file /srv/worker-harness/data-transfer-t.secret") := by
    decide +kernel
  cases hcopy.symm.trans hcommand
  exact starts_of_isSome (by decide +kernel)

/-- The credential upload waits too long for its lane, and nothing closes the export. -/
theorem not_dataCopy_closes : ¬∀ server payload source destination request transferId o stdout stderr,
    checkCopy payload source destination = .ok request → o.exported = .exited stdout stderr 0 →
      Closes request transferId (dataCopy server payload source destination transferId o).events := by
  intro h
  have hclosed := (h sampleServer samplePayload (some (sampleWorker "a"))
    (some (sampleWorker "b")) sampleRequest "t"
    (sampleOutcomes .laneTimeout) _ _ sampleCheck rfl).issued
  exact absurd hclosed (by decide +kernel)

end samples

end WorkerHarness.DataCopies
