import WorkerHarness.AtomicSessions

/-!
# The command mailbox

Runs of enqueues, registrations, claims, acknowledgements, finishes and sweeps, with a
record of the commands that were accepted and of the acknowledgements that answered
`True`. A lease of a replaced incarnation never hides a command, because the registration
that replaces it gives the lease back: what is undelivered is either free or leased to the
current incarnation.
-/

namespace WorkerHarness.CommandMailbox

open SortedLists Database

def asEnqueued (c : PiSessionCommand) : PiSessionCommand :=
  { c with claimedAt := 0, claimedBy := "", deliveredAt := 0 }

/-- The database with the accepted commands in order, and the command and incarnation of each
acknowledgement that answered `True`. -/
structure Mailbox where
  db : Tables := {}
  enqueued : List PiSessionCommand := []
  acks : List (String × String) := []

inductive MailboxOp where
  | enqueue (command : PiSessionCommand) (now : ℕ)
  | register (payload : PiBridgeRegister) (now : ℕ) (uuid : ℕ → String)
  | claim (sessionId incarnation : String) (now leaseSeconds : ℕ)
  | ack (sessionId commandId incarnation : String) (now : ℕ)
  | finish (sessionId : String) (state : PiSessionState) (detail : String) (now : ℕ)
  | sweep (cutoffTs now : ℕ) (uuid : ℕ → String)

/-- New commands carry no lease, and the clock is positive. -/
def MailboxOp.Valid : MailboxOp → Prop
  | .enqueue command _ => asEnqueued command = command
  | .ack _ _ _ now => 0 < now
  | _ => True

namespace Mailbox

def step (m : Mailbox) : MailboxOp → Mailbox
  | .enqueue command now =>
    let r := atomically (enqueuePiSessionCommand command now) m.db
    { m with
      db := r.2
      enqueued := match r.1 with
        | .ok () => m.enqueued ++ [command]
        | .error _ => m.enqueued }
  | .register payload now uuid =>
    { m with db := (atomically (registerInteractivePiSession payload now uuid) m.db).2 }
  | .claim sessionId incarnation now leaseSeconds =>
    { m with db := (atomically (claimPiSessionCommands sessionId incarnation now leaseSeconds) m.db).2 }
  | .ack sessionId commandId incarnation now =>
    let r := atomically (ackPiSessionCommand sessionId commandId incarnation now) m.db
    { m with
      db := r.2
      acks := match r.1 with
        | .ok true => m.acks ++ [(commandId, incarnation)]
        | _ => m.acks }
  | .finish sessionId state detail now =>
    { m with db := (atomically (finishPiSession sessionId state detail now) m.db).2 }
  | .sweep cutoffTs now uuid =>
    { m with db := (atomically (sweepStaleInteractivePiSessions cutoffTs now uuid) m.db).2 }

def acked (m : Mailbox) : List String := m.acks.map Prod.fst

/-- The commands of a session that nobody has acknowledged, in the order of their enqueues. -/
def waiting (m : Mailbox) (sessionId : String) : List PiSessionCommand :=
  m.enqueued.filter fun c => decide (c.sessionId = sessionId) && decide (c.id ∉ m.acked)

end Mailbox

inductive MailboxRun : Mailbox → Prop where
  | init (d : Tables) (h : d.commands = []) : MailboxRun { db := d }
  | step {m : Mailbox} {op : MailboxOp} : MailboxRun m → op.Valid → MailboxRun (m.step op)

/-- The table holds exactly the accepted commands in order, delivered means acknowledged, and
an undelivered command is free or leased to the current incarnation. -/
structure MailboxInv (m : Mailbox) : Prop where
  rows : m.db.commands.map asEnqueued = m.enqueued
  ids : (m.db.commands.map (·.id)).Nodup
  delivered : ∀ c ∈ m.db.commands, c.deliveredAt ≠ 0 ↔ c.id ∈ m.acked
  known : ∀ id ∈ m.acked, id ∈ m.db.commands.map (·.id)
  acked : m.acked.Nodup
  leases : ∀ c ∈ m.db.commands, c.deliveredAt = 0 → ∀ incarnation,
    Current m.db c.sessionId incarnation → c.claimedBy = "" ∨ c.claimedBy = incarnation

theorem current_unique {d : Tables} {sessionId incarnation incarnation' : String}
    (h : Current d sessionId incarnation) (h' : Current d sessionId incarnation') : incarnation = incarnation' := by
  obtain ⟨s, hs, hi⟩ := h
  obtain ⟨s', hs', hi'⟩ := h'
  rw [hs] at hs'
  cases hs'
  rw [hi] at hi'
  exact Option.some.inj hi'

/-- A change of the session rows that sets no new incarnation makes no incarnation current. -/
theorem current_of_map {d d' : Tables} {g : PiSession → PiSession} (hd : d'.sessions = d.sessions.map g)
    (hid : ∀ s, (g s).id = s.id) (hg : ∀ s i, (g s).bridgeIncarnation = some i → s.bridgeIncarnation = some i)
    {sessionId incarnation : String} (h : Current d' sessionId incarnation) : Current d sessionId incarnation := by
  obtain ⟨s', hs', hi⟩ := h
  have hfind : findSession d' sessionId = (findSession d sessionId).map g := by
    have hp : ((fun s : PiSession => decide (s.id = sessionId)) ∘ g) = fun s => decide (s.id = sessionId) := by
      funext s
      simp [hid s]
    rw [findSession, hd, List.find?_map, hp, findSession]
  rw [hfind, Option.map_eq_some_iff] at hs'
  obtain ⟨s, hs, rfl⟩ := hs'
  exact ⟨s, hs, hg s _ hi⟩

/-- The same for an update of the rows that a condition selects. -/
theorem current_of_updateRows {d d' : Tables} {p : PiSession → Bool} {f : PiSession → PiSession}
    (hd : d'.sessions = updateRows p f d.sessions) (hid : ∀ s, (f s).id = s.id)
    (hf : ∀ s i, (f s).bridgeIncarnation = some i → s.bridgeIncarnation = some i) {sessionId incarnation : String}
    (h : Current d' sessionId incarnation) : Current d sessionId incarnation := by
  refine current_of_map hd (fun s => ?_) (fun s i => ?_) h
  · split
    · exact hid s
    · rfl
  · split
    · exact hf s i
    · exact id

namespace MailboxInv

variable {m : Mailbox}

/-- A step that leaves commands and acknowledgements as they are and makes nobody current. -/
theorem of_sessions (h : MailboxInv m) {d : Tables} (hc : d.commands = m.db.commands)
    (hcur : ∀ sessionId incarnation, Current d sessionId incarnation → Current m.db sessionId incarnation) :
    MailboxInv { m with db := d } := by
  refine ⟨hc ▸ h.rows, hc ▸ h.ids, hc ▸ h.delivered, hc ▸ h.known, h.acked, ?_⟩
  intro c hmem hu i hi
  exact h.leases c (hc ▸ hmem) hu i (hcur _ _ hi)

/-- A step that moves leases only. -/
theorem of_leases (h : MailboxInv m) {d : Tables} {f : PiSessionCommand → PiSessionCommand}
    (hc : d.commands = m.db.commands.map f) (hrow : ∀ c, asEnqueued (f c) = asEnqueued c)
    (hdel : ∀ c, (f c).deliveredAt = c.deliveredAt)
    (hlease : ∀ c ∈ m.db.commands, c.deliveredAt = 0 → ∀ incarnation, Current d c.sessionId incarnation →
      (f c).claimedBy = "" ∨ (f c).claimedBy = incarnation) : MailboxInv { m with db := d } := by
  have hid : ∀ c, (f c).id = c.id := fun c => (PiSessionCommand.mk.injEq .. ▸ hrow c).1
  have hses : ∀ c, (f c).sessionId = c.sessionId := fun c => (PiSessionCommand.mk.injEq .. ▸ hrow c).2.1
  have hids : d.commands.map (·.id) = m.db.commands.map (·.id) := by
    rw [hc, List.map_map]
    exact List.map_congr_left fun c _ => hid c
  refine ⟨?_, hids ▸ h.ids, ?_, hids ▸ h.known, h.acked, ?_⟩
  · show d.commands.map asEnqueued = m.enqueued
    rw [← h.rows, hc, List.map_map]
    exact List.map_congr_left fun c _ => hrow c
  · intro c' hc'
    obtain ⟨c, hmem, rfl⟩ := List.mem_map.mp (hc ▸ hc' : c' ∈ m.db.commands.map f)
    show (f c).deliveredAt ≠ 0 ↔ (f c).id ∈ m.acked
    rw [hdel, hid]
    exact h.delivered c hmem
  · intro c' hc' hu i hi
    obtain ⟨c, hmem, rfl⟩ := List.mem_map.mp (hc ▸ hc' : c' ∈ m.db.commands.map f)
    rw [hdel] at hu
    rw [hses] at hi
    exact hlease c hmem hu i hi

theorem enqueue (h : MailboxInv m) {command : PiSessionCommand} (hv : asEnqueued command = command) (now : ℕ) :
    MailboxInv (m.step (.enqueue command now)) := by
  simp only [Mailbox.step, atomically_enqueuePiSessionCommand]
  by_cases hany : m.db.commands.any (fun c => c.id = command.id) = true
  · simp only [hany, if_true]
    exact h
  · simp only [hany, Bool.false_eq_true, if_false]
    have hnew : command.id ∉ m.db.commands.map (·.id) := by simpa using hany
    have hcur : ∀ sessionId incarnation, Current (enqueuedTables command now m.db) sessionId incarnation →
        Current m.db sessionId incarnation := fun _ _ =>
      current_of_updateRows (f := PiSession.notified _) rfl (fun _ => rfl) (fun _ _ => id)
    have hfree : command.claimedBy = "" ∧ command.deliveredAt = 0 :=
      ⟨(congrArg PiSessionCommand.claimedBy hv).symm, (congrArg PiSessionCommand.deliveredAt hv).symm⟩
    refine ⟨?_, ?_, ?_, ?_, h.acked, ?_⟩
    · simp [enqueuedTables, h.rows, hv]
    · simp only [enqueuedTables, withSessions_commands, List.map_append, List.map_cons, List.map_nil]
      refine List.nodup_append.mpr ⟨h.ids, List.nodup_singleton _, fun a ha b hb => ?_⟩
      rw [List.mem_singleton.mp hb]
      exact fun he => hnew (he ▸ ha)
    · intro c hc
      rcases List.mem_append.mp hc with hc | hc
      · exact h.delivered c hc
      · rw [List.mem_singleton.mp hc]
        exact iff_of_false (fun hne => hne hfree.2) fun ha => hnew (h.known _ ha)
    · intro id hid
      have hold := h.known id hid
      simp only [enqueuedTables, withSessions_commands, List.map_append, List.mem_append]
      exact .inl hold
    · intro c hc hu i hi
      rcases List.mem_append.mp hc with hc | hc
      · exact h.leases c hc hu i (hcur _ _ hi)
      · rw [List.mem_singleton.mp hc]
        exact .inl hfree.1

theorem register (h : MailboxInv m) (payload : PiBridgeRegister) (now : ℕ) (uuid : ℕ → String) :
    MailboxInv (m.step (.register payload now uuid)) := by
  obtain ⟨events, hreg⟩ := atomically_registerInteractivePiSession payload now uuid m.db
  simp only [Mailbox.step, hreg]
  refine h.of_leases (f := fun c => if PiSessionCommand.heldByOther payload.sessionId payload.incarnation c then
    c.released else c) rfl (fun c => ?_) (fun c => ?_) ?_
  · split <;> rfl
  · split <;> rfl
  · intro c hc hu i hi
    by_cases hsid : c.sessionId = payload.sessionId
    · -- The registering incarnation is current now, and the leases of all others are given back.
      have hcur : i = payload.incarnation := by
        obtain ⟨s, hs, hinc⟩ := hi
        rw [findSession_registered, if_pos hsid, Option.some.injEq] at hs
        subst hs
        cases hf : findSession m.db c.sessionId <;> by_cases hr : payload.resumePath = "" <;>
          simp [registeredRow, hf, hr, reregisteredSession, registeredSession, PiSession.resumingAt] at hinc <;>
          exact hinc.symm
      subst hcur
      by_cases hb : c.claimedBy = payload.incarnation
      · simp [PiSessionCommand.heldByOther, hb]
      · simp [PiSessionCommand.heldByOther, hb, hsid, hu, PiSessionCommand.released]
    · have hold : Current m.db c.sessionId i := by
        obtain ⟨s, hs, hinc⟩ := hi
        rw [findSession_registered, if_neg hsid] at hs
        exact ⟨s, hs, hinc⟩
      have hnot : PiSessionCommand.heldByOther payload.sessionId payload.incarnation c = false := by
        simp [PiSessionCommand.heldByOther, PiSessionCommand.undelivered, hsid]
      simpa [hnot] using h.leases c hc hu i hold

theorem claim (h : MailboxInv m) (sessionId incarnation : String) (now leaseSeconds : ℕ) :
    MailboxInv (m.step (.claim sessionId incarnation now leaseSeconds)) := by
  simp only [Mailbox.step, atomically_claimPiSessionCommands]
  cases hcheck : checkIncarnation sessionId incarnation (findSession m.db sessionId) with
  | error e => exact h
  | ok session =>
    have hcur : Current m.db sessionId incarnation := current_iff.mpr ⟨session, hcheck⟩
    refine h.of_leases (f := fun c => if PiSessionCommand.leasable sessionId incarnation now leaseSeconds c then
      c.leased incarnation now else c) rfl (fun c => ?_) (fun c => ?_) ?_
    · split <;> rfl
    · split <;> rfl
    · intro c hc hu i hi
      split
      · next hl =>
        have hsid : c.sessionId = sessionId := by
          simp only [PiSessionCommand.leasable, Bool.and_eq_true, PiSessionCommand.undelivered_iff] at hl
          exact hl.1.1
        exact .inr (current_unique hcur (hsid ▸ hi))
      · exact h.leases c hc hu i hi

/-- The only row that an acknowledgement can deliver is the one with its id. -/
theorem ackable_iff (h : MailboxInv m) {sessionId commandId incarnation : String} {c₀ : PiSessionCommand}
    (hc₀ : c₀ ∈ m.db.commands) (ha : c₀.ackable sessionId commandId incarnation = true) {c : PiSessionCommand}
    (hc : c ∈ m.db.commands) : c.ackable sessionId commandId incarnation = true ↔ c.id = commandId := by
  have hid : ∀ c : PiSessionCommand, c.ackable sessionId commandId incarnation = true → c.id = commandId :=
    fun c hc => by
      simp only [PiSessionCommand.ackable, Bool.and_eq_true, decide_eq_true_eq] at hc
      exact hc.1.1
  refine ⟨hid c, fun he => ?_⟩
  rw [List.inj_on_of_nodup_map h.ids hc hc₀ (he.trans (hid c₀ ha).symm)]
  exact ha

theorem ack (h : MailboxInv m) (sessionId commandId incarnation : String) {now : ℕ} (hnow : 0 < now) :
    MailboxInv (m.step (.ack sessionId commandId incarnation now)) := by
  simp only [Mailbox.step, atomically_ackPiSessionCommand]
  cases hcheck : checkIncarnation sessionId incarnation (findSession m.db sessionId) with
  | error e => exact h
  | ok session =>
    have hcur : ∀ s i, Current (ackedTables sessionId commandId incarnation now session m.db) s i →
        Current m.db s i := by
      intro s i hi
      by_cases ha : Answers sessionId commandId incarnation session m.db
      · exact current_of_updateRows (p := fun s => s.id = sessionId) (f := PiSession.answered now)
          (by simp [ackedTables, ha]) (fun _ => rfl) (fun _ _ => id) hi
      · simpa [ackedTables, ha, Current, findSession] using hi
    cases hany : m.db.commands.any (PiSessionCommand.ackable sessionId commandId incarnation) with
    | false =>
      refine h.of_sessions ?_ hcur
      exact updateRows_of_none fun c hc => by simpa using List.any_eq_false.mp hany c hc
    | true =>
      obtain ⟨c₀, hc₀, ha⟩ := List.any_eq_true.mp hany
      have hiff := fun c hc => h.ackable_iff hc₀ ha (c := c) hc
      have hfresh : commandId ∉ m.acked := by
        simp only [PiSessionCommand.ackable, Bool.and_eq_true, decide_eq_true_eq,
          PiSessionCommand.undelivered_iff] at ha
        rw [← ha.1.1, ← h.delivered c₀ hc₀]
        exact not_not.mpr ha.1.2.2
      have hacked : Mailbox.acked { m with
          db := ackedTables sessionId commandId incarnation now session m.db
          acks := m.acks ++ [(commandId, incarnation)] } = m.acked ++ [commandId] := by simp [Mailbox.acked]
      have hids : (ackedTables sessionId commandId incarnation now session m.db).commands.map (·.id) =
          m.db.commands.map (·.id) := by
        simp only [ackedTables, withSessions_commands, updateRows, List.map_map]
        refine List.map_congr_left fun c _ => ?_
        simp only [Function.comp]
        split <;> rfl
      have hmem : ∀ c' ∈ (ackedTables sessionId commandId incarnation now session m.db).commands,
          ∃ c ∈ m.db.commands, c' = if c.ackable sessionId commandId incarnation then c.delivered now else c := by
        intro c' hc'
        obtain ⟨c, hc, rfl⟩ := List.mem_map.mp hc'
        exact ⟨c, hc, rfl⟩
      refine ⟨?_, ?_, ?_, ?_, ?_, ?_⟩
      · show (ackedTables sessionId commandId incarnation now session m.db).commands.map asEnqueued = m.enqueued
        rw [← h.rows]
        simp only [ackedTables, withSessions_commands, updateRows, List.map_map]
        refine List.map_congr_left fun c _ => ?_
        simp only [Function.comp]
        split <;> rfl
      · exact hids ▸ h.ids
      · intro c' hc'
        rw [hacked, List.mem_append, List.mem_singleton]
        obtain ⟨c, hc, rfl⟩ := hmem c' hc'
        by_cases hid : c.id = commandId
        · rw [if_pos ((hiff c hc).mpr hid)]
          exact iff_of_true hnow.ne' (.inr hid)
        · rw [if_neg (mt (hiff c hc).mp hid)]
          exact (h.delivered c hc).trans (or_iff_left hid).symm
      · intro id hid
        rw [hacked, List.mem_append, List.mem_singleton] at hid
        show id ∈ (ackedTables sessionId commandId incarnation now session m.db).commands.map (·.id)
        rw [hids]
        rcases hid with hid | rfl
        · exact h.known id hid
        · exact List.mem_map.mpr ⟨c₀, hc₀, (hiff c₀ hc₀).mp ha⟩
      · rw [hacked]
        refine List.nodup_append.mpr ⟨h.acked, List.nodup_singleton _, fun a ha' b hb => ?_⟩
        rw [List.mem_singleton.mp hb]
        exact fun he => hfresh (he ▸ ha')
      · intro c' hc' hu i hi
        obtain ⟨c, hc, rfl⟩ := hmem c' hc'
        by_cases hac : c.ackable sessionId commandId incarnation = true
        · rw [if_pos hac] at hu
          exact absurd hu hnow.ne'
        · rw [if_neg hac] at hu hi ⊢
          exact h.leases c hc hu i (hcur _ _ hi)

theorem step (h : MailboxInv m) {op : MailboxOp} (hop : op.Valid) : MailboxInv (m.step op) := by
  cases op with
  | enqueue command now => exact h.enqueue hop now
  | register payload now uuid => exact h.register payload now uuid
  | claim sessionId incarnation now leaseSeconds => exact h.claim sessionId incarnation now leaseSeconds
  | ack sessionId commandId incarnation now => exact h.ack sessionId commandId incarnation hop
  | finish sessionId state detail now =>
    simp only [Mailbox.step, atomically_finishPiSession]
    refine h.of_sessions rfl fun _ _ => ?_
    exact current_of_updateRows (f := PiSession.finished state detail now) rfl (fun _ => rfl)
      (fun _ _ hi => by cases hi)
  | sweep cutoffTs now uuid =>
    obtain ⟨r, g, events, hsweep, hg⟩ := atomically_sweepStaleInteractivePiSessions cutoffTs now uuid m.db
    simp only [Mailbox.step, hsweep]
    refine h.of_sessions rfl fun _ _ => current_of_map rfl (fun s => ?_) (fun s i hi => ?_)
    · rcases hg s with hs | hs
      · rw [hs]
      · rw [hs, PiSession.stale]
    · rcases hg s with hs | hs <;> rw [hs] at hi <;> exact hi

end MailboxInv

/-- The invariant holds in every state of every run. -/
theorem MailboxRun.inv {m : Mailbox} (h : MailboxRun m) : MailboxInv m := by
  induction h with
  | init d hd => constructor <;> simp [hd, Mailbox.acked]
  | step _ hop ih => exact ih.step hop

/-- What a claim hands out: all waiting commands of the session, by creation time and then by the
order of their enqueues. -/
structure HandsOut (m : Mailbox) (sessionId : String) (rows : List PiSessionCommand) : Prop where
  all : (rows.map asEnqueued).Perm (m.waiting sessionId)
  ordered : (rows.map asEnqueued).Pairwise fun a b =>
    a.createdAt < b.createdAt ∨ a.createdAt = b.createdAt ∧ [a, b].Sublist m.enqueued

namespace MailboxInv

variable {m : Mailbox}

/-- The waiting commands are the undelivered rows. -/
theorem waiting_eq (h : MailboxInv m) (sessionId : String) :
    m.waiting sessionId = (m.db.commands.filter (PiSessionCommand.undelivered sessionId)).map asEnqueued := by
  rw [Mailbox.waiting, ← h.rows, List.filter_map]
  refine congrArg _ (List.filter_congr fun c hc => ?_)
  rw [Bool.eq_iff_iff]
  have hd := h.delivered c hc
  by_cases hu : c.deliveredAt = 0
  · have hn : c.id ∉ m.acked := mt hd.mpr (not_not.mpr hu)
    simp only [Function.comp, Bool.and_eq_true, decide_eq_true_eq, PiSessionCommand.undelivered_iff]
    exact and_congr_right fun _ => iff_of_true hn hu
  · have hn : c.id ∈ m.acked := hd.mp hu
    simp only [Function.comp, Bool.and_eq_true, decide_eq_true_eq, PiSessionCommand.undelivered_iff]
    exact and_congr_right fun _ => iff_of_false (not_not.mpr hn) hu

/-- Everything undelivered can be leased by the current incarnation, and is held by it afterwards. -/
theorem held_eq (h : MailboxInv m) {sessionId incarnation : String} (hcur : Current m.db sessionId incarnation)
    (now leaseSeconds : ℕ) :
    heldCommands (leasedTables sessionId incarnation now leaseSeconds m.db) sessionId incarnation =
      sortOn (·.createdAt) ((m.db.commands.filter (PiSessionCommand.undelivered sessionId)).map
        (PiSessionCommand.leased incarnation now)) := by
  have hlease : ∀ c ∈ m.db.commands, c.leasable sessionId incarnation now leaseSeconds =
    c.undelivered sessionId := by
    intro c hc
    by_cases hu : c.undelivered sessionId = true
    · obtain ⟨hsid, hdel⟩ := PiSessionCommand.undelivered_iff.mp hu
      rcases h.leases c hc hdel incarnation (hsid ▸ hcur) with hb | hb <;>
        simp [PiSessionCommand.leasable, hu, hb]
    · simp [PiSessionCommand.leasable, Bool.not_eq_true _ ▸ hu]
  have hrows : (leasedTables sessionId incarnation now leaseSeconds m.db).commands =
      m.db.commands.map fun c => if c.undelivered sessionId then c.leased incarnation now else c := by
    refine List.map_congr_left fun c hc => ?_
    rw [hlease c hc]
  unfold heldCommands
  rw [hrows, List.filter_map]
  refine congrArg _ ?_
  have hheld : ∀ c ∈ m.db.commands, (PiSessionCommand.heldBy sessionId incarnation ∘
      fun c => if c.undelivered sessionId then c.leased incarnation now else c) c = c.undelivered sessionId := by
    intro c _
    show PiSessionCommand.heldBy sessionId incarnation (if c.undelivered sessionId then _ else c) = _
    by_cases hu : c.undelivered sessionId = true
    · rw [if_pos hu, hu, PiSessionCommand.heldBy, Bool.and_eq_true]
      exact ⟨hu, decide_eq_true rfl⟩
    · rw [if_neg hu, PiSessionCommand.heldBy, Bool.eq_false_iff.mpr hu, Bool.false_and]
  rw [List.filter_congr hheld]
  refine List.map_congr_left fun c hc => ?_
  rw [if_pos (List.mem_filter.mp hc).2]

theorem handsOut (h : MailboxInv m) {sessionId incarnation : String} (hcur : Current m.db sessionId incarnation)
    (now leaseSeconds : ℕ) :
    HandsOut m sessionId
      (heldCommands (leasedTables sessionId incarnation now leaseSeconds m.db) sessionId incarnation) := by
  have hrows : (heldCommands (leasedTables sessionId incarnation now leaseSeconds m.db) sessionId incarnation).map
      asEnqueued = sortOn (·.createdAt) (m.waiting sessionId) := by
    have hkey : ∀ l : List PiSessionCommand,
        sortOn (·.createdAt) (l.map asEnqueued) = (sortOn (·.createdAt) l).map asEnqueued :=
      fun l => sortOn_map fun _ _ _ _ => Iff.rfl
    rw [h.held_eq hcur, ← hkey, List.map_map, h.waiting_eq]
    rfl
  have hnodup : m.enqueued.Nodup := by
    rw [← h.rows]
    refine List.Nodup.of_map (·.id) ?_
    rw [List.map_map]
    exact h.ids
  refine ⟨hrows ▸ sortOn_perm _ _, ?_⟩
  rw [hrows]
  refine (sortOn_stable (hnodup.filter _)).imp fun hab => hab.imp id fun hs => ⟨hs.1, ?_⟩
  exact hs.2.trans List.filter_sublist

end MailboxInv

/-- The mailbox protocol: a claim of the current incarnation hands out every undelivered command
in order; an acknowledgement answers `True` only to the current holder of the lease; a claim or
acknowledgement of any other incarnation changes nothing; no command is acknowledged twice;
and every command that was ever enqueued is undelivered or was acknowledged exactly once. -/
theorem mailbox_protocol {m : Mailbox} (h : MailboxRun m) :
    (∀ sessionId incarnation now leaseSeconds, Current m.db sessionId incarnation →
      ∃ rows d, atomically (claimPiSessionCommands sessionId incarnation now leaseSeconds) m.db = (.ok rows, d) ∧
        HandsOut m sessionId rows) ∧
    (∀ sessionId commandId incarnation now d,
      atomically (ackPiSessionCommand sessionId commandId incarnation now) m.db = (.ok true, d) →
        Current m.db sessionId incarnation ∧ commandId ∉ m.acked ∧
          ∃ c ∈ m.db.commands, c.id = commandId ∧ c.sessionId = sessionId ∧ c.claimedBy = incarnation) ∧
    m.acked.Nodup ∧
    (∀ sessionId incarnation, ¬Current m.db sessionId incarnation →
      (∀ now leaseSeconds, ∃ e,
        atomically (claimPiSessionCommands sessionId incarnation now leaseSeconds) m.db = (.error e, m.db)) ∧
      ∀ commandId now, ∃ e,
        atomically (ackPiSessionCommand sessionId commandId incarnation now) m.db = (.error e, m.db)) ∧
    ∀ command ∈ m.enqueued, ∃ c ∈ m.db.commands, asEnqueued c = command ∧
      (c.deliveredAt = 0 ∧ c.id ∉ m.acked ∨ c.deliveredAt ≠ 0 ∧ m.acked.count c.id = 1) := by
  have hi := h.inv
  refine ⟨fun sessionId incarnation now leaseSeconds hcur => ?_,
    fun sessionId commandId incarnation now d hack => ?_,
    hi.acked, fun sessionId incarnation hcur => ?_, fun command hcommand => ?_⟩
  · obtain ⟨session, hcheck⟩ := current_iff.mp hcur
    rw [atomically_claimPiSessionCommands, hcheck]
    exact ⟨_, _, rfl, hi.handsOut hcur now leaseSeconds⟩
  · rw [atomically_ackPiSessionCommand] at hack
    cases hcheck : checkIncarnation sessionId incarnation (findSession m.db sessionId) with
    | error e => simp [hcheck] at hack
    | ok session =>
      simp only [hcheck, Prod.mk.injEq, Except.ok.injEq] at hack
      obtain ⟨c, hc, ha⟩ := List.any_eq_true.mp hack.1
      simp only [PiSessionCommand.ackable, Bool.and_eq_true, decide_eq_true_eq,
        PiSessionCommand.undelivered_iff] at ha
      obtain ⟨⟨hid, hsid, hu⟩, hby⟩ := ha
      refine ⟨current_iff.mpr ⟨session, hcheck⟩, ?_, c, hc, hid, hsid, hby⟩
      rw [← hid, ← hi.delivered c hc]
      exact not_not.mpr hu
  · cases hcheck : checkIncarnation sessionId incarnation (findSession m.db sessionId) with
    | ok session => exact absurd (current_iff.mpr ⟨session, hcheck⟩) hcur
    | error e =>
      refine ⟨fun now leaseSeconds => ⟨e, ?_⟩, fun commandId now => ⟨e, ?_⟩⟩
      · rw [atomically_claimPiSessionCommands, hcheck]
      · rw [atomically_ackPiSessionCommand, hcheck]
  · rw [← hi.rows] at hcommand
    obtain ⟨c, hc, rfl⟩ := List.mem_map.mp hcommand
    refine ⟨c, hc, rfl, ?_⟩
    by_cases hu : c.deliveredAt = 0
    · exact .inl ⟨hu, mt (hi.delivered c hc).mpr (not_not.mpr hu)⟩
    · exact .inr ⟨hu, List.count_eq_one_of_mem hi.acked ((hi.delivered c hc).mp hu)⟩

theorem MailboxRun.foldl {m : Mailbox} (h : MailboxRun m) {ops : List MailboxOp} (hops : ∀ op ∈ ops, op.Valid) :
    MailboxRun (ops.foldl Mailbox.step m) := by
  induction ops generalizing m with
  | nil => exact h
  | cons op ops ih => exact ih (h.step (hops op (by simp))) fun op' h' => hops op' (by simp [h'])

/-- Bridge `A` leases two commands and acknowledges one before bridge `B` replaces it. -/
def replacedBridge : List MailboxOp :=
  [.register { sessionId := "s", incarnation := "A" } 1 fun _ => "",
    .enqueue { id := "first", sessionId := "s", createdAt := 2 } 2,
    .enqueue { id := "second", sessionId := "s", createdAt := 2 } 2,
    .claim "s" "A" 3 30,
    .ack "s" "second" "A" 4,
    .register { sessionId := "s", incarnation := "B" } 5 fun _ => ""]

theorem mailbox_protocol_replacedBridge :
    ∃ rows d, atomically (claimPiSessionCommands "s" "B" 6 30) (replacedBridge.foldl Mailbox.step {}).db =
        (.ok rows, d) ∧ HandsOut (replacedBridge.foldl Mailbox.step {}) "s" rows := by
  have hrun : MailboxRun (replacedBridge.foldl Mailbox.step {}) := by
    refine MailboxRun.foldl (.init {} rfl) fun op hop => ?_
    simp only [replacedBridge, List.mem_cons, List.not_mem_nil, or_false] at hop
    rcases hop with rfl | rfl | rfl | rfl | rfl | rfl <;> first | trivial | rfl | exact Nat.succ_pos _
  have hsession : (findSession (replacedBridge.foldl Mailbox.step {}).db "s").map (·.bridgeIncarnation) =
      some (some "B") := by decide
  obtain ⟨session, hfind, hinc⟩ := Option.map_eq_some_iff.mp hsession
  exact (mailbox_protocol hrun).1 "s" "B" 6 30 ⟨session, hfind, hinc⟩

end WorkerHarness.CommandMailbox
