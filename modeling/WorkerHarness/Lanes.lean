import WorkerHarness.KeyedLists
import Mathlib.Data.Int.Basic
import Mathlib.Tactic.Linarith

/-!
# Lanes to the workers

The lane of a worker hands out its slots to callers in the order in which they came. Its lock is
never held across an await, so what a caller does between two awaits is one step; a wait ends at any
time, also after the slot has been handed over.
-/

namespace WorkerHarness.Lanes

open KeyedLists

/-- The future that a queued caller waits for. -/
inductive Future where
  | pending
  | result
  | cancelled
  deriving DecidableEq

/-- Where a caller of `acquire` is suspended, or that it has finished. -/
inductive Phase where
  | waiting (waiter : Future)
  | body
  | finished
  deriving DecidableEq

/-- `_WorkerLaneState`. The futures are those of the callers. -/
structure WorkerLaneState where
  available : ℤ
  maxQueue : ℕ
  waiters : List ℕ := []
  inUse : ℤ := 0
  timeoutsTotal : ℕ := 0
  acquiresTotal : ℕ := 0
  deriving DecidableEq

/-- The lane of a worker with its callers, in the order of their arrival, and a record of who was
given a slot. -/
structure Lane where
  state : WorkerLaneState
  callers : List (ℕ × Phase) := []
  granted : List ℕ := []
  deriving DecidableEq

/-- `WorkerLanes`: the bounds of every lane. -/
structure WorkerLanes where
  maxConcurrent : ℕ
  maxQueue : ℕ
  pos : 1 ≤ maxConcurrent

/-- The lane that `_state_for` creates. -/
def WorkerLanes.newLane (lanes : WorkerLanes) : Lane :=
  { state := { available := lanes.maxConcurrent, maxQueue := lanes.maxQueue } }

/-- The loop of `_release_locked`. -/
def releaseTo : List ℕ → Lane → Lane
  | [], l =>
    { l with state := { l.state with
        waiters := [], inUse := l.state.inUse - 1, available := l.state.available + 1 } }
  | waiter :: waiters, l =>
    if l.callers.lookup waiter = some (.waiting .pending) then
      { state := { l.state with waiters := waiters }, callers := setValue waiter (.waiting .result) l.callers,
        granted := l.granted ++ [waiter] }
    else releaseTo waiters l

/-- `_release_locked`. -/
def releaseLocked (l : Lane) : Lane := releaseTo l.state.waiters l

/-- `_abandon_waiter`. -/
def abandonWaiter (id : ℕ) (l : Lane) : Lane :=
  if id ∈ l.state.waiters then
    { l with
      state := { l.state with waiters := l.state.waiters.erase id },
      callers := setValue id (.waiting .cancelled) l.callers }
  else if l.callers.lookup id = some (.waiting .result) then releaseLocked l
  else l

def finish (id : ℕ) (l : Lane) : Lane := { l with callers := setValue id .finished l.callers }

/-- `acquire` up to its first await. -/
def acquire (id : ℕ) (l : Lane) : Lane :=
  if 0 < l.state.available ∧ l.state.waiters = [] then
    { state := { l.state with
        available := l.state.available - 1, inUse := l.state.inUse + 1,
        acquiresTotal := l.state.acquiresTotal + 1 },
      callers := l.callers ++ [(id, .body)], granted := l.granted ++ [id] }
  else if l.state.maxQueue ≤ l.state.waiters.length then
    { l with
      state := { l.state with timeoutsTotal := l.state.timeoutsTotal + 1 },
      callers := l.callers ++ [(id, .finished)] }
  else
    { l with
      state := { l.state with waiters := l.state.waiters ++ [id] },
      callers := l.callers ++ [(id, .waiting .pending)] }

inductive WaitEnd where
  | woken
  | timedOut
  | cancelled
  deriving DecidableEq

inductive LaneEvent where
  | acquire (id : ℕ)
  | resume (id : ℕ) (how : WaitEnd)
  | leave (id : ℕ)
  deriving DecidableEq

/-- A caller arrives, its wait ends, or its body ends. -/
def step (l : Lane) : LaneEvent → Option Lane
  | .acquire id => if id ∈ l.callers.map Prod.fst then none else some (acquire id l)
  | .resume id how =>
    match l.callers.lookup id, how with
    | some (.waiting .result), .woken => some
      { l with
        state := { l.state with acquiresTotal := l.state.acquiresTotal + 1 },
        callers := setValue id .body l.callers }
    | some (.waiting _), .timedOut =>
      let l' := abandonWaiter id l
      some (finish id { l' with state := { l'.state with timeoutsTotal := l'.state.timeoutsTotal + 1 } })
    | some (.waiting _), .cancelled => some (finish id (abandonWaiter id l))
    | _, _ => none
  | .leave id =>
    match l.callers.lookup id with
    | some .body => some (finish id (releaseLocked l))
    | _ => none

def inBody : Phase → Bool
  | .body => true
  | _ => false

/-- The slot was handed to the caller, which has neither resumed nor given it back. -/
def handed : Phase → Bool
  | .waiting .result => true
  | _ => false

def holds (phase : Phase) : Bool := inBody phase || handed phase

/-- The caller waits for a slot. -/
def queued : Phase → Bool
  | .waiting .pending => true
  | _ => false

/-- The invariant of a lane, while `owed` slots are held by nobody and not yet given back. -/
structure LaneInv (max maxQueue owed : ℕ) (l : Lane) : Prop where
  nodup : (l.callers.map Prod.fst).Nodup
  bound : l.state.maxQueue = maxQueue
  total : l.state.available + l.state.inUse = max
  nonneg : 0 ≤ l.state.available
  used : l.state.inUse = (keysWith holds l.callers).length + owed
  queue : l.state.waiters = keysWith queued l.callers
  busy : l.state.waiters ≠ [] → l.state.available = 0
  bounded : l.state.waiters.length ≤ maxQueue
  order : (l.granted ++ l.state.waiters).Sublist (l.callers.map Prod.fst)

variable {max maxQueue owed id : ℕ} {l l' : Lane} {phase : Phase}

theorem laneInv_newLane (lanes : WorkerLanes) : LaneInv lanes.maxConcurrent lanes.maxQueue 0 lanes.newLane where
  nodup := .nil
  bound := rfl
  total := by simp [WorkerLanes.newLane]
  nonneg := Int.natCast_nonneg _
  used := rfl
  queue := rfl
  busy h := absurd rfl h
  bounded := Nat.zero_le _
  order := .slnil

namespace LaneInv

theorem queue_nodup (h : LaneInv max maxQueue owed l) : l.state.waiters.Nodup := h.queue ▸ nodup_keysWith h.nodup

/-- A queued caller waits for a pending future. -/
theorem lookup_waiter (h : LaneInv max maxQueue owed l) (hid : id ∈ l.state.waiters) :
    l.callers.lookup id = some (.waiting .pending) := by
  rw [h.queue] at hid
  obtain ⟨⟨id', phase⟩, hmem, rfl⟩ := List.mem_map.mp hid
  obtain ⟨hmem, hqueued⟩ := List.mem_filter.mp hmem
  have hphase : phase = .waiting .pending := by
    cases phase with
    | waiting waiter => cases waiter <;> first | rfl | cases hqueued
    | body => cases hqueued
    | finished => cases hqueued
  rw [lookup_eq_some h.nodup]
  exact hphase ▸ hmem

theorem mem_waiters (h : LaneInv max maxQueue owed l) (hid : l.callers.lookup id = some phase) :
    id ∈ l.state.waiters ↔ queued phase = true := by
  rw [h.queue, mem_keysWith_iff h.nodup ((lookup_eq_some h.nodup).mp hid)]

/-- The counters of the lane take no part. -/
theorem counted (h : LaneInv max maxQueue owed l) (timeouts acquires : ℕ) :
    LaneInv max maxQueue owed
      { l with state := { l.state with timeoutsTotal := timeouts, acquiresTotal := acquires } } :=
  ⟨h.nodup, h.bound, h.total, h.nonneg, h.used, h.queue, h.busy, h.bounded, h.order⟩

/-- Handing the slot to the first waiter, or counting it as available. -/
theorem releaseLocked (h : LaneInv max maxQueue 1 l) : LaneInv max maxQueue 0 (releaseLocked l) := by
  unfold Lanes.releaseLocked
  cases hwaiters : l.state.waiters with
  | nil =>
    have htotal := h.total
    have hnonneg := h.nonneg
    have hused := h.used
    refine ⟨h.nodup, h.bound, ?_, ?_, ?_, ?_, fun hne => absurd rfl hne, Nat.zero_le _, ?_⟩
    · simp only [releaseTo]
      omega
    · simp only [releaseTo]
      omega
    · simp only [releaseTo]
      omega
    · exact hwaiters.symm.trans h.queue
    · simpa [releaseTo, hwaiters] using h.order
  | cons waiter waiters =>
    have hmem : waiter ∈ l.state.waiters := hwaiters ▸ List.mem_cons_self ..
    have hlookup := h.lookup_waiter hmem
    have hcaller := (lookup_eq_some h.nodup).mp hlookup
    have hnodup := h.queue_nodup
    rw [hwaiters, List.nodup_cons] at hnodup
    rw [releaseTo, if_pos hlookup]
    refine ⟨?_, h.bound, h.total, h.nonneg, ?_, ?_, ?_, ?_, ?_⟩
    · exact nodup_setValue h.nodup
    · have hlength := length_keysWith_of_true h.nodup hcaller (p := holds) (a := .waiting .result) rfl rfl
      have hused := h.used
      dsimp only
      rw [hlength]
      push_cast
      omega
    · have hqueue := h.queue
      rw [hwaiters] at hqueue
      dsimp only
      rw [keysWith_setValue_of_false rfl, ← hqueue, List.filter_cons]
      simp only [bne_self_eq_false, Bool.false_eq_true, if_false]
      refine (List.filter_eq_self.mpr fun w hw => ?_).symm
      exact bne_iff_ne.mpr fun heq => hnodup.1 (heq ▸ hw)
    · intro hne
      exact h.busy (hwaiters ▸ List.cons_ne_nil _ _)
    · have hbounded := h.bounded
      rw [hwaiters, List.length_cons] at hbounded
      dsimp only
      omega
    · rw [keys_setValue]
      have horder := h.order
      rw [hwaiters] at horder
      simpa using horder

/-- A caller without a slot that is not queued ends. -/
theorem finish_other (h : LaneInv max maxQueue owed l) (hid : l.callers.lookup id = some phase)
    (hholds : holds phase = false)
    (hqueued : queued phase = false) : LaneInv max maxQueue owed (finish id l) := by
  have hcaller := (lookup_eq_some h.nodup).mp hid
  refine ⟨nodup_setValue h.nodup, h.bound, h.total, h.nonneg, ?_, ?_, h.busy, h.bounded, ?_⟩
  · simp only [finish]
    rw [keysWith_setValue_of_not h.nodup hcaller hholds rfl]
    exact h.used
  · simp only [finish]
    rw [keysWith_setValue_of_not h.nodup hcaller hqueued rfl]
    exact h.queue
  · simp only [finish]
    rw [keys_setValue]
    exact h.order

/-- A caller with a slot ends, and owes it. -/
theorem finish_holder (h : LaneInv max maxQueue 0 l) (hid : l.callers.lookup id = some phase)
    (hholds : holds phase = true) :
    LaneInv max maxQueue 1 (finish id l) := by
  have hcaller := (lookup_eq_some h.nodup).mp hid
  have hqueued : queued phase = false := by
    cases phase with
    | waiting waiter => cases waiter <;> first | rfl | cases hholds
    | body => rfl
    | finished => cases hholds
  refine ⟨nodup_setValue h.nodup, h.bound, h.total, h.nonneg, ?_, ?_, h.busy, h.bounded, ?_⟩
  · have hlength := length_keysWith_of_false h.nodup hcaller hholds (a := .finished) rfl
    have hused := h.used
    simp only [finish]
    omega
  · simp only [finish]
    rw [keysWith_setValue_of_not h.nodup hcaller hqueued rfl]
    exact h.queue
  · simp only [finish]
    rw [keys_setValue]
    exact h.order

end LaneInv

/-- A caller that is not queued may end before or after the release. -/
theorem finish_releaseLocked (hid : l.callers.lookup id = some phase) (hqueued : queued phase = false) :
    finish id (releaseLocked l) = releaseLocked (finish id l) := by
  have hloop : ∀ waiters, finish id (releaseTo waiters l) = releaseTo waiters (finish id l) := by
    intro waiters
    induction waiters with
    | nil => rfl
    | cons waiter waiters ih =>
      rw [releaseTo, releaseTo]
      have hsame : (finish id l).callers.lookup waiter = some (.waiting .pending) ↔
          l.callers.lookup waiter = some (.waiting .pending) := by
        simp only [finish]
        rw [lookup_setValue]
        split
        · next heq =>
          subst heq
          rw [hid]
          constructor
          · intro h
            cases h
          · intro h
            cases h
            cases hqueued
        · rfl
      by_cases hpending : l.callers.lookup waiter = some (.waiting .pending)
      · have hne : id ≠ waiter := by
          rintro rfl
          rw [hid] at hpending
          cases hpending
          cases hqueued
        rw [if_pos hpending, if_pos (hsame.mpr hpending)]
        simp only [finish]
        rw [setValue_comm hne]
      · rw [if_neg hpending, if_neg (fun h => hpending (hsame.mp h))]
        exact ih
  exact hloop l.state.waiters

namespace LaneInv

theorem release (h : LaneInv max maxQueue 0 l) (hid : l.callers.lookup id = some phase)
    (hholds : holds phase = true) :
    LaneInv max maxQueue 0 (finish id (Lanes.releaseLocked l)) := by
  have hqueued : queued phase = false := by
    cases phase with
    | waiting waiter => cases waiter <;> first | rfl | cases hholds
    | body => rfl
    | finished => cases hholds
  rw [finish_releaseLocked hid hqueued]
  exact (h.finish_holder hid hholds).releaseLocked

/-- A queued caller gives up. -/
theorem withdraw (h : LaneInv max maxQueue 0 l) (hid : id ∈ l.state.waiters) :
    LaneInv max maxQueue 0 (finish id
      { l with
        state := { l.state with waiters := l.state.waiters.erase id },
        callers := setValue id (.waiting .cancelled) l.callers }) := by
  have hcaller := (lookup_eq_some h.nodup).mp (h.lookup_waiter hid)
  have hcancelled := @mem_setValue _ _ _ _ (Phase.waiting .cancelled) _ _ hcaller
  have hnodup := @nodup_setValue _ _ _ id (Phase.waiting .cancelled) _ h.nodup
  refine ⟨nodup_setValue hnodup, h.bound, h.total, h.nonneg, ?_, ?_, ?_, ?_, ?_⟩
  · simp only [finish]
    rw [keysWith_setValue_of_not hnodup hcancelled rfl rfl, keysWith_setValue_of_not h.nodup hcaller rfl rfl]
    exact h.used
  · simp only [finish]
    rw [keysWith_setValue_of_not hnodup hcancelled rfl rfl, keysWith_setValue_of_false rfl, ← h.queue,
      h.queue_nodup.erase_eq_filter]
  · intro hne
    refine h.busy fun hnil => hne ?_
    simp [finish, hnil]
  · exact (List.length_erase_le ..).trans h.bounded
  · simp only [finish]
    rw [keys_setValue, keys_setValue]
    exact (List.Sublist.append_left List.erase_sublist l.granted).trans h.order

theorem abandon (h : LaneInv max maxQueue 0 l) {waiter : Future}
    (hid : l.callers.lookup id = some (.waiting waiter)) :
    LaneInv max maxQueue 0 (finish id (abandonWaiter id l)) := by
  unfold abandonWaiter
  split
  · next hmem => exact h.withdraw hmem
  · next hmem =>
    split
    · next hresult => exact h.release hresult rfl
    · next hresult =>
      cases waiter with
      | pending => exact absurd ((h.mem_waiters hid).mpr rfl) hmem
      | result => exact absurd hid hresult
      | cancelled => exact h.finish_other hid rfl rfl

/-- A caller whose wait succeeded goes on. -/
theorem enter (h : LaneInv max maxQueue 0 l) (hid : l.callers.lookup id = some (.waiting .result)) :
    LaneInv max maxQueue 0 { l with callers := setValue id .body l.callers } := by
  have hcaller := (lookup_eq_some h.nodup).mp hid
  refine ⟨nodup_setValue h.nodup, h.bound, h.total, h.nonneg, ?_, ?_, h.busy, h.bounded, ?_⟩
  · dsimp only
    rw [keysWith_setValue_of_true h.nodup hcaller rfl rfl]
    exact h.used
  · dsimp only
    rw [keysWith_setValue_of_not h.nodup hcaller rfl rfl]
    exact h.queue
  · dsimp only
    rw [keys_setValue]
    exact h.order

/-- A caller arrives. -/
theorem acquire (h : LaneInv max maxQueue 0 l) (hid : id ∉ l.callers.map Prod.fst) :
    LaneInv max maxQueue 0 (acquire id l) := by
  have hkeys : ∀ phase, ((l.callers ++ [(id, phase)]).map Prod.fst) = l.callers.map Prod.fst ++ [id] :=
    fun phase => by
    simp
  have hnodup : (l.callers.map Prod.fst ++ [id]).Nodup := by
    rw [List.nodup_append]
    refine ⟨h.nodup, List.nodup_singleton id, fun k hk k' hk' heq => ?_⟩
    rw [List.mem_singleton.mp hk'] at heq
    exact hid (heq ▸ hk)
  have htotal := h.total
  have hnonneg := h.nonneg
  have hused := h.used
  unfold Lanes.acquire
  split
  · next hfree =>
    -- Nobody waits, and the slot is taken at once.
    refine ⟨hkeys _ ▸ hnodup, h.bound, ?_, ?_, ?_, ?_, fun hne => absurd hfree.2 hne, h.bounded, ?_⟩
    · dsimp only
      omega
    · dsimp only
      omega
    · dsimp only
      rw [keysWith_append, List.length_append, hused]
      rfl
    · dsimp only
      rw [keysWith_append, ← h.queue]
      exact (List.append_nil _).symm
    · dsimp only
      rw [hkeys, hfree.2, List.append_nil]
      have horder := h.order
      rw [hfree.2, List.append_nil] at horder
      exact horder.append (List.Sublist.refl _)
  · next hfull =>
    split
    · refine ⟨hkeys _ ▸ hnodup, h.bound, htotal, hnonneg, ?_, ?_, h.busy, h.bounded, ?_⟩
      · dsimp only
        rw [keysWith_append, List.length_append, hused]
        rfl
      · dsimp only
        rw [keysWith_append, ← h.queue]
        exact (List.append_nil _).symm
      · dsimp only
        rw [hkeys]
        exact h.order.trans (List.sublist_append_left _ _)
    · next hroom =>
      refine ⟨hkeys _ ▸ hnodup, h.bound, htotal, hnonneg, ?_, ?_, fun _ => ?_, ?_, ?_⟩
      · dsimp only
        rw [keysWith_append, List.length_append, hused]
        rfl
      · dsimp only
        rw [keysWith_append, ← h.queue]
        rfl
      · -- No slot is free, or somebody waits already.
        by_cases hempty : l.state.waiters = []
        · have hnot : ¬0 < l.state.available := fun hpos => hfull ⟨hpos, hempty⟩
          dsimp only
          omega
        · exact h.busy hempty
      · have hbound := h.bound
        dsimp only
        rw [List.length_append, List.length_singleton]
        omega
      · dsimp only
        rw [hkeys, ← List.append_assoc]
        exact h.order.append (List.Sublist.refl _)

/-- Every step keeps the invariant. -/
theorem step (h : LaneInv max maxQueue 0 l) {ev : LaneEvent} (hs : step l ev = some l') :
    LaneInv max maxQueue 0 l' := by
  cases ev with
  | acquire id =>
    simp only [Lanes.step] at hs
    split at hs
    · cases hs
    · next hnew =>
      cases hs
      exact h.acquire hnew
  | resume id how =>
    simp only [Lanes.step] at hs
    split at hs
    · next hid =>
      cases hs
      exact (h.enter hid).counted _ _
    · next waiter hid =>
      cases hs
      exact (h.abandon hid).counted _ _
    · next waiter hid =>
      cases hs
      exact h.abandon hid
    · cases hs
  | leave id =>
    simp only [Lanes.step] at hs
    split at hs
    · next hid =>
      cases hs
      exact h.release hid rfl
    · cases hs

end LaneInv

/-- The lanes by worker: `_states`, with the callers of each. -/
abbrev States := String → Option Lane

def laneOf (lanes : WorkerLanes) (states : States) (worker : String) : Lane := (states worker).getD lanes.newLane

/-- A step of a caller of one worker's lane, which `_state_for` creates when it is missing. -/
def stepAt (lanes : WorkerLanes) (states : States) (ev : String × LaneEvent) : Option States :=
  (step (laneOf lanes states ev.1) ev.2).map fun l => Function.update states ev.1 (some l)

def run (lanes : WorkerLanes) (states : States) (evs : List (String × LaneEvent)) : Option States :=
  evs.foldlM (stepAt lanes) states

/-- The steps of the callers of one worker. -/
def ownEvents (worker : String) (evs : List (String × LaneEvent)) : List LaneEvent :=
  (evs.filter fun ev => ev.1 = worker).map Prod.snd

variable {lanes : WorkerLanes} {states states' : States} {evs : List (String × LaneEvent)} {worker : String}

theorem laneOf_stepAt {ev : String × LaneEvent} (h : stepAt lanes states ev = some states') :
    step (laneOf lanes states ev.1) ev.2 = some (laneOf lanes states' ev.1) ∧
      ∀ worker, worker ≠ ev.1 → laneOf lanes states' worker = laneOf lanes states worker := by
  obtain ⟨l, hl, rfl⟩ := Option.map_eq_some_iff.mp h
  refine ⟨?_, fun worker hne => ?_⟩
  · rw [hl]
    simp [laneOf]
  · simp [laneOf, Function.update_of_ne hne]

/-- A lane sees only the callers of its own worker. -/
theorem lane_of_run (h : run lanes states evs = some states') (worker : String) :
    (ownEvents worker evs).foldlM step (laneOf lanes states worker) = some (laneOf lanes states' worker) := by
  induction evs generalizing states with
  | nil =>
    cases h
    rfl
  | cons ev evs ih =>
    obtain ⟨states₁, hstep, hrun⟩ := Option.bind_eq_some_iff.mp h
    obtain ⟨hown, hother⟩ := laneOf_stepAt hstep
    by_cases hw : ev.1 = worker
    · subst hw
      have hevents : ownEvents ev.1 (ev :: evs) = ev.2 :: ownEvents ev.1 evs := by simp [ownEvents]
      rw [hevents, List.foldlM_cons, hown]
      exact ih hrun
    · have hevents : ownEvents worker (ev :: evs) = ownEvents worker evs := by simp [ownEvents, hw]
      rw [hevents, ← hother worker (Ne.symm hw)]
      exact ih hrun

/-- Whatever the callers of one worker can do they can do whatever the others did. -/
theorem run_isSome_iff (states : States) :
    (run lanes states evs).isSome ↔
      ∀ worker, ((ownEvents worker evs).foldlM step (laneOf lanes states worker)).isSome := by
  induction evs generalizing states with
  | nil => simp [run, ownEvents]
  | cons ev evs ih =>
    have hcons : ownEvents ev.1 (ev :: evs) = ev.2 :: ownEvents ev.1 evs := by simp [ownEvents]
    cases hstep : stepAt lanes states ev with
    | none =>
      have hnone : step (laneOf lanes states ev.1) ev.2 = none := by simpa [stepAt] using hstep
      have hrun : run lanes states (ev :: evs) = none := by
        rw [run, List.foldlM_cons, hstep]
        rfl
      rw [hrun]
      constructor
      · intro h
        cases h
      · intro h
        have hown := h ev.1
        rw [hcons, List.foldlM_cons, hnone] at hown
        cases hown
    | some states₁ =>
      obtain ⟨hown, hother⟩ := laneOf_stepAt hstep
      have hrun : run lanes states (ev :: evs) = run lanes states₁ evs := by
        rw [run, List.foldlM_cons, hstep]
        rfl
      rw [hrun, ih states₁]
      refine forall_congr' fun worker => ?_
      by_cases hw : ev.1 = worker
      · subst hw
        rw [hcons, List.foldlM_cons, hown]
        rfl
      · have hevents : ownEvents worker (ev :: evs) = ownEvents worker evs := by simp [ownEvents, hw]
        rw [hevents, hother worker (Ne.symm hw)]

theorem laneInv_foldlM {evs : List LaneEvent} (h : LaneInv max maxQueue 0 l) (hrun : evs.foldlM step l = some l') :
    LaneInv max maxQueue 0 l' := by
  induction evs generalizing l with
  | nil =>
    cases hrun
    exact h
  | cons ev evs ih =>
    obtain ⟨l₁, hstep, hrun⟩ := Option.bind_eq_some_iff.mp hrun
    exact ih (h.step hstep) hrun

theorem laneInv_run (h : run lanes (fun _ => none) evs = some states) (worker : String) :
    LaneInv lanes.maxConcurrent lanes.maxQueue 0 (laneOf lanes states worker) :=
  laneInv_foldlM (laneInv_newLane lanes) (lane_of_run h worker)

structure Fair (lanes : WorkerLanes) (l : Lane) : Prop where
  total : l.state.available + l.state.inUse = lanes.maxConcurrent
  used : l.state.inUse = (keysWith inBody l.callers).length + (keysWith handed l.callers).length
  bodies : (keysWith inBody l.callers).length ≤ lanes.maxConcurrent
  queue : l.state.waiters = keysWith queued l.callers
  busy : keysWith queued l.callers ≠ [] → l.state.available = 0
  bounded : l.state.waiters.length ≤ lanes.maxQueue
  order : (l.granted ++ l.state.waiters).Sublist (l.callers.map Prod.fst)
  returned : (∀ c ∈ l.callers, c.2 = .finished) → l.state.available = lanes.maxConcurrent

theorem LaneInv.fair (h : LaneInv lanes.maxConcurrent lanes.maxQueue 0 l) : Fair lanes l := by
  have htotal := h.total
  have hnonneg := h.nonneg
  have hused := h.used
  have hsplit : (keysWith holds l.callers).length =
      (keysWith inBody l.callers).length + (keysWith handed l.callers).length :=
    length_keysWith_or fun phase hbody => by
      cases phase with
      | waiting waiter => cases hbody
      | body => rfl
      | finished => rfl
  refine ⟨htotal, ?_, ?_, h.queue, h.queue ▸ h.busy, h.bounded, h.order, fun hfinished => ?_⟩
  · omega
  · omega
  · have hnone : keysWith holds l.callers = [] := by
      refine List.map_eq_nil_iff.mpr (List.filter_eq_nil_iff.mpr fun c hc => ?_)
      rw [hfinished c hc]
      exact Bool.false_ne_true
    rw [hnone] at hused
    simp at hused
    omega

/-- After every run the lane of each worker keeps its slots and its order, and it is what its own
callers alone have made of it; and what these can do does not depend on the callers of the others. -/
theorem lanes_fair (lanes : WorkerLanes) :
    (∀ evs states, run lanes (fun _ => none) evs = some states → ∀ worker,
      Fair lanes (laneOf lanes states worker) ∧
        (ownEvents worker evs).foldlM step lanes.newLane = some (laneOf lanes states worker)) ∧
    ∀ evs, (run lanes (fun _ => none) evs).isSome ↔
      ∀ worker, ((ownEvents worker evs).foldlM step lanes.newLane).isSome :=
  ⟨fun _ _ h worker => ⟨(laneInv_run h worker).fair, lane_of_run h worker⟩, fun _ => run_isSome_iff _⟩

/-- Two callers share one slot: the second is handed the slot and cancelled before it resumes. -/
def race : List (String × LaneEvent) :=
  [("kw996", .acquire 0), ("kw996", .acquire 1), ("gpu-rig-1", .acquire 2), ("kw996", .acquire 3),
    ("kw996", .leave 0),
    ("kw996", .resume 1 .cancelled), ("kw996", .resume 3 .woken), ("kw996", .leave 3)]

theorem lanes_fair_race : ∃ states, run ⟨1, 2, le_rfl⟩ (fun _ => none) race = some states ∧
    (laneOf ⟨1, 2, le_rfl⟩ states "kw996").granted = [0, 1, 3] ∧
    Fair ⟨1, 2, le_rfl⟩ (laneOf ⟨1, 2, le_rfl⟩ states "kw996") := by
  have hrun : (run ⟨1, 2, le_rfl⟩ (fun _ => none) race).map
      (fun states => (laneOf ⟨1, 2, le_rfl⟩ states "kw996").granted) = some [0, 1, 3] := by decide +kernel
  obtain ⟨states, hstates, hgranted⟩ := Option.map_eq_some_iff.mp hrun
  exact ⟨states, hstates, hgranted, ((lanes_fair ⟨1, 2, le_rfl⟩).1 race states hstates "kw996").1⟩

end WorkerHarness.Lanes
