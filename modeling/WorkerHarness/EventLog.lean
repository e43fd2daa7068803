import WorkerHarness.NumberedLogs
import WorkerHarness.SessionStatements
import Mathlib.Data.List.Infix
import Mathlib.Logic.Relation

/-!
# The event log of Pi sessions

Events enter the log at five sites and only through statements that insert one event, whose
trigger numbers it. Methods on one connection may interleave at every suspension point and
may be cancelled there; the log stays dense and only grows. Readers of the list endpoint and
of the event stream are readers of a numbered log.
-/

namespace WorkerHarness.EventLog

open Coroutines SharedTransactions SortedLists NumberedLogs Database SessionStatements

def eventNumbering : Numbering PiSessionEvent String := ⟨(·.sessionId), (·.sequence)⟩

/-- `UPDATE pi_session_events SET sequence = (SELECT COUNT(*) … rowid<=event.rowid) WHERE sequence=0`,
for the rows after the rows `before`. -/
def numberedFrom (before : List PiSessionEvent) : List PiSessionEvent → List PiSessionEvent
  | [] => []
  | e :: es =>
    (if e.sequence = 0 then
      { e with sequence := ((before ++ [e]).filter fun prior => prior.sessionId = e.sessionId).length }
      else e) :: numberedFrom (before ++ [e]) es

/-- The tables after `connect` has given the events of an old database their sequences. -/
def numberEvents (d : Tables) : Tables := { d with events := numberedFrom [] d.events }

theorem dense_numberedFrom {es before log : List PiSessionEvent} (hes : ∀ e ∈ es, e.sequence = 0)
    (hlog : eventNumbering.Dense log)
    (hlength : ∀ k, (eventNumbering.entries k log).length = (eventNumbering.entries k before).length) :
    eventNumbering.Dense (log ++ numberedFrom before es) := by
  induction es generalizing before log with
  | nil => simpa [numberedFrom] using hlog
  | cons e es ih =>
    rw [numberedFrom, if_pos (hes e (by simp)), ← List.singleton_append, ← List.append_assoc]
    refine ih (fun e' he' => hes e' (by simp [he'])) (hlog.append_next ?_) fun k => ?_
    · have hone : ((before ++ [e]).filter fun prior => prior.sessionId = e.sessionId).length =
          (eventNumbering.entries e.sessionId before).length + 1 := by
        rw [List.filter_append, List.length_append, List.filter_singleton]
        simp only [decide_true, cond_true, List.length_singleton]
        rfl
      exact hone.trans (congrArg (· + 1) (hlength _).symm)
    · rw [Numbering.entries_append, Numbering.entries_append, List.length_append, List.length_append, hlength k]
      by_cases hk : e.sessionId = k <;> simp [eventNumbering, Numbering.entries, hk]

theorem dense_numberEvents {d : Tables} (h : ∀ e ∈ d.events, e.sequence = 0) :
    eventNumbering.Dense (numberEvents d).events :=
  dense_numberedFrom h Numbering.dense_nil fun _ => rfl

def LogStatement (s : Statement Tables) : Prop :=
  (∃ event, s = Database.insertEvent event) ∨ ∀ d, (s.apply d).events = d.events

/-- Every statement of the coroutine inserts one event or leaves the log, and it never rolls back. -/
abbrev AppendsEvents {α : Type} (p : DbM α) : Prop := Calls LogStatement (fun _ _ => True) p

/-- An inserted event gets the next sequence of its session; a duplicate changes nothing. -/
theorem LogStatement.apply {s : Statement Tables} (hs : LogStatement s) {d : Tables}
    (hd : eventNumbering.Dense d.events) :
    eventNumbering.Dense (s.apply d).events ∧ d.events <+: (s.apply d).events := by
  rcases hs with ⟨event, rfl⟩ | hs
  · simp only [Database.insertEvent]
    split
    · exact ⟨hd, List.prefix_refl _⟩
    · exact ⟨hd.append_next (congrArg (· + 1) (hd.max_number event.sessionId)), List.prefix_append _ _⟩
  · rw [hs d]
    exact ⟨hd, List.prefix_refl _⟩

theorem logStatement_of_executes {op : SessionOp} {s : Statement Tables} (h : Executes op s) : LogStatement s := by
  cases h with
  | inserted session =>
    refine .inr fun d => ?_
    simp only [insertInto]
    split <;> rfl
  | enqueued command =>
    refine .inr fun d => ?_
    simp only [insertInto]
    split <;> rfl
  | snapshot => exact .inl ⟨_, rfl⟩
  | batched => exact .inl ⟨_, rfl⟩
  | asked => exact .inl ⟨_, rfl⟩
  | stale => exact .inl ⟨_, rfl⟩
  | event event => exact .inl ⟨event, rfl⟩
  | _ => exact .inr fun _ => rfl

/-- Every method only appends to the log. -/
theorem appends_prog (op : SessionOp) : AppendsEvents op.prog :=
  (calls_prog op).mono (fun _ h => logStatement_of_executes h) fun _ _ _ => trivial

abbrev LogPool := Pool (Sql Tables) DbLock DbError Unit (Connection Tables)

/-- Start a method, advance one, or cancel one where it is suspended. -/
def Logging (_ : LogPool) : Event (Sql Tables) DbLock DbError Unit Unit → Prop
  | .spawn p => ∃ op : SessionOp, p = op.prog
  | .go _ _ => True
  | .cancel _ _ => True
  | .crash _ => False

def events (c : LogPool) : List PiSessionEvent := c.state.working.events

structure LogInv (c : LogPool) : Prop where
  dense : eventNumbering.Dense (events c)
  appends : ∀ th ∈ c.threads, AppendsEvents th.prog

theorem LogInv.set {c : LogPool} (h : LogInv c) {s : Connection Tables} {t : ℕ}
    {th : Thread (Sql Tables) DbLock DbError Unit}
    (hs : eventNumbering.Dense s.working.events) (hth : AppendsEvents th.prog) :
    LogInv ⟨s, c.threads.set t th⟩ := by
  refine ⟨hs, fun th' hth' => ?_⟩
  rcases List.mem_or_eq_of_mem_set hth' with hth' | rfl
  · exact h.appends th' hth'
  · exact hth

/-- One step of any coroutine keeps the log dense and extends it. -/
theorem LogInv.step {c c' : LogPool} (h : LogInv c) {ev : Event (Sql Tables) DbLock DbError Unit Unit}
    (hok : Logging c ev) (hstep : c.step interp ev = some c') : LogInv c' ∧ events c <+: events c' := by
  obtain ⟨p, rfl, rfl⟩ | ⟨t, w, β, e, k, held, s, b, rfl, ht, hh, rfl⟩ | ⟨t, w, l, k, held, rfl, ht, -, rfl⟩ |
    ⟨t, w, l, k, held, rfl, ht, rfl⟩ | ⟨t, e, rfl, -, rfl⟩ | ⟨e, rfl, rfl⟩ := Pool.step_cases hstep
  · obtain ⟨op, rfl⟩ := hok
    refine ⟨⟨h.dense, fun th hth => ?_⟩, List.prefix_refl _⟩
    rcases List.mem_append.mp hth with hth | hth
    · exact h.appends th hth
    · obtain rfl := List.mem_singleton.mp hth
      exact appends_prog op
  · have hp : AppendsEvents (.perform e k) := h.appends _ (List.mem_of_getElem? ht)
    cases e with
    | query q =>
      cases hh
      exact ⟨h.set h.dense (hp.2 _), List.prefix_refl _⟩
    | execute st =>
      simp only [interp] at hh
      split at hh
      · cases hh
        exact ⟨h.set h.dense (hp.2 _), List.prefix_refl _⟩
      · cases hh
        have happly := hp.1.apply h.dense
        rw [← Connection.working_execute _ t] at happly
        exact ⟨h.set happly.1 (hp.2 _), happly.2⟩
    | commit =>
      cases hh
      have hsame : c.state.commit.working = c.state.working := Connection.working_commit c.state
      exact ⟨h.set (hsame ▸ h.dense) hp, by rw [events, events, hsame]⟩
    | rollback => exact hp.elim
  · have hk : AppendsEvents (.acquire l k) := h.appends _ (List.mem_of_getElem? ht)
    exact ⟨h.set h.dense hk, List.prefix_refl _⟩
  · have hk : AppendsEvents (.release l k) := h.appends _ (List.mem_of_getElem? ht)
    exact ⟨h.set h.dense hk, List.prefix_refl _⟩
  · exact ⟨h.set h.dense trivial, List.prefix_refl _⟩
  · exact hok.elim

theorem logInv_reachable {d : Tables} (hd : ∀ e ∈ d.events, e.sequence = 0) {c : LogPool}
    (h : Pool.Reachable interp Logging ⟨numberEvents d, [], [], []⟩ c) : LogInv c := by
  induction h with
  | init => exact ⟨dense_numberEvents hd, by simp⟩
  | step _ hok hstep ih => exact (ih.step hok hstep).1

/-- One round of `stream_pi_session_events`: the new cursor and the events that are sent. -/
def streamRound (d : Tables) (sessionId : String) (cursor : ℤ) : ℤ × List PiSessionEvent :=
  (eventPage d sessionId cursor 500).foldl (fun round event => (event.sequence, round.2 ++ [event])) (cursor, [])

structure Watch where
  pool : LogPool
  reader : Reader PiSessionEvent

/-- A method moves on, the reader lists the next page, or its stream makes a round. -/
inductive WatchStep (sessionId : String) : Watch → Watch → Prop where
  | method {w : Watch} {ev : Event (Sql Tables) DbLock DbError Unit Unit} {c : LogPool} :
      Logging w.pool ev → w.pool.step interp ev = some c → WatchStep sessionId w { w with pool := c }
  | list (w : Watch) (limit : ℤ) : WatchStep sessionId w { w with
      reader := eventNumbering.read w.reader (eventPage w.pool.state.working sessionId w.reader.cursor limit) }
  | stream (w : Watch) : WatchStep sessionId w { w with
      reader :=
        { w.reader with
          cursor := (streamRound w.pool.state.working sessionId w.reader.cursor).1
          received := w.reader.received ++ (streamRound w.pool.state.working sessionId w.reader.cursor).2
          reads := w.reader.reads + 1 } }

/-- A round of the stream reads a page of 500. -/
theorem streamRound_eq (d : Tables) (sessionId : String) (cursor : ℤ) :
    streamRound d sessionId cursor =
      (((eventPage d sessionId cursor 500).getLast?.map fun e => (e.sequence : ℤ)).getD cursor,
        eventPage d sessionId cursor 500) := by
  have hfold : ∀ (es sent : List PiSessionEvent) (cursor : ℤ),
      es.foldl (fun round event => (event.sequence, round.2 ++ [event])) (cursor, sent) =
        ((es.getLast?.map fun e => (e.sequence : ℤ)).getD cursor, sent ++ es) := by
    intro es sent cursor
    induction es using List.reverseRecOn with
    | nil => simp
    | append_singleton es e ih =>
      rw [List.foldl_append, ih]
      simp
  exact hfold _ _ _

/-- The query of the list endpoint returns a page of the numbered log. -/
theorem isPage_eventPage {d : Tables} (hd : eventNumbering.Dense d.events) (sessionId : String) (cursor limit : ℤ) :
    eventNumbering.IsPage sessionId cursor d.events (eventPage d sessionId cursor limit) := by
  refine ⟨(max 1 (min limit 1000)).toNat, by omega, ?_⟩
  have hrows : (d.events.filter fun e => decide (e.sessionId = sessionId) && decide (max 0 cursor < e.sequence)) =
      eventNumbering.beyond sessionId cursor d.events := by
    rw [Numbering.beyond, Numbering.entries, List.filter_filter]
    refine List.filter_congr fun e he => ?_
    have hpos : 0 < e.sequence := hd.number_pos he
    have hcursor : max 0 cursor < e.sequence ↔ cursor < e.sequence := by omega
    rw [decide_eq_decide.mpr hcursor, Bool.and_comm]
    rfl
  have hsorted : (eventNumbering.beyond sessionId cursor d.events).Pairwise fun a b => a.sequence < b.sequence :=
    (hd.pairwise_lt sessionId).sublist List.filter_sublist
  rw [eventPage, hrows, sortOn_eq (List.Perm.refl _) hsorted]

/-- A database in use has an orderly log, and its reader is on its stream. -/
structure WatchInv (sessionId : String) (w : Watch) : Prop where
  log : LogInv w.pool
  follows : eventNumbering.Follows sessionId (events w.pool) w.reader

/-- What one step does: the log grows, the reader does not start again, and it moves on with each read
while there is something to read. -/
structure Advances (sessionId : String) (w w' : Watch) : Prop where
  log : events w.pool <+: events w'.pool
  start : w'.reader.start = w.reader.start
  reads_le : w.reader.reads ≤ w'.reader.reads
  cursor_le : min (eventNumbering.entries sessionId (events w.pool)).length
    (w.reader.cursor.toNat + (w'.reader.reads - w.reader.reads)) ≤ w'.reader.cursor.toNat

theorem WatchInv.step {sessionId : String} {w w' : Watch} (h : WatchInv sessionId w)
    (hstep : WatchStep sessionId w w') :
    WatchInv sessionId w' ∧ Advances sessionId w w' := by
  have hread : ∀ limit, WatchInv sessionId { w with
        reader := eventNumbering.read w.reader (eventPage w.pool.state.working sessionId w.reader.cursor limit) } ∧
      Advances sessionId w { w with
        reader := eventNumbering.read w.reader
            (eventPage w.pool.state.working sessionId w.reader.cursor limit) } := by
    intro limit
    have hpage := isPage_eventPage h.log.dense sessionId w.reader.cursor limit
    have hcursor := h.log.dense.min_le_cursor_read hpage
    refine ⟨⟨h.log, h.follows.read h.log.dense hpage⟩, List.prefix_refl _, rfl, Nat.le_succ _, ?_⟩
    have hone : (eventNumbering.read w.reader
      (eventPage w.pool.state.working sessionId w.reader.cursor limit)).reads -
        w.reader.reads = 1 := Nat.add_sub_cancel_left _ _
    rw [hone]
    exact hcursor
  cases hstep with
  | method hok hc =>
    obtain ⟨hlog, more, hmore⟩ := h.log.step hok hc
    refine ⟨⟨hlog, hmore ▸ h.follows.append more⟩, ⟨more, hmore⟩, rfl, Nat.le_refl _, ?_⟩
    rw [Nat.sub_self]
    exact Nat.min_le_right _ _
  | list limit => exact hread limit
  | stream =>
    rw [streamRound_eq]
    exact hread 500

theorem Advances.trans {sessionId : String} {w w' w'' : Watch} (h : Advances sessionId w w')
    (h' : Advances sessionId w' w'') : Advances sessionId w w'' := by
  refine ⟨h.log.trans h'.log, h'.start.trans h.start, h.reads_le.trans h'.reads_le, ?_⟩
  have hlength : (eventNumbering.entries sessionId (events w.pool)).length ≤
      (eventNumbering.entries sessionId (events w'.pool)).length := (h.log.filter _).length_le
  have := h.cursor_le
  have := h'.cursor_le
  have := h.reads_le
  have := h'.reads_le
  omega

theorem WatchInv.run {sessionId : String} {w w' : Watch} (h : WatchInv sessionId w)
    (hrun : Relation.ReflTransGen (WatchStep sessionId) w w') : WatchInv sessionId w' ∧
    Advances sessionId w w' := by
  induction hrun with
  | refl =>
    refine ⟨h, List.prefix_refl _, rfl, Nat.le_refl _, ?_⟩
    rw [Nat.sub_self]
    exact Nat.min_le_right _ _
  | tail _ hstep ih =>
    obtain ⟨hinv, hadvances⟩ := ih.1.step hstep
    exact ⟨hinv, ih.2.trans hadvances⟩

/-- The sequences of every session are 1, 2, … in insertion order and stay, duplicates consume none,
and a reader with any start, pages and pauses has received at any time the events between its
start and its cursor, each once and in order; each further read brings it at least one event
forward until it has them all. -/
theorem event_log_replay {d : Tables} (hd : ∀ e ∈ d.events, e.sequence = 0) {c : LogPool}
    (hc : Pool.Reachable interp Logging ⟨numberEvents d, [], [], []⟩ c) {sessionId : String} {after : ℤ}
    {w w' : Watch}
    (h : Relation.ReflTransGen (WatchStep sessionId) ⟨c, { start := after, cursor := after }⟩ w)
    (h' : Relation.ReflTransGen (WatchStep sessionId) w w') :
    (∀ id, ((events w.pool).filter fun e => e.sessionId = id).map (·.sequence) =
      List.range' 1 ((events w.pool).filter fun e => e.sessionId = id).length) ∧
    events w.pool <+: events w'.pool ∧
    (∀ event, (∃ e ∈ events w.pool, e.id = event.id) →
      (Database.insertEvent event).apply w.pool.state.working = w.pool.state.working) ∧
    w.reader.received = (events w.pool).filter (fun e => decide (e.sessionId = sessionId) &&
      (decide (after < e.sequence) && decide ((e.sequence : ℤ) ≤ w.reader.cursor))) ∧
    w.reader.received.Pairwise (fun a b => a.sequence < b.sequence) ∧
    ∀ e ∈ events w.pool, e.sessionId = sessionId → after < e.sequence →
      e.sequence ≤ w.reader.cursor.toNat + (w'.reader.reads - w.reader.reads) → e ∈ w'.reader.received := by
  have hinit : WatchInv sessionId ⟨c, { start := after, cursor := after }⟩ :=
    ⟨logInv_reachable hd hc, Numbering.follows_start _ _ _⟩
  obtain ⟨hinv, hadvances⟩ := hinit.run h
  obtain ⟨hinv', hadvances'⟩ := hinv.run h'
  have hreceived : w.reader.received = eventNumbering.between sessionId after w.reader.cursor (events w.pool) := by
    rw [hinv.follows.received, hinv.log.dense.between_eq, hadvances.start]
  refine ⟨hinv.log.dense, hadvances'.log, ?_, ?_, ?_, ?_⟩
  · rintro event ⟨e, he, hid⟩
    exact if_pos (List.any_eq_true.mpr ⟨e, he, decide_eq_true hid⟩)
  · rw [hreceived, Numbering.between, Numbering.entries, List.filter_filter]
    refine List.filter_congr fun e _ => ?_
    rw [Bool.and_comm]
    rfl
  · rw [hreceived]
    exact (hinv.log.dense.pairwise_lt sessionId).sublist List.filter_sublist
  · intro e he hsession hafter hle
    have hmem : e ∈ eventNumbering.entries sessionId (events w.pool) :=
      List.mem_filter.mpr ⟨he, decide_eq_true hsession⟩
    have hnumber : e.sequence ∈ (eventNumbering.entries sessionId (events w.pool)).map eventNumbering.number :=
      List.mem_map_of_mem hmem
    rw [hinv.log.dense, List.mem_range'_1] at hnumber
    have hcursor := hadvances'.cursor_le
    rw [hinv'.follows.received, ← hinv'.log.dense.between_eq, hadvances'.start, hadvances.start]
    refine List.mem_filter.mpr ⟨(hadvances'.log.filter _).subset hmem, ?_⟩
    rw [Bool.and_eq_true, decide_eq_true_eq, decide_eq_true_eq]
    have hsequence : eventNumbering.number e = e.sequence := rfl
    refine ⟨hafter, ?_⟩
    rw [hsequence]
    omega

def oldLog : Tables where
  sessions := [{ id := "s", bridgeIncarnation := some "A" }, { id := "t" }]
  events := [{ id := "x", sessionId := "t", eventType := "message-end" },
    { id := "e", sessionId := "s", eventType := "message-end" }]

/-- The bridge of `s` posts a duplicate of `e` and one new event. -/
def duplicateBatch : List (Event (Sql Tables) DbLock DbError Unit Unit) :=
  .spawn (SessionOp.events "s" { incarnation := "A", events := [{ id := some "e", eventType := "message-end" },
    { id := some "f", eventType := "message-end" }] } 1 fun _ => "u").prog :: List.replicate 7 (.go 0 ())

/-- A reader that has seen the old event lists one more event. -/
theorem event_log_replay_duplicateBatch : ∃ c : LogPool, c.result 0 = some (.ok ()) ∧
    ∃ e ∈ (eventNumbering.read { start := 1, cursor := 1 } (eventPage c.state.working "s" 1 1)).received,
      e.id = "f" ∧ e.sequence = 2 := by
  have hrun : ((Pool.run interp ⟨⟨numberEvents oldLog, [], [], []⟩, []⟩ duplicateBatch).map fun c : LogPool =>
      (c.result 0, (events c).map fun e => (e.id, e.sessionId, e.sequence))) =
        some (some (.ok ()), [("x", "t", 1), ("e", "s", 1), ("f", "s", 2)]) := by decide
  obtain ⟨c, hc, hobs⟩ := Option.map_eq_some_iff.mp hrun
  rw [Prod.mk.injEq] at hobs
  obtain ⟨hresult, hevents⟩ := hobs
  have hreachable : Pool.Reachable interp Logging ⟨numberEvents oldLog, [], [], []⟩ c := by
    refine Pool.Reachable.run .init (fun c' ev hev => ?_) hc
    simp only [duplicateBatch, List.mem_cons, List.mem_replicate] at hev
    rcases hev with rfl | ⟨-, rfl⟩
    · exact ⟨_, rfl⟩
    · trivial
  obtain ⟨e, he, hrow⟩ : ∃ e ∈ events c, (e.id, e.sessionId, e.sequence) = ("f", "s", 2) :=
    List.mem_map.mp (hevents ▸ by decide)
  simp only [Prod.mk.injEq] at hrow
  obtain ⟨hid, hsession, hsequence⟩ := hrow
  have hlist : WatchStep "s" ⟨c, { start := 1, cursor := 1 }⟩ _ := .list ⟨c, { start := 1, cursor := 1 }⟩ 1
  have hreceived := (event_log_replay (by decide) hreachable .refl (.single hlist)).2.2.2.2.2 e he hsession
  refine ⟨c, hresult, e, hreceived ?_ ?_, hid, hsequence⟩
  · rw [hsequence]
    decide
  · rw [hsequence]
    exact Nat.le_refl 2

end WorkerHarness.EventLog
