import WorkerHarness.RelyGuarantee
import Mathlib.Data.List.Infix

/-!
# One connection with one implicit transaction, shared by coroutines

Statements of all coroutines go to the same open transaction. A commit makes every
pending statement durable and a rollback discards every pending statement, whoever
executed them. The connection is kept as a journal of statements, each with the
coroutine that executed it and the data it found, and the data is the replay of the
journal. `alone` is the meaning of a coroutine that runs undisturbed. `Disciplined`
follows one coroutine through its transaction, and the last theorem says what disciplined
coroutines can promise in a pool: everything, as long as each rollback is confined to the
coroutine that executes it.
-/

namespace WorkerHarness.SharedTransactions

open Coroutines

/-- A data-changing statement. A statement that affects no row changes nothing. -/
structure Statement (D : Type) where
  apply : D → D
  rowcount : D → ℕ
  unchanged : ∀ d, rowcount d = 0 → apply d = d

/-- What a coroutine can ask of the connection. -/
inductive Sql (D : Type) : Type → Type 1 where
  | query {β : Type} (q : D → β) : Sql D β
  | execute (s : Statement D) : Sql D ℕ
  | commit : Sql D Unit
  | rollback : Sql D Unit

/-- The row changes of one executed statement: who executed it and what it found. -/
structure Entry (D : Type) where
  op : ℕ
  seen : D
  apply : D → D

/-- The connection. `executed` is history: every row change ever made, also those that
a rollback discarded. -/
structure Connection (D : Type) where
  base : D
  journal : List (Entry D) := []
  pending : List (Entry D) := []
  executed : List (Entry D) := []

variable {D L ε α β : Type}

/-- The data after the entries, in order. -/
def replay (d : D) : List (Entry D) → D
  | [] => d
  | e :: es => replay (e.apply d) es

@[simp] theorem replay_append (d : D) (xs ys : List (Entry D)) :
    replay d (xs ++ ys) = replay (replay d xs) ys := by
  induction xs generalizing d with
  | nil => rfl
  | cons x xs ih => exact ih (x.apply d)

/-- The entries of operation `t`. -/
def ofOp (t : ℕ) (es : List (Entry D)) : List (Entry D) := es.filter fun e => e.op = t

@[simp] theorem ofOp_append (t : ℕ) (xs ys : List (Entry D)) :
    ofOp t (xs ++ ys) = ofOp t xs ++ ofOp t ys := List.filter_append ..

@[simp] theorem ofOp_nil (t : ℕ) : ofOp t ([] : List (Entry D)) = [] := rfl

theorem ofOp_self {t : ℕ} {e : Entry D} (h : e.op = t) : ofOp t [e] = [e] := by simp [ofOp, h]

theorem ofOp_other {t : ℕ} {e : Entry D} (h : e.op ≠ t) : ofOp t [e] = [] := by simp [ofOp, h]

theorem ofOp_eq_nil_of_forall {t t' : ℕ} {es : List (Entry D)} (ht : t ≠ t') (h : ∀ e ∈ es, e.op = t) :
    ofOp t' es = [] := by
  simp only [ofOp, List.filter_eq_nil_iff, decide_eq_true_eq]
  intro e he
  simpa [h e he] using ht

namespace Connection

def durable (c : Connection D) : D := replay c.base c.journal

def working (c : Connection D) : D := replay c.base (c.journal ++ c.pending)

def execute (c : Connection D) (t : ℕ) (s : Statement D) : Connection D :=
  { c with
    pending := c.pending ++ [⟨t, c.working, s.apply⟩]
    executed := c.executed ++ [⟨t, c.working, s.apply⟩] }

def commit (c : Connection D) : Connection D :=
  { c with journal := c.journal ++ c.pending, pending := [] }

def rollback (c : Connection D) : Connection D := { c with pending := [] }

/-- Operation `t` has every one of its row changes in the durable data: the journal holds
them all, each applied to the data that the operation found, so that only later entries
can have replaced them. -/
def AllDurable (c : Connection D) (t : ℕ) : Prop :=
  ofOp t c.journal = ofOp t c.executed ∧
    ∀ before e after, c.journal = before ++ e :: after → e.op = t →
      replay c.base before = e.seen ∧ c.durable = replay (e.apply e.seen) after

/-- Operation `t` has no row change in the durable data. -/
def NoneDurable (c : Connection D) (t : ℕ) : Prop := ofOp t c.journal = []

/-- Every entry was executed, and on the data that the entries before it produce. -/
structure WellFormed (c : Connection D) : Prop where
  executed : ∀ e ∈ c.journal ++ c.pending, e ∈ c.executed
  seen : ∀ before e after, c.journal ++ c.pending = before ++ e :: after → replay c.base before = e.seen

@[simp] theorem durable_rollback (c : Connection D) : c.rollback.durable = c.durable := rfl

@[simp] theorem working_rollback (c : Connection D) : c.rollback.working = c.durable := by
  simp [rollback, working, durable]

@[simp] theorem durable_commit (c : Connection D) : c.commit.durable = c.working := rfl

@[simp] theorem working_commit (c : Connection D) : c.commit.working = c.working := by
  simp [commit, working]

@[simp] theorem durable_execute (c : Connection D) (t : ℕ) (s : Statement D) :
    (c.execute t s).durable = c.durable := rfl

@[simp] theorem working_execute (c : Connection D) (t : ℕ) (s : Statement D) :
    (c.execute t s).working = s.apply c.working := by
  simp only [execute, working, ← List.append_assoc]
  rw [replay_append]
  rfl

theorem WellFormed.commit {c : Connection D} (h : c.WellFormed) : c.commit.WellFormed := by
  have he : c.commit.journal ++ c.commit.pending = c.journal ++ c.pending := List.append_nil _
  exact ⟨he ▸ h.executed, he ▸ h.seen⟩

theorem WellFormed.rollback {c : Connection D} (h : c.WellFormed) : c.rollback.WellFormed := by
  refine ⟨fun e he => h.executed e ?_, fun before e after hs => h.seen before e (after ++ c.pending) ?_⟩
  · simp only [Connection.rollback, List.append_nil] at he
    exact List.mem_append_left _ he
  · simp only [Connection.rollback, List.append_nil] at hs
    simp [hs]

theorem WellFormed.execute {c : Connection D} (h : c.WellFormed) (t : ℕ) (s : Statement D) :
    (c.execute t s).WellFormed := by
  refine ⟨?_, ?_⟩
  · intro e he
    simp only [Connection.execute, ← List.append_assoc, List.mem_append, List.mem_singleton] at he ⊢
    rcases he with he | rfl
    · exact .inl (h.executed e (List.mem_append.mpr he))
    · exact .inr rfl
  · intro before e after hs
    simp only [Connection.execute, ← List.append_assoc] at hs ⊢
    -- The split point lies among the old entries or is the new entry itself.
    rcases List.eq_nil_or_concat' after with rfl | ⟨after', last, rfl⟩
    · obtain ⟨hb, he⟩ := List.append_inj' hs rfl
      cases he
      rw [← hb]
      rfl
    · rw [← List.cons_append, ← List.append_assoc] at hs
      exact h.seen before e after' (List.append_inj' hs rfl).1

end Connection

/-- The effects of the connection; no answer comes from outside. -/
def interp : Interp (Sql D) (Connection D) Unit where
  handle
    | .query q, _, _, c => some (c, q c.working)
    | .execute s, t, _, c =>
      if s.rowcount c.working = 0 then some (c, 0) else some (c.execute t s, s.rowcount c.working)
    | .commit, _, _, c => some (c.commit, ())
    | .rollback, _, _, c => some (c.rollback, ())

/-- The coroutine from start to end with no other coroutine in between: its result, the
durable data and the data its successors see. -/
def alone : Prog (Sql D) L ε α → D → D → Except ε α × D × D
  | .ret a, d, w => (.ok a, d, w)
  | .raise e, d, w => (.error e, d, w)
  | .perform (.query q) k, d, w => alone (k (q w)) d w
  | .perform (.execute s) k, d, w => alone (k (s.rowcount w)) d (s.apply w)
  | .perform .commit k, _, w => alone (k ()) w w
  | .perform .rollback k, d, _ => alone (k ()) d d
  | .acquire _ k, d, w => alone k d w
  | .release _ k, d, w => alone k d w

@[simp] theorem alone_bind (p : Prog (Sql D) L ε α) (f : α → Prog (Sql D) L ε β) (d w : D) :
    alone (p.bind f) d w = match alone p d w with
      | (.ok a, d', w') => alone (f a) d' w'
      | (.error e, d', w') => (.error e, d', w') := by
  induction p generalizing d w with
  | ret a => rfl
  | raise e => rfl
  | perform e k ih => cases e <;> exact ih _ _ _
  | acquire l k ih => exact ih _ _
  | release l k ih => exact ih _ _

@[simp] theorem alone_attempt (p : Prog (Sql D) L ε α) (d w : D) :
    alone p.attempt d w = (.ok (alone p d w).1, (alone p d w).2) := by
  induction p generalizing d w with
  | ret a => rfl
  | raise e => rfl
  | perform e k ih => cases e <;> exact ih _ _ _
  | acquire l k ih => exact ih _ _
  | release l k ih => exact ih _ _

@[simp] theorem alone_withLock (l : L) (p : Prog (Sql D) L ε α) (d w : D) :
    alone (Prog.withLock l p) d w = alone p d w := by
  simp only [Prog.withLock, alone, alone_bind, alone_attempt]
  rcases alone p d w with ⟨_ | _, d', w'⟩ <;> rfl

/-- One step of the only running thread does not change what is left to compute. -/
theorem alone_step [DecidableEq L] {c c' : Pool (Sql D) L ε α (Connection D)} {t : ℕ}
    {th th' : Thread (Sql D) L ε α} (h : c.step interp (.go t ()) = some c')
    (ht : c.threads[t]? = some th) (ht' : c'.threads[t]? = some th') :
    alone th'.prog c'.state.durable c'.state.working = alone th.prog c.state.durable c.state.working := by
  have hlt : t < c.threads.length := (List.getElem?_eq_some_iff.mp ht).1
  obtain ⟨p, he, rfl⟩ | ⟨t, w, β, e, k, held, s, b, he, ht₁, hh, rfl⟩ |
    ⟨t, w, l, k, held, he, ht₁, -, rfl⟩ | ⟨t, w, l, k, held, he, ht₁, rfl⟩ |
    ⟨t, e, he, -, rfl⟩ | ⟨e, he, rfl⟩ := Pool.step_cases h <;> cases he
  · rw [ht] at ht₁
    cases ht₁
    simp only [List.getElem?_set, hlt, if_true, Option.some.injEq] at ht'
    subst ht'
    cases e with
    | query q =>
      simp only [interp, Option.some.injEq, Prod.mk.injEq] at hh
      obtain ⟨rfl, rfl⟩ := hh
      rfl
    | execute q =>
      simp only [interp] at hh
      split at hh
      · next h0 =>
        simp only [Option.some.injEq, Prod.mk.injEq] at hh
        obtain ⟨rfl, rfl⟩ := hh
        simp [alone, h0, q.unchanged _ h0]
      · simp only [Option.some.injEq, Prod.mk.injEq] at hh
        obtain ⟨rfl, rfl⟩ := hh
        simp [alone]
    | commit =>
      simp only [interp, Option.some.injEq, Prod.mk.injEq] at hh
      obtain ⟨rfl, -⟩ := hh
      simp [alone]
    | rollback =>
      simp only [interp, Option.some.injEq, Prod.mk.injEq] at hh
      obtain ⟨rfl, -⟩ := hh
      simp [alone]
  · rw [ht] at ht₁
    cases ht₁
    simp only [List.getElem?_set, hlt, if_true, Option.some.injEq] at ht'
    subst ht'
    rfl
  · rw [ht] at ht₁
    cases ht₁
    simp only [List.getElem?_set, hlt, if_true, Option.some.injEq] at ht'
    subst ht'
    rfl

/-- A coroutine that the scheduler runs to its end without switching ends as `alone` says. -/
theorem alone_run [DecidableEq L] {t : ℕ} (n : ℕ) {c c' : Pool (Sql D) L ε α (Connection D)}
    {th : Thread (Sql D) L ε α} {r : Except ε α} (ht : c.threads[t]? = some th)
    (h : c.run interp (List.replicate n (.go t ())) = some c') (hr : c'.Finished t r) :
    alone th.prog c.state.durable c.state.working = (r, c'.state.durable, c'.state.working) := by
  induction n generalizing c th with
  | zero =>
    cases h
    obtain ⟨held, hf⟩ := hr
    rw [ht] at hf
    cases hf
    cases r <;> rfl
  | succ n ih =>
    simp only [List.replicate_succ, Pool.run] at h
    cases hs : c.step interp (.go t ()) with
    | none => simp [hs] at h
    | some d =>
      simp only [hs] at h
      have hlen : t < d.threads.length := by
        have hlt : t < c.threads.length := (List.getElem?_eq_some_iff.mp ht).1
        obtain ⟨p, he, rfl⟩ | ⟨_, _, _, _, _, _, _, _, he, _, _, rfl⟩ | ⟨_, _, _, _, _, he, _, _, rfl⟩ |
          ⟨_, _, _, _, _, he, _, rfl⟩ | ⟨_, _, he, _, rfl⟩ | ⟨_, he, rfl⟩ := Pool.step_cases hs <;>
          simpa using (by omega)
      obtain ⟨th', ht'⟩ : ∃ th', d.threads[t]? = some th' := ⟨_, List.getElem?_eq_getElem hlen⟩
      rw [← alone_step hs ht ht']
      exact ih ht' h

/-- The durable data and the working data when the coroutine is interrupted after `n` of its
statements and commits. -/
def interruptedAfter : ℕ → Prog (Sql D) L ε α → D → D → D × D
  | _, .ret _, d, w => (d, w)
  | _, .raise _, d, w => (d, w)
  | n, .perform (.query q) k, d, w => interruptedAfter n (k (q w)) d w
  | 0, .perform _ _, d, w => (d, w)
  | n + 1, .perform (.execute s) k, d, w => interruptedAfter n (k (s.rowcount w)) d (s.apply w)
  | n + 1, .perform .commit k, _, w => interruptedAfter n (k ()) w w
  | n + 1, .perform .rollback k, d, _ => interruptedAfter n (k ()) d d
  | n, .acquire _ k, d, w => interruptedAfter n k d w
  | n, .release _ k, d, w => interruptedAfter n k d w

/-- Every statement that the coroutine executes when it runs alone passes the test. -/
def aloneAll (P : D → Statement D → Bool) : Prog (Sql D) L ε α → D → D → Bool
  | .ret _, _, _ => true
  | .raise _, _, _ => true
  | .perform (.query q) k, d, w => aloneAll P (k (q w)) d w
  | .perform (.execute s) k, d, w => P w s && aloneAll P (k (s.rowcount w)) d (s.apply w)
  | .perform .commit k, _, w => aloneAll P (k ()) w w
  | .perform .rollback k, d, _ => aloneAll P (k ()) d d
  | .acquire _ k, d, w => aloneAll P k d w
  | .release _ k, d, w => aloneAll P k d w

/-- The coroutine executes only statements in `S`, asks only queries in `Q`, and never rolls back. -/
def Calls (S : Statement D → Prop) (Q : (β : Type) → (D → β) → Prop) : Prog (Sql D) L ε α → Prop
  | .ret _ => True
  | .raise _ => True
  | .perform (@Sql.query _ β q) k => Q β q ∧ ∀ b, Calls S Q (k b)
  | .perform (.execute s) k => S s ∧ ∀ n, Calls S Q (k n)
  | .perform .commit k => Calls S Q (k ())
  | .perform .rollback _ => False
  | .acquire _ k => Calls S Q k
  | .release _ k => Calls S Q k

namespace Calls

variable {S S' : Statement D → Prop} {Q Q' : (β : Type) → (D → β) → Prop} {p : Prog (Sql D) L ε α}

theorem mono (hp : Calls S Q p) (hS : ∀ s, S s → S' s) (hQ : ∀ β q, Q β q → Q' β q) : Calls S' Q' p := by
  induction p with
  | ret a => trivial
  | raise e => trivial
  | perform e k ih =>
    cases e with
    | query q => exact ⟨hQ _ q hp.1, fun b => ih b (hp.2 b)⟩
    | execute s => exact ⟨hS s hp.1, fun n => ih n (hp.2 n)⟩
    | commit => exact ih () hp
    | rollback => exact hp
  | acquire l k ih => exact ih hp
  | release l k ih => exact ih hp

theorem bind {f : α → Prog (Sql D) L ε β} (hp : Calls S Q p) (hf : ∀ a, Calls S Q (f a)) :
    Calls S Q (p.bind f) := by
  induction p with
  | ret a => exact hf a
  | raise e => trivial
  | perform e k ih =>
    cases e with
    | query q => exact ⟨hp.1, fun b => ih b (hp.2 b)⟩
    | execute s => exact ⟨hp.1, fun n => ih n (hp.2 n)⟩
    | commit => exact ih () hp
    | rollback => exact hp
  | acquire l k ih => exact ih hp
  | release l k ih => exact ih hp

theorem attempt (hp : Calls S Q p) : Calls S Q p.attempt := by
  induction p with
  | ret a => trivial
  | raise e => trivial
  | perform e k ih =>
    cases e with
    | query q => exact ⟨hp.1, fun b => ih b (hp.2 b)⟩
    | execute s => exact ⟨hp.1, fun n => ih n (hp.2 n)⟩
    | commit => exact ih () hp
    | rollback => exact hp
  | acquire l k ih => exact ih hp
  | release l k ih => exact ih hp

theorem ofExcept (r : Except ε α) : Calls S Q (Prog.ofExcept r : Prog (Sql D) L ε α) := by
  cases r <;> trivial

theorem withLock {l : L} (hp : Calls S Q p) : Calls S Q (Prog.withLock l p) := hp.attempt.bind fun r => ofExcept r

theorem forEach {f : β → Prog (Sql D) L ε Unit} {bs : List β} (hf : ∀ b ∈ bs, Calls S Q (f b)) :
    Calls S Q (Prog.forEach f bs) := by
  induction bs with
  | nil => trivial
  | cons b bs ih => exact (hf b (by simp)).bind fun _ => ih fun b' hb' => hf b' (by simp [hb'])

/-- The data moves along any preorder along which the statements move it. -/
theorem alone_le {R : D → D → Prop} (hrefl : ∀ d, R d d) (htrans : ∀ d d' d'', R d d' → R d' d'' → R d d'')
    (hS : ∀ s, S s → ∀ d, R d (s.apply d)) (hp : Calls S Q p) (d w : D) : R w (alone p d w).2.2 := by
  induction p generalizing d w with
  | ret a => exact hrefl w
  | raise e => exact hrefl w
  | perform e k ih =>
    cases e with
    | query q => exact ih _ (hp.2 _) d w
    | execute s => exact htrans w _ _ (hS s hp.1 w) (ih _ (hp.2 _) d _)
    | commit => exact ih () hp w w
    | rollback => exact hp.elim
  | acquire l k ih => exact ih hp d w
  | release l k ih => exact ih hp d w

/-- The working data moves along any preorder along which the statements move it, and what was
committed on the way lies between. -/
theorem alone_between {R : D → D → Prop} (hrefl : ∀ d, R d d) (htrans : ∀ d d' d'', R d d' → R d' d'' → R d d'')
    (hS : ∀ s, S s → ∀ d, R d (s.apply d)) (hp : Calls S Q p) (d w : D) :
    R w (alone p d w).2.2 ∧
      ((alone p d w).2.1 = d ∨ R w (alone p d w).2.1 ∧ R (alone p d w).2.1 (alone p d w).2.2) := by
  induction p generalizing d w with
  | ret a => exact ⟨hrefl w, .inl rfl⟩
  | raise e => exact ⟨hrefl w, .inl rfl⟩
  | perform e k ih =>
    cases e with
    | query q => exact ih _ (hp.2 _) d w
    | execute s =>
      obtain ⟨hw, hd⟩ := ih _ (hp.2 _) d (s.apply w)
      have hs := hS s hp.1 w
      exact ⟨htrans _ _ _ hs hw, hd.imp id fun h => ⟨htrans _ _ _ hs h.1, h.2⟩⟩
    | commit =>
      obtain ⟨hw, hd⟩ := ih () hp w w
      refine ⟨hw, .inr ?_⟩
      rcases hd with hd | hd
      · rw [alone, hd]
        exact ⟨hrefl w, hw⟩
      · exact hd
    | rollback => exact hp.elim
  | acquire l k ih => exact ih hp d w
  | release l k ih => exact ih hp d w

/-- The same when the coroutine is interrupted. -/
theorem interrupted_between {R : D → D → Prop} (hrefl : ∀ d, R d d)
    (htrans : ∀ d d' d'', R d d' → R d' d'' → R d d'') (hS : ∀ s, S s → ∀ d, R d (s.apply d)) (hp : Calls S Q p)
    (n : ℕ) (d w : D) : R w (interruptedAfter n p d w).2 ∧ ((interruptedAfter n p d w).1 = d ∨
      R w (interruptedAfter n p d w).1 ∧ R (interruptedAfter n p d w).1 (interruptedAfter n p d w).2) := by
  induction p generalizing n d w with
  | ret a => exact ⟨hrefl w, .inl rfl⟩
  | raise e => exact ⟨hrefl w, .inl rfl⟩
  | perform e k ih =>
    cases e with
    | query q => exact ih _ (hp.2 _) n d w
    | execute s =>
      cases n with
      | zero => exact ⟨hrefl w, .inl rfl⟩
      | succ n =>
        obtain ⟨hw, hd⟩ := ih _ (hp.2 _) n d (s.apply w)
        have hs := hS s hp.1 w
        exact ⟨htrans _ _ _ hs hw, hd.imp id fun h => ⟨htrans _ _ _ hs h.1, h.2⟩⟩
    | commit =>
      cases n with
      | zero => exact ⟨hrefl w, .inl rfl⟩
      | succ n =>
        obtain ⟨hw, hd⟩ := ih () hp n w w
        refine ⟨hw, .inr ?_⟩
        rcases hd with hd | hd
        · rw [interruptedAfter, hd]
          exact ⟨hrefl w, hw⟩
        · exact hd
    | rollback => exact hp.elim
  | acquire l k ih => exact ih hp n d w
  | release l k ih => exact ih hp n d w

/-- Without rollbacks the working data does not depend on the durable data. -/
theorem alone_working (hp : Calls S Q p) (d d' w : D) : (alone p d w).2.2 = (alone p d' w).2.2 := by
  induction p generalizing d d' w with
  | ret a => rfl
  | raise e => rfl
  | perform e k ih =>
    cases e with
    | query q => exact ih _ (hp.2 _) d d' w
    | execute s => exact ih _ (hp.2 _) d d' _
    | commit => rfl
    | rollback => exact hp.elim
  | acquire l k ih => exact ih hp d d' w
  | release l k ih => exact ih hp d d' w

/-- Two runs from related data have the same result and end in related data, when the statements
that pass the test keep the data related and all queries get equal answers. -/
theorem alone_related {R : D → D → Prop} {P : D → Statement D → Bool}
    (hS : ∀ s, S s → ∀ d d', P d s = true → R d d' → s.rowcount d = s.rowcount d' ∧ R (s.apply d) (s.apply d'))
    (hQ : ∀ β q, Q β q → ∀ d d', R d d' → q d = q d') (hp : Calls S Q p) {d d' w w' : D}
    (hP : aloneAll P p d w = true) (hw : R w w') :
    (alone p d w).1 = (alone p d' w').1 ∧ R (alone p d w).2.2 (alone p d' w').2.2 := by
  induction p generalizing d d' w w' with
  | ret a => exact ⟨rfl, hw⟩
  | raise e => exact ⟨rfl, hw⟩
  | perform e k ih =>
    cases e with
    | query q =>
      simp only [alone]
      rw [← hQ _ q hp.1 w w' hw]
      exact ih _ (hp.2 _) hP hw
    | execute s =>
      obtain ⟨htest, hP⟩ := Bool.and_eq_true_iff.mp hP
      obtain ⟨hcount, happly⟩ := hS s hp.1 w w' htest hw
      simp only [alone]
      rw [← hcount]
      exact ih _ (hp.2 _) hP happly
    | commit => exact ih () hp hP hw
    | rollback => exact hp.elim
  | acquire l k ih => exact ih hp hP hw
  | release l k ih => exact ih hp hP hw

end Calls

def Uncommitted (p : Prog (Sql D) L ε α) : Prop := ∀ d w, (alone p d w).2.1 = d

/-- The coroutine leaves the durable data, or makes durable all that it did. -/
def Settles (p : Prog (Sql D) L ε α) : Prop :=
  ∀ d w, (alone p d w).2.1 = d ∨ (alone p d w).2.1 = (alone p d w).2.2

def Still (p : Prog (Sql D) L ε α) : Prop := ∀ d w, (alone p d w).2 = (d, w)

section Settling

variable {p : Prog (Sql D) L ε α} {f : α → Prog (Sql D) L ε β}

theorem Uncommitted.bind (hp : Uncommitted p) (hf : ∀ a, Uncommitted (f a)) : Uncommitted (p.bind f) := by
  intro d w
  have hd := hp d w
  rw [alone_bind]
  rcases hr : alone p d w with ⟨_ | a, d', w'⟩
  · rw [hr] at hd
    exact hd
  · rw [hr] at hd
    exact (hf a d' w').trans hd

theorem Uncommitted.bind_settles (hp : Uncommitted p) (hf : ∀ a, Settles (f a)) : Settles (p.bind f) := by
  intro d w
  have hd := hp d w
  rw [alone_bind]
  rcases hr : alone p d w with ⟨_ | a, d', w'⟩
  · rw [hr] at hd
    exact .inl hd
  · rw [hr] at hd
    exact (hf a d' w').imp (fun h => h.trans hd) id

theorem Settles.bind_still (hp : Settles p) (hf : ∀ a, Still (f a)) : Settles (p.bind f) := by
  intro d w
  have hd := hp d w
  rw [alone_bind]
  rcases hr : alone p d w with ⟨_ | a, d', w'⟩
  · rw [hr] at hd
    exact hd
  · rw [hr] at hd
    have hsame := hf a d' w'
    dsimp only
    rw [hsame]
    exact hd

theorem Settles.withLock {l : L} (hp : Settles p) : Settles (Prog.withLock l p) := by
  intro d w
  rw [alone_withLock]
  exact hp d w

theorem settles_commit : Settles (Prog.call (.commit : Sql D Unit) : Prog (Sql D) L ε Unit) := fun _ _ => .inr rfl

theorem uncommitted_query {q : D → α} : Uncommitted (Prog.call (.query q) : Prog (Sql D) L ε α) := fun _ _ => rfl

theorem uncommitted_execute {s : Statement D} : Uncommitted (Prog.call (.execute s) : Prog (Sql D) L ε ℕ) :=
  fun _ _ => rfl

theorem uncommitted_ofExcept {r : Except ε α} : Uncommitted (Prog.ofExcept r : Prog (Sql D) L ε α) := by
  cases r <;> exact fun _ _ => rfl

theorem uncommitted_forEach {g : β → Prog (Sql D) L ε Unit} (hg : ∀ b, Uncommitted (g b)) (bs : List β) :
    Uncommitted (Prog.forEach g bs) := by
  induction bs with
  | nil => exact fun _ _ => rfl
  | cons b bs ih => exact (hg b).bind fun _ => ih

theorem still_query {q : D → α} : Still (Prog.call (.query q) : Prog (Sql D) L ε α) := fun _ _ => rfl

theorem Still.bind (hp : Still p) (hf : ∀ a, Still (f a)) : Still (p.bind f) := by
  intro d w
  have hd := hp d w
  rw [alone_bind]
  rcases hr : alone p d w with ⟨_ | a, d', w'⟩
  · rw [hr] at hd
    exact hd
  · rw [hr] at hd
    exact (hf a d' w').trans hd

end Settling

/-- A preorder of the data along which all row changes move. -/
structure Growth (D : Type) where
  le : D → D → Prop
  refl : ∀ d, le d d
  trans : ∀ {d d' d''}, le d d' → le d' d'' → le d d''

/-- Where a coroutine stands in its transaction: no row changed yet, own changes pending,
own changes committed, own changes rolled back. -/
inductive Phase where
  | clean | dirty | committed | aborted
  deriving DecidableEq, Repr

/-- With own changes pending or committed, the data can only have grown since the last of them. -/
def Phase.Bounds (G : Growth D) (d₀ : D) (d : D) : Phase → Prop
  | .clean => True
  | .dirty => G.le d₀ d
  | .committed => G.le d₀ d
  | .aborted => True

/-- The coroutine changes no row after its commit or rollback, its statements grow the data, and
it ends in a phase that fits its result. The last argument is the data after its last change. -/
def Disciplined (G : Growth D) (post : Except ε α → Phase → D → Prop) : Prog (Sql D) L ε α → Phase → D → Prop
  | .ret a, ph, d₀ => post (.ok a) ph d₀
  | .raise e, ph, d₀ => post (.error e) ph d₀
  | .perform (.query q) k, ph, d₀ => ∀ d, ph.Bounds G d₀ d → Disciplined G post (k (q d)) ph d₀
  | .perform (.execute s) k, ph, d₀ => (ph = .clean ∨ ph = .dirty) ∧ (∀ d, G.le d (s.apply d)) ∧
      ∀ d, ph.Bounds G d₀ d → if s.rowcount d = 0 then Disciplined G post (k 0) ph d₀
        else Disciplined G post (k (s.rowcount d)) .dirty (s.apply d)
  | .perform .commit k, ph, d₀ => Disciplined G post (k ()) (if ph = .dirty then .committed else ph) d₀
  | .perform .rollback k, ph, d₀ => Disciplined G post (k ()) (if ph = .dirty then .aborted else ph) d₀
  | .acquire _ k, ph, d₀ => Disciplined G post k ph d₀
  | .release _ k, ph, d₀ => Disciplined G post k ph d₀

variable {G : Growth D}

@[simp] theorem disciplined_bind {post : Except ε β → Phase → D → Prop} (p : Prog (Sql D) L ε α)
    (f : α → Prog (Sql D) L ε β) (ph : Phase) (d₀ : D) :
    Disciplined G post (p.bind f) ph d₀ ↔ Disciplined G (fun r ph' d' => match r with
      | .ok a => Disciplined G post (f a) ph' d'
      | .error e => post (.error e) ph' d') p ph d₀ := by
  induction p generalizing ph d₀ with
  | ret a => rfl
  | raise e => rfl
  | perform e k ih => cases e <;> simp [Prog.bind, Disciplined, ih]
  | acquire l k ih => exact ih _ _
  | release l k ih => exact ih _ _

@[simp] theorem disciplined_attempt {post : Except ε (Except ε α) → Phase → D → Prop}
    (p : Prog (Sql D) L ε α) (ph : Phase) (d₀ : D) :
    Disciplined G post p.attempt ph d₀ ↔ Disciplined G (fun r => post (.ok r)) p ph d₀ := by
  induction p generalizing ph d₀ with
  | ret a => rfl
  | raise e => rfl
  | perform e k ih => cases e <;> simp [Prog.attempt, Disciplined, ih]
  | acquire l k ih => exact ih _ _
  | release l k ih => exact ih _ _

@[simp] theorem disciplined_withLock {post : Except ε α → Phase → D → Prop} (l : L)
    (p : Prog (Sql D) L ε α) (ph : Phase) (d₀ : D) :
    Disciplined G post (Prog.withLock l p) ph d₀ ↔ Disciplined G post p ph d₀ := by
  simp only [Prog.withLock, Disciplined, disciplined_bind, disciplined_attempt]
  have h : (fun (r : Except ε α) (ph' : Phase) (d' : D) =>
      Disciplined G post (Prog.ofExcept r : Prog (Sql D) L ε α) ph' d') = post := by
    funext r ph' d'
    cases r <;> rfl
  rw [h]

/-- A weaker postcondition. -/
theorem Disciplined.mono {post post' : Except ε α → Phase → D → Prop} (h : ∀ r ph d, post r ph d → post' r ph d)
    {p : Prog (Sql D) L ε α} {ph : Phase} {d₀ : D} (hp : Disciplined G post p ph d₀) :
    Disciplined G post' p ph d₀ := by
  induction p generalizing ph d₀ with
  | ret a => exact h _ _ _ hp
  | raise e => exact h _ _ _ hp
  | acquire l k ih => exact ih hp
  | release l k ih => exact ih hp
  | perform e k ih =>
    cases e with
    | query q => exact fun d hd => ih _ (hp d hd)
    | commit => exact ih _ hp
    | rollback => exact ih _ hp
    | execute s =>
      refine ⟨hp.1, hp.2.1, fun d hd => ?_⟩
      have hk := hp.2.2 d hd
      split at hk
      · next h0 =>
        rw [if_pos h0]
        exact ih _ hk
      · next h0 =>
        rw [if_neg h0]
        exact ih _ hk

/-- A loop whose body keeps what is known of phase and data. -/
theorem Disciplined.forEach {post : Except ε Unit → Phase → D → Prop} {f : α → Prog (Sql D) L ε Unit}
    {J : Phase → D → Prop} (hbody : ∀ a ph d, J ph d → Disciplined G (fun r ph' d' => match r with
      | .ok _ => J ph' d'
      | .error e => post (.error e) ph' d') (f a) ph d)
    (hexit : ∀ ph d, J ph d → post (.ok ()) ph d) (as : List α) {ph : Phase} {d : D} (h : J ph d) :
    Disciplined G post (Prog.forEach f as) ph d := by
  induction as generalizing ph d with
  | nil => exact hexit ph d h
  | cons a as ih =>
    rw [Prog.forEach, disciplined_bind]
    refine (hbody a ph d h).mono fun r ph' d' hr => ?_
    cases r with
    | ok _ => exact ih hr
    | error e => exact hr

/-- The end of an operation: a success has nothing uncommitted, a failure has nothing
committed. -/
def EndsWell (success : Except ε α → Bool) (r : Except ε α) (ph : Phase) (_ : D) : Prop :=
  if success r then ph = .clean ∨ ph = .committed else ph = .clean ∨ ph = .aborted

/-- A rollback that operation `t` executes here concerns its own row changes only, and all of
them: nothing of another operation is pending, and nothing of its own is in the journal. -/
def RollsBackOwn (t : ℕ) (c : Connection D) : Prop := (∀ e ∈ c.pending, e.op = t) ∧ ofOp t c.journal = []

/-- Start one of the operations, or advance one. -/
def Interleaved (ops : Set (Prog (Sql D) L ε α)) (_ : Pool (Sql D) L ε α (Connection D)) :
    Event (Sql D) L ε α Unit → Prop
  | .spawn p => p ∈ ops
  | .go _ _ => True
  | .cancel _ _ => False
  | .crash _ => False

/-- The same, with every rollback confined to the operation that executes it. -/
def Confined (ops : Set (Prog (Sql D) L ε α)) (c : Pool (Sql D) L ε α (Connection D))
    (ev : Event (Sql D) L ε α Unit) : Prop :=
  Interleaved ops c ev ∧ ∀ t w, ev = .go t w → c.AtCall t Sql.rollback → RollsBackOwn t c.state

/-- The test of the second condition at one event. -/
def confinedAt (c : Pool (Sql D) L ε α (Connection D)) : Event (Sql D) L ε α Unit → Bool
  | .go t _ =>
    match c.threads[t]? with
    | some ⟨.perform .rollback _, _⟩ => (c.state.pending.all fun e => e.op = t) && (ofOp t c.state.journal).isEmpty
    | _ => true
  | _ => true

theorem confined_of_confinedAt {ops : Set (Prog (Sql D) L ε α)} {c : Pool (Sql D) L ε α (Connection D)}
    {ev : Event (Sql D) L ε α Unit} (h : Interleaved ops c ev) (ht : confinedAt c ev = true) :
    Confined ops c ev := by
  refine ⟨h, ?_⟩
  rintro t w rfl ⟨k, held, hc⟩
  simp only [confinedAt, hc, Bool.and_eq_true, List.all_eq_true, decide_eq_true_eq, List.isEmpty_iff] at ht
  exact ht

/-- What other operations leave alone: the own entries, executed and not discarded. Data that is
durable or holds own pending changes only grows. -/
structure Untouched (G : Growth D) (t : ℕ) (c c' : Connection D) : Prop where
  executed : ofOp t c'.executed = ofOp t c.executed
  kept : ofOp t (c'.journal ++ c'.pending) = ofOp t (c.journal ++ c.pending)
  journal : ofOp t c.journal <+: ofOp t c'.journal
  durable : G.le c.durable c'.durable
  working : ofOp t c.pending ≠ [] →
    G.le c.working c'.durable ∨ ofOp t c'.pending ≠ [] ∧ G.le c.working c'.working

theorem Untouched.refl (G : Growth D) (t : ℕ) (c : Connection D) : Untouched G t c c :=
  ⟨rfl, rfl, List.prefix_refl _, G.refl _, fun h => .inr ⟨h, G.refl _⟩⟩

theorem Untouched.trans {t : ℕ} {c c' c'' : Connection D} (h : Untouched G t c c')
    (h' : Untouched G t c' c'') : Untouched G t c c'' := by
  refine ⟨h'.executed.trans h.executed, h'.kept.trans h.kept, h.journal.trans h'.journal,
    G.trans h.durable h'.durable, fun hp => ?_⟩
  rcases h.working hp with hd | ⟨hp', hw⟩
  · exact .inl (G.trans hd h'.durable)
  · rcases h'.working hp' with hd | ⟨hp'', hw'⟩
    · exact .inl (G.trans hw hd)
    · exact .inr ⟨hp'', G.trans hw hw'⟩

/-- An operation without pending entries does not get any from others. -/
theorem Untouched.pending_nil {t : ℕ} {c c' : Connection D} (h : Untouched G t c c')
    (hp : ofOp t c.pending = []) : ofOp t c'.pending = [] := by
  obtain ⟨rest, hrest⟩ := h.journal
  have hk := h.kept
  rw [ofOp_append, ofOp_append, hp, List.append_nil, ← hrest, List.append_assoc,
    List.append_right_eq_self, List.append_eq_nil_iff] at hk
  exact hk.2

structure Growing (G : Growth D) (c : Connection D) : Prop where
  wellFormed : c.WellFormed
  grows : ∀ e ∈ c.journal ++ c.pending, ∀ d, G.le d (e.apply d)

theorem le_replay {d : D} {es : List (Entry D)} (h : ∀ e ∈ es, ∀ d, G.le d (e.apply d)) : G.le d (replay d es) := by
  induction es generalizing d with
  | nil => exact G.refl d
  | cons e es ih => exact G.trans (h e (by simp) d) (ih fun e' he' => h e' (by simp [he']))

theorem Growing.durable_le_working {c : Connection D} (h : Growing G c) : G.le c.durable c.working := by
  rw [Connection.working, replay_append]
  exact le_replay fun e he => h.grows e (List.mem_append_right _ he)

theorem Growing.commit {c : Connection D} (h : Growing G c) : Growing G c.commit :=
  ⟨h.wellFormed.commit, by simpa [Connection.commit] using h.grows⟩

theorem Growing.rollback {c : Connection D} (h : Growing G c) : Growing G c.rollback := by
  refine ⟨h.wellFormed.rollback, fun e he => h.grows e (List.mem_append_left _ ?_)⟩
  simpa [Connection.rollback] using he

theorem Growing.execute {c : Connection D} (h : Growing G c) (t : ℕ) {s : Statement D}
    (hs : ∀ d, G.le d (s.apply d)) : Growing G (c.execute t s) := by
  refine ⟨h.wellFormed.execute t s, fun e he => ?_⟩
  simp only [Connection.execute, ← List.append_assoc, List.mem_append, List.mem_singleton] at he
  rcases he with he | rfl
  · exact h.grows e (List.mem_append.mpr he)
  · exact hs

def contract (G : Growth D) : Contract (Sql D) L (Connection D) where
  inv c := Growing G c
  fresh t c := ofOp t c.executed = []
  rely t _ c c' := Untouched G t c c'
  guar t _ c c' := ∀ t', t ≠ t' → Untouched G t' c c'
  assume
    | .rollback, t, c => RollsBackOwn t c
    | _, _, _ => True
  pre _ _ _ _ := True

theorem contract_coherent (G : Growth D) : (contract (L := L) G).Coherent where
  rely_refl _ _ c := Untouched.refl G _ c
  rely_trans h h' := Untouched.trans h h'
  guar_rely hne _ _ _ h := h _ hne
  guar_fresh hne _ h hf := (h _ hne).executed.trans hf
  guar_res _ _ _ _ _ := trivial

/-- The data is at least `d₀` and stays so: it is durable, or own changes to it are pending. -/
def Holds (G : Growth D) (t : ℕ) (d₀ : D) (c : Connection D) : Prop :=
  G.le d₀ c.durable ∨ ofOp t c.pending ≠ [] ∧ G.le d₀ c.working

theorem Holds.stable {t : ℕ} {d₀ : D} {c c' : Connection D} (h : Holds G t d₀ c) (hu : Untouched G t c c') :
    Holds G t d₀ c' := by
  rcases h with h | ⟨hp, h⟩
  · exact .inl (G.trans h hu.durable)
  · rcases hu.working hp with hd | ⟨hp', hw⟩
    · exact .inl (G.trans h hd)
    · exact .inr ⟨hp', G.trans h hw⟩

theorem Holds.le_working {t : ℕ} {d₀ : D} {c : Connection D} (h : Holds G t d₀ c) (hc : Growing G c) :
    G.le d₀ c.working := by
  rcases h with h | ⟨-, h⟩
  · exact G.trans h hc.durable_le_working
  · exact h

/-- What an operation knows about its own entries in each phase. -/
def Knows (G : Growth D) (t : ℕ) (ph : Phase) (d₀ : D) (c : Connection D) : Prop :=
  match ph with
  | .clean => ofOp t c.executed = []
  | .dirty => ofOp t (c.journal ++ c.pending) = ofOp t c.executed ∧ Holds G t d₀ c
  | .committed => ofOp t c.journal = ofOp t c.executed ∧ ofOp t c.pending = [] ∧ G.le d₀ c.durable
  | .aborted => ofOp t (c.journal ++ c.pending) = []

theorem Knows.clean_entries {t : ℕ} {d₀ : D} {c : Connection D} (hw : c.WellFormed)
    (h : Knows G t .clean d₀ c) : ofOp t c.journal = [] ∧ ofOp t c.pending = [] := by
  have hall : ∀ e ∈ c.journal ++ c.pending, ¬ e.op = t := by
    intro e he ht
    have : e ∈ ofOp t c.executed := by simpa [ofOp, ht] using hw.executed e he
    rw [show ofOp t c.executed = [] from h] at this
    simp at this
  constructor <;> simp only [ofOp, List.filter_eq_nil_iff, decide_eq_true_eq]
  · exact fun e he => hall e (List.mem_append_left _ he)
  · exact fun e he => hall e (List.mem_append_right _ he)

/-- The knowledge survives the other operations. -/
theorem Knows.stable {t : ℕ} {ph : Phase} {d₀ : D} {c c' : Connection D}
    (h : Knows G t ph d₀ c) (hu : Untouched G t c c') : Knows G t ph d₀ c' := by
  cases ph with
  | clean => exact hu.executed.trans h
  | dirty => exact ⟨hu.kept.trans (h.1.trans hu.executed.symm), h.2.stable hu⟩
  | committed =>
    have hp := hu.pending_nil h.2.1
    have hk := hu.kept
    simp only [ofOp_append, h.2.1, hp, List.append_nil] at hk
    exact ⟨hk.trans (h.1.trans hu.executed.symm), hp, G.trans h.2.2 hu.durable⟩
  | aborted => exact hu.kept.trans h

theorem Knows.bounds {t : ℕ} {ph : Phase} {d₀ : D} {c : Connection D} (h : Knows G t ph d₀ c) (hc : Growing G c) :
    ph.Bounds G d₀ c.working := by
  cases ph with
  | clean => trivial
  | dirty => exact h.2.le_working hc
  | committed => exact G.trans h.2.2 hc.durable_le_working
  | aborted => trivial

/-- A commit of the operation itself moves it from pending to committed. -/
theorem Knows.commit {t : ℕ} {ph : Phase} {d₀ : D} {c : Connection D} (hc : Growing G c)
    (h : Knows G t ph d₀ c) : Knows G t (if ph = .dirty then .committed else ph) d₀ c.commit := by
  cases ph with
  | clean => exact h
  | dirty => exact ⟨h.1, rfl, h.2.le_working hc⟩
  | committed =>
    exact ⟨by simpa [Connection.commit, h.2.1] using h.1, rfl, G.trans h.2.2 hc.durable_le_working⟩
  | aborted => simpa [Knows, Connection.commit] using h

/-- A confined rollback of the operation itself discards all that it has done. -/
theorem Knows.rollback {t : ℕ} {ph : Phase} {d₀ : D} {c : Connection D} (hr : RollsBackOwn t c)
    (h : Knows G t ph d₀ c) : Knows G t (if ph = .dirty then .aborted else ph) d₀ c.rollback := by
  cases ph with
  | clean => exact h
  | dirty => simpa [Knows, Connection.rollback] using hr.2
  | committed => exact ⟨h.1, rfl, h.2.2⟩
  | aborted => simpa [Knows, Connection.rollback] using hr.2

/-- A row change of the operation itself is pending afterwards. -/
theorem Knows.execute {t : ℕ} {ph : Phase} {d₀ : D} {c : Connection D} {s : Statement D}
    (hw : c.WellFormed) (h : Knows G t ph d₀ c) (hph : ph = .clean ∨ ph = .dirty) :
    Knows G t .dirty (s.apply c.working) (c.execute t s) := by
  have hnew : ofOp t [(⟨t, c.working, s.apply⟩ : Entry D)] = [⟨t, c.working, s.apply⟩] := ofOp_self rfl
  have hholds : Holds G t (s.apply c.working) (c.execute t s) := by
    refine .inr ⟨by simp [Connection.execute, hnew], ?_⟩
    rw [Connection.working_execute]
    exact G.refl _
  rcases hph with rfl | rfl
  · obtain ⟨hj, hp⟩ := Knows.clean_entries hw h
    have he : ofOp t c.executed = [] := h
    refine ⟨?_, hholds⟩
    simp only [Connection.execute, ofOp_append, hj, hp, he, hnew, List.nil_append]
  · refine ⟨?_, hholds⟩
    simp only [Connection.execute, ← List.append_assoc]
    rw [ofOp_append, h.1, ofOp_append]

/-- Nothing of the others changes when the operation executes a statement. -/
theorem untouched_execute {t t' : ℕ} (hne : t ≠ t') (c : Connection D) {s : Statement D}
    (hs : ∀ d, G.le d (s.apply d)) : Untouched G t' c (c.execute t s) := by
  have hnew : ofOp t' [(⟨t, c.working, s.apply⟩ : Entry D)] = [] := ofOp_other hne
  have hp : ofOp t' (c.execute t s).pending = ofOp t' c.pending := by simp [Connection.execute, hnew]
  refine ⟨by simp [Connection.execute, hnew], by simp [Connection.execute, hnew], by simp [Connection.execute],
    G.refl _, fun h => .inr ⟨hp ▸ h, ?_⟩⟩
  rw [Connection.working_execute]
  exact hs _

/-- A commit keeps the entries of the others. -/
theorem untouched_commit {t' : ℕ} {c : Connection D} (hc : Growing G c) : Untouched G t' c c.commit :=
  ⟨rfl, by simp [Connection.commit], by simp [Connection.commit], hc.durable_le_working, fun _ => .inl (G.refl _)⟩

/-- A confined rollback keeps the entries of the others. -/
theorem untouched_rollback {t t' : ℕ} (hne : t ≠ t') {c : Connection D} (h : RollsBackOwn t c) :
    Untouched G t' c c.rollback := by
  have hp := ofOp_eq_nil_of_forall hne h.1
  exact ⟨rfl, by simp [Connection.rollback, hp], List.prefix_refl _, G.refl _, fun hne' => absurd hp hne'⟩

/-- A disciplined coroutine is safe in the pool, and ends knowing where its entries are. -/
theorem Disciplined.safe [DecidableEq L] {t : ℕ} {post : Except ε α → Phase → D → Prop}
    {p : Prog (Sql D) L ε α} {ph : Phase} {d₀ : D} (hp : Disciplined G post p ph d₀) {h : List L} {c : Connection D}
    (hk : Knows G t ph d₀ c) :
    Safe interp (contract G) t (fun r _ c => ∃ ph d₀, post r ph d₀ ∧ Knows G t ph d₀ c) p h c := by
  induction p generalizing ph d₀ h c with
  | ret a => exact fun c' hr _ => ⟨ph, d₀, hp, hk.stable hr⟩
  | raise e => exact fun c' hr _ => ⟨ph, d₀, hp, hk.stable hr⟩
  | acquire l k ih => exact fun c' hr _ _ _ => ih hp (hk.stable hr)
  | release l k ih => exact fun c' hr _ => ⟨trivial, ih hp (hk.stable hr)⟩
  | perform e k ih =>
    intro c' hr hw ha
    have hk' := hk.stable hr
    refine ⟨trivial, fun w c'' b hh => ?_⟩
    cases e with
    | query q =>
      simp only [interp, Option.some.injEq, Prod.mk.injEq] at hh
      obtain ⟨rfl, rfl⟩ := hh
      exact ⟨fun t' _ => Untouched.refl G t' c', hw, ih _ (hp _ (hk'.bounds hw)) hk'⟩
    | execute s =>
      obtain ⟨hph, hs, hcont⟩ := hp
      have hnext := hcont c'.working (hk'.bounds hw)
      simp only [interp] at hh
      split at hh
      · next h0 =>
        simp only [Option.some.injEq, Prod.mk.injEq] at hh
        obtain ⟨rfl, rfl⟩ := hh
        rw [if_pos h0] at hnext
        exact ⟨fun t' _ => Untouched.refl G t' c', hw, ih _ hnext hk'⟩
      · next h0 =>
        simp only [Option.some.injEq, Prod.mk.injEq] at hh
        obtain ⟨rfl, rfl⟩ := hh
        rw [if_neg h0] at hnext
        exact ⟨fun t' hne => untouched_execute hne c' hs, hw.execute t hs,
          ih _ hnext (hk'.execute hw.wellFormed hph)⟩
    | commit =>
      simp only [interp, Option.some.injEq, Prod.mk.injEq] at hh
      obtain ⟨rfl, -⟩ := hh
      exact ⟨fun t' _ => untouched_commit hw, hw.commit, ih _ hp (hk'.commit hw)⟩
    | rollback =>
      simp only [interp, Option.some.injEq, Prod.mk.injEq] at hh
      obtain ⟨rfl, -⟩ := hh
      exact ⟨fun t' hne => untouched_rollback hne ha, hw.rollback, ih _ hp (hk'.rollback ha)⟩

/-- Every pool of disciplined operations with confined rollbacks is sound. -/
theorem sound_of_disciplined [DecidableEq L] {ops : Set (Prog (Sql D) L ε α)}
    {post : Except ε α → Phase → D → Prop} (hops : ∀ p ∈ ops, ∀ d₀, Disciplined G post p .clean d₀) {d : D}
    {c : Pool (Sql D) L ε α (Connection D)} (h : Pool.Reachable interp (Confined ops) ⟨d, [], [], []⟩ c) :
    Pool.Sound interp (contract G)
      (fun t r _ c => ∃ ph d₀, post r ph d₀ ∧ Knows G t ph d₀ c) c := by
  refine Pool.Reachable.sound (contract_coherent G) ?_ ?_ (fun _ => trivial) ?_ ?_ ?_ ?_ (fun _ _ _ => trivial) h
  · exact ⟨⟨by simp, by simp⟩, by simp⟩
  · exact fun t => ofOp_nil t
  · exact fun c p hp t s _ hf => (hops p hp.1 s.base).safe hf
  · intro c t w β e k h hok ht
    cases e with
    | query q => trivial
    | execute s => trivial
    | commit => trivial
    | rollback => exact hok.2 t w rfl ⟨k, h, ht⟩
  · exact fun c t e hok => hok.1.elim
  · exact fun c e hok => hok.1.elim

/-- What the results of finished operations promise about the data: a success has all of its
row changes durable, and a failure has none. -/
def KeepsPromises (success : Except ε α → Bool) (c : Pool (Sql D) L ε α (Connection D)) : Prop :=
  ∀ t r, c.Finished t r → if success r then c.state.AllDurable t else c.state.NoneDurable t

/-- Disciplined operations keep their promises in every run with confined rollbacks. -/
theorem keepsPromises_of_disciplined [DecidableEq L] {ops : Set (Prog (Sql D) L ε α)} {success : Except ε α → Bool}
    (hops : ∀ p ∈ ops, ∀ d₀, Disciplined G (EndsWell success) p .clean d₀) {d : D}
    {c : Pool (Sql D) L ε α (Connection D)} (h : Pool.Reachable interp (Confined ops) ⟨d, [], [], []⟩ c) :
    KeepsPromises success c := by
  have hs := sound_of_disciplined hops h
  rintro t r ⟨held, ht⟩
  have hsafe : ∃ ph d₀, EndsWell success r ph d₀ ∧ Knows G t ph d₀ c.state := by
    have := hs.safe t _ ht
    cases r with
    | ok a => exact this c.state (Untouched.refl G t c.state) hs.inv
    | error e => exact this c.state (Untouched.refl G t c.state) hs.inv
  obtain ⟨ph, d₀, hend, hk⟩ := hsafe
  have hseen : ∀ before e after, c.state.journal = before ++ e :: after → e.op = t →
      replay c.state.base before = e.seen ∧ c.state.durable = replay (e.apply e.seen) after := by
    intro before e after hj _
    have hb : replay c.state.base before = e.seen :=
      hs.inv.wellFormed.seen before e (after ++ c.state.pending) (by simp [hj])
    exact ⟨hb, by rw [Connection.durable, hj, replay_append, hb, replay]⟩
  unfold EndsWell at hend
  split at hend
  · next hok =>
    rw [if_pos hok]
    refine ⟨?_, hseen⟩
    rcases hend with rfl | rfl
    · exact (Knows.clean_entries hs.inv.wellFormed hk).1.trans (Eq.symm hk)
    · exact hk.1
  · next hfail =>
    rw [if_neg hfail]
    rcases hend with rfl | rfl
    · exact (Knows.clean_entries hs.inv.wellFormed hk).1
    · have hnone : ofOp t (c.state.journal ++ c.state.pending) = [] := hk
      rw [ofOp_append, List.append_eq_nil_iff] at hnone
      exact hnone.1

end WorkerHarness.SharedTransactions
