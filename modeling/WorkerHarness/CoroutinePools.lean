import WorkerHarness.Coroutines
import Mathlib.Data.List.Basic

/-!
# Pools of coroutines over one shared state

A pool interleaves any number of coroutines at their suspension points. Threads are
numbered in the order in which they were started and keep their number. The step
function is executable, so that a schedule can be replayed; `Reachable` ranges over
all schedules whose events a side condition allows.
-/

namespace WorkerHarness.Coroutines

universe u

variable {E : Type → Type u} {L ε α σ ω : Type}

/-- The meaning of effects: thread number and external answer select the new state
and the answer given to the coroutine; `none` when the answer is impossible here. -/
structure Interp (E : Type → Type u) (σ ω : Type) where
  handle : {β : Type} → E β → ℕ → ω → σ → Option (σ × β)

/-- A coroutine in execution with the locks it holds. -/
structure Thread (E : Type → Type u) (L ε α : Type) where
  prog : Prog E L ε α
  held : List L

structure Pool (E : Type → Type u) (L ε α σ : Type) where
  state : σ
  threads : List (Thread E L ε α)

/-- What the scheduler can do next. A cancelled thread unwinds and drops its locks;
a crash does this to every thread at once. -/
inductive Event (E : Type → Type u) (L ε α ω : Type) where
  | spawn (p : Prog E L ε α)
  | go (t : ℕ) (w : ω)
  | cancel (t : ℕ) (e : ε)
  | crash (e : ε)

namespace Prog

/-- The coroutine runs from start to end as thread `t` with no other thread in between, and all
answers from outside are admissible. -/
inductive Runs (I : Interp E σ ω) (t : ℕ) (ok : ω → Prop) : {α : Type} → Prog E L ε α → σ → Except ε α → σ →
    Prop where
  | ret {α : Type} (a : α) (s : σ) : Runs I t ok (.ret a) s (.ok a) s
  | raise {α : Type} (e : ε) (s : σ) : Runs (α := α) I t ok (.raise e) s (.error e) s
  | perform {α β : Type} {e : E β} {k : β → Prog E L ε α} {w : ω} {s s' s'' : σ} {b : β} {r : Except ε α} :
      ok w → I.handle e t w s = some (s', b) → Runs I t ok (k b) s' r s'' → Runs I t ok (.perform e k) s r s''
  | acquire {α : Type} {l : L} {k : Prog E L ε α} {s s' : σ} {r : Except ε α} :
      Runs I t ok k s r s' → Runs I t ok (.acquire l k) s r s'
  | release {α : Type} {l : L} {k : Prog E L ε α} {s s' : σ} {r : Except ε α} :
      Runs I t ok k s r s' → Runs I t ok (.release l k) s r s'

def replay (I : Interp E σ ω) (t : ℕ) {α : Type} : Prog E L ε α → σ → List ω → Option (Except ε α × σ)
  | .ret a, s, _ => some (.ok a, s)
  | .raise e, s, _ => some (.error e, s)
  | .perform _ _, _, [] => none
  | .perform e k, s, w :: ws =>
    match I.handle e t w s with
    | none => none
    | some (s', b) => (k b).replay I t s' ws
  | .acquire _ k, s, ws => k.replay I t s ws
  | .release _ k, s, ws => k.replay I t s ws

variable {I : Interp E σ ω} {t : ℕ} {ok : ω → Prop} {α β : Type}

theorem runs_of_replay {p : Prog E L ε α} {s s' : σ} {ws : List ω} {r : Except ε α} (hok : ∀ w ∈ ws, ok w)
    (h : p.replay I t s ws = some (r, s')) : Runs I t ok p s r s' := by
  induction p generalizing s ws with
  | ret a =>
    cases h
    exact .ret a _
  | raise e =>
    cases h
    exact .raise e _
  | acquire l k ih => exact .acquire (ih hok h)
  | release l k ih => exact .release (ih hok h)
  | perform e k ih =>
    cases ws with
    | nil => cases h
    | cons w ws =>
      simp only [replay] at h
      split at h
      · cases h
      · next hh => exact .perform (hok w (by simp)) hh (ih _ (fun w hw => hok w (by simp [hw])) h)

/-- A run of a sequence is a run of the first part and then of the second. -/
theorem Runs.of_bind {p : Prog E L ε α} {f : α → Prog E L ε β} {s s'' : σ} {r : Except ε β}
    (h : Runs I t ok (p.bind f) s r s'') :
    (∃ a s', Runs I t ok p s (.ok a) s' ∧ Runs I t ok (f a) s' r s'') ∨
      ∃ e, Runs I t ok p s (.error e) s'' ∧ r = .error e := by
  induction p generalizing s with
  | ret a => exact .inl ⟨a, s, .ret a s, h⟩
  | raise e =>
    cases h
    exact .inr ⟨e, .raise e _, rfl⟩
  | perform e k ih =>
    cases h with
    | perform hw hh hk =>
      rcases ih _ hk with ⟨a, s', hp, hf⟩ | ⟨e', hp, hr⟩
      · exact .inl ⟨a, s', .perform hw hh hp, hf⟩
      · exact .inr ⟨e', .perform hw hh hp, hr⟩
  | acquire l k ih =>
    cases h with
    | acquire hk =>
      rcases ih hk with ⟨a, s', hp, hf⟩ | ⟨e', hp, hr⟩
      · exact .inl ⟨a, s', .acquire hp, hf⟩
      · exact .inr ⟨e', .acquire hp, hr⟩
  | release l k ih =>
    cases h with
    | release hk =>
      rcases ih hk with ⟨a, s', hp, hf⟩ | ⟨e', hp, hr⟩
      · exact .inl ⟨a, s', .release hp, hf⟩
      · exact .inr ⟨e', .release hp, hr⟩

theorem Runs.of_attempt {p : Prog E L ε α} {s s' : σ} {r : Except ε (Except ε α)}
    (h : Runs I t ok p.attempt s r s') : ∃ r', Runs I t ok p s r' s' ∧ r = .ok r' := by
  induction p generalizing s with
  | ret a =>
    cases h
    exact ⟨.ok a, .ret a _, rfl⟩
  | raise e =>
    cases h
    exact ⟨.error e, .raise e _, rfl⟩
  | perform e k ih =>
    cases h with
    | perform hw hh hk =>
      obtain ⟨r', hp, hr⟩ := ih _ hk
      exact ⟨r', .perform hw hh hp, hr⟩
  | acquire l k ih =>
    cases h with
    | acquire hk =>
      obtain ⟨r', hp, hr⟩ := ih hk
      exact ⟨r', .acquire hp, hr⟩
  | release l k ih =>
    cases h with
    | release hk =>
      obtain ⟨r', hp, hr⟩ := ih hk
      exact ⟨r', .release hp, hr⟩

theorem Runs.of_withLock {l : L} {p : Prog E L ε α} {s s' : σ} {r : Except ε α}
    (h : Runs I t ok (Prog.withLock l p) s r s') : Runs I t ok p s r s' := by
  cases h with
  | acquire h =>
    rcases h.of_bind with ⟨r', s₁, hp, hrel⟩ | ⟨e, hp, -⟩
    · obtain ⟨r'', hp, hr⟩ := hp.of_attempt
      cases hr
      cases hrel with
      | release hof => cases r' <;> cases hof <;> exact hp
    · obtain ⟨r'', -, hr⟩ := hp.of_attempt
      cases hr

end Prog

namespace Pool

/-- Some thread holds the lock. -/
def locked [DecidableEq L] (c : Pool E L ε α σ) (l : L) : Bool :=
  c.threads.any fun th => decide (l ∈ th.held)

/-- Let one thread run up to its next suspension point. -/
def advance [DecidableEq L] (I : Interp E σ ω) (c : Pool E L ε α σ) (t : ℕ) (w : ω)
    (th : Thread E L ε α) : Option (Pool E L ε α σ) :=
  match th.prog with
  | .ret _ => none
  | .raise _ => none
  | .perform e k =>
    match I.handle e t w c.state with
    | none => none
    | some (s, b) => some ⟨s, c.threads.set t ⟨k b, th.held⟩⟩
  | .acquire l k =>
    if c.locked l then none else some ⟨c.state, c.threads.set t ⟨k, l :: th.held⟩⟩
  | .release l k => some ⟨c.state, c.threads.set t ⟨k, th.held.erase l⟩⟩

def step [DecidableEq L] (I : Interp E σ ω) (c : Pool E L ε α σ) :
    Event E L ε α ω → Option (Pool E L ε α σ)
  | .spawn p => some ⟨c.state, c.threads ++ [⟨p, []⟩]⟩
  | .go t w =>
    match c.threads[t]? with
    | none => none
    | some th => c.advance I t w th
  | .cancel t e =>
    if t < c.threads.length then some ⟨c.state, c.threads.set t ⟨.raise e, []⟩⟩ else none
  | .crash e => some ⟨c.state, c.threads.map fun _ => ⟨.raise e, []⟩⟩

/-- Replay a schedule. -/
def run [DecidableEq L] (I : Interp E σ ω) (c : Pool E L ε α σ) :
    List (Event E L ε α ω) → Option (Pool E L ε α σ)
  | [] => some c
  | ev :: evs =>
    match c.step I ev with
    | none => none
    | some c' => c'.run I evs

/-- Replay a schedule and test every event where it happens. -/
def checkedRun [DecidableEq L] (I : Interp E σ ω) (test : Pool E L ε α σ → Event E L ε α ω → Bool)
    (c : Pool E L ε α σ) : List (Event E L ε α ω) → Option (Pool E L ε α σ)
  | [] => some c
  | ev :: evs =>
    if test c ev then
      match c.step I ev with
      | none => none
      | some c' => c'.checkedRun I test evs
    else none

/-- The next suspension point of thread `t` is the effect `e`. -/
def AtCall (c : Pool E L ε α σ) (t : ℕ) {β : Type} (e : E β) : Prop :=
  ∃ k h, c.threads[t]? = some ⟨.perform e k, h⟩

/-- Thread `t` has returned or raised. -/
def Finished (c : Pool E L ε α σ) (t : ℕ) (r : Except ε α) : Prop :=
  ∃ h, c.threads[t]? = some ⟨Prog.ofExcept r, h⟩

/-- The result of thread `t`, when it has one. -/
def result (c : Pool E L ε α σ) (t : ℕ) : Option (Except ε α) :=
  match c.threads[t]? with
  | some ⟨.ret a, _⟩ => some (.ok a)
  | some ⟨.raise e, _⟩ => some (.error e)
  | _ => none

theorem finished_of_result {c : Pool E L ε α σ} {t : ℕ} {r : Except ε α} (h : c.result t = some r) :
    c.Finished t r := by
  unfold result at h
  split at h
  · next a held ht =>
    cases h
    exact ⟨held, ht⟩
  · next e held ht =>
    cases h
    exact ⟨held, ht⟩
  · cases h

/-- Pools reachable from the state `s₀` without threads, through allowed events. -/
inductive Reachable [DecidableEq L] (I : Interp E σ ω)
    (ok : Pool E L ε α σ → Event E L ε α ω → Prop) (s₀ : σ) : Pool E L ε α σ → Prop where
  | init : Reachable I ok s₀ ⟨s₀, []⟩
  | step {c c' : Pool E L ε α σ} {ev : Event E L ε α ω} :
      Reachable I ok s₀ c → ok c ev → c.step I ev = some c' → Reachable I ok s₀ c'

variable [DecidableEq L] {I : Interp E σ ω} {ok : Pool E L ε α σ → Event E L ε α ω → Prop} {s₀ : σ}

/-- A replayed schedule whose test passes stays within the reachable pools. -/
theorem Reachable.checkedRun {test : Pool E L ε α σ → Event E L ε α ω → Bool} {c c' : Pool E L ε α σ}
    (hc : Reachable I ok s₀ c) {evs : List (Event E L ε α ω)}
    (htest : ∀ d, ∀ ev ∈ evs, test d ev = true → ok d ev) (h : c.checkedRun I test evs = some c') :
    Reachable I ok s₀ c' := by
  induction evs generalizing c with
  | nil =>
    cases h
    exact hc
  | cons ev evs ih =>
    simp only [Pool.checkedRun] at h
    split at h
    · next ht =>
      cases hs : c.step I ev with
      | none => simp [hs] at h
      | some d =>
        simp only [hs] at h
        exact ih (.step hc (htest c ev (by simp) ht) hs) (fun d' ev' hm => htest d' ev' (by simp [hm])) h
    · cases h

/-- A replayed schedule of allowed events stays within the reachable pools. -/
theorem Reachable.run {c c' : Pool E L ε α σ} (hc : Reachable I ok s₀ c)
    {evs : List (Event E L ε α ω)} (hok : ∀ d, ∀ ev ∈ evs, ok d ev)
    (h : c.run I evs = some c') : Reachable I ok s₀ c' := by
  induction evs generalizing c with
  | nil =>
    cases h
    exact hc
  | cons ev evs ih =>
    simp only [Pool.run] at h
    cases hs : c.step I ev with
    | none => simp [hs] at h
    | some d =>
      simp only [hs] at h
      exact ih (.step hc (hok c ev (by simp)) hs) (fun d' ev' hm => hok d' ev' (by simp [hm])) h

/-- What one event can do to a pool: start, advance at an effect, take a lock, give one
back, or unwind. -/
theorem step_cases {c c' : Pool E L ε α σ} {ev : Event E L ε α ω} (h : c.step I ev = some c') :
    (∃ p, ev = .spawn p ∧ c' = ⟨c.state, c.threads ++ [⟨p, []⟩]⟩) ∨
    (∃ t w β, ∃ e : E β, ∃ k held s b, ev = .go t w ∧ c.threads[t]? = some ⟨.perform e k, held⟩ ∧
      I.handle e t w c.state = some (s, b) ∧ c' = ⟨s, c.threads.set t ⟨k b, held⟩⟩) ∨
    (∃ t w l k held, ev = .go t w ∧ c.threads[t]? = some ⟨.acquire l k, held⟩ ∧
      (∀ th ∈ c.threads, l ∉ th.held) ∧ c' = ⟨c.state, c.threads.set t ⟨k, l :: held⟩⟩) ∨
    (∃ t w l k held, ev = .go t w ∧ c.threads[t]? = some ⟨.release l k, held⟩ ∧
      c' = ⟨c.state, c.threads.set t ⟨k, held.erase l⟩⟩) ∨
    (∃ t e, ev = .cancel t e ∧ t < c.threads.length ∧
      c' = ⟨c.state, c.threads.set t ⟨.raise e, []⟩⟩) ∨
    (∃ e, ev = .crash e ∧ c' = ⟨c.state, c.threads.map fun _ => ⟨.raise e, []⟩⟩) := by
  cases ev with
  | spawn p => exact .inl ⟨p, rfl, by simpa [step] using h.symm⟩
  | cancel t e =>
    simp only [step] at h
    split at h
    · next hlt => exact .inr (.inr (.inr (.inr (.inl ⟨t, e, rfl, hlt, by simpa using h.symm⟩))))
    · cases h
  | crash e =>
    exact .inr (.inr (.inr (.inr (.inr ⟨e, rfl, by simpa [step] using h.symm⟩))))
  | go t w =>
    simp only [step] at h
    cases ht : c.threads[t]? with
    | none => simp [ht] at h
    | some th =>
      obtain ⟨prog, held⟩ := th
      simp only [ht, advance] at h
      cases prog with
      | ret a => simp at h
      | raise e => simp at h
      | @perform β e k =>
        cases hh : I.handle e t w c.state with
        | none => simp [hh] at h
        | some sb =>
          obtain ⟨s, b⟩ := sb
          simp only [hh, Option.some.injEq] at h
          exact .inr (.inl ⟨t, w, β, e, k, held, s, b, rfl, ht, hh, h.symm⟩)
      | acquire l k =>
        simp only at h
        split at h
        · cases h
        · next hl =>
          refine .inr (.inr (.inl ⟨t, w, l, k, held, rfl, ht, ?_, by simpa using h.symm⟩))
          simpa [locked] using hl
      | release l k =>
        exact .inr (.inr (.inr (.inl ⟨t, w, l, k, held, rfl, ht, by simpa using h.symm⟩)))

end Pool

open Classical in
/-- The interpretation in which only the permitted answers are possible. -/
noncomputable def Interp.restrict (I : Interp E σ ω) (P : (β : Type) → E β → ω → σ → Prop) : Interp E σ ω :=
  ⟨fun {β} e t w s => if P β e w s then I.handle e t w s else none⟩

theorem Interp.restrict_handle {I : Interp E σ ω} {P : (β : Type) → E β → ω → σ → Prop} {β : Type} {e : E β} {t : ℕ}
    {w : ω} {s s' : σ} {b : β} (h : (I.restrict P).handle e t w s = some (s', b)) :
    P β e w s ∧ I.handle e t w s = some (s', b) := by
  simp only [restrict] at h
  split at h
  · next hp => exact ⟨hp, h⟩
  · cases h

theorem Interp.restrict_handle_of {I : Interp E σ ω} {P : (β : Type) → E β → ω → σ → Prop} {β : Type}
    {e : E β} {t : ℕ}
    {w : ω} {s : σ} (hp : P β e w s) : (I.restrict P).handle e t w s = I.handle e t w s := if_pos hp

/-- Runs whose answers are all permitted are runs of the restricted interpretation. -/
theorem Pool.Reachable.restrict [DecidableEq L] {I : Interp E σ ω}
    {ok ok' : Pool E L ε α σ → Event E L ε α ω → Prop}
    {P : (β : Type) → E β → ω → σ → Prop} {s₀ : σ} (hok : ∀ c ev, ok c ev → ok' c ev)
    (hP : ∀ c t w β (e : E β) k h, ok c (.go t w) → c.threads[t]? = some ⟨.perform e k, h⟩ → P β e w c.state)
    {c : Pool E L ε α σ} (hc : Pool.Reachable I ok s₀ c) : Pool.Reachable (I.restrict P) ok' s₀ c := by
  induction hc with
  | init => exact .init
  | @step c c' ev _ ho hs ih =>
    refine .step ih (hok c ev ho) ?_
    cases ev with
    | go t w =>
      simp only [Pool.step] at hs ⊢
      cases ht : c.threads[t]? with
      | none =>
        rw [ht] at hs
        cases hs
      | some th =>
        obtain ⟨prog, held⟩ := th
        rw [ht] at hs
        cases prog with
        | perform e k =>
          have hp := hP c t w _ e k held ho ht
          simp only [Pool.advance, Interp.restrict, if_pos hp] at hs ⊢
          exact hs
        | ret a => exact hs
        | raise e => exact hs
        | acquire l k => exact hs
        | release l k => exact hs
    | spawn p => exact hs
    | cancel t e => exact hs
    | crash e => exact hs

/-- What every step at an effect keeps is true in every reachable pool. -/
theorem Pool.Reachable.invariant [DecidableEq L] {I : Interp E σ ω}
    {ok : Pool E L ε α σ → Event E L ε α ω → Prop} {s₀ : σ}
    {J : σ → Prop} (hinit : J s₀)
    (hstep : ∀ c t w β (e : E β) k h s b, ok c (.go t w) → c.threads[t]? = some ⟨.perform e k, h⟩ → J c.state →
      I.handle e t w c.state = some (s, b) → J s)
    {c : Pool E L ε α σ} (hc : Pool.Reachable I ok s₀ c) : J c.state := by
  induction hc with
  | init => exact hinit
  | step _ hok hs ih =>
    obtain ⟨p, rfl, rfl⟩ | ⟨t, w, β, e, k, held, s, b, rfl, ht, hh, rfl⟩ | ⟨t, w, l, k, held, rfl, -, -, rfl⟩ |
      ⟨t, w, l, k, held, rfl, -, rfl⟩ | ⟨t, e, rfl, -, rfl⟩ | ⟨e, rfl, rfl⟩ := Pool.step_cases hs
    · exact ih
    · exact hstep _ t w β e k held s b hok ht ih hh
    · exact ih
    · exact ih
    · exact ih
    · exact ih

/-- The pool with what `f` shows of its state. -/
def Pool.view {τ : Type} (f : σ → τ) (c : Pool E L ε α σ) : Pool E L ε α τ := ⟨f c.state, c.threads⟩

/-- If `f` turns every effect into the same effect of another interpretation, it turns runs into runs. -/
theorem Pool.Reachable.view [DecidableEq L] {τ : Type} {I : Interp E σ ω} {I' : Interp E τ ω} {f : σ → τ}
    {ok : Pool E L ε α σ → Event E L ε α ω → Prop} {ok' : Pool E L ε α τ → Event E L ε α ω → Prop} {s₀ : σ}
    (hI : ∀ β (e : E β) t w s s' b, I.handle e t w s = some (s', b) → I'.handle e t w (f s) = some (f s', b))
    (hok : ∀ c ev, ok c ev → ok' (c.view f) ev) {c : Pool E L ε α σ} (hc : Pool.Reachable I ok s₀ c) :
    Pool.Reachable I' ok' (f s₀) (c.view f) := by
  induction hc with
  | init => exact .init
  | @step c c' ev _ ho hs ih =>
    refine .step ih (hok c ev ho) ?_
    cases ev with
    | spawn p =>
      cases hs
      rfl
    | crash e =>
      cases hs
      rfl
    | cancel t e =>
      simp only [Pool.step] at hs
      split at hs
      · next hlt =>
        cases hs
        exact if_pos hlt
      · cases hs
    | go t w =>
      simp only [Pool.step] at hs
      cases ht : c.threads[t]? with
      | none =>
        rw [ht] at hs
        cases hs
      | some th =>
        rw [ht] at hs
        have ht' : (c.view f).threads[t]? = some th := ht
        simp only [Pool.step, ht']
        obtain ⟨prog, held⟩ := th
        cases prog with
        | ret a => cases hs
        | raise e => cases hs
        | perform e k =>
          simp only [Pool.advance] at hs ⊢
          cases hh : I.handle e t w c.state with
          | none =>
            rw [hh] at hs
            cases hs
          | some sb =>
            obtain ⟨s, b⟩ := sb
            rw [hh] at hs
            cases hs
            have hh' := hI _ e t w c.state s b hh
            simp only [Pool.view, hh']
        | acquire l k =>
          have hlocked : (c.view f).locked l = c.locked l := rfl
          simp only [Pool.advance, hlocked] at hs ⊢
          split at hs
          · cases hs
          · next hfree =>
            cases hs
            exact if_neg hfree
        | release l k =>
          cases hs
          rfl

/-- If every effect can be followed on states that show more, every run is what `f` shows of a run on those. -/
theorem Pool.Reachable.exists_view [DecidableEq L] {τ : Type} {I : Interp E σ ω} {I' : Interp E τ ω} {f : σ → τ}
    {ok : Pool E L ε α τ → Event E L ε α ω → Prop} {s₀ : σ}
    (hI : ∀ β (e : E β) t w s r b, I'.handle e t w (f s) = some (r, b) →
      ∃ s', I.handle e t w s = some (s', b) ∧ f s' = r)
    {c : Pool E L ε α τ} (hc : Pool.Reachable I' ok (f s₀) c) :
    ∃ d : Pool E L ε α σ, Pool.Reachable I (fun d ev => ok (d.view f) ev) s₀ d ∧ d.view f = c := by
  induction hc with
  | init => exact ⟨⟨s₀, []⟩, .init, rfl⟩
  | @step c c' ev _ ho hs ih =>
    obtain ⟨d, hd, rfl⟩ := ih
    have hnext : ∃ d', d.step I ev = some d' ∧ d'.view f = c' := by
      cases ev with
      | spawn p =>
        cases hs
        exact ⟨_, rfl, rfl⟩
      | crash e =>
        cases hs
        exact ⟨_, rfl, rfl⟩
      | cancel t e =>
        simp only [Pool.step] at hs
        split at hs
        · next hlt =>
          cases hs
          exact ⟨_, if_pos hlt, rfl⟩
        · cases hs
      | go t w =>
        simp only [Pool.step] at hs
        cases ht : d.threads[t]? with
        | none =>
          have ht' : (d.view f).threads[t]? = none := ht
          rw [ht'] at hs
          cases hs
        | some th =>
          have ht' : (d.view f).threads[t]? = some th := ht
          rw [ht'] at hs
          simp only [Pool.step, ht]
          obtain ⟨prog, held⟩ := th
          cases prog with
          | ret a => cases hs
          | raise e => cases hs
          | perform e k =>
            simp only [Pool.advance] at hs ⊢
            cases hh : I'.handle e t w (d.view f).state with
            | none =>
              rw [hh] at hs
              cases hs
            | some rb =>
              obtain ⟨r, b⟩ := rb
              rw [hh] at hs
              cases hs
              obtain ⟨s', hs', rfl⟩ := hI _ e t w d.state r b hh
              exact ⟨_, by rw [hs'], rfl⟩
          | acquire l k =>
            have hlocked : (d.view f).locked l = d.locked l := rfl
            simp only [Pool.advance, hlocked] at hs ⊢
            split at hs
            · cases hs
            · next hfree =>
              cases hs
              exact ⟨_, if_neg hfree, rfl⟩
          | release l k =>
            cases hs
            exact ⟨_, rfl, rfl⟩
    obtain ⟨d', hd', rfl⟩ := hnext
    exact ⟨d', .step hd ho hd', rfl⟩

end WorkerHarness.Coroutines
