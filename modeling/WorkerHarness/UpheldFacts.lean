import WorkerHarness.CoroutineEffects

/-!
# Facts that coroutines uphold

A coroutine upholds a fact if the fact is true at its end whenever it was true at its start, and if it gives
back the locks that it takes. Coroutines that uphold a fact compose, so that only the parts that break it for
a while need a proof of their own.
-/

namespace WorkerHarness.Coroutines

universe u

variable {E : Type → Type u} {L ε α β σ ω : Type} [DecidableEq L]

/-- The other threads cannot spoil the fact, no lock protects anything, and with fewer locks a thread relies on
no more. -/
structure Steady (A : Contract E L σ) (t : ℕ) (J : σ → Prop) : Prop where
  coherent : A.Coherent
  stable : ∀ h s s', J s → A.rely t h s s' → A.inv s' → J s'
  unprotected : ∀ l s, A.res l s
  rely_tail : ∀ l h s s', A.rely t (l :: h) s s' → A.rely t h s s'

def Upholds (I : Interp E σ ω) (A : Contract E L σ) (t : ℕ) (J : σ → Prop) (p : Prog E L ε α) : Prop :=
  ∀ h s, J s → Safe I A t (fun _ h' s' => h' = h ∧ J s') p h s

namespace Steady

variable {I : Interp E σ ω} {A : Contract E L σ} {t : ℕ} {J : σ → Prop} {p : Prog E L ε α} {f : α → Prog E L ε β}

theorem ret (hJ : Steady A t J) (a : α) : Upholds I A t J (.ret a : Prog E L ε α) :=
  fun h s hs s' hr hi => ⟨rfl, hJ.stable h s s' hs hr hi⟩

theorem raise (hJ : Steady A t J) (e : ε) : Upholds I A t J (.raise e : Prog E L ε α) :=
  fun h s hs s' hr hi => ⟨rfl, hJ.stable h s s' hs hr hi⟩

theorem ofExcept (hJ : Steady A t J) (r : Except ε α) : Upholds I A t J (Prog.ofExcept r : Prog E L ε α) := by
  cases r with
  | ok a => exact hJ.ret a
  | error e => exact hJ.raise e

/-- A coroutine goes on after one that has another fact to start with. -/
theorem bind_of (hJ : Steady A t J) {h : List L} {s : σ} (hp : Safe I A t (fun r h' s' => h' = h ∧ match r with
      | .ok a => Safe I A t (fun _ h' s' => h' = h ∧ J s') (f a) h s'
      | .error _ => J s') p h s) :
    Safe I A t (fun _ h' s' => h' = h ∧ J s') (p.bind f) h s := by
  refine Safe.bind hJ.coherent (Safe.mono ?_ hp)
  rintro r h' s' - ⟨rfl, hr⟩
  cases r with
  | ok a => exact hr
  | error e => exact fun s'' hrely hi => ⟨rfl, hJ.stable h' s' s'' hr hrely hi⟩

theorem bind (hJ : Steady A t J) (hp : Upholds I A t J p) (hf : ∀ a, Upholds I A t J (f a)) :
    Upholds I A t J (p.bind f) := by
  intro h s hs
  refine hJ.bind_of (Safe.mono ?_ (hp h s hs))
  rintro r h' s' - ⟨rfl, hs'⟩
  cases r with
  | ok a => exact ⟨rfl, hf a h' s' hs'⟩
  | error e => exact ⟨rfl, hs'⟩

theorem attempt (hp : Upholds I A t J p) : Upholds I A t J p.attempt :=
  fun h s hs => Safe.attempt (hp h s hs)

theorem catching (hJ : Steady A t J) {handler : ε → Prog E L ε α} (hp : Upholds I A t J p)
    (hh : ∀ e, Upholds I A t J (handler e)) : Upholds I A t J (p.catching handler) := by
  refine hJ.bind (attempt hp) fun r => ?_
  cases r with
  | ok a => exact hJ.ret a
  | error e => exact hh e

theorem call (hJ : Steady A t J) {e : E α} (he : ∀ h s, A.inv s → J s → A.assume e t s → A.pre e t h s ∧
      ∀ w s' a, I.handle e t w s = some (s', a) → A.guar t h s s' ∧ A.inv s' ∧ J s') :
    Upholds I A t J (Prog.call e : Prog E L ε α) := by
  intro h s hs s₁ hr hi ha
  obtain ⟨hpre, hstep⟩ := he h s₁ hi (hJ.stable h s s₁ hs hr hi) ha
  refine ⟨hpre, fun w s₂ a hh => ?_⟩
  obtain ⟨hg, hi', hj⟩ := hstep w s₂ a hh
  exact ⟨hg, hi', hJ.ret a h s₂ hj⟩

theorem withLock (hJ : Steady A t J) (l : L) (hp : Upholds I A t J p) : Upholds I A t J (Prog.withLock l p) := by
  intro h s hs
  refine Safe.withLock hJ.coherent (fun s' hr hi _ _ => ?_) (hJ.rely_tail l h)
  refine Safe.mono ?_ (hp (l :: h) s' (hJ.stable h s s' hs hr hi))
  rintro r h' s'' - ⟨rfl, hs''⟩
  exact ⟨rfl, fun _ _ _ => hJ.unprotected l _, fun s₃ hr₃ hi₃ => ⟨rfl, hJ.stable h s'' s₃ hs'' hr₃ hi₃⟩⟩

theorem forEach (hJ : Steady A t J) {f : α → Prog E L ε Unit} (hf : ∀ a, Upholds I A t J (f a)) (as : List α) :
    Upholds I A t J (Prog.forEach f as) := by
  induction as with
  | nil => exact hJ.ret ()
  | cons a as ih => exact hJ.bind (hf a) fun _ => ih

end Steady

end WorkerHarness.Coroutines
