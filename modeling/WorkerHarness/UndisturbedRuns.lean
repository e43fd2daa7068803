import WorkerHarness.CoroutineEffects

/-!
# What a coroutine does undisturbed

`Always` is the weakest precondition of a coroutine that runs with no other thread in between: it
finds an answer at every call, each answer satisfies one condition, and the end satisfies another.
-/

namespace WorkerHarness.Coroutines

universe u

variable {E : Type → Type u} {L ε α β σ ω : Type}

namespace Prog

/-- From `s` the coroutine never lacks an answer, every answer satisfies `P`, whatever comes from
outside, and the end satisfies `Q`. -/
def Always (I : Interp E σ ω) (t : ℕ) (P : (β : Type) → E β → β → Prop) (Q : Except ε α → σ → Prop) :
    Prog E L ε α → σ → Prop
  | .ret a, s => Q (.ok a) s
  | .raise e, s => Q (.error e) s
  | .perform e k, s => (∃ w r, I.handle e t w s = some r) ∧
      ∀ w s' b, I.handle e t w s = some (s', b) → P _ e b ∧ (k b).Always I t P Q s'
  | .acquire _ k, s => k.Always I t P Q s
  | .release _ k, s => k.Always I t P Q s

variable {I : Interp E σ ω} {t : ℕ} {P : (β : Type) → E β → β → Prop}

theorem Always.mono {p : Prog E L ε α} {Q Q' : Except ε α → σ → Prop} (h : ∀ r s, Q r s → Q' r s) {s : σ}
    (hp : p.Always I t P Q s) : p.Always I t P Q' s := by
  induction p generalizing s with
  | ret a => exact h _ _ hp
  | raise e => exact h _ _ hp
  | perform e k ih => exact ⟨hp.1, fun w s' b hh => ⟨(hp.2 w s' b hh).1, ih b (hp.2 w s' b hh).2⟩⟩
  | acquire l k ih => exact ih hp
  | release l k ih => exact ih hp

/-- A sequence does what its first part and then its second part do. -/
theorem always_bind {p : Prog E L ε α} {f : α → Prog E L ε β} {Q : Except ε β → σ → Prop} {s : σ} :
    (p.bind f).Always I t P Q s ↔ p.Always I t P (fun r s' => match r with
      | .ok a => (f a).Always I t P Q s'
      | .error e => Q (.error e) s') s := by
  induction p generalizing s with
  | ret a => rfl
  | raise e => rfl
  | perform e k ih => simp only [Prog.bind, Always, ih]
  | acquire l k ih => exact ih
  | release l k ih => exact ih

theorem always_attempt {p : Prog E L ε α} {Q : Except ε (Except ε α) → σ → Prop} {s : σ} :
    p.attempt.Always I t P Q s ↔ p.Always I t P (fun r s' => Q (.ok r) s') s := by
  induction p generalizing s with
  | ret a => rfl
  | raise e => rfl
  | perform e k ih => simp only [Prog.attempt, Always, ih]
  | acquire l k ih => exact ih
  | release l k ih => exact ih

theorem always_call {e : E α} {Q : Except ε α → σ → Prop} {s : σ} :
    (Prog.call e : Prog E L ε α).Always I t P Q s ↔ (∃ w r, I.handle e t w s = some r) ∧
      ∀ w s' a, I.handle e t w s = some (s', a) → P _ e a ∧ Q (.ok a) s' := Iff.rfl

theorem always_await {e : E (Except ε α)} {Q : Except ε α → σ → Prop} {s : σ} :
    (Prog.await e : Prog E L ε α).Always I t P Q s ↔ (∃ w r, I.handle e t w s = some r) ∧
      ∀ w s' r, I.handle e t w s = some (s', r) → P _ e r ∧ Q r s' := by
  have hof : ∀ (r : Except ε α) s', (Prog.ofExcept r : Prog E L ε α).Always I t P Q s' ↔ Q r s' := by
    rintro (_ | _) s' <;> rfl
  simp only [Prog.await, always_bind, always_call, hof]

theorem always_catching {p : Prog E L ε α} {handler : ε → Prog E L ε α} {Q : Except ε α → σ → Prop} {s : σ} :
    (p.catching handler).Always I t P Q s ↔ p.Always I t P (fun r s' => match r with
      | .ok a => Q (.ok a) s'
      | .error e => (handler e).Always I t P Q s') s := by
  rw [Prog.catching, always_bind, always_attempt]
  constructor <;> refine Always.mono fun r s' hq => ?_ <;> cases r <;> exact hq

/-- The first part returns, and the second goes on. -/
theorem Always.bind_ok {p : Prog E L ε α} {f : α → Prog E L ε β} {R : α → σ → Prop}
    {Q : Except ε β → σ → Prop} {s : σ}
    (hp : p.Always I t P (fun r s' => ∃ a, r = .ok a ∧ R a s') s) (hf : ∀ a s', R a s' → (f a).Always I t P Q s') :
    (p.bind f).Always I t P Q s := by
  refine always_bind.mpr (hp.mono ?_)
  rintro r s' ⟨a, rfl, ha⟩
  exact hf a s' ha

/-- The first part raises, and nothing follows. -/
theorem Always.bind_error {p : Prog E L ε α} {f : α → Prog E L ε β} {R : ε → σ → Prop} {s : σ}
    (hp : p.Always I t P (fun r s' => ∃ e, r = .error e ∧ R e s') s) :
    (p.bind f).Always I t P (fun r s' => ∃ e, r = .error e ∧ R e s') s := by
  refine always_bind.mpr (hp.mono ?_)
  rintro r s' ⟨e, rfl, he⟩
  exact ⟨e, rfl, he⟩

/-- Nothing is caught. -/
theorem Always.catching_ok {p : Prog E L ε α} {handler : ε → Prog E L ε α} {R : α → σ → Prop} {s : σ}
    (hp : p.Always I t P (fun r s' => ∃ a, r = .ok a ∧ R a s') s) :
    (p.catching handler).Always I t P (fun r s' => ∃ a, r = .ok a ∧ R a s') s := by
  refine always_catching.mpr (hp.mono ?_)
  rintro r s' ⟨a, rfl, ha⟩
  exact ⟨a, rfl, ha⟩

/-- What is raised is handled. -/
theorem Always.catching_error {p : Prog E L ε α} {handler : ε → Prog E L ε α} {R : ε → σ → Prop}
    {Q : Except ε α → σ → Prop} {s : σ} (hp : p.Always I t P (fun r s' => ∃ e, r = .error e ∧ R e s') s)
    (hh : ∀ e s', R e s' → (handler e).Always I t P Q s') : (p.catching handler).Always I t P Q s := by
  refine always_catching.mpr (hp.mono ?_)
  rintro r s' ⟨e, rfl, he⟩
  exact hh e s' he

theorem always_withLock {l : L} {p : Prog E L ε α} {Q : Except ε α → σ → Prop} {s : σ} :
    (Prog.withLock l p).Always I t P Q s ↔ p.Always I t P Q s := by
  change (p.attempt.bind fun r => Prog.release l (Prog.ofExcept r)).Always I t P Q s ↔ _
  rw [always_bind, always_attempt]
  constructor <;> refine Always.mono fun r s' hq => ?_ <;> cases r <;> exact hq

/-- A run ends as promised. -/
theorem Always.of_runs {p : Prog E L ε α} {Q : Except ε α → σ → Prop} {ok : ω → Prop} {s s' : σ} {r : Except ε α}
    (h : Runs I t ok p s r s') (hp : p.Always I t P Q s) : Q r s' := by
  induction h with
  | ret a s => exact hp
  | raise e s => exact hp
  | perform _ hh _ ih => exact ih (hp.2 _ _ _ hh).2
  | acquire _ ih => exact ih hp
  | release _ ih => exact ih hp

/-- There is a run. -/
theorem Always.exists_run {p : Prog E L ε α} {Q : Except ε α → σ → Prop} {s : σ} (hp : p.Always I t P Q s) :
    ∃ r s', Runs I t (fun _ => True) p s r s' ∧ Q r s' := by
  induction p generalizing s with
  | ret a => exact ⟨_, _, .ret a s, hp⟩
  | raise e => exact ⟨_, _, .raise e s, hp⟩
  | perform e k ih =>
    obtain ⟨w, ⟨s', b⟩, hh⟩ := hp.1
    obtain ⟨r, s'', hrun, hq⟩ := ih b (hp.2 w s' b hh).2
    exact ⟨r, s'', .perform trivial hh hrun, hq⟩
  | acquire l k ih =>
    obtain ⟨r, s', hrun, hq⟩ := ih hp
    exact ⟨r, s', .acquire hrun, hq⟩
  | release l k ih =>
    obtain ⟨r, s', hrun, hq⟩ := ih hp
    exact ⟨r, s', .release hrun, hq⟩

/-- What always holds at the end can hold together. -/
theorem Always.not_disjoint {p : Prog E L ε α} {Q Q' : Except ε α → σ → Prop} {s : σ} (hp : p.Always I t P Q s)
    (hp' : p.Always I t P Q' s) : ∃ r s', Q r s' ∧ Q' r s' := by
  obtain ⟨r, s', hrun, hq⟩ := hp.exists_run
  exact ⟨r, s', hq, hp'.of_runs hrun⟩

/-- A bound on the calls of a coroutine is kept in every run. -/
theorem Issues.always {V : (β : Type) → E β → β → Prop} {A : (β : Type) → E β → Prop} {R : α → Prop}
    {p : Prog E L ε α}
    (hp : p.Issues V A R) (hanswer : ∀ β (e : E β) s, A β e → ∃ w r, I.handle e t w s = some r)
    (hvalid : ∀ β (e : E β) w s s' b, A β e → I.handle e t w s = some (s', b) → V β e b ∧ P β e b) (s : σ) :
    p.Always I t P (fun _ _ => True) s := by
  induction p generalizing s with
  | ret a => trivial
  | raise e => trivial
  | perform e k ih =>
    refine ⟨hanswer _ e s hp.1, fun w s' b hh => ?_⟩
    obtain ⟨hv, hpost⟩ := hvalid _ e w s s' b hp.1 hh
    exact ⟨hpost, ih b (hp.2 b hv) s'⟩
  | acquire l k ih => exact ih hp s
  | release l k ih => exact ih hp s

end Prog

end WorkerHarness.Coroutines
