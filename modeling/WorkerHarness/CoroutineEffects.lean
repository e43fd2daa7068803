import WorkerHarness.RelyGuarantee

/-!
# The effects of a coroutine

`Performs` bounds what a coroutine can do whatever possible answers it gets: it takes no lock,
its effects satisfy one predicate and its result another. Under a contract such a coroutine is
safe as soon as each of these effects is, and what all of them keep true is true at its end.
`Issues` says the same of coroutines that may take locks: in a pool of these, what every effect
keeps true is true in every reachable state.
-/

namespace WorkerHarness.Coroutines

universe u v

variable {E : Type → Type u} {L ε α β γ σ ω : Type}

namespace Prog

/-- `try: p except e: handler(e)`. -/
def catching (p : Prog E L ε α) (handler : ε → Prog E L ε α) : Prog E L ε α :=
  p.attempt.bind fun
    | .ok a => .ret a
    | .error e => handler e

def await (e : E (Except ε α)) : Prog E L ε α := (call e).bind ofExcept

/-- The same coroutine over effects that contain its own. -/
def lift {E' : Type → Type v} (f : {β : Type} → E β → E' β) : Prog E L ε α → Prog E' L ε α
  | .ret a => .ret a
  | .raise e => .raise e
  | .perform e k => .perform (f e) fun b => (k b).lift f
  | .acquire l k => .acquire l (k.lift f)
  | .release l k => .release l (k.lift f)

/-- The coroutine takes no lock, performs only effects in `P` and returns only values in `R`, as
long as the answers are possible by `V`. -/
def Performs (V : (β : Type) → E β → β → Prop) (P : (β : Type) → E β → Prop) (R : α → Prop) : Prog E L ε α → Prop
  | .ret a => R a
  | .raise _ => True
  | .perform e k => P _ e ∧ ∀ b, V _ e b → Performs V P R (k b)
  | .acquire _ _ => False
  | .release _ _ => False

namespace Performs

variable {V : (β : Type) → E β → β → Prop} {P P' : (β : Type) → E β → Prop} {R : α → Prop} {p : Prog E L ε α}

theorem mono {R' : α → Prop} (hp : Performs V P R p) (hP : ∀ β e, P β e → P' β e) (hR : ∀ a, R a → R' a) :
    Performs V P' R' p := by
  induction p with
  | ret a => exact hR _ hp
  | raise e => trivial
  | perform e k ih => exact ⟨hP _ e hp.1, fun b hb => ih b (hp.2 b hb)⟩
  | acquire l k ih => exact hp
  | release l k ih => exact hp

theorem bind {R' : β → Prop} {f : α → Prog E L ε β} (hp : Performs V P R p)
    (hf : ∀ a, R a → Performs V P R' (f a)) :
    Performs V P R' (p.bind f) := by
  induction p with
  | ret a => exact hf a hp
  | raise e => trivial
  | perform e k ih => exact ⟨hp.1, fun b hb => ih b (hp.2 b hb)⟩
  | acquire l k ih => exact hp
  | release l k ih => exact hp

theorem attempt (hp : Performs V P R p) : Performs V P (fun r => ∀ a, r = .ok a → R a) p.attempt := by
  induction p with
  | ret a =>
    intro a' ha
    cases ha
    exact hp
  | raise e => exact fun a ha => by cases ha
  | perform e k ih => exact ⟨hp.1, fun b hb => ih b (hp.2 b hb)⟩
  | acquire l k ih => exact hp
  | release l k ih => exact hp

theorem any (hp : Performs V P R p) : Performs V P (fun _ => True) p := hp.mono (fun _ _ h => h) fun _ _ => trivial

/-- Without locks there is nothing else to do than to perform effects. -/
theorem of_lockless {p : Prog E Empty ε α} (hP : ∀ β (e : E β), P β e) : Performs V P (fun _ => True) p := by
  induction p with
  | ret a => trivial
  | raise e => trivial
  | perform e k ih => exact ⟨hP _ e, fun b _ => ih b⟩
  | acquire l k ih => exact l.elim
  | release l k ih => exact l.elim

theorem lift {E' : Type → Type v} {V' : (β : Type) → E' β → β → Prop} {P' : (β : Type) → E' β → Prop}
    {f : {β : Type} → E β → E' β} (hp : Performs V P R p)
    (hV : ∀ β (e : E β) b, V' β (f e) b → V β e b) (hP : ∀ β e, P β e → P' β (f e)) :
    Performs V' P' R (p.lift f) := by
  induction p with
  | ret a => exact hp
  | raise e => trivial
  | perform e k ih => exact ⟨hP _ e hp.1, fun b hb => ih b (hp.2 b (hV _ e b hb))⟩
  | acquire l k ih => exact hp.elim
  | release l k ih => exact hp.elim

theorem ofExcept {r : Except ε α} (hr : ∀ a, r = .ok a → R a) :
    Performs V P R (Prog.ofExcept r : Prog E L ε α) := by
  cases r with
  | ok a => exact hr a rfl
  | error e => trivial

theorem call {e : E α} (he : P α e) (hR : ∀ a, V α e a → R a) : Performs V P R (Prog.call e : Prog E L ε α) :=
  ⟨he, hR⟩

theorem await {e : E (Except ε α)} (he : P _ e) (hR : ∀ a, V _ e (.ok a) → R a) :
    Performs V P R (Prog.await e : Prog E L ε α) :=
  ⟨he, fun _ hr => ofExcept fun a ha => hR a (ha ▸ hr)⟩

theorem catching {handler : ε → Prog E L ε α} (hp : Performs V P R p) (hh : ∀ e, Performs V P R (handler e)) :
    Performs V P R (p.catching handler) := by
  refine hp.attempt.bind fun r hr => ?_
  cases r with
  | ok a => exact hr a rfl
  | error e => exact hh e

theorem forEach {R : Unit → Prop} {f : β → Prog E L ε Unit} {bs : List β} (hR : R ())
    (hf : ∀ b ∈ bs, Performs V P (fun _ => True) (f b)) : Performs V P R (Prog.forEach f bs) := by
  induction bs with
  | nil => exact hR
  | cons b bs ih => exact (hf b (by simp)).bind fun _ _ => ih fun b' hb' => hf b' (by simp [hb'])

end Performs

/-- The coroutine performs only effects in `P` and returns only values in `R`, as long as the
answers are possible by `V`; it may take locks and give them back. -/
def Issues (V : (β : Type) → E β → β → Prop) (P : (β : Type) → E β → Prop) (R : α → Prop) : Prog E L ε α → Prop
  | .ret a => R a
  | .raise _ => True
  | .perform e k => P _ e ∧ ∀ b, V _ e b → Issues V P R (k b)
  | .acquire _ k => Issues V P R k
  | .release _ k => Issues V P R k

namespace Issues

variable {V V' : (β : Type) → E β → β → Prop} {P P' : (β : Type) → E β → Prop} {R : α → Prop} {p : Prog E L ε α}

theorem of_performs (hV : ∀ β (e : E β) b, V β e b → V' β e b) (hP : ∀ β (e : E β), P' β e → P β e)
    (hp : p.Performs V' P' R) : p.Issues V P R := by
  induction p with
  | ret a => exact hp
  | raise e => trivial
  | perform e k ih => exact ⟨hP _ e hp.1, fun b hb => ih b (hp.2 b (hV _ e b hb))⟩
  | acquire l k ih => exact hp.elim
  | release l k ih => exact hp.elim

theorem mono {R' : α → Prop} (hp : p.Issues V P R) (hR : ∀ a, R a → R' a) : p.Issues V P R' := by
  induction p with
  | ret a => exact hR _ hp
  | raise e => trivial
  | perform e k ih => exact ⟨hp.1, fun b hb => ih b (hp.2 b hb)⟩
  | acquire l k ih => exact ih hp
  | release l k ih => exact ih hp

theorem bind {R' : β → Prop} {f : α → Prog E L ε β} (hp : p.Issues V P R) (hf : ∀ a, R a → (f a).Issues V P R') :
    (p.bind f).Issues V P R' := by
  induction p with
  | ret a => exact hf a hp
  | raise e => trivial
  | perform e k ih => exact ⟨hp.1, fun b hb => ih b (hp.2 b hb)⟩
  | acquire l k ih => exact ih hp
  | release l k ih => exact ih hp

theorem attempt (hp : p.Issues V P R) : p.attempt.Issues V P fun r => ∀ a, r = .ok a → R a := by
  induction p with
  | ret a =>
    intro a' ha
    cases ha
    exact hp
  | raise e => exact fun a ha => by cases ha
  | perform e k ih => exact ⟨hp.1, fun b hb => ih b (hp.2 b hb)⟩
  | acquire l k ih => exact ih hp
  | release l k ih => exact ih hp

theorem call {e : E α} (he : P α e) (hR : ∀ a, V α e a → R a) :
    (Prog.call e : Prog E L ε α).Issues V P R := ⟨he, hR⟩

theorem ofExcept {r : Except ε α} (hr : ∀ a, r = .ok a → R a) : (Prog.ofExcept r : Prog E L ε α).Issues V P R := by
  cases r with
  | ok a => exact hr a rfl
  | error e => trivial

theorem await {e : E (Except ε α)} (he : P _ e) (hR : ∀ a, V _ e (.ok a) → R a) :
    (Prog.await e : Prog E L ε α).Issues V P R :=
  ⟨he, fun _ hr => ofExcept fun a ha => hR a (ha ▸ hr)⟩

theorem catching {handler : ε → Prog E L ε α} (hp : p.Issues V P R) (hh : ∀ e, (handler e).Issues V P R) :
    (p.catching handler).Issues V P R := by
  refine hp.attempt.bind fun r hr => ?_
  cases r with
  | ok a => exact hr a rfl
  | error e => exact hh e

theorem withLock {l : L} (hp : p.Issues V P R) : (Prog.withLock l p).Issues V P R := by
  refine hp.attempt.bind fun r hr => ?_
  cases r with
  | ok a => exact hr a rfl
  | error e => trivial

end Issues

end Prog

/-- In every reachable pool of such coroutines, what all their effects keep true is true. -/
theorem Pool.Reachable.issues [DecidableEq L] {I : Interp E σ ω} {ok : Pool E L ε α σ → Event E L ε α ω → Prop}
    {V : (β : Type) → E β → β → Prop} {P : (β : Type) → E β → Prop} {J : σ → Prop} {s₀ : σ} (hinit : J s₀)
    (hspawn : ∀ c p, ok c (.spawn p) → J c.state → p.Issues V P fun _ => True)
    (hstep : ∀ c t w β (e : E β) k h s b, ok c (.go t w) → c.threads[t]? = some ⟨.perform e k, h⟩ → J c.state →
      P β e → I.handle e t w c.state = some (s, b) → V β e b ∧ J s)
    {c : Pool E L ε α σ} (hc : Pool.Reachable I ok s₀ c) :
    J c.state ∧ ∀ th ∈ c.threads, th.prog.Issues V P fun _ => True := by
  induction hc with
  | init => exact ⟨hinit, fun _ hth => (nomatch hth)⟩
  | @step c c' ev _ hok hs ih =>
    obtain ⟨hj, hthreads⟩ := ih
    have hset : ∀ t (th' : Thread E L ε α), (th'.prog.Issues V P fun _ => True) →
        ∀ th ∈ c.threads.set t th', th.prog.Issues V P fun _ => True := by
      intro t th' hth' th hth
      rcases List.mem_or_eq_of_mem_set hth with hth | rfl
      · exact hthreads th hth
      · exact hth'
    obtain ⟨p, rfl, rfl⟩ | ⟨t, w, β, e, k, held, s, b, rfl, ht, hh, rfl⟩ | ⟨t, w, l, k, held, rfl, ht, -, rfl⟩ |
      ⟨t, w, l, k, held, rfl, ht, rfl⟩ | ⟨t, e, rfl, -, rfl⟩ | ⟨e, rfl, rfl⟩ := Pool.step_cases hs
    · refine ⟨hj, fun th hth => ?_⟩
      rcases List.mem_append.mp hth with hth | hth
      · exact hthreads th hth
      · rw [List.mem_singleton.mp hth]
        exact hspawn c p hok hj
    · have hthis : P β e ∧ ∀ b, V β e b → (k b).Issues V P fun _ => True := hthreads _ (List.mem_of_getElem? ht)
      obtain ⟨hv, hj'⟩ := hstep c t w β e k held s b hok ht hj hthis.1 hh
      exact ⟨hj', hset t ⟨k b, held⟩ (hthis.2 b hv)⟩
    · have hthis : k.Issues V P fun _ => True := hthreads ⟨.acquire l k, held⟩ (List.mem_of_getElem? ht)
      exact ⟨hj, hset t ⟨k, l :: held⟩ hthis⟩
    · have hthis : k.Issues V P fun _ => True := hthreads ⟨.release l k, held⟩ (List.mem_of_getElem? ht)
      exact ⟨hj, hset t ⟨k, held.erase l⟩ hthis⟩
    · exact ⟨hj, hset t ⟨.raise e, []⟩ trivial⟩
    · refine ⟨hj, fun th hth => ?_⟩
      obtain ⟨_, -, rfl⟩ := List.mem_map.mp hth
      trivial

namespace Safe

variable [DecidableEq L] {I : Interp E σ ω} {A : Contract E L σ} {t : ℕ}

/-- What the environment cannot spoil and every effect keeps is true at the end. -/
theorem of_performs {V : (β : Type) → E β → β → Prop} {P : (β : Type) → E β → Prop} {R : α → Prop} {h : List L}
    {J : σ → Prop} (hV : ∀ β (e : E β) w s s' b, I.handle e t w s = some (s', b) → V β e b)
    (hJ : ∀ s s', J s → A.rely t h s s' → A.inv s' → J s')
    (hP : ∀ β (e : E β), P β e → ∀ s, A.inv s → J s → A.assume e t s → A.pre e t h s ∧
      ∀ w s' b, I.handle e t w s = some (s', b) → A.guar t h s s' ∧ A.inv s' ∧ J s')
    {p : Prog E L ε α} (hp : p.Performs V P R) {s : σ} (hs : J s) :
    Safe I A t (fun r h' s' => h' = h ∧ (∀ a, r = .ok a → R a) ∧ J s') p h s := by
  induction p generalizing s with
  | ret a =>
    refine fun s' hr hi => ⟨rfl, fun a' ha => ?_, hJ s s' hs hr hi⟩
    cases ha
    exact hp
  | raise e => exact fun s' hr hi => ⟨rfl, (fun a ha => by cases ha), hJ s s' hs hr hi⟩
  | perform e k ih =>
    intro s' hr hi ha
    obtain ⟨hpre, hstep⟩ := hP _ e hp.1 s' hi (hJ s s' hs hr hi) ha
    refine ⟨hpre, fun w s'' b hh => ?_⟩
    obtain ⟨hg, hi', hj⟩ := hstep w s'' b hh
    exact ⟨hg, hi', ih b (hp.2 b (hV _ e w s' s'' b hh)) hj⟩
  | acquire l k ih => exact hp.elim
  | release l k ih => exact hp.elim

/-- `try`: the handler starts where the exception was raised. -/
theorem catching (hA : A.Coherent) {Q : Except ε α → List L → σ → Prop} {p : Prog E L ε α}
    {handler : ε → Prog E L ε α} {h : List L} {s : σ}
    (hp : Safe I A t (fun r h' s' => match r with
      | .ok a => ∀ s'', A.rely t h' s' s'' → A.inv s'' → Q (.ok a) h' s''
      | .error e => Safe I A t Q (handler e) h' s') p h s) : Safe I A t Q (p.catching handler) h s := by
  refine Safe.bind hA (Safe.attempt (Safe.mono (fun r h' s' _ hq => ?_) hp))
  cases r <;> exact hq

end Safe

end WorkerHarness.Coroutines
