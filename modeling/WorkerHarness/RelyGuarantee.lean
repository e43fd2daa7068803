import WorkerHarness.CoroutinePools
import Mathlib.Data.List.Lemmas
import Mathlib.Tactic.Push

/-!
# Rely/guarantee reasoning for pools of coroutines

A contract says, for a thread and the locks it holds, what the other threads may do
meanwhile (`rely`) and what the thread itself does (`guar`). `Safe` follows the tree of
one coroutine: at every suspension point the state may first move along `rely`, the
effect must then meet `guar`, keep the invariant and be permitted by `pre`. A lock may
protect a fact `res` about the state: who takes the lock finds it, and who gives the lock
back has to restore it. The soundness theorem turns safety of each started coroutine into
facts about every reachable pool, for any number of threads.
-/

namespace WorkerHarness.Coroutines

universe u

variable {E : Type → Type u} {L ε α β γ σ ω : Type}

/-- What the threads of a pool may assume of each other. `fresh t` holds of the state as
long as thread `t` has not been started; `assume` is a promise about runs, made to the
thread at the moment it performs an effect; `pre` is what the thread promises then; `res`
holds while nobody has the lock. -/
structure Contract (E : Type → Type u) (L σ : Type) where
  inv : σ → Prop
  fresh : ℕ → σ → Prop
  rely : ℕ → List L → σ → σ → Prop
  guar : ℕ → List L → σ → σ → Prop
  assume : {β : Type} → E β → ℕ → σ → Prop
  pre : {β : Type} → E β → ℕ → List L → σ → Prop
  res : L → σ → Prop := fun _ _ => True

/-- The contract fits together: what one thread guarantees, every other thread that
holds disjoint locks can rely on. -/
structure Contract.Coherent (A : Contract E L σ) : Prop where
  rely_refl : ∀ t h s, A.rely t h s s
  rely_trans : ∀ {t h s s' s''}, A.rely t h s s' → A.rely t h s' s'' → A.rely t h s s''
  guar_rely : ∀ {t t' h h' s s'}, t ≠ t' → (∀ l ∈ h, l ∉ h') → A.inv s → A.inv s' →
    A.guar t h s s' → A.rely t' h' s s'
  guar_fresh : ∀ {t t' h s s'}, t ≠ t' → A.inv s → A.guar t h s s' → A.fresh t' s → A.fresh t' s'
  guar_res : ∀ {t h l s s'}, l ∉ h → A.inv s → A.inv s' → A.guar t h s s' → A.res l s → A.res l s'

/-- Thread `t` can run `p` from `s` with the locks `h`, ending in a state where `Q` holds. -/
def Safe [DecidableEq L] (I : Interp E σ ω) (A : Contract E L σ) (t : ℕ) :
    (Q : Except ε α → List L → σ → Prop) → Prog E L ε α → List L → σ → Prop
  | Q, .ret a, h, s => ∀ s', A.rely t h s s' → A.inv s' → Q (.ok a) h s'
  | Q, .raise e, h, s => ∀ s', A.rely t h s s' → A.inv s' → Q (.error e) h s'
  | Q, .perform e k, h, s => ∀ s', A.rely t h s s' → A.inv s' → A.assume e t s' →
      A.pre e t h s' ∧ ∀ w s'' b, I.handle e t w s' = some (s'', b) →
        A.guar t h s' s'' ∧ A.inv s'' ∧ Safe I A t Q (k b) h s''
  | Q, .acquire l k, h, s => ∀ s', A.rely t h s s' → A.inv s' → l ∉ h → A.res l s' → Safe I A t Q k (l :: h) s'
  | Q, .release l k, h, s => ∀ s', A.rely t h s s' → A.inv s' → A.res l s' ∧ Safe I A t Q k (h.erase l) s'

namespace Safe

variable [DecidableEq L] {I : Interp E σ ω} {A : Contract E L σ} {t : ℕ}

/-- Safety survives whatever the other threads do. -/
theorem stable (hA : A.Coherent) {Q : Except ε α → List L → σ → Prop} {p : Prog E L ε α}
    {h : List L} {s s' : σ} (hp : Safe I A t Q p h s) (hr : A.rely t h s s') : Safe I A t Q p h s' := by
  cases p with
  | ret a => exact fun s'' hr' => hp s'' (hA.rely_trans hr hr')
  | raise e => exact fun s'' hr' => hp s'' (hA.rely_trans hr hr')
  | perform e k => exact fun s'' hr' => hp s'' (hA.rely_trans hr hr')
  | acquire l k => exact fun s'' hr' => hp s'' (hA.rely_trans hr hr')
  | release l k => exact fun s'' hr' => hp s'' (hA.rely_trans hr hr')

/-- A weaker postcondition. -/
theorem mono {Q Q' : Except ε α → List L → σ → Prop} (hQ : ∀ r h s, A.inv s → Q r h s → Q' r h s)
    {p : Prog E L ε α} {h : List L} {s : σ} (hp : Safe I A t Q p h s) : Safe I A t Q' p h s := by
  induction p generalizing h s with
  | ret a => exact fun s' hr hi => hQ _ _ _ hi (hp s' hr hi)
  | raise e => exact fun s' hr hi => hQ _ _ _ hi (hp s' hr hi)
  | perform e k ih =>
    intro s' hr hi ha
    refine ⟨(hp s' hr hi ha).1, fun w s'' b hh => ?_⟩
    obtain ⟨hg, hi', hk⟩ := (hp s' hr hi ha).2 w s'' b hh
    exact ⟨hg, hi', ih b hk⟩
  | acquire l k ih => exact fun s' hr hi hl hres => ih (hp s' hr hi hl hres)
  | release l k ih => exact fun s' hr hi => ⟨(hp s' hr hi).1, ih (hp s' hr hi).2⟩

/-- Sequencing: the second coroutine starts where the first one ends. -/
theorem bind {Q : Except ε β → List L → σ → Prop} {p : Prog E L ε α} {f : α → Prog E L ε β}
    (hA : A.Coherent) {h : List L} {s : σ}
    (hp : Safe I A t (fun r h' s' => match r with
      | .ok a => Safe I A t Q (f a) h' s'
      | .error e => ∀ s'', A.rely t h' s' s'' → A.inv s'' → Q (.error e) h' s'') p h s) :
    Safe I A t Q (p.bind f) h s := by
  induction p generalizing h s with
  | ret a =>
    have hf : ∀ s', A.rely t h s s' → A.inv s' → Safe I A t Q (f a) h s' := hp
    -- The continuation is safe at every state the environment can reach from here.
    show Safe I A t Q (f a) h s
    cases hfa : f a with
    | ret b =>
      intro s' hr hi
      exact (hfa ▸ hf s' hr hi : Safe I A t Q (.ret b) h s') s' (hA.rely_refl _ _ _) hi
    | raise e =>
      intro s' hr hi
      exact (hfa ▸ hf s' hr hi : Safe I A t Q (.raise e) h s') s' (hA.rely_refl _ _ _) hi
    | perform e k =>
      intro s' hr hi
      exact (hfa ▸ hf s' hr hi : Safe I A t Q (.perform e k) h s') s' (hA.rely_refl _ _ _) hi
    | acquire l k =>
      intro s' hr hi
      exact (hfa ▸ hf s' hr hi : Safe I A t Q (.acquire l k) h s') s' (hA.rely_refl _ _ _) hi
    | release l k =>
      intro s' hr hi
      exact (hfa ▸ hf s' hr hi : Safe I A t Q (.release l k) h s') s' (hA.rely_refl _ _ _) hi
  | raise e =>
    intro s' hr hi
    exact hp s' hr hi s' (hA.rely_refl _ _ _) hi
  | perform e k ih =>
    intro s' hr hi ha
    refine ⟨(hp s' hr hi ha).1, fun w s'' b hh => ?_⟩
    obtain ⟨hg, hi', hk⟩ := (hp s' hr hi ha).2 w s'' b hh
    exact ⟨hg, hi', ih b hk⟩
  | acquire l k ih => exact fun s' hr hi hl hres => ih (hp s' hr hi hl hres)
  | release l k ih => exact fun s' hr hi => ⟨(hp s' hr hi).1, ih (hp s' hr hi).2⟩

/-- Catching exceptions moves the exceptional postcondition into the value. -/
theorem attempt {Q : Except ε (Except ε α) → List L → σ → Prop} {p : Prog E L ε α} {h : List L} {s : σ}
    (hp : Safe I A t (fun r => Q (.ok r)) p h s) : Safe I A t Q p.attempt h s := by
  induction p generalizing h s with
  | ret a => exact hp
  | raise e => exact hp
  | perform e k ih =>
    intro s' hr hi ha
    refine ⟨(hp s' hr hi ha).1, fun w s'' b hh => ?_⟩
    obtain ⟨hg, hi', hk⟩ := (hp s' hr hi ha).2 w s'' b hh
    exact ⟨hg, hi', ih b hk⟩
  | acquire l k ih => exact fun s' hr hi hl hres => ih (hp s' hr hi hl hres)
  | release l k ih => exact fun s' hr hi => ⟨(hp s' hr hi).1, ih (hp s' hr hi).2⟩

/-- A body under a lock, with a postcondition that the environment cannot spoil once the
lock is given back. The body finds what the lock protects, and restores it. -/
theorem withLock (hA : A.Coherent) {Q : Except ε α → List L → σ → Prop} {l : L}
    {p : Prog E L ε α} {h : List L} {s : σ}
    (hp : ∀ s', A.rely t h s s' → A.inv s' → l ∉ h → A.res l s' →
      Safe I A t (fun r h' s' => h' = l :: h ∧ (∀ s'', A.rely t (l :: h) s' s'' → A.inv s'' → A.res l s'') ∧
        ∀ s'', A.rely t h s' s'' → A.inv s'' → Q r h s'') p (l :: h) s')
    (hrel : ∀ s s', A.rely t (l :: h) s s' → A.rely t h s s') :
    Safe I A t Q (Prog.withLock l p) h s := by
  intro s₁ hr₁ hi₁ hl hres₁
  refine Safe.bind hA (Safe.attempt (Safe.mono ?_ (hp s₁ hr₁ hi₁ hl hres₁)))
  rintro r h' s₂ hi₂ ⟨rfl, hres, hQ⟩ s₃ hr₃ hi₃
  refine ⟨hres s₃ hr₃ hi₃, ?_⟩
  have hQ' : ∀ s'', A.rely t h s₃ s'' → A.inv s'' → Q r h s'' :=
    fun s'' hr hi => hQ s'' (hA.rely_trans (hrel _ _ hr₃) hr) hi
  cases r with
  | ok a => simpa [Prog.ofExcept, Safe] using hQ'
  | error e => simpa [Prog.ofExcept, Safe] using hQ'

/-- A loop body that re-establishes a stable loop invariant. -/
theorem forEach (hA : A.Coherent) {Q : Except ε Unit → List L → σ → Prop} {f : α → Prog E L ε Unit}
    {J : List L → σ → Prop} (hJ : ∀ h s s', J h s → A.rely t h s s' → A.inv s' → J h s')
    (hexit : ∀ h s, A.inv s → J h s → Q (.ok ()) h s)
    (hbody : ∀ a h s, J h s → Safe I A t (fun r h' s' => match r with
      | .ok _ => J h' s'
      | .error e => ∀ s'', A.rely t h' s' s'' → A.inv s'' → Q (.error e) h' s'') (f a) h s) :
    ∀ (as : List α) {h s}, J h s → Safe I A t Q (Prog.forEach f as) h s
  | [], h, s, hj => fun s' hr hi => hexit h s' hi (hJ h s s' hj hr hi)
  | a :: as, h, s, hj => by
    refine Safe.bind hA (Safe.mono ?_ (hbody a h s hj))
    intro r h' s' _ hq
    cases r with
    | ok _ => exact forEach hA hJ hexit hbody as hq
    | error e => exact hq

end Safe

namespace Pool

variable [DecidableEq L] {I : Interp E σ ω} {A : Contract E L σ}

/-- What a sound pool satisfies: the invariant, disjoint locks, untouched fresh threads,
intact facts behind free locks, and safety of every thread for its own postcondition. -/
structure Sound (I : Interp E σ ω) (A : Contract E L σ)
    (Q : ℕ → Except ε α → List L → σ → Prop) (c : Pool E L ε α σ) : Prop where
  inv : A.inv c.state
  fresh : ∀ t, c.threads.length ≤ t → A.fresh t c.state
  apart : ∀ (t t' : ℕ) (th th' : Thread E L ε α), t ≠ t' → c.threads[t]? = some th →
    c.threads[t']? = some th' → ∀ l ∈ th.held, l ∉ th'.held
  res : ∀ l, (∀ th ∈ c.threads, l ∉ th.held) → A.res l c.state
  safe : ∀ (t : ℕ) (th : Thread E L ε α), c.threads[t]? = some th → Safe I A t (Q t) th.prog th.held c.state

variable {Q : ℕ → Except ε α → List L → σ → Prop} {ok : Pool E L ε α σ → Event E L ε α ω → Prop}

omit [DecidableEq L] in
private theorem getElem?_set_replaced {ts : List (Thread E L ε α)} {t : ℕ} {th th' : Thread E L ε α}
    (h : ts[t]? = some th) : (ts.set t th')[t]? = some th' := by
  have hlt : t < ts.length := (List.getElem?_eq_some_iff.mp h).1
  simp [hlt]

omit [DecidableEq L] in
private theorem getElem?_append_singleton {ts : List (Thread E L ε α)} {t : ℕ} {th th' : Thread E L ε α}
    (h : (ts ++ [th'])[t]? = some th) : ts[t]? = some th ∨ ts.length ≤ t ∧ th = th' := by
  rcases Nat.lt_or_ge t ts.length with hlt | hge
  · exact .inl (by rwa [List.getElem?_append_left hlt] at h)
  · rw [List.getElem?_append_right hge] at h
    exact .inr ⟨hge, by simpa using List.mem_of_getElem? h⟩

/-- Replacing one thread keeps the pool sound when the thread is safe where the state went,
its locks still exclude the locks of the others, and the locks that it gave back protect
what they should. -/
theorem Sound.set (hA : A.Coherent) {c : Pool E L ε α σ} (hc : Sound I A Q c) {t : ℕ}
    {th th' : Thread E L ε α} {s : σ} (ht : c.threads[t]? = some th)
    (hg : s = c.state ∨ A.guar t th.held c.state s) (hi : A.inv s)
    (hlocks : ∀ t' th'', t' ≠ t → c.threads[t']? = some th'' →
      ∀ l, (l ∈ th'.held → l ∉ th''.held) ∧ (l ∈ th''.held → l ∉ th'.held))
    (hres : ∀ l ∈ th.held, l ∉ th'.held → A.res l s)
    (hs : Safe I A t (Q t) th'.prog th'.held s) : Sound I A Q ⟨s, c.threads.set t th'⟩ := by
  refine ⟨hi, ?_, ?_, ?_, ?_⟩
  · intro t' ht'
    have hlen : c.threads.length ≤ t' := by simpa using ht'
    have hne : t ≠ t' := by
      rintro rfl
      have := (List.getElem?_eq_some_iff.mp ht).1
      omega
    rcases hg with rfl | hg
    · exact hc.fresh t' hlen
    · exact hA.guar_fresh hne hc.inv hg (hc.fresh t' hlen)
  · intro a b tha thb hab ha hb l hla
    by_cases hta : a = t
    · subst hta
      rw [getElem?_set_replaced ht] at ha
      cases ha
      rw [List.getElem?_set_ne hab] at hb
      exact (hlocks b thb hab.symm hb l).1 hla
    · rw [List.getElem?_set_ne (Ne.symm hta)] at ha
      by_cases htb : b = t
      · subst htb
        rw [getElem?_set_replaced ht] at hb
        cases hb
        exact (hlocks a tha hta ha l).2 hla
      · rw [List.getElem?_set_ne (Ne.symm htb)] at hb
        exact hc.apart a b tha thb hab ha hb l hla
  · intro l hfree
    have hnew : l ∉ th'.held := hfree th' (List.mem_of_getElem? (getElem?_set_replaced ht))
    by_cases hl : l ∈ th.held
    · exact hres l hl hnew
    · have hold : A.res l c.state := by
        refine hc.res l fun tha ha => ?_
        obtain ⟨a, ha⟩ := List.mem_iff_getElem?.mp ha
        by_cases hta : a = t
        · subst hta
          rw [ht] at ha
          cases ha
          exact hl
        · refine hfree tha (List.mem_of_getElem? (i := a) ?_)
          rw [List.getElem?_set_ne (Ne.symm hta)]
          exact ha
      rcases hg with rfl | hg
      · exact hold
      · exact hA.guar_res hl hc.inv hi hg hold
  · intro a tha ha
    by_cases hta : a = t
    · subst hta
      rw [getElem?_set_replaced ht] at ha
      cases ha
      exact hs
    · rw [List.getElem?_set_ne (Ne.symm hta)] at ha
      have hsafe := hc.safe a tha ha
      rcases hg with rfl | hg
      · exact hsafe
      · exact hsafe.stable hA (hA.guar_rely (Ne.symm hta)
          (hc.apart t a th tha (Ne.symm hta) ht ha) hc.inv hi hg)

/-- One allowed event keeps a pool sound. -/
theorem Sound.step (hA : A.Coherent)
    (hspawn : ∀ c p, ok c (.spawn p) → ∀ t s, A.inv s → A.fresh t s → Safe I A t (Q t) p [] s)
    (hassume : ∀ c t w β (e : E β) k h, ok c (.go t w) → c.threads[t]? = some ⟨.perform e k, h⟩ →
      A.assume e t c.state)
    (hcancel : ∀ c t e, ok c (.cancel t e) → ∀ s, A.inv s → Q t (.error e) [] s)
    (hcrash : ∀ c e, ok c (.crash e) → ∀ t s, A.inv s → Q t (.error e) [] s)
    (hlost : ∀ c, (∃ t e, ok c (.cancel t e)) ∨ (∃ e, ok c (.crash e)) → ∀ l, A.res l c.state)
    {c c' : Pool E L ε α σ} {ev : Event E L ε α ω} (hc : Sound I A Q c) (hok : ok c ev)
    (h : c.step I ev = some c') : Sound I A Q c' := by
  obtain ⟨p, rfl, rfl⟩ | ⟨t, w, β, e, k, held, s, b, rfl, ht, hh, rfl⟩ |
    ⟨t, w, l, k, held, rfl, ht, hfree, rfl⟩ | ⟨t, w, l, k, held, rfl, ht, rfl⟩ |
    ⟨t, e, rfl, hlt, rfl⟩ | ⟨e, rfl, rfl⟩ := step_cases h
  · -- A started thread holds nothing and finds the state fresh for its number.
    refine ⟨hc.inv, fun t ht => hc.fresh t (by simp at ht; omega), ?_, ?_, ?_⟩
    · intro a b tha thb hab ha hb l hla
      rcases getElem?_append_singleton ha with ha | ⟨_, rfl⟩
      · rcases getElem?_append_singleton hb with hb | ⟨_, rfl⟩
        · exact hc.apart a b tha thb hab ha hb l hla
        · simp
      · simp at hla
    · exact fun l hfree => hc.res l fun th hth => hfree th (List.mem_append_left _ hth)
    · intro a tha ha
      rcases getElem?_append_singleton ha with ha | ⟨hlen, rfl⟩
      · exact hc.safe a tha ha
      · exact hspawn c p hok a c.state hc.inv (hc.fresh a hlen)
  · have hsafe := hc.safe t _ ht
    obtain ⟨hg, hi, hk⟩ := (hsafe c.state (hA.rely_refl _ _ _) hc.inv
      (hassume c t w β e k held hok ht)).2 w s b hh
    exact hc.set hA ht (.inr hg) hi (fun t' th'' hne h'' l =>
      ⟨fun hl => hc.apart t t' _ th'' hne.symm ht h'' l hl, fun hl => hc.apart t' t th'' _ hne h'' ht l hl⟩)
      (fun l hl hn => absurd hl hn) hk
  · have hsafe := hc.safe t _ ht
    have hnew : l ∉ held := hfree _ (List.mem_of_getElem? ht)
    have hres := hc.res l hfree
    refine hc.set hA ht (.inl rfl) hc.inv ?_ (fun l' hl hn => absurd (List.mem_cons_of_mem l hl) hn)
      (hsafe c.state (hA.rely_refl _ _ _) hc.inv hnew hres)
    intro t' th'' hne h'' l'
    refine ⟨fun hl => ?_, fun hl => ?_⟩
    · rcases List.mem_cons.mp hl with rfl | hl
      · exact hfree _ (List.mem_of_getElem? h'')
      · exact hc.apart t t' _ th'' hne.symm ht h'' l' hl
    · intro hl'
      rcases List.mem_cons.mp hl' with rfl | hl'
      · exact hfree _ (List.mem_of_getElem? h'') hl
      · exact hc.apart t' t th'' _ hne h'' ht l' hl hl'
  · obtain ⟨hres, hk⟩ := hc.safe t _ ht c.state (hA.rely_refl _ _ _) hc.inv
    refine hc.set hA ht (.inl rfl) hc.inv ?_ ?_ hk
    · exact fun t' th'' hne h'' l' =>
        ⟨fun hl => hc.apart t t' _ th'' hne.symm ht h'' l' (List.mem_of_mem_erase hl),
          fun hl hl' => hc.apart t' t th'' _ hne h'' ht l' hl (List.mem_of_mem_erase hl')⟩
    · intro l' hl hn
      by_cases hll : l' = l
      · exact hll ▸ hres
      · exact absurd ((List.mem_erase_of_ne hll).mpr hl) hn
  · obtain ⟨th, ht⟩ : ∃ th, c.threads[t]? = some th := ⟨_, List.getElem?_eq_getElem hlt⟩
    refine hc.set hA ht (.inl rfl) hc.inv ?_ (fun l _ _ => hlost c (.inl ⟨t, e, hok⟩) l)
      (fun s _ hi => hcancel c t e hok s hi)
    intro t' th'' _ _ l'
    simp
  · refine ⟨hc.inv, fun t ht => hc.fresh t (by simpa using ht), ?_, fun l _ => hlost c (.inr ⟨e, hok⟩) l, ?_⟩
    · intro a b tha thb _ ha _ l hla
      simp only [List.getElem?_map, Option.map_eq_some_iff] at ha
      obtain ⟨_, _, rfl⟩ := ha
      simp at hla
    · intro a tha ha
      simp only [List.getElem?_map, Option.map_eq_some_iff] at ha
      obtain ⟨_, _, rfl⟩ := ha
      exact fun s _ hi => hcrash c e hok a s hi

/-- What a thread promises when it is about to perform an effect. -/
theorem Sound.pre (hA : A.Coherent) {c : Pool E L ε α σ} (hc : Sound I A Q c) {t : ℕ} {β : Type} {e : E β}
    {k : β → Prog E L ε α} {held : List L} (ht : c.threads[t]? = some ⟨.perform e k, held⟩)
    (ha : A.assume e t c.state) : A.pre e t held c.state :=
  (hc.safe t _ ht c.state (hA.rely_refl _ _ _) hc.inv ha).1

/-- Every event either leaves the state or is a guaranteed step of one thread. -/
theorem Sound.guar (hA : A.Coherent) {c c' : Pool E L ε α σ} {ev : Event E L ε α ω} (hc : Sound I A Q c)
    (hassume : ∀ t w β (e : E β) k h, ev = .go t w → c.threads[t]? = some ⟨.perform e k, h⟩ → A.assume e t c.state)
    (h : c.step I ev = some c') : c'.state = c.state ∨ ∃ t held, A.guar t held c.state c'.state := by
  obtain ⟨p, rfl, rfl⟩ | ⟨t, w, β, e, k, held, s, b, rfl, ht, hh, rfl⟩ |
    ⟨t, w, l, k, held, rfl, ht, hfree, rfl⟩ | ⟨t, w, l, k, held, rfl, ht, rfl⟩ |
    ⟨t, e, rfl, hlt, rfl⟩ | ⟨e, rfl, rfl⟩ := step_cases h
  · exact .inl rfl
  · exact .inr ⟨t, held, ((hc.safe t _ ht c.state (hA.rely_refl _ _ _) hc.inv
      (hassume t w β e k held rfl ht)).2 w s b hh).1⟩
  · exact .inl rfl
  · exact .inl rfl
  · exact .inl rfl
  · exact .inl rfl

/-- Every reachable pool is sound. -/
theorem Reachable.sound (hA : A.Coherent) {s₀ : σ} (hinit : A.inv s₀) (hfresh : ∀ t, A.fresh t s₀)
    (hres : ∀ l, A.res l s₀)
    (hspawn : ∀ c p, ok c (.spawn p) → ∀ t s, A.inv s → A.fresh t s → Safe I A t (Q t) p [] s)
    (hassume : ∀ c t w β (e : E β) k h, ok c (.go t w) → c.threads[t]? = some ⟨.perform e k, h⟩ →
      A.assume e t c.state)
    (hcancel : ∀ c t e, ok c (.cancel t e) → ∀ s, A.inv s → Q t (.error e) [] s)
    (hcrash : ∀ c e, ok c (.crash e) → ∀ t s, A.inv s → Q t (.error e) [] s)
    (hlost : ∀ c, (∃ t e, ok c (.cancel t e)) ∨ (∃ e, ok c (.crash e)) → ∀ l, A.res l c.state)
    {c : Pool E L ε α σ} (h : Reachable I ok s₀ c) : Sound I A Q c := by
  induction h with
  | init => exact ⟨hinit, fun t _ => hfresh t, by simp, fun l _ => hres l, by simp⟩
  | step _ ho hs ih => exact Sound.step hA hspawn hassume hcancel hcrash hlost ih ho hs

end Pool

end WorkerHarness.Coroutines
