import WorkerHarness.CachedRoutes
import WorkerHarness.CoroutineEffects
import Mathlib.Control.Monad.Basic

/-!
# Freshness of cached reads

A read that looks a key up after the key was dropped returns what was read from the database after
the commit before, or what a read stored late: one that had looked the key up in vain and read the
database before the commit, and stored its value after the key was dropped. Such a value is
returned until it expires.
-/

namespace WorkerHarness.CacheFreshness

open Coroutines Tunnels CachedRoutes

variable {s s' s'' : CacheWorld} {t t' : ℕ} {key : String} {β : Type}

/-- A lookup in vain, then the first read of the database, then the store. -/
structure Timely (copy : Copy) (clock : ℕ) : Prop where
  loaded : copy.startedAt < copy.loadedAt
  stored : copy.loadedAt < copy.storedAt
  past : copy.storedAt < clock

structure Held (s : CacheWorld) (key : String) (entry : Entry Copy) : Prop where
  timely : Timely entry.value s.clock
  expires : entry.expiresAt = entry.value.setAt + entry.value.ttl
  fresh : ∀ m j, (m, key, j) ∈ s.invalidations → j < entry.value.storedAt

/-- A read loaded its value itself, or found it in the cache. -/
structure Answered (s : CacheWorld) (r : CacheRead) : Prop where
  past : r.startedAt < s.clock
  timely : Timely r.copy s.clock
  source : r.copy.startedAt = r.startedAt ∨ r.copy.storedAt < r.startedAt ∧ r.readAt ≤ r.copy.setAt + r.copy.ttl ∧
    ∀ m j, (m, r.key, j) ∈ s.invalidations → j < r.startedAt → j < r.copy.storedAt

structure Consistent (s : CacheWorld) : Prop where
  begun : ∀ t, s.startedAt t < s.clock
  loading : ∀ t l, s.loadedAt t = some l → s.startedAt t < l ∧ l < s.clock
  dropped : ∀ m key j, (m, key, j) ∈ s.invalidations → j < s.clock
  entries : ∀ key entry, (key, entry) ∈ s.cache.store → Held s key entry
  served : ∀ t r, s.served t = some r → Answered s r

theorem Timely.mono {copy : Copy} {clock clock' : ℕ} (h : Timely copy clock) (hc : clock ≤ clock') :
    Timely copy clock' :=
  ⟨h.loaded, h.stored, h.past.trans_le hc⟩

structure Later (s s' : CacheWorld) : Prop where
  clock : s.clock ≤ s'.clock
  dropped : ∀ m key j, (m, key, j) ∈ s'.invalidations → (m, key, j) ∈ s.invalidations ∨ s.clock ≤ j ∧ j < s'.clock

theorem Answered.later {r : CacheRead} (h : Answered s r) (hl : Later s s') : Answered s' r := by
  refine ⟨h.past.trans_le hl.clock, h.timely.mono hl.clock, h.source.imp_right fun ⟨hstored, hread, hfresh⟩ => ?_⟩
  refine ⟨hstored, hread, fun m j hj hlt => ?_⟩
  rcases hl.dropped m r.key j hj with hold | ⟨hnew, -⟩
  · exact hfresh m j hold hlt
  · have hpast := h.past
    omega

theorem Held.later {entry : Entry Copy} (h : Held s key entry) (hl : Later s s')
    (hk : ∀ m j, (m, key, j) ∈ s'.invalidations → (m, key, j) ∈ s.invalidations) : Held s' key entry :=
  ⟨h.timely.mono hl.clock, h.expires, fun m j hj => h.fresh m j (hk m j hj)⟩

/-- What a step has to show to keep the invariant. -/
theorem Consistent.later (h : Consistent s) (hl : Later s s') (hbegun : ∀ t, s'.startedAt t < s'.clock)
    (hloading : ∀ t l, s'.loadedAt t = some l → s'.startedAt t < l ∧ l < s'.clock)
    (hentries : ∀ key entry, (key, entry) ∈ s'.cache.store → Held s' key entry)
    (hserved : ∀ t r, s'.served t = some r → s.served t = some r ∨ Answered s' r) : Consistent s' where
  begun := hbegun
  loading := hloading
  dropped m key j hj := by
    rcases hl.dropped m key j hj with hold | ⟨-, hnew⟩
    · exact (h.dropped m key j hold).trans_le hl.clock
    · exact hnew
  entries := hentries
  served t r hr := by
    rcases hserved t r hr with hold | hnew
    · exact (h.served t r hold).later hl
    · exact hnew

/-- A step that leaves the cache and its record alone. -/
theorem consistent_quiet (h : Consistent s) (hclock : s.clock ≤ s'.clock) (hcache : s'.cache = s.cache)
    (hinv : s'.invalidations = s.invalidations) (hstart : s'.startedAt = s.startedAt)
    (hload : s'.loadedAt = s.loadedAt)
    (hserved : s'.served = s.served) : Consistent s' := by
  have hl : Later s s' := ⟨hclock, fun m key j hj => .inl (hinv ▸ hj)⟩
  refine h.later hl (fun t => ?_) (fun t l ht => ?_) (fun key entry he => ?_) fun t r hr => .inl (hserved ▸ hr)
  · rw [hstart]
    exact (h.begun t).trans_le hclock
  · rw [hload] at ht
    rw [hstart]
    exact ⟨(h.loading t l ht).1, (h.loading t l ht).2.trans_le hclock⟩
  · rw [hcache] at he
    exact (h.entries key entry he).later hl fun m j hj => hinv ▸ hj

theorem consistent_load (h : Consistent s) : Consistent (s.load t).tick := by
  have hl : Later s (s.load t).tick := ⟨Nat.le_succ _, fun m key j hj => .inl hj⟩
  refine h.later hl (fun t' => (h.begun t').trans_le hl.clock) (fun t' l ht => ?_)
    (fun key entry he => (h.entries key entry he).later hl fun m j hj => hj) fun t' r hr => .inl hr
  simp only [CacheWorld.load, CacheWorld.tick] at ht ⊢
  split at ht
  · next heq =>
    subst heq
    cases hold : s.loadedAt t' with
    | none =>
      rw [hold] at ht
      cases ht
      exact ⟨h.begun t', Nat.lt_succ_self _⟩
    | some l' =>
      rw [hold] at ht
      cases ht
      exact ⟨(h.loading t' l hold).1, (h.loading t' l hold).2.trans (Nat.lt_succ_self _)⟩
  · exact ⟨(h.loading t' l ht).1, (h.loading t' l ht).2.trans (Nat.lt_succ_self _)⟩

theorem consistent_dropKey (h : Consistent s) : Consistent (s.dropKey t key).tick := by
  have hl : Later s (s.dropKey t key).tick := by
    refine ⟨Nat.le_succ _, fun m k j hj => ?_⟩
    rcases List.mem_cons.mp hj with hnew | hold
    · cases hnew
      exact .inr ⟨le_rfl, Nat.lt_succ_self _⟩
    · exact .inl hold
  refine h.later hl (fun t' => (h.begun t').trans_le hl.clock) (fun t' l ht => ?_) (fun k entry he => ?_)
    fun t' r hr => .inl hr
  · exact ⟨(h.loading t' l ht).1, (h.loading t' l ht).2.trans_le hl.clock⟩
  · -- What is left in the cache has another key.
    obtain ⟨hold, hne⟩ := TTLCache.mem_invalidate he
    refine (h.entries k entry hold).later hl fun m j hj => ?_
    rcases List.mem_cons.mp hj with hnew | hold
    · cases hnew
      exact absurd rfl hne
    · exact hold

theorem consistent_miss {now : ℚ} (h : Consistent s) : Consistent (s.miss t (s.cache.get key now).1).tick := by
  have hl : Later s (s.miss t (s.cache.get key now).1).tick := ⟨Nat.le_succ _, fun m k j hj => .inl hj⟩
  refine h.later hl (fun t' => ?_) (fun t' l ht => ?_)
    (fun k entry he => (h.entries k entry (TTLCache.get_store he)).later hl fun m j hj => hj) fun t' r hr => .inl hr
  · have hb := h.begun t'
    simp only [CacheWorld.miss, CacheWorld.tick]
    split <;> omega
  · simp only [CacheWorld.miss, CacheWorld.tick] at ht ⊢
    split at ht
    · cases ht
    · next hne =>
      rw [if_neg hne]
      exact ⟨(h.loading t' l ht).1, (h.loading t' l ht).2.trans (Nat.lt_succ_self _)⟩

/-- A hit returns a copy that was stored after every invalidation so far. -/
theorem consistent_hit {now : ℚ} {copy : Copy} (h : Consistent s) (hget : (s.cache.get key now).2 = some copy) :
    Consistent ((({ s with cache := (s.cache.get key now).1 } : CacheWorld).serve t
      { key := key, startedAt := s.clock, readAt := now, copy := copy }).tick) := by
  have hl : Later s ((({ s with cache := (s.cache.get key now).1 } : CacheWorld).serve t
      { key := key, startedAt := s.clock, readAt := now, copy := copy }).tick) :=
      ⟨Nat.le_succ _, fun m k j hj => .inl hj⟩
  refine h.later hl (fun t' => (h.begun t').trans_le hl.clock)
    (fun t' l ht => ⟨(h.loading t' l ht).1, (h.loading t' l ht).2.trans_le hl.clock⟩)
    (fun k entry he => (h.entries k entry (TTLCache.get_store he)).later hl fun m j hj => hj) fun t' r hr => ?_
  simp only [CacheWorld.serve, CacheWorld.tick] at hr
  split at hr
  · cases hr
    obtain ⟨entry, hmem, rfl, hlive⟩ := TTLCache.get_hit hget
    have hheld := h.entries key entry hmem
    refine .inr ⟨Nat.lt_succ_self _, hheld.timely.mono hl.clock,
      .inr ⟨hheld.timely.past, ?_, fun m j hj _ => hheld.fresh m j hj⟩⟩
    rw [← hheld.expires]
    exact hlive
  · exact .inl hr

/-- A thread that has read the database stores what it made of it. -/
theorem consistent_set {now ttl : ℚ} {value : CachedValue} (h : Consistent s) (hload : s.loadedAt t ≠ none) :
    Consistent ((({ s with cache := s.cache.set key (s.copyOf t value ttl now) ttl now } : CacheWorld).serve t
      { key := key, startedAt := s.startedAt t, readAt := now, copy := s.copyOf t value ttl now }).tick) := by
  obtain ⟨l, hl⟩ := Option.ne_none_iff_exists'.mp hload
  have htimely : Timely (s.copyOf t value ttl now) (s.clock + 1) := by
    obtain ⟨hstart, hclock⟩ := h.loading t l hl
    refine ⟨?_, ?_, Nat.lt_succ_self _⟩
    · simpa [CacheWorld.copyOf, hl] using hstart
    · simpa [CacheWorld.copyOf, hl] using hclock
  have hlater : Later s
    ((({ s with cache := s.cache.set key (s.copyOf t value ttl now) ttl now } : CacheWorld).serve t
      { key := key, startedAt := s.startedAt t, readAt := now, copy := s.copyOf t value ttl now }).tick) :=
    ⟨Nat.le_succ _, fun m k j hj => .inl hj⟩
  refine h.later hlater (fun t' => (h.begun t').trans_le hlater.clock)
    (fun t' l ht => ⟨(h.loading t' l ht).1, (h.loading t' l ht).2.trans_le hlater.clock⟩) (fun k entry he => ?_)
    fun t' r hr => ?_
  · rcases TTLCache.mem_set.mp he with ⟨hold, -⟩ | hnew
    · exact (h.entries k entry hold).later hlater fun m j hj => hj
    · cases hnew
      exact ⟨htimely, rfl, fun m j hj => h.dropped m key j hj⟩
  · simp only [CacheWorld.serve, CacheWorld.tick] at hr
    split at hr
    · cases hr
      exact .inr ⟨(h.begun t).trans_le hlater.clock, htimely, .inl rfl⟩
    · exact .inl hr

/-- Nobody else touches the record of a thread. -/
structure Own (t : ℕ) (s s' : CacheWorld) : Prop where
  served : s'.served t = s.served t
  loaded : s'.loadedAt t = s.loadedAt t

/-- The requests take no locks. -/
def contract : Contract CacheCall Empty CacheWorld where
  inv := Consistent
  fresh _ _ := True
  rely t _ := Own t
  guar t _ s s' := ∀ t', t' ≠ t → Own t' s s'
  assume _ _ _ := True
  pre _ _ _ _ := True

theorem Own.refl (t : ℕ) (s : CacheWorld) : Own t s s := ⟨rfl, rfl⟩

theorem Own.trans (h : Own t s s') (h' : Own t s' s'') : Own t s s'' :=
  ⟨h'.served.trans h.served, h'.loaded.trans h.loaded⟩

theorem contract_coherent : contract.Coherent where
  rely_refl t _ s := Own.refl t s
  rely_trans h h' := Own.trans h h'
  guar_rely hne _ _ _ hg := hg _ (Ne.symm hne)
  guar_fresh _ _ _ h := h
  guar_res _ _ _ _ h := h

/-- A value may be stored once the database has been read. -/
def allowed (t : ℕ) (s : CacheWorld) : {β : Type} → CacheCall β → Prop
  | _, .set _ _ _ => s.loadedAt t ≠ none
  | _, _ => True

theorem others_load : ∀ t', t' ≠ t → Own t' s (s.load t).tick := by
  intro t' hne
  exact ⟨rfl, by simp [CacheWorld.load, CacheWorld.tick, hne]⟩

theorem note_kept {e : TunnelCall β} {w : TunnelAnswer} (h : Consistent s) :
    Consistent (note e t w s).tick ∧ ∀ t', t' ≠ t → Own t' s (note e t w s).tick := by
  unfold note
  split
  · exact ⟨consistent_load h, others_load⟩
  · exact ⟨consistent_dropKey h, fun t' _ => ⟨rfl, rfl⟩⟩
  · split
    · exact ⟨consistent_quiet h (Nat.le_succ _) rfl rfl rfl rfl rfl, fun t' _ => ⟨rfl, rfl⟩⟩
    · exact ⟨consistent_quiet h (Nat.le_succ _) rfl rfl rfl rfl rfl, fun t' _ => ⟨rfl, rfl⟩⟩

/-- What one step of a thread does to the cache and to the record. -/
theorem cacheHandle_kept {e : CacheCall β} {w : CacheAnswer} {b : β} (h : Consistent s) (ha : allowed t s e)
    (hh : cacheHandle e t w s = some (s', b)) : Consistent s' ∧ ∀ t', t' ≠ t → Own t' s s' := by
  have hquiet : ∀ s' : CacheWorld, s.clock ≤ s'.clock → s'.cache = s.cache → s'.invalidations = s.invalidations →
      s'.startedAt = s.startedAt → s'.loadedAt = s.loadedAt → s'.served = s.served →
      Consistent s' ∧ ∀ t', t' ≠ t → Own t' s s' := fun s' hc hcache hinv hstart hload hserved =>
    ⟨consistent_quiet h hc hcache hinv hstart hload hserved, fun t' _ => ⟨congrFun hserved t', congrFun hload t'⟩⟩
  cases e with
  | get key =>
    cases w <;> try cases hh
    next now =>
      simp only [cacheHandle] at hh
      split at hh
      · next cache heq =>
        cases hh
        have hcache : cache = (s.cache.get key now).1 := by rw [heq]
        rw [hcache]
        refine ⟨consistent_miss h, fun t' hne => ⟨rfl, ?_⟩⟩
        simp [CacheWorld.miss, CacheWorld.tick, hne]
      · next cache copy heq =>
        cases hh
        have hcache : cache = (s.cache.get key now).1 := by rw [heq]
        rw [hcache]
        refine ⟨consistent_hit h (by rw [heq]), fun t' hne => ⟨?_, rfl⟩⟩
        simp [CacheWorld.serve, CacheWorld.tick, hne]
  | set key value ttl =>
    cases w <;> cases hh
    refine ⟨consistent_set h ha, fun t' hne => ⟨?_, rfl⟩⟩
    simp [CacheWorld.serve, CacheWorld.tick, hne]
  | invalidate key =>
    cases w <;> cases hh
    exact ⟨consistent_dropKey h, fun t' _ => ⟨rfl, rfl⟩⟩
  | listWorkers =>
    cases w <;> cases hh
    · exact ⟨consistent_load h, others_load⟩
    · exact hquiet _ (Nat.le_succ _) rfl rfl rfl rfl rfl
  | time =>
    cases w <;> cases hh
    exact hquiet _ (Nat.le_succ _) rfl rfl rfl rfl rfl
  | pruneWorkers olderThanTs =>
    cases w <;> cases hh
    · exact hquiet _ (Nat.le_succ _) rfl rfl rfl rfl rfl
    · next e executed => cases executed <;> exact hquiet _ (Nat.le_succ _) rfl rfl rfl rfl rfl
  | writeWorkers =>
    cases w <;> cases hh
    exact hquiet _ (Nat.le_succ _) rfl rfl rfl rfl rfl
  | tunnel e =>
    cases w <;> try cases hh
    next w =>
      simp only [cacheHandle] at hh
      split at hh
      · cases hh
      · cases hh
        obtain ⟨hc, hown⟩ := note_kept (t := t) (e := e) (w := w) h
        exact ⟨consistent_quiet hc le_rfl rfl rfl rfl rfl rfl,
          fun t' hne => ⟨(hown t' hne).served, (hown t' hne).loaded⟩⟩

/-- A read that has returned is on record. -/
def Recorded (t : ℕ) (r : Except TunnelError Response) (s : CacheWorld) : Prop :=
  ∀ key value, r = .ok (.cached key value) → ∃ ρ, s.served t = some ρ ∧ ρ.key = key ∧ ρ.copy.value = value

/-- The thread runs `p` from `s`, and ends where `Q` holds. -/
abbrev Goes {α : Type} (t : ℕ) (Q : Except TunnelError α → CacheWorld → Prop) (p : CacheM α)
    (s : CacheWorld) : Prop :=
  Safe cacheInterp contract t (fun r _ s => Q r s) p [] s

def Stable (t : ℕ) (J : CacheWorld → Prop) : Prop := ∀ s s', J s → Own t s s' → J s'

variable {α : Type} {J : CacheWorld → Prop} {Q : Except TunnelError α → CacheWorld → Prop} {e : CacheCall β}
  {k : β → CacheM α}

theorem goes_perform (hJ : Stable t J) (hs : J s)
    (h : ∀ w s s' b, J s → Consistent s → cacheHandle e t w s = some (s', b) → allowed t s e ∧ Goes t Q (k b) s') :
    Goes t Q (.perform e k) s := by
  intro s₁ hr hi _
  refine ⟨trivial, fun w s₂ b hh => ?_⟩
  obtain ⟨ha, hk⟩ := h w s₁ s₂ b (hJ s s₁ hs hr) hi hh
  obtain ⟨hc, hown⟩ := cacheHandle_kept hi ha hh
  exact ⟨hown, hc, hk⟩

theorem goes_bind {p : CacheM β} {f : β → CacheM α}
    (hp : Goes t (fun r s => match r with
      | .ok b => Goes t Q (f b) s
      | .error x => ∀ s', Own t s s' → Consistent s' → Q (.error x) s') p s) : Goes t Q (p.bind f) s := by
  refine Safe.bind contract_coherent (Safe.mono (fun r h s _ hq => ?_) hp)
  have hnil : h = [] := List.eq_nil_iff_forall_not_mem.mpr fun l _ => l.elim
  subst hnil
  cases r <;> exact hq

/-- The effects of the requests that only drop keys or write. -/
def Writes (β : Type) : CacheCall β → Prop
  | .set _ _ _ => False
  | _ => True

theorem allowed_of_writes (he : Writes β e) : allowed t s e := by
  cases e <;> trivial

/-- A loader has read the database when it returns. -/
def Loads (loader : CacheM CachedValue) : Prop :=
  ∀ t s, Consistent s → Goes t (fun r s => ∀ v, r = .ok v → s.loadedAt t ≠ none) loader s

theorem stable_loaded : Stable t fun s => s.loadedAt t ≠ none := by
  intro s s' h hr
  show s'.loadedAt t ≠ none
  rw [hr.loaded]
  exact h

theorem loads_ret {v : CachedValue} (h : s.loadedAt t ≠ none) :
    Goes t (fun r s => ∀ v, r = .ok v → s.loadedAt t ≠ none) (.ret v) s :=
  fun s' hr _ _ _ => stable_loaded s s' h hr

theorem loads_raise {x : TunnelError} :
    Goes t (fun r s => ∀ v : CachedValue, r = .ok v → s.loadedAt t ≠ none) (.raise x) s :=
  fun _ _ _ _ hv => nomatch hv

theorem load_loaded : (s.load t).tick.loadedAt t ≠ none := by
  simp only [CacheWorld.load, CacheWorld.tick, if_true]
  cases s.loadedAt t <;> exact Option.some_ne_none _

/-- A loader goes on with what it knows, or raises. -/
theorem goes_await {J : CacheWorld → Prop} {e : CacheCall (Except TunnelError β)} {k : β → CacheM CachedValue}
    (hJ : Stable t J) (hs : J s) (he : ∀ s, allowed t s e)
    (h : ∀ w s s' b, J s → cacheHandle e t w s = some (s', .ok b) →
      Goes t (fun r s => ∀ v, r = .ok v → s.loadedAt t ≠ none) (k b) s') :
    Goes t (fun r s => ∀ v, r = .ok v → s.loadedAt t ≠ none) ((Prog.await e).bind k) s := by
  refine goes_perform hJ hs fun w s s' r hs _ hh => ⟨he s, ?_⟩
  cases r with
  | ok b => exact h w s s' b hs hh
  | error x => exact loads_raise

theorem stable_true : Stable t fun _ => True := fun _ _ h _ => h

/-- `list_workers` reads the database. -/
theorem loads_listWorkers {f : List DataPaths.DataWorker → CachedValue} :
    Loads ((Prog.await .listWorkers).bind fun workers => .ret (f workers)) := by
  intro t s _
  refine goes_await stable_true trivial (fun _ => trivial) fun w s s' workers _ hh => loads_ret ?_
  cases w <;> cases hh
  exact load_loaded

/-- The rows of the tunnels are read first. -/
theorem loads_tunnels {f : List PortForward → List DataPaths.DataWorker → CachedValue} :
    Loads ((Prog.await (.tunnel .listPortForwards)).bind fun tunnels =>
      (Prog.await .listWorkers).bind fun workers => .ret (f tunnels workers)) := by
  intro t s _
  refine goes_await stable_true trivial (fun _ => trivial) fun w s s' tunnels _ hh => ?_
  have hload : s'.loadedAt t ≠ none := by
    cases w <;> try cases hh
    next w =>
      cases w <;> cases hh
      exact load_loaded
  refine goes_await stable_loaded hload (fun _ => trivial) fun w s s' workers _ hh => loads_ret ?_
  cases w <;> cases hh
  exact load_loaded

theorem stable_recorded {r : Except TunnelError Response} : Stable t (Recorded t r) := by
  intro s s' h hr key value heq
  obtain ⟨ρ, hserved, hkey, hvalue⟩ := h key value heq
  exact ⟨ρ, hr.served.trans hserved, hkey, hvalue⟩

/-- A read returns what it found under its key, or what it stored there. -/
theorem goes_cached {ttl : ℚ} {loader : CacheM CachedValue} (hl : Loads loader) :
    Goes t (Recorded t) (cached key ttl loader) s := by
  refine goes_perform stable_true trivial fun w s s' value _ hi hh => ⟨trivial, ?_⟩
  cases w <;> try cases hh
  next now =>
    have hc : Consistent s' := (cacheHandle_kept (e := .get key) hi trivial hh).1
    cases value with
    | some value =>
      refine fun s'' hr _ => stable_recorded s' s'' (fun key' value' heq => ?_) hr
      cases heq
      simp only [cacheHandle] at hh
      split at hh
      · cases hh
      · next cache copy heq =>
        cases hh
        exact ⟨{ key := key, startedAt := s.clock, readAt := now, copy := copy },
          by simp [CacheWorld.serve, CacheWorld.tick], rfl, rfl⟩
    | none =>
      show Goes t (Recorded t)
        (loader.bind fun value => .perform (.set key value ttl) fun _ => .ret (.cached key value)) s'
      refine goes_bind (Safe.mono (fun r _ s _ hq => ?_) (hl t s' hc))
      cases r with
      | error x => exact fun _ _ _ _ _ hv => nomatch hv
      | ok value =>
        refine goes_perform stable_loaded (hq value rfl) fun w s s' _ hload _ hh => ⟨hload, ?_⟩
        cases w <;> cases hh
        next now =>
          refine fun s'' hr _ => stable_recorded _ s'' (fun key' value' heq => ?_) hr
          cases heq
          exact ⟨{ key := key, startedAt := s.startedAt t, readAt := now, copy := s.copyOf t value ttl now },
            by simp [CacheWorld.serve, CacheWorld.tick], rfl, rfl⟩

/-- A request that stores nothing in the cache may do anything else, and returns no value. -/
theorem goes_done {p : CacheM Response} (hp : p.Performs (fun _ _ _ => True) Writes fun r => r = .done) :
    Goes t (Recorded t) p s := by
  refine Safe.mono (fun r _ s _ hq key value heq => ?_) (Safe.of_performs (J := fun _ => True)
    (fun _ _ _ _ _ _ _ => trivial) (fun _ _ _ _ _ => trivial)
      (fun β e he s hi _ _ => ⟨trivial, fun w s' b hh => ?_⟩)
    hp trivial)
  · exact nomatch hq.2.1 _ heq
  · obtain ⟨hc, hown⟩ := cacheHandle_kept hi (allowed_of_writes he) hh
    exact ⟨hown, hc, trivial⟩

theorem goes_request {p : CacheM Response} (hp : Request p) : Goes t (Recorded t) p s := by
  cases hp with
  | workersList => exact goes_cached loads_listWorkers
  | workersSummary => exact goes_cached loads_listWorkers
  | dataList includeOffline => exact goes_cached loads_listWorkers
  | tunnelsList => exact goes_cached loads_tunnels
  | workersPrune minutes =>
    refine goes_done ⟨trivial, fun now _ => ?_⟩
    refine (Prog.Performs.await (R := fun _ => True) trivial fun _ _ => trivial).bind fun _ _ => ?_
    exact ⟨trivial, fun _ _ => ⟨trivial, fun _ _ => ⟨trivial, fun _ _ => ⟨trivial, fun _ _ => rfl⟩⟩⟩⟩
  | @tunnel p hp =>
    have hlift : (p.lift CacheCall.tunnel).Performs (fun _ _ _ => True) Writes fun _ => True :=
      Prog.Performs.lift (Prog.Performs.of_lockless (V := fun _ _ _ => True)
        (P := fun _ _ => True) fun _ _ => trivial)
        (fun _ _ _ _ => trivial) fun _ _ _ => trivial
    exact goes_done (hlift.bind fun _ _ => rfl)
  | writeWorkers => exact goes_done ⟨trivial, fun _ _ => rfl⟩

/-- The server has just started: nothing is cached and nothing has happened. -/
structure Started (s : CacheWorld) : Prop where
  store : s.cache.store = []
  clock : 0 < s.clock
  invalidations : s.invalidations = []
  startedAt : ∀ t, s.startedAt t = 0
  loadedAt : ∀ t, s.loadedAt t = none
  served : ∀ t, s.served t = none

theorem consistent_started (h : Started s) : Consistent s where
  begun t := by
    rw [h.startedAt t]
    exact h.clock
  loading t l hl := by simp [h.loadedAt t] at hl
  dropped m key j hj := by simp [h.invalidations] at hj
  entries key entry he := by simp [h.store] at he
  served t r hr := by simp [h.served t] at hr

/-- In every run the invariant holds, and what has been returned is on record. -/
theorem sound_of_reachable {s₀ : CacheWorld} (h₀ : Started s₀) {c : CachePool}
    (hc : Pool.Reachable cacheInterp Serves s₀ c) :
    Pool.Sound cacheInterp contract (fun t r _ s => Recorded t r s) c :=
  Pool.Reachable.sound contract_coherent (consistent_started h₀) (fun _ => trivial) (fun l => l.elim)
    (fun _ _ hp _ _ _ _ => goes_request hp) (fun _ _ _ _ _ _ _ _ _ => trivial) (fun _ _ _ h => h.elim)
      (fun _ _ h => h.elim)
    (fun _ h => h.elim (fun ⟨_, _, h⟩ => h.elim) fun ⟨_, h⟩ => h.elim) hc

/-- The copy was stored late: by a read that had looked the key up and read the database before the
commit, after the key was dropped and before the read that returned it. It had not expired. -/
structure Overtaken (r : CacheRead) (i j : ℕ) : Prop where
  looked : r.copy.startedAt < i
  stored : j < r.copy.storedAt
  found : r.copy.storedAt < r.startedAt
  live : r.readAt ≤ r.copy.setAt + r.copy.ttl

/-- What a read returns after a request has committed at `i` and dropped the key at `j`: no value
whose loader read the database before the commit, unless its store was overtaken. -/
theorem fresh_or_overtaken {s₀ : CacheWorld} (h₀ : Started s₀) {c : CachePool}
    (hc : Pool.Reachable cacheInterp Serves s₀ c) {t : ℕ} {key : String} {value : CachedValue}
    (hdone : c.Finished t (.ok (.cached key value))) :
    ∃ r, c.state.served t = some r ∧ r.key = key ∧ r.copy.value = value ∧
      ∀ m i j, (m, i) ∈ c.state.commits → (m, key, j) ∈ c.state.invalidations → i < j → j < r.startedAt →
        r.copy.loadedAt < i → Overtaken r i j := by
  have hsound := sound_of_reachable h₀ hc
  obtain ⟨held, hthread⟩ := hdone
  obtain ⟨r, hserved, hkey, hvalue⟩ :=
    hsound.safe t _ hthread c.state (Own.refl _ _) hsound.inv key value rfl
  refine ⟨r, hserved, hkey, hvalue, fun m i j _ hdropped hij hstart hload => ?_⟩
  have hr := hsound.inv.served t r hserved
  have htimely := hr.timely.loaded
  rcases hr.source with hown | ⟨hstored, hlive, hfresh⟩
  · -- Its own loader ran after the lookup, and so after the commit.
    omega
  · exact ⟨htimely.trans hload, hfresh m j (hkey ▸ hdropped) hstart, hstored, hlive⟩

def oneTunnel : CacheWorld :=
  { tunnels := { portForwards := [{ id := "web", workerId := "w1", localPort := 8080, remotePort := 80 }] },
    workers := [{ id := "w1", name := "gpu-rig-1", status := .online }] }

theorem started_oneTunnel : Started oneTunnel := ⟨rfl, Nat.one_pos, rfl, fun _ => rfl, fun _ => rfl, fun _ => rfl⟩

def overtakenRun : List CacheEvent :=
  ([.spawn tunnelsList, .go 0 (.clock 0), .go 0 (.tunnel .done), .go 0 .done,
    .spawn (tunnelRequest (tunnelsDelete "web"))] : List CacheEvent) ++
    [.done, .done, .done, .done].map (fun w => .go 1 (.tunnel w)) ++
    ([.go 0 (.clock 1), .spawn tunnelsList, .go 2 (.clock 2)] : List CacheEvent)

def freshRun : List CacheEvent :=
  ([.spawn tunnelsList, .go 0 (.clock 0), .go 0 (.tunnel .done), .go 0 .done, .go 0 (.clock 1),
    .spawn (tunnelRequest (tunnelsDelete "web"))] : List CacheEvent) ++
    [.done, .done, .done, .done].map (fun w => .go 1 (.tunnel w)) ++
    ([.spawn tunnelsList, .go 2 (.clock 2), .go 2 (.tunnel .done), .go 2 .done, .go 2 (.clock 3)] : List CacheEvent)

theorem serves_freshRun (d : CachePool) : ∀ ev ∈ freshRun, Serves d ev := by
  intro ev hev
  simp only [freshRun, List.map_cons, List.map_nil, List.cons_append, List.nil_append, List.mem_cons,
    List.not_mem_nil,
    or_false] at hev
  rcases hev with rfl | rfl | rfl | rfl | rfl | rfl | rfl | rfl | rfl | rfl | rfl | rfl | rfl | rfl | rfl <;>
    first | exact .tunnelsList | exact .tunnel (.tunnelsDelete _) | trivial

theorem serves_overtakenRun (d : CachePool) : ∀ ev ∈ overtakenRun, Serves d ev := by
  intro ev hev
  simp only [overtakenRun, List.map_cons, List.map_nil, List.cons_append, List.nil_append, List.mem_cons,
    List.not_mem_nil, or_false] at hev
  rcases hev with rfl | rfl | rfl | rfl | rfl | rfl | rfl | rfl | rfl | rfl | rfl | rfl <;>
    first | exact .tunnelsList | exact .tunnel (.tunnelsDelete _) | trivial

theorem fresh_or_overtaken_freshRun : ∃ c : CachePool, c.state.commits = [(1, 7)] ∧
    c.state.invalidations = [(1, "tunnels:list", 8)] ∧
    ∃ r, c.state.served 2 = some r ∧ r.key = "tunnels:list" ∧ r.copy.value = .tunnels [] ∧
      ∀ m i j, (m, i) ∈ c.state.commits → (m, "tunnels:list", j) ∈ c.state.invalidations → i < j → j < r.startedAt →
        r.copy.loadedAt < i → Overtaken r i j := by
  have hrun : (Pool.run cacheInterp ⟨oneTunnel, []⟩ freshRun).map (fun c => c.result 2) =
      some (some (.ok (.cached "tunnels:list" (.tunnels [])))) := by decide +kernel
  have hmarks : (Pool.run cacheInterp ⟨oneTunnel, []⟩ freshRun).map
    (fun c => (c.state.commits, c.state.invalidations)) =
      some ([(1, 7)], [(1, "tunnels:list", 8)]) := by decide +kernel
  obtain ⟨c, hc, hresult⟩ := Option.map_eq_some_iff.mp hrun
  rw [hc, Option.map_some, Option.some.injEq, Prod.mk.injEq] at hmarks
  have hreach : Pool.Reachable cacheInterp Serves oneTunnel c := Pool.Reachable.run .init serves_freshRun hc
  exact ⟨c, hmarks.1, hmarks.2, fresh_or_overtaken started_oneTunnel hreach (Pool.finished_of_result hresult)⟩

/-- The deleted tunnel is listed after the key was dropped. -/
theorem not_fresh : ¬∀ (s₀ : CacheWorld) (c : CachePool) (t : ℕ) (key : String) (value : CachedValue), Started s₀ →
    Pool.Reachable cacheInterp Serves s₀ c → c.Finished t (.ok (.cached key value)) →
      ∃ r, c.state.served t = some r ∧ r.key = key ∧ r.copy.value = value ∧
        ∀ m i j, (m, i) ∈ c.state.commits → (m, key, j) ∈ c.state.invalidations → i < j → j < r.startedAt →
          ¬r.copy.loadedAt < i := by
  intro h
  have hrun : (Pool.run cacheInterp ⟨oneTunnel, []⟩ overtakenRun).map (fun c => c.result 2) =
      some (some (.ok (.cached "tunnels:list"
        (.tunnels [({ id := "web", workerId := "w1", localPort := 8080, remotePort := 80 },
          some "gpu-rig-1")])))) := by
    decide +kernel
  have hmarks : (Pool.run cacheInterp ⟨oneTunnel, []⟩ overtakenRun).map
    (fun c => (c.state.commits, c.state.invalidations)) =
      some ([(1, 6)], [(1, "tunnels:list", 7)]) := by decide +kernel
  have htimes : (Pool.run cacheInterp ⟨oneTunnel, []⟩ overtakenRun).map
      (fun c => (c.state.served 2).map fun r => (r.startedAt, r.copy.loadedAt)) = some (some (9, 2)) := by
        decide +kernel
  obtain ⟨c, hc, hresult⟩ := Option.map_eq_some_iff.mp hrun
  rw [hc, Option.map_some, Option.some.injEq, Prod.mk.injEq] at hmarks
  rw [hc, Option.map_some, Option.some.injEq] at htimes
  obtain ⟨hcommits, hdropped⟩ := hmarks
  have hreach : Pool.Reachable cacheInterp Serves oneTunnel c := Pool.Reachable.run .init serves_overtakenRun hc
  obtain ⟨r, hr, -, -, hfresh⟩ := h oneTunnel c 2 _ _ started_oneTunnel hreach (Pool.finished_of_result hresult)
  rw [hr, Option.map_some, Option.some.injEq, Prod.mk.injEq] at htimes
  refine hfresh 1 6 7 (by simp [hcommits]) (by simp [hdropped]) (by decide) ?_ ?_
  · rw [htimes.1]
    decide
  · rw [htimes.2]
    decide

end WorkerHarness.CacheFreshness
