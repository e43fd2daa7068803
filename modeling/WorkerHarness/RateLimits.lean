import WorkerHarness.KeyedLists
import Mathlib.Algebra.Order.Field.Rat
import Mathlib.Tactic.Linarith
import Mathlib.Tactic.Positivity
import Mathlib.Tactic.FieldSimp

/-!
# Rate limits

Each agent has a bucket of tokens that is refilled as time passes. A call takes one token, or is refused
with the time after which there is one again.
-/

namespace WorkerHarness.RateLimits

open KeyedLists

/-- `_Bucket`. -/
structure Bucket where
  tokens : ℚ
  lastRefillAt : ℚ
  deriving DecidableEq

structure TokenBucket where
  capacity : ℚ
  refillRate : ℚ
  state : Bucket
  deriving DecidableEq

/-- `TokenBucket(capacity, refill_rate)`. -/
def TokenBucket.make (capacity refillRate now : ℚ) : TokenBucket :=
  { capacity := capacity, refillRate := refillRate, state := { tokens := capacity, lastRefillAt := now } }

/-- The first half of `try_consume`. -/
def TokenBucket.refill (bucket : TokenBucket) (now : ℚ) : TokenBucket :=
  let elapsed := now - bucket.state.lastRefillAt
  { bucket with
    state :=
      { tokens := min bucket.capacity (bucket.state.tokens + elapsed * bucket.refillRate), lastRefillAt := now } }

/-- `try_consume` with the bucket that it leaves. -/
def TokenBucket.tryConsume (bucket : TokenBucket) (n now : ℚ) : (Bool × ℚ) × TokenBucket :=
  let bucket := bucket.refill now
  if n ≤ bucket.state.tokens then
    ((true, 0), { bucket with state := { bucket.state with tokens := bucket.state.tokens - n } })
  else
    let deficit := n - bucket.state.tokens
    ((false, deficit / bucket.refillRate), bucket)

structure RateLimited where
  agent : String
  retryAfterSeconds : ℚ
  deriving DecidableEq

structure AgentRateLimiter where
  capacity : ℚ
  refillRate : ℚ
  buckets : List (String × TokenBucket) := []
  deriving DecidableEq

/-- `_get_or_create`; a new bucket reads the clock. -/
def AgentRateLimiter.getOrCreate (limiter : AgentRateLimiter) (agent : String) (monotonic : ℚ) :
    TokenBucket × AgentRateLimiter :=
  match limiter.buckets.lookup agent with
  | some bucket => (bucket, limiter)
  | none =>
    let bucket := TokenBucket.make limiter.capacity limiter.refillRate monotonic
    (bucket, { limiter with buckets := limiter.buckets ++ [(agent, bucket)] })

/-- A call of `check`: when a new bucket reads the clock, and when `try_consume` does. -/
structure Call where
  agent : String
  createdAt : ℚ
  now : ℚ
  deriving DecidableEq

def AgentRateLimiter.check (limiter : AgentRateLimiter) (call : Call) :
    Except RateLimited Unit × AgentRateLimiter :=
  let (bucket, limiter) := limiter.getOrCreate call.agent call.createdAt
  let ((ok, retryAfter), bucket) := bucket.tryConsume 1 call.now
  let limiter := { limiter with buckets := setValue call.agent bucket limiter.buckets }
  if ok then (.ok (), limiter) else (.error { agent := call.agent, retryAfterSeconds := retryAfter }, limiter)

def AgentRateLimiter.run (limiter : AgentRateLimiter) :
    List Call → List (Call × Except RateLimited Unit) × AgentRateLimiter
  | [] => ([], limiter)
  | call :: calls =>
    let (result, limiter) := limiter.check call
    let (results, limiter) := limiter.run calls
    ((call, result) :: results, limiter)

def AgentRateLimiter.outcomes (limiter : AgentRateLimiter) (calls : List Call) :
    List (Call × Except RateLimited Unit) :=
  (limiter.run calls).1

def AgentRateLimiter.after (limiter : AgentRateLimiter) (calls : List Call) : AgentRateLimiter :=
  (limiter.run calls).2

/-- The clock does not go back. -/
structure Timely (calls : List Call) : Prop where
  created : ∀ call ∈ calls, call.createdAt ≤ call.now
  ordered : calls.Pairwise fun call later => call.now ≤ later.now

section Refilling

def refilled (capacity rate tokens elapsed : ℚ) : ℚ := min capacity (tokens + elapsed * rate)

variable {capacity rate tokens elapsed elapsed' n : ℚ}

theorem refilled_le_capacity : refilled capacity rate tokens elapsed ≤ capacity := min_le_left _ _

theorem refilled_le : refilled capacity rate tokens elapsed ≤ tokens + elapsed * rate := min_le_right _ _

theorem le_refilled (hrate : 0 ≤ rate) (hle : tokens ≤ capacity) (hpos : 0 ≤ elapsed) :
    tokens ≤ refilled capacity rate tokens elapsed := by
  have hgain : 0 ≤ elapsed * rate := mul_nonneg hpos hrate
  apply le_min hle
  linarith

/-- A refill may be made at once or in two parts. -/
theorem refilled_add (hrate : 0 ≤ rate) (hpos : 0 ≤ elapsed') :
    refilled capacity rate (refilled capacity rate tokens elapsed) elapsed' =
      refilled capacity rate tokens (elapsed + elapsed') := by
  have hgain : 0 ≤ elapsed' * rate := mul_nonneg hpos hrate
  have hcap : capacity ≤ capacity + elapsed' * rate := by linarith
  unfold refilled
  rw [min_add, ← min_assoc, min_eq_left hcap, add_mul, add_assoc]

/-- There is enough after exactly the time in which the deficit comes in. -/
theorem le_refilled_iff (hrate : 0 < rate) (hn : n ≤ capacity) :
    n ≤ refilled capacity rate tokens elapsed ↔ (n - tokens) / rate ≤ elapsed := by
  have henough : n ≤ tokens + elapsed * rate ↔ (n - tokens) / rate ≤ elapsed := by
    rw [div_le_iff₀ hrate]
    constructor
    · intro h
      linarith
    · intro h
      linarith
  rw [refilled, le_min_iff, henough]
  exact and_iff_right hn

end Refilling

namespace AgentRateLimiter

variable {limiter limiter' : AgentRateLimiter} {agent agent' : String} {call : Call} {bucket : TokenBucket}
    {since t e : ℚ}

def level (limiter : AgentRateLimiter) (agent : String) (now : ℚ) : ℚ :=
  match limiter.buckets.lookup agent with
  | none => limiter.capacity
  | some bucket =>
    refilled limiter.capacity limiter.refillRate bucket.state.tokens (now - bucket.state.lastRefillAt)

/-- The limiter after the calls up to a time. -/
structure Sound (limiter : AgentRateLimiter) (since : ℚ) : Prop where
  capacity : 1 ≤ limiter.capacity
  rate : 0 < limiter.refillRate
  own_capacity : ∀ {agent bucket}, limiter.buckets.lookup agent = some bucket → bucket.capacity = limiter.capacity
  own_rate : ∀ {agent bucket}, limiter.buckets.lookup agent = some bucket → bucket.refillRate = limiter.refillRate
  nonneg : ∀ {agent bucket}, limiter.buckets.lookup agent = some bucket → 0 ≤ bucket.state.tokens
  le_capacity : ∀ {agent bucket}, limiter.buckets.lookup agent = some bucket →
    bucket.state.tokens ≤ limiter.capacity
  refilled_at : ∀ {agent bucket}, limiter.buckets.lookup agent = some bucket → bucket.state.lastRefillAt ≤ since

def refilledBucket (limiter : AgentRateLimiter) (agent : String) (now : ℚ) : TokenBucket :=
  { capacity := limiter.capacity, refillRate := limiter.refillRate,
    state := { tokens := limiter.level agent now, lastRefillAt := now } }

theorem lookup_append_of_none {l : List (String × TokenBucket)} (h : l.lookup agent = none) :
    (l ++ [(agent, bucket)]).lookup agent' = if agent' = agent then some bucket else l.lookup agent' := by
  rw [List.lookup_append, lookup_cons_eq]
  by_cases heq : agent' = agent
  · rw [heq, h, if_pos rfl, if_pos rfl]
    rfl
  · rw [if_neg heq, if_neg heq]
    simp

/-- A call finds the refilled bucket of its agent. -/
theorem getOrCreate_refill (hs : Sound limiter since) (hcreated : call.createdAt ≤ call.now) :
    (limiter.getOrCreate call.agent call.createdAt).1.refill call.now =
    limiter.refilledBucket call.agent call.now := by
  unfold getOrCreate refilledBucket level
  cases hlookup : limiter.buckets.lookup call.agent with
  | some bucket =>
    simp only [TokenBucket.refill, hs.own_capacity hlookup, hs.own_rate hlookup]
    rfl
  | none =>
    have hgain : 0 ≤ (call.now - call.createdAt) * limiter.refillRate :=
      mul_nonneg (sub_nonneg.mpr hcreated) hs.rate.le
    have hfull : min limiter.capacity (limiter.capacity + (call.now - call.createdAt) * limiter.refillRate) =
        limiter.capacity := min_eq_left (by linarith)
    simp only [TokenBucket.refill, TokenBucket.make, hfull]

/-- The tokens that a call leaves. -/
def left (limiter : AgentRateLimiter) (call : Call) : ℚ :=
  if 1 ≤ limiter.level call.agent call.now then limiter.level call.agent call.now - 1
  else limiter.level call.agent call.now

def leftBucket (limiter : AgentRateLimiter) (call : Call) : TokenBucket :=
  { limiter.refilledBucket call.agent call.now with
    state := { tokens := limiter.left call, lastRefillAt := call.now } }

theorem lookup_getOrCreate : (limiter.getOrCreate call.agent t).2.buckets.lookup agent =
    if agent = call.agent then some (limiter.getOrCreate call.agent t).1 else limiter.buckets.lookup agent := by
  unfold getOrCreate
  cases hlookup : limiter.buckets.lookup call.agent with
  | some bucket =>
    by_cases heq : agent = call.agent
    · rw [if_pos heq, heq, hlookup]
    · rw [if_neg heq]
  | none => exact lookup_append_of_none hlookup

theorem getOrCreate_same : (limiter.getOrCreate agent t).2.capacity = limiter.capacity ∧
    (limiter.getOrCreate agent t).2.refillRate = limiter.refillRate := by
  unfold getOrCreate
  cases limiter.buckets.lookup agent <;> exact ⟨rfl, rfl⟩

theorem tryConsume_refilledBucket (h : bucket.refill call.now = limiter.refilledBucket call.agent call.now) :
    bucket.tryConsume 1 call.now = (if 1 ≤ limiter.level call.agent call.now then (true, 0)
      else (false, (1 - limiter.level call.agent call.now) / limiter.refillRate), limiter.leftBucket call) := by
  unfold TokenBucket.tryConsume leftBucket left
  rw [h]
  by_cases hle : 1 ≤ limiter.level call.agent call.now
  · have hle' : 1 ≤ (limiter.refilledBucket call.agent call.now).state.tokens := hle
    rw [if_pos hle, if_pos hle]
    exact if_pos hle'
  · have hle' : ¬1 ≤ (limiter.refilledBucket call.agent call.now).state.tokens := hle
    rw [if_neg hle, if_neg hle]
    exact if_neg hle'

/-- The bucket of the caller is written, and nothing else. -/
theorem check_limiter (hs : Sound limiter since) (hcreated : call.createdAt ≤ call.now) :
    (limiter.check call).2 = { (limiter.getOrCreate call.agent call.createdAt).2 with
      buckets :=
        setValue call.agent (limiter.leftBucket call) (limiter.getOrCreate call.agent call.createdAt).2.buckets } := by
  unfold check
  simp only [tryConsume_refilledBucket (getOrCreate_refill hs hcreated)]
  split <;> rfl

theorem lookup_check (hs : Sound limiter since) (hcreated : call.createdAt ≤ call.now) :
    (limiter.check call).2.buckets.lookup agent =
      if agent = call.agent then some (limiter.leftBucket call) else limiter.buckets.lookup agent := by
  rw [check_limiter hs hcreated, lookup_setValue, lookup_getOrCreate]
  by_cases heq : agent = call.agent
  · rw [if_pos heq, if_pos heq, if_pos heq]
    rfl
  · rw [if_neg heq, if_neg heq, if_neg heq]

theorem check_same (hs : Sound limiter since) (hcreated : call.createdAt ≤ call.now) :
    (limiter.check call).2.capacity = limiter.capacity ∧
    (limiter.check call).2.refillRate = limiter.refillRate := by
  rw [check_limiter hs hcreated]
  exact getOrCreate_same

/-- The level of the caller decides. -/
theorem check_outcome (hs : Sound limiter since) (hcreated : call.createdAt ≤ call.now) :
    (limiter.check call).1 = if 1 ≤ limiter.level call.agent call.now then .ok () else
      .error
        { agent := call.agent, retryAfterSeconds := (1 - limiter.level call.agent call.now) / limiter.refillRate } := by
  unfold check
  simp only [tryConsume_refilledBucket (getOrCreate_refill hs hcreated)]
  by_cases hle : 1 ≤ limiter.level call.agent call.now
  · simp only [if_pos hle, if_true]
  · simp only [if_neg hle, Bool.false_eq_true, if_false]

theorem check_ok_iff (hs : Sound limiter since) (hcreated : call.createdAt ≤ call.now) :
    (limiter.check call).1 = .ok () ↔ 1 ≤ limiter.level call.agent call.now := by
  rw [check_outcome hs hcreated]
  by_cases hle : 1 ≤ limiter.level call.agent call.now
  · simp [hle]
  · simp [hle]

theorem level_nonneg (hs : Sound limiter since) (hle : since ≤ t) : 0 ≤ limiter.level agent t := by
  unfold level
  cases hlookup : limiter.buckets.lookup agent with
  | none =>
    have hcap := hs.capacity
    exact le_trans zero_le_one hcap
  | some bucket =>
    have helapsed : 0 ≤ t - bucket.state.lastRefillAt := sub_nonneg.mpr ((hs.refilled_at hlookup).trans hle)
    exact (hs.nonneg hlookup).trans (le_refilled hs.rate.le (hs.le_capacity hlookup) helapsed)

theorem level_le_capacity : limiter.level agent t ≤ limiter.capacity := by
  unfold level
  cases limiter.buckets.lookup agent with
  | none => exact le_refl _
  | some bucket => exact refilled_le_capacity

theorem left_nonneg (hs : Sound limiter since) (hle : since ≤ call.now) : 0 ≤ limiter.left call := by
  unfold left
  split
  · next h => exact sub_nonneg.mpr h
  · exact level_nonneg hs hle

theorem left_le_level : limiter.left call ≤ limiter.level call.agent call.now := by
  unfold left
  split
  · exact sub_le_self _ zero_le_one
  · exact le_refl _

/-- A call keeps the limiter sound. -/
theorem Sound.check (hs : Sound limiter since) (hcreated : call.createdAt ≤ call.now) (hle : since ≤ call.now) :
    Sound (limiter.check call).2 call.now := by
  have hsame := check_same hs hcreated
  have hcases : ∀ {agent bucket}, (limiter.check call).2.buckets.lookup agent = some bucket →
      bucket = limiter.leftBucket call ∨ limiter.buckets.lookup agent = some bucket := by
    intro agent bucket h
    rw [lookup_check hs hcreated] at h
    split at h
    · exact .inl (Option.some.inj h).symm
    · exact .inr h
  constructor
  · rw [hsame.1]
    exact hs.capacity
  · rw [hsame.2]
    exact hs.rate
  · intro agent bucket h
    rw [hsame.1]
    rcases hcases h with rfl | h
    · rfl
    · exact hs.own_capacity h
  · intro agent bucket h
    rw [hsame.2]
    rcases hcases h with rfl | h
    · rfl
    · exact hs.own_rate h
  · intro agent bucket h
    rcases hcases h with rfl | h
    · exact left_nonneg hs hle
    · exact hs.nonneg h
  · intro agent bucket h
    rw [hsame.1]
    rcases hcases h with rfl | h
    · exact left_le_level.trans level_le_capacity
    · exact hs.le_capacity h
  · intro agent bucket h
    rcases hcases h with rfl | h
    · exact le_refl _
    · exact (hs.refilled_at h).trans hle

/-- The level of the caller after its call. -/
theorem level_check_self (hs : Sound limiter since) (hcreated : call.createdAt ≤ call.now) :
    (limiter.check call).2.level call.agent t =
      refilled limiter.capacity limiter.refillRate (limiter.left call) (t - call.now) := by
  unfold level
  rw [lookup_check hs hcreated, if_pos rfl, (check_same hs hcreated).1, (check_same hs hcreated).2]
  rfl

theorem level_check_of_ne (hs : Sound limiter since) (hcreated : call.createdAt ≤ call.now)
    (hne : agent ≠ call.agent) :
    (limiter.check call).2.level agent t = limiter.level agent t := by
  unfold level
  rw [lookup_check hs hcreated, if_neg hne, (check_same hs hcreated).1, (check_same hs hcreated).2]

/-- The level at a later time. -/
theorem level_add (hs : Sound limiter since) (hle : t ≤ e) :
    limiter.level agent e = refilled limiter.capacity limiter.refillRate (limiter.level agent t) (e - t) := by
  have hpos : 0 ≤ e - t := sub_nonneg.mpr hle
  unfold level
  cases limiter.buckets.lookup agent with
  | none =>
    have hgain : 0 ≤ (e - t) * limiter.refillRate := mul_nonneg hpos hs.rate.le
    symm
    apply min_eq_left
    linarith
  | some bucket =>
    have helapsed : t - bucket.state.lastRefillAt + (e - t) = e - bucket.state.lastRefillAt := by linarith
    rw [refilled_add hs.rate.le hpos, helapsed]

theorem level_le_add (hs : Sound limiter since) (hle : t ≤ e) :
    limiter.level agent e ≤ limiter.level agent t + (e - t) * limiter.refillRate := by
  rw [level_add hs hle]
  exact refilled_le

variable {calls done rest between : List Call} {retry : Call}

@[simp] theorem outcomes_nil : limiter.outcomes [] = [] := rfl

@[simp] theorem outcomes_cons : limiter.outcomes (call :: calls) =
    (call, (limiter.check call).1) :: (limiter.check call).2.outcomes calls := by
  simp only [outcomes, run]

@[simp] theorem after_nil : limiter.after [] = limiter := rfl

@[simp] theorem after_cons : limiter.after (call :: calls) = (limiter.check call).2.after calls := by
  simp only [after, run]

theorem outcomes_append : limiter.outcomes (done ++ rest) = limiter.outcomes done ++
    (limiter.after done).outcomes rest := by
  induction done generalizing limiter with
  | nil => rfl
  | cons call done ih =>
    rw [List.cons_append, outcomes_cons, outcomes_cons, ih, after_cons, List.cons_append]

theorem after_append : limiter.after (done ++ rest) = (limiter.after done).after rest := by
  induction done generalizing limiter with
  | nil => rfl
  | cons call done ih => rw [List.cons_append, after_cons, after_cons, ih]

theorem timely_cons_iff : Timely (call :: calls) ↔
    call.createdAt ≤ call.now ∧ (∀ later ∈ calls, call.now ≤ later.now) ∧ Timely calls := by
  constructor
  · intro h
    have hordered := List.pairwise_cons.mp h.ordered
    exact ⟨h.created call List.mem_cons_self, hordered.1,
      ⟨fun later hlater => h.created later (List.mem_cons_of_mem _ hlater), hordered.2⟩⟩
  · intro ⟨hcreated, hlater, h⟩
    constructor
    · intro c hc
      rcases List.mem_cons.mp hc with rfl | hc
      · exact hcreated
      · exact h.created c hc
    · exact List.pairwise_cons.mpr ⟨hlater, h.ordered⟩

theorem Sound.mono (hs : Sound limiter since) (hle : since ≤ t) : Sound limiter t :=
  { hs with refilled_at := fun h => (hs.refilled_at h).trans hle }

/-- The limiter is sound after a part of the run, until its next call. -/
theorem Sound.after (hs : Sound limiter since) (ht : Timely (done ++ rest))
    (hsince : ∀ c ∈ done ++ rest, since ≤ c.now) :
    ∃ last, Sound (limiter.after done) last ∧ ∀ c ∈ rest, last ≤ c.now := by
  induction done generalizing limiter since with
  | nil => exact ⟨since, hs, hsince⟩
  | cons call done ih =>
    obtain ⟨hcreated, hlater, ht⟩ := timely_cons_iff.mp ht
    rw [after_cons]
    exact ih (hs.check hcreated (hsince call List.mem_cons_self)) ht hlater

theorem after_same (hs : Sound limiter since) (ht : Timely calls) (hsince : ∀ c ∈ calls, since ≤ c.now) :
    (limiter.after calls).capacity = limiter.capacity ∧ (limiter.after calls).refillRate = limiter.refillRate := by
  induction calls generalizing limiter since with
  | nil => exact ⟨rfl, rfl⟩
  | cons call calls ih =>
    obtain ⟨hcreated, hlater, ht⟩ := timely_cons_iff.mp ht
    have hsame := ih (hs.check hcreated (hsince call List.mem_cons_self)) ht hlater
    rw [after_cons, hsame.1, hsame.2]
    exact check_same hs hcreated

/-- The calls of others do not change the level of an agent. -/
theorem level_after_of_ne (hs : Sound limiter since) (ht : Timely calls) (hsince : ∀ c ∈ calls, since ≤ c.now)
    (hne : ∀ c ∈ calls, c.agent ≠ agent) : (limiter.after calls).level agent t = limiter.level agent t := by
  induction calls generalizing limiter since with
  | nil => rfl
  | cons call calls ih =>
    obtain ⟨hcreated, hlater, ht⟩ := timely_cons_iff.mp ht
    have hsound := hs.check hcreated (hsince call List.mem_cons_self)
    rw [after_cons, ih hsound ht hlater fun c hc => hne c (List.mem_cons_of_mem _ hc)]
    exact level_check_of_ne hs hcreated (hne call List.mem_cons_self).symm

def admittedIn (limiter : AgentRateLimiter) (agent : String) (t e : ℚ) (calls : List Call) : ℕ :=
  ((limiter.outcomes calls).filter fun o => o.1.agent = agent ∧ o.2.isOk ∧ t ≤ o.1.now ∧ o.1.now ≤ e).length

theorem admittedIn_cons : limiter.admittedIn agent t e (call :: calls) =
    (if call.agent = agent ∧ (limiter.check call).1.isOk ∧ t ≤ call.now ∧ call.now ≤ e then 1 else 0) +
      (limiter.check call).2.admittedIn agent t e calls := by
  unfold admittedIn
  rw [outcomes_cons, List.filter_cons]
  by_cases h : call.agent = agent ∧ (limiter.check call).1.isOk ∧ t ≤ call.now ∧ call.now ≤ e
  · simp [h, Nat.add_comm]
  · simp [h]

theorem isOk_check_iff (hs : Sound limiter since) (hcreated : call.createdAt ≤ call.now) :
    (limiter.check call).1.isOk ↔ 1 ≤ limiter.level call.agent call.now := by
  rw [← check_ok_iff hs hcreated]
  cases (limiter.check call).1 with
  | ok _ => exact iff_of_true rfl rfl
  | error _ => exact iff_of_false Bool.false_ne_true nofun

/-- Nothing is admitted between two times by calls that come later. -/
theorem admittedIn_eq_zero (hlate : ∀ c ∈ calls, e < c.now) : limiter.admittedIn agent t e calls = 0 := by
  induction calls generalizing limiter with
  | nil => rfl
  | cons call calls ih =>
    have hnow := hlate call List.mem_cons_self
    rw [admittedIn_cons, if_neg fun h => not_le_of_gt hnow h.2.2.2, zero_add]
    exact ih fun c hc => hlate c (List.mem_cons_of_mem _ hc)

/-- One call takes what it admits out of the level of its agent. -/
theorem level_after_call (hs : Sound limiter since) (hcreated : call.createdAt ≤ call.now) :
    (limiter.check call).2.level agent call.now =
      limiter.level agent call.now - if call.agent = agent ∧ (limiter.check call).1.isOk then 1 else 0 := by
  by_cases heq : agent = call.agent
  · subst heq
    have hfull : refilled limiter.capacity limiter.refillRate (limiter.left call) 0 = limiter.left call := by
      unfold refilled
      rw [zero_mul, add_zero]
      exact min_eq_right (left_le_level.trans level_le_capacity)
    rw [level_check_self hs hcreated, sub_self, hfull, left]
    simp only [isOk_check_iff hs hcreated, true_and]
    split <;> simp
  · rw [level_check_of_ne hs hcreated heq, if_neg (fun h => heq h.1.symm), sub_zero]

/-- From any state, the level and what comes in bound the calls that are admitted. -/
theorem admittedIn_le_level (hs : Sound limiter since) (ht : Timely calls) (hsince : ∀ c ∈ calls, since ≤ c.now)
    (hle : since ≤ e) :
    (limiter.admittedIn agent t e calls : ℚ) ≤ limiter.level agent since + (e - since) * limiter.refillRate := by
  have hgain {u : ℚ} (hu : u ≤ e) : 0 ≤ (e - u) * limiter.refillRate := mul_nonneg (sub_nonneg.mpr hu) hs.rate.le
  induction calls generalizing limiter since with
  | nil =>
    have hlevel : 0 ≤ limiter.level agent since := level_nonneg hs (le_refl since)
    have hzero : (limiter.admittedIn agent t e [] : ℚ) = 0 := by simp [admittedIn]
    rw [hzero]
    exact add_nonneg hlevel (hgain hle)
  | cons call calls ih =>
    obtain ⟨hcreated, hlater, ht⟩ := timely_cons_iff.mp ht
    have hnow := hsince call List.mem_cons_self
    have hsound := hs.check hcreated hnow
    have hsame := check_same hs hcreated
    have hlevel : limiter.level agent call.now ≤ limiter.level agent since +
      (call.now - since) * limiter.refillRate :=
      level_le_add hs hnow
    rw [admittedIn_cons]
    by_cases hend : call.now ≤ e
    · have hrest := ih hsound ht hlater hend (by rw [hsame.2]; exact hgain)
      rw [hsame.2, level_after_call hs hcreated] at hrest
      have hone : (if call.agent = agent ∧ (limiter.check call).1.isOk ∧ t ≤ call.now ∧
        call.now ≤ e then (1 : ℚ) else 0) ≤
          if call.agent = agent ∧ (limiter.check call).1.isOk then 1 else 0 := by
        split
        · next h => rw [if_pos ⟨h.1, h.2.1⟩]
        · split <;> norm_num
      push_cast
      linarith
    · have hnone : limiter.admittedIn agent t e (call :: calls) = 0 := by
        apply admittedIn_eq_zero
        intro c hc
        rcases List.mem_cons.mp hc with rfl | hc
        · exact lt_of_not_ge hend
        · exact lt_of_lt_of_le (lt_of_not_ge hend) (hlater c hc)
      rw [← admittedIn_cons, hnone, Nat.cast_zero]
      exact add_nonneg (level_nonneg hs (le_refl since)) (hgain hle)

/-- In every window the capacity and what comes in bound the calls that are admitted. -/
theorem admittedIn_le (hs : Sound limiter since) (ht : Timely calls) (hsince : ∀ c ∈ calls, since ≤ c.now)
    (hle : t ≤ e) :
    (limiter.admittedIn agent t e calls : ℚ) ≤ limiter.capacity + (e - t) * limiter.refillRate := by
  have hgain : 0 ≤ (e - t) * limiter.refillRate := mul_nonneg (sub_nonneg.mpr hle) hs.rate.le
  have hbounds : 0 ≤ limiter.capacity + (e - t) * limiter.refillRate :=
    add_nonneg (zero_le_one.trans hs.capacity) hgain
  induction calls generalizing limiter since with
  | nil => exact (Nat.cast_eq_zero (R := ℚ)).mpr rfl ▸ hbounds
  | cons call calls ih =>
    obtain ⟨hcreated, hlater, htimely⟩ := timely_cons_iff.mp ht
    by_cases hstart : call.now < t
    · -- The window begins after this call.
      have hsame := check_same hs hcreated
      have hrest := ih (hs.check hcreated (hsince call List.mem_cons_self)) htimely hlater
        (by rw [hsame.2]; exact hgain) (by rw [hsame.1, hsame.2]; exact hbounds)
      rw [admittedIn_cons, if_neg fun h => not_le_of_gt hstart h.2.2.1, zero_add, ← hsame.1, ← hsame.2]
      exact hrest
    · have hfrom : ∀ c ∈ call :: calls, t ≤ c.now := by
        intro c hc
        rcases List.mem_cons.mp hc with rfl | hc
        · exact le_of_not_gt hstart
        · exact (le_of_not_gt hstart).trans (hlater c hc)
      by_cases hsince' : since ≤ t
      · have hlevel : (limiter.admittedIn agent t e (call :: calls) : ℚ) ≤
          limiter.level agent t + (e - t) * limiter.refillRate :=
          admittedIn_le_level (hs.mono hsince') ht hfrom hle
        exact hlevel.trans (add_le_add level_le_capacity (le_refl _))
      · have hlt := lt_of_not_ge hsince'
        by_cases hend : since ≤ e
        · have hlevel : (limiter.admittedIn agent t e (call :: calls) : ℚ) ≤
              limiter.level agent since + (e - since) * limiter.refillRate := admittedIn_le_level hs ht hsince hend
          have hless : (e - since) * limiter.refillRate ≤ (e - t) * limiter.refillRate :=
            mul_le_mul_of_nonneg_right (by linarith) hs.rate.le
          exact hlevel.trans (add_le_add level_le_capacity hless)
        · rw [admittedIn_eq_zero fun c hc => lt_of_lt_of_le (lt_of_not_ge hend) (hsince c hc), Nat.cast_zero]
          exact hbounds

/-- Limiters that agree on the level of an agent give its calls the same outcomes, whatever the others call. -/
theorem outcomes_filter (hs : Sound limiter since) (hs' : Sound limiter' since)
    (hcap : limiter'.capacity = limiter.capacity)
    (hrate : limiter'.refillRate = limiter.refillRate)
    (hlevel : ∀ t, since ≤ t → limiter'.level agent t = limiter.level agent t)
    (ht : Timely calls) (hsince : ∀ c ∈ calls, since ≤ c.now) :
    (limiter.outcomes calls).filter (fun o => o.1.agent = agent) =
      limiter'.outcomes (calls.filter fun c => c.agent = agent) := by
  induction calls generalizing limiter limiter' since with
  | nil => rfl
  | cons call calls ih =>
    obtain ⟨hcreated, hlater, htimely⟩ := timely_cons_iff.mp ht
    have hnow := hsince call List.mem_cons_self
    have hsound := hs.check hcreated hnow
    have hsame := check_same hs hcreated
    rw [outcomes_cons, List.filter_cons, List.filter_cons]
    by_cases heq : call.agent = agent
    · subst heq
      have hsame' := check_same hs' hcreated
      have hlevel' : ∀ t, call.now ≤ t → (limiter'.check call).2.level call.agent t =
        (limiter.check call).2.level call.agent t := by
        intro t _
        rw [level_check_self hs' hcreated, level_check_self hs hcreated, hcap, hrate, left, left, hlevel _ hnow]
      have hrest := ih hsound (hs'.check hcreated hnow) (by rw [hsame'.1, hsame.1, hcap])
        (by rw [hsame'.2, hsame.2, hrate])
        hlevel' htimely hlater
      have hfirst : (limiter'.check call).1 = (limiter.check call).1 := by
        rw [check_outcome hs' hcreated, check_outcome hs hcreated, hlevel _ hnow, hrate]
      simp only [decide_true, if_true]
      rw [outcomes_cons, hfirst, hrest]
    · simp only [heq, decide_false, Bool.false_eq_true, if_false]
      apply ih hsound (hs'.mono hnow) (hcap.trans hsame.1.symm) (hrate.trans hsame.2.symm) _ htimely hlater
      intro t hle
      rw [level_check_of_ne hs hcreated (Ne.symm heq)]
      exact hlevel t (hnow.trans hle)

/-- Limiters that agree on every level give the same outcomes. -/
theorem outcomes_congr (hs : Sound limiter since) (hs' : Sound limiter' since)
    (hcap : limiter'.capacity = limiter.capacity)
    (hrate : limiter'.refillRate = limiter.refillRate)
    (hlevel : ∀ agent t, since ≤ t → limiter'.level agent t = limiter.level agent t)
    (ht : Timely calls) (hsince : ∀ c ∈ calls, since ≤ c.now) :
    limiter'.outcomes calls = limiter.outcomes calls := by
  induction calls generalizing limiter limiter' since with
  | nil => rfl
  | cons call calls ih =>
    obtain ⟨hcreated, hlater, htimely⟩ := timely_cons_iff.mp ht
    have hnow := hsince call List.mem_cons_self
    have hsame := check_same hs hcreated
    have hsame' := check_same hs' hcreated
    have hfirst : (limiter'.check call).1 = (limiter.check call).1 := by
      rw [check_outcome hs' hcreated, check_outcome hs hcreated, hlevel _ _ hnow, hrate]
    rw [outcomes_cons, outcomes_cons, hfirst]
    congr 1
    apply ih (hs.check hcreated hnow) (hs'.check hcreated hnow) (by rw [hsame'.1, hsame.1, hcap])
      (by rw [hsame'.2, hsame.2, hrate]) _ htimely hlater
    intro agent t hle
    by_cases heq : agent = call.agent
    · subst heq
      rw [level_check_self hs' hcreated, level_check_self hs hcreated, hcap, hrate, left, left, hlevel _ _ hnow]
    · rw [level_check_of_ne hs' hcreated heq, level_check_of_ne hs hcreated heq]
      exact hlevel agent t (hnow.trans hle)

section Refused

variable {e : RateLimited} (hs : Sound limiter since) (hcreated : call.createdAt ≤ call.now)
  (hrefused : (limiter.check call).1 = .error e)

include hs hcreated hrefused

theorem refused_level : ¬1 ≤ limiter.level call.agent call.now ∧
    e.retryAfterSeconds = (1 - limiter.level call.agent call.now) / limiter.refillRate := by
  rw [check_outcome hs hcreated] at hrefused
  split at hrefused
  · cases hrefused
  · next hless =>
    cases hrefused
    exact ⟨hless, rfl⟩

/-- A refused call leaves every level as it is. -/
theorem level_check_of_refused (hle : call.now ≤ t) :
    (limiter.check call).2.level agent t = limiter.level agent t := by
  by_cases heq : agent = call.agent
  · subst heq
    rw [level_check_self hs hcreated, left, if_neg (refused_level hs hcreated hrefused).1, level_add hs hle]
  · exact level_check_of_ne hs hcreated heq

/-- A refused agent is admitted again exactly from the given time on. -/
theorem retry_ok_iff (hbetween : Timely (call :: (between ++ [retry]))) (hagent : retry.agent = call.agent)
    (hothers : ∀ c ∈ between, c.agent ≠ call.agent) (hsince : since ≤ call.now) :
    (((limiter.check call).2.after between).check retry).1 = .ok () ↔
    call.now + e.retryAfterSeconds ≤ retry.now := by
  obtain ⟨-, hlater, htimely⟩ := timely_cons_iff.mp hbetween
  have hsound := hs.check hcreated hsince
  have hbefore : Timely between := ⟨fun c hc => htimely.created c (List.mem_append_left _ hc),
    (List.pairwise_append.mp htimely.ordered).1⟩
  have hlater' : ∀ c ∈ between, call.now ≤ c.now := fun c hc => hlater c (List.mem_append_left _ hc)
  have hbefore' : Timely (between ++ []) := by rwa [List.append_nil]
  obtain ⟨last, hafter, -⟩ := hsound.after hbefore' (by rwa [List.append_nil])
  have hnow := hlater retry (by simp)
  obtain ⟨hless, hretry⟩ := refused_level hs hcreated hrefused
  rw [check_ok_iff hafter (htimely.created retry (by simp)), hagent,
    level_after_of_ne hsound hbefore hlater' hothers,
    level_check_of_refused hs hcreated hrefused hnow, level_add hs hnow,
      le_refilled_iff hs.rate hs.capacity, hretry]
  constructor
  · intro h
    linarith
  · intro h
    linarith

end Refused

end AgentRateLimiter

open AgentRateLimiter

/-- What the limiter promises about a run. -/
structure Limited (limiter : AgentRateLimiter) (calls : List Call) : Prop where
  tokens : ∀ done rest, calls = done ++ rest → ∀ agent bucket, (limiter.after done).buckets.lookup agent =
    some bucket →
    0 ≤ bucket.state.tokens ∧ bucket.state.tokens ≤ limiter.capacity
  window : ∀ agent t w, 0 ≤ w → (limiter.admittedIn agent t (t + w) calls : ℚ) ≤
    limiter.capacity + limiter.refillRate * w
  refused : ∀ done call rest e, calls = done ++ call :: rest → ((limiter.after done).check call).1 = .error e →
    limiter.outcomes calls = limiter.outcomes done ++ (call, .error e) :: (limiter.after done).outcomes rest
  retry : ∀ done call between retry rest e, calls = done ++ call :: (between ++ retry :: rest) →
    ((limiter.after done).check call).1 = .error e → retry.agent = call.agent →
      (∀ c ∈ between, c.agent ≠ call.agent) →
      (((limiter.after (done ++ call :: between)).check retry).1 = .ok () ↔
        call.now + e.retryAfterSeconds ≤ retry.now)
  independent : ∀ agent, (limiter.outcomes calls).filter (fun o => o.1.agent = agent) =
    limiter.outcomes (calls.filter fun c => c.agent = agent)

theorem sound_start {capacity refillRate since : ℚ} (hcap : 1 ≤ capacity) (hrate : 0 < refillRate) :
    Sound { capacity := capacity, refillRate := refillRate } since where
  capacity := hcap
  rate := hrate
  own_capacity h := nomatch h
  own_rate h := nomatch h
  nonneg h := nomatch h
  le_capacity h := nomatch h
  refilled_at h := nomatch h

theorem exists_since (calls : List Call) : ∃ since, ∀ c ∈ calls, since ≤ c.now := by
  induction calls with
  | nil => exact ⟨0, fun _ h => nomatch h⟩
  | cons call calls ih =>
    obtain ⟨since, h⟩ := ih
    refine ⟨min since call.now, fun c hc => ?_⟩
    rcases List.mem_cons.mp hc with rfl | hc
    · exact min_le_right _ _
    · exact (min_le_left _ _).trans (h c hc)

theorem rate_limits {capacity refillRate : ℚ} (hcap : 1 ≤ capacity) (hrate : 0 < refillRate) {calls : List Call}
    (h : Timely calls) : Limited { capacity := capacity, refillRate := refillRate } calls := by
  obtain ⟨since, hsince⟩ := exists_since calls
  have hs : Sound { capacity := capacity, refillRate := refillRate } since := sound_start hcap hrate
  constructor
  · intro done rest hcalls agent bucket hbucket
    subst hcalls
    obtain ⟨last, hafter, -⟩ := hs.after h hsince
    have hbefore : Timely done := ⟨fun c hc => h.created c (List.mem_append_left _ hc),
      (List.pairwise_append.mp h.ordered).1⟩
    have hsame := after_same hs hbefore fun c hc => hsince c (List.mem_append_left _ hc)
    exact ⟨hafter.nonneg hbucket, (hafter.le_capacity hbucket).trans (le_of_eq hsame.1)⟩
  · intro agent t w hw
    apply (admittedIn_le hs h hsince (le_add_of_nonneg_right hw)).trans (le_of_eq _)
    rw [add_sub_cancel_left, mul_comm]
  · intro done call rest e hcalls hrefused
    subst hcalls
    obtain ⟨last, hafter, hlast⟩ := hs.after h hsince
    have hpart : Timely (call :: rest) :=
      ⟨fun c hc => h.created c (List.mem_append_right _ hc), (List.pairwise_append.mp h.ordered).2.1⟩
    obtain ⟨hcreated, hlater, htimely⟩ := timely_cons_iff.mp hpart
    have hnow := hlast call List.mem_cons_self
    have hsame := check_same hafter hcreated
    rw [outcomes_append, outcomes_cons, hrefused]
    congr 2
    exact outcomes_congr (hafter.mono hnow) (hafter.check hcreated hnow) hsame.1 hsame.2
      (fun agent t hle => level_check_of_refused hafter hcreated hrefused hle) htimely hlater
  · intro done call between retry rest e hcalls hrefused hagent hothers
    subst hcalls
    obtain ⟨last, hafter, hlast⟩ := hs.after h hsince
    have hpart : Timely (call :: (between ++ [retry])) := by
      have hsub : (call :: (between ++ [retry])).Sublist (done ++ call :: (between ++ retry :: rest)) := by
        apply List.Sublist.trans _ (List.sublist_append_right _ _)
        apply List.Sublist.cons_cons
        apply List.Sublist.append_left
        simp
      exact ⟨fun c hc => h.created c (hsub.subset hc), h.ordered.sublist hsub⟩
    rw [after_append, after_cons]
    exact retry_ok_iff hafter (timely_cons_iff.mp hpart).1 hrefused hpart hagent hothers
      (hlast call List.mem_cons_self)
  · intro agent
    exact outcomes_filter hs hs rfl rfl (fun _ _ => rfl) h hsince

/-- A burst beyond the capacity, and a retry in time. -/
theorem rate_limits_burst : Limited { capacity := 1, refillRate := 1 / 2 }
    [⟨"tester", 0, 0⟩, ⟨"tester", 1, 1⟩, ⟨"data-expert", 1, 1⟩, ⟨"tester", 2, 2⟩] :=
  rate_limits (by norm_num) (by norm_num) ⟨by decide, by decide⟩

end WorkerHarness.RateLimits
