import WorkerHarness.DataPaths
import WorkerHarness.Tunnels

/-!
# Cached routes

The cache of the control server, the routes that read through it, and the requests that change the
database and then drop keys. A read looks the key up, runs its loader and stores the result, with
other requests in between. The methods of the cache hold its lock only over code that never waits, so
each of them is one step. The clock is a rational number, where the source has doubles: what is said of the
time to live holds up to the rounding of one sum.
-/

namespace WorkerHarness.CachedRoutes

open Coroutines Tunnels DataPaths SortedLists

structure Entry (α : Type) where
  value : α
  expiresAt : ℚ

structure TTLCache (α : Type) where
  store : List (String × Entry α) := []
  hits : ℕ := 0
  misses : ℕ := 0
  evictions : ℕ := 0
  size : ℕ := 0

namespace TTLCache

variable {α : Type}

/-- `del self._store[key]`, with the gauge and the counter. -/
def drop (cache : TTLCache α) (key : String) : TTLCache α :=
  let store := cache.store.filter fun entry => entry.1 ≠ key
  { cache with store := store, size := store.length, evictions := cache.evictions + 1 }

/-- An expired entry is dropped when it is read. -/
def get (cache : TTLCache α) (key : String) (now : ℚ) : TTLCache α × Option α :=
  match cache.store.lookup key with
  | none => ({ cache with misses := cache.misses + 1 }, none)
  | some entry =>
    if entry.expiresAt < now then ({ cache.drop key with misses := cache.misses + 1 }, none)
    else ({ cache with hits := cache.hits + 1 }, some entry.value)

def set (cache : TTLCache α) (key : String) (value : α) (ttlSeconds now : ℚ) : TTLCache α :=
  let store := (cache.store.filter fun entry => entry.1 ≠ key) ++
    [(key, { value := value, expiresAt := now + ttlSeconds })]
  { cache with store := store, size := store.length }

def invalidate (cache : TTLCache α) (key : String) : TTLCache α × Bool :=
  if (cache.store.lookup key).isSome then (cache.drop key, true) else (cache, false)

variable {cache : TTLCache α} {key : String} {now ttl : ℚ} {value : α} {e : String × Entry α}

theorem mem_drop : e ∈ (cache.drop key).store ↔ e ∈ cache.store ∧ e.1 ≠ key := by
  simp [drop]

theorem mem_set : e ∈ (cache.set key value ttl now).store ↔
    e ∈ cache.store ∧ e.1 ≠ key ∨ e = (key, { value := value, expiresAt := now + ttl }) := by
  simp [set]

/-- What an invalidation leaves has another key. -/
theorem mem_invalidate (h : e ∈ (cache.invalidate key).1.store) : e ∈ cache.store ∧ e.1 ≠ key := by
  unfold invalidate at h
  split at h
  · exact mem_drop.mp h
  · next hnone =>
    refine ⟨h, fun hkey => hnone ?_⟩
    exact List.lookup_isSome_iff.mpr ⟨e, h, by simp [hkey]⟩

/-- A lookup brings nothing into the cache. -/
theorem get_store (h : e ∈ (cache.get key now).1.store) : e ∈ cache.store := by
  unfold get at h
  split at h
  · exact h
  · split at h
    · exact (mem_drop.mp h).1
    · exact h

/-- A hit is an entry that has not expired. -/
theorem get_hit (h : (cache.get key now).2 = some value) :
    ∃ entry, (key, entry) ∈ cache.store ∧ entry.value = value ∧ now ≤ entry.expiresAt := by
  unfold get at h
  split at h
  · cases h
  · next entry hlookup =>
    split at h
    · cases h
    · next hlive =>
      cases h
      obtain ⟨l₁, l₂, hstore, -⟩ := List.lookup_eq_some_iff.mp hlookup
      exact ⟨entry, by simp [hstore], rfl, Rat.not_lt.mp hlive⟩

end TTLCache

/-- What the loaders make of the database. -/
inductive CachedValue where
  | workers (rows : List DataWorker)
  | summary (total online offline draining : ℕ)
  | dataPaths (paths : List (String × List (String × String)))
  | tunnels (rows : List (PortForward × Option String))
  deriving DecidableEq

/-- What the requests wait for or do at once. -/
inductive CacheCall : Type → Type 1 where
  | get (key : String) : CacheCall (Option CachedValue)
  | set (key : String) (value : CachedValue) (ttlSeconds : ℚ) : CacheCall Unit
  | invalidate (key : String) : CacheCall Unit
  | listWorkers : CacheCall (Except TunnelError (List DataWorker))
  | time : CacheCall ℕ
  | pruneWorkers (olderThanTs : ℤ) : CacheCall (Except TunnelError ℕ)
  | writeWorkers : CacheCall Unit
  | tunnel {β : Type} (e : TunnelCall β) : CacheCall β

/-- A read responds with what `cached` returned for its key. -/
inductive Response where
  | cached (key : String) (value : CachedValue)
  | done
  deriving DecidableEq

abbrev CacheM := Prog CacheCall Empty TunnelError

def cached (key : String) (ttlSeconds : ℚ) (loader : CacheM CachedValue) : CacheM Response := do
  let value ← Prog.call (.get key)
  match value with
  | some value => return .cached key value
  | none =>
    let value ← loader
    Prog.call (.set key value ttlSeconds)
    return .cached key value

def workersList : CacheM Response :=
  cached "workers:list" 5 do
    let workers ← Prog.await .listWorkers
    return .workers workers

def workersSummary : CacheM Response :=
  cached "workers:summary" 2 do
    let workers ← Prog.await .listWorkers
    let count (status : WorkerStatus) := workers.countP fun worker => worker.status = status
    return .summary workers.length (count .online) (count .offline) (count .draining)

def dataList (includeOffline : Bool) : CacheM Response :=
  cached (if includeOffline then "data:paths:True" else "data:paths:False") 2 do
    let workers ← Prog.await .listWorkers
    return .dataPaths (reverseDataPaths workers includeOffline)

def tunnelsList : CacheM Response :=
  cached "tunnels:list" 10 do
    let tunnels ← Prog.await (.tunnel .listPortForwards)
    let workers ← Prog.await .listWorkers
    return .tunnels <| tunnels.map fun t => (t, (workers.find? fun w => w.id = t.workerId).map (·.name))

def invalidateWorkersCache : CacheM Unit := do
  Prog.call (.invalidate "workers:list")
  Prog.call (.invalidate "workers:summary")
  Prog.call (.invalidate "data:paths:False")
  Prog.call (.invalidate "data:paths:True")

def workersPrune (minutes : ℕ) : CacheM Response := do
  let now ← Prog.call .time
  let _ ← (Prog.await (.pruneWorkers (now - minutes * 60)) : CacheM ℕ)
  invalidateWorkersCache
  return .done

def tunnelRequest (p : TunnelM Unit) : CacheM Response := do
  p.lift .tunnel
  return .done

/-- A cached value, with a record of the read that stored it: when it looked the key up in vain, when
its loader first read the database, and when it stored the value, on the clock of the run and on the
clock of the server. -/
structure Copy where
  value : CachedValue
  startedAt : ℕ
  loadedAt : ℕ
  storedAt : ℕ
  setAt : ℚ
  ttl : ℚ

/-- A read that has returned: when it looked the key up, when the server's clock was read last, and
what it returned. -/
structure CacheRead where
  key : String
  startedAt : ℕ
  readAt : ℚ
  copy : Copy

/-- The database, the cache, and a record of the run: the number of steps, the commits and the
invalidations with the thread and the time, and for each thread its last vain lookup, the first
read of the database after it, and its result. -/
structure CacheWorld where
  tunnels : TunnelWorld := {}
  workers : List DataWorker := []
  cache : TTLCache Copy := {}
  clock : ℕ := 1
  commits : List (ℕ × ℕ) := []
  invalidations : List (ℕ × String × ℕ) := []
  startedAt : ℕ → ℕ := fun _ => 0
  loadedAt : ℕ → Option ℕ := fun _ => none
  served : ℕ → Option CacheRead := fun _ => none

namespace CacheWorld

def tick (s : CacheWorld) : CacheWorld := { s with clock := s.clock + 1 }

/-- The thread reads the database. -/
def load (s : CacheWorld) (t : ℕ) : CacheWorld :=
  { s with loadedAt := fun t' => if t' = t then (s.loadedAt t).or (some s.clock) else s.loadedAt t' }

def commit (s : CacheWorld) (t : ℕ) : CacheWorld := { s with commits := (t, s.clock) :: s.commits }

def dropKey (s : CacheWorld) (t : ℕ) (key : String) : CacheWorld :=
  { s with
    cache := (s.cache.invalidate key).1,
    invalidations := (t, key, s.clock) :: s.invalidations }

def serve (s : CacheWorld) (t : ℕ) (r : CacheRead) : CacheWorld :=
  { s with served := fun t' => if t' = t then some r else s.served t' }

/-- A lookup that finds nothing. -/
def miss (s : CacheWorld) (t : ℕ) (cache : TTLCache Copy) : CacheWorld :=
  { s with
    cache := cache,
    startedAt := fun t' => if t' = t then s.clock else s.startedAt t',
    loadedAt := fun t' => if t' = t then none else s.loadedAt t' }

def copyOf (s : CacheWorld) (t : ℕ) (value : CachedValue) (ttl now : ℚ) : Copy :=
  { value := value, startedAt := s.startedAt t, loadedAt := (s.loadedAt t).getD 0, storedAt := s.clock,
    setAt := now, ttl := ttl }

end CacheWorld

/-- What an await answers; a database method that fails may have been executed. -/
inductive CacheAnswer where
  | done
  | clock (now : ℚ)
  | seconds (now : ℕ)
  | rows (workers : List DataWorker)
  | fails (e : TunnelError) (executed : Bool)
  | tunnel (w : TunnelAnswer)

def committed : {β : Type} → TunnelCall β → TunnelAnswer → TunnelWorld → Bool
  | _, .insertPortForward pf, .done, s => decide (pf.id ∉ s.rowIds)
  | _, .insertPortForward pf, .fails _ executed, s => executed && decide (pf.id ∉ s.rowIds)
  | _, .deletePortForward _, .done, _ => true
  | _, .deletePortForward _, .fails _ executed, _ => executed
  | _, .insertMarimoSession _, .done, _ => true
  | _, .insertMarimoSession _, .fails _ executed, _ => executed
  | _, .deleteMarimoSession _, .done, _ => true
  | _, .deleteMarimoSession _, .fails _ executed, _ => executed
  | _, _, _, _ => false

def note {β : Type} (e : TunnelCall β) (t : ℕ) (w : TunnelAnswer) (s : CacheWorld) : CacheWorld :=
  match e, w with
  | .listPortForwards, .done => s.load t
  | .invalidate, .done => s.dropKey t "tunnels:list"
  | e, w => if committed e w s.tunnels then s.commit t else s

def prune (s : CacheWorld) (olderThanTs : ℤ) : CacheWorld :=
  { s with workers := s.workers.filter fun worker => ¬(worker.lastHeartbeatTs : ℤ) < olderThanTs }

def cacheHandle : {β : Type} → CacheCall β → ℕ → CacheAnswer → CacheWorld → Option (CacheWorld × β)
  | _, .get key, t, .clock now, s =>
    match s.cache.get key now with
    | (cache, none) => some ((s.miss t cache).tick, none)
    | (cache, some copy) =>
      some ((({ s with cache := cache } : CacheWorld).serve t
        { key := key, startedAt := s.clock, readAt := now, copy := copy }).tick, some copy.value)
  | _, .set key value ttl, t, .clock now, s =>
    let copy := s.copyOf t value ttl now
    some ((({ s with cache := s.cache.set key copy ttl now } : CacheWorld).serve t
      { key := key, startedAt := s.startedAt t, readAt := now, copy := copy }).tick, ())
  | _, .invalidate key, t, .done, s => some ((s.dropKey t key).tick, ())
  | _, .listWorkers, t, .done, s => some ((s.load t).tick, .ok (sortOn (·.name) s.workers))
  | _, .listWorkers, _, .fails e _, s => some (s.tick, .error e)
  | _, .time, _, .seconds now, s => some (s.tick, now)
  | _, .pruneWorkers olderThanTs, t, .done, s =>
    some (((prune s olderThanTs).commit t).tick, .ok (s.workers.length - (prune s olderThanTs).workers.length))
  | _, .pruneWorkers olderThanTs, t, .fails e executed, s =>
    some ((if executed then (prune s olderThanTs).commit t else s).tick, .error e)
  | _, .writeWorkers, t, .rows workers, s => some ((({ s with workers := workers } : CacheWorld).commit t).tick, ())
  | _, .tunnel e, t, .tunnel w, s =>
    match tunnelHandle e t w s.tunnels with
    | none => none
    | some (tunnels, b) => some ({ (note e t w s).tick with tunnels := tunnels }, b)
  | _, _, _, _, _ => none

def cacheInterp : Interp CacheCall CacheWorld CacheAnswer := ⟨cacheHandle⟩

abbrev CachePool := Pool CacheCall Empty TunnelError Response CacheWorld

abbrev CacheEvent := Event CacheCall Empty TunnelError Response CacheAnswer

/-- What runs in the server: the cached reads, the requests that drop keys, and whatever else writes
the rows of the workers. -/
inductive Request : CacheM Response → Prop where
  | workersList : Request workersList
  | workersSummary : Request workersSummary
  | dataList (includeOffline : Bool) : Request (dataList includeOffline)
  | tunnelsList : Request tunnelsList
  | workersPrune (minutes : ℕ) : Request (workersPrune minutes)
  | tunnel {p : TunnelM Unit} (hp : Operation p) : Request (tunnelRequest p)
  | writeWorkers : Request (do Prog.call .writeWorkers; return .done)

/-- Any request starts at any time, and awaits answer anything. -/
def Serves : CachePool → CacheEvent → Prop
  | _, .spawn p => Request p
  | _, .go _ _ => True
  | _, _ => False

end WorkerHarness.CachedRoutes
