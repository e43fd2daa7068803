import WorkerHarness.EventSequences

/-!
# Migrations keep the data

`_init_schema` on a database file of an earlier version succeeds, removes the delegated sessions and
what belongs to them, and keeps everything else.
-/

namespace WorkerHarness.SchemaMigration

open SqlTables DatabaseSchema

variable {d d' : Schema} {n : TableName} {t t' : Table String}

def removedIds (t : Table String) : List Value := (t.rows.filter delegated).map fun r => r.values "id"

theorem delegatedIds_eq (ht : d.tables .piSessions = some t) (hid : "id" ∈ t.columns)
    (htype : "session_type" ∈ t.columns) :
    delegatedIds d = .ok (removedIds t) := by
  have hmentioned : ∀ c ∈ ["id", "session_type"], c ∈ t.columns := fun c hc => by
    simp only [List.mem_cons, List.not_mem_nil, or_false] at hc
    rcases hc with rfl | rfl
    · exact hid
    · exact htype
  simp only [delegatedIds, Schema.select, ht, mentions_eq hmentioned]
  rfl

def withoutDependents (ids : List Value) (t : Table String) : Table String :=
  t.deleteWhere fun r => isIn (r.values "session_id") ids

theorem withoutDependents_rows (ids : List Value) (t : Table String) : (withoutDependents ids t).rows ⊆ t.rows :=
  List.filter_sublist.subset

def withoutParents (ids : List Value) (t : Table String) : Table String :=
  t.assign "parent_session_id" (fun r => isIn (r.values "parent_session_id") ids) fun _ => .null

theorem update_parents (ids : List Value) (t : Table String) :
    t.update "parent_session_id" (fun _ _ => .null) (fun r => isIn (r.values "parent_session_id") ids) =
      .ok (withoutParents ids t) :=
  Table.update_eq_assign (fun _ _ _ _ _ => rfl) fun _ _ _ _ _ => Table.clash_null ..

theorem keeps_withoutParents (ids : List Value) (t : Table String) :
    Keeps (fun r c => c = "parent_session_id" → isIn (r.values "parent_session_id") ids = false) t
    (withoutParents ids t) := by
  refine ⟨_, rfl, fun r _ c hc => ?_⟩
  split
  · next hin => exact Function.update_of_ne (fun heq => Bool.false_ne_true ((hc heq).symm.trans hin)) _ _
  · rfl

/-- No parent is left among the sessions. -/
theorem isIn_withoutParents {ids : List Value} {r : Row String} (hr : r ∈ (withoutParents ids t).rows) :
    isIn (r.values "parent_session_id") ids = false := by
  obtain ⟨r₁, -, rfl⟩ := List.mem_map.mp hr
  dsimp only
  split
  · rw [Function.update_self]
    simp [isIn]
  · next hout => exact Bool.eq_false_iff.mpr hout

theorem removedIds_of_keeps {keep : Row String → String → Prop} (h : Keeps keep t t')
    (hk : ∀ r ∈ t.rows, keep r "id" ∧ keep r "session_type") : removedIds t' = removedIds t := by
  obtain ⟨f, hf, hkeep⟩ := h
  have hfilter : t.rows.filter (delegated ∘ fun r => { r with values := f r }) = t.rows.filter delegated :=
    List.filter_congr fun r hr => congrArg (sqlEq · _) (hkeep r hr _ (hk r hr).2)
  simp only [removedIds, hf, Table.mapRows, List.filter_map, List.map_map]
  rw [hfilter]
  refine List.map_congr_left fun r hr => ?_
  have hr := (List.mem_filter.mp hr).1
  exact hkeep r hr _ (hk r hr).1

theorem refers_withoutDependents {ids : List Value} (ht : d.tables n = some (withoutDependents ids t)) :
    refers d ids n = false := by
  simp only [refers, ht]
  refine List.any_eq_false.mpr fun r hr => ?_
  have hmem := (List.mem_filter.mp hr).2
  simpa using hmem

theorem refers_put {m : TableName} {o : Option (Table String)} {ids : List Value} (h : n ≠ m) :
    refers (d.put m o) ids n = refers d ids n := by
  simp only [refers, put_tables, Function.update_of_ne h]

def sessionsBase : List String := ["id", "parent_session_id", "session_type"]

section CutOver

variable {sessions : Table String} (hs : d.tables .piSessions = some sessions)
    (hbase : sessionsBase ⊆ sessions.columns)

include hs hbase

theorem delegatedIds_sessions : delegatedIds d = .ok (removedIds sessions) :=
  delegatedIds_eq hs (hbase (by decide)) (hbase (by decide))

theorem deleteDependents_eq (ht : d.tables n = some t) (hsession : "session_id" ∈ t.columns) :
    deleteDependents n d = .ok (d.put n (some (withoutDependents (removedIds sessions) t))) := by
  simp only [deleteDependents, delegatedIds_sessions hs hbase]
  exact alterTable_eq ht (fun c hc => List.mem_singleton.mp hc ▸ hsession) rfl

theorem detachParents_eq : detachParents d = .ok
    (d.put .piSessions (some (withoutParents (removedIds sessions) sessions))) := by
  simp only [detachParents, delegatedIds_sessions hs hbase]
  have hmentioned : ∀ c ∈ ["parent_session_id"], c ∈ sessions.columns := fun c hc =>
    hbase (List.mem_singleton.mp hc ▸ by decide : c ∈ sessionsBase)
  exact alterTable_eq hs hmentioned (update_parents _ _)

theorem deleteDelegated_eq (he : refers d (removedIds sessions) .piSessionEvents = false)
    (hc : refers d (removedIds sessions) .piSessionCommands = false) :
    deleteDelegated d = .ok (d.put .piSessions (some (sessions.deleteWhere delegated))) := by
  have hmentioned : ∀ c ∈ ["session_type"], c ∈ sessions.columns := fun c hc =>
    hbase (List.mem_singleton.mp hc ▸ by decide : c ∈ sessionsBase)
  have halter := alterTable_eq (f := fun t => .ok (t.deleteWhere delegated)) hs hmentioned rfl
  have he' : refers (d.put .piSessions (some (sessions.deleteWhere delegated)))
    (removedIds sessions) .piSessionEvents = false := by
    rw [refers_put (by decide), he]
  have hc' : refers (d.put .piSessions (some (sessions.deleteWhere delegated)))
    (removedIds sessions) .piSessionCommands = false := by
    rw [refers_put (by decide), hc]
  simp only [deleteDelegated, delegatedIds_sessions hs hbase]
  change (Schema.alterTable _ _ _ _ >>= fun d => _) = _
  rw [halter]
  change (if _ then _ else _) = _
  rw [he', hc', Bool.or_self, Bool.and_false]
  rfl

/-- The rows that belong to delegated sessions go, and then the sessions. -/
theorem removeDelegated_eq {events commands : Table String} (he : d.tables .piSessionEvents = some events)
    (hc : d.tables .piSessionCommands = some commands) (hevents : "session_id" ∈ events.columns)
    (hcommands : "session_id" ∈ commands.columns) :
    removeDelegated d = .ok
    ((((((d.put .piRouterRequests none).put .piRouterConfig none).put .piDelegations none).put
      .piSessionCommands (some (withoutDependents (removedIds sessions) commands))).put
      .piSessionEvents (some (withoutDependents (removedIds sessions) events))).put
      .piSessions (some ((withoutParents (removedIds sessions) sessions).deleteWhere delegated))) := by
  generalize hd₀ : ((d.put .piRouterRequests none).put .piRouterConfig none).put .piDelegations none = d₀
  have hs₀ : d₀.tables .piSessions = some sessions := by simp [← hd₀, hs]
  have he₀ : d₀.tables .piSessionEvents = some events := by simp [← hd₀, he]
  have hc₀ : d₀.tables .piSessionCommands = some commands := by simp [← hd₀, hc]
  have h₁ := deleteDependents_eq hs₀ hbase hc₀ hcommands
  generalize hd₁ : d₀.put .piSessionCommands (some (withoutDependents (removedIds sessions) commands)) = d₁ at *
  have hs₁ : d₁.tables .piSessions = some sessions := by simp [← hd₁, hs₀]
  have he₁ : d₁.tables .piSessionEvents = some events := by simp [← hd₁, he₀]
  have hc₁ : d₁.tables .piSessionCommands = some (withoutDependents (removedIds sessions) commands) := by
    simp [← hd₁]
  have h₂ := deleteDependents_eq hs₁ hbase he₁ hevents
  generalize hd₂ : d₁.put .piSessionEvents (some (withoutDependents (removedIds sessions) events)) = d₂ at *
  have hs₂ : d₂.tables .piSessions = some sessions := by simp [← hd₂, hs₁]
  have he₂ : d₂.tables .piSessionEvents = some (withoutDependents (removedIds sessions) events) := by simp [← hd₂]
  have hc₂ : d₂.tables .piSessionCommands = some (withoutDependents (removedIds sessions) commands) := by
    simp [← hd₂, hc₁]
  have h₃ := detachParents_eq hs₂ hbase
  have hremoved : removedIds (withoutParents (removedIds sessions) sessions) = removedIds sessions :=
    removedIds_of_keeps (keeps_withoutParents _ _) fun _ _ =>
      ⟨fun heq => absurd heq (by decide), fun heq => absurd heq (by decide)⟩
  have h₄ := deleteDelegated_eq (put_table d₂ .piSessions (some (withoutParents (removedIds sessions) sessions)))
    hbase
    (by rw [hremoved, refers_put (by decide)]; exact refers_withoutDependents he₂)
    (by rw [hremoved, refers_put (by decide)]; exact refers_withoutDependents hc₂)
  rw [put_put] at h₄
  simp only [removeDelegated, Schema.dropTable, hd₀]
  rw [h₁]
  change (deleteDependents .piSessionEvents d₁ >>= fun d => _) = _
  rw [h₂]
  change (detachParents d₂ >>= fun d => _) = _
  rw [h₃]
  exact h₄

end CutOver

theorem createTable_self (ht : d.tables n = some t) (columns : List String) : d.createTable n columns = d := by
  simp only [Schema.createTable, ht]

theorem tableInfo_eq (ht : d.tables n = some t) : d.tableInfo n = t.columns := by
  simp only [Schema.tableInfo, ht]

theorem alterTable_self {cs : List String} {f : Table String → Except SqlError (Table String)}
    (ht : d.tables n = some t)
    (hcs : ∀ c ∈ cs, c ∈ t.columns) (hf : f t = .ok t) : d.alterTable n cs f = .ok d :=
  (alterTable_eq ht hcs hf).trans (congrArg Except.ok (put_self ht))

theorem foldlM_addMissing_self {cols : List String} {cvs : List (String × Value)} (h : cvs.map (·.1) ⊆ cols) :
    cvs.foldlM (addMissing n cols) d = .ok d := by
  induction cvs with
  | nil => rfl
  | cons cv cvs ih =>
    obtain ⟨hcv, hcvs⟩ := List.cons_subset.mp h
    rw [List.foldlM_cons, addMissing, if_pos hcv]
    exact ih hcvs

theorem createIndex_self {i : Index String} (ht : d.tables n = some t) (h : ∃ j ∈ t.indexes, j.name = i.name) :
    d.alterTable n [] (Table.createIndex i) = .ok d :=
  alterTable_self ht mentions_none (if_pos h)

/-- Nothing is left to do. -/
structure Current (d : Schema) : Prop where
  workers : ∃ t, d.tables .workers = some t ∧
    ("worker_ip" :: (missingTelemetryColumns ++ missingWorkersColumns).map (·.1)) ⊆ t.columns
  jobs : ∃ t, d.tables .jobs = some t ∧ missingJobsColumns.map (·.1) ⊆ t.columns ∧
    ∀ name ∈ [originIndex.name, queueIndex.name], ∃ i ∈ t.indexes, i.name = name
  others : ∀ n ∈ [TableName.portForwards, .marimoSessions, .failures], ∃ t, d.tables n = some t
  sessions : ∃ t, d.tables .piSessions = some t ∧ missingPiSessionsColumns.map (·.1) ⊆ t.columns ∧
    sessionsBase ⊆ t.columns ∧ ∀ r ∈ t.rows, delegated r = false
  events : ∃ t, d.tables .piSessionEvents = some t ∧ ["session_id", "sequence"] ⊆ t.columns ∧
    (∃ i ∈ t.indexes, i.name = sequenceIndex.name) ∧ sequenceTrigger ∈ t.triggers ∧
      ∀ r ∈ t.rows, unsequenced r = false
  commands : ∃ t, d.tables .piSessionCommands = some t ∧ ["session_id", missingPayloadColumn.1] ⊆ t.columns ∧
    ∃ i ∈ t.indexes, i.name = pendingIndex.name
  routers : ∀ n ∈ [TableName.piRouterRequests, .piRouterConfig, .piDelegations], d.tables n = none

theorem initWorkers_self (h : Current d) : initWorkers d = .ok d := by
  obtain ⟨t, ht, hcolumns⟩ := h.workers
  obtain ⟨hip, hcolumns⟩ := List.cons_subset.mp hcolumns
  rw [List.map_append, List.append_subset] at hcolumns
  simp only [initWorkers, createTable_self ht, tableInfo_eq ht]
  rw [foldlM_addMissing_self hcolumns.1]
  change (addWorkerIp t.columns d >>= fun d => _) = _
  rw [addWorkerIp, if_pos hip]
  exact foldlM_addMissing_self hcolumns.2

theorem initJobs_self (h : Current d) : initJobs d = .ok d := by
  obtain ⟨t, ht, hcolumns, hindexes⟩ := h.jobs
  simp only [initJobs, createTable_self ht, tableInfo_eq ht]
  rw [foldlM_addMissing_self hcolumns]
  change (d.alterTable .jobs [] (Table.createIndex originIndex) >>= fun d => _) = _
  rw [createIndex_self ht (hindexes _ (List.mem_cons_self ..))]
  exact createIndex_self ht (hindexes _ (List.mem_cons_of_mem _ (List.mem_singleton.mpr rfl)))

theorem initPiSessions_self (h : Current d) : initPiSessions d = .ok d := by
  obtain ⟨t, ht, hcolumns, -⟩ := h.sessions
  simp only [initPiSessions, createTable_self ht, tableInfo_eq ht]
  exact foldlM_addMissing_self hcolumns

theorem initPiSessionEvents_self (h : Current d) : initPiSessionEvents d = .ok d := by
  obtain ⟨t, ht, hcolumns, hindex, htrigger, hsequenced⟩ := h.events
  have hseq : missingSequenceColumn.1 ∈ t.columns := hcolumns (by decide)
  have hupdate : t.update "sequence" priorEvents unsequenced = .ok t := by
    have hnone : t.rows.filter unsequenced = [] :=
      List.filter_eq_nil_iff.mpr fun r hr => Bool.eq_false_iff.mp (hsequenced r hr)
    rw [Table.update, hnone]
    rfl
  have hmentioned : ∀ c ∈ ["sequence", "session_id"], c ∈ t.columns := fun c hc =>
    hcolumns (by simpa [or_comm] using hc)
  simp only [initPiSessionEvents, createTable_self ht, tableInfo_eq ht]
  rw [addMissing, if_pos hseq]
  change (d.alterTable _ _ (Table.update "sequence" priorEvents unsequenced) >>= fun d => _) = _
  rw [alterTable_self ht hmentioned hupdate]
  change (d.alterTable _ _ (Table.createIndex sequenceIndex) >>= fun d => _) = _
  rw [createIndex_self ht hindex]
  exact alterTable_self ht mentions_none (congrArg Except.ok (if_pos htrigger))

theorem initPiSessionCommands_self (h : Current d) : initPiSessionCommands d = .ok d := by
  obtain ⟨t, ht, hcolumns, hindex⟩ := h.commands
  simp only [initPiSessionCommands, createTable_self ht, tableInfo_eq ht]
  rw [addMissing, if_pos (hcolumns (by decide))]
  exact createIndex_self ht hindex

theorem withoutDependents_nil (t : Table String) : withoutDependents [] t = t := by
  have hrows : (t.rows.filter fun r => !isIn (r.values "session_id") []) = t.rows :=
    List.filter_eq_self.mpr fun r _ => by simp [isIn]
  exact Table.ext rfl hrows rfl rfl

theorem withoutParents_nil (t : Table String) : withoutParents [] t = t :=
  Table.assign_none fun r _ => by simp [isIn]

theorem deleteWhere_none {p : Row String → Bool} (h : ∀ r ∈ t.rows, p r = false) : t.deleteWhere p = t := by
  have hrows : (t.rows.filter fun r => !p r) = t.rows := List.filter_eq_self.mpr fun r hr => by simp [h r hr]
  exact Table.ext rfl hrows rfl rfl

theorem removeDelegated_self (h : Current d) : removeDelegated d = .ok d := by
  obtain ⟨sessions, hs, -, hbase, hdelegated⟩ := h.sessions
  obtain ⟨events, he, hevents, -⟩ := h.events
  obtain ⟨commands, hc, hcommands, -⟩ := h.commands
  have hnone : removedIds sessions = [] := by
    have hrows : sessions.rows.filter delegated = [] :=
      List.filter_eq_nil_iff.mpr fun r hr => Bool.eq_false_iff.mp (hdelegated r hr)
    rw [removedIds, hrows, List.map_nil]
  have hrouter : ∀ n ∈ [TableName.piRouterRequests, .piRouterConfig, .piDelegations], d.put n none = d :=
    fun n hn =>
    put_self (h.routers n hn)
  rw [removeDelegated_eq hs hbase he hc (hevents (by decide)) (hcommands (by decide)), hnone, withoutDependents_nil,
    withoutDependents_nil, withoutParents_nil, deleteWhere_none hdelegated, hrouter _ (by decide),
      hrouter _ (by decide),
    hrouter _ (by decide), put_self hc, put_self he, put_self hs]

/-- The migration of a current database changes nothing. -/
theorem initSchema_self (h : Current d) : initSchema d = .ok d := by
  obtain ⟨p, hp⟩ := h.others .portForwards (by decide)
  obtain ⟨m, hm⟩ := h.others .marimoSessions (by decide)
  obtain ⟨f, hf⟩ := h.others .failures (by decide)
  simp only [initSchema, initWorkers_self h, initJobs_self h, bind, Except.bind, createTable_self hp,
    createTable_self hm,
    createTable_self hf, initPiSessions_self h, initPiSessionEvents_self h, initPiSessionCommands_self h,
    removeDelegated_self h]

/-- The columns that the migration uses and never adds. -/
def requiredColumns : TableName → List String
  | .jobs => ["worker_id", "status"]
  | .piSessions => sessionsBase
  | .piSessionEvents => ["session_id"]
  | .piSessionCommands => ["session_id", "delivered_at", "created_at"]
  | _ => []

/-- An earlier layout: any tables may be missing, and of those that are there any columns but the
required ones. -/
structure Recognised (d : Schema) : Prop where
  required : ∀ n t, d.tables n = some t → requiredColumns n ⊆ t.columns
  events : ∀ t, d.tables .piSessionEvents = some t → EventsRecognised t

theorem Recognised.ensured_required (h : Recognised d) (n : TableName) {columns : List String}
    (hcolumns : requiredColumns n ⊆ columns) :
    requiredColumns n ⊆ (ensured d n columns).columns := by
  unfold ensured
  cases ht : d.tables n with
  | none => exact hcolumns
  | some t => exact h.required n t ht

theorem Recognised.ensured_events (h : Recognised d) :
    EventsRecognised (ensured d .piSessionEvents piSessionEventsColumns) := by
  unfold ensured
  cases ht : d.tables .piSessionEvents with
  | none => exact ⟨by decide, fun _ _ => .inl fun _ hr => (nomatch hr),
      fun _ hr => (nomatch hr), fun _ hi => (nomatch hi), fun _ hi => (nomatch hi)⟩
  | some t => exact h.events t ht

/-- The migrated tables, before the cut-over. -/
structure Parts where
  workers : Table String
  jobs : Table String
  sessions : Table String
  events : Table String
  commands : Table String

/-- The database after the migration. -/
def migrated (d : Schema) (p : Parts) : Schema where
  tables
    | .workers => some p.workers
    | .jobs => some p.jobs
    | .portForwards => some (ensured d .portForwards portForwardsColumns)
    | .marimoSessions => some (ensured d .marimoSessions marimoSessionsColumns)
    | .failures => some (ensured d .failures failuresColumns)
    | .piSessions => some ((withoutParents (removedIds p.sessions) p.sessions).deleteWhere delegated)
    | .piSessionEvents => some (withoutDependents (removedIds p.sessions) p.events)
    | .piSessionCommands => some (withoutDependents (removedIds p.sessions) p.commands)
    | .piRouterRequests => none
    | .piRouterConfig => none
    | .piDelegations => none
  foreignKeys := d.foreignKeys

/-- What becomes of each table. -/
structure Parts.Of (d : Schema) (p : Parts) : Prop where
  workers : Migrates ("worker_ip" :: (missingTelemetryColumns ++ missingWorkersColumns).map (·.1)) []
    (ensured d .workers workersColumns) p.workers
  address : "worker_ip" ∉ (ensured d .workers workersColumns).columns →
    "zerotier_ip" ∈ (ensured d .workers workersColumns).columns →
      ∀ r ∈ p.workers.rows, r.values "worker_ip" = r.values "zerotier_ip"
  jobs : Migrates (missingJobsColumns.map (·.1)) [originIndex.name, queueIndex.name]
    (ensured d .jobs jobsColumns) p.jobs
  sessions : Migrates (missingPiSessionsColumns.map (·.1)) [] (ensured d .piSessions piSessionsColumns) p.sessions
  events : EventsMigrated (ensured d .piSessionEvents piSessionEventsColumns) p.events
  commands : Migrates [missingPayloadColumn.1] [pendingIndex.name]
    (ensured d .piSessionCommands piSessionCommandsColumns) p.commands

theorem ensured_put {m : TableName} {o : Option (Table String)} (h : n ≠ m) (columns : List String) :
    ensured (d.put m o) n columns = ensured d n columns := by
  simp only [ensured, put_tables, Function.update_of_ne h]

/-- The parts of the schema do not depend on each other. -/
theorem initSchema_eq (h : Recognised d) : ∃ p : Parts, p.Of d ∧ initSchema d = .ok (migrated d p) := by
  obtain ⟨workers, hworkers, hmw, haddress⟩ := initWorkers_eq d
  generalize hd₁ : d.put .workers (some workers) = d₁ at hworkers
  have hj₁ : ensured d₁ .jobs jobsColumns = ensured d .jobs jobsColumns := hd₁ ▸ ensured_put (by decide) _
  obtain ⟨jobs, hjobs, hmj⟩ := initJobs_eq (hj₁ ▸ h.ensured_required .jobs (by decide))
  generalize hd₂ : d₁.put .jobs (some jobs) = d₂ at hjobs
  generalize hd₃ : ((d₂.createTable .portForwards portForwardsColumns).createTable .marimoSessions
    marimoSessionsColumns).createTable .failures failuresColumns = d₃
  have hens₃ : ∀ n columns, n = .piSessions ∨ n = .piSessionEvents ∨ n = .piSessionCommands →
      ensured d₃ n columns = ensured d n columns := by
    rintro n columns (rfl | rfl | rfl) <;> simp [← hd₃, ← hd₂, ← hd₁, createTable_eq, ensured]
  obtain ⟨sessions, hsessions, hms⟩ := initPiSessions_eq d₃
  rw [hens₃ _ _ (by decide)] at hms
  generalize hd₄ : d₃.put .piSessions (some sessions) = d₄ at hsessions
  have he₄ : ensured d₄ .piSessionEvents piSessionEventsColumns =
    ensured d .piSessionEvents piSessionEventsColumns := by
    rw [← hd₄, ensured_put (by decide), hens₃ _ _ (by decide)]
  obtain ⟨events, hevents, hme⟩ := initPiSessionEvents_eq (he₄ ▸ h.ensured_events)
  generalize hd₅ : d₄.put .piSessionEvents (some events) = d₅ at hevents
  have hc₅ : ensured d₅ .piSessionCommands piSessionCommandsColumns =
      ensured d .piSessionCommands piSessionCommandsColumns := by
    rw [← hd₅, ensured_put (by decide), ← hd₄, ensured_put (by decide), hens₃ _ _ (by decide)]
  obtain ⟨commands, hcommands, hmc⟩ := initPiSessionCommands_eq
    (hc₅ ▸ h.ensured_required .piSessionCommands (by decide))
  generalize hd₆ : d₅.put .piSessionCommands (some commands) = d₆ at hcommands
  have hs₆ : d₆.tables .piSessions = some sessions := by simp [← hd₆, ← hd₅, ← hd₄]
  have he₆ : d₆.tables .piSessionEvents = some events := by simp [← hd₆, ← hd₅]
  have hc₆ : d₆.tables .piSessionCommands = some commands := by simp [← hd₆]
  have hbase : sessionsBase ⊆ sessions.columns :=
    List.Subset.trans (h.ensured_required .piSessions (by decide)) hms.columns
  rw [hj₁] at hmj
  rw [he₄] at hme
  rw [hc₅] at hmc
  have hcbase : "session_id" ∈ commands.columns :=
    hmc.columns (h.ensured_required .piSessionCommands (by decide) (by decide))
  have hremove := removeDelegated_eq hs₆ hbase he₆ hc₆ (hme.columns h.ensured_events.base) hcbase
  refine ⟨⟨workers, jobs, sessions, events, commands⟩, ⟨hmw, haddress, hmj, hms, hme, hmc⟩, ?_⟩
  simp only [initSchema, hworkers, hjobs, bind, Except.bind, hd₃, hsessions, hevents, hcommands]
  refine hremove.trans (congrArg Except.ok ?_)
  simp only [createTable_eq] at hd₃
  rw [← hd₆, ← hd₅, ← hd₄, ← hd₃, ← hd₂, ← hd₁]
  refine Schema.ext (funext fun n => ?_) rfl
  cases n <;> simp [migrated, ensured]

def SameRow (keep : Row String → String → Prop) (r r' : Row String) : Prop :=
  r'.rowid = r.rowid ∧ ∀ c, keep r c → r'.values c = r.values c

theorem Keeps.forall₂ {keep : Row String → String → Prop} (h : Keeps keep t t') (p p' : Row String → Bool)
    (hp : ∀ r ∈ t.rows, ∀ r', SameRow keep r r' → p' r' = p r) :
    List.Forall₂ (SameRow keep) (t.rows.filter p) (t'.rows.filter p') := by
  obtain ⟨f, hf, hkeep⟩ := h
  have hfilter : t'.rows.filter p' = (t.rows.filter p).map fun r => { r with values := f r } := by
    rw [hf, Table.mapRows, List.filter_map]
    exact congrArg _ (List.filter_congr fun r hr => hp r hr _ ⟨rfl, hkeep r hr⟩)
  rw [hfilter, List.forall₂_map_right_iff]
  exact List.forall₂_same.mpr fun r hr => ⟨rfl, hkeep r (List.mem_filter.mp hr).1⟩

theorem Keeps.forall₂_all {keep : Row String → String → Prop} (h : Keeps keep t t') :
    List.Forall₂ (SameRow keep) t.rows t'.rows := by
  simpa using h.forall₂ (fun _ => true) (fun _ => true) fun _ _ _ _ => rfl

def removed (d : Schema) : List Value := removedIds (ensured d .piSessions piSessionsColumns)

/-- What the migration makes of the data of a database. -/
structure Migrated (d d' : Schema) : Prop where
  workers : ∀ t, d.tables .workers = some t → ∃ t', d'.tables .workers = some t' ∧
    List.Forall₂ (SameRow fun _ c => c ∈ t.columns) t.rows t'.rows ∧
    ("worker_ip" ∉ t.columns → "zerotier_ip" ∈ t.columns →
      ∀ r ∈ t'.rows, r.values "worker_ip" = r.values "zerotier_ip")
  jobs : ∀ t, d.tables .jobs = some t → ∃ t', d'.tables .jobs = some t' ∧
    List.Forall₂ (SameRow fun _ c => c ∈ t.columns) t.rows t'.rows
  others : ∀ n ∈ [TableName.portForwards, .marimoSessions, .failures], ∀ t, d.tables n = some t →
    d'.tables n = some t
  sessions : ∀ t, d.tables .piSessions = some t → ∃ t', d'.tables .piSessions = some t' ∧
    List.Forall₂ (SameRow fun r c => c ∈ t.columns ∧
        (c = "parent_session_id" → isIn (r.values "parent_session_id") (removed d) = false))
      (t.rows.filter fun r => !delegated r) t'.rows
  events : ∀ t, d.tables .piSessionEvents = some t → ∃ t', d'.tables .piSessionEvents = some t' ∧
    List.Forall₂ (SameRow fun r c => c ∈ t.columns ∧ (c = "sequence" → unsequenced r = false))
      (t.rows.filter fun r => !isIn (r.values "session_id") (removed d)) t'.rows
  commands : ∀ t, d.tables .piSessionCommands = some t → ∃ t', d'.tables .piSessionCommands = some t' ∧
    List.Forall₂ (SameRow fun _ c => c ∈ t.columns)
      (t.rows.filter fun r => !isIn (r.values "session_id") (removed d)) t'.rows
  parents : ∀ t', d'.tables .piSessions = some t' → ∀ r ∈ t'.rows, delegated r = false ∧
    isIn (r.values "parent_session_id") (removed d) = false
  dependents : ∀ n ∈ [TableName.piSessionEvents, .piSessionCommands], ∀ t', d'.tables n = some t' → ∀ r ∈ t'.rows,
    isIn (r.values "session_id") (removed d) = false
  sequences : ∀ t', d'.tables .piSessionEvents = some t' → (∀ s, Increasing t' s) ∧ sequenceIndex ∈ t'.indexes ∧
    t'.rows.Pairwise fun r r' => Table.sameKey sequenceIndex.columns r.values r'.values = false
  routers : ∀ n ∈ [TableName.piRouterRequests, .piRouterConfig, .piDelegations], d'.tables n = none

section Outcome

variable {p : Parts} (h : Recognised d) (hp : p.Of d)

include h hp

theorem removedIds_sessions : removedIds p.sessions = removed d := by
  refine removedIds_of_keeps hp.sessions.rows fun _ _ => ?_
  have hbase : requiredColumns .piSessions ⊆ (ensured d .piSessions piSessionsColumns).columns :=
    h.ensured_required .piSessions (by decide)
  exact ⟨hbase (by decide), hbase (by decide)⟩

theorem sessions_migrated (ht : d.tables .piSessions = some t) :
    List.Forall₂ (SameRow fun r c => c ∈ t.columns ∧
        (c = "parent_session_id" → isIn (r.values "parent_session_id") (removed d) = false))
      (t.rows.filter fun r => !delegated r)
      ((withoutParents (removedIds p.sessions) p.sessions).rows.filter fun r => !delegated r) := by
  have hens : ensured d .piSessions piSessionsColumns = t := by rw [ensured, ht, Option.getD_some]
  have hrows := hp.sessions.rows
  rw [hens] at hrows
  rw [removedIds_sessions h hp]
  refine Keeps.forall₂ (Keeps.trans hrows (keeps_withoutParents _ _) fun r v hv c hc => ⟨hc.1, fun heq => ?_⟩) _ _
    fun r _ r' hsame => ?_
  · change isIn (v "parent_session_id") (removed d) = false
    rw [hv _ (heq ▸ hc.1)]
    exact hc.2 heq
  · have htype := hsame.2 "session_type" ⟨h.required .piSessions t ht (by decide),
      fun heq => absurd heq (by decide)⟩
    rw [delegated, delegated, htype]

theorem events_migrated (ht : d.tables .piSessionEvents = some t) :
    List.Forall₂ (SameRow fun r c => c ∈ t.columns ∧ (c = "sequence" → unsequenced r = false))
      (t.rows.filter fun r => !isIn (r.values "session_id") (removed d))
      (withoutDependents (removedIds p.sessions) p.events).rows := by
  have hens : ensured d .piSessionEvents piSessionEventsColumns = t := by rw [ensured, ht, Option.getD_some]
  have hrows := hp.events.rows
  rw [hens] at hrows
  rw [removedIds_sessions h hp]
  refine Keeps.forall₂ hrows _ _ fun r _ r' hsame => ?_
  have hsession := hsame.2 "session_id" ⟨(h.events t ht).base, fun heq => absurd heq (by decide)⟩
  exact congrArg (fun v => !isIn v (removed d)) hsession

theorem commands_migrated (ht : d.tables .piSessionCommands = some t) :
    List.Forall₂ (SameRow fun _ c => c ∈ t.columns)
    (t.rows.filter fun r => !isIn (r.values "session_id") (removed d))
      (withoutDependents (removedIds p.sessions) p.commands).rows := by
  have hens : ensured d .piSessionCommands piSessionCommandsColumns = t := by rw [ensured, ht, Option.getD_some]
  have hrows := hp.commands.rows
  rw [hens] at hrows
  rw [removedIds_sessions h hp]
  refine Keeps.forall₂ hrows _ _ fun r _ r' hsame => ?_
  have hsession := hsame.2 "session_id" (h.required .piSessionCommands t ht (by decide))
  exact congrArg (fun v => !isIn v (removed d)) hsession

theorem sequences_migrated : (∀ s, Increasing (withoutDependents (removedIds p.sessions) p.events) s) ∧
    sequenceIndex ∈ (withoutDependents (removedIds p.sessions) p.events).indexes ∧
    (withoutDependents (removedIds p.sessions) p.events).rows.Pairwise fun r r' =>
      Table.sameKey sequenceIndex.columns r.values r'.values = false := by
  have hinc : ∀ s, Increasing (withoutDependents (removedIds p.sessions) p.events) s := fun s =>
    (hp.events.increasing s).of_subset (withoutDependents_rows _ _)
  refine ⟨hinc, ?_, pairwise_sequenceIndex hinc⟩
  obtain ⟨i, hi, hname⟩ := hp.events.indexed
  rcases hp.events.indexes i hi with hold | rfl
  · exact h.ensured_events.sequenceIndex i hold hname ▸ hi
  · exact hi

theorem migrated_migrated : Migrated d (migrated d p) where
  workers t ht := by
    have hens : ensured d .workers workersColumns = t := by rw [ensured, ht, Option.getD_some]
    have hrows := hp.workers.rows
    have haddress := hp.address
    rw [hens] at hrows haddress
    exact ⟨_, rfl, hrows.forall₂_all, haddress⟩
  jobs t ht := by
    have hens : ensured d .jobs jobsColumns = t := by rw [ensured, ht, Option.getD_some]
    have hrows := hp.jobs.rows
    rw [hens] at hrows
    exact ⟨_, rfl, hrows.forall₂_all⟩
  others n hn t ht := by
    simp only [List.mem_cons, List.not_mem_nil, or_false] at hn
    rcases hn with rfl | rfl | rfl <;> simp [migrated, ensured, ht]
  sessions t ht := ⟨_, rfl, sessions_migrated h hp ht⟩
  events t ht := ⟨_, rfl, events_migrated h hp ht⟩
  commands t ht := ⟨_, rfl, commands_migrated h hp ht⟩
  parents t' ht' r hr := by
    cases ht'
    obtain ⟨hr, hlive⟩ := List.mem_filter.mp hr
    rw [← removedIds_sessions h hp]
    exact ⟨by simpa using hlive, isIn_withoutParents hr⟩
  dependents n hn t' ht' r hr := by
    rw [← removedIds_sessions h hp]
    simp only [List.mem_cons, List.not_mem_nil, or_false] at hn
    rcases hn with rfl | rfl <;> cases ht' <;> simpa using (List.mem_filter.mp hr).2
  sequences t' ht' := by
    cases ht'
    exact sequences_migrated h hp
  routers n hn := by
    simp only [List.mem_cons, List.not_mem_nil, or_false] at hn
    rcases hn with rfl | rfl | rfl <;> rfl

theorem migrated_current : Current (migrated d p) where
  workers := ⟨_, rfl, hp.workers.added⟩
  jobs := ⟨_, rfl, hp.jobs.added, hp.jobs.indexed⟩
  others n hn := by
    simp only [List.mem_cons, List.not_mem_nil, or_false] at hn
    rcases hn with rfl | rfl | rfl <;> exact ⟨_, rfl⟩
  sessions := by
    refine ⟨_, rfl, hp.sessions.added, ?_, fun r hr => by simpa using (List.mem_filter.mp hr).2⟩
    exact List.Subset.trans (h.ensured_required .piSessions (by decide)) hp.sessions.columns
  events := by
    refine ⟨_, rfl, ?_, hp.events.indexed, hp.events.trigger, fun r hr => ?_⟩
    · exact List.cons_subset.mpr ⟨hp.events.columns h.ensured_events.base,
        List.cons_subset.mpr ⟨hp.events.sequence, List.nil_subset _⟩⟩
    · exact (hp.events.increasing _).sequenced (withoutDependents_rows _ _ hr) rfl
  commands := by
    refine ⟨_, rfl, List.cons_subset.mpr ⟨?_, hp.commands.added⟩,
      hp.commands.indexed _ (List.mem_singleton.mpr rfl)⟩
    exact hp.commands.columns (h.ensured_required .piSessionCommands (by decide) (by decide))
  routers n hn := by
    simp only [List.mem_cons, List.not_mem_nil, or_false] at hn
    rcases hn with rfl | rfl | rfl <;> rfl

end Outcome

/-- The migration of an earlier layout succeeds, keeps the data, and changes nothing the second time. -/
theorem schema_migrates (h : Recognised d) : ∃ d', initSchema d = .ok d' ∧ Migrated d d' ∧
    initSchema d' = .ok d' := by
  obtain ⟨p, hp, hinit⟩ := initSchema_eq h
  exact ⟨migrated d p, hinit, migrated_migrated h hp, initSchema_self (migrated_current h hp)⟩

def row (rowid : ℕ) (cells : List (String × Value)) : Row String := ⟨rowid, fun c => (cells.lookup c).getD .null⟩

def legacyWorkers : Table String :=
  { Table.create ["id", "name", "zerotier_ip"] with
    rows := [row 1 [("id", .text "gpu-rig-1"), ("name", .text "rig"), ("zerotier_ip", .text "10.147.17.5")]],
    ordered := List.pairwise_singleton _ _ }

def legacySessions : Table String :=
  { Table.create sessionsBase with
    rows := [row 1 [("id", .text "legacy"), ("session_type", .text "delegated")],
      row 2 [("id", .text "task-one"), ("parent_session_id", .text "legacy"),
        ("session_type", .text "interactive")]],
    ordered := by decide }

def legacyEvents : Table String :=
  { Table.create ["id", "session_id"] with
    rows := [row 1 [("id", .text "e1"), ("session_id", .text "task-one")],
      row 2 [("id", .text "e2"), ("session_id", .text "legacy")],
      row 3 [("id", .text "e3"), ("session_id", .text "task-one")]],
    ordered := by decide }

def legacy : Schema where
  tables
    | .workers => some legacyWorkers
    | .piSessions => some legacySessions
    | .piSessionEvents => some legacyEvents
    | .piDelegations => some (Table.create ["id", "session_id"])
    | _ => none
  foreignKeys := true

theorem recognised_legacy : Recognised legacy where
  required n t ht := by cases n <;> cases ht <;> decide
  events t ht := by
    cases ht
    exact ⟨by decide, fun hseq => absurd hseq (by decide), by
      decide, fun _ hi => (nomatch hi), fun _ hi => (nomatch hi)⟩

-- An event of `task-one` as it is inserted.
def arriving (rowid : ℕ) (id : String) : Row String :=
  row rowid [("id", .text id), ("session_id", .text "task-one"), ("sequence", .integer 0)]

/-- Events that came in by the trigger. -/
def sequencedEvents : Table String :=
  insertEvent (insertEvent (Table.create ["id", "session_id", "sequence"]) (arriving 1 "e1") nofun)
    (arriving 2 "e2") (by decide)

theorem increasing_sequencedEvents (s : Value) : Increasing sequencedEvents s := by
  have hcreated : ∀ s, Increasing (Table.create ["id", "session_id", "sequence"]) s := fun _ => ⟨nofun, nofun⟩
  have hfirst : ∀ s, Increasing (insertEvent (Table.create ["id", "session_id", "sequence"])
    (arriving 1 "e1") nofun) s :=
    increasing_insertEvent hcreated rfl (by decide)
  exact increasing_insertEvent hfirst rfl (by decide) s

def sequenced : Schema where
  tables
    | .piSessions => some legacySessions
    | .piSessionEvents => some sequencedEvents
    | _ => none
  foreignKeys := true

theorem recognised_sequenced : Recognised sequenced where
  required n t ht := by cases n <;> cases ht <;> decide
  events t ht := by
    cases ht
    exact ⟨by decide, fun _ s => .inr (increasing_sequencedEvents s), by
      decide, fun _ hi => (nomatch hi), fun _ hi => (nomatch hi)⟩

theorem schema_migrates_legacy : removed legacy = [.text "legacy"] ∧
    (∃ d', initSchema legacy = .ok d' ∧ Migrated legacy d' ∧ initSchema d' = .ok d') ∧
    ∃ d', initSchema sequenced = .ok d' ∧ Migrated sequenced d' ∧ initSchema d' = .ok d' :=
  ⟨by decide, schema_migrates recognised_legacy, schema_migrates recognised_sequenced⟩

end WorkerHarness.SchemaMigration
