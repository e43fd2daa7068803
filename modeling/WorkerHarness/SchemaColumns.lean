import WorkerHarness.DatabaseSchema

/-!
# Columns of an earlier version

The statements of `_init_schema` that create tables, columns and indexes leave the values of the other
columns where they are.
-/

namespace WorkerHarness.SchemaMigration

open SqlTables DatabaseSchema

variable {d d' : Schema} {n : TableName} {t t' t'' : Table String}

@[simp] theorem put_tables (d : Schema) (n : TableName) (t : Option (Table String)) :
    (d.put n t).tables = Function.update d.tables n t := rfl

@[simp] theorem put_foreignKeys (d : Schema) (n : TableName) (t : Option (Table String)) :
    (d.put n t).foreignKeys = d.foreignKeys := rfl

theorem put_table (d : Schema) (n : TableName) (o : Option (Table String)) : (d.put n o).tables n = o := by
  simp

theorem put_self {o : Option (Table String)} (h : d.tables n = o) : d.put n o = d := by
  subst h
  simp [Schema.put]

theorem put_put (d : Schema) (n : TableName) (o o' : Option (Table String)) :
    (d.put n o).put n o' = d.put n o' := by
  simp [Schema.put]

def ensured (d : Schema) (n : TableName) (columns : List String) : Table String :=
  (d.tables n).getD (Table.create columns)

theorem createTable_eq (d : Schema) (n : TableName) (columns : List String) :
    d.createTable n columns = d.put n (some (ensured d n columns)) := by
  unfold Schema.createTable ensured
  cases h : d.tables n with
  | none => rfl
  | some t => exact (put_self h).symm

theorem mentions_eq {cs : List String} (h : ∀ c ∈ cs, c ∈ t.columns) : t.mentions cs = .ok () := if_pos h

theorem alterTable_eq {cs : List String} {f : Table String → Except SqlError (Table String)}
    (ht : d.tables n = some t)
    (hcs : ∀ c ∈ cs, c ∈ t.columns) (hf : f t = .ok t') : d.alterTable n cs f = .ok (d.put n (some t')) := by
  simp only [Schema.alterTable, ht, mentions_eq hcs, hf]
  rfl

theorem mentions_none : ∀ c ∈ ([] : List String), c ∈ t.columns := fun _ h => nomatch h

def Keeps (keep : Row String → String → Prop) (t t' : Table String) : Prop :=
  ∃ f : Row String → String → Value, t'.rows = (t.mapRows f).rows ∧ ∀ r ∈ t.rows, ∀ c, keep r c → f r c = r.values c

abbrev Extends (cs : List String) (t t' : Table String) : Prop := Keeps (fun _ c => c ∈ cs) t t'

theorem Extends.refl (cs : List String) (t : Table String) : Extends cs t t :=
  ⟨fun r => r.values, (congrArg Table.rows (Table.mapRows_self fun _ _ => rfl)).symm, fun _ _ _ _ => rfl⟩

/-- What is kept twice is kept. -/
theorem Keeps.trans {keep keep' keep'' : Row String → String → Prop} (h : Keeps keep t t') (h' : Keeps keep' t' t'')
    (hk : ∀ r v, (∀ c, keep r c → v c = r.values c) → ∀ c, keep'' r c → keep r c ∧ keep' { r with values := v } c) :
    Keeps keep'' t t'' := by
  obtain ⟨f, hf, hkeep⟩ := h
  obtain ⟨g, hg, hkeep'⟩ := h'
  refine ⟨fun r => g { r with values := f r }, ?_, fun r hr c hc => ?_⟩
  · calc t''.rows = t'.rows.map (fun r => { r with values := g r }) := hg
      _ = ((t.mapRows f).mapRows g).rows := by rw [hf]; rfl
      _ = (t.mapRows fun r => g { r with values := f r }).rows := by rw [Table.mapRows_mapRows]
  · have hmem : ({ r with values := f r } : Row String) ∈ t'.rows := hf ▸ List.mem_map.mpr ⟨r, hr, rfl⟩
    obtain ⟨hc₁, hc₂⟩ := hk r (f r) (hkeep r hr) c hc
    exact (hkeep' _ hmem c hc₂).trans (hkeep r hr c hc₁)

theorem Extends.trans {cs : List String} (h : Extends cs t t') (h' : Extends cs t' t'') : Extends cs t t'' :=
  Keeps.trans h h' fun _ _ _ _ hc => ⟨hc, hc⟩

theorem Extends.mono {cs cs' : List String} (h : Extends cs t t') (hcs : cs' ⊆ cs) : Extends cs' t t' :=
  h.imp fun _ hf => ⟨hf.1, fun r hr c hc => hf.2 r hr c (hcs hc)⟩

theorem Extends.row {cs : List String} {r' : Row String} (h : Extends cs t t') (hr' : r' ∈ t'.rows) :
    ∃ r ∈ t.rows, r'.rowid = r.rowid ∧ ∀ c ∈ cs, r'.values c = r.values c := by
  obtain ⟨f, hf, hkeep⟩ := h
  obtain ⟨r, hr, rfl⟩ := List.mem_map.mp (hf ▸ hr')
  exact ⟨r, hr, rfl, hkeep r hr⟩

structure Widened (names : List String) (t t' : Table String) : Prop where
  columns : t.columns ⊆ t'.columns
  fresh : ∀ c ∈ t'.columns, c ∈ t.columns ∨ c ∈ names
  indexes : t'.indexes = t.indexes
  triggers : t'.triggers = t.triggers
  rows : Extends t.columns t t'

theorem Widened.refl (names : List String) (t : Table String) : Widened names t t :=
  ⟨List.Subset.refl _, fun _ h => .inl h, rfl, rfl, .refl _ t⟩

theorem Widened.trans {names names' : List String} (h : Widened names t t') (h' : Widened names' t' t'') :
    Widened (names ++ names') t t'' where
  columns := List.Subset.trans h.columns h'.columns
  fresh c hc := by
    rcases h'.fresh c hc with hc | hc
    · exact (h.fresh c hc).imp_right (List.mem_append_left _)
    · exact .inr (List.mem_append_right _ hc)
  indexes := h'.indexes.trans h.indexes
  triggers := h'.triggers.trans h.triggers
  rows := h.rows.trans (h'.rows.mono h.columns)

theorem Widened.known_or_new {names : List String} {c : String} (h : Widened names t t') (hc : c ∉ names) :
    c ∈ t.columns ∨ c ∉ t'.columns := by
  by_cases hmem : c ∈ t.columns
  · exact .inl hmem
  · exact .inr fun hmem' => (h.fresh c hmem').elim hmem hc

theorem addColumn_widened {c : String} (v : Value) (hc : c ∉ t.columns) :
    ∃ t', t.addColumn c v = .ok t' ∧ Widened [c] t t' ∧ c ∈ t'.columns ∧ ∀ r ∈ t'.rows, r.values c = v := by
  refine ⟨_, if_neg hc, ⟨List.subset_append_left _ _, fun c' hc' => List.mem_append.mp hc', rfl, rfl, ?_⟩,
    List.mem_append_right _ (List.mem_singleton.mpr rfl), fun r hr => ?_⟩
  · refine ⟨fun r => Function.update r.values c v, rfl, fun r _ c' hc' => ?_⟩
    have hne : c' ≠ c := fun heq => hc (heq ▸ hc')
    exact Function.update_of_ne hne _ _
  · obtain ⟨r', -, rfl⟩ := List.mem_map.mp hr
    exact Function.update_self ..

theorem addMissing_widened {cols : List String} (cv : String × Value) (ht : d.tables n = some t)
    (hcols : cols ⊆ t.columns) (hnew : cv.1 ∈ cols ∨ cv.1 ∉ t.columns) :
    ∃ t', addMissing n cols d cv = .ok (d.put n (some t')) ∧ Widened [cv.1] t t' ∧ cv.1 ∈ t'.columns ∧
      (cv.1 ∉ cols → ∀ r ∈ t'.rows, r.values cv.1 = cv.2) := by
  by_cases hmem : cv.1 ∈ cols
  · refine ⟨t, ?_, .refl _ t, hcols hmem, fun hn => absurd hmem hn⟩
    rw [addMissing, if_pos hmem, put_self ht]
  · obtain ⟨t', hadd, hw, hc, hv⟩ := addColumn_widened cv.2 (hnew.resolve_left hmem)
    refine ⟨t', ?_, hw, hc, fun _ => hv⟩
    rw [addMissing, if_neg hmem]
    exact alterTable_eq ht mentions_none hadd

theorem foldlM_addMissing {cols : List String} (cvs : List (String × Value)) (ht : d.tables n = some t)
    (hcols : cols ⊆ t.columns) (hnew : ∀ cv ∈ cvs, cv.1 ∈ cols ∨ cv.1 ∉ t.columns)
    (hnodup : (cvs.map (·.1)).Nodup) :
    ∃ t', cvs.foldlM (addMissing n cols) d = .ok (d.put n (some t')) ∧ Widened (cvs.map (·.1)) t t' ∧
      ∀ cv ∈ cvs, cv.1 ∈ t'.columns := by
  induction cvs generalizing d t with
  | nil =>
    refine ⟨t, ?_, .refl _ t, fun _ h => nomatch h⟩
    rw [put_self ht]
    rfl
  | cons cv cvs ih =>
    obtain ⟨hcv, hnodup⟩ := List.nodup_cons.mp hnodup
    obtain ⟨t₁, hadd, hw₁, hmem, -⟩ := addMissing_widened cv ht hcols (hnew cv (List.mem_cons_self ..))
    have ht₁ : (d.put n (some t₁)).tables n = some t₁ := put_table ..
    have hnew₁ : ∀ cv' ∈ cvs, cv'.1 ∈ cols ∨ cv'.1 ∉ t₁.columns := fun cv' hcv' => by
      refine (hnew cv' (List.mem_cons_of_mem _ hcv')).imp_right fun hn hmem' => ?_
      rcases hw₁.fresh _ hmem' with hold | hname
      · exact hn hold
      · exact hcv (List.mem_map.mpr ⟨cv', hcv', List.mem_singleton.mp hname⟩)
    obtain ⟨t₂, hfold, hw₂, hall⟩ := ih ht₁ (List.Subset.trans hcols hw₁.columns) hnew₁ hnodup
    refine ⟨t₂, ?_, hw₁.trans hw₂, fun cv' hcv' => ?_⟩
    · rw [List.foldlM_cons, hadd]
      exact hfold.trans (by rw [put_put])
    · rcases List.mem_cons.mp hcv' with rfl | hcv'
      · exact hw₂.columns hmem
      · exact hall cv' hcv'

theorem createIndex_eq {i : Index String} (hname : ∀ j ∈ t.indexes, j.name ≠ i.name)
    (hcolumns : i.columns ⊆ t.columns)
    (hunique : i.unique = true → t.rows.Pairwise fun r r' => Table.sameKey i.columns r.values r'.values = false) :
    ∃ t', t.createIndex i = .ok t' ∧ t'.columns = t.columns ∧ t'.rows = t.rows ∧ t'.triggers = t.triggers ∧
      t'.indexes = t.indexes ++ [i] := by
  have hnone : ¬∃ j ∈ t.indexes, j.name = i.name := fun ⟨j, hj, heq⟩ => hname j hj heq
  have hok : ¬(i.unique = true ∧ ¬t.rows.Pairwise fun r r' => Table.sameKey i.columns r.values r'.values = false) :=
    fun ⟨hu, hn⟩ => hn (hunique hu)
  rw [Table.createIndex, if_neg hnone, dif_pos hcolumns, if_neg hok]
  exact ⟨_, rfl, rfl, rfl, rfl, rfl⟩

/-- An index that is there, or can be built. -/
theorem createIndex_indexed {i : Index String} (hcolumns : i.columns ⊆ t.columns)
    (hunique : i.unique = true → t.rows.Pairwise fun r r' => Table.sameKey i.columns r.values r'.values = false) :
    ∃ t', t.createIndex i = .ok t' ∧ t'.columns = t.columns ∧ t'.rows = t.rows ∧ t'.triggers = t.triggers ∧
      (∀ j ∈ t'.indexes, j ∈ t.indexes ∨ j = i) ∧ t.indexes ⊆ t'.indexes ∧ ∃ j ∈ t'.indexes, j.name = i.name := by
  by_cases h : ∃ j ∈ t.indexes, j.name = i.name
  · exact ⟨t, if_pos h, rfl, rfl, rfl, fun _ hj => .inl hj, List.Subset.refl _, h⟩
  · obtain ⟨t', heq, hc, hr, htr, hi⟩ := createIndex_eq (fun j hj heq => h ⟨j, hj, heq⟩) hcolumns hunique
    refine ⟨t', heq, hc, hr, htr, fun j hj => ?_, hi ▸ List.subset_append_left _ _, i, ?_, rfl⟩
    · exact (List.mem_append.mp (hi ▸ hj)).imp_right List.mem_singleton.mp
    · exact hi ▸ List.mem_append_right _ (List.mem_singleton.mpr rfl)

theorem addWorkerIp_widened {cols : List String} (ht : d.tables .workers = some t) (hcols : cols ⊆ t.columns)
    (hnew : "worker_ip" ∈ cols ∨ "worker_ip" ∉ t.columns) :
    ∃ t', addWorkerIp cols d = .ok (d.put .workers (some t')) ∧ Widened ["worker_ip"] t t' ∧
    "worker_ip" ∈ t'.columns ∧
      ("worker_ip" ∉ cols → "zerotier_ip" ∈ cols → ∀ r ∈ t'.rows, r.values "worker_ip" =
        r.values "zerotier_ip") := by
  by_cases hmem : "worker_ip" ∈ cols
  · refine ⟨t, ?_, .refl _ t, hcols hmem, fun hn => absurd hmem hn⟩
    rw [addWorkerIp, if_pos hmem, put_self ht]
  have hout := hnew.resolve_left hmem
  by_cases hzero : "zerotier_ip" ∈ cols
  · obtain ⟨t₁, hadd, hw, hip, hnull⟩ := addColumn_widened .null hout
    have hne : "zerotier_ip" ≠ "worker_ip" := by decide
    have hupdate : t₁.update "worker_ip" (fun _ r => r.values "zerotier_ip") unaddressed =
        .ok (t₁.assign "worker_ip" unaddressed fun r => r.values "zerotier_ip") := by
      refine Table.update_eq_assign (fun _ _ _ _ _ => rfl) fun q _ r _ _ => Table.clash_eq_false fun i hi _ hc => ?_
      -- No index can be on a column that has just been added.
      have hi' : i ∈ t.indexes := hw.indexes ▸ hi
      exact absurd (t.indexed i hi' hc) hout
    have hmentioned : ∀ c ∈ ["worker_ip", "zerotier_ip"], c ∈ t₁.columns := fun c hc => by
      simp only [List.mem_cons, List.not_mem_nil, or_false] at hc
      rcases hc with rfl | rfl
      · exact hip
      · exact hw.columns (hcols hzero)
    have halter := alterTable_eq (d := d.put .workers (some t₁)) (put_table ..) hmentioned hupdate
    refine ⟨t₁.assign "worker_ip" unaddressed fun r => r.values "zerotier_ip", ?_,
      ⟨hw.columns, hw.fresh, hw.indexes, hw.triggers, hw.rows.trans ?_⟩, hip, fun _ _ r hr => ?_⟩
    · rw [addWorkerIp, if_neg hmem, if_pos hzero, alterTable_eq ht mentions_none hadd]
      exact halter.trans (by rw [put_put])
    · refine ⟨_, rfl, fun r _ c hc => ?_⟩
      have hne' : c ≠ "worker_ip" := fun heq => hout (heq ▸ hc)
      split
      · exact Function.update_of_ne hne' _ _
      · rfl
    · obtain ⟨r₁, hr₁, rfl⟩ := List.mem_map.mp hr
      have hselected : unaddressed r₁ = true := by simp [unaddressed, hnull r₁ hr₁]
      simp only [hselected, if_true]
      rw [Function.update_self, Function.update_of_ne hne]
  · obtain ⟨t', hadd, hw, hip, -⟩ := addColumn_widened (.text "") hout
    refine ⟨t', ?_, hw, hip, fun _ h => absurd h hzero⟩
    rw [addWorkerIp, if_neg hmem, if_neg hzero]
    exact alterTable_eq ht mentions_none hadd

theorem createTable_tableInfo (d : Schema) (n : TableName) (columns : List String) :
    (d.createTable n columns).tableInfo n = (ensured d n columns).columns := by
  rw [createTable_eq]
  simp [Schema.tableInfo]

theorem createTable_tables (d : Schema) (n : TableName) (columns : List String) :
    (d.createTable n columns).tables n = some (ensured d n columns) := by
  rw [createTable_eq]
  simp

/-- The table has what the current version needs, and all that it had. -/
structure Migrates (added names : List String) (t t' : Table String) : Prop where
  columns : t.columns ⊆ t'.columns
  rows : Extends t.columns t t'
  added : added ⊆ t'.columns
  indexed : ∀ name ∈ names, ∃ i ∈ t'.indexes, i.name = name

theorem Widened.migrates {names : List String} (h : Widened names t t') {added : List String}
    (hadded : added ⊆ t'.columns) :
    Migrates added [] t t' := ⟨h.columns, h.rows, hadded, fun _ hn => nomatch hn⟩

theorem subset_of_forall {cvs : List (String × Value)} {cs : List String} (h : ∀ cv ∈ cvs, cv.1 ∈ cs) :
    cvs.map (·.1) ⊆ cs :=
  fun c hc => by
    obtain ⟨cv, hcv, rfl⟩ := List.mem_map.mp hc
    exact h cv hcv

/-- The first statements of each part: the table exists, and has the columns that were added over time. -/
theorem foldlM_createTable (n : TableName) (columns : List String) (cvs : List (String × Value))
    (hnodup : (cvs.map (·.1)).Nodup) (d : Schema) :
    ∃ t', cvs.foldlM (addMissing n ((d.createTable n columns).tableInfo n)) (d.createTable n columns) =
      .ok (d.put n (some t')) ∧ Widened (cvs.map (·.1)) (ensured d n columns) t' ∧
      ∀ cv ∈ cvs, cv.1 ∈ t'.columns := by
  rw [createTable_tableInfo]
  obtain ⟨t', hfold, hw, hall⟩ := foldlM_addMissing cvs (createTable_tables d n columns) (List.Subset.refl _)
    (fun cv _ => (Widened.refl [] _).known_or_new List.not_mem_nil) hnodup
  refine ⟨t', hfold.trans ?_, hw, hall⟩
  rw [createTable_eq, put_put]

theorem addMissing_createTable (d : Schema) (n : TableName) (columns : List String) (cv : String × Value) :
    ∃ t', addMissing n ((d.createTable n columns).tableInfo n) (d.createTable n columns) cv =
    .ok (d.put n (some t')) ∧
      Widened [cv.1] (ensured d n columns) t' ∧ cv.1 ∈ t'.columns ∧
      (cv.1 ∉ (ensured d n columns).columns → ∀ r ∈ t'.rows, r.values cv.1 = cv.2) := by
  rw [createTable_tableInfo]
  obtain ⟨t', hadd, hw, hmem, hdefault⟩ := addMissing_widened cv (createTable_tables d n columns)
    (List.Subset.refl _) ((Widened.refl [] _).known_or_new List.not_mem_nil)
  refine ⟨t', hadd.trans ?_, hw, hmem, hdefault⟩
  rw [createTable_eq, put_put]

theorem initWorkers_eq (d : Schema) : ∃ t', initWorkers d = .ok (d.put .workers (some t')) ∧
    Migrates ("worker_ip" :: (missingTelemetryColumns ++ missingWorkersColumns).map (·.1)) []
      (ensured d .workers workersColumns) t' ∧
    ("worker_ip" ∉ (ensured d .workers workersColumns).columns →
      "zerotier_ip" ∈ (ensured d .workers workersColumns).columns →
        ∀ r ∈ t'.rows, r.values "worker_ip" = r.values "zerotier_ip") := by
  obtain ⟨t₁, hfold₁, hw₁, hall₁⟩ :=
    foldlM_createTable .workers workersColumns missingTelemetryColumns (by decide) d
  rw [createTable_tableInfo] at hfold₁
  generalize ht : ensured d .workers workersColumns = t at *
  obtain ⟨t₂, hip, hw₂, hmem₂, haddress⟩ :=
    addWorkerIp_widened (put_table d .workers (some t₁)) hw₁.columns (hw₁.known_or_new (by decide))
  have hw₁₂ := hw₁.trans hw₂
  have hnew : ∀ cv ∈ missingWorkersColumns, cv.1 ∉ missingTelemetryColumns.map (·.1) ++ ["worker_ip"] := by decide
  obtain ⟨t₃, hfold₃, hw₃, hall₃⟩ := foldlM_addMissing _ (put_table d .workers (some t₂)) hw₁₂.columns
    (fun cv hcv => hw₁₂.known_or_new (hnew cv hcv)) (by decide)
  have hadded : ("worker_ip" :: (missingTelemetryColumns ++ missingWorkersColumns).map (·.1)) ⊆ t₃.columns := by
    refine List.cons_subset.mpr ⟨hw₃.columns hmem₂, subset_of_forall fun cv hcv => ?_⟩
    rcases List.mem_append.mp hcv with hcv | hcv
    · exact hw₃.columns (hw₂.columns (hall₁ cv hcv))
    · exact hall₃ cv hcv
  refine ⟨t₃, ?_, (hw₁₂.trans hw₃).migrates hadded, fun hno hzero r hr => ?_⟩
  · rw [put_put] at hip hfold₃
    simp only [initWorkers, createTable_tableInfo, ht]
    rw [hfold₁]
    change (addWorkerIp t.columns (d.put .workers (some t₁)) >>= fun d => _) = _
    rw [hip]
    exact hfold₃
  · obtain ⟨r₂, hr₂, -, hkeep⟩ := hw₃.rows.row hr
    rw [hkeep _ hmem₂, hkeep _ (hw₁₂.columns hzero)]
    exact haddress hno hzero r₂ hr₂

theorem Migrates.index {added names : List String} (h : Migrates added names t t') {i : Index String}
    (hcolumns : t''.columns = t'.columns) (hrows : t''.rows = t'.rows) (hindexes : t'.indexes ⊆ t''.indexes)
    (hi : ∃ j ∈ t''.indexes, j.name = i.name) : Migrates added (names ++ [i.name]) t t'' := by
  obtain ⟨f, hf, hkeep⟩ := h.rows
  refine ⟨hcolumns ▸ h.columns, ⟨f, hrows.trans hf, hkeep⟩, hcolumns ▸ h.added, fun name hname => ?_⟩
  rcases List.mem_append.mp hname with hname | hname
  · exact (h.indexed name hname).imp fun j hj => ⟨hindexes hj.1, hj.2⟩
  · rw [List.mem_singleton.mp hname]
    exact hi

theorem createIndex_migrates {added names : List String} {i : Index String} (ht : d.tables n = some t')
    (h : Migrates added names t t') (hcolumns : i.columns ⊆ t'.columns)
    (hunique : i.unique = true → t'.rows.Pairwise fun r r' => Table.sameKey i.columns r.values r'.values = false) :
    ∃ t'', d.alterTable n [] (Table.createIndex i) = .ok (d.put n (some t'')) ∧
    Migrates added (names ++ [i.name]) t t'' ∧
      t''.columns = t'.columns ∧ t''.rows = t'.rows ∧ ∀ j ∈ t''.indexes, j ∈ t'.indexes ∨ j = i := by
  obtain ⟨t'', hcreate, hc, hr, -, hold, hindexes, hi⟩ := createIndex_indexed hcolumns hunique
  exact ⟨t'', alterTable_eq ht mentions_none hcreate, h.index hc hr hindexes hi, hc, hr, hold⟩

theorem initJobs_eq (hbase : ["worker_id", "status"] ⊆ (ensured d .jobs jobsColumns).columns) :
    ∃ t', initJobs d = .ok (d.put .jobs (some t')) ∧
      Migrates (missingJobsColumns.map (·.1)) [originIndex.name, queueIndex.name]
      (ensured d .jobs jobsColumns) t' := by
  obtain ⟨t₁, hfold, hw, hall⟩ :=
    foldlM_createTable .jobs jobsColumns missingJobsColumns (by decide) d
  have hadded := subset_of_forall hall
  have hm₁ := hw.migrates hadded
  have horigin : originIndex.columns ⊆ t₁.columns := List.Subset.trans (by decide) hadded
  have hqueue : queueIndex.columns ⊆ t₁.columns := by
    have hsub : queueIndex.columns ⊆ ["worker_id", "status"] ++ missingJobsColumns.map (·.1) := by decide
    exact List.Subset.trans hsub (List.append_subset.mpr ⟨List.Subset.trans hbase hw.columns, hadded⟩)
  obtain ⟨t₂, hi₂, hm₂, hc₂, -, -⟩ := createIndex_migrates (put_table d .jobs (some t₁)) hm₁ horigin
    (fun h => nomatch h)
  obtain ⟨t₃, hi₃, hm₃, -⟩ := createIndex_migrates (i := queueIndex) (put_table d .jobs (some t₂)) hm₂
    (hc₂ ▸ hqueue) (fun h => nomatch h)
  refine ⟨t₃, ?_, hm₃⟩
  rw [put_put] at hi₂ hi₃
  simp only [initJobs]
  rw [hfold]
  change ((d.put .jobs (some t₁)).alterTable .jobs [] (Table.createIndex originIndex) >>= fun d => _) = _
  rw [hi₂]
  exact hi₃

theorem initPiSessions_eq (d : Schema) : ∃ t', initPiSessions d = .ok (d.put .piSessions (some t')) ∧
    Migrates (missingPiSessionsColumns.map (·.1)) [] (ensured d .piSessions piSessionsColumns) t' := by
  obtain ⟨t', hfold, hw, hall⟩ :=
    foldlM_createTable .piSessions piSessionsColumns missingPiSessionsColumns (by decide) d
  exact ⟨t', hfold, hw.migrates (subset_of_forall hall)⟩

theorem initPiSessionCommands_eq
    (hbase : ["session_id", "delivered_at", "created_at"] ⊆ (ensured d .piSessionCommands
      piSessionCommandsColumns).columns) :
    ∃ t', initPiSessionCommands d = .ok (d.put .piSessionCommands (some t')) ∧
      Migrates [missingPayloadColumn.1] [pendingIndex.name]
      (ensured d .piSessionCommands piSessionCommandsColumns) t' := by
  obtain ⟨t₁, hadd, hw, hmem, -⟩ :=
    addMissing_createTable d .piSessionCommands piSessionCommandsColumns missingPayloadColumn
  have hm₁ := hw.migrates (List.cons_subset.mpr ⟨hmem, List.nil_subset _⟩)
  obtain ⟨t₂, hi₂, hm₂, -⟩ := createIndex_migrates (i := pendingIndex)
    (put_table d .piSessionCommands (some t₁)) hm₁
    (List.Subset.trans hbase hw.columns) (fun h => nomatch h)
  refine ⟨t₂, ?_, hm₂⟩
  rw [put_put] at hi₂
  simp only [initPiSessionCommands]
  rw [hadd]
  exact hi₂

end WorkerHarness.SchemaMigration
