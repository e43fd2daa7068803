import WorkerHarness.SchemaColumns

/-!
# The order of events

Events that were inserted before there were sequences are counted, session by session, and the trigger
goes on from there.
-/

namespace WorkerHarness.SchemaMigration

open SqlTables DatabaseSchema

variable {d : Schema} {t t' : Table String}

structure Increasing (t : Table String) (s : Value) : Prop where
  positive : ∀ r ∈ t.rows, r.values "session_id" = s → ∃ k : ℤ, 0 < k ∧ r.values "sequence" = .integer k
  ordered : ∀ r ∈ t.rows, ∀ r' ∈ t.rows, r.values "session_id" = s → r'.values "session_id" = s →
    r.rowid < r'.rowid →
    ∀ k k', r.values "sequence" = .integer k → r'.values "sequence" = .integer k' → k < k'

def InOrder (t : Table String) : Prop :=
  ∀ s, (∀ r ∈ t.rows, r.values "session_id" = s → unsequenced r = true) ∨ Increasing t s

structure Numberable (t : Table String) : Prop where
  order : InOrder t
  sessions : ∀ r ∈ t.rows, r.values "session_id" ≠ .null
  indexes : ∀ i ∈ t.indexes, i.unique = true → "sequence" ∈ i.columns → "session_id" ∈ i.columns

theorem unsequenced_iff {r : Row String} : unsequenced r = true ↔ r.values "sequence" = .integer 0 := by
  constructor
  · exact fun h => (eq_of_sqlEq h).2
  · intro h
    rw [unsequenced, h]
    rfl

theorem Increasing.sequenced {s : Value} {r : Row String} (h : Increasing t s) (hr : r ∈ t.rows)
    (hs : r.values "session_id" = s) : unsequenced r = false := by
  obtain ⟨k, hk, hseq⟩ := h.positive r hr hs
  refine Bool.eq_false_iff.mpr fun hzero => ?_
  have heq := hseq.symm.trans (unsequenced_iff.mp hzero)
  injection heq with heq
  omega

theorem Increasing.of_rows {s : Value} (h : Increasing t s) (hrows : t'.rows = t.rows) : Increasing t' s :=
  ⟨hrows ▸ h.positive, hrows ▸ h.ordered⟩

theorem Increasing.of_subset {s : Value} (h : Increasing t s) (hrows : t'.rows ⊆ t.rows) : Increasing t' s :=
  ⟨fun r hr => h.positive r (hrows hr), fun r hr r' hr' => h.ordered r (hrows hr) r' (hrows hr')⟩

theorem countP_lt {α : Type} {p q : α → Bool} {l : List α} {a : α} (h : ∀ x ∈ l, p x = true → q x = true)
    (ha : a ∈ l)
    (hp : p a = false) (hq : q a = true) : l.countP p < l.countP q := by
  induction l with
  | nil => cases ha
  | cons x xs ih =>
    have hxs : ∀ y ∈ xs, p y = true → q y = true := fun y hy => h y (List.mem_cons_of_mem _ hy)
    rw [List.countP_cons, List.countP_cons]
    rcases List.mem_cons.mp ha with rfl | ha
    · have hle := List.countP_mono_left hxs
      rw [if_neg (by rw [hp]; exact Bool.false_ne_true), if_pos hq]
      omega
    · have hlt := ih hxs ha
      have hhead := h x (List.mem_cons_self ..)
      by_cases hpx : p x = true
      · rw [if_pos hpx, if_pos (hhead hpx)]
        omega
      · rw [if_neg hpx]
        omega

/-- How many events of the session of `event` there are up to it. -/
def priorCount (t : Table String) (event : Row String) : ℕ :=
  t.rows.countP fun prior =>
    sqlEq (prior.values "session_id") (event.values "session_id") && decide (prior.rowid ≤ event.rowid)

theorem priorEvents_eq (t : Table String) (event : Row String) :
    priorEvents t event = .integer (priorCount t event) := rfl

theorem priorCount_pos {r : Row String} (hr : r ∈ t.rows) (hs : r.values "session_id" ≠ .null) :
    0 < priorCount t r := by
  refine List.countP_pos_iff.mpr ⟨r, hr, ?_⟩
  rw [sqlEq_self hs]
  simp

theorem priorCount_lt {r r' : Row String} (hr' : r' ∈ t.rows) (hs : r'.values "session_id" ≠ .null)
    (heq : r.values "session_id" = r'.values "session_id") (hlt : r.rowid < r'.rowid) :
    priorCount t r < priorCount t r' := by
  refine countP_lt (fun prior _ hprior => ?_) hr' ?_ ?_
  · simp only [Bool.and_eq_true, decide_eq_true_eq] at hprior ⊢
    exact ⟨heq ▸ hprior.1, Nat.le_of_lt (Nat.lt_of_le_of_lt hprior.2 hlt)⟩
  · simp [hlt]
  · rw [sqlEq_self hs]
    simp

/-- Sequences do not count. -/
theorem priorEvents_assign (t : Table String) (q : Row String → Bool) (f : Row String → Value) (r : Row String) :
    priorEvents (t.assign "sequence" q f) r = priorEvents t r := by
  have hne : "session_id" ≠ "sequence" := by decide
  simp only [priorEvents, Table.assign, Table.mapRows, List.countP_map]
  congr 2
  refine List.countP_congr fun prior _ => ?_
  simp only [Function.comp]
  split
  · rw [Function.update_of_ne hne]
  · rfl

/-- The new sequence of an event is no other's. -/
theorem clash_priorEvents (h : Numberable t) {q : Row String → Bool}
    {r : Row String} (hr : r ∈ t.rows) (hp : unsequenced r = true) :
    (t.assign "sequence" q (priorEvents t)).clash r "sequence" (priorEvents t r) = false := by
  have hne : "session_id" ≠ "sequence" := by decide
  refine Table.clash_eq_false fun i hi hunique hseq r' hr' hid => Bool.eq_false_iff.mpr fun hkey => ?_
  obtain ⟨r₁, hr₁, rfl⟩ := List.mem_map.mp hr'
  have hsession := (eq_of_sqlEq (List.all_eq_true.mp hkey _ (h.indexes i hi hunique hseq))).2
  have hsequence := (eq_of_sqlEq (List.all_eq_true.mp hkey _ hseq)).2
  rw [Function.update_of_ne hne] at hsession
  rw [Function.update_self] at hsequence
  have hsame : r₁.values "session_id" = r.values "session_id" := by
    dsimp only at hsession
    split at hsession
    · rw [hsession, Function.update_of_ne hne]
    · exact hsession.symm
  -- A session with an unsequenced event has no others.
  have hzero : r₁.values "sequence" = .integer 0 := by
    rcases h.order (r.values "session_id") with hall | hinc
    · exact unsequenced_iff.mp (hall r₁ hr₁ hsame)
    · exact absurd hp (Bool.eq_false_iff.mp (hinc.sequenced hr rfl))
  have hpos := priorCount_pos hr (h.sessions r hr)
  dsimp only at hsequence
  split at hsequence
  · rw [Function.update_self, priorEvents_eq, priorEvents_eq] at hsequence
    injection hsequence with hsequence
    rcases Nat.lt_or_gt_of_ne hid with hlt | hlt
    · have := priorCount_lt hr (h.sessions r hr) hsame hlt
      omega
    · have := priorCount_lt hr₁ (h.sessions r₁ hr₁) hsame.symm hlt
      omega
  · rw [hzero, priorEvents_eq] at hsequence
    injection hsequence with hsequence
    omega

theorem update_priorEvents (h : Numberable t) :
    t.update "sequence" priorEvents unsequenced = .ok (t.assign "sequence" unsequenced (priorEvents t)) :=
  Table.update_eq_assign (fun q _ r _ _ => priorEvents_assign t q _ r) fun _ _ _ hr hp => clash_priorEvents h hr hp

/-- Numbered in the order of insertion. -/
theorem increasing_assign (h : Numberable t) (s : Value) :
    Increasing (t.assign "sequence" unsequenced (priorEvents t)) s := by
  have hne : "session_id" ≠ "sequence" := by decide
  -- An event of the new table is an old one, with its count or with its old sequence.
  have hrow : ∀ r ∈ (t.assign "sequence" unsequenced (priorEvents t)).rows, r.values "session_id" = s →
      ∃ r₁ ∈ t.rows, r₁.rowid = r.rowid ∧ r₁.values "session_id" = s ∧
        r.values "sequence" =
          if unsequenced r₁ = true then .integer (priorCount t r₁) else r₁.values "sequence" := by
    intro r hr hs
    obtain ⟨r₁, hr₁, rfl⟩ := List.mem_map.mp hr
    refine ⟨r₁, hr₁, rfl, ?_, ?_⟩
    · dsimp only at hs
      split at hs
      · rwa [Function.update_of_ne hne] at hs
      · exact hs
    · dsimp only
      split
      · rw [Function.update_self, priorEvents_eq]
      · rfl
  rcases h.order s with hall | hinc
  · refine ⟨fun r hr hs => ?_, fun r hr r' hr' hs hs' hlt k k' hk hk' => ?_⟩
    · obtain ⟨r₁, hr₁, -, hs₁, hseq⟩ := hrow r hr hs
      rw [if_pos (hall r₁ hr₁ hs₁)] at hseq
      exact ⟨_, Int.natCast_pos.mpr (priorCount_pos hr₁ (h.sessions r₁ hr₁)), hseq⟩
    · obtain ⟨r₁, hr₁, hid, hs₁, hseq⟩ := hrow r hr hs
      obtain ⟨r₁', hr₁', hid', hs₁', hseq'⟩ := hrow r' hr' hs'
      rw [if_pos (hall r₁ hr₁ hs₁), hk] at hseq
      rw [if_pos (hall r₁' hr₁' hs₁'), hk'] at hseq'
      injection hseq with hseq
      injection hseq' with hseq'
      have hcount := priorCount_lt hr₁' (h.sessions r₁' hr₁') (hs₁.trans hs₁'.symm) (by rw [hid, hid']; exact hlt)
      omega
  · refine ⟨fun r hr hs => ?_, fun r hr r' hr' hs hs' hlt k k' hk hk' => ?_⟩
    · obtain ⟨r₁, hr₁, -, hs₁, hseq⟩ := hrow r hr hs
      rw [if_neg (Bool.eq_false_iff.mp (hinc.sequenced hr₁ hs₁))] at hseq
      obtain ⟨k, hk, hk'⟩ := hinc.positive r₁ hr₁ hs₁
      exact ⟨k, hk, hseq.trans hk'⟩
    · obtain ⟨r₁, hr₁, hid, hs₁, hseq⟩ := hrow r hr hs
      obtain ⟨r₁', hr₁', hid', hs₁', hseq'⟩ := hrow r' hr' hs'
      rw [if_neg (Bool.eq_false_iff.mp (hinc.sequenced hr₁ hs₁)), hk] at hseq
      rw [if_neg (Bool.eq_false_iff.mp (hinc.sequenced hr₁' hs₁')), hk'] at hseq'
      exact hinc.ordered r₁ hr₁ r₁' hr₁' hs₁ hs₁' (by rw [hid, hid']; exact hlt) k k' hseq.symm hseq'.symm

/-- The unique index can be built. -/
theorem pairwise_sequenceIndex (h : ∀ s, Increasing t s) :
    t.rows.Pairwise fun r r' => Table.sameKey sequenceIndex.columns r.values r'.values = false := by
  refine t.ordered.imp_of_mem fun {r r'} hr hr' hlt => Bool.eq_false_iff.mpr fun hkey => ?_
  have hsession := (eq_of_sqlEq (List.all_eq_true.mp hkey "session_id" (by decide))).2
  have hsequence := (eq_of_sqlEq (List.all_eq_true.mp hkey "sequence" (by decide))).2
  obtain ⟨k, -, hk⟩ := (h (r.values "session_id")).positive r hr rfl
  have hless := (h (r.values "session_id")).ordered r hr r' hr' rfl hsession.symm hlt k k hk (hsequence ▸ hk)
  omega

theorem mem_sequences {s : Value} {l : List ℤ} (hs : s ≠ .null)
    (hl : l = (t.rows.filter fun r => sqlEq (r.values "session_id") s).filterMap fun r => sequenceOf
      (r.values "sequence"))
    {k : ℤ} : k ∈ l ↔ ∃ r ∈ t.rows, r.values "session_id" = s ∧ r.values "sequence" = .integer k := by
  have hseq : ∀ v, sequenceOf v = some k ↔ v = .integer k := fun v => by cases v <;> simp [sequenceOf]
  subst hl
  simp only [List.mem_filterMap, List.mem_filter, hseq]
  constructor
  · rintro ⟨r, ⟨hr, hsession⟩, hk⟩
    exact ⟨r, hr, (eq_of_sqlEq hsession).2, hk⟩
  · rintro ⟨r, hr, rfl, hk⟩
    exact ⟨r, ⟨hr, sqlEq_self hs⟩, hk⟩

/-- The trigger gives the next sequence of the session. -/
theorem nextSequence_spec {s : Value} (h : Increasing t s) (hs : s ≠ .null) :
    ∃ k : ℤ, nextSequence t s = .integer k ∧ 0 < k ∧
    ∀ r ∈ t.rows, r.values "session_id" = s → ∀ k', r.values "sequence" = .integer k' → k' < k := by
  refine ⟨_, rfl, ?_⟩
  generalize hl : ((t.rows.filter fun r => sqlEq (r.values "session_id") s).filterMap fun r =>
    sequenceOf (r.values "sequence")) = l
  have hmem := fun k => mem_sequences hs hl.symm (k := k)
  cases hmax : l.max? with
  | none =>
    have hnil := List.max?_eq_none_iff.mp hmax
    refine ⟨by decide, fun r hr hsession k hk => ?_⟩
    have hk' := (hmem k).mpr ⟨r, hr, hsession, hk⟩
    rw [hnil] at hk'
    cases hk'
  | some m =>
    obtain ⟨hm, hle⟩ := List.max?_eq_some_iff.mp hmax
    obtain ⟨r, hr, hsession, hseq⟩ := (hmem m).mp hm
    obtain ⟨k, hk, hseq'⟩ := h.positive r hr hsession
    have heq := hseq.symm.trans hseq'
    injection heq with heq
    refine ⟨by simp only [Option.getD_some]; omega, fun r hr hsession k hk => ?_⟩
    have := hle k ((hmem k).mpr ⟨r, hr, hsession, hk⟩)
    simp only [Option.getD_some]
    omega

/-- Events that come in by the trigger stay in order. -/
theorem increasing_insertEvent {r : Row String} {hlast : ∀ r' ∈ t.rows, r'.rowid < r.rowid}
    (h : ∀ s, Increasing t s)
    (hr : unsequenced r = true) (hs : r.values "session_id" ≠ .null) (s : Value) :
    Increasing (insertEvent t r hlast) s := by
  obtain ⟨k, hk, hpos, hmax⟩ := nextSequence_spec (h _) hs
  have hne : "session_id" ≠ "sequence" := by decide
  have hnew : (triggered t r).values "sequence" = .integer k := by
    rw [triggered, if_pos hr]
    change Function.update r.values "sequence" (nextSequence t (r.values "session_id")) "sequence" = .integer k
    rw [Function.update_self, hk]
  have hsession : (triggered t r).values "session_id" = r.values "session_id" := by
    rw [triggered, if_pos hr]
    change Function.update r.values "sequence" (nextSequence t (r.values "session_id")) "session_id" = _
    rw [Function.update_of_ne hne]
  have hrows : ∀ r' ∈ (insertEvent t r hlast).rows, r' ∈ t.rows ∨ r' = triggered t r := fun r' hr' =>
    (List.mem_append.mp hr').imp_right List.mem_singleton.mp
  refine ⟨fun r' hr' hs' => ?_, fun r₁ hr₁ r₂ hr₂ hs₁ hs₂ hlt k₁ k₂ hk₁ hk₂ => ?_⟩
  · rcases hrows r' hr' with hold | rfl
    · exact (h s).positive r' hold hs'
    · exact ⟨k, hpos, hnew⟩
  · rcases hrows r₁ hr₁ with hold₁ | rfl
    · rcases hrows r₂ hr₂ with hold₂ | rfl
      · exact (h s).ordered r₁ hold₁ r₂ hold₂ hs₁ hs₂ hlt k₁ k₂ hk₁ hk₂
      · have heq := hnew.symm.trans hk₂
        injection heq with heq
        have := hmax r₁ hold₁ (hs₁.trans (hs₂.symm.trans hsession)) k₁ hk₁
        omega
    · rw [triggered_rowid] at hlt
      rcases hrows r₂ hr₂ with hold₂ | rfl
      · exact absurd (hlast r₂ hold₂) (by omega)
      · rw [triggered_rowid] at hlt
        omega

/-- What is asked of the events of an earlier version. -/
structure EventsRecognised (t : Table String) : Prop where
  base : "session_id" ∈ t.columns
  order : "sequence" ∈ t.columns → InOrder t
  sessions : ∀ r ∈ t.rows, r.values "session_id" ≠ .null
  indexes : ∀ i ∈ t.indexes, i.unique = true → "sequence" ∈ i.columns → "session_id" ∈ i.columns
  sequenceIndex : ∀ i ∈ t.indexes, i.name = sequenceIndex.name → i = sequenceIndex

theorem EventsRecognised.numberable (h : EventsRecognised t) (hw : Widened [missingSequenceColumn.1] t t')
    (hdefault : "sequence" ∉ t.columns → ∀ r ∈ t'.rows, r.values "sequence" = .integer 0) : Numberable t' := by
  refine ⟨fun s => ?_, fun r hr => ?_, fun i hi => h.indexes i (hw.indexes ▸ hi)⟩
  · by_cases hseq : "sequence" ∈ t.columns
    · rcases h.order hseq s with hall | hinc
      · refine .inl fun r hr hs => ?_
        obtain ⟨r₁, hr₁, -, hkeep⟩ := hw.rows.row hr
        have hzero := unsequenced_iff.mp (hall r₁ hr₁ ((hkeep _ h.base).symm.trans hs))
        exact unsequenced_iff.mpr ((hkeep _ hseq).trans hzero)
      · refine .inr ⟨fun r hr hs => ?_, fun r hr r' hr' hs hs' hlt k k' hk hk' => ?_⟩
        · obtain ⟨r₁, hr₁, -, hkeep⟩ := hw.rows.row hr
          rw [hkeep _ hseq]
          exact hinc.positive r₁ hr₁ ((hkeep _ h.base).symm.trans hs)
        · obtain ⟨r₁, hr₁, hid, hkeep⟩ := hw.rows.row hr
          obtain ⟨r₁', hr₁', hid', hkeep'⟩ := hw.rows.row hr'
          exact hinc.ordered r₁ hr₁ r₁' hr₁' ((hkeep _ h.base).symm.trans hs) ((hkeep' _ h.base).symm.trans hs')
            (by rw [← hid, ← hid']; exact hlt) k k' ((hkeep _ hseq).symm.trans hk) ((hkeep' _ hseq).symm.trans hk')
    · exact .inl fun r hr _ => unsequenced_iff.mpr (hdefault hseq r hr)
  · obtain ⟨r₁, hr₁, -, hkeep⟩ := hw.rows.row hr
    rw [hkeep _ h.base]
    exact h.sessions r₁ hr₁

structure EventsMigrated (t t' : Table String) : Prop where
  columns : t.columns ⊆ t'.columns
  rows : Keeps (fun r c => c ∈ t.columns ∧ (c = "sequence" → unsequenced r = false)) t t'
  sequence : "sequence" ∈ t'.columns
  indexed : ∃ i ∈ t'.indexes, i.name = sequenceIndex.name
  indexes : ∀ i ∈ t'.indexes, i ∈ t.indexes ∨ i = sequenceIndex
  trigger : sequenceTrigger ∈ t'.triggers
  increasing : ∀ s, Increasing t' s

theorem createTrigger_eq (name : String) (t : Table String) : (t.createTrigger name).columns = t.columns ∧
    (t.createTrigger name).rows = t.rows ∧ (t.createTrigger name).indexes = t.indexes ∧
    name ∈ (t.createTrigger name).triggers := by
  unfold Table.createTrigger
  split
  · next h => exact ⟨rfl, rfl, rfl, h⟩
  · exact ⟨rfl, rfl, rfl, List.mem_append_right _ (List.mem_singleton.mpr rfl)⟩

theorem initPiSessionEvents_eq (h : EventsRecognised (ensured d .piSessionEvents piSessionEventsColumns)) :
    ∃ t', initPiSessionEvents d = .ok (d.put .piSessionEvents (some t')) ∧
      EventsMigrated (ensured d .piSessionEvents piSessionEventsColumns) t' := by
  obtain ⟨t₁, hadd, hw, hmem, hdefault⟩ :=
    addMissing_createTable d .piSessionEvents piSessionEventsColumns missingSequenceColumn
  generalize ensured d .piSessionEvents piSessionEventsColumns = t at *
  have hnum := h.numberable hw hdefault
  have hupdate := update_priorEvents hnum
  have hinc := increasing_assign hnum
  generalize ht₂ : t₁.assign "sequence" unsequenced (priorEvents t₁) = t₂ at *
  have hc₂ : t₂.columns = t₁.columns := ht₂ ▸ rfl
  have hi₂ : t₂.indexes = t₁.indexes := ht₂ ▸ rfl
  have hmentioned : ∀ c ∈ ["sequence", "session_id"], c ∈ t₁.columns := fun c hc => by
    simp only [List.mem_cons, List.not_mem_nil, or_false] at hc
    rcases hc with rfl | rfl
    · exact hmem
    · exact hw.columns h.base
  have hcolumns : sequenceIndex.columns ⊆ t₂.columns := fun c hc => by
    rw [hc₂]
    exact hmentioned c (by simpa [sequenceIndex, or_comm] using hc)
  obtain ⟨t₃, hindex, hc₃, hr₃, -, hold₃, -, hname₃⟩ :=
    createIndex_indexed hcolumns fun _ => pairwise_sequenceIndex hinc
  obtain ⟨hc₄, hr₄, hi₄, htrigger⟩ := createTrigger_eq sequenceTrigger t₃
  have hrows : (t₃.createTrigger sequenceTrigger).rows = t₂.rows := hr₄.trans hr₃
  have hcols : (t₃.createTrigger sequenceTrigger).columns = t₁.columns := hc₄.trans (hc₃.trans hc₂)
  refine ⟨t₃.createTrigger sequenceTrigger, ?_, ⟨hcols ▸ hw.columns, ?_, hcols ▸ hmem, hi₄ ▸ hname₃, fun i hi => ?_,
    htrigger, fun s => ?_⟩⟩
  · have ha₂ := alterTable_eq (put_table d .piSessionEvents (some t₁)) hmentioned hupdate
    have ha₃ := alterTable_eq (put_table d .piSessionEvents (some t₂)) mentions_none hindex
    have ha₄ := alterTable_eq (f := fun t => .ok (t.createTrigger sequenceTrigger))
      (put_table d .piSessionEvents (some t₃)) mentions_none rfl
    rw [put_put] at ha₂ ha₃ ha₄
    simp only [initPiSessionEvents]
    rw [hadd]
    change (Schema.alterTable _ _ _ (Table.update "sequence" priorEvents unsequenced) >>= fun d => _) = _
    rw [ha₂]
    change (Schema.alterTable _ _ _ (Table.createIndex sequenceIndex) >>= fun d => _) = _
    rw [ha₃]
    exact ha₄
  · have hassign : Keeps (fun r c => c = "sequence" → unsequenced r = false) t₁
      (t₃.createTrigger sequenceTrigger) := by
      refine ⟨_, hrows.trans (congrArg Table.rows ht₂).symm, fun r _ c hc => ?_⟩
      split
      · next hp => exact Function.update_of_ne (fun heq => Bool.false_ne_true ((hc heq).symm.trans hp)) _ _
      · rfl
    refine Keeps.trans hw.rows hassign fun r v hv c hc => ⟨hc.1, fun heq => ?_⟩
    change sqlEq (v "sequence") (.integer 0) = false
    rw [hv "sequence" (heq ▸ hc.1)]
    exact hc.2 heq
  · exact (hold₃ i (hi₄ ▸ hi)).imp_left fun hi => hw.indexes ▸ hi₂ ▸ hi
  · exact (hinc s).of_rows hrows

end WorkerHarness.SchemaMigration
