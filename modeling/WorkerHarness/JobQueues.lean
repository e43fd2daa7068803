import WorkerHarness.DatabaseJobs

/-!
# The queue order of pending jobs

The rows of the job table that wait on one worker, in queue order, and what the row changes
of the database methods do to that order: a row that is appended, taken out, moved to the
front or renumbered.
-/

namespace WorkerHarness.JobQueues

open SortedLists Database

variable {jobs : List Job} {w : String} {g : Job → Job} {j : Job}

def queueIds (jobs : List Job) (w : String) : List String := (queueOf jobs w).map (·.id)

/-- The jobs that wait on one worker have positions from 1, and different ones. -/
structure OrderedOn (jobs : List Job) (w : String) : Prop where
  positive : ∀ j ∈ jobs, j.pendingOn w = true → 1 ≤ j.queueOrder
  distinct : ∀ a ∈ jobs, ∀ b ∈ jobs, a.pendingOn w = true → b.pendingOn w = true →
    a.queueOrder = b.queueOrder → a.id = b.id

structure WellOrdered (jobs : List Job) : Prop where
  ids : (jobs.map (·.id)).Nodup
  ordered : ∀ w, OrderedOn jobs w

theorem orderKey_lt {a b : Job} : a.orderKey < b.orderKey ↔
    a.queueOrder < b.queueOrder ∨ a.queueOrder = b.queueOrder ∧ a.id < b.id := by
  simp [Job.orderKey, Prod.Lex.toLex_lt_toLex]

theorem orderKey_le {a b : Job} : a.orderKey ≤ b.orderKey ↔
    a.queueOrder < b.queueOrder ∨ a.queueOrder = b.queueOrder ∧ a.id ≤ b.id := by
  simp [Job.orderKey, Prod.Lex.toLex_le_toLex]

@[simp] theorem withOrder_id (n : ℕ) (j : Job) : (j.withOrder n).id = j.id := rfl

@[simp] theorem withOrder_queueOrder (n : ℕ) (j : Job) : (j.withOrder n).queueOrder = n := rfl

@[simp] theorem withOrder_pendingOn (n : ℕ) (j : Job) (w : String) :
    (j.withOrder n).pendingOn w = j.pendingOn w := rfl

@[simp] theorem mem_queueOf : j ∈ queueOf jobs w ↔ j ∈ jobs ∧ j.pendingOn w = true := by
  simp [queueOf]

theorem mem_queueIds {id : String} :
    id ∈ queueIds jobs w ↔ ∃ j ∈ jobs, j.pendingOn w = true ∧ j.id = id := by
  simp only [queueIds, List.mem_map, mem_queueOf, and_assoc]

/-- Distinct ids make the order keys distinct. -/
theorem keys_nodup (h : (jobs.map (·.id)).Nodup) : ((jobs.filter (Job.pendingOn w)).map Job.orderKey).Nodup := by
  have hf : ((jobs.filter (Job.pendingOn w)).map (·.id)).Nodup := h.sublist (List.filter_sublist.map _)
  refine List.Nodup.of_map (fun key : ℕ ×ₗ String => (ofLex key).2) ?_
  rw [List.map_map]
  exact hf

theorem queueIds_perm (jobs : List Job) (w : String) :
    (queueIds jobs w).Perm ((jobs.filter (Job.pendingOn w)).map (·.id)) :=
  (sortOn_perm _ _).map _

theorem queueIds_nodup (h : (jobs.map (·.id)).Nodup) : (queueIds jobs w).Nodup :=
  (queueIds_perm jobs w).nodup_iff.mpr (h.sublist (List.filter_sublist.map _))

/-- Two rows with one id are one row. -/
theorem eq_of_id_eq (h : (jobs.map (·.id)).Nodup) {a b : Job} (ha : a ∈ jobs) (hb : b ∈ jobs)
    (hid : a.id = b.id) : a = b :=
  List.inj_on_of_nodup_map h ha hb hid

theorem filter_pendingOn_map (h : ∀ j ∈ jobs, (g j).pendingOn w = j.pendingOn w) :
    (jobs.map g).filter (Job.pendingOn w) = (jobs.filter (Job.pendingOn w)).map g := by
  rw [List.filter_map]
  exact congrArg _ (List.filter_congr h)

theorem sortOn_map_shift (c : ℕ) (hid : ∀ j ∈ jobs, (g j).id = j.id)
    (ho : ∀ j ∈ jobs, (g j).queueOrder = j.queueOrder + c) :
    sortOn Job.orderKey (jobs.map g) = (sortOn Job.orderKey jobs).map g :=
  sortOn_map fun a ha b hb => by simp [orderKey_le, ho a ha, ho b hb, hid a ha, hid b hb]

/-- A change that keeps who waits, and moves all positions by the same amount, keeps the order. -/
theorem queueOf_map_shift (c : ℕ) (hp : ∀ j ∈ jobs, (g j).pendingOn w = j.pendingOn w)
    (hid : ∀ j ∈ jobs, (g j).id = j.id)
    (ho : ∀ j ∈ jobs, j.pendingOn w = true → (g j).queueOrder = j.queueOrder + c) :
    queueOf (jobs.map g) w = (queueOf jobs w).map g := by
  rw [queueOf, filter_pendingOn_map hp]
  exact sortOn_map_shift c (fun j hj => hid j (List.mem_of_mem_filter hj))
    fun j hj => ho j (List.mem_of_mem_filter hj) (List.of_mem_filter hj)

/-- A change that leaves every waiting row of the worker as it is. -/
theorem queueOf_map_of_fixed (hp : ∀ j ∈ jobs, (g j).pendingOn w = j.pendingOn w)
    (hfix : ∀ j ∈ jobs, j.pendingOn w = true → g j = j) : queueOf (jobs.map g) w = queueOf jobs w := by
  rw [queueOf, filter_pendingOn_map hp, map_eq_self fun j hj => ?_, queueOf]
  obtain ⟨hj, hpj⟩ := List.mem_filter.mp hj
  exact hfix j hj hpj

theorem queueOf_append_waiting (h : (jobs.map (·.id)).Nodup) (hp : j.pendingOn w = true)
    (ho : ∀ a ∈ jobs, a.pendingOn w = true → a.queueOrder < j.queueOrder) :
    queueOf (jobs ++ [j]) w = queueOf jobs w ++ [j] := by
  rw [queueOf, List.filter_append, List.filter_cons_of_pos hp, List.filter_nil]
  refine sortOn_append_singleton (keys_nodup h) fun a ha => ?_
  obtain ⟨ha, hpa⟩ := List.mem_filter.mp ha
  exact orderKey_lt.mpr (.inl (ho a ha hpa))

theorem queueOf_append_other (hp : j.pendingOn w = false) : queueOf (jobs ++ [j]) w = queueOf jobs w := by
  rw [queueOf, List.filter_append, List.filter_cons_of_neg (by simp [hp]), List.filter_nil, List.append_nil,
    queueOf]

/-- A change after which the waiting row `id` no longer waits and the others are as before. -/
theorem queueOf_map_remove (h : (jobs.map (·.id)).Nodup) {id : String}
    (hp : ∀ j ∈ jobs, (g j).pendingOn w = (decide (j.id ≠ id) && j.pendingOn w))
    (hfix : ∀ j ∈ jobs, j.id ≠ id → g j = j) :
    queueOf (jobs.map g) w = (queueOf jobs w).filter fun j => j.id ≠ id := by
  have hf : (jobs.map g).filter (Job.pendingOn w) =
      (jobs.filter (Job.pendingOn w)).filter fun j => j.id ≠ id := by
    rw [List.filter_map, List.filter_filter]
    rw [List.filter_congr fun j hj => (Function.comp_apply).trans (hp j hj)]
    refine map_eq_self fun j hj => ?_
    obtain ⟨hj, hne⟩ := List.mem_filter.mp hj
    simp only [Bool.and_eq_true, decide_eq_true_eq] at hne
    exact hfix j hj hne.1
  rw [queueOf, hf, sortOn_filter _ (keys_nodup h), queueOf]

/-- A change after which the row `j` waits in front of the others, which move up alike. -/
theorem queueOf_map_prepend (h : (jobs.map (·.id)).Nodup) (hj : j ∈ jobs) (c : ℕ)
    (hp : ∀ a ∈ jobs, (g a).pendingOn w = (decide (a.id = j.id) || a.pendingOn w))
    (hnot : j.pendingOn w = false) (hid : ∀ a ∈ jobs, (g a).id = a.id)
    (ho : ∀ a ∈ jobs, a.pendingOn w = true → (g a).queueOrder = a.queueOrder + c)
    (hfirst : ∀ a ∈ jobs, a.pendingOn w = true → (g j).queueOrder < (g a).queueOrder) :
    queueOf (jobs.map g) w = g j :: (queueOf jobs w).map g := by
  have hids : ((jobs.map g).map (·.id)).Nodup := by
    rw [List.map_map, List.map_congr_left fun a ha => (Function.comp_apply).trans (hid a ha)]
    exact h
  -- The rows that wait afterwards are `j` and the rows that waited before.
  have hperm : ((jobs.map g).filter (Job.pendingOn w)).Perm
      (g j :: (jobs.filter (Job.pendingOn w)).map g) := by
    refine (List.perm_ext_iff_of_nodup (hids.of_map.filter _) ?_).mpr fun a => ?_
    · refine List.nodup_cons.mpr ⟨fun hmem => ?_, ?_⟩
      · obtain ⟨a, ha, hga⟩ := List.mem_map.mp hmem
        obtain ⟨ha, hpa⟩ := List.mem_filter.mp ha
        have haj : a.id = j.id := by rw [← hid a ha, hga, hid j hj]
        rw [eq_of_id_eq h ha hj haj, hnot] at hpa
        cases hpa
      · exact hids.of_map.sublist (List.filter_sublist.map g)
    · simp only [List.mem_filter, List.mem_map, List.mem_cons]
      constructor
      · rintro ⟨⟨b, hb, rfl⟩, hpb⟩
        rw [hp b hb] at hpb
        rcases Bool.or_eq_true_iff.mp hpb with hbj | hpb
        · exact .inl (congrArg g (eq_of_id_eq h hb hj (of_decide_eq_true hbj)))
        · exact .inr ⟨b, ⟨hb, hpb⟩, rfl⟩
      · rintro (rfl | ⟨b, ⟨hb, hpb⟩, rfl⟩)
        · exact ⟨⟨j, hj, rfl⟩, by rw [hp j hj]; simp⟩
        · exact ⟨⟨b, hb, rfl⟩, by rw [hp b hb]; simp [hpb]⟩
  have hkeys : (((jobs.filter (Job.pendingOn w)).map g).map Job.orderKey).Nodup := by
    refine List.Nodup.of_map (fun key : ℕ ×ₗ String => (ofLex key).2) ?_
    rw [List.map_map]
    exact hids.sublist ((List.filter_sublist.map g).map _)
  have hsort : sortOn Job.orderKey ((jobs.filter (Job.pendingOn w)).map g) = (queueOf jobs w).map g :=
    sortOn_map_shift c (fun a ha => hid a (List.mem_of_mem_filter ha))
      fun a ha => ho a (List.mem_of_mem_filter ha) (List.of_mem_filter ha)
  rw [queueOf, sortOn_of_perm_cons hperm hkeys fun b hb => ?_, hsort]
  obtain ⟨a, ha, rfl⟩ := List.mem_map.mp hb
  obtain ⟨ha, hpa⟩ := List.mem_filter.mp ha
  exact orderKey_lt.mpr (.inl (hfirst a ha hpa))

/-- The row change of `executemany` over distinct ids, as one map. -/
def renumbered (n : ℕ) (ids : List String) (j : Job) : Job :=
  if j.id ∈ ids then j.withOrder (n + ids.idxOf j.id) else j

@[simp] theorem renumbered_id (n : ℕ) (ids : List String) (j : Job) : (renumbered n ids j).id = j.id := by
  unfold renumbered
  split <;> rfl

@[simp] theorem renumbered_pendingOn (n : ℕ) (ids : List String) (j : Job) (w : String) :
    (renumbered n ids j).pendingOn w = j.pendingOn w := by
  unfold renumbered
  split <;> rfl

theorem renumbered_of_notMem {n : ℕ} {ids : List String} (h : j.id ∉ ids) : renumbered n ids j = j :=
  if_neg h

theorem renumbered_queueOrder {n : ℕ} {ids : List String} (h : j.id ∈ ids) :
    (renumbered n ids j).queueOrder = n + ids.idxOf j.id := by
  rw [renumbered, if_pos h, withOrder_queueOrder]

theorem renumberFrom_eq {ids : List String} (hd : ids.Nodup) (n : ℕ) (jobs : List Job) :
    renumberFrom n ids jobs = jobs.map (renumbered n ids) := by
  induction ids generalizing n jobs with
  | nil => exact (map_eq_self fun j _ => renumbered_of_notMem (List.not_mem_nil)).symm
  | cons id ids ih =>
    obtain ⟨hnot, hd⟩ := List.nodup_cons.mp hd
    rw [renumberFrom, ih hd, updateRows, List.map_map]
    refine List.map_congr_left fun j _ => ?_
    by_cases hj : j.id = id
    · simp [renumbered, hj, hnot]
    · by_cases hmem : j.id ∈ ids
      · have hidx : n + (id :: ids).idxOf j.id = n + 1 + ids.idxOf j.id := by
          rw [List.idxOf_cons_ne ids (Ne.symm hj)]
          omega
        simp [renumbered, hj, hmem, hidx]
      · simp [renumbered, hj, hmem]

/-- Renumbering the waiting jobs of a worker in any order makes that the queue order. -/
theorem queueIds_renumbered (n : ℕ) {ids : List String} (hd : ids.Nodup)
    (hp : ids.Perm ((jobs.filter (Job.pendingOn w)).map (·.id))) :
    queueIds (jobs.map (renumbered n ids)) w = ids := by
  have hmem : ∀ j ∈ jobs, j.pendingOn w = true → j.id ∈ ids := fun j hj hpj =>
    hp.mem_iff.mpr (List.mem_map.mpr ⟨j, List.mem_filter.mpr ⟨hj, hpj⟩, rfl⟩)
  have hids : ((jobs.filter (Job.pendingOn w)).map (renumbered n ids)).map (·.id) =
      (jobs.filter (Job.pendingOn w)).map (·.id) := by
    rw [List.map_map]
    exact List.map_congr_left fun j _ => renumbered_id n ids j
  -- The new positions order the rows as their ids stand in the list.
  have hsort : sortOn (fun id => ids.idxOf id)
      (((jobs.filter (Job.pendingOn w)).map (renumbered n ids)).map (·.id)) =
      (sortOn Job.orderKey ((jobs.filter (Job.pendingOn w)).map (renumbered n ids))).map (·.id) := by
    refine sortOn_map fun a ha b hb => ?_
    obtain ⟨a, ha', rfl⟩ := List.mem_map.mp ha
    obtain ⟨b, hb', rfl⟩ := List.mem_map.mp hb
    have hma := hmem a (List.mem_of_mem_filter ha') (List.of_mem_filter ha')
    have hmb := hmem b (List.mem_of_mem_filter hb') (List.of_mem_filter hb')
    rw [orderKey_le, renumbered_queueOrder hma, renumbered_queueOrder hmb, renumbered_id, renumbered_id]
    constructor
    · rintro (hlt | ⟨heq, _⟩) <;> omega
    · intro hle
      rcases Nat.lt_or_eq_of_le hle with hlt | heq
      · exact .inl (by omega)
      · exact .inr ⟨by omega, le_of_eq ((List.idxOf_inj hma).mp heq)⟩
  rw [queueIds, queueOf, filter_pendingOn_map fun j _ => renumbered_pendingOn n ids j w, ← hsort, hids]
  exact sortOn_idxOf hp hd

/-- A job that waits on another worker is not on the list. -/
theorem notMem_of_other (h : (jobs.map (·.id)).Nodup) {w' : String} {ids : List String}
    (hp : ids.Perm ((jobs.filter (Job.pendingOn w)).map (·.id))) (hw : some w ≠ some w') :
    ∀ j ∈ jobs, j.pendingOn w' = true → j.id ∉ ids := by
  intro j hj hpj hmem
  obtain ⟨a, ha, haj⟩ := List.mem_map.mp (hp.mem_iff.mp hmem)
  obtain ⟨ha, hpa⟩ := List.mem_filter.mp ha
  rw [eq_of_id_eq h ha hj haj] at hpa
  exact hw (by rw [← (Job.pendingOn_iff.mp hpa).2.1, (Job.pendingOn_iff.mp hpj).2.1])

/-- Renumbering jobs that do not wait on the worker. -/
theorem queueOf_renumbered_other (n : ℕ) {ids : List String}
    (h : ∀ j ∈ jobs, j.pendingOn w = true → j.id ∉ ids) :
    queueOf (jobs.map (renumbered n ids)) w = queueOf jobs w :=
  queueOf_map_of_fixed (fun j _ => renumbered_pendingOn n ids j w)
    fun j hj hpj => renumbered_of_notMem (h j hj hpj)

/-- A change after which some of the waiting rows still wait, all moved alike. -/
theorem OrderedOn.map (h : OrderedOn jobs w) (c : ℕ) (hid : ∀ j ∈ jobs, (g j).id = j.id)
    (hp : ∀ j ∈ jobs, (g j).pendingOn w = true →
      j.pendingOn w = true ∧ (g j).queueOrder = j.queueOrder + c) : OrderedOn (jobs.map g) w := by
  refine ⟨fun b hb hpb => ?_, fun a ha b hb hpa hpb hab => ?_⟩
  · obtain ⟨j, hj, rfl⟩ := List.mem_map.mp hb
    obtain ⟨hpj, ho⟩ := hp j hj hpb
    have := h.positive j hj hpj
    omega
  · obtain ⟨i, hi, rfl⟩ := List.mem_map.mp ha
    obtain ⟨j, hj, rfl⟩ := List.mem_map.mp hb
    obtain ⟨hpi, hoi⟩ := hp i hi hpa
    obtain ⟨hpj, hoj⟩ := hp j hj hpb
    rw [hid i hi, hid j hj]
    exact h.distinct i hi j hj hpi hpj (by omega)

theorem OrderedOn.append (h : OrderedOn jobs w)
    (hj : j.pendingOn w = true → ∀ a ∈ jobs, a.pendingOn w = true → a.queueOrder < j.queueOrder)
    (hpos : j.pendingOn w = true → 1 ≤ j.queueOrder) : OrderedOn (jobs ++ [j]) w := by
  refine ⟨fun b hb hpb => ?_, fun a ha b hb hpa hpb hab => ?_⟩
  · rcases List.mem_append.mp hb with hb | hb
    · exact h.positive b hb hpb
    · rw [List.mem_singleton.mp hb] at hpb ⊢
      exact hpos hpb
  · rcases List.mem_append.mp ha with ha | ha <;> rcases List.mem_append.mp hb with hb | hb
    · exact h.distinct a ha b hb hpa hpb hab
    · rw [List.mem_singleton.mp hb] at hpb hab
      have := hj hpb a ha hpa
      omega
    · rw [List.mem_singleton.mp ha] at hpa hab
      have := hj hpa b hb hpb
      omega
    · rw [List.mem_singleton.mp ha, List.mem_singleton.mp hb]

/-- Renumbering from 1 places the waiting rows well, whatever their positions were. -/
theorem OrderedOn.of_renumbered {ids : List String} (hmem : ∀ j ∈ jobs, j.pendingOn w = true → j.id ∈ ids) :
    OrderedOn (jobs.map (renumbered 1 ids)) w := by
  refine ⟨fun b hb hpb => ?_, fun a ha b hb hpa hpb hab => ?_⟩
  · obtain ⟨j, hj, rfl⟩ := List.mem_map.mp hb
    rw [renumbered_pendingOn] at hpb
    rw [renumbered_queueOrder (hmem j hj hpb)]
    omega
  · obtain ⟨i, hi, rfl⟩ := List.mem_map.mp ha
    obtain ⟨j, hj, rfl⟩ := List.mem_map.mp hb
    rw [renumbered_pendingOn] at hpa hpb
    rw [renumbered_queueOrder (hmem i hi hpa), renumbered_queueOrder (hmem j hj hpb)] at hab
    rw [renumbered_id, renumbered_id]
    exact (List.idxOf_inj (hmem i hi hpa)).mp (by omega)

theorem OrderedOn.of_renumbered_other (h : OrderedOn jobs w) {ids : List String}
    (hno : ∀ j ∈ jobs, j.pendingOn w = true → j.id ∉ ids) : OrderedOn (jobs.map (renumbered 1 ids)) w := by
  refine h.map 0 (fun j _ => renumbered_id 1 ids j) fun j hj hpj => ?_
  rw [renumbered_pendingOn] at hpj
  exact ⟨hpj, by rw [renumbered_of_notMem (hno j hj hpj), Nat.add_zero]⟩

theorem map_ids (hid : ∀ j ∈ jobs, (g j).id = j.id) : (jobs.map g).map (·.id) = jobs.map (·.id) := by
  rw [List.map_map]
  exact List.map_congr_left hid

end WorkerHarness.JobQueues
