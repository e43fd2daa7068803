import WorkerHarness.Tunnels

/-!
# Owned tunnels

The rows of `port_forwards` and the registry agree whenever nothing is in progress, as long as no
process dies unnoticed, no closing is cut short, and no creation is overtaken. Until then a thread
answers for each row without a process: it is going to register the process or to delete the row.
-/

namespace WorkerHarness.TunnelOwnership

open Coroutines Tunnels

variable {s s' s'' : TunnelWorld} {t t' : ℕ} {id : String} {α β : Type}

def Settled (s : TunnelWorld) (id : String) : Prop := id ∈ s.seen ∧ (id ∈ s.inserted ∨ ∀ t, (id, t) ∉ s.given)

/-- The invariant of the two stores. -/
structure Owned (s : TunnelWorld) : Prop where
  rows_inserted : ∀ id ∈ s.rowIds, id ∈ s.inserted
  inserted_given : ∀ id ∈ s.inserted, ∃ t, (id, t) ∈ s.given
  given_seen : ∀ id t, (id, t) ∈ s.given → id ∈ s.seen
  given_unique : ∀ id t t', (id, t) ∈ s.given → (id, t') ∈ s.given → t = t'
  entries_rows : ∀ id ∈ s.entryIds, id ∈ s.rowIds
  sought_entries : ∀ id ∈ s.sought, id ∉ s.entryIds
  sought_settled : ∀ id ∈ s.sought, Settled s id
  sessions : ∀ m ∈ s.marimoSessions, m.tunnelId ∈ s.inserted ∨ ∀ t, (m.tunnelId, t) ∉ s.given
  orphans : ∀ id ∈ s.rowIds, id ∉ s.entryIds → ∃ t, (t, id) ∈ s.owners

/-- What a thread does to the stores. -/
structure Guar (t : ℕ) (s s' : TunnelWorld) : Prop where
  given : ∀ g ∈ s.given, g ∈ s'.given
  given_new : ∀ id t', (id, t') ∈ s'.given → (id, t') ∈ s.given ∨ t' = t ∧ id ∉ s.seen
  seen : ∀ id ∈ s.seen, id ∈ s'.seen
  inserted : ∀ id ∈ s.inserted, id ∈ s'.inserted
  inserted_new : ∀ id ∈ s'.inserted, id ∈ s.inserted ∨ (id, t) ∈ s.given
  rows_new : ∀ id ∈ s'.rowIds, id ∈ s.rowIds ∨ (id, t) ∈ s.given ∧ id ∉ s.inserted
  rows_gone : ∀ id ∈ s.rowIds, id ∈ s'.rowIds ∨ id ∈ s'.sought ∨ (id, t) ∈ s.given
  entries_new : ∀ id ∈ s'.entryIds, id ∈ s.entryIds ∨ (id, t) ∈ s.given
  sought : ∀ id ∈ s.sought, id ∈ s'.sought
  owners : ∀ t' id, t' ≠ t → ((t', id) ∈ s'.owners ↔ (t', id) ∈ s.owners)

/-- What a thread sees of the others. -/
structure Rely (t : ℕ) (s s' : TunnelWorld) : Prop where
  given : ∀ id, (id, t) ∈ s'.given ↔ (id, t) ∈ s.given
  settled : ∀ id, Settled s id → Settled s' id
  inserted : ∀ id ∈ s.inserted, id ∈ s'.inserted
  inserted_own : ∀ id ∈ s'.inserted, (id, t) ∈ s.given → id ∈ s.inserted
  rows_new : ∀ id ∈ s'.rowIds, Settled s id ∨ (id, t) ∈ s.given → id ∈ s.rowIds
  rows_gone : ∀ id ∈ s.rowIds, (id, t) ∈ s.given → id ∈ s'.rowIds ∨ id ∈ s'.sought
  entries_new : ∀ id ∈ s'.entryIds, (id, t) ∈ s.given → id ∈ s.entryIds
  sought : ∀ id ∈ s.sought, id ∈ s'.sought
  owners : ∀ id, (t, id) ∈ s'.owners ↔ (t, id) ∈ s.owners

/-- The contract of the operations; they take no locks. -/
def contract : Contract TunnelCall Empty TunnelWorld where
  inv := Owned
  fresh t s := ∀ id, (id, t) ∉ s.given ∧ (t, id) ∉ s.owners
  rely t _ := Rely t
  guar t _ := Guar t
  assume _ _ _ := True
  pre _ _ _ _ := True

theorem Rely.refl (t : ℕ) (s : TunnelWorld) : Rely t s s where
  given _ := .rfl
  settled _ h := h
  inserted _ h := h
  inserted_own _ h _ := h
  rows_new _ h _ := h
  rows_gone _ h _ := .inl h
  entries_new _ h _ := h
  sought _ h := h
  owners _ := .rfl

theorem Rely.trans (h : Rely t s s') (h' : Rely t s' s'') : Rely t s s'' where
  given id := (h'.given id).trans (h.given id)
  settled id hs := h'.settled id (h.settled id hs)
  inserted id hi := h'.inserted id (h.inserted id hi)
  inserted_own id hi hg := h.inserted_own id (h'.inserted_own id hi ((h.given id).mpr hg)) hg
  rows_new id hr hk := h.rows_new id (h'.rows_new id hr (hk.imp (h.settled id) (h.given id).mpr)) hk
  rows_gone id hr hg := by
    rcases h.rows_gone id hr hg with hr' | hsought
    · exact h'.rows_gone id hr' ((h.given id).mpr hg)
    · exact .inr (h'.sought id hsought)
  entries_new id he hg := h.entries_new id (h'.entries_new id he ((h.given id).mpr hg)) hg
  sought id hs := h'.sought id (h.sought id hs)
  owners id := (h'.owners id).trans (h.owners id)

theorem Guar.settled (h : Guar t s s') (hs : Settled s id) : Settled s' id := by
  refine ⟨h.seen id hs.1, ?_⟩
  rcases hs.2 with hi | hn
  · exact .inl (h.inserted id hi)
  · refine .inr fun t' hg => ?_
    rcases h.given_new id t' hg with hg | ⟨-, hseen⟩
    · exact hn t' hg
    · exact hseen hs.1

/-- What one thread does another can rely on. -/
theorem Guar.rely (h : Guar t s s') (hi : Owned s) (hne : t' ≠ t) : Rely t' s s' := by
  have hother : ∀ id, (id, t) ∈ s.given → (id, t') ∉ s.given := fun id hg hg' =>
    hne (hi.given_unique id t' t hg' hg)
  refine ⟨fun id => ⟨fun hg => ?_, h.given _⟩, fun id => h.settled, h.inserted, fun id hid hg => ?_,
    fun id hid hk => ?_,
    fun id hid hg => ?_, fun id hid hg => ?_, h.sought, fun id => h.owners t' id hne⟩
  · exact (h.given_new id t' hg).resolve_right fun hn => hne hn.1
  · exact (h.inserted_new id hid).resolve_right fun hown => hother id hown hg
  · refine (h.rows_new id hid).resolve_right fun ⟨hown, hnew⟩ => ?_
    rcases hk with hs | hg
    · exact hs.2.elim hnew fun hn => hn t hown
    · exact hother id hown hg
  · rcases h.rows_gone id hid with hr | hsought | hown
    · exact .inl hr
    · exact .inr hsought
    · exact absurd hg (hother id hown)
  · exact (h.entries_new id hid).resolve_right fun hown => hother id hown hg

theorem contract_coherent : contract.Coherent where
  rely_refl t _ s := Rely.refl t s
  rely_trans h h' := Rely.trans h h'
  guar_rely hne _ hi _ hg := Guar.rely hg hi (Ne.symm hne)
  guar_fresh {t t' h s s'} hne hi hg hf id := by
    refine ⟨fun hgiven => ?_, fun hown => ?_⟩
    · rcases hg.given_new id t' hgiven with hold | ⟨heq, -⟩
      · exact (hf id).1 hold
      · exact hne heq.symm
    · exact (hf id).2 ((hg.owners t' id (Ne.symm hne)).mp hown)
  guar_res _ _ _ _ hr := hr

def Gone (t : ℕ) (s : TunnelWorld) (id : String) : Prop := id ∉ s.rowIds ∧ (Settled s id ∨ (id, t) ∈ s.given)

def CleanBut (t : ℕ) (id : String) (s : TunnelWorld) : Prop := ∀ id', id' ≠ id → (t, id') ∈ s.owners → Gone t s id'

def Clean (t : ℕ) (s : TunnelWorld) : Prop := ∀ id, (t, id) ∈ s.owners → Gone t s id

def Out (t : ℕ) (id : String) (s : TunnelWorld) : Prop := id ∈ s.sought ∨ (id, t) ∈ s.given ∧ id ∉ s.entryIds

def Closing (t : ℕ) (id : String) (s : TunnelWorld) : Prop := CleanBut t id s ∧ Out t id s

structure Drawn (t : ℕ) (id : String) (s : TunnelWorld) : Prop where
  clean : Clean t s
  given : (id, t) ∈ s.given
  inserted : id ∉ s.inserted
  entries : id ∉ s.entryIds

structure Placed (t : ℕ) (id : String) (s : TunnelWorld) : Prop where
  clean : CleanBut t id s
  given : (id, t) ∈ s.given
  inserted : id ∈ s.inserted
  entries : id ∉ s.entryIds
  row : id ∈ s.rowIds ∨ id ∈ s.sought

structure Registered (t : ℕ) (id : String) (s : TunnelWorld) : Prop where
  clean : Clean t s
  settled : Settled s id
  inserted : id ∈ s.inserted

theorem Gone.stable (h : Gone t s id) (hr : Rely t s s') : Gone t s' id :=
  ⟨fun hmem => h.1 (hr.rows_new id hmem h.2), h.2.imp (hr.settled id) (hr.given id).mpr⟩

theorem CleanBut.stable (h : CleanBut t id s) (hr : Rely t s s') : CleanBut t id s' := fun id' hne hown =>
  (h id' hne ((hr.owners id').mp hown)).stable hr

theorem Clean.stable (h : Clean t s) (hr : Rely t s s') : Clean t s' := fun id hown =>
  (h id ((hr.owners id).mp hown)).stable hr

theorem Clean.but (h : Clean t s) (id : String) : CleanBut t id s := fun id' _ hown => h id' hown

theorem CleanBut.clean (h : CleanBut t id s) (hid : (t, id) ∈ s.owners → Gone t s id) : Clean t s :=
  fun id' hown => by
  by_cases heq : id' = id
  · subst heq
    exact hid hown
  · exact h id' heq hown

theorem Out.stable (h : Out t id s) (hr : Rely t s s') : Out t id s' := by
  rcases h with hs | ⟨hg, he⟩
  · exact .inl (hr.sought id hs)
  · exact .inr ⟨(hr.given id).mpr hg, fun hmem => he (hr.entries_new id hmem hg)⟩

theorem Out.not_mem (h : Out t id s) (hi : Owned s) : id ∉ s.entryIds := h.elim (hi.sought_entries id) And.right

theorem Out.settled (h : Out t id s) (hi : Owned s) : Settled s id ∨ (id, t) ∈ s.given :=
  h.imp (hi.sought_settled id) And.left

theorem Closing.stable (h : Closing t id s) (hr : Rely t s s') : Closing t id s' := ⟨h.1.stable hr, h.2.stable hr⟩

theorem Drawn.stable (h : Drawn t id s) (hr : Rely t s s') : Drawn t id s' :=
  ⟨h.clean.stable hr, (hr.given id).mpr h.given, fun hmem => h.inserted (hr.inserted_own id hmem h.given),
    fun hmem => h.entries (hr.entries_new id hmem h.given)⟩

theorem Placed.stable (h : Placed t id s) (hr : Rely t s s') : Placed t id s' := by
  refine ⟨h.clean.stable hr, (hr.given id).mpr h.given, hr.inserted id h.inserted,
    fun hmem => h.entries (hr.entries_new id hmem h.given), ?_⟩
  rcases h.row with hrow | hsought
  · exact hr.rows_gone id hrow h.given
  · exact .inr (hr.sought id hsought)

theorem Registered.stable (h : Registered t id s) (hr : Rely t s s') : Registered t id s' :=
  ⟨h.clean.stable hr, hr.settled id h.settled, hr.inserted id h.inserted⟩

theorem Drawn.closing (h : Drawn t id s) : Closing t id s := ⟨h.clean.but id, .inr ⟨h.given, h.entries⟩⟩

theorem Placed.closing (h : Placed t id s) : Closing t id s := ⟨h.clean, .inr ⟨h.given, h.entries⟩⟩

/-- What the two stores do not depend on: which processes have exited, which ids have been seen, and
the Marimo sessions, as long as these name no tunnel to come. -/
def Same (s s' : TunnelWorld) : Prop := ∃ dead seen sessions,
  (∀ m ∈ sessions, m ∈ s.marimoSessions ∨ m.tunnelId ∈ s.inserted) ∧
    s' = { s with dead := dead, seen := seen ++ s.seen, marimoSessions := sessions }

theorem Same.refl (s : TunnelWorld) : Same s s := ⟨s.dead, [], s.marimoSessions, fun _ hm => .inl hm, rfl⟩

theorem same_kill (s : TunnelWorld) (id : String) : Same s (s.kill id) :=
  ⟨id :: s.dead, [], s.marimoSessions, fun _ hm => .inl hm, rfl⟩

theorem guar_same (h : Same s s') : Guar t s s' := by
  obtain ⟨dead, seen, sessions, -, rfl⟩ := h
  exact ⟨fun _ h => h, fun _ _ h => .inl h, fun _ h => List.mem_append_right _ h, fun _ h => h, fun _ h => .inl h,
    fun _ h => .inl h, fun _ h => .inl h, fun _ h => .inl h, fun _ h => h, fun _ _ _ => .rfl⟩

theorem owned_same (h : Same s s') (hi : Owned s) : Owned s' := by
  have hsettled (id : String) : Settled s id → Settled s' id := (guar_same (t := 0) h).settled
  obtain ⟨dead, seen, sessions, hsessions, rfl⟩ := h
  refine ⟨hi.rows_inserted, hi.inserted_given, fun id t hg => List.mem_append_right _ (hi.given_seen id t hg),
    hi.given_unique, hi.entries_rows, hi.sought_entries, fun id hid => hsettled id (hi.sought_settled id hid),
    fun m hm => ?_, hi.orphans⟩
  rcases hsessions m hm with hm | hins
  · exact hi.sessions m hm
  · exact .inl hins

theorem rely_same (h : Same s s') : Rely t s s' := by
  have hsettled (id : String) : Settled s id → Settled s' id := (guar_same (t := t) h).settled
  obtain ⟨dead, seen, sessions, -, rfl⟩ := h
  exact ⟨fun _ => .rfl, hsettled, fun _ h => h, fun _ h _ => h, fun _ h _ => h, fun _ h _ => .inl h, fun _ h _ => h,
    fun _ h => h, fun _ => .rfl⟩

section Draw

variable (hi : Owned s) (hu : s.unused id = true)

include hi hu

omit hi in
theorem unused_iff : id ∉ s.seen ∧ id ∉ s.rowIds ∧ ∀ m ∈ s.marimoSessions, m.tunnelId ≠ id := by
  simp only [TunnelWorld.unused, Bool.and_eq_true, decide_eq_true_eq, Bool.not_eq_true', List.any_eq_false] at hu
  exact ⟨hu.1.1, fun hmem => hu.1.2 id hmem rfl, hu.2⟩

theorem not_given (t : ℕ) : (id, t) ∉ s.given := fun hg => (unused_iff hu).1 (hi.given_seen id t hg)

omit hi in
theorem guar_draw : Guar t s (s.draw t id) where
  given _ hg := List.mem_cons_of_mem _ hg
  given_new id' t' hg := by
    rcases List.mem_cons.mp hg with heq | hg
    · cases heq
      exact .inr ⟨rfl, (unused_iff hu).1⟩
    · exact .inl hg
  seen _ h := List.mem_cons_of_mem _ h
  inserted _ h := h
  inserted_new _ h := .inl h
  rows_new _ h := .inl h
  rows_gone _ h := .inl h
  entries_new _ h := .inl h
  sought _ h := h
  owners _ _ _ := .rfl

theorem owned_draw (t : ℕ) : Owned (s.draw t id) where
  rows_inserted := hi.rows_inserted
  inserted_given id' h := (hi.inserted_given id' h).imp fun _ hg => List.mem_cons_of_mem _ hg
  given_seen id' t' hg := by
    rcases List.mem_cons.mp hg with heq | hg
    · cases heq
      exact List.mem_cons_self ..
    · exact List.mem_cons_of_mem _ (hi.given_seen id' t' hg)
  given_unique id' t₁ t₂ h₁ h₂ := by
    rcases List.mem_cons.mp h₁ with heq | h₁ <;> rcases List.mem_cons.mp h₂ with heq' | h₂
    · cases heq
      cases heq'
      rfl
    · cases heq
      exact absurd h₂ (not_given hi hu t₂)
    · cases heq'
      exact absurd h₁ (not_given hi hu t₁)
    · exact hi.given_unique id' t₁ t₂ h₁ h₂
  entries_rows := hi.entries_rows
  sought_entries := hi.sought_entries
  sought_settled id' h := (guar_draw (t := t) hu).settled (hi.sought_settled id' h)
  sessions m hm := by
    refine (hi.sessions m hm).imp_right fun hn t' hg => ?_
    rcases List.mem_cons.mp hg with heq | hg
    · exact (unused_iff hu).2.2 m hm (congrArg Prod.fst heq)
    · exact hn t' hg
  orphans := hi.orphans

end Draw

theorem mem_rowIds_filter {id' : String} :
    id' ∈ (s.portForwards.filter fun p => p.id ≠ id).map (·.id) ↔ id' ∈ s.rowIds ∧ id' ≠ id := by
  simp only [TunnelWorld.rowIds, List.mem_map, List.mem_filter, decide_eq_true_eq]
  constructor
  · rintro ⟨p, ⟨hp, hne⟩, rfl⟩
    exact ⟨⟨p, hp, rfl⟩, hne⟩
  · rintro ⟨⟨p, hp, rfl⟩, hne⟩
    exact ⟨p, ⟨hp, hne⟩, rfl⟩

theorem mem_entryIds_filter {id' : String} :
    id' ∈ (s.entries.filter fun e => e.id ≠ id).map (·.id) ↔ id' ∈ s.entryIds ∧ id' ≠ id := by
  simp only [TunnelWorld.entryIds, List.mem_map, List.mem_filter, decide_eq_true_eq]
  constructor
  · rintro ⟨e, ⟨he, hne⟩, rfl⟩
    exact ⟨⟨e, he, rfl⟩, hne⟩
  · rintro ⟨⟨e, he, rfl⟩, hne⟩
    exact ⟨e, ⟨he, hne⟩, rfl⟩

theorem mem_owners_filter {o : ℕ × String} : o ∈ (s.owners.filter fun o => o ≠ (t, id)) ↔ o ∈ s.owners ∧
    o ≠ (t, id) := by
  simp

theorem guar_insertRow {pf : PortForward} (hd : Drawn t pf.id s) : Guar t s (s.insertRow t pf) where
  given _ h := h
  given_new _ _ h := .inl h
  seen _ h := h
  inserted _ h := List.mem_cons_of_mem _ h
  inserted_new id h := by
    rcases List.mem_cons.mp h with rfl | h
    · exact .inr hd.given
    · exact .inl h
  rows_new id h := by
    simp only [TunnelWorld.rowIds, TunnelWorld.insertRow, List.map_append, List.mem_append, List.map_cons,
      List.map_nil,
      List.mem_singleton] at h
    rcases h with h | rfl
    · exact .inl h
    · exact .inr ⟨hd.given, hd.inserted⟩
  rows_gone id h := by
    left
    simp only [TunnelWorld.rowIds, TunnelWorld.insertRow, List.map_append, List.mem_append]
    exact .inl h
  entries_new _ h := .inl h
  sought _ h := h
  owners t' id hne := by
    simp [TunnelWorld.insertRow, hne]

theorem owned_insertRow {pf : PortForward} (hi : Owned s) (hd : Drawn t pf.id s) : Owned (s.insertRow t pf) := by
  have hrows : ∀ id, id ∈ (s.insertRow t pf).rowIds ↔ id ∈ s.rowIds ∨ id = pf.id := fun id => by
    simp [TunnelWorld.rowIds, TunnelWorld.insertRow]
  refine ⟨fun id hid => ?_, fun id hid => ?_, hi.given_seen, hi.given_unique, fun id hid => ?_, hi.sought_entries,
    fun id hid => (guar_insertRow hd).settled (hi.sought_settled id hid), fun m hm => ?_, fun id hid hout => ?_⟩
  · rcases (hrows id).mp hid with hid | rfl
    · exact List.mem_cons_of_mem _ (hi.rows_inserted id hid)
    · exact List.mem_cons_self ..
  · rcases List.mem_cons.mp hid with rfl | hid
    · exact ⟨t, hd.given⟩
    · exact hi.inserted_given id hid
  · exact (hrows id).mpr (.inl (hi.entries_rows id hid))
  · exact (hi.sessions m hm).imp_left fun h => List.mem_cons_of_mem _ h
  · rcases (hrows id).mp hid with hid | rfl
    · exact (hi.orphans id hid hout).imp fun _ h => List.mem_cons_of_mem _ h
    · exact ⟨t, List.mem_cons_self ..⟩

theorem placed_insertRow {pf : PortForward} (hd : Drawn t pf.id s) : Placed t pf.id (s.insertRow t pf) := by
  have hrows : pf.id ∈ (s.insertRow t pf).rowIds := by simp [TunnelWorld.rowIds, TunnelWorld.insertRow]
  refine ⟨fun id' hne hown => ?_, hd.given, List.mem_cons_self .., hd.entries, .inl hrows⟩
  rcases List.mem_cons.mp hown with heq | hown
  · exact absurd (congrArg Prod.snd heq) hne
  · obtain ⟨hgone, hk⟩ := hd.clean id' hown
    refine ⟨?_, hk.imp_left (guar_insertRow hd).settled⟩
    simp only [TunnelWorld.rowIds, TunnelWorld.insertRow, List.map_append, List.mem_append, List.map_cons,
      List.map_nil,
      List.mem_singleton, not_or]
    exact ⟨hgone, hne⟩

section Add

variable {entry : TunnelProcess} (hi : Owned s) (hp : Placed t entry.id s) (hs : entry.id ∉ s.sought)

include hp

omit hp in
theorem mem_entryIds_addEntry {id' : String} :
    id' ∈ (s.addEntry t entry).entryIds ↔ id' ∈ s.entryIds ∧ id' ≠ entry.id ∨ id' = entry.id := by
  simp only [TunnelWorld.entryIds, TunnelWorld.addEntry, List.map_append, List.mem_append, List.map_cons,
    List.map_nil,
    List.mem_singleton]
  rw [mem_entryIds_filter]
  rfl

theorem guar_addEntry : Guar t s (s.addEntry t entry) where
  given _ h := h
  given_new _ _ h := .inl h
  seen _ h := h
  inserted _ h := h
  inserted_new _ h := .inl h
  rows_new _ h := .inl h
  rows_gone _ h := .inl h
  entries_new id h := by
    rcases mem_entryIds_addEntry.mp h with ⟨h, -⟩ | rfl
    · exact .inl h
    · exact .inr hp.given
  sought _ h := h
  owners t' id hne := by
    simp [TunnelWorld.addEntry, hne]

include hi hs

theorem owned_addEntry : Owned (s.addEntry t entry) := by
  refine ⟨hi.rows_inserted, hi.inserted_given, hi.given_seen, hi.given_unique, fun id hid => ?_, fun id hid => ?_,
    fun id hid => (guar_addEntry hp).settled (hi.sought_settled id hid), hi.sessions, fun id hid hout => ?_⟩
  · rcases mem_entryIds_addEntry.mp hid with ⟨hid, -⟩ | rfl
    · exact hi.entries_rows id hid
    · exact hp.row.resolve_right hs
  · rw [mem_entryIds_addEntry]
    rintro (⟨hmem, -⟩ | rfl)
    · exact hi.sought_entries id hid hmem
    · exact hs hid
  · rw [mem_entryIds_addEntry] at hout
    have hne : id ≠ entry.id := fun heq => hout (.inr heq)
    have hout' : id ∉ s.entryIds := fun hmem => hout (.inl ⟨hmem, hne⟩)
    obtain ⟨t', hown⟩ := hi.orphans id hid hout'
    refine ⟨t', mem_owners_filter.mpr ⟨hown, fun heq => hne (congrArg Prod.snd heq)⟩⟩

omit hs in
theorem registered_addEntry : Registered t entry.id (s.addEntry t entry) := by
  have hseen : entry.id ∈ s.seen := hi.given_seen _ t hp.given
  refine ⟨fun id hown => ?_, ⟨hseen, .inl hp.inserted⟩, hp.inserted⟩
  obtain ⟨hown, hne⟩ := mem_owners_filter.mp hown
  have hne' : id ≠ entry.id := fun heq => hne (by rw [heq])
  exact hp.clean id hne' hown

end Add

theorem guar_removeEntry : Guar t s (s.removeEntry t id) where
  given _ h := h
  given_new _ _ h := .inl h
  seen _ h := List.mem_cons_of_mem _ h
  inserted _ h := h
  inserted_new _ h := .inl h
  rows_new _ h := .inl h
  rows_gone _ h := .inl h
  entries_new _ h := .inl (mem_entryIds_filter.mp h).1
  sought _ h := List.mem_cons_of_mem _ h
  owners t' id' hne := by
    simp [TunnelWorld.removeEntry, hne]

theorem owned_removeEntry (hi : Owned s) (hs : Settled s id) (t : ℕ) : Owned (s.removeEntry t id) := by
  refine ⟨hi.rows_inserted, hi.inserted_given, fun id' t' hg => List.mem_cons_of_mem _ (hi.given_seen id' t' hg),
    hi.given_unique, fun id' hid => ?_, fun id' hid hmem => ?_,
      fun id' hid => ?_, hi.sessions, fun id' hid hout => ?_⟩
  · exact hi.entries_rows id' (mem_entryIds_filter.mp hid).1
  · obtain ⟨hmem, hne⟩ := mem_entryIds_filter.mp hmem
    exact hi.sought_entries id' ((List.mem_cons.mp hid).resolve_left hne) hmem
  · refine guar_removeEntry.settled (t := t) ?_
    rcases List.mem_cons.mp hid with rfl | hid
    · exact hs
    · exact hi.sought_settled id' hid
  · by_cases heq : id' = id
    · exact ⟨t, by simp [TunnelWorld.removeEntry, heq]⟩
    · have hout' : id' ∉ s.entryIds := fun hmem => hout (mem_entryIds_filter.mpr ⟨hmem, heq⟩)
      exact (hi.orphans id' hid hout').imp fun _ h => List.mem_cons_of_mem _ h

theorem closing_removeEntry (hc : Clean t s) : Closing t id (s.removeEntry t id) := by
  refine ⟨fun id' hne hown => ?_, .inl (List.mem_cons_self ..)⟩
  rcases List.mem_cons.mp hown with heq | hown
  · exact absurd (congrArg Prod.snd heq) hne
  · exact ⟨(hc id' hown).1, (hc id' hown).2.imp_left guar_removeEntry.settled⟩

theorem guar_deleteRow (hc : Closing t id s) : Guar t s (s.deleteRow t id) where
  given _ h := h
  given_new _ _ h := .inl h
  seen _ h := h
  inserted _ h := h
  inserted_new _ h := .inl h
  rows_new _ h := .inl (mem_rowIds_filter.mp h).1
  rows_gone id' h := by
    by_cases heq : id' = id
    · subst heq
      exact .inr (hc.2.imp_right And.left)
    · exact .inl (mem_rowIds_filter.mpr ⟨h, heq⟩)
  entries_new _ h := .inl h
  sought _ h := h
  owners t' id' hne := by
    simp [TunnelWorld.deleteRow, hne]

theorem owned_deleteRow (hi : Owned s) (hc : Closing t id s) : Owned (s.deleteRow t id) := by
  have hout := hc.2.not_mem hi
  refine ⟨fun id' hid => hi.rows_inserted id' (mem_rowIds_filter.mp hid).1, hi.inserted_given, hi.given_seen,
    hi.given_unique, fun id' hid => ?_, hi.sought_entries,
    fun id' hid => (guar_deleteRow hc).settled (hi.sought_settled id' hid), hi.sessions, fun id' hid hnone => ?_⟩
  · refine mem_rowIds_filter.mpr ⟨hi.entries_rows id' hid, fun heq => ?_⟩
    exact hout (heq ▸ hid)
  · obtain ⟨hid, hne⟩ := mem_rowIds_filter.mp hid
    obtain ⟨t', hown⟩ := hi.orphans id' hid hnone
    exact ⟨t', mem_owners_filter.mpr ⟨hown, fun heq => hne (congrArg Prod.snd heq)⟩⟩

theorem clean_deleteRow (hc : Closing t id s) : Clean t (s.deleteRow t id) := by
  intro id' hown
  obtain ⟨hown, hne⟩ := mem_owners_filter.mp hown
  have hne' : id' ≠ id := fun heq => hne (by rw [heq])
  obtain ⟨hgone, hk⟩ := hc.1 id' hne' hown
  exact ⟨fun hmem => hgone (mem_rowIds_filter.mp hmem).1, hk.imp_left (guar_deleteRow hc).settled⟩

end WorkerHarness.TunnelOwnership
