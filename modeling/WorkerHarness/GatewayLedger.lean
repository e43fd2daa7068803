import WorkerHarness.GatewayAttachments

/-!
# The ledger of attachments

An attachment is active exactly when it was reserved and neither evicted nor released: what an
admission, an eviction and a release do to the maps of the gateway, and to their sizes.
-/

namespace WorkerHarness.GatewayAdmission

open Coroutines Gateway GatewayWorld

variable {cfg : GatewayConfig} {s s' s'' : GatewayWorld} {t t' a b : ℕ} {session session' id : String} {β : Type}

def Active (s : GatewayWorld) (session : String) (a : ℕ) : Prop := ∃ id, (id, a) ∈ s.active session

structure Ledger (s : GatewayWorld) : Prop where
  ids : (s.objects.map (·.id)).Nodup
  keys : ∀ session, ((s.active session).map Prod.fst).Nodup
  keyed : ∀ session, ∀ entry ∈ s.active session, ∃ o, s.objects[entry.2]? = some o ∧ o.id = entry.1
  active_iff : ∀ session a, Active s session a ↔ (session, a) ∈ s.reserved ∧ a ∉ s.victims ∧ a ∉ s.releases
  once : ∀ session session' a, (session, a) ∈ s.reserved → (session', a) ∈ s.reserved → session = session'
  created : ∀ session a, (session, a) ∈ s.reserved → a < s.objects.length
  released_created : ∀ a ∈ s.releases, a < s.objects.length
  victims_reserved : ∀ a ∈ s.victims, ∃ session, (session, a) ∈ s.reserved
  victims_nodup : s.victims.Nodup
  counted : s.evictionsTotal = s.victims.length
  evict_iff : ∀ a o, s.objects[a]? = some o → (o.evict = true ↔ a ∈ s.victims)

structure Bounded (cfg : GatewayConfig) (s : GatewayWorld) : Prop where
  capacity : ∀ session, (s.active session).length ≤ cfg.maxPerSession
  nonempty : ∀ session, s.attachments session ≠ some []

/-- Two objects with one id are one object. -/
theorem Ledger.same {o o' : GatewayAttachment} (h : Ledger s) (ha : s.objects[a]? = some o)
    (hb : s.objects[b]? = some o')
    (hid : o.id = o'.id) : a = b := by
  have hlt : a < (s.objects.map (·.id)).length := by
    rw [List.length_map]
    exact (List.getElem?_eq_some_iff.mp ha).1
  refine (List.getElem?_inj hlt h.ids).mp ?_
  rw [List.getElem?_map, List.getElem?_map, ha, hb]
  exact congrArg some hid

/-- The entry of an object has its id as the key. -/
theorem Ledger.key {o : GatewayAttachment} (h : Ledger s) (ha : s.objects[a]? = some o)
    (hm : (id, a) ∈ s.active session) : id = o.id := by
  obtain ⟨o', ho', hid⟩ := h.keyed session _ hm
  cases ha.symm.trans ho'
  exact hid.symm

/-- What an update of one object leaves of all of them. -/
theorem getElem?_modify_some {f : GatewayAttachment → GatewayAttachment} {o' : GatewayAttachment}
    (h : (s.objects.modify b f)[a]? = some o') :
    ∃ o, s.objects[a]? = some o ∧ o' = if b = a then f o else o := by
  rw [List.getElem?_modify] at h
  cases ho : s.objects[a]? with
  | none => simp [ho] at h
  | some o =>
    refine ⟨o, rfl, ?_⟩
    simp only [ho, Option.map_eq_map, Option.map_some, Option.some.injEq] at h
    exact h.symm

theorem getElem?_modify_of_some {f : GatewayAttachment → GatewayAttachment} {o : GatewayAttachment}
    (h : s.objects[a]? = some o) : (s.objects.modify b f)[a]? = some (if b = a then f o else o) := by
  rw [List.getElem?_modify, h]
  rfl

theorem map_id_modify {f : GatewayAttachment → GatewayAttachment} (hf : ∀ o, (f o).id = o.id) :
    (s.objects.modify b f).map (·.id) = s.objects.map (·.id) := by
  refine List.ext_getElem? fun i => ?_
  rw [List.getElem?_map, List.getElem?_map, List.getElem?_modify]
  cases s.objects[i]? with
  | none => rfl
  | some o => by_cases hb : b = i <;> simp [hb, hf]

theorem active_setActive {active : Option (List (String × ℕ))} :
    (s.setActive session active).active session' = if session' =
    session then active.getD [] else s.active session' := by
  unfold GatewayWorld.active setActive
  split <;> simp_all

/-- An update of one object that keeps its id and whether it was evicted. -/
theorem ledger_modify {f : GatewayAttachment → GatewayAttachment} (h : Ledger s) (hid : ∀ o, (f o).id = o.id)
    (hevict : ∀ o, (f o).evict = o.evict) : Ledger { s with objects := s.objects.modify b f } where
  ids := by
    rw [map_id_modify hid]
    exact h.ids
  keys := h.keys
  keyed session entry he := by
    obtain ⟨o, ho, hkey⟩ := h.keyed session entry he
    refine ⟨_, getElem?_modify_of_some ho, ?_⟩
    split
    · rw [hid, hkey]
    · exact hkey
  active_iff := h.active_iff
  once := h.once
  created session a ha := by
    rw [List.length_modify]
    exact h.created session a ha
  released_created a ha := by
    rw [List.length_modify]
    exact h.released_created a ha
  victims_reserved := h.victims_reserved
  victims_nodup := h.victims_nodup
  counted := h.counted
  evict_iff a o' ho' := by
    obtain ⟨o, ho, rfl⟩ := getElem?_modify_some ho'
    split
    · rw [hevict]
      exact h.evict_iff a o ho
    · exact h.evict_iff a o ho

/-- A new object that nobody knows. -/
theorem ledger_create {o : GatewayAttachment} (h : Ledger s) (hid : o.id ∉ s.objects.map (·.id))
    (hevict : o.evict = false) :
    Ledger { s with objects := s.objects ++ [o] } where
  ids := by
    rw [List.map_append, List.map_cons, List.map_nil]
    exact List.nodup_append.mpr ⟨h.ids, List.nodup_singleton _, fun x hx y hy => by
      rw [List.mem_singleton.mp hy]
      exact fun heq => hid (heq ▸ hx)⟩
  keys := h.keys
  keyed session entry he := by
    obtain ⟨o', ho', hkey⟩ := h.keyed session entry he
    exact ⟨o', by rw [List.getElem?_append_left (List.getElem?_eq_some_iff.mp ho').1, ho'], hkey⟩
  active_iff := h.active_iff
  once := h.once
  created session a ha := by
    rw [List.length_append]
    exact Nat.lt_add_right _ (h.created session a ha)
  released_created a ha := by
    rw [List.length_append]
    exact Nat.lt_add_right _ (h.released_created a ha)
  victims_reserved := h.victims_reserved
  victims_nodup := h.victims_nodup
  counted := h.counted
  evict_iff a o' ho' := by
    by_cases hlt : a < s.objects.length
    · rw [List.getElem?_append_left hlt] at ho'
      exact h.evict_iff a o' ho'
    · rw [List.getElem?_append_right (Nat.le_of_not_lt hlt)] at ho'
      have ho : o' = o := by
        have hmem := List.mem_of_getElem? ho'
        exact List.mem_singleton.mp hmem
      rw [ho, hevict]
      refine ⟨fun hf => (Bool.false_ne_true hf).elim, fun hv => ?_⟩
      obtain ⟨session, hres⟩ := h.victims_reserved a hv
      exact absurd (h.created session a hres) hlt

/-- An entry is taken out of the map of its session by its key. -/
theorem mem_filter_key (h : Ledger s) {victim entry : String × ℕ} (hv : victim ∈ s.active session) :
    entry ∈ (s.active session).filter (fun entry => entry.1 ≠ victim.1) ↔ entry ∈ s.active session ∧
    entry.2 ≠ victim.2 := by
  rw [List.mem_filter, decide_eq_true_eq]
  refine and_congr_right fun he => not_congr ⟨fun hkey => ?_, fun hobject => ?_⟩
  · rw [List.inj_on_of_nodup_map (h.keys session) he hv hkey]
  · obtain ⟨o, ho, hid⟩ := h.keyed session entry he
    obtain ⟨o', ho', hid'⟩ := h.keyed session victim hv
    rw [hobject] at ho
    cases ho.symm.trans ho'
    rw [← hid, hid']

/-- An eviction moves one active attachment to the victims. -/
theorem ledger_evictEntry {victim : String × ℕ} (h : Ledger s) (hv : victim ∈ s.active session) :
    Ledger (s.evictEntry session victim) := by
  obtain ⟨hres, hnot, hrel⟩ := (h.active_iff session victim.2).mp ⟨victim.1, hv⟩
  have hactive : ∀ session', (s.evictEntry session victim).active session' =
      if session' = session then (s.active session).filter
        (fun entry => entry.1 ≠ victim.1) else s.active session' :=
    fun session' => active_setActive
  refine ⟨?_, fun session' => ?_, fun session' entry he => ?_, fun session' a => ?_, h.once,
    fun session' a ha => ?_,
    fun a ha => ?_, fun a ha => ?_, ?_, ?_, fun a o' ho' => ?_⟩
  · show ((s.objects.modify victim.2 fun a => { a with evict := true }).map (·.id)).Nodup
    rw [map_id_modify (f := fun a => { a with evict := true }) fun _ => rfl]
    exact h.ids
  · rw [hactive]
    split
    · exact (h.keys session).sublist (List.filter_sublist.map _)
    · exact h.keys session'
  · have hold : entry ∈ s.active session' := by
      rw [hactive] at he
      split at he
      · next heq =>
        rw [heq]
        exact (List.mem_filter.mp he).1
      · exact he
    obtain ⟨o, ho, hkey⟩ := h.keyed session' entry hold
    refine ⟨_, getElem?_modify_of_some ho, ?_⟩
    split <;> exact hkey
  · -- The victim is reserved for this session only.
    have hnew : Active (s.evictEntry session victim) session' a ↔ Active s session' a ∧ a ≠ victim.2 := by
      unfold Active
      rw [hactive]
      split
      · next heq =>
        subst heq
        constructor
        · rintro ⟨id, hm⟩
          obtain ⟨hm, hne⟩ := (mem_filter_key h hv).mp hm
          exact ⟨⟨id, hm⟩, hne⟩
        · rintro ⟨⟨id, hm⟩, hne⟩
          exact ⟨id, (mem_filter_key h hv).mpr ⟨hm, hne⟩⟩
      · next hne =>
        refine ⟨fun hm => ⟨hm, fun heq => hne ?_⟩, fun hm => hm.1⟩
        exact h.once session' session victim.2 (heq ▸ ((h.active_iff session' a).mp hm).1) hres
    rw [hnew, h.active_iff session' a]
    show _ ↔ (session', a) ∈ s.reserved ∧ a ∉ victim.2 :: s.victims ∧ a ∉ s.releases
    rw [List.mem_cons]
    tauto
  · show a < (s.objects.modify victim.2 fun a => { a with evict := true }).length
    rw [List.length_modify]
    exact h.created session' a ha
  · show a < (s.objects.modify victim.2 fun a => { a with evict := true }).length
    rw [List.length_modify]
    exact h.released_created a ha
  · rcases List.mem_cons.mp ha with rfl | ha
    · exact ⟨session, hres⟩
    · exact h.victims_reserved a ha
  · exact List.nodup_cons.mpr ⟨hnot, h.victims_nodup⟩
  · show s.evictionsTotal + 1 = (victim.2 :: s.victims).length
    rw [List.length_cons, h.counted]
  · obtain ⟨o, ho, rfl⟩ := getElem?_modify_some ho'
    show _ ↔ a ∈ victim.2 :: s.victims
    rw [List.mem_cons]
    split
    · next heq => exact ⟨fun _ => .inl heq.symm, fun _ => rfl⟩
    · next hne =>
      rw [h.evict_iff a o ho]
      exact ⟨.inr, fun hor => hor.resolve_left fun heq => hne heq.symm⟩

/-- An object that has not been reserved is not active, and its id is no key. -/
theorem addActive_active {o : GatewayAttachment} (h : Ledger s) (ho : s.objects[a]? = some o)
    (hfresh : ∀ session, (session, a) ∉ s.reserved) :
    (s.addActive session a o.id).active session' =
      if session' = session then s.active session ++ [(o.id, a)] else s.active session' := by
  have hnew : o.id ∉ (s.active session).map Prod.fst := by
    intro hmem
    obtain ⟨entry, he, hkey⟩ := List.mem_map.mp hmem
    obtain ⟨o', ho', hid⟩ := h.keyed session entry he
    have hsame : entry.2 = a := h.same ho' ho (hid.trans hkey)
    exact hfresh session ((h.active_iff session a).mp ⟨entry.1, hsame ▸ he⟩).1
  have hput : (if o.id ∈ (s.active session).map Prod.fst then KeyedLists.setValue o.id a (s.active session)
      else s.active session ++ [(o.id, a)]) = s.active session ++ [(o.id, a)] := if_neg hnew
  rw [← hput]
  exact active_setActive

/-- An admission makes one object active. -/
theorem ledger_addActive {o : GatewayAttachment} (h : Ledger s) (ho : s.objects[a]? = some o)
    (hfresh : ∀ session, (session, a) ∉ s.reserved) (hrel : a ∉ s.releases) :
    Ledger (s.addActive session a o.id) := by
  have hvictim : a ∉ s.victims := fun hv => by
    obtain ⟨session, hres⟩ := h.victims_reserved a hv
    exact hfresh session hres
  have hactive : ∀ session', (s.addActive session a o.id).active session' =
      if session' = session then s.active session ++ [(o.id, a)] else s.active session' :=
    fun session' => addActive_active h ho hfresh
  refine ⟨h.ids, fun session' => ?_, fun session' entry he => ?_, fun session' b => ?_,
    fun session₁ session₂ b h₁ h₂ => ?_,
    fun session' b hb => ?_, h.released_created, fun b hb => ?_, h.victims_nodup, h.counted, h.evict_iff⟩
  · rw [hactive]
    split
    · rw [List.map_append, List.map_cons, List.map_nil]
      refine List.nodup_append.mpr ⟨h.keys session, List.nodup_singleton _, fun x hx y hy heq => ?_⟩
      rw [List.mem_singleton.mp hy] at heq
      obtain ⟨entry, he, hkey⟩ := List.mem_map.mp hx
      obtain ⟨o', ho', hid⟩ := h.keyed session entry he
      have hsame : entry.2 = a := h.same ho' ho (hid.trans (hkey.trans heq))
      exact hfresh session ((h.active_iff session a).mp ⟨entry.1, hsame ▸ he⟩).1
    · exact h.keys session'
  · rw [hactive] at he
    split at he
    · next heq =>
      rcases List.mem_append.mp he with he | he
      · exact h.keyed session entry he
      · rw [List.mem_singleton.mp he]
        exact ⟨o, ho, rfl⟩
    · exact h.keyed session' entry he
  · have hnew : Active (s.addActive session a o.id) session' b ↔ Active s session' b ∨ session' = session ∧
      b = a := by
      unfold Active
      rw [hactive]
      split
      · next heq =>
        subst heq
        constructor
        · rintro ⟨id, hm⟩
          rcases List.mem_append.mp hm with hm | hm
          · exact .inl ⟨id, hm⟩
          · cases List.mem_singleton.mp hm
            exact .inr ⟨rfl, rfl⟩
        · rintro (⟨id, hm⟩ | ⟨-, rfl⟩)
          · exact ⟨id, List.mem_append_left _ hm⟩
          · exact ⟨o.id, List.mem_append_right _ (List.mem_singleton.mpr rfl)⟩
      · next hne =>
        exact ⟨.inl, fun hor => hor.resolve_right fun hand => hne hand.1⟩
    rw [hnew, h.active_iff session' b]
    show _ ↔ (session', b) ∈ (session, a) :: s.reserved ∧ b ∉ s.victims ∧ b ∉ s.releases
    rw [List.mem_cons, Prod.mk.injEq]
    constructor
    · rintro (⟨hres, hv, hr⟩ | ⟨rfl, rfl⟩)
      · exact ⟨.inr hres, hv, hr⟩
      · exact ⟨.inl ⟨rfl, rfl⟩, hvictim, hrel⟩
    · rintro ⟨⟨rfl, rfl⟩ | hres, hv, hr⟩
      · exact .inr ⟨rfl, rfl⟩
      · exact .inl ⟨hres, hv, hr⟩
  · rcases List.mem_cons.mp h₁ with h₁ | h₁
    · cases h₁
      rcases List.mem_cons.mp h₂ with h₂ | h₂
      · cases h₂
        rfl
      · exact absurd h₂ (hfresh session₂)
    · rcases List.mem_cons.mp h₂ with h₂ | h₂
      · cases h₂
        exact absurd h₁ (hfresh session₁)
      · exact h.once session₁ session₂ b h₁ h₂
  · rcases List.mem_cons.mp hb with hb | hb
    · cases hb
      exact (List.getElem?_eq_some_iff.mp ho).1
    · exact h.created session' b hb
  · obtain ⟨session', hres⟩ := h.victims_reserved b hb
    exact ⟨session', List.mem_cons_of_mem _ hres⟩

/-- The lookup that a release makes finds the attachment exactly when it is active. -/
theorem lookup_iff {o : GatewayAttachment} (h : Ledger s) (ho : s.objects[a]? = some o) :
    (s.active session).lookup o.id = some a ↔ Active s session a := by
  constructor
  · intro hl
    obtain ⟨l₁, l₂, hlist, -⟩ := List.lookup_eq_some_iff.mp hl
    exact ⟨o.id, by simp [hlist]⟩
  · rintro ⟨id, hm⟩
    have hid : id = o.id := h.key ho hm
    subst hid
    cases hl : (s.active session).lookup o.id with
    | none => simpa using List.lookup_eq_none_iff.mp hl _ hm
    | some b =>
      obtain ⟨l₁, l₂, hlist, -⟩ := List.lookup_eq_some_iff.mp hl
      have hb : (o.id, b) ∈ s.active session := by simp [hlist]
      have heq := List.inj_on_of_nodup_map (h.keys session) hb hm rfl
      cases heq
      rfl

/-- What a release leaves of the maps. -/
theorem takeOff_active {o : GatewayAttachment} (h : Ledger s) (ho : s.objects[a]? = some o)
    (hres : (session, a) ∈ s.reserved) (entry : String × ℕ) :
    entry ∈ (s.takeOff session a o.id).active session' ↔ entry ∈ s.active session' ∧ entry.2 ≠ a := by
  have hother : session' ≠ session ∨ ¬Active s session a →
      (entry ∈ s.active session' ↔ entry ∈ s.active session' ∧ entry.2 ≠ a) := by
    refine fun hor => ⟨fun he => ⟨he, fun heq => ?_⟩, fun he => he.1⟩
    have hsession : session' = session :=
      h.once session' session a ((h.active_iff session' a).mp ⟨entry.1, heq ▸ he⟩).1 hres
    rcases hor with hne | hnot
    · exact hne hsession
    · exact hnot ⟨entry.1, hsession ▸ heq ▸ he⟩
  unfold takeOff
  split
  · next hl =>
    obtain ⟨id, hm⟩ := (lookup_iff h ho).mp hl
    have hid : id = o.id := h.key ho hm
    subst hid
    dsimp only
    rw [active_setActive]
    split
    · next heq =>
      subst heq
      rw [← mem_filter_key h hm]
      split
      · next hnil => rw [hnil, Option.getD_none]
      · rfl
    · next hne => exact hother (.inl hne)
  · next hl => exact hother (.inr fun ha => hl ((lookup_iff h ho).mpr ha))

theorem takeOff_sublist : ((s.takeOff session a id).active session').Sublist (s.active session') := by
  unfold takeOff
  split
  · dsimp only
    rw [active_setActive]
    split
    · next heq =>
      subst heq
      split
      · exact List.nil_sublist _
      · exact List.filter_sublist
    · exact List.Sublist.refl _
  · exact List.Sublist.refl _

/-- A release of a reserved attachment takes this attachment off the active ones, and no other. -/
theorem ledger_release {o : GatewayAttachment} (h : Ledger s) (ho : s.objects[a]? = some o)
    (hres : (session, a) ∈ s.reserved) : Ledger (s.release session a o.id) := by
  have hactive : ∀ session', (s.release session a o.id).active session' =
    (s.takeOff session a o.id).active session' :=
    fun _ => rfl
  have hlength : (s.release session a o.id).objects.length = s.objects.length := List.length_modify _ _ _
  refine ⟨?_, fun session' => ?_, fun session' entry he => ?_, fun session' b => ?_, h.once,
    fun session' b hb => ?_,
    fun b hb => ?_, h.victims_reserved, h.victims_nodup, h.counted, fun b o' ho' => ?_⟩
  · show ((s.objects.modify a fun a => { a with released := true }).map (·.id)).Nodup
    rw [map_id_modify (f := fun a => { a with released := true }) fun _ => rfl]
    exact h.ids
  · exact (h.keys session').sublist (takeOff_sublist.map _)
  · obtain ⟨o', ho', hkey⟩ := h.keyed session' entry (takeOff_sublist.subset he)
    refine ⟨_, getElem?_modify_of_some ho', ?_⟩
    split <;> exact hkey
  · have hnew : Active (s.release session a o.id) session' b ↔ Active s session' b ∧ b ≠ a := by
      unfold Active
      rw [hactive]
      constructor
      · rintro ⟨id, hm⟩
        obtain ⟨hm, hne⟩ := (takeOff_active h ho hres (id, b)).mp hm
        exact ⟨⟨id, hm⟩, hne⟩
      · rintro ⟨⟨id, hm⟩, hne⟩
        exact ⟨id, (takeOff_active h ho hres (id, b)).mpr ⟨hm, hne⟩⟩
    rw [hnew, h.active_iff session' b]
    show _ ↔ (session', b) ∈ s.reserved ∧ b ∉ s.victims ∧ b ∉ a :: s.releases
    rw [List.mem_cons]
    tauto
  · rw [hlength]
    exact h.created session' b hb
  · rw [hlength]
    rcases List.mem_cons.mp hb with rfl | hb
    · exact (List.getElem?_eq_some_iff.mp ho).1
    · exact h.released_created b hb
  · obtain ⟨o'', ho'', rfl⟩ := getElem?_modify_some ho'
    split <;> exact h.evict_iff b o'' ho''

theorem victim_mem {victim : String × ℕ} (h : s.victim cfg session = some victim) :
    victim ∈ s.active session ∧ cfg.maxPerSession ≤ (s.active session).length ∧
      ∀ entry ∈ s.active session, s.idleness victim ≤ s.idleness entry := by
  unfold GatewayWorld.victim at h
  split at h
  · next hcap => exact ⟨List.argmin_mem h, hcap, fun entry he => List.le_of_mem_argmin he h⟩
  · cases h

theorem victim_eq_none (h : s.victim cfg session = none) : (s.active session).length < cfg.maxPerSession := by
  unfold GatewayWorld.victim at h
  split at h
  · next hcap =>
    have hpos := cfg.pos
    have hnil : s.active session = [] := List.argmin_eq_none.mp h
    rw [hnil, List.length_nil] at hcap
    omega
  · next hcap => exact Nat.lt_of_not_le hcap

theorem evictEntry_active {victim : String × ℕ} : (s.evictEntry session victim).active session' =
    if session' = session then (s.active session).filter (fun entry => entry.1 ≠ victim.1) else s.active session' :=
  active_setActive

/-- One entry fewer. -/
theorem length_evictEntry {victim : String × ℕ} (h : Ledger s) (hv : victim ∈ s.active session) :
    ((s.evictEntry session victim).active session).length + 1 = (s.active session).length := by
  rw [evictEntry_active, if_pos rfl]
  have hcount : (s.active session).countP (fun entry => ¬entry.1 ≠ victim.1) = 1 := by
    have hc := List.count_eq_one_of_mem (h.keys session) (List.mem_map_of_mem (f := Prod.fst) hv)
    rw [List.count, List.countP_map] at hc
    rw [← hc]
    refine List.countP_congr fun entry _ => ?_
    simp
  have hsum := List.length_eq_countP_add_countP (fun entry : String × ℕ => decide (entry.1 ≠ victim.1))
    (l := s.active session)
  rw [← List.countP_eq_length_filter]
  have heq : (s.active session).countP (fun a => decide ¬decide (a.1 ≠ victim.1) = true) =
      (s.active session).countP (fun entry => ¬entry.1 ≠ victim.1) := by
    refine List.countP_congr fun entry _ => ?_
    simp
  omega

theorem bounded_of_same (h : Bounded cfg s) (hs : s'.attachments = s.attachments) : Bounded cfg s' := by
  refine ⟨fun session => ?_, fun session => ?_⟩
  · rw [GatewayWorld.active, hs]
    exact h.capacity session
  · rw [hs]
    exact h.nonempty session

/-- An admission below the capacity. -/
theorem bounded_addActive {o : GatewayAttachment} (hl : Ledger s) (ho : s.objects[a]? = some o)
    (hfresh : ∀ session, (session, a) ∉ s.reserved) (hroom : (s.active session).length < cfg.maxPerSession)
    (hothers : ∀ session', session' ≠ session →
      (s.active session').length ≤ cfg.maxPerSession ∧ s.attachments session' ≠ some []) :
    Bounded cfg (s.addActive session a o.id) := by
  refine ⟨fun session' => ?_, fun session' hnil => ?_⟩
  · rw [addActive_active hl ho hfresh]
    split
    · rw [List.length_append, List.length_singleton]
      omega
    · next hne => exact (hothers session' hne).1
  · by_cases heq : session' = session
    · have hactive : (s.addActive session a o.id).active session' = s.active session ++ [(o.id, a)] :=
        (addActive_active hl ho hfresh).trans (if_pos heq)
      rw [GatewayWorld.active, hnil, Option.getD_some] at hactive
      exact List.append_ne_nil_of_right_ne_nil _ (List.cons_ne_nil _ _) hactive.symm
    · have hsame : (s.addActive session a o.id).attachments session' = s.attachments session' := if_neg heq
      exact (hothers session' heq).2 (hsame ▸ hnil)

theorem bounded_release (h : Bounded cfg s) : Bounded cfg (s.release session a id) := by
  refine ⟨fun session' => ?_, fun session' => ?_⟩
  · exact takeOff_sublist.length_le.trans (h.capacity session')
  · show (s.takeOff session a id).attachments session' ≠ some []
    unfold takeOff
    split
    · show (if session' = session then _ else _) ≠ some []
      split
      · split
        · exact fun hcontra => nomatch hcontra
        · next hne => exact fun hcontra => hne (Option.some.inj hcontra)
      · exact h.nonempty session'
    · exact h.nonempty session'

def rank (o : GatewayAttachment) : ℚ ×ₗ String := toLex (o.lastActivity, o.id)

theorem idleness_eq {o : GatewayAttachment} {entry : String × ℕ} (h : s.objects[entry.2]? = some o) :
    s.idleness entry = rank o := by
  simp [GatewayWorld.idleness, h, rank]

/-- A reservation adds the attachment to its session; at capacity it takes the place of the
attachment with the least activity and id, whose event is set, and of no other. -/
structure Reserves (cfg : GatewayConfig) (s s' : GatewayWorld) (session : String) (a : ℕ) : Prop where
  others : ∀ session', session' ≠ session → s'.active session' = s.active session'
  room : (s.active session).length < cfg.maxPerSession →
    (∀ b, Active s' session b ↔ Active s session b ∨ b = a) ∧ s'.victims = s.victims
  full : cfg.maxPerSession ≤ (s.active session).length → ∃ v o, Active s session v ∧ s.objects[v]? = some o ∧
    (∀ b o', Active s session b → s.objects[b]? = some o' → rank o ≤ rank o') ∧
    (∀ b, Active s' session b ↔ Active s session b ∧ b ≠ v ∨ b = a) ∧ s'.victims = v :: s.victims ∧
    ∃ o', s'.objects[v]? = some o' ∧ o'.evict = true

theorem active_addActive {o : GatewayAttachment} (hl : Ledger s) (ho : s.objects[a]? = some o)
    (hfresh : ∀ session, (session, a) ∉ s.reserved) :
    Active (s.addActive session a o.id) session b ↔ Active s session b ∨ b = a := by
  unfold Active
  rw [addActive_active hl ho hfresh, if_pos rfl]
  constructor
  · rintro ⟨id, hm⟩
    rcases List.mem_append.mp hm with hm | hm
    · exact .inl ⟨id, hm⟩
    · cases List.mem_singleton.mp hm
      exact .inr rfl
  · rintro (⟨id, hm⟩ | rfl)
    · exact ⟨id, List.mem_append_left _ hm⟩
    · exact ⟨o.id, List.mem_append_right _ (List.mem_singleton.mpr rfl)⟩

/-- A reservation of an object that has not been reserved. -/
theorem reserve_spec {o : GatewayAttachment} (hl : Ledger s) (hb : Bounded cfg s) (ho : s.objects[a]? = some o)
    (hfresh : ∀ session, (session, a) ∉ s.reserved) (hrel : a ∉ s.releases) :
    Ledger (s.reserve cfg session a o.id) ∧ Bounded cfg (s.reserve cfg session a o.id) ∧
      Reserves cfg s (s.reserve cfg session a o.id) session a := by
  unfold reserve
  split
  · next hnone =>
    have hroom := victim_eq_none hnone
    refine ⟨ledger_addActive hl ho hfresh hrel, bounded_addActive hl ho hfresh hroom fun session' _ =>
      ⟨hb.capacity session', hb.nonempty session'⟩, fun session' hne => ?_, fun _ =>
        ⟨fun b => active_addActive hl ho hfresh, rfl⟩,
      fun hfull => absurd hroom (Nat.not_lt.mpr hfull)⟩
    rw [addActive_active hl ho hfresh, if_neg hne]
  · next victim hsome =>
    obtain ⟨hv, hfull, hleast⟩ := victim_mem hsome
    have hl' := ledger_evictEntry hl hv
    obtain ⟨ov, hov, hkey⟩ := hl.keyed session victim hv
    have hne : victim.2 ≠ a := fun heq => hfresh session ((hl.active_iff session a).mp ⟨victim.1, heq ▸ hv⟩).1
    have ho' : (s.evictEntry session victim).objects[a]? = some o := by
      have hmod := getElem?_modify_of_some (b := victim.2) (f := fun a => { a with evict := true }) ho
      rw [if_neg hne] at hmod
      exact hmod
    have hfresh' : ∀ session', (session', a) ∉ (s.evictEntry session victim).reserved := hfresh
    have hlength := length_evictEntry hl hv
    have hcap := hb.capacity session
    have hother : ∀ session', session' ≠ session → (s.evictEntry session victim).active session' =
      s.active session' :=
      fun session' hne => by rw [evictEntry_active, if_neg hne]
    refine ⟨ledger_addActive hl' ho' hfresh' hrel, bounded_addActive hl' ho' hfresh'
      (by omega) fun session' hne => ?_,
      fun session' hne => ?_, fun hroom => absurd hfull (Nat.not_le.mpr hroom), fun _ => ?_⟩
    · refine ⟨?_, ?_⟩
      · rw [hother session' hne]
        exact hb.capacity session'
      · have hsame : (s.evictEntry session victim).attachments session' = s.attachments session' := if_neg hne
        rw [hsame]
        exact hb.nonempty session'
    · rw [addActive_active hl' ho' hfresh', if_neg hne, hother session' hne]
    · refine ⟨victim.2, ov, ⟨victim.1, hv⟩, hov, fun b o' hb ho' => ?_, fun b => ?_, rfl, ?_⟩
      · obtain ⟨id, hm⟩ := hb
        have hle := hleast _ hm
        have hrank : s.idleness (id, b) = rank o' := idleness_eq ho'
        rwa [idleness_eq hov, hrank] at hle
      · rw [active_addActive hl' ho' hfresh']
        refine or_congr_left ?_
        unfold Active
        rw [evictEntry_active, if_pos rfl]
        constructor
        · rintro ⟨id, hm⟩
          obtain ⟨hm, hne⟩ := (mem_filter_key hl hv).mp hm
          exact ⟨⟨id, hm⟩, hne⟩
        · rintro ⟨⟨id, hm⟩, hne⟩
          exact ⟨id, (mem_filter_key hl hv).mpr ⟨hm, hne⟩⟩
      · have hmod := getElem?_modify_of_some (b := victim.2) (f := fun a => { a with evict := true }) hov
        rw [if_pos rfl] at hmod
        exact ⟨_, hmod, rfl⟩

end WorkerHarness.GatewayAdmission
