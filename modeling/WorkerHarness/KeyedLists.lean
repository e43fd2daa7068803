import Mathlib.Data.List.Nodup

/-!
# Lists of keyed values

A list of pairs whose keys are in the order of their arrival: what setting the value of one key does
to the keys that satisfy a predicate, and to their number.
-/

namespace WorkerHarness.KeyedLists

variable {κ α : Type} [DecidableEq κ]

/-- The value of a key is replaced. -/
def setValue (k : κ) (a : α) (l : List (κ × α)) : List (κ × α) :=
  l.map fun c => if c.1 = k then (c.1, a) else c

def keysWith (p : α → Bool) (l : List (κ × α)) : List κ := (l.filter fun c => p c.2).map Prod.fst

variable {k k' : κ} {a b : α} {l : List (κ × α)} {p : α → Bool}

@[simp] theorem keys_setValue : (setValue k a l).map Prod.fst = l.map Prod.fst := by
  rw [setValue, List.map_map]
  refine List.map_congr_left fun c _ => ?_
  by_cases hc : c.1 = k <;> simp [hc]

theorem nodup_setValue (hn : (l.map Prod.fst).Nodup) : ((setValue k a l).map Prod.fst).Nodup := by
  rw [keys_setValue]
  exact hn

omit [DecidableEq κ] in
theorem keysWith_sublist : (keysWith p l).Sublist (l.map Prod.fst) := List.filter_sublist.map _

omit [DecidableEq κ] in
theorem keysWith_append {l' : List (κ × α)} : keysWith p (l ++ l') = keysWith p l ++ keysWith p l' := by
  simp [keysWith]

/-- The key leaves the keys of the predicate. -/
theorem keysWith_setValue_of_false (h : p a = false) :
    keysWith p (setValue k a l) = (keysWith p l).filter (· != k) := by
  induction l with
  | nil => rfl
  | cons c l ih =>
    simp only [keysWith, setValue] at ih
    by_cases hk : c.1 = k <;> by_cases hp : p c.2 = true <;>
      simp [keysWith, setValue, hk, hp, h, ih]

/-- The key stays one of the keys of the predicate. -/
theorem keysWith_setValue_of_true (hn : (l.map Prod.fst).Nodup) (hmem : (k, b) ∈ l) (hb : p b = true)
    (h : p a = true) :
    keysWith p (setValue k a l) = keysWith p l := by
  have hall : ∀ c ∈ l, p (if c.1 = k then (c.1, a) else c).2 = p c.2 := by
    intro c hc
    split
    · next hk =>
      have hvalue : c = (k, b) := List.inj_on_of_nodup_map hn hc hmem hk
      rw [hvalue]
      exact h.trans hb.symm
    · rfl
  rw [keysWith, setValue, List.filter_map, List.map_map, keysWith]
  have hfilter : l.filter ((fun c => p c.2) ∘ fun c => if c.1 = k then (c.1, a) else c) = l.filter fun c => p c.2 :=
    List.filter_congr fun c hc => hall c hc
  rw [hfilter]
  refine List.map_congr_left fun c _ => ?_
  by_cases hc : c.1 = k <;> simp [hc]

omit [DecidableEq κ] in
theorem mem_keysWith_iff (hn : (l.map Prod.fst).Nodup) (hmem : (k, b) ∈ l) : k ∈ keysWith p l ↔ p b = true := by
  constructor
  · intro hk
    obtain ⟨c, hc, rfl⟩ := List.mem_map.mp hk
    obtain ⟨hc, hp⟩ := List.mem_filter.mp hc
    have hvalue : c = (c.1, b) := List.inj_on_of_nodup_map hn hc hmem rfl
    rw [hvalue] at hp
    exact hp
  · intro hp
    exact List.mem_map.mpr ⟨(k, b), List.mem_filter.mpr ⟨hmem, hp⟩, rfl⟩

omit [DecidableEq κ] in
theorem nodup_keysWith (hn : (l.map Prod.fst).Nodup) : (keysWith p l).Nodup := hn.sublist keysWith_sublist

/-- One key fewer. -/
theorem length_keysWith_of_false (hn : (l.map Prod.fst).Nodup) (hmem : (k, b) ∈ l) (hb : p b = true)
    (h : p a = false) :
    (keysWith p (setValue k a l)).length + 1 = (keysWith p l).length := by
  have hk : k ∈ keysWith p l := (mem_keysWith_iff hn hmem).mpr hb
  rw [keysWith_setValue_of_false h, ← List.Nodup.erase_eq_filter (nodup_keysWith hn), List.length_erase_of_mem hk]
  have hpos := List.length_pos_of_mem hk
  omega

/-- The key was not one of them, and is not. -/
theorem keysWith_setValue_of_not (hn : (l.map Prod.fst).Nodup) (hmem : (k, b) ∈ l) (hb : p b = false)
    (h : p a = false) :
    keysWith p (setValue k a l) = keysWith p l := by
  rw [keysWith_setValue_of_false h]
  refine List.filter_eq_self.mpr fun k' hk' => ?_
  have hne : k' ≠ k := by
    rintro rfl
    rw [mem_keysWith_iff hn hmem, hb] at hk'
    cases hk'
  simpa using hne

theorem mem_setValue (hmem : (k, b) ∈ l) : (k, a) ∈ setValue k a l :=
  List.mem_map.mpr ⟨(k, b), hmem, by simp⟩

/-- One key more. -/
theorem length_keysWith_of_true (hn : (l.map Prod.fst).Nodup) (hmem : (k, b) ∈ l) (hb : p b = false)
    (h : p a = true) :
    (keysWith p (setValue k a l)).length = (keysWith p l).length + 1 := by
  have hback : keysWith p (setValue k b (setValue k a l)) = keysWith p l := by
    have hsame : setValue k b (setValue k a l) = setValue k b l := by
      rw [setValue, setValue, setValue, List.map_map]
      refine List.map_congr_left fun c _ => ?_
      by_cases hc : c.1 = k <;> simp [hc]
    rw [hsame, keysWith_setValue_of_not hn hmem hb hb]
  have hlength := length_keysWith_of_false (nodup_setValue hn) (mem_setValue hmem) h hb
  rw [hback] at hlength
  exact hlength.symm

omit [DecidableEq κ] in
/-- Predicates that exclude each other count apart. -/
theorem length_keysWith_or {q : α → Bool} (hpq : ∀ a, p a = true → q a = false) :
    (keysWith (fun a => p a || q a) l).length = (keysWith p l).length + (keysWith q l).length := by
  induction l with
  | nil => rfl
  | cons c l ih =>
    simp only [keysWith, List.length_map] at ih ⊢
    have hexclude := hpq c.2
    cases hp : p c.2 <;> cases hq : q c.2 <;> simp_all <;> omega

theorem lookup_cons_eq {k₀ : κ} {b₀ : α} : ((k₀, b₀) :: l).lookup k = if k = k₀ then some b₀ else l.lookup k := by
  rw [List.lookup_cons]
  by_cases hk : k = k₀
  · simp [hk]
  · have hbeq : (k == k₀) = false := beq_false_of_ne hk
    rw [hbeq, if_neg hk]

theorem lookup_eq_some (hn : (l.map Prod.fst).Nodup) : l.lookup k = some b ↔ (k, b) ∈ l := by
  induction l with
  | nil => simp
  | cons c l ih =>
    obtain ⟨k', b'⟩ := c
    rw [List.map_cons, List.nodup_cons] at hn
    rw [lookup_cons_eq, List.mem_cons]
    by_cases hk : k = k'
    · subst hk
      have hout : (k, b) ∉ l := fun hmem => hn.1 (List.mem_map.mpr ⟨(k, b), hmem, rfl⟩)
      simp [hout, eq_comm]
    · simp [hk, ih hn.2]

theorem lookup_setValue : (setValue k a l).lookup k' = if k' = k then (l.lookup k').map fun _ =>
    a else l.lookup k' := by
  induction l with
  | nil => simp [setValue]
  | cons c l ih =>
    obtain ⟨k₀, b₀⟩ := c
    have hcons : setValue k a ((k₀, b₀) :: l) = (k₀, if k₀ = k then a else b₀) :: setValue k a l := by
      by_cases hk : k₀ = k <;> simp [setValue, hk]
    rw [hcons, lookup_cons_eq, lookup_cons_eq, ih]
    by_cases h₀ : k' = k₀
    · subst h₀
      by_cases hk : k' = k <;> simp [hk]
    · simp [h₀]

theorem setValue_comm (hne : k ≠ k') : setValue k a (setValue k' b l) = setValue k' b (setValue k a l) := by
  rw [setValue, setValue, setValue, setValue, List.map_map, List.map_map]
  refine List.map_congr_left fun c _ => ?_
  by_cases hk : c.1 = k
  · simp [hk, hne]
  · by_cases hk' : c.1 = k'
    · simp [hk', Ne.symm hne]
    · simp [hk, hk']

end WorkerHarness.KeyedLists
