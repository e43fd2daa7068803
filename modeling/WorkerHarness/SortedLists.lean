import Mathlib.Data.List.Sort
import Mathlib.Data.List.Nodup
import Mathlib.Data.List.Pairwise

/-!
# Lists sorted by a key

`sortOn k l` is `ORDER BY k`: the stable sort of a list by a key in a linear order. When the
keys are distinct, a strictly increasing permutation of the list is the sorted list, and
this one rule gives what maps, filters and new first or last elements do to it.
-/

namespace WorkerHarness.SortedLists

variable {α β K : Type} [LinearOrder K] {k : α → K} {l l' : List α}

def sortOn (k : α → K) (l : List α) : List α := l.insertionSort fun a b => k a ≤ k b

instance isTransKey : IsTrans α fun a b => k a ≤ k b := ⟨fun _ _ _ => le_trans⟩

instance totalKey : Std.Total fun a b : α => k a ≤ k b := ⟨fun a b => le_total (k a) (k b)⟩

theorem sortOn_perm (k : α → K) (l : List α) : (sortOn k l).Perm l := List.perm_insertionSort _ l

@[simp] theorem mem_sortOn {a : α} : a ∈ sortOn k l ↔ a ∈ l := (sortOn_perm k l).mem_iff

@[simp] theorem length_sortOn : (sortOn k l).length = l.length := (sortOn_perm k l).length_eq

theorem sortOn_pairwise_le (k : α → K) (l : List α) : (sortOn k l).Pairwise fun a b => k a ≤ k b :=
  List.pairwise_insertionSort _ l

theorem sortOn_pairwise_lt (h : (l.map k).Nodup) : (sortOn k l).Pairwise fun a b => k a < k b := by
  have hd : ((sortOn k l).map k).Nodup := ((sortOn_perm k l).map k).nodup_iff.mpr h
  have hne : (sortOn k l).Pairwise fun a b => k a ≠ k b := List.pairwise_map.mp hd
  exact ((sortOn_pairwise_le k l).and hne).imp fun h => lt_of_le_of_ne h.1 h.2

/-- A strictly increasing permutation of the list is the sorted list. -/
theorem sortOn_eq (hp : l'.Perm l) (hs : l'.Pairwise fun a b => k a < k b) : sortOn k l = l' := by
  have hd : ((sortOn k l).map k).Nodup := by
    have hl' : (l'.map k).Nodup := List.pairwise_map.mpr (hs.imp ne_of_lt)
    exact (((sortOn_perm k l).trans hp.symm).map k).nodup_iff.mpr hl'
  refine List.Perm.eq_of_pairwise ?_ (sortOn_pairwise_le k l) (hs.imp le_of_lt)
    ((sortOn_perm k l).trans hp.symm)
  intro a b ha hb hab hba
  have hb' : b ∈ sortOn k l := ((sortOn_perm k l).trans hp.symm).mem_iff.mpr hb
  exact List.inj_on_of_nodup_map hd ha hb' (le_antisymm hab hba)

theorem sortOn_map {K' : Type} [LinearOrder K'] {k' : β → K'} {f : α → β}
    (h : ∀ a ∈ l, ∀ b ∈ l, k a ≤ k b ↔ k' (f a) ≤ k' (f b)) :
    sortOn k' (l.map f) = (sortOn k l).map f :=
  (List.map_insertionSort (fun a b => k a ≤ k b) (fun a b => k' a ≤ k' b) f l h).symm

/-- The order of the unsorted rows does not matter. -/
theorem sortOn_congr (h : (l.map k).Nodup) (hp : l.Perm l') : sortOn k l = sortOn k l' :=
  (sortOn_eq ((sortOn_perm k l).trans hp) (sortOn_pairwise_lt h)).symm

theorem sortOn_filter (p : α → Bool) (h : (l.map k).Nodup) :
    sortOn k (l.filter p) = (sortOn k l).filter p :=
  sortOn_eq ((sortOn_perm k l).filter p) ((sortOn_pairwise_lt h).filter p)

/-- A new largest element goes to the end. -/
theorem sortOn_append_singleton {a : α} (h : (l.map k).Nodup) (ha : ∀ b ∈ l, k b < k a) :
    sortOn k (l ++ [a]) = sortOn k l ++ [a] := by
  refine sortOn_eq ((sortOn_perm k l).append_right [a]) ?_
  refine List.pairwise_append.mpr ⟨sortOn_pairwise_lt h, List.pairwise_singleton _ _, ?_⟩
  intro b hb c hc
  rw [List.mem_singleton.mp hc]
  exact ha b (mem_sortOn.mp hb)

/-- A new smallest element goes to the front. -/
theorem sortOn_of_perm_cons {a : α} {l₁ : List α} (hp : l₁.Perm (a :: l)) (h : (l.map k).Nodup)
    (ha : ∀ b ∈ l, k a < k b) : sortOn k l₁ = a :: sortOn k l := by
  refine sortOn_eq (((sortOn_perm k l).cons a).trans hp.symm) ?_
  exact List.pairwise_cons.mpr ⟨fun b hb => ha b (mem_sortOn.mp hb), sortOn_pairwise_lt h⟩

/-- In a list without repetitions the position grows along the list. -/
theorem pairwise_idxOf [DecidableEq α] (hd : l.Nodup) : l.Pairwise fun a b => l.idxOf a < l.idxOf b := by
  refine List.pairwise_iff_getElem.mpr fun i j hi hj hij => ?_
  rwa [hd.idxOf_getElem i hi, hd.idxOf_getElem j hj]

/-- Sorting by the position in a list without repetitions gives that list. -/
theorem sortOn_idxOf [DecidableEq α] (hp : l'.Perm l) (hd : l'.Nodup) :
    sortOn (fun a => l'.idxOf a) l = l' := sortOn_eq hp (pairwise_idxOf hd)

/-- Rows with equal keys keep the order in which they stood. -/
theorem sortOn_stable (hd : l.Nodup) :
    (sortOn k l).Pairwise fun a b => k a < k b ∨ k a = k b ∧ [a, b].Sublist l := by
  classical
  have hsorted : (sortOn k l).Nodup := (sortOn_perm k l).nodup_iff.mpr hd
  have hboth : l.Pairwise fun a b => [a, b].Sublist l ∨ [b, a].Sublist l :=
    List.pairwise_of_forall_sublist fun h => .inl h
  refine List.pairwise_of_forall_sublist fun {a b} hab => ?_
  have hle : k a ≤ k b := List.pairwise_iff_forall_sublist.mp (sortOn_pairwise_le k l) hab
  have hne : a ≠ b := List.pairwise_iff_forall_sublist.mp hsorted hab
  rcases lt_or_eq_of_le hle with hlt | heq
  · exact .inl hlt
  · refine .inr ⟨heq, ?_⟩
    have ha : a ∈ l := mem_sortOn.mp (hab.subset (by simp))
    have hb : b ∈ l := mem_sortOn.mp (hab.subset (by simp))
    have hsymm : Std.Symm fun a b : α => [a, b].Sublist l ∨ [b, a].Sublist l := ⟨fun _ _ => Or.symm⟩
    rcases hboth.forall ha hb hne with h | h
    · exact h
    · -- Otherwise the sort would have kept `b` before `a` as well.
      have hba : [b, a].Sublist (sortOn k l) :=
        List.pair_sublist_insertionSort (r := fun a b => k a ≤ k b) heq.ge h
      have h₁ := List.pairwise_iff_forall_sublist.mp (pairwise_idxOf hsorted) hab
      have h₂ := List.pairwise_iff_forall_sublist.mp (pairwise_idxOf hsorted) hba
      omega

end WorkerHarness.SortedLists
