import Mathlib.Data.List.SplitBy

/-!
# Lines of a growing text

A text is split into lines between the characters that break it. What is appended to a text starts new
lines only if the text ends where it breaks; else it goes on with the last line.
-/

namespace WorkerHarness.SplitLines

variable {α : Type*} {r : α → α → Bool} {a b : List α}

def Breaks (r : α → α → Bool) (a b : List α) : Prop := ∀ x ∈ a.getLast?, ∀ y ∈ b.head?, r x y = false

theorem getLast?_flatten_concat {ls : List (List α)} {u : List α} (hu : u ≠ []) :
    (ls ++ [u]).flatten.getLast? = u.getLast? := by
  rw [List.flatten_concat, List.getLast?_append_of_ne_nil _ hu]

theorem head?_flatten_cons {ls : List (List α)} {u : List α} (hu : u ≠ []) :
    (u :: ls).flatten.head? = u.head? := by
  rw [List.flatten_cons, List.head?_append_of_ne_nil _ hu]

/-- The lines before and after a place do not share a line. -/
theorem breaks_of_splitBy {ls ls' : List (List α)} (h : a.splitBy r = ls ++ ls') :
    Breaks r ls.flatten ls'.flatten := by
  have hchain := List.isChain_getLast_head_splitBy r a
  have hne : ∀ u ∈ ls ++ ls', u ≠ [] := fun u hu => List.ne_nil_of_mem_splitBy (h ▸ hu)
  rw [h] at hchain
  intro x hx y hy
  rcases List.eq_nil_or_concat ls with rfl | ⟨init, u, rfl⟩
  · cases hx
  · cases ls' with
    | nil => cases hy
    | cons v rest =>
      obtain ⟨-, -, hlink⟩ := List.isChain_append.mp hchain
      obtain ⟨hu, hv, hr⟩ := hlink u (by simp) v (by simp)
      rw [List.concat_eq_append, getLast?_flatten_concat hu] at hx
      rw [head?_flatten_cons hv] at hy
      rw [List.getLast_of_mem_getLast? hx, List.head_of_mem_head? hy] at hr
      exact hr

theorem splitBy_flatten_of_append {ls ls' : List (List α)} (h : a.splitBy r = ls ++ ls') :
    ls.flatten.splitBy r = ls ∧ ls'.flatten.splitBy r = ls' := by
  have hne : [] ∉ ls ++ ls' := h ▸ List.nil_notMem_splitBy r a
  have hruns : ∀ u ∈ ls ++ ls', u.IsChain fun x y => r x y := fun u hu => List.isChain_of_mem_splitBy (h ▸ hu)
  have hchain := List.isChain_getLast_head_splitBy r a
  rw [h] at hchain
  obtain ⟨hleft, hright, -⟩ := List.isChain_append.mp hchain
  constructor
  · exact List.splitBy_flatten (fun hu => hne (List.mem_append_left _ hu))
      (fun u hu => hruns u (List.mem_append_left _ hu)) hleft
  · exact List.splitBy_flatten (fun hu => hne (List.mem_append_right _ hu))
      (fun u hu => hruns u (List.mem_append_right _ hu))
      hright

theorem splitBy_append_of_breaks (h : Breaks r a b) : (a ++ b).splitBy r = a.splitBy r ++ b.splitBy r :=
  List.splitBy_append h

/-- When the texts share a line, it is the last one of the first and the first one of the second. -/
theorem splitBy_append_of_not_breaks (h : ¬Breaks r a b) : ∃ ls u v ls', u ≠ [] ∧ v ≠ [] ∧ a.splitBy r = ls ++ [u] ∧
    b.splitBy r = v :: ls' ∧ (a ++ b).splitBy r = ls ++ (u ++ v) :: ls' := by
  simp only [Breaks, not_forall, Bool.not_eq_false] at h
  obtain ⟨x, hx, y, hy, hr⟩ := h
  have ha : a ≠ [] := fun hnil => by simp [hnil] at hx
  have hb : b ≠ [] := fun hnil => by simp [hnil] at hy
  obtain ⟨ls, u, hlast⟩ := (List.eq_nil_or_concat (a.splitBy r)).resolve_left (List.splitBy_ne_nil.mpr ha)
  rw [List.concat_eq_append] at hlast
  obtain ⟨v, ls', hfirst⟩ := List.exists_cons_of_ne_nil (List.splitBy_ne_nil (r := r).mpr hb)
  have hu : u ≠ [] := List.ne_nil_of_mem_splitBy (r := r) (l := a) (by simp [hlast])
  have hv : v ≠ [] := List.ne_nil_of_mem_splitBy (r := r) (l := b) (by simp [hfirst])
  have haeq : a = ls.flatten ++ u := by rw [← List.flatten_splitBy r a, hlast, List.flatten_concat]
  have hbeq : b = v ++ ls'.flatten := by rw [← List.flatten_splitBy r b, hfirst, List.flatten_cons]
  refine ⟨ls, u, v, ls', hu, hv, hlast, hfirst, ?_⟩
  have hbefore : Breaks r ls.flatten u := by simpa using breaks_of_splitBy hlast
  have hafter : Breaks r v ls'.flatten := by
    simpa using breaks_of_splitBy (show b.splitBy r = [v] ++ ls' from hfirst)
  have hline : (u ++ v).splitBy r = [u ++ v] := by
    refine List.splitBy_of_isChain (by simp [hu]) (List.isChain_append.mpr ⟨?_, ?_, fun x' hx' y' hy' => ?_⟩)
    · exact List.isChain_of_mem_splitBy (l := a) (by simp [hlast])
    · exact List.isChain_of_mem_splitBy (l := b) (by simp [hfirst])
    · rw [haeq, List.getLast?_append_of_ne_nil _ hu] at hx
      rw [hbeq, List.head?_append_of_ne_nil _ hv] at hy
      rwa [Option.mem_unique hx' hx, Option.mem_unique hy' hy]
  calc (a ++ b).splitBy r
      = (ls.flatten ++ ((u ++ v) ++ ls'.flatten)).splitBy r := by rw [haeq, hbeq]; simp
    _ = ls.flatten.splitBy r ++ ((u ++ v) ++ ls'.flatten).splitBy r := by
      refine splitBy_append_of_breaks fun x' hx' y' hy' => hbefore x' hx' y' ?_
      rwa [List.append_assoc, List.head?_append_of_ne_nil _ hu] at hy'
    _ = ls.flatten.splitBy r ++ ((u ++ v).splitBy r ++ ls'.flatten.splitBy r) := by
      rw [splitBy_append_of_breaks (a := u ++ v) fun x' hx' y' hy' => hafter x' ?_ y' hy']
      rwa [List.getLast?_append_of_ne_nil _ hv] at hx'
    _ = ls ++ (u ++ v) :: ls' := by
      rw [(splitBy_flatten_of_append hlast).1,
        (splitBy_flatten_of_append (show b.splitBy r = [v] ++ ls' from hfirst)).2, hline]
      rfl

/-- The lines beyond those of the first text are in the second one; they are all of it if no line is shared. -/
theorem drop_splitBy_append (a b : List α) :
    (((a ++ b).splitBy r).drop (a.splitBy r).length).flatten <:+ b ∧
      ((((a ++ b).splitBy r).drop (a.splitBy r).length).flatten = b ↔ Breaks r a b) := by
  by_cases h : Breaks r a b
  · rw [splitBy_append_of_breaks h, List.drop_left, List.flatten_splitBy]
    exact ⟨List.suffix_rfl, iff_of_true rfl h⟩
  · obtain ⟨ls, u, v, ls', -, hv, hlast, hfirst, happend⟩ := splitBy_append_of_not_breaks h
    have hb : b = v ++ ls'.flatten := by rw [← List.flatten_splitBy r b, hfirst, List.flatten_cons]
    have hdrop : (ls ++ (u ++ v) :: ls').drop (ls ++ [u]).length = ls' := by
      rw [List.append_cons ls (u ++ v) ls']
      exact List.drop_left' (by simp)
    rw [happend, hlast, hdrop, hb]
    refine ⟨List.suffix_append .., iff_of_false (fun heq => hv ?_) (hb ▸ h)⟩
    exact List.self_eq_append_left.mp heq

theorem suffix_flatten_drop (ls : List (List α)) (k : ℕ) : (ls.drop k).flatten <:+ ls.flatten :=
  ⟨(ls.take k).flatten, by rw [← List.flatten_append, List.take_append_drop]⟩

theorem length_flatten_drop_lt {ls : List (List α)} (hne : [] ∉ ls) (hls : ls ≠ []) {k : ℕ} (hk : 0 < k) :
    (ls.drop k).flatten.length < ls.flatten.length := by
  cases ls with
  | nil => exact absurd rfl hls
  | cons u ls =>
    obtain ⟨k, rfl⟩ := Nat.exists_eq_succ_of_ne_zero hk.ne'
    have hu : 0 < u.length := List.length_pos_iff.mpr fun hnil => hne (by simp [hnil])
    have hle := (suffix_flatten_drop ls k).length_le
    simp only [Nat.succ_eq_add_one, List.drop_succ_cons, List.flatten_cons, List.length_append]
    omega

/-- When lines have left the window, the count of the lines in the window before covers more than those of
them that are left. -/
theorem drop_splitBy_slid {w w' s d : List α} (hslid : w ++ d = s ++ w') (hs : s ≠ [])
    (hends : ∀ x ∈ s.getLast?, ∀ y, r x y = false) (hd : d ≠ []) :
    ((w'.splitBy r).drop (w.splitBy r).length).flatten <:+ d ∧
      ((w'.splitBy r).drop (w.splitBy r).length).flatten ≠ d := by
  rcases List.append_eq_append_iff.mp hslid with ⟨e, rfl, rfl⟩ | ⟨e, rfl, rfl⟩
  · -- Everything that was in the window has left it.
    have hsuffix := suffix_flatten_drop (w'.splitBy r) (w.splitBy r).length
    rw [List.flatten_splitBy] at hsuffix
    refine ⟨hsuffix.trans (List.suffix_append ..), fun heq => ?_⟩
    have hlen := hsuffix.length_le
    rw [heq, List.length_append] at hlen
    have he : e = [] := List.length_eq_zero_iff.mp (by omega)
    subst he
    have hw : w ≠ [] := by simpa using hs
    have hw' : w' ≠ [] := by simpa using hd
    have hlt := length_flatten_drop_lt (List.nil_notMem_splitBy r w') (List.splitBy_ne_nil.mpr hw')
      (List.length_pos_iff.mpr (List.splitBy_ne_nil (r := r).mpr hw))
    rw [heq, List.flatten_splitBy] at hlt
    exact absurd hlt (by simp)
  · have hcount : ((s ++ e).splitBy r).length = (e.splitBy r).length + (s.splitBy r).length := by
      rw [splitBy_append_of_breaks fun x hx y _ => hends x hx y, List.length_append, Nat.add_comm]
    have hpos : 0 < (s.splitBy r).length := List.length_pos_iff.mpr (List.splitBy_ne_nil.mpr hs)
    rw [hcount, ← List.drop_drop]
    obtain ⟨hsuffix, -⟩ := drop_splitBy_append (r := r) e d
    refine ⟨(suffix_flatten_drop _ _).trans hsuffix, fun heq => ?_⟩
    by_cases hnil : ((e ++ d).splitBy r).drop (e.splitBy r).length = []
    · rw [hnil, List.drop_nil] at heq
      exact hd heq.symm
    · have hlt := length_flatten_drop_lt (fun hmem => List.nil_notMem_splitBy r (e ++ d)
        (List.mem_of_mem_drop hmem)) hnil hpos
      rw [heq] at hlt
      exact absurd hsuffix.length_le (by omega)

end WorkerHarness.SplitLines
