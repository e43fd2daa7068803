import WorkerHarness.PosixPaths
import Mathlib.Data.List.Infix
import Mathlib.Data.List.Nodup

/-!
# Lists in a text

A list that a shell script keeps in one text, with a separator between the items. An item is looked up as a
part of the text between two separators; it is found exactly where it is a run of items of the list.
-/

namespace WorkerHarness.DelimitedLists

open PosixPaths

variable {α : Type} [DecidableEq α] {sep : α} {text item : List α}

/-- `[[ "$sep$text$sep" == *"$sep$item$sep"* ]]` -/
def Mentions (sep : α) (text item : List α) : Prop := sep :: (item ++ [sep]) <:+: sep :: (text ++ [sep])

instance (sep : α) (text item : List α) : Decidable (Mentions sep text item) :=
  inferInstanceAs (Decidable (_ <:+: _))

def add (sep : α) (text item : List α) : List α :=
  if text = [] then item else if Mentions sep text item then text else text ++ sep :: item

def items (sep : α) (text : List α) : List (List α) := if text = [] then [] else text.splitOn sep

/-- `IFS=$sep read -ra` of one line: an empty item at the end is none. -/
def readFields (sep : α) (line : List α) : List (List α) :=
  if (items sep line).getLast? = some [] then (items sep line).dropLast else items sep line

theorem splitOn_wrapped (text : List α) : (sep :: (text ++ [sep])).splitOn sep =
    [] :: (text.splitOn sep ++ [[]]) := by
  have hfirst : (sep :: (text ++ [sep])).splitOn sep = [].splitOn sep ++ (text ++ [sep]).splitOn sep :=
    List.splitOn_append_cons_self [] (text ++ [sep])
  rw [hfirst, List.splitOn_append_cons_self]
  rfl

omit [DecidableEq α] in
/-- What follows some of the items begins with a separator. -/
theorem wrapped_append (sep : α) {parts : List (List α)} (parts' : List (List α)) (h : parts ≠ []) :
    ∃ rest, [sep].intercalate (parts ++ parts') ++ [sep] = [sep].intercalate parts ++ sep :: rest := by
  by_cases h' : parts' = []
  · exact ⟨[], by rw [h', List.append_nil]⟩
  · exact ⟨[sep].intercalate parts' ++ [sep], by rw [intercalate_append h h']; simp⟩

omit [DecidableEq α] in
/-- What precedes some of the items ends with a separator. -/
theorem wrapped_prepend (sep : α) (parts : List (List α)) {parts' : List (List α)} (h : parts' ≠ []) :
    ∃ front, sep :: [sep].intercalate (parts ++ parts') = front ++ sep :: [sep].intercalate parts' := by
  by_cases h' : parts = []
  · exact ⟨[], by rw [h', List.nil_append, List.nil_append]⟩
  · exact ⟨sep :: [sep].intercalate parts, by rw [intercalate_append h' h]; simp⟩

theorem mentions_iff : Mentions sep text item ↔ item.splitOn sep <:+: text.splitOn sep := by
  constructor
  · rintro ⟨front, back, heq⟩
    have hsplit := congrArg (List.splitOn sep) heq
    have hitem : (front ++ sep :: (item ++ [sep]) ++ back).splitOn sep =
        front.splitOn sep ++ (item.splitOn sep ++ back.splitOn sep) := by
      rw [List.append_assoc, List.cons_append, List.append_assoc, List.splitOn_append_cons_self,
        List.singleton_append,
        List.splitOn_append_cons_self]
    rw [hitem, splitOn_wrapped] at hsplit
    -- The texts before and after the item have the empty parts at the two ends.
    obtain ⟨first, fronts, hfront⟩ := List.exists_cons_of_ne_nil (List.splitOn_ne_nil sep front)
    obtain ⟨backs, last, hback⟩ := List.eq_nil_or_concat' (back.splitOn sep) |>.resolve_left
      (List.splitOn_ne_nil sep back)
    rw [hfront, hback, List.cons_append, List.cons.injEq, ← List.append_assoc, ← List.append_assoc] at hsplit
    have hparts := List.append_inj_left' hsplit.2 rfl
    exact ⟨fronts, backs, hparts⟩
  · rintro ⟨fronts, backs, hparts⟩
    have htext : text = [sep].intercalate (fronts ++ (item.splitOn sep ++ backs)) := by
      rw [← List.append_assoc, hparts, List.intercalate_splitOn]
    have hne : item.splitOn sep ++ backs ≠ [] := by simp [List.splitOn_ne_nil]
    obtain ⟨front, hfront⟩ := wrapped_prepend sep fronts hne
    obtain ⟨rest, hrest⟩ := wrapped_append sep backs (List.splitOn_ne_nil sep item)
    refine ⟨front, rest, ?_⟩
    have hwrapped : sep :: (text ++ [sep]) = (sep :: [sep].intercalate (fronts ++ (item.splitOn sep ++ backs))) ++
      [sep] := by
      rw [← htext, List.cons_append]
    rw [List.intercalate_splitOn] at hrest
    rw [hwrapped, hfront]
    simp only [List.append_assoc, List.cons_append, List.nil_append, hrest]

/-- An item without a separator is found where it is an item. -/
theorem mentions_iff_mem (h : sep ∉ item) : Mentions sep text item ↔ item ∈ text.splitOn sep := by
  rw [mentions_iff, List.splitOn_eq_singleton h, List.singleton_infix_iff]

theorem items_of_ne_nil (h : text ≠ []) : items sep text = text.splitOn sep := if_neg h

/-- The items after an item was added that is not empty and has no separator. -/
theorem items_add (hne : item ≠ []) (h : sep ∉ item) :
    items sep (add sep text item) = if item ∈ items sep text then items sep text else items sep text ++ [item] := by
  by_cases htext : text = []
  · subst htext
    rw [add, if_pos rfl, items_of_ne_nil hne, List.splitOn_eq_singleton h]
    simp [items]
  · rw [add, if_neg htext, items_of_ne_nil htext]
    by_cases hmem : item ∈ text.splitOn sep
    · rw [if_pos ((mentions_iff_mem h).mpr hmem), if_pos hmem, items_of_ne_nil htext]
    · rw [if_neg (fun hm => hmem ((mentions_iff_mem h).mp hm)), if_neg hmem, items_of_ne_nil (by simp),
        List.splitOn_append_cons_self, List.splitOn_eq_singleton h]

/-- Each item stands where it was added first. -/
theorem items_add_eraseDups {done : List (List α)} (hne : item ≠ []) (h : sep ∉ item)
    (hdone : items sep text = done.eraseDups) : items sep (add sep text item) = (done ++ [item]).eraseDups := by
  rw [items_add hne h, hdone, List.eraseDups_append]
  by_cases hmem : item ∈ done
  · rw [if_pos (List.mem_eraseDups.mpr hmem)]
    simp [List.removeAll, hmem]
  · rw [if_neg fun hm => hmem (List.mem_eraseDups.mp hm)]
    simp [List.removeAll, hmem, List.eraseDups_cons]

/-- An item that was added twice is there once. -/
theorem nodup_eraseDups (done : List (List α)) : done.eraseDups.Nodup := by
  induction done using List.reverseRecOn with
  | nil => exact List.nodup_nil
  | append_singleton done item ih =>
    rw [List.eraseDups_append]
    by_cases hmem : item ∈ done
    · simpa [List.removeAll, hmem] using ih
    · have hne : ∀ a ∈ done, a ≠ item := fun a ha heq => hmem (heq ▸ ha)
      simpa [List.removeAll, hmem, List.eraseDups_cons, List.nodup_append, ih] using hne

theorem mem_add {a : α} (h : a ∈ add sep text item) : a ∈ text ∨ a ∈ item ∨ a = sep := by
  unfold add at h
  split at h
  · exact .inr (.inl h)
  · split at h
    · exact .inl h
    · rcases List.mem_append.mp h with h | h
      · exact .inl h
      · rcases List.mem_cons.mp h with h | h
        · exact .inr (.inr h)
        · exact .inr (.inl h)

/-- What the reader finds of a list without empty items. -/
theorem readFields_of_forall {line : List α} (h : ∀ item ∈ items sep line, item ≠ []) :
    readFields sep line = items sep line :=
  if_neg fun hlast => h [] (List.mem_of_getLast? hlast) rfl

theorem mem_items_of_mem_readFields {line : List α} (h : item ∈ readFields sep line) : item ∈ items sep line := by
  unfold readFields at h
  split at h
  · exact List.mem_of_mem_dropLast h
  · exact h

theorem mem_splitOn_of_mem_items (h : item ∈ items sep text) : item ∈ text.splitOn sep := by
  unfold items at h
  split at h
  · cases h
  · exact h

theorem notMem_of_mem_readFields {line : List α} (h : item ∈ readFields sep line) : sep ∉ item :=
  notMem_of_mem_splitOn (mem_splitOn_of_mem_items (mem_items_of_mem_readFields h))

theorem mem_of_mem_readFields {a : α} {line : List α} (h : item ∈ readFields sep line) (ha : a ∈ item) : a ∈ line :=
  mem_of_mem_splitOn (mem_splitOn_of_mem_items (mem_items_of_mem_readFields h)) ha

end WorkerHarness.DelimitedLists
