import Mathlib.Data.Int.Notation
import Mathlib.Data.List.Basic

/-!
# Numbered logs and their readers

One append-only log holds the entries of many streams, and every entry carries its number
within its stream. The log is dense when the numbers of each stream count up from 1 in log
order. A reader pages through one stream while the log grows and remembers the last number
that it has seen; in a dense log it receives every entry beyond its start exactly once and in
order, and each page brings it forward as long as there is something to read.
-/

namespace WorkerHarness.NumberedLogs

variable {α κ : Type}

structure Numbering (α κ : Type) where
  stream : α → κ
  number : α → ℕ

structure Reader (α : Type) where
  start : ℤ
  cursor : ℤ
  received : List α := []
  reads : ℕ := 0

namespace Numbering

variable [DecidableEq κ] (N : Numbering α κ)

def entries (k : κ) (log : List α) : List α := log.filter fun a => N.stream a = k

def Dense (log : List α) : Prop :=
  ∀ k, (N.entries k log).map N.number = List.range' 1 (N.entries k log).length

/-- What a reader at the cursor has not seen. -/
def beyond (k : κ) (cursor : ℤ) (log : List α) : List α :=
  (N.entries k log).filter fun a => decide (cursor < N.number a)

/-- What lies between two cursors. -/
def between (k : κ) (start cursor : ℤ) (log : List α) : List α :=
  (N.entries k log).filter fun a => decide (start < N.number a) && decide ((N.number a : ℤ) ≤ cursor)

variable {N} {log : List α} {k : κ} {start cursor : ℤ}

@[simp] theorem entries_append (log more : List α) :
    N.entries k (log ++ more) = N.entries k log ++ N.entries k more := List.filter_append ..

theorem dense_nil : N.Dense [] := fun _ => rfl

/-- An entry with the next number of its stream keeps the log dense. -/
theorem Dense.append_next (h : N.Dense log) {a : α} (ha : N.number a = (N.entries (N.stream a) log).length + 1) :
    N.Dense (log ++ [a]) := by
  intro k
  by_cases hk : N.stream a = k
  · subst hk
    have hone : N.entries (N.stream a) [a] = [a] := by simp [entries]
    rw [entries_append, hone, List.map_append, h, List.length_append, List.length_singleton, List.range'_concat]
    simp [ha, Nat.add_comm]
  · have hnone : N.entries k [a] = [] := by simp [entries, hk]
    rw [entries_append, hnone, List.append_nil]
    exact h k

/-- The largest number of a stream is the number of its entries. -/
theorem Dense.max_number (h : N.Dense log) (k : κ) :
    ((N.entries k log).map N.number).foldr max 0 = (N.entries k log).length := by
  rw [h k]
  have hmax : ∀ n s m, (List.range' s n).foldr max m = max m (if n = 0 then 0 else s + n - 1) := by
    intro n
    induction n with
    | zero => simp
    | succ n ih =>
      intro s m
      rw [List.range'_succ, List.foldr_cons, ih, if_neg n.succ_ne_zero]
      split <;> omega
  rw [hmax]
  split <;> omega

theorem Dense.pairwise_lt (h : N.Dense log) (k : κ) :
    (N.entries k log).Pairwise fun a b => N.number a < N.number b := by
  rw [← List.pairwise_map, h k]
  exact List.pairwise_lt_range'

theorem Dense.number_pos (h : N.Dense log) {a : α} (ha : a ∈ log) : 0 < N.number a := by
  have hnumber : N.number a ∈ (N.entries (N.stream a) log).map N.number :=
    List.mem_map_of_mem (List.mem_filter.mpr ⟨ha, by simp⟩)
  rw [h, List.mem_range'_1] at hnumber
  exact hnumber.1

theorem Dense.number_of_getElem? (h : N.Dense log) {a : α} {i : ℕ} (ha : (N.entries k log)[i]? = some a) :
    N.number a = i + 1 := by
  have hnumbers := congrArg (fun numbers => numbers[i]?) (h k)
  have hlt : i < (N.entries k log).length := (List.getElem?_eq_some_iff.mp ha).1
  rw [List.getElem?_map, ha, List.getElem?_range' hlt] at hnumbers
  have hnumber : N.number a = 1 + 1 * i := Option.some.inj hnumbers
  omega

theorem take_range' (s n m : ℕ) : (List.range' s n).take m = List.range' s (min m n) := by
  rcases Nat.le_total n m with h | h
  · rw [List.take_range'_of_length_le h, Nat.min_eq_right h]
  · rw [List.take_range'_of_length_ge h, Nat.min_eq_left h]

omit [DecidableEq κ] in
/-- Filtering a numbered list by a lower bound drops a prefix. -/
theorem filter_lt_eq_drop {l : List α} {s : ℕ} (h : l.map N.number = List.range' (s + 1) l.length) (c : ℤ) :
    l.filter (fun a => decide (c < N.number a)) = l.drop (c.toNat - s) := by
  induction l generalizing s with
  | nil => simp
  | cons a l ih =>
    rw [List.map_cons, List.length_cons, List.range'_succ, List.cons.injEq] at h
    have ih := ih h.2
    by_cases hc : c < N.number a
    · have hzero : c.toNat - s = 0 := by omega
      have hzero' : c.toNat - (s + 1) = 0 := by omega
      rw [List.filter_cons_of_pos (by simpa using hc), ih, hzero, hzero']
      rfl
    · have hsucc : c.toNat - s = c.toNat - (s + 1) + 1 := by omega
      rw [List.filter_cons_of_neg (by simpa using hc), ih, hsucc, List.drop_succ_cons]

omit [DecidableEq κ] in
/-- Filtering a numbered list by an upper bound takes a prefix. -/
theorem filter_le_eq_take {l : List α} {s : ℕ} (h : l.map N.number = List.range' (s + 1) l.length) (c : ℤ) :
    l.filter (fun a => decide ((N.number a : ℤ) ≤ c)) = l.take (c.toNat - s) := by
  induction l generalizing s with
  | nil => simp
  | cons a l ih =>
    rw [List.map_cons, List.length_cons, List.range'_succ, List.cons.injEq] at h
    have ih := ih h.2
    by_cases hc : (N.number a : ℤ) ≤ c
    · have hsucc : c.toNat - s = c.toNat - (s + 1) + 1 := by omega
      rw [List.filter_cons_of_pos (by simpa using hc), ih, hsucc, List.take_succ_cons]
    · have hzero : c.toNat - s = 0 := by omega
      have hzero' : c.toNat - (s + 1) = 0 := by omega
      rw [List.filter_cons_of_neg (by simpa using hc), ih, hzero, hzero']
      rfl

theorem Dense.beyond_eq_drop (h : N.Dense log) : N.beyond k cursor log = (N.entries k log).drop cursor.toNat :=
  filter_lt_eq_drop (h k) cursor

theorem Dense.between_eq (h : N.Dense log) :
    N.between k start cursor log = ((N.entries k log).take cursor.toNat).drop start.toNat := by
  have htake := filter_le_eq_take (h k) cursor
  have hnumbers : ((N.entries k log).take cursor.toNat).map N.number =
      List.range' (0 + 1) ((N.entries k log).take cursor.toNat).length := by
    rw [List.map_take, h k, take_range', List.length_take]
  have hdrop := filter_lt_eq_drop hnumbers start
  rw [Nat.sub_zero] at htake hdrop
  rw [← hdrop, between, ← List.filter_filter, htake]

def IsPage (N : Numbering α κ) (k : κ) (cursor : ℤ) (log page : List α) : Prop :=
  ∃ limit, 0 < limit ∧ page = (N.beyond k cursor log).take limit

def read (N : Numbering α κ) (r : Reader α) (page : List α) : Reader α where
  start := r.start
  cursor := (page.getLast?.map fun a => (N.number a : ℤ)).getD r.cursor
  received := r.received ++ page
  reads := r.reads + 1

/-- The reader has received what lies between its start and its cursor, and its cursor is not
ahead of the stream unless it has not moved. -/
structure Follows (N : Numbering α κ) (k : κ) (log : List α) (r : Reader α) : Prop where
  received : r.received = ((N.entries k log).take r.cursor.toNat).drop r.start.toNat
  start_le : r.start ≤ r.cursor
  cursor_le : r.cursor = r.start ∨ r.cursor ≤ (N.entries k log).length

variable {r : Reader α} {page : List α}

theorem follows_start (k : κ) (log : List α) (after : ℤ) : N.Follows k log { start := after, cursor := after } :=
  ⟨by rw [List.drop_eq_nil_of_le]; exact List.length_take_le _ _, Int.le_refl after, .inl rfl⟩

/-- A growing log does not disturb its readers. -/
theorem Follows.append (h : N.Follows k log r) (more : List α) : N.Follows k (log ++ more) r := by
  refine ⟨?_, h.start_le, ?_⟩
  · rw [h.received, entries_append]
    rcases h.cursor_le with hc | hc
    · rw [hc, List.drop_eq_nil_of_le (List.length_take_le _ _), List.drop_eq_nil_of_le (List.length_take_le _ _)]
    · rw [List.take_append_of_le_length (by omega)]
  · rw [entries_append, List.length_append]
    rcases h.cursor_le with hc | hc
    · exact .inl hc
    · exact .inr (by omega)

/-- A page of a dense log brings the reader forward by its length. -/
theorem Dense.cursor_read (h : N.Dense log) (hp : N.IsPage k r.cursor log page) :
    page = [] ∧ (N.read r page).cursor = r.cursor ∧ (N.entries k log).length ≤ r.cursor.toNat ∨
      page ≠ [] ∧ (N.read r page).cursor = r.cursor.toNat + page.length ∧
        r.cursor.toNat + page.length ≤ (N.entries k log).length := by
  obtain ⟨limit, hlimit, rfl⟩ := hp
  rw [h.beyond_eq_drop]
  have hlength : (((N.entries k log).drop r.cursor.toNat).take limit).length =
      min limit ((N.entries k log).length - r.cursor.toNat) := by rw [List.length_take, List.length_drop]
  have hnumbers : (((N.entries k log).drop r.cursor.toNat).take limit).map N.number =
      List.range' (1 + r.cursor.toNat) (min limit ((N.entries k log).length - r.cursor.toNat)) := by
    rw [List.map_take, List.map_drop, h k, List.drop_range', take_range', Nat.mul_one]
  generalize ((N.entries k log).drop r.cursor.toNat).take limit = page at hlength hnumbers
  rcases Nat.lt_or_ge r.cursor.toNat (N.entries k log).length with hlt | hge
  · refine .inr ⟨fun he => ?_, ?_, by omega⟩
    · rw [he, List.length_nil] at hlength
      omega
    · have hlast := congrArg List.getLast? hnumbers
      rw [List.getLast?_map, List.getLast?_range', if_neg (by omega)] at hlast
      obtain ⟨a, hlast, ha⟩ := Option.map_eq_some_iff.mp hlast
      simp only [read, hlast, Option.map_some, Option.getD_some, ha]
      omega
  · have hnil : page = [] := List.length_eq_zero_iff.mp (by omega)
    exact .inl ⟨hnil, by simp [read, hnil], hge⟩

/-- Reading a page keeps the reader on its stream. -/
theorem Follows.read (h : N.Follows k log r) (hd : N.Dense log) (hp : N.IsPage k r.cursor log page) :
    N.Follows k log (N.read r page) := by
  have hstart := h.start_le
  rcases hd.cursor_read hp with ⟨rfl, hcursor, -⟩ | ⟨hne, hcursor, hle⟩
  · refine ⟨?_, ?_, ?_⟩
    · rw [hcursor]
      exact (List.append_nil _).trans h.received
    · rw [hcursor]
      exact hstart
    · rw [hcursor]
      exact h.cursor_le
  · obtain ⟨limit, -, hpage⟩ := hp
    rw [hd.beyond_eq_drop] at hpage
    have hpage' : page = ((N.entries k log).drop r.cursor.toNat).take page.length := by
      rw [hpage, List.length_take, ← List.take_take, List.take_of_length_le (Nat.le_refl _)]
    refine ⟨?_, ?_, .inr (by omega)⟩
    · have htoNat : (N.read r page).cursor.toNat = r.cursor.toNat + page.length := by omega
      rw [htoNat, List.take_add, ← hpage', List.drop_append_of_le_length]
      · exact congrArg (· ++ page) h.received
      · change r.start.toNat ≤ _
        rw [List.length_take]
        omega
    · rw [hcursor]
      change r.start ≤ _
      omega

/-- A page moves a reader forward while there is something to read. -/
theorem Dense.min_le_cursor_read (h : N.Dense log) (hp : N.IsPage k r.cursor log page) :
    min (N.entries k log).length (r.cursor.toNat + 1) ≤ (N.read r page).cursor.toNat := by
  rcases h.cursor_read hp with ⟨-, hcursor, hle⟩ | ⟨hne, hcursor, hle⟩
  · omega
  · have hpos := List.length_pos_iff.mpr hne
    omega

end Numbering

end WorkerHarness.NumberedLogs
