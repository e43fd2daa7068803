import Mathlib.Order.Basic
import Mathlib.Order.Defs.LinearOrder
import Mathlib.Order.Lattice
import Mathlib.Data.List.Induction

/-!
# Registers that keep the newest revision

A register takes a value only when its revision is higher than that of the value it holds. What it
holds in the end depends neither on the order nor on the number of times the values come in.
-/

namespace WorkerHarness.RevisionRegisters

variable {α β : Type} [LinearOrder β] (rev : α → β)

/-- The value has a higher revision than what the register holds. -/
def newer (o : Option α) (a : α) : Bool :=
  match o with
  | none => true
  | some b => decide (rev b < rev a)

def write (o : Option α) (a : α) : Option α := if newer rev o a then some a else o

def latest (as : List α) : Option α := as.foldl (write rev) none

@[simp] theorem latest_nil : latest rev ([] : List α) = none := rfl

theorem latest_concat (as : List α) (a : α) : latest rev (as ++ [a]) = write rev (latest rev as) a := by
  simp [latest]

variable {rev} {as bs : List α} {a : α}

/-- The register holds one of the values, and none has a higher revision. -/
theorem latest_spec (as : List α) : (latest rev as = none ↔ as = []) ∧
    ∀ a, latest rev as = some a → a ∈ as ∧ ∀ b ∈ as, rev b ≤ rev a := by
  induction as using List.reverseRecOn with
  | nil => exact ⟨by simp, fun a ha => nomatch ha⟩
  | append_singleton as x ih =>
    rw [latest_concat, write]
    cases hl : latest rev as with
    | none =>
      have hnil := ih.1.mp hl
      subst hnil
      refine ⟨by simp [newer], fun a ha => ?_⟩
      simp only [newer, if_true, Option.some.injEq] at ha
      subst ha
      simp
    | some c =>
      obtain ⟨hc, hmax⟩ := ih.2 c hl
      by_cases hlt : rev c < rev x
      · simp only [newer, hlt, decide_true, if_true]
        refine ⟨by simp, fun a ha => ?_⟩
        cases ha
        refine ⟨by simp, fun b hb => ?_⟩
        rcases List.mem_append.mp hb with hb | hb
        · exact (hmax b hb).trans hlt.le
        · rw [List.mem_singleton.mp hb]
      · simp only [newer, hlt, decide_false, Bool.false_eq_true, if_false]
        refine ⟨by simp, fun a ha => ?_⟩
        cases ha
        refine ⟨List.mem_append_left _ hc, fun b hb => ?_⟩
        rcases List.mem_append.mp hb with hb | hb
        · exact hmax b hb
        · rw [List.mem_singleton.mp hb]
          exact not_lt.mp hlt

theorem mem_of_latest (h : latest rev as = some a) : a ∈ as := ((latest_spec as).2 a h).1

/-- A value is taken when its revision is higher than all before. -/
theorem newer_latest_iff : newer rev (latest rev as) a = true ↔ ∀ b ∈ as, rev b < rev a := by
  cases hl : latest rev as with
  | none =>
    rw [(latest_spec as).1.mp hl]
    simp [newer]
  | some c =>
    obtain ⟨hc, hmax⟩ := (latest_spec as).2 c hl
    simp only [newer, decide_eq_true_eq]
    exact ⟨fun hlt b hb => (hmax b hb).trans_lt hlt, fun h => h c hc⟩

/-- The register ends with a value of the highest revision, whatever the order. -/
theorem latest_of_max (ha : a ∈ as) (hmax : ∀ b ∈ as, rev b ≤ rev a) : ∃ c, latest rev as = some c ∧
    rev c = rev a := by
  cases hl : latest rev as with
  | none =>
    rw [(latest_spec as).1.mp hl] at ha
    cases ha
  | some c =>
    obtain ⟨hc, hmax'⟩ := (latest_spec as).2 c hl
    exact ⟨c, rfl, le_antisymm (hmax c hc) (hmax' a ha)⟩

end WorkerHarness.RevisionRegisters
