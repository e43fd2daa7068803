import Mathlib.Data.Int.Log
import Mathlib.Algebra.Order.Field.Power
import Mathlib.Data.Rat.Floor
import Mathlib.Tactic.Linarith
import Mathlib.Tactic.Positivity
import Mathlib.Tactic.FieldSimp
import Mathlib.Tactic.Ring

/-!
# Binary floating-point numbers

The value of a number that is rounded to 53 bits, to even where it lies halfway, with the gradual underflow
of the 64-bit format. What is too large has no value.
-/

namespace WorkerHarness.Binary64

/-- The nearest integer, the even one halfway between two. -/
def roundHalfEven (x : ℚ) : ℤ :=
  if x - ⌊x⌋ < 1 / 2 then ⌊x⌋
  else if 1 / 2 < x - ⌊x⌋ then ⌊x⌋ + 1
  else if Even ⌊x⌋ then ⌊x⌋ else ⌊x⌋ + 1

/-- The distance of the numbers of the format around `x`. -/
def unit (x : ℚ) : ℚ := 2 ^ max (Int.log 2 |x| - 52) (-1074)

def nearest (x : ℚ) : ℚ := roundHalfEven (x / unit x) * unit x

/-- The value of the format next to `x`, unless it is infinite. -/
def float (x : ℚ) : Option ℚ := if |nearest x| < 2 ^ 1024 then some (nearest x) else none

variable {x : ℚ} {n : ℤ}

theorem abs_roundHalfEven_sub_le (x : ℚ) : |(roundHalfEven x : ℚ) - x| ≤ 1 / 2 := by
  have hle : (⌊x⌋ : ℚ) ≤ x := Int.floor_le x
  have hlt : x < ⌊x⌋ + 1 := Int.lt_floor_add_one x
  unfold roundHalfEven
  split
  · rw [abs_le]
    constructor <;> linarith
  · split
    · push_cast
      rw [abs_le]
      constructor <;> linarith
    · split
      · rw [abs_le]
        constructor <;> linarith
      · push_cast
        rw [abs_le]
        constructor <;> linarith

theorem roundHalfEven_eq (h : |x - n| < 1 / 2) : roundHalfEven x = n := by
  have hround := abs_roundHalfEven_sub_le x
  have hdist : |(roundHalfEven x : ℚ) - n| < 1 := by
    calc |(roundHalfEven x : ℚ) - n| = |(roundHalfEven x - x) + (x - n)| := by ring_nf
      _ ≤ |(roundHalfEven x : ℚ) - x| + |x - n| := abs_add_le _ _
      _ < 1 := by linarith
  have hcast : |roundHalfEven x - n| < 1 := by exact_mod_cast hdist
  have hzero := Int.abs_lt_one_iff.mp hcast
  omega

theorem roundHalfEven_nonpos (h : x ≤ 0) : roundHalfEven x ≤ 0 := by
  have herror := abs_le.mp (abs_roundHalfEven_sub_le x)
  have hlt : (roundHalfEven x : ℚ) < 1 := by linarith [herror.2]
  have hcast : roundHalfEven x < 1 := by exact_mod_cast hlt
  omega

@[simp] theorem roundHalfEven_intCast (n : ℤ) : roundHalfEven (n : ℚ) = n := by
  apply roundHalfEven_eq
  norm_num

theorem unit_pos (x : ℚ) : 0 < unit x := by
  unfold unit
  positivity

theorem nearest_nonpos (h : x ≤ 0) : nearest x ≤ 0 := by
  have hround : (roundHalfEven (x / unit x) : ℚ) ≤ 0 := by
    exact_mod_cast roundHalfEven_nonpos (div_nonpos_of_nonpos_of_nonneg h (unit_pos x).le)
  exact mul_nonpos_of_nonpos_of_nonneg hround (unit_pos x).le

theorem abs_nearest_sub_le (x : ℚ) : |nearest x - x| ≤ unit x / 2 := by
  have hpos := unit_pos x
  have hround := abs_roundHalfEven_sub_le (x / unit x)
  have hscale : nearest x - x = (roundHalfEven (x / unit x) - x / unit x) * unit x := by
    unfold nearest
    field_simp
  rw [hscale, abs_mul, abs_of_pos hpos]
  calc |(roundHalfEven (x / unit x) : ℚ) - x / unit x| * unit x ≤ 1 / 2 * unit x := by gcongr
    _ = unit x / 2 := by ring

theorem unit_le (h : 2 ^ (-1022 : ℤ) ≤ |x|) : unit x ≤ |x| / 2 ^ 52 := by
  have hpos : 0 < |x| := lt_of_lt_of_le (by positivity) h
  have hlog : -1022 ≤ Int.log 2 |x| := (Int.zpow_le_iff_le_log (by omega) hpos).mp (by exact_mod_cast h)
  have hself : (2 : ℚ) ^ Int.log 2 |x| ≤ |x| := by
    exact_mod_cast Int.zpow_log_le_self (by omega : 1 < 2) hpos
  rw [unit, max_eq_left (by omega), zpow_sub₀ (by norm_num)]
  norm_cast
  gcongr

/-- The distance within a binade. -/
theorem unit_eq (e : ℤ) (hle : 2 ^ e ≤ |x|) (hlt : |x| < 2 ^ (e + 1)) (he : -1022 ≤ e) : unit x = 2 ^ (e - 52) := by
  have hpos : 0 < |x| := lt_of_lt_of_le (by positivity) hle
  have hge : e ≤ Int.log 2 |x| := (Int.zpow_le_iff_le_log (by omega) hpos).mp (by exact_mod_cast hle)
  have hlog : Int.log 2 |x| < e + 1 := (Int.lt_zpow_iff_log_lt (by omega) hpos).mp (by exact_mod_cast hlt)
  have heq : Int.log 2 |x| = e := by omega
  rw [unit, heq, max_eq_left (by omega)]

/-- The relative error is at most half a unit in the last place. -/
theorem abs_nearest_sub_le_mul (h : 2 ^ (-1022 : ℤ) ≤ |x|) : |nearest x - x| ≤ |x| / 2 ^ 53 := by
  calc |nearest x - x| ≤ unit x / 2 := abs_nearest_sub_le x
    _ ≤ |x| / 2 ^ 52 / 2 := by linarith [unit_le h]
    _ = |x| / 2 ^ 53 := by ring

/-- Without a bound from below. -/
theorem unit_le_add (x : ℚ) : unit x ≤ |x| / 2 ^ 52 + 1 := by
  by_cases h : 2 ^ (-1022 : ℤ) ≤ |x|
  · linarith [unit_le h]
  · have hone : |x| < 1 := (not_le.mp h).trans_le (zpow_le_one_of_nonpos₀ (by norm_num) (by omega))
    have hlog : Int.log 2 |x| ≤ 0 := by
      by_cases hzero : |x| = 0
      · rw [hzero, Int.log_zero_right]
      · have hpos : 0 < |x| := lt_of_le_of_ne (abs_nonneg _) (Ne.symm hzero)
        exact ((Int.lt_zpow_iff_log_lt (by omega) hpos).mp (by simpa using hone)).le
    have hunit : unit x ≤ 1 := zpow_le_one_of_nonpos₀ (by norm_num) (by omega)
    have hnonneg : 0 ≤ |x| / 2 ^ 52 := by positivity
    linarith

/-- What is well below the infinite numbers has a value. -/
theorem eq_nearest_of_float {y : ℚ} (h : float x = some y) : y = nearest x := by
  unfold float at h
  split at h
  · exact (Option.some.inj h).symm
  · cases h

theorem abs_lt_of_float {y : ℚ} (h : float x = some y) : |y| < 2 ^ 1024 := by
  unfold float at h
  split at h
  · next hlt => rwa [← Option.some.inj h]
  · cases h

theorem float_eq (h : |x| ≤ 2 ^ 1023) : float x = some (nearest x) := by
  have hpower : (2 : ℚ) ^ 1024 = 2 * 2 ^ 1023 := pow_succ' 2 1023
  have hlarge : (2 : ℚ) ≤ 2 ^ 1023 := by
    simpa using pow_le_pow_right₀ (by norm_num : (1 : ℚ) ≤ 2) (by omega : 1 ≤ 1023)
  have htriangle : |nearest x| ≤ |nearest x - x| + |x| := by simpa using abs_add_le (nearest x - x) x
  have hlt : |nearest x| < 2 ^ 1024 := by
    rw [hpower]
    generalize (2 : ℚ) ^ 1023 = half at h hlarge
    linarith [abs_nearest_sub_le x, unit_le_add x]
  rw [float, if_pos hlt]

theorem abs_le_of_float {y : ℚ} (h : float x = some y) : |x| ≤ 2 ^ 1025 := by
  have hpower : (2 : ℚ) ^ 1025 = 2 * 2 ^ 1024 := pow_succ' 2 1024
  have hlarge : (2 : ℚ) ≤ 2 ^ 1024 := by
    simpa using pow_le_pow_right₀ (by norm_num : (1 : ℚ) ≤ 2) (by omega : 1 ≤ 1024)
  have hlt : |nearest x| < 2 ^ 1024 := eq_nearest_of_float h ▸ abs_lt_of_float h
  have htriangle : |x| ≤ |nearest x| + |nearest x - x| := by simpa using abs_sub (nearest x) (nearest x - x)
  rw [hpower]
  generalize (2 : ℚ) ^ 1024 = bound at hlt hlarge
  linarith [abs_nearest_sub_le x, unit_le_add x]

/-- A multiple of the distance is a number of the format. -/
theorem nearest_eq (n : ℤ) (h : x = n * unit x) : nearest x = x := by
  have hdiv : x / unit x = n := by
    rw [div_eq_iff (unit_pos x).ne']
    exact h
  rw [nearest, hdiv, roundHalfEven_intCast, ← h]

theorem exists_unit_inv (h : |(n : ℚ)| < 2 ^ 53) : ∃ k : ℕ, unit n = ((2 : ℚ) ^ k)⁻¹ := by
  have hlog : Int.log 2 |(n : ℚ)| ≤ 52 := by
    by_cases hzero : |(n : ℚ)| = 0
    · rw [hzero, Int.log_zero_right]
      omega
    · have hpos : 0 < |(n : ℚ)| := lt_of_le_of_ne (abs_nonneg _) (Ne.symm hzero)
      have hlt : Int.log 2 |(n : ℚ)| < 53 := (Int.lt_zpow_iff_log_lt (by omega) hpos).mp (by exact_mod_cast h)
      omega
  refine ⟨(-max (Int.log 2 |(n : ℚ)| - 52) (-1074)).toNat, ?_⟩
  rw [unit, ← zpow_natCast, Int.toNat_of_nonneg (by omega), ← zpow_neg, neg_neg]

/-- Integers of at most 53 bits are numbers of the format. -/
theorem nearest_intCast (h : |(n : ℚ)| < 2 ^ 53) : nearest n = n := by
  obtain ⟨k, hk⟩ := exists_unit_inv h
  apply nearest_eq (n * 2 ^ k)
  rw [hk]
  push_cast
  field_simp

theorem float_intCast (h : |(n : ℚ)| < 2 ^ 53) : float n = some (n : ℚ) := by
  have hle : |(n : ℚ)| ≤ 2 ^ 1023 := h.le.trans (pow_le_pow_right₀ (by norm_num) (by omega))
  rw [float_eq hle, nearest_intCast h]

end WorkerHarness.Binary64
