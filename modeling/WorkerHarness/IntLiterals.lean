import WorkerHarness.PosixPaths
import WorkerHarness.TextLines
import Mathlib.Data.Nat.Digits.Lemmas

/-!
# Integers in texts

The decimal digits of an integer, and the integer that `int(text)` reads: white space around it, a sign,
digits of any script, single underscores between them. A text of too many digits is refused.
-/

namespace WorkerHarness.IntLiterals

open CodePoints TextLines

def decimalDigits (n : ℕ) : List ℕ := if n = 0 then [0] else (Nat.digits 10 n).reverse

def digitPoint (d : ℕ) : CodePoint := Fin.ofNat _ (0x30 + d)

def decimal (n : ℕ) : Str := (decimalDigits n).map digitPoint

def minus : CodePoint := codePoint '-'

def plus : CodePoint := codePoint '+'

def underscore : CodePoint := codePoint '_'

/-- `str(z)`. -/
def intText (z : ℤ) : Str := if z < 0 then minus :: decimal z.natAbs else decimal z.natAbs

def digitZeros : List ℕ :=
  [0x30, 0x660, 0x6f0, 0x7c0, 0x966, 0x9e6, 0xa66, 0xae6, 0xb66, 0xbe6, 0xc66, 0xce6, 0xd66, 0xde6, 0xe50,
    0xed0, 0xf20,
    0x1040, 0x1090, 0x17e0, 0x1810, 0x1946, 0x19d0, 0x1a80, 0x1a90, 0x1b50, 0x1bb0, 0x1c40, 0x1c50, 0xa620,
      0xa8d0, 0xa900,
    0xa9d0, 0xa9f0, 0xaa50, 0xabf0, 0xff10, 0x104a0, 0x10d30, 0x11066, 0x110f0, 0x11136, 0x111d0, 0x112f0,
      0x11450, 0x114d0,
    0x11650, 0x116c0, 0x11730, 0x118e0, 0x11950, 0x11c50, 0x11d50, 0x11da0, 0x16a60, 0x16ac0, 0x16b50,
      0x1d7ce, 0x1d7d8,
    0x1d7e2, 0x1d7ec, 0x1d7f6, 0x1e140, 0x1e2f0, 0x1e950, 0x1fbf0]

def digitValue (c : CodePoint) : Option ℕ :=
  (digitZeros.find? fun first => first ≤ c.val ∧ c.val < first + 10).map (c.val - ·)

def isIntSpace (c : CodePoint) : Bool := isWhitespace c && !(0x1c ≤ c.val && c.val ≤ 0x1f)

def maxDigits : ℕ := 4300

def digitsOf (text : Str) : Option (List ℕ) :=
  let parts := text.splitOn underscore
  if [] ∈ parts then none else parts.flatten.mapM digitValue

def natLiteral (text : Str) : Option ℕ :=
  match digitsOf text with
  | none => none
  | some digits => if maxDigits < digits.length then none else some (Nat.ofDigits 10 digits.reverse)

/-- `int(text)`; there is none where a `ValueError` is raised. -/
def intLiteral (text : Str) : Option ℤ :=
  match (text.dropWhile isIntSpace).rdropWhile isIntSpace with
  | [] => none
  | c :: text =>
    if c = minus then (natLiteral text).map fun n : ℕ => -(n : ℤ)
    else if c = plus then (natLiteral text).map fun n : ℕ => (n : ℤ)
    else (natLiteral (c :: text)).map fun n : ℕ => (n : ℤ)

variable {text : Str} {c : CodePoint} {n d : ℕ} {z : ℤ}

theorem lt_of_mem_decimalDigits (h : d ∈ decimalDigits n) : d < 10 := by
  unfold decimalDigits at h
  split at h
  · rw [List.mem_singleton.mp h]
    omega
  · exact Nat.digits_lt_base (by omega) (List.mem_reverse.mp h)

theorem decimalDigits_ne_nil (n : ℕ) : decimalDigits n ≠ [] := by
  unfold decimalDigits
  split
  · exact List.cons_ne_nil _ _
  · next h => exact fun hnil => h (Nat.digits_eq_nil_iff_eq_zero.mp (List.reverse_eq_nil_iff.mp hnil))

theorem ofDigits_decimalDigits (n : ℕ) : Nat.ofDigits 10 (decimalDigits n).reverse = n := by
  unfold decimalDigits
  split
  · next h => rw [h]; rfl
  · rw [List.reverse_reverse, Nat.ofDigits_digits]

theorem length_decimalDigits_le_iff : (decimalDigits n).length ≤ maxDigits ↔ n < 10 ^ maxDigits := by
  unfold decimalDigits
  split
  · next h =>
    rw [h]
    exact iff_of_true (by decide) (Nat.pow_pos (by omega))
  · rw [List.length_reverse, Nat.digits_length_le_iff (by omega)]

theorem digitPoint_val (h : d < 10) : (digitPoint d).val = 0x30 + d := by
  unfold digitPoint
  rw [Fin.val_ofNat]
  omega

theorem digitValue_digitPoint (h : d < 10) : digitValue (digitPoint d) = some d := by
  unfold digitValue digitZeros
  rw [List.find?_cons_of_pos (by rw [digitPoint_val h]; simp; omega), Option.map_some, digitPoint_val h]
  simp

theorem mapM_digitValue {digits : List ℕ} (h : ∀ d ∈ digits, d < 10) :
    (digits.map digitPoint).mapM digitValue = some digits := by
  induction digits with
  | nil => rfl
  | cons d digits ih =>
    rw [List.map_cons, List.mapM_cons, digitValue_digitPoint (h d List.mem_cons_self),
      ih fun e he => h e (List.mem_cons_of_mem _ he)]
    rfl

theorem mem_decimal (h : c ∈ decimal n) : 0x30 ≤ c.val ∧ c.val ≤ 0x39 := by
  obtain ⟨d, hd, rfl⟩ := List.mem_map.mp h
  have hlt := lt_of_mem_decimalDigits hd
  rw [digitPoint_val hlt]
  omega

theorem decimal_ne_nil (n : ℕ) : decimal n ≠ [] := fun h => decimalDigits_ne_nil n (List.map_eq_nil_iff.mp h)

theorem mem_intText (h : c ∈ intText z) : c = minus ∨ 0x30 ≤ c.val ∧ c.val ≤ 0x39 := by
  unfold intText at h
  split at h
  · exact (List.mem_cons.mp h).imp_right mem_decimal
  · exact .inr (mem_decimal h)

theorem intText_ne_nil (z : ℤ) : intText z ≠ [] := by
  unfold intText
  split
  · exact List.cons_ne_nil _ _
  · exact decimal_ne_nil _

theorem isWhitespace_of_mem_intText (h : c ∈ intText z) : isWhitespace c = false := by
  simp only [isWhitespace, spaces, decide_eq_false_iff_not, List.mem_cons, List.not_mem_nil, or_false]
  rcases mem_intText h with rfl | hrange
  · decide
  · omega

theorem digitsOf_decimal (n : ℕ) : digitsOf (decimal n) = some (decimalDigits n) := by
  have hsingle : (decimal n).splitOn underscore = [decimal n] := by
    apply List.splitOn_eq_singleton
    intro hmem
    exact absurd (mem_decimal hmem) (by decide)
  rw [digitsOf, hsingle, if_neg, List.flatten_singleton, decimal,
    mapM_digitValue fun d hd => lt_of_mem_decimalDigits hd]
  rw [List.mem_singleton]
  exact (decimal_ne_nil n).symm

theorem natLiteral_decimal (n : ℕ) : natLiteral (decimal n) = if n < 10 ^ maxDigits then some n else none := by
  rw [natLiteral, digitsOf_decimal]
  dsimp only
  rw [ofDigits_decimalDigits]
  by_cases h : n < 10 ^ maxDigits
  · rw [if_pos h, if_neg (Nat.not_lt.mpr (length_decimalDigits_le_iff.mpr h))]
  · rw [if_neg h, if_pos (Nat.lt_of_not_le fun hle => h (length_decimalDigits_le_iff.mp hle))]

theorem trim_intText (z : ℤ) : ((intText z).dropWhile isIntSpace).rdropWhile isIntSpace = intText z := by
  apply trim_of_forall
  intro c hc
  rw [isIntSpace, isWhitespace_of_mem_intText hc, Bool.false_and]

/-- An integer is read back from its digits unless they are too many. -/
theorem intLiteral_intText (z : ℤ) :
    intLiteral (intText z) = if z.natAbs < 10 ^ maxDigits then some z else none := by
  rw [intLiteral, trim_intText, intText]
  by_cases hneg : z < 0
  · rw [if_pos hneg]
    dsimp only
    rw [if_pos rfl, natLiteral_decimal]
    split
    · rw [Option.map_some]
      congr 1
      omega
    · rfl
  · rw [if_neg hneg]
    obtain ⟨c, rest, heq⟩ := List.exists_cons_of_ne_nil (decimal_ne_nil z.natAbs)
    have hdigit : 0x30 ≤ c.val ∧ c.val ≤ 0x39 := mem_decimal (n := z.natAbs) (by simp [heq])
    have hminus : c ≠ minus := by
      rintro rfl
      exact absurd hdigit (by decide)
    have hplus : c ≠ plus := by
      rintro rfl
      exact absurd hdigit (by decide)
    rw [heq]
    dsimp only
    rw [if_neg hminus, if_neg hplus, ← heq, natLiteral_decimal]
    split
    · rw [Option.map_some]
      congr 1
      omega
    · rfl

theorem mapM_digitValue_eq_none (hmem : c ∈ text) (h : digitValue c = none) : text.mapM digitValue = none := by
  induction text with
  | nil => cases hmem
  | cons d text ih =>
    rw [List.mapM_cons]
    rcases List.mem_cons.mp hmem with rfl | hmem
    · rw [h]
      rfl
    · rw [ih hmem]
      cases digitValue d <;> rfl

theorem natLiteral_eq_none (hmem : c ∈ text) (hunderscore : c ≠ underscore) (h : digitValue c = none) :
    natLiteral text = none := by
  have hflat : c ∈ (text.splitOn underscore).flatten := by
    have hjoin : [underscore].intercalate (text.splitOn underscore) = text := List.intercalate_splitOn underscore
    rw [← hjoin] at hmem
    rcases PosixPaths.mem_of_mem_intercalate hmem with rfl | ⟨part, hpart, hc⟩
    · exact absurd rfl hunderscore
    · exact List.mem_flatten.mpr ⟨part, hpart, hc⟩
  have hnone : digitsOf text = none := by
    unfold digitsOf
    dsimp only
    split
    · rfl
    · exact mapM_digitValue_eq_none hflat h
  rw [natLiteral, hnone]

/-- A text with a code point that is no part of an integer. -/
theorem intLiteral_eq_none (hmem : c ∈ text) (hspace : isWhitespace c = false) (hminus : c ≠ minus)
    (hplus : c ≠ plus)
    (hunderscore : c ≠ underscore) (h : digitValue c = none) : intLiteral text = none := by
  have hints : isIntSpace c = false := by simp [isIntSpace, hspace]
  have hback := mem_trim hmem hints
  unfold intLiteral
  split
  · rfl
  · next d rest heq =>
    rw [heq] at hback
    split
    · next hd =>
      rw [natLiteral_eq_none ((List.mem_cons.mp hback).resolve_left fun h => hminus (h.trans hd)) hunderscore h]
      rfl
    · split
      · next hd =>
        rw [natLiteral_eq_none ((List.mem_cons.mp hback).resolve_left fun h => hplus (h.trans hd)) hunderscore h]
        rfl
      · rw [natLiteral_eq_none hback hunderscore h]
        rfl

end WorkerHarness.IntLiterals
