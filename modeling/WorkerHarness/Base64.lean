import Mathlib.Data.List.Basic
import Mathlib.Tactic.IntervalCases

/-!
# Base64

The standard alphabet with padding: three bytes become four symbols, and a last group of one or two
bytes is padded. Decoding is strict, and undoes encoding.
-/

namespace WorkerHarness.Base64

/-- The symbol of a group of six bits. -/
def symbol (n : ℕ) : UInt8 :=
  if n < 26 then .ofNat (65 + n)
  else if n < 52 then .ofNat (71 + n)
  else if n < 62 then .ofNat (n - 4)
  else if n = 62 then 43
  else 47

/-- The padding, `=`. -/
def pad : UInt8 := 61

def encode : List UInt8 → List UInt8
  | [] => []
  | [a] => [symbol (a.toNat / 4), symbol (a.toNat % 4 * 16), pad, pad]
  | [a, b] =>
    [symbol (a.toNat / 4), symbol (a.toNat % 4 * 16 + b.toNat / 16), symbol (b.toNat % 16 * 4), pad]
  | a :: b :: c :: rest =>
    symbol (a.toNat / 4) :: symbol (a.toNat % 4 * 16 + b.toNat / 16) ::
      symbol (b.toNat % 16 * 4 + c.toNat / 64) :: symbol (c.toNat % 64) :: encode rest

/-- The six bits of a symbol. -/
def value? (s : UInt8) : Option ℕ :=
  if 65 ≤ s.toNat ∧ s.toNat ≤ 90 then some (s.toNat - 65)
  else if 97 ≤ s.toNat ∧ s.toNat ≤ 122 then some (s.toNat - 71)
  else if 48 ≤ s.toNat ∧ s.toNat ≤ 57 then some (s.toNat + 4)
  else if s = 43 then some 62
  else if s = 47 then some 63
  else none

/-- The bytes of four symbols, the last two of which may be padding. -/
def decodeGroup (p q r s : UInt8) : Option (List UInt8) := do
  let w ← value? p
  let x ← value? q
  let first := UInt8.ofNat (w * 4 + x / 16)
  if s = pad then
    if r = pad then return [first]
    else
      let y ← value? r
      return [first, .ofNat (x % 16 * 16 + y / 4)]
  else
    let y ← value? r
    let z ← value? s
    return [first, .ofNat (x % 16 * 16 + y / 4), .ofNat (y % 4 * 64 + z)]

def decode : List UInt8 → Option (List UInt8)
  | [] => some []
  | p :: q :: r :: s :: rest => do
    let group ← decodeGroup p q r s
    let bytes ← decode rest
    -- Only the last group is padded.
    if s = pad ∧ rest ≠ [] then none else return group ++ bytes
  | _ => none

def Encoded (s : UInt8) : Prop := (value? s).isSome ∨ s = pad

instance (s : UInt8) : Decidable (Encoded s) := inferInstanceAs (Decidable (_ ∨ _))

@[simp] theorem value?_symbol {n : ℕ} (hn : n < 64) : value? (symbol n) = some n := by
  interval_cases n <;> rfl

theorem symbol_ne_pad {n : ℕ} (hn : n < 64) : symbol n ≠ pad := by
  intro h
  have hv := value?_symbol hn
  rw [h] at hv
  cases hv

theorem encoded_symbol {n : ℕ} (hn : n < 64) : Encoded (symbol n) := by
  left
  rw [value?_symbol hn]
  rfl

theorem encoded_pad : Encoded pad := .inr rfl

theorem byte_lt (a : UInt8) : a.toNat < 256 := a.toNat_lt

theorem ofNat_eq {a : UInt8} {n : ℕ} (h : n = a.toNat) : UInt8.ofNat n = a := by
  rw [h, UInt8.ofNat_toNat]

theorem first_byte (a b : UInt8) :
    UInt8.ofNat (a.toNat / 4 * 4 + (a.toNat % 4 * 16 + b.toNat / 16) / 16) = a := by
  have ha := byte_lt a
  have hb := byte_lt b
  exact ofNat_eq (by omega)

theorem second_byte (a b c : UInt8) :
    UInt8.ofNat ((a.toNat % 4 * 16 + b.toNat / 16) % 16 * 16 + (b.toNat % 16 * 4 + c.toNat / 64) / 4) = b := by
  have hb := byte_lt b
  have hc := byte_lt c
  exact ofNat_eq (by omega)

theorem third_byte (b c : UInt8) :
    UInt8.ofNat ((b.toNat % 16 * 4 + c.toNat / 64) % 4 * 64 + c.toNat % 64) = c := by
  have hc := byte_lt c
  exact ofNat_eq (by omega)

theorem decodeGroup_three (a b c : UInt8) :
    decodeGroup (symbol (a.toNat / 4)) (symbol (a.toNat % 4 * 16 + b.toNat / 16))
      (symbol (b.toNat % 16 * 4 + c.toNat / 64)) (symbol (c.toNat % 64)) = some [a, b, c] := by
  have ha := byte_lt a
  have hb := byte_lt b
  have hc := byte_lt c
  have hs : symbol (c.toNat % 64) ≠ pad := symbol_ne_pad (by omega)
  simp only [decodeGroup, if_neg hs]
  rw [value?_symbol (by omega), value?_symbol (by omega), value?_symbol (by omega), value?_symbol (by omega)]
  simp only [Option.bind_eq_bind, Option.bind_some, first_byte, second_byte, third_byte]
  rfl

theorem decodeGroup_two (a b : UInt8) :
    decodeGroup (symbol (a.toNat / 4)) (symbol (a.toNat % 4 * 16 + b.toNat / 16)) (symbol (b.toNat % 16 * 4)) pad =
      some [a, b] := by
  have ha := byte_lt a
  have hb := byte_lt b
  have hr : symbol (b.toNat % 16 * 4) ≠ pad := symbol_ne_pad (by omega)
  have hsecond := second_byte a b 0
  simp only [UInt8.toNat_zero, Nat.zero_div, Nat.add_zero] at hsecond
  simp only [decodeGroup, if_neg hr]
  rw [value?_symbol (by omega), value?_symbol (by omega), value?_symbol (by omega)]
  simp only [Option.bind_eq_bind, Option.bind_some, first_byte, hsecond]
  rfl

theorem decodeGroup_one (a : UInt8) :
    decodeGroup (symbol (a.toNat / 4)) (symbol (a.toNat % 4 * 16)) pad pad = some [a] := by
  have ha := byte_lt a
  have hfirst := first_byte a 0
  simp only [UInt8.toNat_zero, Nat.zero_div, Nat.add_zero] at hfirst
  simp only [decodeGroup]
  rw [value?_symbol (by omega), value?_symbol (by omega)]
  simp only [Option.bind_eq_bind, Option.bind_some, hfirst]
  rfl

theorem decode_encode (bytes : List UInt8) : decode (encode bytes) = some bytes := by
  induction bytes using encode.induct with
  | case1 => rfl
  | case2 a => simp [encode, decode, decodeGroup_one]
  | case3 a b => simp [encode, decode, decodeGroup_two]
  | case4 a b c rest ih =>
    have hc := byte_lt c
    have hs : symbol (c.toNat % 64) ≠ pad := symbol_ne_pad (by omega)
    simp [encode, decode, decodeGroup_three, ih, hs]

/-- Encoded text consists of symbols and padding. -/
theorem encoded_of_mem_encode {s : UInt8} {bytes : List UInt8} (h : s ∈ encode bytes) : Encoded s := by
  induction bytes using encode.induct with
  | case1 => cases h
  | case2 a =>
    have ha := byte_lt a
    simp only [encode, List.mem_cons, List.not_mem_nil, or_false] at h
    rcases h with rfl | rfl | rfl | rfl
    · exact encoded_symbol (by omega)
    · exact encoded_symbol (by omega)
    · exact encoded_pad
    · exact encoded_pad
  | case3 a b =>
    have ha := byte_lt a
    have hb := byte_lt b
    simp only [encode, List.mem_cons, List.not_mem_nil, or_false] at h
    rcases h with rfl | rfl | rfl | rfl
    · exact encoded_symbol (by omega)
    · exact encoded_symbol (by omega)
    · exact encoded_symbol (by omega)
    · exact encoded_pad
  | case4 a b c rest ih =>
    have ha := byte_lt a
    have hb := byte_lt b
    have hc := byte_lt c
    simp only [encode, List.mem_cons] at h
    rcases h with rfl | rfl | rfl | rfl | h
    · exact encoded_symbol (by omega)
    · exact encoded_symbol (by omega)
    · exact encoded_symbol (by omega)
    · exact encoded_symbol (by omega)
    · exact ih h

theorem ascii_of_mem_encode {s : UInt8} {bytes : List UInt8} (h : s ∈ encode bytes) : s.toNat < 128 := by
  have htable : ∀ n < 256, Encoded (.ofNat n) → n < 128 := by decide +kernel
  refine htable s.toNat s.toNat_lt ?_
  rw [UInt8.ofNat_toNat]
  exact encoded_of_mem_encode h

end WorkerHarness.Base64
