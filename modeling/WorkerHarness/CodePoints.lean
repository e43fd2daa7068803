import Mathlib.Data.Fin.Basic
import Mathlib.Data.List.Basic
import Mathlib.Data.List.DropRight
import Mathlib.Data.List.Induction

/-!
# Texts of code points

A text is a list of code points, which include the surrogates: a file name whose bytes are no text is read
with lone surrogates, and a JSON escape can denote one.
-/

namespace WorkerHarness.CodePoints

abbrev CodePoint := Fin 0x110000

abbrev Str := List CodePoint

instance neZeroCodePoints : @NeZero ℕ Zero.ofOfNat0 0x110000 := ⟨by decide⟩

instance lawfulBEqCodePoint : LawfulBEq CodePoint := inferInstance

instance lawfulBEqStr : LawfulBEq Str := inferInstance

theorem toNat_lt (c : Char) : c.toNat < 0x110000 := by
  rcases c.valid with h | h
  · exact h.trans (by decide)
  · exact h.2

def codePoint (c : Char) : CodePoint := ⟨c.toNat, toNat_lt c⟩

def str (s : String) : Str := s.toList.map codePoint

theorem codePoint_injective : Function.Injective codePoint := by
  intro c d h
  exact Char.toNat_inj.mp (congrArg (fun p : CodePoint => p.val) h)

@[simp] theorem codePoint_inj {c d : Char} : codePoint c = codePoint d ↔ c = d := codePoint_injective.eq_iff

@[simp] theorem mem_map_codePoint {c : Char} {l : List Char} : codePoint c ∈ l.map codePoint ↔ c ∈ l :=
  List.mem_map_of_injective codePoint_injective

/-- What is trimmed off may be more than what is appended. -/
theorem rdropWhile_append_of_forall {p : CodePoint → Bool} {text rest : Str} (h : ∀ c ∈ rest, p c = true) :
    (text ++ rest).rdropWhile p = text.rdropWhile p := by
  induction rest using List.reverseRecOn with
  | nil => rw [List.append_nil]
  | append_singleton rest c ih =>
    rw [← List.append_assoc, List.rdropWhile_concat_pos _ _ _ (h c (by simp))]
    exact ih fun d hd => h d (by simp [hd])

end WorkerHarness.CodePoints
