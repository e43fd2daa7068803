import Mathlib.Data.List.DropRight
import Mathlib.Data.List.Infix

/-!
# Strings of Bash

Bash strings are bytes. What of its expansions and tests a script may rely on: word splitting on
blanks, command substitution, removal of a literal prefix or suffix, and the pattern of the paths
beneath a directory.
-/

namespace WorkerHarness.BashStrings

abbrev Bytes := List UInt8

def utf8 (s : String) : Bytes := s.toList.flatMap String.utf8EncodeChar

theorem utf8_append (s t : String) : utf8 (s ++ t) = utf8 s ++ utf8 t := by
  simp [utf8]

theorem utf8EncodeChar_ascii {c : Char} (hc : c.toNat < 128) : String.utf8EncodeChar c = [.ofNat c.toNat] := by
  have hv : c.val.toNat ≤ 0x7f := Nat.le_of_lt_succ hc
  simp only [String.utf8EncodeChar, if_pos hv]
  rfl

/-- A text of ASCII characters has a byte for each. -/
theorem utf8_ascii {s : String} (hs : ∀ c ∈ s.toList, c.toNat < 128) : utf8 s = s.toList.map fun c =>
    .ofNat c.toNat := by
  rw [utf8, List.map_eq_flatMap]
  exact List.flatMap_congr fun c hc => utf8EncodeChar_ascii (hs c hc)

def decodeAscii (bytes : Bytes) : String := String.ofList (bytes.map fun b => Char.ofNat b.toNat)

theorem toNat_char {b : UInt8} (hb : b.toNat < 128) : (Char.ofNat b.toNat).toNat = b.toNat := by
  have hvalid : b.toNat.isValidChar := .inl (by omega)
  rw [Char.ofNat, dif_pos hvalid]
  rfl

theorem utf8_decodeAscii {bytes : Bytes} (hb : ∀ b ∈ bytes, b.toNat < 128) : utf8 (decodeAscii bytes) = bytes := by
  have hascii : ∀ c ∈ (decodeAscii bytes).toList, c.toNat < 128 := by
    simp only [decodeAscii, String.toList_ofList, List.mem_map, forall_exists_index, and_imp,
      forall_apply_eq_imp_iff₂]
    intro b hmem
    rw [toNat_char (hb b hmem)]
    exact hb b hmem
  rw [utf8_ascii hascii, decodeAscii, String.toList_ofList, List.map_map]
  conv_rhs => rw [← List.map_id bytes]
  refine List.map_congr_left fun b hmem => ?_
  simp [toNat_char (hb b hmem)]

def newline : UInt8 := 10

/-- A byte of the default `IFS`: a space, a tab or a newline. -/
def isBlank (b : UInt8) : Bool := b = 32 || b = 9 || b = newline

/-- The words of a line, as `read -r -a` finds them. -/
def words (line : Bytes) : List Bytes := (line.splitOnP isBlank).filter (· ≠ [])

/-- A word that splitting keeps whole. -/
structure IsWord (w : Bytes) : Prop where
  ne_nil : w ≠ []
  blank : ∀ b ∈ w, isBlank b = false

theorem words_cons {w line : Bytes} {sep : UInt8} (hw : IsWord w) (hsep : isBlank sep = true) :
    words (w ++ sep :: line) = w :: words line := by
  rw [words, List.splitOnP_append_cons_of_forall_mem hw.blank sep hsep line]
  simp [hw.ne_nil, words]

theorem words_single {w : Bytes} (hw : IsWord w) : words w = [w] := by
  rw [words, List.splitOnP_eq_singleton hw.blank]
  simp [hw.ne_nil]

theorem intercalate_cons_cons (sep : UInt8) (w w' : Bytes) (ws : List Bytes) :
    List.intercalate [sep] (w :: w' :: ws) = w ++ sep :: List.intercalate [sep] (w' :: ws) := by
  simp [List.intercalate]

theorem mem_intercalate {sep b : UInt8} {ws : List Bytes} (h : b ∈ List.intercalate [sep] ws) :
    b = sep ∨ ∃ w ∈ ws, b ∈ w := by
  induction ws with
  | nil => cases h
  | cons w ws ih =>
    cases ws with
    | nil => exact .inr ⟨w, List.mem_cons_self .., by simpa [List.intercalate] using h⟩
    | cons w' ws =>
      rw [intercalate_cons_cons] at h
      rcases List.mem_append.mp h with hw | h
      · exact .inr ⟨w, List.mem_cons_self .., hw⟩
      · rcases List.mem_cons.mp h with rfl | h
        · exact .inl rfl
        · exact (ih h).imp_right fun ⟨v, hv, hb⟩ => ⟨v, List.mem_cons_of_mem _ hv, hb⟩

/-- Words joined by blanks are found again. -/
theorem words_intercalate {sep : UInt8} (hsep : isBlank sep = true) {ws : List Bytes} (hws : ∀ w ∈ ws, IsWord w) :
    words (List.intercalate [sep] ws) = ws := by
  induction ws with
  | nil => rfl
  | cons w ws ih =>
    have hw := hws w (List.mem_cons_self ..)
    cases ws with
    | nil => simpa [List.intercalate] using words_single hw
    | cons w' ws =>
      have hrest := ih fun v hv => hws v (List.mem_cons_of_mem _ hv)
      rw [intercalate_cons_cons, words_cons hw hsep, hrest]

/-- `$(...)`: NUL bytes and trailing newlines are lost. -/
def commandSubstitution (output : Bytes) : Bytes := (output.filter (· ≠ 0)).rdropWhile (· = newline)

/-- What ends with another byte than a newline is kept but for its NUL bytes. -/
theorem commandSubstitution_sentinel {output : Bytes} {b : UInt8} (h₀ : b ≠ 0) (hn : b ≠ newline) :
    commandSubstitution (output ++ [b]) = output.filter (· ≠ 0) ++ [b] := by
  have hfilter : (output ++ [b]).filter (· ≠ 0) = output.filter (· ≠ 0) ++ [b] := by simp [h₀]
  rw [commandSubstitution, hfilter]
  exact List.rdropWhile_concat_neg _ _ _ (by simpa using hn)

theorem filter_nul {s : Bytes} (hs : (0 : UInt8) ∉ s) : s.filter (· ≠ 0) = s := by
  refine List.filter_eq_self.mpr fun b hb => ?_
  simpa using fun h : b = 0 => hs (h ▸ hb)

/-- A line without NUL bytes that a command prints loses only newlines at its end. -/
theorem prefix_commandSubstitution {output : Bytes} (h₀ : (0 : UInt8) ∉ output) :
    commandSubstitution output <+: output := by
  rw [commandSubstitution, filter_nul h₀]
  exact List.rdropWhile_prefix _ _

theorem commandSubstitution_line {s : Bytes} (h₀ : (0 : UInt8) ∉ s) (hn : s.getLast? ≠ some newline) :
    commandSubstitution (s ++ [newline]) = s := by
  have hnul : (0 : UInt8) ∉ s ++ [newline] := by simp [h₀, newline]
  rw [commandSubstitution, filter_nul hnul, List.rdropWhile_concat_pos _ _ _ (by simp)]
  refine List.rdropWhile_eq_self_iff.mpr fun hne hlast => hn ?_
  rw [List.getLast?_eq_getLast_of_ne_nil hne]
  simpa using hlast

/-- `${s#p}` for a literal `p`. -/
def removePrefix (p s : Bytes) : Bytes := if p <+: s then s.drop p.length else s

@[simp] theorem removePrefix_append (p s : Bytes) : removePrefix p (p ++ s) = s := by
  simp [removePrefix]

/-- `${s%p}` for a literal `p`. -/
def removeSuffix (p s : Bytes) : Bytes := if p <:+ s then s.take (s.length - p.length) else s

@[simp] theorem removeSuffix_append (p s : Bytes) : removeSuffix p (s ++ p) = s := by
  simp [removeSuffix]

def slash : UInt8 := 47

/-- The pattern `"$root"/*`. -/
def Beneath (root path : Bytes) : Prop := root ++ [slash] <+: path

instance (root path : Bytes) : Decidable (Beneath root path) := inferInstanceAs (Decidable (_ <+: _))

/-- The path names something in the directory, at any depth, and not the directory itself. -/
def StrictlyBeneath (root path : Bytes) : Prop := ∃ rest, rest ≠ [] ∧ path = root ++ slash :: rest

/-- The resolved name of a file: absolute, without NUL bytes, and with a slash at its end only when
it is the root of the file system. -/
structure Resolved (path : Bytes) : Prop where
  absolute : path.head? = some slash
  nul : (0 : UInt8) ∉ path
  last : path.getLast? = some slash → path = [slash]

/-- A resolved name that matches the pattern is strictly beneath the directory, whatever newlines
were lost at its end. -/
theorem Resolved.strictlyBeneath {root path : Bytes} (h : Resolved path) (hroot : root ≠ [])
    (hb : Beneath root (commandSubstitution (path ++ [newline]))) : StrictlyBeneath root path := by
  have hnul : (0 : UInt8) ∉ path ++ [newline] := by simp [h.nul, newline]
  have hprefix : root ++ [slash] <+: path ++ [newline] := hb.trans (prefix_commandSubstitution hnul)
  have hpath : root ++ [slash] <+: path := by
    refine (List.prefix_concat_iff.mp hprefix).resolve_left fun heq => ?_
    have hlast := congrArg List.getLast? heq
    simp [slash, newline] at hlast
  obtain ⟨rest, rfl⟩ := hpath
  refine ⟨rest, fun hrest => ?_, by simp⟩
  subst hrest
  have hwhole := h.last (by simp)
  have hlength := congrArg List.length hwhole
  simp at hlength
  exact hroot hlength

end WorkerHarness.BashStrings
