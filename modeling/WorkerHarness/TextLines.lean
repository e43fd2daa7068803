import WorkerHarness.CodePoints
import WorkerHarness.SplitLines
import Mathlib.Data.List.DropRight
import Mathlib.Data.List.Infix

/-!
# Lines and fields of a text

White space, the lines of a text and the fields of a line, as the methods of Python's `str` take them. Rows
that are written as lines are read back, and the first field of a row is what stands before the first
separator.
-/

namespace WorkerHarness.TextLines

open CodePoints SplitLines

/-- The code points of which `str.isspace` holds. -/
def spaces : List ℕ :=
  [0x9, 0xa, 0xb, 0xc, 0xd, 0x1c, 0x1d, 0x1e, 0x1f, 0x20, 0x85, 0xa0, 0x1680, 0x2000, 0x2001, 0x2002,
    0x2003, 0x2004,
    0x2005, 0x2006, 0x2007, 0x2008, 0x2009, 0x200a, 0x2028, 0x2029, 0x202f, 0x205f, 0x3000]

def isWhitespace (c : CodePoint) : Bool := c.val ∈ spaces

/-- `str.strip`. -/
def stripText (text : Str) : Str := (text.dropWhile isWhitespace).rdropWhile isWhitespace

/-- The line breaks of `str.splitlines`. -/
def isLineBreak (c : CodePoint) : Bool := c.val ∈ [0xa, 0xb, 0xc, 0xd, 0x1c, 0x1d, 0x1e, 0x85, 0x2028, 0x2029]

/-- `\r\n` is one line break. -/
def inLine (c c' : CodePoint) : Bool := !isLineBreak c || c = codePoint '\r' && c' = codePoint '\n'

/-- `str.splitlines`. -/
def splitlines (text : Str) : List Str := (text.splitBy inLine).map (·.rdropWhile isLineBreak)

/-- What stands before and after the first occurrence of a separator. -/
def partition (sep : Str) : Str → Option (Str × Str)
  | [] => none
  | c :: text =>
    if sep.isPrefixOf (c :: text) then some ([], (c :: text).drop sep.length)
    else (partition sep text).map fun p => (c :: p.1, p.2)

/-- `text.split(sep, maxsplit)`. -/
def split (sep : Str) : ℕ → Str → List Str
  | 0, text => [text]
  | maxsplit + 1, text =>
    match partition sep text with
    | none => [text]
    | some (field, rest) => field :: split sep maxsplit rest

variable {text rest sep field : Str} {rows : List Str} {c c' : CodePoint}

theorem isWhitespace_of_isLineBreak (h : isLineBreak c = true) : isWhitespace c = true := by
  simp only [isLineBreak, isWhitespace, spaces, decide_eq_true_eq, List.mem_cons, List.not_mem_nil, or_false] at h ⊢
  omega

theorem stripText_cons (h : isWhitespace c = true) (text : Str) : stripText (c :: text) = stripText text := by
  rw [stripText, List.dropWhile_cons_of_pos h, stripText]

section Trim

variable {α : Type} {p : α → Bool} {l : List α} {x : α}

theorem trim_of_ends (hhead : ∀ x ∈ l.head?, p x = false) (hlast : ∀ x ∈ l.getLast?, p x = false) :
    (l.dropWhile p).rdropWhile p = l := by
  cases l with
  | nil => rfl
  | cons x l =>
    have hfirst : p x = false := hhead x rfl
    rw [List.dropWhile_cons_of_neg (by simp [hfirst])]
    apply List.rdropWhile_eq_self_iff.mpr
    intro hne
    rw [hlast _ (List.getLast_mem_getLast? hne)]
    exact Bool.false_ne_true

theorem trim_of_forall (h : ∀ x ∈ l, p x = false) : (l.dropWhile p).rdropWhile p = l :=
  trim_of_ends (fun x hx => h x (List.mem_of_mem_head? hx)) fun x hx => h x (List.mem_of_mem_getLast? hx)

/-- Only what is trimmed off is lost. -/
theorem mem_trim (hmem : x ∈ l) (h : p x = false) : x ∈ (l.dropWhile p).rdropWhile p := by
  have hfront : x ∈ l.dropWhile p := by
    rw [← List.takeWhile_append_dropWhile (p := p) (l := l)] at hmem
    rcases List.mem_append.mp hmem with htake | hrest
    · exact absurd (List.mem_takeWhile_imp htake) (by simp [h])
    · exact hrest
  rw [← List.rdropWhile_append_rtakeWhile (p := p) (l := l.dropWhile p)] at hfront
  rcases List.mem_append.mp hfront with hrest | htake
  · exact hrest
  · exact absurd (List.mem_rtakeWhile_imp htake) (by simp [h])

end Trim

theorem stripText_of_ends (hhead : ∀ c ∈ text.head?, isWhitespace c = false)
    (hlast : ∀ c ∈ text.getLast?, isWhitespace c = false) :
    stripText text = text :=
  trim_of_ends hhead hlast

theorem stripText_of_forall (h : ∀ c ∈ text, isWhitespace c = false) : stripText text = text := trim_of_forall h

theorem mem_stripText (hmem : c ∈ text) (h : isWhitespace c = false) : c ∈ stripText text := mem_trim hmem h

theorem stripText_append_singleton (hhead : ∀ c ∈ text.head?, isWhitespace c = false)
    (hlast : ∀ c ∈ text.getLast?, isWhitespace c = false)
    (h : isWhitespace c = true) : stripText (text ++ [c]) = text := by
  cases text with
  | nil => rw [List.nil_append, stripText_cons h]; rfl
  | cons d text =>
    have hfirst : isWhitespace d = false := hhead d rfl
    rw [stripText, List.cons_append, List.dropWhile_cons_of_neg (by simp [hfirst]), ← List.cons_append,
      List.rdropWhile_concat_pos _ _ _ h]
    have hself : stripText (d :: text) = d :: text := stripText_of_ends hhead hlast
    rwa [stripText, List.dropWhile_cons_of_neg (by simp [hfirst])] at hself

theorem splitBy_line (h : ∀ c ∈ text, isLineBreak c = false) (hne : text ++ rest ≠ []) (hrest : rest.length ≤ 1) :
    (text ++ rest).splitBy inLine = [text ++ rest] := by
  apply List.splitBy_of_isChain hne
  induction text with
  | nil =>
    match rest, hrest with
    | [], _ => exact List.IsChain.nil
    | [c], _ => exact List.IsChain.singleton c
  | cons c text ih =>
    have hlink : ∀ d, inLine c d = true := fun d => by simp [inLine, h c List.mem_cons_self]
    by_cases hnil : text ++ rest = []
    · rw [List.cons_append, hnil]
      exact List.IsChain.singleton c
    · rw [List.cons_append, List.isChain_cons]
      exact ⟨fun d _ => hlink d, ih (fun d hd => h d (List.mem_cons_of_mem _ hd)) hnil⟩

theorem rdropWhile_line (h : ∀ c ∈ text, isLineBreak c = false) : text.rdropWhile isLineBreak = text := by
  apply List.rdropWhile_eq_self_iff.mpr
  intro hne
  rw [h _ (List.getLast_mem hne)]
  exact Bool.false_ne_true

theorem splitlines_line (h : ∀ c ∈ text, isLineBreak c = false) (hne : text ≠ []) : splitlines text = [text] := by
  have hsplit : (text ++ []).splitBy inLine = [text ++ []] := splitBy_line h (by simpa using hne) (by simp)
  rw [List.append_nil] at hsplit
  rw [splitlines, hsplit, List.map_singleton, rdropWhile_line h]

theorem splitlines_append (h : ∀ c ∈ text, isLineBreak c = false) (rest : Str) :
    splitlines (text ++ codePoint '\n' :: rest) = text :: splitlines rest := by
  have hline : (text ++ [codePoint '\n']).splitBy inLine = [text ++ [codePoint '\n']] :=
    splitBy_line h (by simp) (by simp)
  have hbreaks : Breaks inLine (text ++ [codePoint '\n']) rest := by
    intro x hx y _
    rw [List.getLast?_append_of_ne_nil _ (List.cons_ne_nil _ _)] at hx
    cases hx
    rfl
  rw [splitlines, List.append_cons, splitBy_append_of_breaks hbreaks, hline, List.map_append, List.map_singleton,
    List.rdropWhile_concat_pos _ _ _ (by decide), rdropWhile_line h]
  rfl

/-- In a line of `splitBy`, a line break ends the line, or it is followed by the second half of a pair. -/
theorem exists_line_of_isChain (h : text.IsChain fun c c' => inLine c c' = true) :
    ∃ line rest, text = line ++ rest ∧ (∀ c ∈ line, isLineBreak c = false) ∧ ∀ c ∈ rest, isLineBreak c = true := by
  induction text with
  | nil => exact ⟨[], [], rfl, by simp, by simp⟩
  | cons c text ih =>
    rw [List.isChain_cons] at h
    obtain ⟨hlink, htext⟩ := h
    by_cases hc : isLineBreak c = true
    · refine ⟨[], c :: text, rfl, by simp, ?_⟩
      cases text with
      | nil => simpa using hc
      | cons d text =>
        have hpair := hlink d rfl
        simp only [inLine, hc, Bool.not_true, Bool.false_or, Bool.and_eq_true, decide_eq_true_eq] at hpair
        obtain ⟨-, rfl⟩ := hpair
        cases text with
        | nil => simpa [hc] using (by decide : isLineBreak (codePoint '\n') = true)
        | cons e text =>
          rw [List.isChain_cons] at htext
          have hlast := htext.1 e rfl
          simp [inLine, isLineBreak, codePoint] at hlast
    · obtain ⟨line, rest, rfl, hline, hrest⟩ := ih htext
      exact ⟨c :: line, rest, rfl, List.forall_mem_cons.mpr ⟨by simpa using hc, hline⟩, hrest⟩

/-- No line has a line break in it. -/
theorem isLineBreak_of_mem_splitlines {line : Str} (h : line ∈ splitlines text) (hc : c ∈ line) :
    isLineBreak c = false := by
  obtain ⟨whole, hwhole, rfl⟩ := List.mem_map.mp h
  obtain ⟨line, rest, rfl, hline, hrest⟩ := exists_line_of_isChain (List.isChain_of_mem_splitBy hwhole)
  rw [rdropWhile_append_of_forall hrest, rdropWhile_line hline] at hc
  exact hline c hc

/-- A line with something at both of its ends. -/
structure Row (row : Str) : Prop where
  ne_nil : row ≠ []
  single : ∀ c ∈ row, isLineBreak c = false
  head : ∀ c ∈ row.head?, isWhitespace c = false
  last : ∀ c ∈ row.getLast?, isWhitespace c = false

def unlines (rows : List Str) : Str := rows.flatMap fun row => row ++ [codePoint '\n']

theorem splitlines_unlines_append (h : ∀ row ∈ rows, Row row) (rest : Str) :
    splitlines (unlines rows ++ rest) = rows ++ splitlines rest := by
  induction rows with
  | nil => rfl
  | cons row rows ih =>
    have hline := splitlines_append (h row List.mem_cons_self).single (unlines rows ++ rest)
    rw [ih fun r hr => h r (List.mem_cons_of_mem _ hr)] at hline
    rw [unlines, List.flatMap_cons, List.append_assoc, List.append_assoc, List.singleton_append]
    exact hline

theorem head?_unlines_append (h : ∀ row ∈ rows, Row row) (hrest : ∀ c ∈ rest.head?, isWhitespace c = false) :
    ∀ c ∈ (unlines rows ++ rest).head?, isWhitespace c = false := by
  cases rows with
  | nil => exact hrest
  | cons row rows =>
    obtain ⟨hne, -, hhead, -⟩ := h row List.mem_cons_self
    rw [unlines, List.flatMap_cons, List.append_assoc, List.append_assoc, List.head?_append_of_ne_nil _ hne]
    exact hhead

/-- Rows are read back from the stripped text. -/
theorem splitlines_stripText_unlines (h : ∀ row ∈ rows, Row row) :
    splitlines (stripText (unlines rows)) = rows := by
  induction rows using List.reverseRecOn with
  | nil => rfl
  | append_singleton rows row =>
    have hrows : ∀ r ∈ rows, Row r := fun r hr => h r (List.mem_append_left _ hr)
    have hrow : Row row := h row (by simp)
    have htext : unlines (rows ++ [row]) = unlines rows ++ row ++ [codePoint '\n'] := by simp [unlines]
    have hlast : ∀ c ∈ (unlines rows ++ row).getLast?, isWhitespace c = false := by
      rw [List.getLast?_append_of_ne_nil _ hrow.ne_nil]
      exact hrow.last
    rw [htext, stripText_append_singleton (head?_unlines_append hrows hrow.head) hlast (by decide),
      splitlines_unlines_append hrows, splitlines_line hrow.single hrow.ne_nil]

/-- Where no separator has started, the field goes on. -/
theorem partition_append (h : ∀ u v, field = u ++ v → v ≠ [] → ¬sep <+: v ++ (sep ++ rest)) (hsep : sep ≠ []) :
    partition sep (field ++ (sep ++ rest)) = some (field, rest) := by
  induction field with
  | nil =>
    obtain ⟨c, sep, rfl⟩ := List.exists_cons_of_ne_nil hsep
    have hprefix : (c :: sep).isPrefixOf (c :: (sep ++ rest)) = true :=
      List.isPrefixOf_iff_prefix.mpr ⟨rest, rfl⟩
    rw [List.nil_append, List.cons_append, partition, if_pos hprefix]
    simp
  | cons c field ih =>
    have hnot : ¬sep.isPrefixOf (c :: (field ++ (sep ++ rest))) = true := by
      rw [List.isPrefixOf_iff_prefix]
      exact h [] (c :: field) rfl (List.cons_ne_nil _ _)
    rw [List.cons_append, partition, if_neg hnot, ih fun u v huv hv => h (c :: u) v (by rw [huv]; rfl) hv]
    rfl

theorem partition_singleton (h : c ∉ field) (rest : Str) :
    partition [c] (field ++ c :: rest) = some (field, rest) := by
  change partition [c] (field ++ ([c] ++ rest)) = _
  apply partition_append
  · rintro u v rfl hv ⟨t, ht⟩
    obtain ⟨d, v, rfl⟩ := List.exists_cons_of_ne_nil hv
    obtain ⟨rfl, -⟩ := List.cons.inj ht
    exact h (by simp)
  · exact List.cons_ne_nil _ _

theorem partition_pair (hne : c ≠ c') (h : ¬[c, c'] <:+: field) (rest : Str) :
    partition [c, c'] (field ++ c :: c' :: rest) = some (field, rest) := by
  change partition [c, c'] (field ++ ([c, c'] ++ rest)) = _
  apply partition_append
  · rintro u v rfl hv ⟨t, ht⟩
    obtain ⟨d, v, rfl⟩ := List.exists_cons_of_ne_nil hv
    obtain ⟨hd, htail⟩ := List.cons.inj ht
    subst hd
    cases v with
    | nil =>
      obtain ⟨heq, -⟩ := List.cons.inj htail
      exact hne heq.symm
    | cons e v =>
      obtain ⟨he, -⟩ := List.cons.inj htail
      subst he
      exact h ⟨u, v, by simp⟩
  · exact List.cons_ne_nil _ _

/-- A separator that occurs is found, and no later than where it occurs. -/
theorem exists_partition (hsep : sep ≠ []) (field rest : Str) :
    ∃ first left, partition sep (field ++ (sep ++ rest)) = some (first, left) ∧ rest <:+ left := by
  induction field with
  | nil =>
    refine ⟨[], rest, partition_append (fun u v huv hv => ?_) hsep, List.suffix_rfl⟩
    exact absurd (List.append_eq_nil_iff.mp huv.symm).2 hv
  | cons c field ih =>
    by_cases hprefix : sep.isPrefixOf (c :: (field ++ (sep ++ rest))) = true
    · refine ⟨[], (c :: (field ++ (sep ++ rest))).drop sep.length, ?_, ?_⟩
      · rw [List.cons_append, partition, if_pos hprefix]
      · obtain ⟨n, hn⟩ := Nat.exists_eq_succ_of_ne_zero (List.length_pos_iff.mpr hsep).ne'
        rw [hn, List.drop_succ_cons, ← List.append_assoc]
        have hle : n ≤ (field ++ sep).length := by
          rw [List.length_append]
          omega
        rw [List.drop_append_of_le_length hle]
        exact List.suffix_append _ _
    · obtain ⟨first, left, hfirst, hsuffix⟩ := ih
      refine ⟨c :: first, left, ?_, hsuffix⟩
      rw [List.cons_append, partition, if_neg hprefix, hfirst]
      rfl

end WorkerHarness.TextLines
