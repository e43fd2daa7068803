import Mathlib.Data.List.Basic
import Mathlib.Logic.Function.Basic

/-!
# Shell lines that only split into words

What a shell makes of a line without expansions, operators and comments: its words, with the quotes removed.
Anything else is left undefined, so that a line with a meaning here has the same meaning in every POSIX shell.
Quoting a text spells it as a word of its own.
-/

namespace WorkerHarness.ShellWords

abbrev Text := List Char

def isBlank (c : Char) : Bool := c = ' ' || c = '\t'

/-- What means more to a shell than itself, at least in some places and in some shells. -/
def special : Text :=
  ['|', '&', ';', '<', '>', '(', ')', '$', Char.ofNat 96, '\\', '"', '\'', ' ', '\t', '\n', '*', '?', '[', ']', '#',
    '~', '{', '}',
    '!', '^', '\x00']

def expanding : Text := ['$', Char.ofNat 96, '\\', '!', '\x00']

/-- Where the reader stands, with what it has of the current word. -/
inductive Mode where
  | between
  | word (w : Text)
  | single (w : Text)
  | double (w : Text)
  deriving DecidableEq, Repr

/-- The words up to the end of the line. -/
def read : Mode → Text → Option (List Text)
  | .between, [] => some []
  | .word w, [] => some [w]
  | .single _, [] => none
  | .double _, [] => none
  | .between, c :: cs =>
    if c = '\n' then some []
    else if isBlank c then read .between cs
    else if c = '\'' then read (.single []) cs
    else if c = '"' then read (.double []) cs
    else if c ∈ special then none
    else read (.word [c]) cs
  | .word w, c :: cs =>
    if c = '\n' then some [w]
    else if isBlank c then (read .between cs).map (w :: ·)
    else if c = '\'' then read (.single w) cs
    else if c = '"' then read (.double w) cs
    else if c ∈ special then none
    else read (.word (w ++ [c])) cs
  | .single w, c :: cs =>
    if c = '\'' then read (.word w) cs else if c = '\x00' then none else read (.single (w ++ [c])) cs
  | .double w, c :: cs =>
    if c = '"' then read (.word w) cs else if c ∈ expanding then none else read (.double (w ++ [c])) cs

def words (text : Text) : Option (List Text) := read .between text

structure Spells (text word : Text) : Prop where
  start : ∀ rest, read .between (text ++ rest) = read (.word word) rest
  within : ∀ w rest, read (.word w) (text ++ rest) = read (.word (w ++ word)) rest

variable {text text' word word' s : Text} {c : Char}

theorem Spells.append (h : Spells text word) (h' : Spells text' word') :
    Spells (text ++ text') (word ++ word') where
  start rest := by rw [List.append_assoc, h.start, h'.within]
  within w rest := by rw [List.append_assoc, h.within, h'.within, List.append_assoc]

theorem read_word_plain (hc : c ∉ special) (w rest : Text) :
    read (.word w) (c :: rest) = read (.word (w ++ [c])) rest := by
  simp only [special, List.mem_cons, List.not_mem_nil, or_false, not_or] at hc
  simp [read, isBlank, special, hc]

theorem read_between_plain (hc : c ∉ special) (rest : Text) :
    read .between (c :: rest) = read (.word [c]) rest := by
  simp only [special, List.mem_cons, List.not_mem_nil, or_false, not_or] at hc
  simp [read, isBlank, special, hc]

theorem read_plain (hs : ∀ c ∈ s, c ∉ special) (w rest : Text) :
    read (.word w) (s ++ rest) = read (.word (w ++ s)) rest := by
  induction s generalizing w with
  | nil => simp
  | cons c s ih =>
    rw [List.cons_append, read_word_plain (hs c (by simp)), ih fun d hd => hs d (by simp [hd])]
    simp

/-- A text without special characters spells itself. -/
theorem spells_plain (hne : s ≠ []) (hs : ∀ c ∈ s, c ∉ special) : Spells s s where
  within w rest := read_plain hs w rest
  start rest := by
    cases s with
    | nil => exact absurd rfl hne
    | cons c s =>
      rw [List.cons_append, read_between_plain (hs c (by simp)), read_plain fun d hd => hs d (by simp [hd])]
      rfl

def plain (s : Text) : Bool := !s.isEmpty && s.all fun c => !special.contains c

theorem spells_of_plain (h : plain s = true) : Spells s s := by
  obtain ⟨hne, hall⟩ := Bool.and_eq_true_iff.mp h
  refine spells_plain (by simpa using hne) fun c hc => ?_
  simpa using List.all_eq_true.mp hall c hc

/-- Words separated by blanks. -/
theorem read_spelled {pairs : List (Text × Text)} (h : ∀ p ∈ pairs, Spells p.1 p.2) {rest : Text}
    (hrest : ∀ w, read (.word w) rest = some [w]) (hend : read .between rest = some []) :
    read .between ([' '].intercalate (pairs.map Prod.fst) ++ rest) = some (pairs.map Prod.snd) := by
  induction pairs with
  | nil => exact hend
  | cons p pairs ih =>
    have hp := h p (List.mem_cons_self ..)
    cases pairs with
    | nil =>
      rw [List.map_singleton, List.intercalate_singleton, hp.start, hrest]
      rfl
    | cons q pairs =>
      have hblank : ∀ w cs, read (.word w) (' ' :: cs) = (read .between cs).map (w :: ·) := fun w cs => rfl
      have hq := ih fun p' hp' => h p' (List.mem_cons_of_mem _ hp')
      rw [List.map_cons, List.map_cons, List.intercalate_cons_cons, ← List.map_cons (f := Prod.fst),
        List.append_assoc,
        List.append_assoc, hp.start]
      change read (.word p.2) (' ' :: ([' '].intercalate _ ++ rest)) = _
      rw [hblank, hq]
      rfl

def safe (c : Char) : Bool := c.isAlphanum || c ∈ ['_', '@', '%', '+', '=', ':', ',', '.', '/', '-']

def escape (c : Char) : Text := if c = '\'' then ['\'', '"', '\'', '"', '\''] else [c]

def quote (s : Text) : Text :=
  if s = [] then ['\'', '\''] else if s.all safe then s else '\'' :: (s.flatMap escape ++ ['\''])

theorem not_special_of_safe (hc : safe c = true) : c ∉ special := by
  intro hmem
  have hnone : special.all (fun c => !safe c) = true := by decide
  have hunsafe := List.all_eq_true.mp hnone c hmem
  rw [hc] at hunsafe
  cases hunsafe

theorem read_escape (hc : c ≠ '\x00') (w rest : Text) :
    read (.single w) (escape c ++ rest) = read (.single (w ++ [c])) rest := by
  unfold escape
  split
  · next heq =>
    subst heq
    rfl
  · next hne => simp [read, hne, hc]

theorem read_escaped (hs : '\x00' ∉ s) (w rest : Text) :
    read (.single w) (s.flatMap escape ++ rest) = read (.single (w ++ s)) rest := by
  induction s generalizing w with
  | nil => simp
  | cons c s ih =>
    have hc : c ≠ '\x00' := fun heq => hs (heq ▸ List.mem_cons_self ..)
    rw [List.flatMap_cons, List.append_assoc, read_escape hc, ih fun hmem => hs (List.mem_cons_of_mem _ hmem)]
    simp

/-- Quoting spells every text. -/
theorem spells_quote (hs : '\x00' ∉ s) : Spells (quote s) s := by
  unfold quote
  split
  · next hempty =>
    subst hempty
    exact ⟨fun rest => rfl, fun w rest => by simp [read, isBlank]⟩
  · next hne =>
    split
    · next hsafe => exact spells_plain hne fun c hc => not_special_of_safe (List.all_eq_true.mp hsafe c hc)
    · have hquoted : ∀ w rest, read (.single w) (s.flatMap escape ++ ['\''] ++ rest) =
        read (.word (w ++ s)) rest := by
        intro w rest
        rw [List.append_assoc, read_escaped hs]
        rfl
      exact ⟨fun rest => hquoted [] rest, fun w rest => hquoted w rest⟩

theorem words_quoted {args : List Text} (h : ∀ a ∈ args, '\x00' ∉ a) :
    words ([' '].intercalate (args.map quote)) = some args := by
  have hpairs : ∀ p ∈ args.map fun a => (quote a, a), Spells p.1 p.2 := by
    intro p hp
    obtain ⟨a, ha, rfl⟩ := List.mem_map.mp hp
    exact spells_quote (h a ha)
  have hstop : ∀ w, read (.word w) [] = some [w] := fun _ => rfl
  have hread := read_spelled hpairs hstop rfl
  rw [List.append_nil, List.map_map, List.map_map] at hread
  have hid : (Prod.snd ∘ fun a : Text => (quote a, a)) = id := rfl
  rw [hid, List.map_id] at hread
  exact hread

end WorkerHarness.ShellWords
