import Mathlib.Data.List.Basic
import Mathlib.Logic.Function.Basic

/-!
# The `env` utility

`env` takes options, then assignments, then a command with its arguments, and starts the command with the changed
environment. Of the options only `-u` is modelled.
-/

namespace WorkerHarness.EnvCommand

abbrev Text := List Char

abbrev Environment := Text → Option Text

/-- A program as it is started. -/
structure Process where
  argv : List Text
  environment : Environment

def isAssignment (word : Text) : Bool := word.contains '='

/-- From the first operand on: assignments, and then the command. -/
def operands : List Text → Environment → Option Process
  | [], _ => none
  | word :: rest, e =>
    if isAssignment word then
      if word.head? = some '=' then none
      else operands rest (Function.update e (word.takeWhile (· ≠ '=')) (some ((word.dropWhile (· ≠ '=')).drop 1)))
    else some ⟨word :: rest, e⟩

def unsetOption : Text := ['-', 'u']

def env : List Text → Environment → Option Process
  | option :: name :: rest, e =>
    if option = unsetOption then if name = [] ∨ isAssignment name then none else env rest
      (Function.update e name none)
    else if option.head? = some '-' then none
    else operands (option :: name :: rest) e
  | words, e => if (words.head?.bind List.head?) = some '-' then none else operands words e

def unsets (names : List Text) : List Text := names.flatMap fun name => [unsetOption, name]

def assigns (values : List (Text × Text)) : List Text := values.map fun m => m.1 ++ '=' :: m.2

/-- A name that can be assigned and unset. -/
structure IsName (name : Text) : Prop where
  ne_nil : name ≠ []
  not_assignment : '=' ∉ name

variable {name value word : Text} {names rest argv : List Text} {values : List (Text × Text)} {e : Environment}

theorem env_unsets (h : ∀ name ∈ names, IsName name) (rest : List Text) (e : Environment) :
    env (unsets names ++ rest) e = env rest
    (names.foldl (fun (e : Environment) name => Function.update e name none) e) := by
  induction names generalizing e with
  | nil => rfl
  | cons name names ih =>
    have hname := h name (List.mem_cons_self ..)
    have hvalid : ¬(name = [] ∨ isAssignment name = true) := by
      simp [isAssignment, hname.ne_nil, hname.not_assignment]
    change env (unsetOption :: name :: (unsets names ++ rest)) e = _
    rw [env, if_pos rfl, if_neg hvalid, ih fun n hn => h n (List.mem_cons_of_mem _ hn)]
    rfl

theorem operands_assign (hname : IsName name) (value : Text) (rest : List Text) (e : Environment) :
    operands ((name ++ '=' :: value) :: rest) e = operands rest (Function.update e name (some value)) := by
  have hassignment : isAssignment (name ++ '=' :: value) = true := by simp [isAssignment]
  have hhead : (name ++ '=' :: value).head? ≠ some '=' := by
    cases name with
    | nil => exact absurd rfl hname.ne_nil
    | cons c cs =>
      intro heq
      have hc : c = '=' := Option.some.inj heq
      exact hname.not_assignment (hc ▸ List.mem_cons_self ..)
  have hall : ∀ c ∈ name, (decide (c ≠ '=')) = true :=
    fun c hc => decide_eq_true fun heq => hname.not_assignment (heq ▸ hc)
  have htake : (name ++ '=' :: value).takeWhile (fun c => decide (c ≠ '=')) = name := by
    rw [List.takeWhile_append_of_pos hall]
    simp
  have hdrop : ((name ++ '=' :: value).dropWhile fun c => decide (c ≠ '=')) = '=' :: value := by
    rw [List.dropWhile_append_of_pos hall]
    simp
  rw [operands, if_pos hassignment, if_neg hhead, htake, hdrop]
  rfl

theorem operands_assigns (h : ∀ m ∈ values, IsName m.1) (rest : List Text) (e : Environment) :
    operands (assigns values ++ rest) e =
      operands rest (values.foldl (fun (e : Environment) m => Function.update e m.1 (some m.2)) e) := by
  induction values generalizing e with
  | nil => rfl
  | cons m values ih =>
    change operands ((m.1 ++ '=' :: m.2) :: (assigns values ++ rest)) e = _
    rw [operands_assign (h m (List.mem_cons_self ..)), ih fun m' hm' => h m' (List.mem_cons_of_mem _ hm')]
    rfl

theorem operands_command (hword : '=' ∉ word) (rest : List Text) (e : Environment) :
    operands (word :: rest) e = some ⟨word :: rest, e⟩ := by
  rw [operands, if_neg (by simpa [isAssignment] using hword)]

/-- Where there are operands, `env` takes no more options. -/
theorem env_operand (hword : word.head? ≠ some '-') (rest : List Text) (e : Environment) :
    env (word :: rest) e = operands (word :: rest) e := by
  have hoption : word ≠ unsetOption := by
    rintro rfl
    exact hword rfl
  cases rest with
  | nil =>
    have hhead : (([word] : List Text).head?.bind List.head?) ≠ some '-' := hword
    rw [env, if_neg hhead]
    exact fun _ _ _ heq => by cases heq
  | cons name rest => rw [env, if_neg hoption, if_neg hword]

/-- A command is among the operands. -/
theorem length_argv_le {p : Process} (h : operands argv e = some p) : p.argv.length ≤ argv.length := by
  induction argv generalizing e with
  | nil => cases h
  | cons word rest ih =>
    rw [operands] at h
    split at h
    · split at h
      · cases h
      · exact Nat.le_succ_of_le (ih h)
    · cases h
      exact Nat.le_refl _

/-- An operand with an equals sign is no command. -/
theorem length_argv_lt {p : Process} (hword : '=' ∈ word) (h : operands (word :: rest) e = some p) :
    p.argv.length ≤ rest.length := by
  rw [operands, if_pos (by simpa [isAssignment] using hword)] at h
  split at h
  · cases h
  · exact length_argv_le h

theorem foldl_unset (names : List Text) (e : Environment) (name : Text) :
    names.foldl (fun (e : Environment) n => Function.update e n none) e name =
    if name ∈ names then none else e name := by
  induction names generalizing e with
  | nil => rfl
  | cons n names ih =>
    rw [List.foldl_cons, ih]
    by_cases hname : name = n
    · subst hname
      simp
    · simp [hname]

theorem foldl_assign (hnodup : (values.map Prod.fst).Nodup) (e : Environment) (name : Text) :
    values.foldl (fun (e : Environment) m => Function.update e m.1 (some m.2)) e name =
    (values.lookup name).or (e name) := by
  induction values generalizing e with
  | nil => simp
  | cons m values ih =>
    obtain ⟨hnew, hrest⟩ := List.nodup_cons.mp hnodup
    rw [List.foldl_cons, ih hrest]
    by_cases hname : name = m.1
    · subst hname
      have hnone : values.lookup m.1 = none := by
        rw [List.lookup_eq_none_iff]
        intro m' hm'
        rw [bne_iff_ne]
        exact fun heq => hnew (heq ▸ List.mem_map_of_mem hm')
      rw [hnone, List.lookup_cons, beq_self_eq_true]
      simp
    · have hbeq : (name == m.1) = false := beq_eq_false_iff_ne.mpr hname
      rw [List.lookup_cons, hbeq, Function.update_of_ne hname]

end WorkerHarness.EnvCommand
