import Mathlib.Data.List.Basic
import Mathlib.Tactic.SplitIfs

/-!
# Lexical structure of shell text

Shell text as a sequence of words, operators, blanks and newlines, with quotes, backslashes and comments,
and the statements that parentheses, semicolons and newlines make of it. Here-documents, substitutions within
double quotes and reserved words are not looked at.
-/

namespace WorkerHarness.ShellLexing

/-- A word keeps its quotes. -/
inductive Token where
  | word (text : List Char)
  | op (c : Char)
  | lparen
  | rparen
  | semicolon
  | newline
  | blank
  deriving DecidableEq, Repr

/-- Where the lexer stands, with what it has of the current word. -/
inductive State where
  | unquoted (text : List Char)
  | escaped (text : List Char)
  | single (text : List Char)
  | double (text : List Char)
  | doubleEscaped (text : List Char)
  | comment
  deriving DecidableEq, Repr

def start : State := .unquoted []

def flush (text : List Char) : List Token := if text = [] then [] else [.word text]

/-- The characters that end a word. -/
def separator? : Char → Option Token
  | '(' => some .lparen
  | ')' => some .rparen
  | ';' => some .semicolon
  | '\n' => some .newline
  | ' ' => some .blank
  | '\t' => some .blank
  | '&' => some (.op '&')
  | '|' => some (.op '|')
  | '<' => some (.op '<')
  | '>' => some (.op '>')
  | _ => none

def step : State → Char → List Token × State
  | .unquoted text, c =>
    if c = '\'' then ([], .single (text ++ [c]))
    else if c = '"' then ([], .double (text ++ [c]))
    else if c = '\\' then ([], .escaped text)
    else if c = '#' ∧ text = [] then ([], .comment)
    else
      match separator? c with
      | some t => (flush text ++ [t], start)
      | none => ([], .unquoted (text ++ [c]))
  -- An escaped newline continues the line.
  | .escaped text, c => ([], if c = '\n' then .unquoted text else .unquoted (text ++ ['\\', c]))
  | .single text, c => ([], if c = '\'' then .unquoted (text ++ [c]) else .single (text ++ [c]))
  | .double text, c =>
    ([], if c = '"' then .unquoted (text ++ [c]) else if c = '\\' then .doubleEscaped (text ++ [c]) else .double
      (text ++ [c]))
  | .doubleEscaped text, c => ([], .double (text ++ [c]))
  | .comment, c => if c = '\n' then ([.newline], start) else ([], .comment)

def run : State → List Char → List Token × State
  | s, [] => ([], s)
  | s, c :: cs => ((step s c).1 ++ (run (step s c).2 cs).1, (run (step s c).2 cs).2)

theorem run_append (s : State) (cs cs' : List Char) :
    run s (cs ++ cs') = ((run s cs).1 ++ (run (run s cs).2 cs').1, (run (run s cs).2 cs').2) := by
  induction cs generalizing s with
  | nil => rfl
  | cons c cs ih => simp only [List.cons_append, run, ih, List.append_assoc]

theorem run_seq {s s' s'' : State} {cs cs' : List Char} {ts ts' : List Token} (h : run s cs = (ts, s'))
    (h' : run s' cs' = (ts', s'')) : run s (cs ++ cs') = (ts ++ ts', s'') := by
  rw [run_append, h, h']

def finish : State → Option (List Token)
  | .unquoted text => some (flush text)
  | .comment => some []
  | _ => none

def tokens? (text : List Char) : Option (List Token) := (finish (run start text).2).map ((run start text).1 ++ ·)

def Ordinary (c : Char) : Prop := c ∉ ['\'', '"', '\\', '#'] ∧ separator? c = none

instance : DecidablePred Ordinary := fun _ => inferInstanceAs (Decidable (_ ∧ _))

theorem step_ordinary {c : Char} (hc : Ordinary c) (text : List Char) :
    step (.unquoted text) c = ([], .unquoted (text ++ [c])) := by
  have hne := hc.1
  simp only [List.mem_cons, List.not_mem_nil, or_false, not_or] at hne
  simp [step, hne, hc.2]

theorem run_ordinary {cs : List Char} (hcs : ∀ c ∈ cs, Ordinary c) (text : List Char) :
    run (.unquoted text) cs = ([], .unquoted (text ++ cs)) := by
  induction cs generalizing text with
  | nil => simp [run]
  | cons c cs ih =>
    have hc := step_ordinary (hcs c (List.mem_cons_self ..)) text
    simp only [run, hc, ih fun d hd => hcs d (List.mem_cons_of_mem _ hd)]
    simp

def depth : ℕ → List Token → Option ℕ
  | n, [] => some n
  | n, .lparen :: ts => depth (n + 1) ts
  | 0, .rparen :: _ => none
  | n + 1, .rparen :: ts => depth n ts
  | n, _ :: ts => depth n ts

/-- The statements, without the blanks around them. A newline or semicolon ends one that has no open
parenthesis. -/
def statements : ℕ → List Token → List Token → Option (List (List Token))
  | 0, acc, [] => some [acc]
  | _ + 1, _, [] => none
  | 0, acc, .newline :: ts => (statements 0 [] ts).map (acc :: ·)
  | 0, acc, .semicolon :: ts => (statements 0 [] ts).map (acc :: ·)
  | 0, acc, .blank :: ts => statements 0 acc ts
  | 0, _, .rparen :: _ => none
  | n + 1, acc, .rparen :: ts => statements n (acc ++ [.rparen]) ts
  | n, acc, .lparen :: ts => statements (n + 1) (acc ++ [.lparen]) ts
  | n, acc, t :: ts => statements n (acc ++ [t]) ts

/-- What is in parentheses, if the statement is one pair of parentheses. -/
def group? : List Token → Option (List Token)
  | .lparen :: ts => if ts.getLast? = some .rparen ∧ depth 0 ts.dropLast = some 0 then some ts.dropLast else none
  | _ => none

def HasCommand (ts : List Token) : Prop := ∃ t ∈ ts, t ≠ .blank ∧ t ≠ .newline

instance : DecidablePred HasCommand := fun _ => inferInstanceAs (Decidable (∃ _ ∈ _, _))

inductive Statement where
  | simple (ts : List Token)
  | subshell (body : List Token)
  | arithmetic (body : List Token)
  deriving DecidableEq, Repr

/-- `((` and `))` around a statement make an arithmetic command of it. -/
def statement? (ts : List Token) : Option Statement :=
  match group? ts with
  | none => some (.simple ts)
  | some body =>
    if (group? body).isSome then some (.arithmetic body)
    else if HasCommand body then some (.subshell body)
    else none

def parse (text : List Char) : Option (List Statement) := do
  let ts ← tokens? text
  let sts ← statements 0 [] ts
  (sts.filter (· ≠ [])).mapM statement?

/-- Inside of a group, tokens are collected. -/
theorem statements_group {body : List Token} {d e : ℕ} (h : depth d body = some e) (acc rest : List Token) :
    statements (d + 1) acc (body ++ rest) = statements (e + 1) (acc ++ body) rest := by
  induction body generalizing d acc with
  | nil =>
    cases h
    simp
  | cons t body ih =>
    rw [List.append_cons]
    cases t with
    | rparen =>
      cases d with
      | zero => cases h
      | succ d => exact ih h _
    | _ => exact ih h _

/-- A group that is not closed is no statement. -/
theorem statements_unclosed {ts : List Token} (h : Token.rparen ∉ ts) (n : ℕ) (acc : List Token) :
    statements (n + 1) acc ts = none := by
  induction ts generalizing n acc with
  | nil => rfl
  | cons t ts ih =>
    have hts : Token.rparen ∉ ts := fun hmem => h (List.mem_cons_of_mem _ hmem)
    cases t with
    | rparen => exact absurd (List.mem_cons_self ..) h
    | _ => simp only [statements, ih hts]

theorem group_parentheses {body : List Token} (h : depth 0 body = some 0) :
    group? (.lparen :: (body ++ [.rparen])) = some body := by
  have hclosed : (body ++ [Token.rparen]).getLast? = some .rparen ∧
    depth 0 (body ++ [Token.rparen]).dropLast = some 0 :=
    ⟨by simp, by simpa using h⟩
  rw [group?, if_pos hclosed, List.dropLast_concat]

/-- Parentheses around a complete list make a subshell, or an arithmetic command. -/
theorem statement_parentheses {body : List Token} (h : depth 0 body = some 0) (hcommand : HasCommand body) :
    statement? (.lparen :: (body ++ [.rparen])) =
      some (if (group? body).isSome then .arithmetic body else .subshell body) := by
  simp only [statement?, group_parentheses h, if_pos hcommand]
  split <;> rfl

structure Shell where
  last : ℕ := 0
  vars : List Char → List Char := fun _ => []
  output : List (List Char) := []

def Shell.value (shell : Shell) (name : List Char) : List Char :=
  if name = ['?'] then (toString shell.last).toList else shell.vars name

def isNameChar (c : Char) : Bool := c.isAlphanum || c = '_'

/-- `$name` and `$?`, with the rest of a name that is still to be skipped. -/
def expand (value : List Char → List Char) : ℕ → List Char → List Char
  | _, [] => []
  | skip + 1, _ :: cs => expand value skip cs
  | 0, c :: cs =>
    if c = '$' then
      let name := if cs.head? = some '?' then ['?'] else cs.takeWhile isNameChar
      if name = [] then c :: expand value 0 cs else value name ++ expand value name.length cs
    else c :: expand value 0 cs

def assignment? (text : List Char) : Option (List Char × List Char) :=
  let name := text.takeWhile isNameChar
  match text.drop name.length with
  | '=' :: value => if name = [] then none else some (name, value)
  | _ => none

/-- What a statement does, if commands in parentheses and arithmetic commands end with the given status. Of the
other commands only `echo` counts. -/
def Shell.exec (status : List Token → ℕ) (shell : Shell) : Statement → Shell
  | .subshell body => { shell with last := status body }
  | .arithmetic body => { shell with last := status body }
  | .simple [.word text] =>
    match assignment? text with
    | some (name, value) =>
      { shell with
        last := 0
        vars := fun name' => if name' = name then expand shell.value 0 value else shell.vars name' }
    | none => { shell with last := 0 }
  | .simple [.word command, .word text] =>
    if command = "echo".toList then { shell with last := 0, output := shell.output ++ [expand shell.value 0 text] }
    else { shell with last := 0 }
  | _ => { shell with last := 0 }

/-- The lines that a script prints. -/
def printed (status : List Token → ℕ) (text : List Char) : Option (List (List Char)) :=
  (parse text).map fun sts => (sts.foldl (Shell.exec status) {}).output

end WorkerHarness.ShellLexing
