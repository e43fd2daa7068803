import WorkerHarness.Base64
import WorkerHarness.BashStrings

/-!
# The forced-command shim

The script that runs on a herdr machine in place of the requested command. The model is a function
of the command and of what the script finds on the machine, and it keeps the list of what the script
does to the machine.
-/

namespace WorkerHarness.RemoteShim

open BashStrings

/-- What the script finds on the machine: the environment, what `realpath`, `base64 -d` and `dirname`
answer, what files contain, and where `mkdir -p` succeeds. -/
structure ShimHost where
  home : Bytes
  realpathExisting : Bytes → Option Bytes
  realpathMissing : Bytes → Option Bytes
  base64Decode : Bytes → Option Bytes
  dirname : Bytes → Bytes
  content : Bytes → Bytes
  mkdir : Bytes → Bool

/-- What the script does on behalf of a verb. -/
inductive Action where
  | mkdir (path : Bytes)
  | read (path : Bytes)
  | write (path : Bytes)
  | exec (argv : List Bytes)
  deriving DecidableEq

/-- How the script ends: it refuses with status 2, fails under `set -e`, or becomes another program. -/
inductive Exit where
  | refused (message : Bytes)
  | failed
  | replaced
  deriving DecidableEq

def ShimM (α : Type) : Type := List Action → Except Exit α × List Action

namespace ShimM

variable {α β : Type}

def pure (a : α) : ShimM α := fun log => (.ok a, log)

def throw (e : Exit) : ShimM α := fun log => (.error e, log)

def record (action : Action) : ShimM Unit := fun log => (.ok (), log ++ [action])

def bind (p : ShimM α) (f : α → ShimM β) : ShimM β := fun log =>
  match p log with
  | (.ok a, log') => f a log'
  | (.error e, log') => (.error e, log')

instance : Monad ShimM where
  pure := pure
  bind := bind

end ShimM

open ShimM

variable {α : Type}

def refuse (message : Bytes) : ShimM α := throw (.refused (utf8 "wh-remote-shim: refused: " ++ message))

/-- `exec`: the last thing the script does. -/
def exec (argv : List Bytes) : ShimM Unit := do
  record (.exec argv)
  throw .replaced

def mkdirParents (host : ShimHost) (path : Bytes) : ShimM Unit := do
  record (.mkdir path)
  if host.mkdir path then return () else throw .failed

/-- `require_argc` where the number is wrong. -/
def wrongArgc (want : ℕ) (args : List Bytes) : ShimM Unit :=
  refuse (utf8 ("expected " ++ toString want ++ " argument(s), got " ++ toString args.length))

def requireBeneath (host : ShimHost) (path root : Bytes) : ShimM Unit :=
  if utf8 ".." <:+: path then refuse (utf8 "path traversal in argument")
  else if ¬Beneath root path then refuse (utf8 "path outside " ++ root ++ utf8 ": " ++ path)
  else
    match host.realpathMissing path with
    | none => refuse (utf8 "cannot resolve path: " ++ path)
    | some resolved =>
      if Beneath root (commandSubstitution (resolved ++ [newline])) then return ()
      else refuse (utf8 "resolved path outside " ++ root ++ utf8 ": " ++ path)

def cacheRoot (host : ShimHost) : Bytes := host.home ++ utf8 "/.cache/worker-harness"

def requireCachePath (host : ShimHost) (path : Bytes) : ShimM Unit := requireBeneath host path (cacheRoot host)

def requirePattern (value : Bytes) (pattern : Bytes → Bool) (label : String) : ShimM Unit :=
  if pattern value then return () else refuse (utf8 ("invalid " ++ label ++ ": ") ++ value)

/-- A byte of `[A-Za-z0-9_]`. -/
def isNameByte (b : UInt8) : Bool :=
  (65 ≤ b && b ≤ 90) || (97 ≤ b && b ≤ 122) || (48 ≤ b && b ≤ 57) || b = 95

/-- A byte of a slug after the first: also `.` and `-`. -/
def isSlugByte (b : UInt8) : Bool := isNameByte b || b = 46 || b = 45

/-- A byte of a reference after the first: also `.`, `-` and a slash. -/
def isRefByte (b : UInt8) : Bool := isSlugByte b || b = slash

/-- The pattern of `require_ref`. -/
def refPattern : Bytes → Bool
  | [] => false
  | b :: rest => isNameByte b && rest.all isRefByte

def slugName : Bytes → Bool
  | [] => false
  | b :: rest => isNameByte b && rest.all isSlugByte

def slugPattern (value : Bytes) : Bool :=
  match value.splitOn slash with
  | [owner, name] => slugName owner && slugName name
  | _ => false

/-- `^[0-9]+$` -/
def offsetPattern (value : Bytes) : Bool := value ≠ [] && value.all fun b => 48 ≤ b && b ≤ 57

def requireRef (value : Bytes) (label : String) : ShimM Unit := do
  requirePattern value refPattern label
  if utf8 ".." <:+: value then refuse (utf8 ("invalid " ++ label ++ ": ") ++ value) else return ()

def b64 : Bytes := utf8 "b64:"

/-- One token of `decode_args`. -/
def decodeToken (host : ShimHost) (token : Bytes) : ShimM Bytes :=
  if b64 <+: token then
    match host.base64Decode (removePrefix b64 token) with
    | none => refuse (utf8 "invalid base64 argument")
    | some output =>
      -- The sentinel keeps trailing newlines.
      let value := removeSuffix (utf8 ".") (commandSubstitution (output ++ utf8 "."))
      if commandSubstitution (Base64.encode value) = removePrefix b64 token then return value
      else refuse (utf8 "invalid base64 argument")
  else return token

def decodeArgs (host : ShimHost) : List Bytes → ShimM (List Bytes)
  | [] => return []
  | token :: tokens => do
    let value ← decodeToken host token
    let decoded ← decodeArgs host tokens
    return value :: decoded

def readArguments (host : ShimHost) (original : Bytes) : ShimM (Bytes × List Bytes) :=
  match words original with
  | [] => refuse (utf8 "empty command")
  | verb :: tokens => do
    let decoded ← decodeArgs host tokens
    return (verb, decoded)

def requireOneLine (original : Bytes) : ShimM Unit :=
  if original = [] then refuse (utf8 "no command")
  else if newline ∈ original ∨ 13 ∈ original then refuse (utf8 "multiline command")
  else return ()

section Verbs

variable (host : ShimHost) (homeRoot : Bytes)

def requireHomePath (path : Bytes) : ShimM Unit := requireBeneath host path homeRoot

def herdr (args : List Bytes) : ShimM Unit :=
  if args = [] then refuse (utf8 "herdr needs a subcommand")
  else exec (utf8 "herdr" :: utf8 "--session" :: utf8 "wh" :: args)

def herdrUp : List Bytes → ShimM Unit
  | [] => exec [utf8 "systemctl", utf8 "--user", utf8 "start", utf8 "herdr-wh"]
  | args => wrongArgc 0 args

def worktreeAdd : List Bytes → ShimM Unit
  | [repo, branch, base, destination] => do
    requireHomePath host homeRoot repo
    requireCachePath host destination
    requireRef branch "branch"
    requireRef base "base ref"
    mkdirParents host (host.dirname destination)
    exec [utf8 "git", utf8 "-C", repo, utf8 "worktree", utf8 "add", utf8 "-b", branch, utf8 "--", destination, base]
  | args => wrongArgc 4 args

def worktreeRemove : List Bytes → ShimM Unit
  | [repo, worktree] => do
    requireHomePath host homeRoot repo
    requireCachePath host worktree
    exec [utf8 "git", utf8 "-C", repo, utf8 "worktree", utf8 "remove", utf8 "--force", utf8 "--", worktree]
  | args => wrongArgc 2 args

def branchDelete : List Bytes → ShimM Unit
  | [repo, branch] => do
    requireHomePath host homeRoot repo
    requireRef branch "branch"
    exec [utf8 "git", utf8 "-C", repo, utf8 "branch", utf8 "-D", utf8 "--", branch]
  | args => wrongArgc 2 args

def push : List Bytes → ShimM Unit
  | [repo, branch] => do
    requireHomePath host homeRoot repo
    requireRef branch "branch"
    exec [utf8 "git", utf8 "-C", repo, utf8 "push", utf8 "-u", utf8 "--", utf8 "origin", branch]
  | args => wrongArgc 2 args

def prCreate : List Bytes → ShimM Unit
  | [slug, branch, base, title, body] => do
    requirePattern slug slugPattern "repo slug"
    requireRef branch "branch"
    requireRef base "base ref"
    requireCachePath host title
    requireCachePath host body
    record (.read title)
    exec [utf8 "gh", utf8 "pr", utf8 "create", utf8 "--repo", slug, utf8 "--head", branch, utf8 "--base", base,
      utf8 "--title", commandSubstitution (host.content title), utf8 "--body-file", body]
  | args => wrongArgc 5 args

def tail : List Bytes → ShimM Unit
  | [path, offset] => do
    requireHomePath host homeRoot path
    requirePattern offset offsetPattern "offset"
    exec [utf8 "tail", utf8 "-c", utf8 "+" ++ offset, utf8 "--", path]
  | args => wrongArgc 2 args

def writeFile : List Bytes → ShimM Unit
  | [path] => do
    requireCachePath host path
    mkdirParents host (host.dirname path)
    record (.write path)
    exec [utf8 "cat"]
  | args => wrongArgc 1 args

def rmFile : List Bytes → ShimM Unit
  | [path] => do
    requireCachePath host path
    exec [utf8 "rm", utf8 "-rf", utf8 "--", path]
  | args => wrongArgc 1 args

/-- `case "$verb" in`. -/
def runVerb (verb : Bytes) (args : List Bytes) : ShimM Unit :=
  if verb = utf8 "herdr" then herdr args
  else if verb = utf8 "herdr-up" then herdrUp args
  else if verb = utf8 "worktree-add" then worktreeAdd host homeRoot args
  else if verb = utf8 "worktree-remove" then worktreeRemove host homeRoot args
  else if verb = utf8 "branch-delete" then branchDelete host homeRoot args
  else if verb = utf8 "push" then push host homeRoot args
  else if verb = utf8 "pr-create" then prCreate host args
  else if verb = utf8 "tail" then tail host homeRoot args
  else if verb = utf8 "write-file" then writeFile host args
  else if verb = utf8 "rm-file" then rmFile host args
  else refuse (utf8 "unknown verb: " ++ verb)

end Verbs

/-- The script. -/
def remoteShim (host : ShimHost) (original : Bytes) : ShimM Unit := do
  requireOneLine original
  match host.realpathExisting host.home with
  | none => refuse (utf8 "cannot resolve HOME")
  | some home =>
    let (verb, args) ← readArguments host original
    runVerb host (commandSubstitution (home ++ [newline])) verb args

/-- The part of the script changes nothing: it returns what `Q` holds of, or it refuses. -/
def Checks (p : ShimM α) (Q : α → Prop) : Prop :=
  ∀ log, (∃ a, p log = (.ok a, log) ∧ Q a) ∨ ∃ message, p log = (.error (.refused message), log)

section Checks

variable {β : Type} {Q : α → Prop} {p : ShimM α} {f : α → ShimM β} {host : ShimHost} {path root value token : Bytes}

theorem bind_of_ok {log log' : List Action} {a : α} (h : p log = (.ok a, log')) : (p >>= f) log = f a log' := by
  change ShimM.bind p f log = _
  rw [ShimM.bind, h]

theorem bind_of_error {log log' : List Action} {e : Exit} (h : p log = (.error e, log')) :
    (p >>= f) log = (.error e, log') := by
  change ShimM.bind p f log = _
  rw [ShimM.bind, h]

theorem checks_pure {a : α} (ha : Q a) : Checks (Pure.pure a) Q := fun _ => .inl ⟨a, rfl, ha⟩

theorem checks_refuse (message : Bytes) : Checks (refuse message) Q := fun _ => .inr ⟨_, rfl⟩

theorem Checks.bind {R : β → Prop} (hp : Checks p Q) (hf : ∀ a, Q a → Checks (f a) R) : Checks (p >>= f) R := by
  intro log
  rcases hp log with ⟨a, hrun, ha⟩ | ⟨message, hrun⟩
  · rw [bind_of_ok hrun]
    exact hf a ha log
  · exact .inr ⟨message, bind_of_error hrun⟩

theorem checks_requireBeneath (hpath : ∀ p r, host.realpathMissing p = some r → Resolved r) (hroot : root ≠ []) :
    Checks (requireBeneath host path root) fun _ =>
      ¬utf8 ".." <:+: path ∧ Beneath root path ∧ ∃ resolved, host.realpathMissing path = some resolved ∧
        StrictlyBeneath root resolved := by
  unfold requireBeneath
  split
  · exact checks_refuse _
  · next hdots =>
    split
    · exact checks_refuse _
    · next hbeneath =>
      split
      · exact checks_refuse _
      · next resolved hresolved =>
        split
        · next hb => exact checks_pure ⟨hdots, not_not.mp hbeneath, resolved, hresolved,
            (hpath path resolved hresolved).strictlyBeneath hroot hb⟩
        · exact checks_refuse _

theorem checks_requirePattern (pattern : Bytes → Bool) (label : String) :
    Checks (requirePattern value pattern label) fun _ => pattern value = true := by
  unfold requirePattern
  split
  · next h => exact checks_pure h
  · exact checks_refuse _

theorem checks_requireRef (label : String) :
    Checks (requireRef value label) fun _ => refPattern value = true ∧ ¬utf8 ".." <:+: value := by
  refine (checks_requirePattern refPattern label).bind fun _ hpattern => ?_
  split
  · exact checks_refuse _
  · next hdots => exact checks_pure ⟨hpattern, hdots⟩

theorem checks_requireOneLine {original : Bytes} :
    Checks (requireOneLine original) fun _ => original ≠ [] ∧ newline ∉ original ∧ 13 ∉ original := by
  unfold requireOneLine
  split
  · exact checks_refuse _
  · next hne =>
    split
    · exact checks_refuse _
    · next hlines =>
      rw [not_or] at hlines
      exact checks_pure ⟨hne, hlines⟩

/-- A token stands for the argument: an encoded one for the argument that is encoded like this, and
any other for itself. -/
def StandsFor (token arg : Bytes) : Prop :=
  (∀ payload, token = b64 ++ payload → Base64.encode arg = payload) ∧ (¬b64 <+: token → arg = token)

theorem encoded_ne (bytes : Bytes) {s : UInt8} (hs : s ∈ Base64.encode bytes) : s ≠ 0 ∧ s ≠ newline := by
  have htable : ∀ n < 256, Base64.Encoded (.ofNat n) → n ≠ 0 ∧ n ≠ 10 := by decide +kernel
  have h := htable s.toNat s.toNat_lt (by
    rw [UInt8.ofNat_toNat]
    exact Base64.encoded_of_mem_encode hs)
  refine ⟨?_, ?_⟩
  · rintro rfl
    exact h.1 rfl
  · rintro rfl
    exact h.2 rfl

/-- Encoded text passes a command substitution unchanged. -/
theorem commandSubstitution_encode (bytes : Bytes) : commandSubstitution (Base64.encode bytes) =
    Base64.encode bytes := by
  have hnul : (0 : UInt8) ∉ Base64.encode bytes := fun h => (encoded_ne bytes h).1 rfl
  rw [commandSubstitution, filter_nul hnul]
  refine List.rdropWhile_eq_self_iff.mpr fun hne hlast => ?_
  exact (encoded_ne bytes (List.getLast_mem hne)).2 (by simpa using hlast)

theorem checks_decodeToken : Checks (decodeToken host token) (StandsFor token) := by
  unfold decodeToken
  split
  · next hprefix =>
    split
    · exact checks_refuse _
    · dsimp only
      split
      · next hencode =>
        rw [commandSubstitution_encode] at hencode
        refine checks_pure ⟨fun payload hpayload => ?_, fun hn => absurd hprefix hn⟩
        rw [hencode, hpayload, removePrefix_append]
      · exact checks_refuse _
  · next hprefix => exact checks_pure ⟨fun payload hpayload => absurd ⟨payload, hpayload.symm⟩ hprefix,
      fun _ => rfl⟩

theorem checks_decodeArgs (tokens : List Bytes) :
    Checks (decodeArgs host tokens) (List.Forall₂ StandsFor tokens) := by
  induction tokens with
  | nil => exact checks_pure .nil
  | cons token tokens ih =>
    refine checks_decodeToken.bind fun value hvalue => ih.bind fun decoded hdecoded => ?_
    exact checks_pure (.cons hvalue hdecoded)

theorem checks_readArguments {original : Bytes} :
    Checks (readArguments host original) fun r =>
      ∃ tokens, words original = r.1 :: tokens ∧ List.Forall₂ StandsFor tokens r.2 := by
  unfold readArguments
  split
  · exact checks_refuse _
  · next verb tokens hwords =>
    exact (checks_decodeArgs tokens).bind fun decoded hdecoded => checks_pure ⟨tokens, hwords, hdecoded⟩

end Checks

end WorkerHarness.RemoteShim
