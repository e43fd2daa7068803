import WorkerHarness.DataPaths
import WorkerHarness.JobManager
import WorkerHarness.LogFollowing

/-!
# Data copies

The route that copies a directory from one worker to another: it opens an export on the source,
hands its credentials to the destination, starts a copy job there, and leaves a task behind that
closes the export when the job has finished. What the remote steps answer is given; the rows that
the job manager reads are whatever the rest of the server has made of them meanwhile.
-/

namespace WorkerHarness.DataCopies

open Coroutines DataPaths

def shellSafe (c : Char) : Bool :=
  c.isAlphanum || "_@%+=:,./-".toList.contains c

/-- `shlex.quote`. -/
def shlexQuote (s : String) : String :=
  let quote := Char.ofNat 39
  if s = "" then String.ofList [quote, quote]
  else if s.toList.all shellSafe then s
  else String.ofList ([quote] ++ s.toList.flatMap
    (fun c => if c = quote then [quote, '"', quote, '"', quote] else [c]) ++ [quote])

def withWorkerDir (worker : DataWorker) (command : String) : String :=
  "WH_DIR=" ++ shlexQuote (posixParent worker.harnessDir) ++ " " ++ command

def sourceExportCommand (path : String) (transferId : String) (ttlSeconds : ℕ) : Except String String := do
  let path ← validateDataPath path
  return "/usr/local/lib/worker-harness/wh-data-export" ++ (" --path " ++ shlexQuote path ++ " --transfer-id " ++
    shlexQuote transferId ++ " --ttl-seconds " ++ toString ttlSeconds)

def sourceCleanupCommand (transferId : String) : String :=
  "/usr/local/lib/worker-harness/wh-data-export" ++ (" --cleanup --transfer-id " ++ shlexQuote transferId)

def destinationCopyCommand (sourceHost : String) (sourcePort : ℤ) (destination username passwordFile : String) :
    Except String String :=
  if sourcePort < 22000 ∨ 22999 < sourcePort then .error "source port is outside the reserved data range"
  else do
    let destination ← validateDataPath destination
    return "/usr/local/lib/worker-harness/wh-data-import --host " ++ shlexQuote sourceHost ++ " --port " ++
      toString sourcePort ++ " --destination " ++ shlexQuote destination ++ " --username " ++ shlexQuote username ++
      " --password-file " ++ shlexQuote passwordFile

/-- Exceptions of the language that the route meets. -/
inductive PyError where
  | indexError | keyError | typeError | valueError | overflowError | recursionError | unicodeEncodeError
  deriving DecidableEq

inductive CopyError where
  | cancelledError
  | laneTimeout
  | osError
  | httpException (statusCode : ℕ) (detail : String)
  | python (e : PyError)
  | manager (e : JobError)
  deriving DecidableEq

structure SSHResult where
  stdout : String
  stderr : String
  returncode : ℤ

/-- How a call over ssh goes; `issued` tells whether the process with the command was started. -/
inductive SshOutcome where
  | laneTimeout
  | cancelled (issued : Bool)
  | raised (issued : Bool)
  | notFound
  | timedOut
  | exited (stdout stderr : String) (returncode : ℤ)

namespace SshOutcome

def issued : SshOutcome → Bool
  | .laneTimeout => false
  | .cancelled issued => issued
  | .raised issued => issued
  | .notFound => false
  | .timedOut => true
  | .exited _ _ _ => true

/-- What the caller gets. -/
def result (timeout : ℕ) : SshOutcome → Except CopyError SSHResult
  | .laneTimeout => .error .laneTimeout
  | .cancelled _ => .error .cancelledError
  | .raised _ => .error .osError
  | .notFound => .ok { stdout := "", stderr := "ssh command not found", returncode := 127 }
  | .timedOut =>
    .ok { stdout := "", stderr := "Command timed out after " ++ toString timeout ++ "s", returncode := -1 }
  | .exited stdout stderr returncode => .ok { stdout := stdout, stderr := stderr, returncode := returncode }

end SshOutcome

/-- What the job manager did for the copy job: a launch that happened, and a row with a terminal
status that was read or written. -/
inductive JobEvent where
  | launched (workerId jobId : String)
  | terminal (jobId : String)
  deriving DecidableEq

inductive CopyEvent where
  | issued (workerId command : String)
  | uploaded (workerId path : String)
  | starting (e : JobEvent)
  | watching (e : JobEvent)
  | ttlElapsed
  | monitoringFailed
  deriving DecidableEq

/-- A part of the route: how it ends, and what happened. -/
structure Traced (α : Type) where
  result : Except CopyError α
  events : List CopyEvent := []

namespace Traced

variable {α β : Type}

protected def bind (x : Traced α) (f : α → Traced β) : Traced β :=
  match x.result with
  | .ok a => { result := (f a).result, events := x.events ++ (f a).events }
  | .error e => { result := .error e, events := x.events }

instance : Monad Traced where
  pure a := { result := .ok a }
  bind := Traced.bind

def raise (e : CopyError) : Traced α := { result := .error e }

def note (e : CopyEvent) : Traced Unit := { result := .ok (), events := [e] }

/-- `try: x except e: handler(e)`. -/
def catching (x : Traced α) (handler : CopyError → Traced α) : Traced α :=
  match x.result with
  | .ok _ => x
  | .error e => { result := (handler e).result, events := x.events ++ (handler e).events }

/-- `try: x finally: cleanup`. -/
def andFinally (x : Traced α) (cleanup : Traced Unit) : Traced α :=
  { result := match cleanup.result with
      | .ok _ => x.result
      | .error e => .error e
    events := x.events ++ cleanup.events }

/-- `asyncio.create_task`: the task goes on by itself, after the last step of the route. -/
def createTask (task : Traced Unit) : Traced Unit := { result := .ok (), events := task.events }

def ofExcept : Except CopyError α → Traced α
  | .ok a => { result := .ok a }
  | .error e => { result := .error e }

end Traced

def refuse {α : Type} (statusCode : ℕ) (detail : String) : Traced α := .raise (.httpException statusCode detail)

def asyncSshRun (worker : DataWorker) (command : String) (timeout : ℕ) (outcome : SshOutcome) : Traced SSHResult :=
  { result := outcome.result timeout, events := if outcome.issued then [.issued worker.id command] else [] }

/-- `ssh_upload_bytes`. -/
def sshUploadBytes (worker : DataWorker) (path : String) (outcome : SshOutcome) : Traced SSHResult :=
  { result := outcome.result 60, events := if outcome.issued then [.uploaded worker.id path] else [] }

/-- An answer to a call of the job manager: the tables at this moment, and the rest from outside. -/
abbrev JobAnswer := World × Answer

def isTerminal (status : JobStatus) : Bool := status = .done || status = .failed

def jobEvents : {β : Type} → JobCall β → β → List JobEvent
  | _, .launch workerId jobId, true => [.launched workerId jobId]
  | _, .getJob _, some job => if isTerminal job.status then [.terminal job.id] else []
  | _, .updateJob job, .ok _ => if isTerminal job.status then [.terminal job.id] else []
  | _, _, _ => []

/-- A method of the job manager with the answers to its calls. Without a further possible answer
it is cancelled where it waits. The remaining answers are left for what follows. -/
def performed {α : Type} : ManagerM α → List JobAnswer → Except CopyError (α × List JobAnswer) × List JobEvent
  | .ret a, answers => (.ok (a, answers), [])
  | .raise e, _ => (.error (.manager e), [])
  | .acquire _ k, answers => performed k answers
  | .release _ k, answers => performed k answers
  | .perform _ _, [] => (.error .cancelledError, [])
  | .perform e k, (w, a) :: answers =>
    match jobInterp.handle e 0 a w with
    | none => (.error .cancelledError, [])
    | some (_, b) => ((performed (k b) answers).1, jobEvents e b ++ (performed (k b) answers).2)

def managed {α : Type} (note : JobEvent → CopyEvent) (p : ManagerM α) (answers : List JobAnswer) : Traced α :=
  { result := (performed p answers).1.map Prod.fst, events := (performed p answers).2.map note }

structure PyText where
  text : String
  surrogates : Bool := false
  deriving DecidableEq

inductive JsonFloat where
  | finite (q : ℚ)
  | infinite
  | nan

inductive JsonValue where
  | null
  | bool (b : Bool)
  | int (n : ℤ)
  | float (x : JsonFloat)
  | string (s : PyText)
  | array (values : List JsonValue)
  | object (fields : List (String × JsonValue))

/-- The parts of Python that the route uses on texts: `json.loads`, `int` of a text, and `str` of
anything that is no text. -/
structure Python where
  loads : String → Except PyError JsonValue
  parseInt : String → Option ℤ
  str : JsonValue → PyText

def intOf (python : Python) : JsonValue → Except PyError ℤ
  | .bool b => .ok (if b then 1 else 0)
  | .int n => .ok n
  | .float (.finite q) => .ok (if q < 0 then -(-q).floor else q.floor)
  | .float .infinite => .error .overflowError
  | .float .nan => .error .valueError
  | .string s => match python.parseInt s.text with
    | some n => .ok n
    | none => .error .valueError
  | _ => .error .typeError

def textOf (python : Python) : JsonValue → PyText
  | .string s => s
  | value => python.str value

/-- `endpoint[key]`; the last of several fields counts. -/
def fieldOf (key : String) : JsonValue → Except PyError JsonValue
  | .object fields => match (fields.filter fun f => f.1 = key).getLast? with
    | some f => .ok f.2
    | none => .error .keyError
  | _ => .error .typeError

structure Endpoint where
  port : ℤ
  username : PyText
  password : PyText
  deriving DecidableEq

def endpointOf (python : Python) (stdout : String) : Except PyError Endpoint := do
  match (LogFollowing.splitlines (strip stdout).toList).getLast? with
  | none => .error .indexError
  | some line =>
    let endpoint ← python.loads (String.ofList (LogFollowing.stripEnd line))
    let port ← intOf python (← fieldOf "port" endpoint)
    let username := textOf python (← fieldOf "username" endpoint)
    let password := textOf python (← fieldOf "password" endpoint)
    if 22000 ≤ port ∧ port ≤ 22999 ∧ username ≠ { text := "" } ∧ password ≠ { text := "" } then
      return { port := port, username := username, password := password }
    else .error .valueError

def PyError.isMetadata : PyError → Bool
  | .indexError | .keyError | .typeError | .valueError => true
  | _ => false

structure DataCopyRequest where
  srcWorker : String
  srcPath : String
  dstWorker : String
  dstPath : String
  ttlSeconds : ℕ := 6 * 60 * 60

/-- A request that passed the checks. -/
structure CheckedCopy where
  source : DataWorker
  destination : DataWorker
  srcPath : String
  dstPath : String
  ttlSeconds : ℕ
  deriving DecidableEq

/-- The checks before the export; the workers are those that `resolve_worker` finds. -/
def checkCopy (payload : DataCopyRequest) (source destination : Option DataWorker) :
    Except CopyError CheckedCopy := do
  let refused (statusCode : ℕ) (detail : String) : Except CopyError CheckedCopy :=
    .error (.httpException statusCode detail)
  match validateDataPath payload.srcPath, validateDataPath payload.dstPath with
  | .error detail, _ => refused 400 detail
  | _, .error detail => refused 400 detail
  | .ok srcPath, .ok dstPath =>
    if payload.ttlSeconds < 60 ∨ 24 * 60 * 60 < payload.ttlSeconds then
      refused 400 "ttl_seconds must be between 60 and 86400"
    else match source, destination with
      | none, _ => refused 404 ("Source worker not found: " ++ payload.srcWorker)
      | _, none => refused 404 ("Destination worker not found: " ++ payload.dstWorker)
      | some source, some destination =>
        if source.id = destination.id then refused 400 "source and destination workers must differ"
        else if source.status ≠ .online ∨ destination.status ≠ .online then
          refused 409 "source and destination workers must be online"
        else if isAdvertisedDataPath srcPath source.dataPaths = .ok true then
          .ok { source := source, destination := destination, srcPath := srcPath, dstPath := dstPath,
                ttlSeconds := payload.ttlSeconds }
        else refused 400 "source path is outside the source worker's advertised data directories"

/-- One round of the monitor: the clock, the answers to the refresh, and whether the sleep ended. -/
structure Round where
  time : ℚ
  answers : List JobAnswer
  slept : Bool := true

/-- What the remote steps answer, in the order of the route, with the clock when the monitor starts. -/
structure CopyOutcomes where
  exported : SshOutcome
  uploaded : SshOutcome := .laneTimeout
  started : List JobAnswer := []
  monitorStart : ℚ := 0
  rounds : List Round := []
  cleaned : SshOutcome

/-- How the route calls the job manager. -/
structure CopyServer where
  python : Python
  fuel : ℕ
  manager : ℕ

def cleanUp (request : CheckedCopy) (transferId : String) (o : CopyOutcomes) : Traced SSHResult :=
  asyncSshRun request.source (withWorkerDir request.source (sourceCleanupCommand transferId)) 15 o.cleaned

def monitorLoop (server : CopyServer) (destination : DataWorker) (deadline : ℚ) : Job → List Round → Traced Unit
  | _, [] => .raise .cancelledError
  | current, round :: rounds => do
    if round.time < deadline then
      let current ← managed .watching
        (JobManager.refreshJobStatus server.fuel server.manager destination.toWorker current) round.answers
      if isTerminal current.status then return ()
      else if round.slept then monitorLoop server destination deadline current rounds
      else .raise .cancelledError
    else Traced.note .ttlElapsed

def cleanupAfterCopy (server : CopyServer) (request : CheckedCopy) (transferId : String) (job : Job)
    (o : CopyOutcomes) :
    Traced Unit :=
  ((monitorLoop server request.destination (o.monitorStart + request.ttlSeconds) job o.rounds).catching fun e =>
    do
      Traced.note .monitoringFailed
      if e = .cancelledError then .raise e).andFinally do
      let _ ← cleanUp request transferId o
      return ()

def secretPath (request : CheckedCopy) (transferId : String) : String :=
  rstripSlash request.destination.harnessDir ++ "/data-transfer-" ++ transferId ++ ".secret"

def copyCommand (request : CheckedCopy) (transferId : String) (endpoint : Endpoint) : Except String String := do
  let command ← destinationCopyCommand request.source.sshHost endpoint.port request.dstPath endpoint.username.text
    (secretPath request transferId)
  return withWorkerDir request.destination command

def startCopy (server : CopyServer) (request : CheckedCopy) (transferId command : String) (o : CopyOutcomes) :
    Traced Job :=
  managed .starting (JobManager.startJob server.manager request.destination.toWorker command
    (some ("data-copy-" ++ transferId)) false) o.started

/-- Everything after the export, with the endpoint that it has printed; the detail of the last refusal
goes on with the text of the exception. -/
def copyFrom (server : CopyServer) (request : CheckedCopy) (transferId : String) (o : CopyOutcomes)
    (endpoint : Endpoint) :
    Traced Job := do
  if endpoint.password.surrogates then .raise (.python .unicodeEncodeError)
  let uploaded ← sshUploadBytes request.destination (secretPath request transferId) o.uploaded
  if uploaded.returncode ≠ 0 then
    let _ ← cleanUp request transferId o
    refuse 502 ("destination credential upload failed: " ++
      if uploaded.stderr = "" then "unknown error" else uploaded.stderr)
  match copyCommand request transferId endpoint with
  | .error _ => .raise (.python .valueError)
  | .ok command =>
    let job ← (startCopy server request transferId command o).catching fun e =>
      if e = .cancelledError then .raise e
      else do
        let _ ← cleanUp request transferId o
        refuse 502 "destination copy job failed to start: "
    Traced.createTask (cleanupAfterCopy server request transferId job o)
    return job

/-- `POST /api/v1/data/copy`; the response names the transfer, the job and the two workers. -/
def dataCopy (server : CopyServer) (payload : DataCopyRequest) (source destination : Option DataWorker)
    (transferId : String) (o : CopyOutcomes) : Traced Job := do
  let request ← Traced.ofExcept (checkCopy payload source destination)
  match sourceExportCommand request.srcPath transferId request.ttlSeconds with
  | .error _ => .raise (.python .valueError)
  | .ok command =>
    let exported ← asyncSshRun request.source (withWorkerDir request.source command) 30 o.exported
    if exported.returncode ≠ 0 then
      refuse 502 ("source export failed: " ++ if exported.stderr = "" then "unknown error" else exported.stderr)
    match endpointOf server.python exported.stdout with
    | .error e =>
      if e.isMetadata then do
        let _ ← cleanUp request transferId o
        refuse 502 "source export returned invalid metadata"
      else .raise (.python e)
    | .ok endpoint => copyFrom server request transferId o endpoint

end WorkerHarness.DataCopies
