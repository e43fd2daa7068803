import WorkerHarness.BashStrings
import WorkerHarness.FileTrees
import WorkerHarness.Scripts

/-!
# The remote deployment script

`deploy-remote.sh` as a script of simple commands over the tree of files in the home directory. The stage
becomes the live installation; the trap puts everything back that the transaction has saved or moved.
-/

namespace WorkerHarness.RemoteDeployment

open FileTrees Scripts BashStrings

/-- `^[A-Za-z0-9_.-]+$`. -/
def isTxid (txid : String) : Bool :=
  txid ≠ "" && txid.toList.all fun c => c.isAlphanum || c = '_' || c = '.' || c = '-'

/-- The arguments of the script, and what it reads from outside while it saves the old state. -/
structure Transaction where
  stage : Path
  txid : String
  candidateRcloneUnits : List String := []
  activeUnits : List String := []
  enabledUnits : List String := []
  healthRequired : ℕ := 5
  healthAttempts : ℕ := 20
  stage_head : ∃ name rest, stage = (".worker-harness.stage." ++ name) :: rest
  txid_valid : isTxid txid = true

def live : Path := ["worker-harness"]

def unitDir : Path := [".config", "systemd", "user"]

def workerConfigDir : Path := [".config", "worker-harness"]

def rcloneConfigDir : Path := [".config", "rclone"]

def harnessDir : Path := [".local", "worker-harness", "harness"]

def workerConfigNames : List String :=
  ["worker-harness.env", "worker-harness-update.sh", "worker-harness-restart.sh"]

def triggerNames : List String := ["new-image.sif", "restart-trigger"]

namespace Transaction

variable (tx : Transaction)

def backup : Path := ["worker-harness.backup." ++ tx.txid]

def failed : Path := ["worker-harness.failed." ++ tx.txid]

def state : Path := [".worker-harness.state." ++ tx.txid]

def pending (name : String) : Path := tx.state ++ ["pending", name]

def managedUnits : List String :=
  ["worker-harness.service", "worker-harness-update.path", "worker-harness-update.service",
    "worker-harness-restart.path", "worker-harness-restart.service"] ++ tx.candidateRcloneUnits

end Transaction

inductive ServiceFile where
  | unit (name : String)
  | config (name : String)
  | rcloneConf
  deriving DecidableEq, Repr

namespace ServiceFile

def path : ServiceFile → Path
  | unit name => unitDir ++ [name]
  | config name => workerConfigDir ++ [name]
  | rcloneConf => rcloneConfigDir ++ ["rclone.conf"]

def saved (tx : Transaction) : ServiceFile → Path
  | unit name => tx.state ++ ["systemd", name]
  | config name => tx.state ++ ["worker-config", name]
  | rcloneConf => tx.state ++ ["rclone-config", "rclone.conf"]

end ServiceFile

def serviceFiles (tx : Transaction) : List ServiceFile :=
  tx.managedUnits.map .unit ++ workerConfigNames.map .config ++ [.rcloneConf]

inductive Variable where
  | lockAcquired
  | hadLive
  | deferredTrigger
  | activated
  deriving DecidableEq, Repr

structure Machine where
  tree : Tree
  vars : Variable → Bool := fun _ => false

inductive Verb where
  | cat
  | stop
  | start
  | isActive
  | isEnabled
  | enable
  | disable
  | daemonReload
  | resetFailed
  deriving DecidableEq, Repr

inductive Command where
  | testE (p : Path)
  | testL (p : Path)
  | testF (p : Path)
  | testX (p : Path)
  | isSet (v : Variable)
  | assign (v : Variable)
  | mv (source destination : Path)
  | cp (source destination : Path)
  | copyContent (source destination : Path)
  | rm (p : Path)
  | rmTree (ps : List Path)
  | mkdir (ps : List Path)
  | write (p : Path) (lines : List String)
  | chmod (p : Path)
  | systemctl (verb : Verb) (unitName : String)
  | mountpoint (unitName : String)
  | fusermount (unitName : String)
  | flock
  | cd (p : Path)
  | installService
  | pgrep
  | sleep
  | fail
  | resetTraps
  deriving DecidableEq, Repr

/-- The answers from outside; each command looks at its own fields. -/
structure Answer where
  ok : Bool := true
  unlinks : Bool := false
  content : Bytes := []
  writes : List (Path × Option Entry) := []

/-- A name in the live tree that belongs to the environment file, its copies included. -/
def envFile : Path → Bool
  | [] => false
  | name :: _ => ".env".toList.isPrefixOf name.toList

def protectedPaths (tx : Transaction) : List Path :=
  [tx.stage, tx.backup, tx.failed, tx.state] ++ triggerNames.map fun name => harnessDir ++ [name]

/-- `install-service.sh` leaves the paths of the transaction and the triggers alone; in the live tree it
writes the environment file only, and it does not put directories where service files belong. -/
def installs (tx : Transaction) : Path × Option Entry → Bool
  | (p, e) =>
    if (protectedPaths tx).any (·.isPrefixOf p) then false
    else if live <+: p then envFile (p.drop live.length)
    else if (serviceFiles tx).any fun file => decide (file.path = p) then e ≠ some .dir
    else true

def put (t : Tree) (w : Path × Option Entry) : Tree := fun q => if q = w.1 then w.2 else t q

/-- `-e`, where a link leads to something or not. -/
def present (resolves : String → Bool) : Option Entry → Bool
  | none => false
  | some (.link target) => resolves target
  | some _ => true

/-- `-L`. -/
def isLink : Option Entry → Bool
  | some (.link _) => true
  | _ => false

/-- A command on files. It fails if it must; it fails for reasons outside only if that is allowed. -/
def attempt (faulty : Bool) (f : Tree → Option Tree) (a : Answer) (m : Machine) : Option (Bool × Machine) :=
  match f m.tree with
  | none => some (false, m)
  | some t => if a.ok then some (true, { m with tree := t }) else if faulty then some (false, m) else none

/-- What the commands do. `faulty` allows any command on files to fail. -/
def step (tx : Transaction) (resolves : String → Bool) (faulty : Bool) :
    Command → Answer → Machine → Option (Bool × Machine)
  | .testE p, _, m => some (present resolves (m.tree p), m)
  | .testL p, _, m => some (isLink (m.tree p), m)
  | .testF p, a, m =>
    match m.tree p with
    | some (.file _) => some (true, m)
    | some (.link _) => some (a.ok, m)
    | _ => some (false, m)
  | .testX p, a, m => if m.tree p = none then some (false, m) else some (a.ok, m)
  | .isSet v, _, m => some (m.vars v, m)
  | .assign v, _, m => some (true, { m with vars := fun v' => if v' = v then true else m.vars v' })
  | .mv source destination, a, m => attempt faulty (mv source destination) a m
  | .cp source destination, a, m => attempt faulty (cp source destination) a m
  | .copyContent source destination, a, m =>
    match m.tree source with
    | some (.file content) => attempt faulty (write destination content) a m
    | some (.link _) => attempt true (write destination a.content) a m
    | _ => some (false, m)
  | .rm p, a, m => attempt faulty (rm p) a m
  | .rmTree ps, a, m => attempt faulty (fun t => ps.foldlM (fun t p => rmTree p t) t) a m
  | .mkdir ps, a, m => attempt faulty (fun t => ps.foldlM (fun t p => mkdir p t) t) a m
  | .write p lines, a, m => attempt faulty (write p (utf8 ("\n".intercalate lines ++ "\n"))) a m
  | .chmod p, a, m => if m.tree p = none then some (false, m) else some (a.ok, m)
  -- systemd may delete a link to a unit file when it disables the unit.
  | .systemctl .disable unitName, a, m =>
    if a.unlinks ∧ isLink (m.tree (unitDir ++ [unitName])) then
      some (a.ok, { m with tree := m.tree.remove (unitDir ++ [unitName]) })
    else some (a.ok, m)
  | .installService, a, m =>
    if a.writes.all (installs tx) then some (a.ok, { m with tree := a.writes.foldl put m.tree }) else none
  | .fail, _, m => some (false, m)
  | .resetTraps, _, m => some (true, m)
  | _, a, m => some (a.ok, m)

/-- `if [ -e source ] || [ -L source ]; then cp -a source destination; fi`. -/
def saveEntry (source destination : Path) : Script Command :=
  .ite (.testE source) (.run (.cp source destination))
    (.ite (.testL source) (.run (.cp source destination)) .skip)

/-- The first of the sources that is a file is copied; the caller ignores a failure. -/
def preserveIntoStage (destination : Path) : List Path → Script Command
  | [] => .skip
  | source :: sources =>
    .ite (.testF source) (.orTrue (.copyContent source destination)) (preserveIntoStage destination sources)

section

variable (tx : Transaction)

/-- Everything before the traps. -/
def prepare : Script Command := .all
  [.ite (.testX (tx.stage ++ ["install-service.sh"])) .skip (.run .fail),
    .ite (.testE tx.backup) (.run .fail) (.ite (.testE tx.failed) (.run .fail)
      (.ite (.testE tx.state) (.run .fail) .skip)),
    .run (.mkdir [tx.state ++ ["systemd"], tx.state ++ ["worker-config"], tx.state ++ ["rclone-config"],
      tx.state ++ ["pending"]]),
    .forEach tx.managedUnits fun unitName => .all
      [saveEntry (unitDir ++ [unitName]) (tx.state ++ ["systemd", unitName]),
        .orTrue (.systemctl .isActive unitName),
        .orTrue (.systemctl .isEnabled unitName)],
    .forEach workerConfigNames fun name => saveEntry (workerConfigDir ++ [name])
      (tx.state ++ ["worker-config", name]),
    saveEntry (rcloneConfigDir ++ ["rclone.conf"]) (tx.state ++ ["rclone-config", "rclone.conf"]),
    .run (.write (tx.state ++ ["active-units"]) tx.activeUnits),
    .run (.write (tx.state ++ ["enabled-units"]) tx.enabledUnits),
    preserveIntoStage (tx.stage ++ [".env"]) [workerConfigDir ++ ["worker-harness.env"], live ++ [".env"]],
    .ite (.testF (tx.stage ++ ["rclone.conf"])) .skip
      (preserveIntoStage (tx.stage ++ ["rclone.conf"])
        [rcloneConfigDir ++ ["rclone.conf"], live ++ ["rclone.conf"]]),
    .run (.chmod (tx.stage ++ [".env"])),
    .ite (.testF (tx.stage ++ ["rclone.conf"])) (.run (.chmod (tx.stage ++ ["rclone.conf"]))) .skip]

def stopUnitSafely (unitName : String) : Script Command :=
  .ite (.systemctl .cat unitName)
    (.seq (.run (.systemctl .stop unitName)) (.ite (.systemctl .isActive unitName) (.run .fail) .skip)) .skip

def waitUnitInactive (unitName : String) : ℕ → Script Command
  | 0 => .run .fail
  | attempts + 1 =>
    .ite (.systemctl .isActive unitName) (.seq (.run .sleep) (waitUnitInactive unitName attempts)) .skip

/-- Everything between the traps and the lock. -/
def quiesce : Script Command := .all
  [stopUnitSafely "worker-harness-update.path",
    stopUnitSafely "worker-harness-restart.path",
    waitUnitInactive "worker-harness-update.service" 60,
    waitUnitInactive "worker-harness-restart.service" 60,
    .run .flock]

def deferTrigger (name : String) : Script Command :=
  .ite (.testE (harnessDir ++ [name]))
    (.seq (.run (.mv (harnessDir ++ [name]) (tx.pending name))) (.run (.assign .deferredTrigger))) .skip

def unmount (unitName : String) : Script Command :=
  .seq (.ite (.mountpoint unitName) (.orTrue (.fusermount unitName)) .skip)
    (.ite (.mountpoint unitName) (.run .fail) .skip)

def releaseMount (unitName : String) : Script Command :=
  .ite (.testF (unitDir ++ [unitName])) (.ite (.testF (unitDir ++ [unitName])) (unmount unitName) .skip)
    (.ite (.testF (tx.stage ++ [unitName])) (unmount unitName) .skip)

def stopServices : Script Command :=
  .seq (stopUnitSafely "worker-harness.service")
    (.forEach tx.candidateRcloneUnits fun unitName => .seq (stopUnitSafely unitName) (releaseMount tx unitName))

def shelveLive : Script Command :=
  .ite (.testE live) (.seq (.run (.assign .hadLive)) (.run (.mv live tx.backup))) .skip

def healthCheck (required : ℕ) : ℕ → ℕ → Script Command
  | 0, streak => if streak < required then .run .fail else .skip
  | attempts + 1, streak =>
    let again streak := .seq (.run .sleep) (healthCheck required attempts streak)
    .ite (.systemctl .isActive "worker-harness.service")
      (.ite .pgrep (if streak + 1 ≥ required then .skip else again (streak + 1)) (again 0)) (again 0)

def install : Script Command := .all
  [.run (.cd live), .run .installService, healthCheck tx.healthRequired tx.healthAttempts 0, .run .resetTraps]

/-- Everything under the traps. -/
def activate : Script Command := .all
  [quiesce, .run (.assign .lockAcquired), .forEach triggerNames (deferTrigger tx), stopServices tx, shelveLive tx,
    .run (.mv tx.stage live), .run (.assign .activated), install tx]

def conclude : Script Command :=
  let record := .seq (.run (.mkdir [tx.backup])) (.run (.mv tx.state (tx.backup ++ [".deployment-state"])))
  .seq (.ite (.isSet .hadLive) record (.ite (.isSet .deferredTrigger) record (.run (.rmTree [tx.state]))))
    (.orTrue (.systemctl .resetFailed ""))

def restorePathSet (source destination : Path) (names : List String) : Script Command :=
  .seq (.run (.mkdir [destination]))
    (.forEach names fun name => .seq (.run (.rm (destination ++ [name])))
      (saveEntry (source ++ [name]) (destination ++ [name])))

/-- `systemctl enable`, by name or by the file behind the link. -/
def enableUnitFile (unitName : String) : Script Command := .orTrue (.systemctl .enable unitName)

def restoreServiceState : Script Command := .all
  [.orTrue (.systemctl .daemonReload ""),
    .forEach tx.enabledUnits enableUnitFile,
    .forEach tx.activeUnits fun unitName => .orTrue (.systemctl .start unitName)]

def restorePendingTriggers : Script Command :=
  .seq (.run (.mkdir [harnessDir]))
    (.forEach triggerNames fun name =>
      .ite (.testE (tx.pending name)) (.run (.mv (tx.pending name) (harnessDir ++ [name]))) .skip)

def restorePrelockPaths : Script Command :=
  .forEach ["worker-harness-update.path", "worker-harness-restart.path"] fun pathUnit =>
    .seq (.forEach tx.enabledUnits fun value => if value = pathUnit then enableUnitFile pathUnit else .skip)
      (.forEach tx.activeUnits fun value => if value =
        pathUnit then .orTrue (.systemctl .start pathUnit) else .skip)

def restoreFiles : Script Command := .all
  [.forEach tx.managedUnits fun unitName => .orTrue (.systemctl .stop unitName),
    .forEach tx.managedUnits fun unitName => .orTrue (.systemctl .disable unitName),
    restorePathSet (tx.state ++ ["systemd"]) unitDir tx.managedUnits,
    restorePathSet (tx.state ++ ["worker-config"]) workerConfigDir workerConfigNames,
    restorePathSet (tx.state ++ ["rclone-config"]) rcloneConfigDir ["rclone.conf"]]

def restoreLive : Script Command :=
  .seq (.ite (.isSet .activated) (.ite (.testE live) (.run (.mv live tx.failed)) .skip) .skip)
    (.ite (.isSet .hadLive) (.ite (.testE tx.backup) (.run (.mv tx.backup live)) .skip) .skip)

def rollback : Script Command :=
  .ite (.isSet .lockAcquired)
    (.all [restoreFiles tx, restoreLive tx, restorePendingTriggers tx, restoreServiceState tx,
      .run (.rmTree [tx.stage, tx.state])])
    (.seq (restorePrelockPaths tx) (.run (.rmTree [tx.stage, tx.state])))

end

end WorkerHarness.RemoteDeployment
