import Mathlib.Data.List.Infix
import OnixCore.Lib.Execution

/-!
# The scripts of the backup job

`modules/radicle-node/backup-source.nix`: `prepareBackup` and `cleanupBackup`, each a program whose
actions are shell commands. `writeShellApplication` sets `errexit`, so a script fails at its first
command that does, but for one whose status is tested.

Of the host the model has the three units the job stops and their markers. A command that touches
neither is a `run` with its line.
-/

namespace OnixCore.BackupJob

open Prog

/-- The units that are stopped and started, each with the file that marks it as active. -/
inductive Service where
  /-- `radicle-node.service`, `node-active` -/
  | node
  /-- `radicle-httpd.service`, `httpd-active` -/
  | httpd
  /-- `radicle-policy-reconcile.timer`, `policy-timer-active` -/
  | policyTimer
  deriving DecidableEq

inductive Command where
  /-- `install -d -m 0700 /run/radicle-backup-state` -/
  | installRuntimeState
  /-- `rm -f /run/radicle-backup-state/*` -/
  | clearRuntimeState
  /-- `rm -rf /run/radicle-backup-state` -/
  | removeRuntimeState
  /-- `systemctl is-active --quiet` -/
  | isActive (service : Service)
  | touchMarker (service : Service)
  /-- `test -e` of the marker -/
  | testMarker (service : Service)
  | stop (service : Service)
  | start (service : Service)
  /-- `systemctl start radicle-policy-reconcile.service` -/
  | startReconcile
  | run (line : String)

/-- Whether a command succeeded, and what it wrote. -/
structure Answer where
  status : Bool
  stdout : String := ""

abbrev Script := Prog Command (fun _ => Answer) Unit

/-- A command on a line of its own. -/
def sh (command : Command) : Script Unit := do
  let answer ← act command
  if answer.status then return () else fail ()

/-- `"$(command)"` -/
def shOutput (command : Command) : Script String := do
  let answer ← act command
  if answer.status then return answer.stdout else fail ()

/-- `echo` to standard error, and `exit 1` -/
def exitWith (message : String) : Script Unit := do
  sh (.run ("echo \"" ++ message ++ "\" >&2"))
  fail ()

/-- `if condition; then script; fi` -/
def ifThen (condition : Bool) (script : Script Unit) : Script Unit :=
  if condition then script else return ()

/-- `record_active_unit` -/
def recordActiveUnit (service : Service) : Script Unit := do
  let active ← act (.isActive service)
  ifThen active.status (sh (.touchMarker service))

def stagingRoot : String := "/run/radicle-backup-input"

def manifestRoot : String := "/run/radicle-backup-manifests"

def sourceMount : String := "/run/radicle-backup-source"

def expectedNodeFingerprint : String := "SHA256:zwNJTV2uBfWYcFXeFJs+eAfatqahgK8KKe+4gdGkOSE"

def installKey (mode source target : String) : Script Unit :=
  sh (.run ("install -m " ++ mode ++ " " ++ source ++ " " ++ stagingRoot ++ "/" ++ target))

variable (privateKey publicKey nodeConfig : String)

/-- The part of `prepareBackup` that stages the keys and checks them. -/
def stageKeys : Script Unit := do
  sh (.run ("rm -rf " ++ stagingRoot ++ " " ++ manifestRoot))
  sh (.run ("install -d -m 0700 " ++ stagingRoot))
  sh (.run ("install -d -m 0700 " ++ manifestRoot))
  installKey "0400" privateKey "node-private-key"
  installKey "0444" publicKey "node-public-key"
  installKey "0444" nodeConfig "node-config.json"
  sh (.run ("ssh-keygen -y -f " ++ stagingRoot ++ "/node-private-key > " ++ stagingRoot
    ++ "/derived-public-key"))
  let same ← act (.run ("cmp " ++ stagingRoot ++ "/derived-public-key " ++ stagingRoot
    ++ "/node-public-key"))
  ifThen (!same.status) (exitWith "staged Radicle private and public keys do not match")
  let fingerprint ← shOutput (.run ("ssh-keygen -lf " ++ stagingRoot ++ "/derived-public-key"))
  ifThen (¬ (" " ++ expectedNodeFingerprint ++ " ").toList <:+: fingerprint.toList)
    (exitWith "staged Radicle key does not preserve the reviewed fingerprint")
  sh (.run ("rm " ++ stagingRoot ++ "/derived-public-key"))

/-- The part of `prepareBackup` that writes what goes with the archive. -/
def stageInputs : Script Unit := do
  sh (.run ("printf ... > " ++ stagingRoot ++ "/observations"))
  sh (.run ("find " ++ sourceMount ++ "/storage -mindepth 1 -maxdepth 1 -type d | sort > "
    ++ stagingRoot ++ "/repository-directories"))
  sh (.run ("radicle-backup-manifest create " ++ sourceMount ++ " " ++ stagingRoot
    ++ "/radicle-state.b3m"))
  sh (.run ("radicle-backup-manifest create " ++ stagingRoot ++ " " ++ manifestRoot
    ++ "/backup-inputs.b3m"))

def prepareBackup : Script Unit := do
  sh .installRuntimeState
  sh .clearRuntimeState
  recordActiveUnit .node
  recordActiveUnit .httpd
  recordActiveUnit .policyTimer
  sh (.stop .policyTimer)
  sh (.stop .httpd)
  sh (.stop .node)
  stageKeys privateKey publicKey nodeConfig
  stageInputs

def cleanupBackup : Script Unit := do
  let nodeWasActive ← act (.testMarker .node)
  let httpdWasActive ← act (.testMarker .httpd)
  let timerWasActive ← act (.testMarker .policyTimer)
  sh (.run ("rm -rf " ++ stagingRoot ++ " " ++ manifestRoot))
  ifThen nodeWasActive.status (sh (.start .node))
  ifThen httpdWasActive.status do
    sh .startReconcile
    sh (.start .httpd)
  ifThen timerWasActive.status (sh (.start .policyTimer))
  sh .removeRuntimeState

/-- The job: `archive` is what it runs between its hooks, and the second hook runs however the
first one and the archive ended. -/
def job (archive : Script Unit) : Script Unit := do
  let _ ← attempt (do
    prepareBackup privateKey publicKey nodeConfig
    archive)
  cleanupBackup

end OnixCore.BackupJob
