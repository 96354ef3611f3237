import Mathlib.Data.Rat.Defs
import OnixCore.Inventory.Contracts
import OnixCore.Lib.AttrSet

/-!
# Remote builders

`inventory/tags/builder-target-contracts.ncl` and the routes of `remote-builders.nix`: the machines
a host builds on, and the SSH host keys it knows. The managed host keys, the host's own name and the
path of its builder key are parameters. The client configuration of SSH is left out.
-/

namespace OnixCore.Inventory

open AttrSet

section Contract

structure BuilderTarget where
  name : String
  allowedConsumers : Option (List String)
  speedFactor : ℚ
  systems : List String
  sshUser : String
  sshHost : Option String
  maxJobs : ℚ
  supportedFeatures : List String
deriving DecidableEq

def nonEmptyString (value : String) : Bool := value.length > 0

def positiveNum (value : ℚ) : Bool := value > 0

def BuilderTarget.check (machineNames : List String) (target : BuilderTarget) : Bool :=
  machineNames.contains target.name
    && target.allowedConsumers.all (·.all machineNames.contains)
    && positiveNum target.speedFactor && target.systems.all nonEmptyString
    && nonEmptyString target.sshUser && target.sshHost.all nonEmptyString
    && positiveNum target.maxJobs && target.supportedFeatures.all nonEmptyString

/-- Targets that the contract `BuilderTargets` accepts. -/
structure BuilderTargets (machineNames : List String) where
  targets : List BuilderTarget
  checked : targets.all (·.check machineNames)

end Contract

/-- An entry of `nix.buildMachines` -/
structure BuildMachine where
  protocol : String
  hostName : String
  systems : List String
  maxJobs : ℚ
  speedFactor : ℚ
  sshUser : String
  supportedFeatures : List String
  sshKey : String
deriving DecidableEq

/-- An entry of `programs.ssh.knownHosts` -/
structure KnownHost where
  hostNames : List String
  publicKey : String
deriving DecidableEq

def selectBuilderHost (target : BuilderTarget) (machine : Machine) : String :=
  match target.sshHost, machine.addresses.lan with
  | some explicitSshHost, _ => explicitSshHost
  | none, some lanAddress => lanAddress
  | none, none => machine.name

def consumerMayUseTarget (hostname : String) (target : BuilderTarget) : Bool :=
  target.allowedConsumers.all (·.contains hostname)

section Builders

variable (allMachines : List (String × Machine)) (targets : List BuilderTarget)
  (hostname builderKeyPath : String) (getHostKey : String → Option String)

def builderTargetNames : List String := targets.map BuilderTarget.name

def builderTargetsByName : List (String × BuilderTarget) :=
  listToAttrs (targets.map fun t => (t.name, t))

def builderMachines : List (String × Machine) :=
  allMachines.filter fun entry =>
    (builderTargetNames targets).contains entry.1 && entry.1 != hostname
      && ((builderTargetsByName targets).lookup entry.1).any (consumerMayUseTarget hostname)

/-- The entry for one machine. A builder's machine has a target. -/
def buildMachine (entry : String × Machine) : Option BuildMachine :=
  ((builderTargetsByName targets).lookup entry.1).map fun target =>
    { protocol := "ssh-ng"
      hostName := selectBuilderHost target entry.2
      systems := target.systems
      maxJobs := target.maxJobs
      speedFactor := target.speedFactor
      sshUser := target.sshUser
      supportedFeatures := target.supportedFeatures
      sshKey := builderKeyPath }

def allBuildMachines : List BuildMachine :=
  (builderMachines allMachines targets hostname).filterMap (buildMachine targets builderKeyPath)

/-- The names under which one machine's key is known. -/
def hostNames (entry : String × Machine) : List String :=
  let lan := entry.2.addresses.lan
  let explicitSshHost := ((builderTargetsByName targets).lookup entry.1).bind BuilderTarget.sshHost
  (explicitSshHost.toList ++ lan.toList
    ++ if entry.1 ≠ lan.getD "" then [entry.1] else []).eraseDups

def knownHostEntries : List (String × KnownHost) :=
  listToAttrs (allMachines.filterMap fun entry => (getHostKey entry.1).map fun hostKey =>
    (entry.1, { hostNames := hostNames targets entry, publicKey := hostKey }))

end Builders

end OnixCore.Inventory
