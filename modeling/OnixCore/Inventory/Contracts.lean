import Mathlib.Data.String.Basic

/-!
# The machine registry

`inventory/core/contracts.ncl`: the registered tags and home-manager profiles, and what a machine and
the registry of machines must be. A contract on a text is the test it makes; the messages of the
machine contracts are left out.
-/

namespace OnixCore.Inventory

section Registry

def tagFileTags : List String :=
  ["amd-gpu", "audio", "boot-partition-gc", "cloud-hypervisor-guest", "cloud-hypervisor-host",
    "cosmic", "creative", "cross-compile", "desktop", "dev", "dgx-spark", "docker", "gaming",
    "greeter", "grub-theme", "initrd-ssh", "laptop", "laptop-input", "media", "minimal-docs",
    "nvidia", "openpgp", "password-manager", "perf-tuning", "pinenote", "pro-audio", "printing",
    "rdma-cluster", "remote-builders", "ssd-optimization", "taskwarrior", "tenstorrent",
    "thunderbolt-link", "typst", "udev-rules", "vllm-cluster-network", "xdg-portal"]

def serviceTags : List String :=
  ["backup", "homepage-server", "llamacpp-server", "llamacpp-worker", "llm", "llm-client",
    "monitoring", "prometheus", "qwen-code-client", "static-demo", "static-test", "syncthing",
    "tailnet-brittonr", "traefik-desktop"]

def profileTags : List String :=
  ["hm-laptop", "hm-server"]

def allTags : List String := [tagFileTags, serviceTags, profileTags].flatten

def profileNames : List String :=
  ["base", "dev", "noctalia", "creative", "social", "media", "sccache", "kache", "herdr",
    "radicle"]

def autoRoleTags : List String :=
  ["nixos", "darwin", "all"]

def allServiceTags : List String := [allTags, autoRoleTags].flatten

end Registry

section Machines

def hostPart (part : List Char) : Bool :=
  !part.isEmpty && part.all fun c => c.isAlphanum || ['.', '_', '-'].contains c

/-- `^([a-zA-Z0-9._-]+@)?[a-zA-Z0-9._-]+$` -/
def sshHost (value : String) : Bool :=
  match value.toList.splitOn '@' with
  | [host] => hostPart host
  | [user, host] => hostPart user && hostPart host
  | _ => false

def validSystems : List String :=
  ["x86_64-linux", "aarch64-linux", "x86_64-darwin", "aarch64-darwin"]

/-- `^[a-zA-Z0-9]([a-zA-Z0-9-]*[a-zA-Z0-9])?$`, of at most 63 characters -/
def validName (value : String) : Bool :=
  match value.toList with
  | [] => false
  | c :: cs => c.isAlphanum && (cs.getLastD c).isAlphanum
      && cs.all (fun c => c.isAlphanum || c == '-') && value.length ≤ 63

inductive MachineClass where
  | nixos
  | darwin
deriving DecidableEq

structure Deploy where
  targetHost : String
  buildHost : Option String
deriving DecidableEq

structure Addresses where
  lan : Option String
deriving DecidableEq

structure Machine where
  name : String
  system : String
  machineClass : MachineClass
  addresses : Addresses
  tags : List String
  deploy : Deploy
deriving DecidableEq

def Deploy.check (deploy : Deploy) : Bool :=
  sshHost deploy.targetHost && deploy.buildHost.all sshHost

def Machine.check (machine : Machine) : Bool :=
  validName machine.name && validSystems.contains machine.system
    && machine.tags.all allTags.contains && machine.deploy.check

def noConflictingProfiles (machines : List (String × Machine)) : Bool :=
  machines.all fun entry => (entry.2.tags.filter ["hm-laptop", "hm-server"].contains).length ≤ 1

def nameMatchesKey (machines : List (String × Machine)) : Bool :=
  machines.all fun entry => entry.2.name == entry.1

/-- A record that the contract `Machines` accepts, its fields in the order of their names. -/
structure Machines where
  entries : List (String × Machine)
  sorted : (entries.map Prod.fst).Pairwise (· < ·)
  checked : entries.all fun entry => entry.2.check
  profiles : noConflictingProfiles entries
  named : nameMatchesKey entries

def Machines.names (machines : Machines) : List String := machines.entries.map Prod.fst

end Machines

end OnixCore.Inventory
