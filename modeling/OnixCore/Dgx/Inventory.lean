import OnixCore.Dgx.Contracts

/-!
# The DGX inventory on the Nix side

`lib/dgx-machine-inventory.nix`: every machine is checked as it comes, and the errors of all of
them are collected. An attribute that is absent counts as the source's `or` says. Nix reads a number
as an integer when it is integral and has 64 bits.
-/

namespace OnixCore.Dgx

open ModuleSchema

abbrev Attrs := List (String × Value)

def requiredSecretFields : List String :=
  ["tailscaleAuthKey", "meshJoinToken", "irohPrivateKey", "irohPublicKey"]

def requiredFileFields : List String := ["diskoModule", "facterReport", "knownHostsFile"]

def requiredLocalModelFields : List String :=
  ["alias", "repository", "revision", "file", "sha256", "contextSize", "gpuLayers",
    "flashAttention", "noMmap", "enableMetrics", "extraArgs"]

/-- The alias in `rwkv7-profile.nix`. -/
def rwkvProfileAlias : String := "rwkv7-g1i-13.3b-q6-k"

def hasText : Value → Bool
  | .str value => value != ""
  | _ => false

def matchesPattern (pattern : String → Bool) : Value → Bool
  | .str value => pattern value
  | _ => false

def isPlaceholder (value : Value) : Bool := !hasText value || matchesPattern placeholderPattern value

def isSafeRelativeModelPath : Value → Bool
  | .str value => value != "" && (value.toList.splitOn '/').all fun component =>
      component != [] && component != ['.'] && component != ['.', '.']
  | _ => false

/-- `builtins.isInt` -/
def isInt : Value → Bool
  | .num q => q.isInt && -2 ^ 63 ≤ q && q < 2 ^ 63
  | _ => false

/-- What follows the last slash; one at the end does not count. -/
def baseNameOf (path : Text) : Text :=
  let path := if path.length > 1 && path.getLast? == some '/' then path.dropLast else path
  path.rtakeWhile (· ≠ '/')

/-- The attributes of a set, and none of anything else. -/
def attrsOf : Value → Attrs
  | .record attrs => attrs
  | _ => []

def hasAttr (name : String) (attrs : Attrs) : Bool := (attrs.lookup name).isSome

def attrOr (name : String) (attrs : Attrs) (default : Value) : Value :=
  (attrs.lookup name).getD default

/-- `lib.unique` -/
def unique (values : List Value) : List Value :=
  values.foldl (fun acc value => if value.elem acc then acc else acc ++ [value]) []

def errorWhen (condition : Bool) (message : String) : List String :=
  if condition then [message] else []

section Machine

variable (name : String)

/-- The errors of `meshBackend.localModel`. -/
def localModelErrors (hasLocalModel : Bool) (localModelValue : Value) : List String :=
  let localModel := attrsOf localModelValue
  let contextSize := attrOr "contextSize" localModel .null
  let gpuLayers := attrOr "gpuLayers" localModel .null
  let file := attrOr "file" localModel .null
  errorWhen (!localModelValue.isRecord) (name ++ ": meshBackend.localModel must be a record")
    ++ (requiredLocalModelFields.filter fun field => hasLocalModel && !hasAttr field localModel).map
      (fun field => name ++ ": missing local model field " ++ field)
    ++ errorWhen (hasLocalModel && !matchesPattern modelAliasPattern (attrOr "alias" localModel .null))
      (name ++ ": invalid local model alias")
    ++ errorWhen (hasLocalModel
        && !matchesPattern modelRepositoryPattern (attrOr "repository" localModel .null))
      (name ++ ": invalid local model repository")
    ++ errorWhen (hasLocalModel
        && !matchesPattern modelRevisionPattern (attrOr "revision" localModel .null))
      (name ++ ": invalid local model revision")
    ++ errorWhen (hasLocalModel && (!matchesPattern modelFilePattern file
        || !isSafeRelativeModelPath file || isPlaceholder (attrOr "file" localModel (.str ""))))
      (name ++ ": invalid local model GGUF file")
    ++ errorWhen (hasLocalModel
        && !matchesPattern modelSha256Pattern (attrOr "sha256" localModel .null))
      (name ++ ": invalid local model sha256")
    ++ errorWhen (hasLocalModel && (!isInt contextSize || match contextSize with
        | .num q => q ≤ 0
        | _ => false))
      (name ++ ": local model contextSize must be a positive integer")
    ++ errorWhen (hasLocalModel && (!isInt gpuLayers || match gpuLayers with
        | .num q => q < 0
        | _ => false))
      (name ++ ": local model gpuLayers must be a non-negative integer")
    ++ errorWhen (hasLocalModel && !(attrOr "flashAttention" localModel .null).isBool)
      (name ++ ": local model flashAttention must be a boolean")
    ++ errorWhen (hasLocalModel && !(attrOr "noMmap" localModel .null).isBool)
      (name ++ ": local model noMmap must be a boolean")
    ++ errorWhen (hasLocalModel && !(attrOr "enableMetrics" localModel .null).isBool)
      (name ++ ": local model enableMetrics must be a boolean")
    ++ errorWhen (hasLocalModel && !isArrayOfString (attrOr "extraArgs" localModel .null))
      (name ++ ": local model extraArgs must be a string list")

/-- The errors of `runtimeSecrets`. -/
def secretErrors (secrets : Attrs) : List String :=
  let texts := requiredSecretFields.filter fun field =>
    hasAttr field secrets && hasText (attrOr field secrets .null)
  let secretNames := texts.map fun field => attrOr field secrets .null
  (requiredSecretFields.filter fun field => !hasAttr field secrets).map
      (fun field => name ++ ": missing runtime secret name " ++ field)
    ++ (requiredSecretFields.filter fun field => hasAttr field secrets
        && (!hasText (attrOr field secrets .null)
          || !matchesPattern secretNamePattern (attrOr field secrets .null))).map
      (fun field => name ++ ": invalid runtime secret name " ++ field)
    ++ errorWhen ((unique secretNames).length != secretNames.length)
      (name ++ ": runtime secret names must be distinct")

/-- The errors of `meshBackend`, but for those of its local model. -/
def backendErrors (backend : Attrs) : List String :=
  let backendUnit := attrOr "unit" backend .null
  let externallyManaged := attrOr "externallyManaged" backend (.bool false)
  let external := externallyManaged.same (.bool true)
  let modelAlias := attrOr "modelAlias" backend .null
  let hasLocalModel := hasAttr "localModel" backend
  let localAlias := attrOr "alias" (attrsOf (attrOr "localModel" backend (.record []))) .null
  errorWhen (!matchesPattern modelAliasPattern modelAlias)
      (name ++ ": mesh backend modelAlias is invalid")
    ++ errorWhen (hasText backendUnit && !backendUnit.same (.str localBackendUnit))
      (name ++ ": local mesh backend unit must be " ++ localBackendUnit)
    ++ errorWhen ((Value.bool (hasText backendUnit)).same externallyManaged)
      (name ++ ": mesh backend must name one unit or declare external ownership")
    ++ errorWhen (external && hasLocalModel)
      (name ++ ": an externally managed backend cannot declare a local model")
    ++ errorWhen (!external && hasLocalModel && !modelAlias.same localAlias)
      (name ++ ": local model alias must match mesh backend modelAlias")
    ++ errorWhen (!external && !hasLocalModel && !modelAlias.same (.str rwkvProfileAlias))
      (name ++ ": the default local model alias must be " ++ rwkvProfileAlias)

variable (pathExists : String → Bool) (requireFiles : Bool)

/-- The errors of the machine's files. -/
def fileErrors (machine : Attrs) : List String :=
  (requiredFileFields.filter fun field => !hasAttr field machine).map
      (fun field => name ++ ": missing " ++ field)
    ++ (requiredFileFields.filter fun field => hasAttr field machine
        && !hasText (attrOr field machine .null)).map
      (fun field => name ++ ": invalid " ++ field)
    ++ (requiredFileFields.filter fun field => hasAttr field machine
        && hasText (attrOr field machine .null) && requireFiles
        && !matchesPattern pathExists (attrOr field machine .null)).map
      (fun field => name ++ ": " ++ field ++ " does not exist")

/-- The errors of the disk. -/
def diskErrors (diskById : Value) : List String :=
  let diskBaseName := match diskById with
    | .str value => baseNameOf value.toList
    | _ => []
  errorWhen (!hasText diskById
      || !matchesPattern (fun value => "/dev/disk/by-id/".toList.isPrefixOf value.toList) diskById
      || isPlaceholder diskById || diskBaseName == ['.'] || diskBaseName == ['.', '.'])
    (name ++ ": diskById must be a real /dev/disk/by-id path")

def validateMachine (machine : Attrs) : List String :=
  let backendValue := attrOr "meshBackend" machine (.record [])
  let backend := attrsOf backendValue
  let secretsValue := attrOr "runtimeSecrets" machine (.record [])
  let targetHost := attrOr "targetHost" machine .null
  let sshHostFingerprint := attrOr "sshHostFingerprint" machine .null
  errorWhen (!machineNamePattern name) (name ++ ": invalid Devenv machine name")
    ++ errorWhen (!(attrOr "name" machine .null).same (.str name))
      (name ++ ": name does not match its inventory key")
    ++ errorWhen (!(attrOr "system" machine .null).same (.str requiredSystem))
      (name ++ ": system must be " ++ requiredSystem)
    ++ errorWhen (!(attrOr "accessPolicy" machine .null).same (.str "framework-only"))
      (name ++ ": accessPolicy must be framework-only")
    ++ errorWhen (isPlaceholder targetHost || !matchesPattern targetHostPattern targetHost)
      (name ++ ": targetHost must be a real root@host target")
    ++ diskErrors name (attrOr "diskById" machine (.str ""))
    ++ errorWhen (isPlaceholder sshHostFingerprint
        || !matchesPattern sshFingerprintPattern sshHostFingerprint)
      (name ++ ": SSH host fingerprint must use SHA256 form")
    ++ errorWhen (!secretsValue.isRecord) (name ++ ": runtimeSecrets must be a record")
    ++ errorWhen (!backendValue.isRecord) (name ++ ": meshBackend must be a record")
    ++ errorWhen (!(attrOr "externallyManaged" backend (.bool false)).isBool)
      (name ++ ": meshBackend.externallyManaged must be a boolean")
    ++ fileErrors name pathExists requireFiles machine
    ++ secretErrors name (attrsOf secretsValue)
    ++ backendErrors name backend
    ++ localModelErrors name (hasAttr "localModel" backend)
      (attrOr "localModel" backend (.record []))

end Machine

/-- What `validateInventory` returns of its errors. -/
structure InventoryReport where
  duplicateOwners : List String
  errors : List String
  valid : Bool

def validateInventory (machines : Attrs) (clanMachineNames : List String)
    (pathExists : String → Bool) (requireFiles : Bool) : InventoryReport :=
  let duplicateOwners := (machines.map Prod.fst).filter (clanMachineNames.contains ·)
  let machineErrors := machines.flatMap fun entry =>
    match entry.2 with
    | .record machine => validateMachine entry.1 pathExists requireFiles machine
    | _ => [entry.1 ++ ": machine record must be an attribute set"]
  let errors := duplicateOwners.map (fun name => name
    ++ ": machine is owned by both Devenv and Clan") ++ machineErrors
  { duplicateOwners := duplicateOwners, errors := errors, valid := errors.isEmpty }

end OnixCore.Dgx
