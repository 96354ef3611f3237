import OnixCore.Lib.Text
import OnixCore.ModuleSchema.Contracts

/-!
# The typed DGX inventory

`inventory/dgx/contracts.ncl`. A contract returns nothing or stops with an error, and a record
contract is closed: it asks for its fields, but for the optional ones, and takes no other. The
patterns are the regular expressions of the source, which the Nix validator repeats.
-/

namespace OnixCore.Dgx

open ModuleSchema

section Patterns

def oneOrMore (p : Char → Bool) (t : Text) : Bool := !t.isEmpty && t.all p

/-- The text after `start` matches. -/
def after (start : String) (rest : Text → Bool) (value : String) : Bool :=
  match Text.stripPrefix start.toList value.toList with
  | some t => rest t
  | none => false

def isHexDigit (c : Char) : Bool := c.isDigit || ('a' ≤ c && c ≤ 'f')

/-- `^[a-zA-Z_][a-zA-Z0-9_-]*$` -/
def machineNamePattern (value : String) : Bool :=
  match value.toList with
  | [] => false
  | c :: cs => (c.isAlpha || c == '_') && cs.all fun c => c.isAlphanum || c == '_' || c == '-'

/-- `^root@[a-zA-Z0-9._-]+$` -/
def targetHostPattern : String → Bool :=
  after "root@" (oneOrMore fun c => c.isAlphanum || ['.', '_', '-'].contains c)

/-- `^/dev/disk/by-id/[a-zA-Z0-9._:+-]+$` -/
def diskPattern : String → Bool :=
  after "/dev/disk/by-id/" (oneOrMore fun c => c.isAlphanum || ['.', '_', ':', '+', '-'].contains c)

/-- One or more of letters, digits, `.`, `_`, `/` and `-`, and nothing else. -/
def relativeFilePattern (value : String) : Bool :=
  oneOrMore (fun c => c.isAlphanum || ['.', '_', '/', '-'].contains c) value.toList

/-- `^SHA256:[a-zA-Z0-9+/=]+$` -/
def sshFingerprintPattern : String → Bool :=
  after "SHA256:" (oneOrMore fun c => c.isAlphanum || ['+', '/', '='].contains c)

/-- `^DGX_[A-Z0-9_]+$` -/
def secretNamePattern : String → Bool :=
  after "DGX_" (oneOrMore fun c => c.isUpper || c.isDigit || c == '_')

/-- `^[a-zA-Z0-9._/+:-]+$` -/
def modelAliasPattern (value : String) : Bool :=
  oneOrMore (fun c => c.isAlphanum || ['.', '_', '/', '+', ':', '-'].contains c) value.toList

/-- `^[a-zA-Z0-9._-]+/[a-zA-Z0-9._-]+$` -/
def modelRepositoryPattern (value : String) : Bool :=
  match value.toList.splitOn '/' with
  | [owner, name] =>
    [owner, name].all (oneOrMore fun c => c.isAlphanum || ['.', '_', '-'].contains c)
  | _ => false

/-- `^[0-9a-f]{40}$` -/
def modelRevisionPattern (value : String) : Bool :=
  value.length == 40 && value.toList.all isHexDigit

/-- `^[a-zA-Z0-9._+:-]+(/[a-zA-Z0-9._+:-]+)*[.]gguf$` -/
def modelFilePattern (value : String) : Bool :=
  ".gguf".toList.isSuffixOf value.toList
    && ((value.toList.rdrop 5).splitOn '/').all (oneOrMore fun c =>
      c.isAlphanum || ['.', '_', '+', ':', '-'].contains c)

/-- `^[0-9a-f]{64}$` -/
def modelSha256Pattern (value : String) : Bool :=
  value.length == 64 && value.toList.all isHexDigit

/-- `.*(REPLACE|replace|placeholder|example).*` -/
def placeholderPattern (value : String) : Bool :=
  ["REPLACE", "replace", "placeholder", "example"].any fun word =>
    value.toList.tails.any word.toList.isPrefixOf

/-- `\.{1,2}(/|$)`, here -/
def dotsThenEnd : Text → Bool
  | ['.'] => true
  | ['.', '.'] => true
  | '.' :: '/' :: _ => true
  | '.' :: '.' :: '/' :: _ => true
  | _ => false

def dotComponentFrom (atStart : Bool) : Text → Bool
  | [] => false
  | c :: cs => atStart && dotsThenEnd (c :: cs) || dotComponentFrom (c == '/') cs

/-- `(^|/)\.{1,2}(/|$)`, anywhere -/
def dotComponentPattern (value : String) : Bool := dotComponentFrom true value.toList

end Patterns

abbrev Contract := Value → Eval Unit

/-- `std.contract.from_validator` -/
def fromValidator (validator : Value → Eval Verdict) : Contract := fun value => do
  match ← validator value with
  | .ok => return ()
  | .error message notes => throw (.blame message notes)

/-- A contract for strings: which it takes, and what it says of the others. -/
def stringContract (holds : String → Bool) (message : String → String) (otherwise : String) :
    Contract :=
  fromValidator fun
    | .str value => return if holds value then .ok else .error (message value) []
    | _ => return .error otherwise []

def quoted (value : String) : String := "\"" ++ value ++ "\""

def requiredSystem : String := "aarch64-linux"

def localBackendUnit : String := "llamacpp-server-dgx-local.service"

def nameContract : Contract :=
  stringContract machineNamePattern (fun value => "invalid Devenv machine name: " ++ quoted value)
    "machine name must be a string"

def requiredSystemContract : Contract :=
  stringContract (· == requiredSystem)
    (fun value => "DGX system must be " ++ requiredSystem ++ ", got " ++ quoted value)
    "system must be a string"

def targetHost : Contract :=
  stringContract (fun value => targetHostPattern value && !placeholderPattern value)
    (fun value => "targetHost must be root@host, got " ++ quoted value)
    "targetHost must be a string"

def stableDisk : Contract :=
  stringContract (fun value => diskPattern value && value != "/dev/disk/by-id/."
      && value != "/dev/disk/by-id/.." && !placeholderPattern value)
    (fun value => "diskById must be a real /dev/disk/by-id path, got " ++ quoted value)
    "diskById must be a string"

def relativeFile : Contract :=
  stringContract (fun value => relativeFilePattern value && !placeholderPattern value)
    (fun value => "file path must be a safe non-placeholder relative path, got " ++ quoted value)
    "file path must be a string"

def hostKeyFingerprint : Contract :=
  stringContract sshFingerprintPattern
    (fun value => "sshHostFingerprint must use SHA256:... form, got " ++ quoted value)
    "sshHostFingerprint must be a string"

def accessPolicy : Contract :=
  stringContract (· == "framework-only")
    (fun value => "accessPolicy must be framework-only, got " ++ quoted value)
    "accessPolicy must be a string"

def secretName : Contract :=
  stringContract secretNamePattern
    (fun value => "runtime secret name must use DGX_* identifier form, got " ++ quoted value)
    "runtime secret name must be a string"

def backendUnit : Contract :=
  stringContract (· == localBackendUnit)
    (fun value => "local backend unit must be " ++ localBackendUnit ++ ", got " ++ quoted value)
    "backend unit must be a string"

def modelAlias : Contract :=
  stringContract modelAliasPattern
    (fun value => "model alias contains unsupported characters: " ++ quoted value)
    "model alias must be a string"

def modelRepository : Contract :=
  stringContract modelRepositoryPattern
    (fun value => "model repository must use owner/name form, got " ++ quoted value)
    "model repository must be a string"

def modelRevision : Contract :=
  stringContract modelRevisionPattern
    (fun value => "model revision must be a 40-character commit, got " ++ quoted value)
    "model revision must be a string"

def modelFile : Contract :=
  stringContract (fun value => modelFilePattern value && !dotComponentPattern value
      && !placeholderPattern value)
    (fun value => "model file must be a safe GGUF path, got " ++ quoted value)
    "model file must be a string"

def modelSha256 : Contract :=
  stringContract modelSha256Pattern
    (fun _ => "model sha256 must be 64 lowercase hexadecimal characters")
    "model sha256 must be a string"

def positiveNumber : Contract :=
  fromValidator fun
    | .num value => return if 0 < value then .ok else .error "must be a positive number" []
    | _ => return .error "must be a positive number" []

def nonNegativeNumber : Contract :=
  fromValidator fun
    | .num value => return if 0 ≤ value then .ok else .error "must be a non-negative number" []
    | _ => return .error "must be a non-negative number" []

/-- `Bool` -/
def boolContract : Contract
  | .bool _ => return ()
  | _ => throw (.blame "contract broken by a value: Bool" [])

/-- `Array String` -/
def arrayString : Contract
  | .arr elems => elems.forM fun
    | .str _ => return ()
    | _ => throw (.blame "contract broken by a value: String" [])
  | _ => throw .notArray

/-- One field of a record contract. -/
structure FieldContract where
  name : String
  contract : Contract
  optional : Bool := false

def recordContract (fields : List FieldContract) : Contract
  | .record values => do
    match values.find? fun value => fields.all fun field => field.name != value.1 with
    | some extra => throw (.blame ("extra field `" ++ extra.1 ++ "`") [])
    | none => fields.forM fun field =>
      match values.lookup field.name with
      | some value => field.contract value
      | none => if field.optional then return () else throw (.missingField field.name)
  | _ => throw .notRecord

/-- `{ _ : contract }` -/
def dictContract (contract : Contract) : Contract
  | .record values => values.forM fun value => contract value.2
  | _ => throw .notRecord

def localModelContract : Contract :=
  recordContract [⟨"alias", modelAlias, false⟩, ⟨"repository", modelRepository, false⟩,
    ⟨"revision", modelRevision, false⟩, ⟨"file", modelFile, false⟩,
    ⟨"sha256", modelSha256, false⟩, ⟨"contextSize", positiveNumber, false⟩,
    ⟨"gpuLayers", nonNegativeNumber, false⟩, ⟨"flashAttention", boolContract, false⟩,
    ⟨"noMmap", boolContract, false⟩, ⟨"enableMetrics", boolContract, false⟩,
    ⟨"extraArgs", arrayString, false⟩]

def backendOwnership : Contract :=
  recordContract [⟨"unit", backendUnit, true⟩, ⟨"externallyManaged", boolContract, false⟩,
    ⟨"modelAlias", modelAlias, false⟩, ⟨"localModel", localModelContract, true⟩]

def runtimeSecretsContract : Contract :=
  recordContract [⟨"tailscaleAuthKey", secretName, false⟩, ⟨"meshJoinToken", secretName, false⟩,
    ⟨"irohPrivateKey", secretName, false⟩, ⟨"irohPublicKey", secretName, false⟩]

def dgxMachineContract : Contract :=
  recordContract [⟨"name", nameContract, false⟩, ⟨"system", requiredSystemContract, false⟩,
    ⟨"targetHost", targetHost, false⟩, ⟨"diskById", stableDisk, false⟩,
    ⟨"diskoModule", relativeFile, false⟩, ⟨"facterReport", relativeFile, false⟩,
    ⟨"knownHostsFile", relativeFile, false⟩, ⟨"sshHostFingerprint", hostKeyFingerprint, false⟩,
    ⟨"accessPolicy", accessPolicy, false⟩, ⟨"runtimeSecrets", runtimeSecretsContract, false⟩,
    ⟨"meshBackend", backendOwnership, false⟩]

/-- Two fields of a record have the same value. -/
def sameField (record : Value) (a b : String) : Eval Bool := do
  return (← record.field a).same (← record.field b)

/-- Two of the runtime secrets have the same name. -/
def secretsCoincide (secrets : Value) : Eval Bool := do
  return (← sameField secrets "tailscaleAuthKey" "meshJoinToken")
    || (← sameField secrets "tailscaleAuthKey" "irohPrivateKey")
    || (← sameField secrets "tailscaleAuthKey" "irohPublicKey")
    || (← sameField secrets "meshJoinToken" "irohPrivateKey")
    || (← sameField secrets "meshJoinToken" "irohPublicKey")
    || (← sameField secrets "irohPrivateKey" "irohPublicKey")

/-- `has_backend_unit` -/
def namesUnit (backend : Value) : Eval Bool := do
  if ← backend.hasField "unit" then
    return !(← backend.field "unit").same (.str "")
  else
    return false

/-- The backend has a local model, whose alias is not the backend's. -/
def aliasDiffers (backend : Value) : Eval Bool := do
  if ← backend.hasField "localModel" then
    return !(← backend.field "modelAlias").same (← (← backend.field "localModel").field "alias")
  else
    return false

/-- What `NameAndPathMatch` says of one machine. -/
def nameAndPathVerdict (key : String) (value : Value) : Eval Verdict := do
  let backend ← value.field "meshBackend"
  let external ← backend.field "externallyManaged"
  let name ← (← value.field "name").text
  if name != key then
    return .error (key ++ ": name " ++ quoted name ++ " does not match attr key") []
  else if !(← value.field "diskoModule").same (.str (".machines/" ++ key ++ "/disko.nix")) then
    return .error (key ++ ": diskoModule must be .machines/" ++ key ++ "/disko.nix") []
  else if !(← value.field "facterReport").same (.str (".machines/" ++ key ++ "/facter.json")) then
    return .error (key ++ ": facterReport must be .machines/" ++ key ++ "/facter.json") []
  else if !(← value.field "knownHostsFile").same (.str (".machines/" ++ key ++ "/known_hosts")) then
    return .error (key ++ ": knownHostsFile must be .machines/" ++ key ++ "/known_hosts") []
  else if ← secretsCoincide (← value.field "runtimeSecrets") then
    return .error (key ++ ": runtime secret names must be distinct") []
  else if (Value.bool (← namesUnit backend)).same external then
    return .error (key ++ ": meshBackend must name one unit or declare external ownership") []
  else if ← both (external.same (.bool true)) (backend.hasField "localModel") then
    return .error (key ++ ": an externally managed backend cannot declare localModel") []
  else if ← both (!external.same (.bool true)) (aliasDiffers backend) then
    return .error (key ++ ": local model alias must match meshBackend.modelAlias") []
  else
    return .ok

def nameAndPathMatch : Contract :=
  fromValidator fun
    | .record machines => do
      let verdicts ← machines.mapM fun entry => nameAndPathVerdict entry.1 entry.2
      return Verdict.ofErrors (verdicts.filter Verdict.isError)
    | _ => throw .notRecord

/-- `DgxMachines` -/
def dgxMachines : Contract :=
  recordContract [⟨"machines", fun machines => do
    dictContract dgxMachineContract machines
    nameAndPathMatch machines, false⟩]

end OnixCore.Dgx
