import OnixCore.Dgx.Inventory
import OnixCore.ModuleSchema.Proofs.Agreement

/-!
# What the DGX contracts take

A record contract is run on values; on a typed machine, each field of which has the kind the
contract asks for, what it says is a condition on the fields.
-/

namespace OnixCore.Dgx

open ModuleSchema

structure LocalModel where
  aliasName : String
  repository : String
  revision : String
  file : String
  sha256 : String
  contextSize : ℚ
  gpuLayers : ℚ
  flashAttention : Bool
  noMmap : Bool
  enableMetrics : Bool
  extraArgs : List String

def LocalModel.toValue (model : LocalModel) : Value :=
  .record [("alias", .str model.aliasName), ("contextSize", .num model.contextSize),
    ("enableMetrics", .bool model.enableMetrics), ("extraArgs", .arr (model.extraArgs.map .str)),
    ("file", .str model.file), ("flashAttention", .bool model.flashAttention),
    ("gpuLayers", .num model.gpuLayers), ("noMmap", .bool model.noMmap),
    ("repository", .str model.repository), ("revision", .str model.revision),
    ("sha256", .str model.sha256)]

theorem fromValidator_eq_ok {validator : Value → Eval Verdict} {value : Value} :
    fromValidator validator value = .ok () ↔ Accepts validator value := by
  unfold fromValidator Accepts
  rcases validator value with e | _ | ⟨message, notes⟩ <;> simp [bind_eq_ok]

theorem ite_verdict_eq_ok {c : Prop} [Decidable c] {message : String} {notes : List String} :
    (if c then Verdict.ok else .error message notes) = .ok ↔ c := by
  split_ifs with h <;> simp [h]

theorem stringContract_eq_ok {holds : String → Bool} {message : String → String}
    {otherwise value : String} :
    stringContract holds message otherwise (.str value) = .ok () ↔ holds value = true := by
  rw [stringContract, fromValidator_eq_ok, Accepts, pure_eq_ok, ite_verdict_eq_ok]

theorem positiveNumber_eq_ok {q : ℚ} : positiveNumber (.num q) = .ok () ↔ 0 < q := by
  rw [positiveNumber, fromValidator_eq_ok, Accepts, pure_eq_ok, ite_verdict_eq_ok]

theorem nonNegativeNumber_eq_ok {q : ℚ} : nonNegativeNumber (.num q) = .ok () ↔ 0 ≤ q := by
  rw [nonNegativeNumber, fromValidator_eq_ok, Accepts, pure_eq_ok, ite_verdict_eq_ok]

theorem boolContract_eq_ok {b : Bool} : boolContract (.bool b) = .ok () := rfl

theorem arrayString_eq_ok {values : List String} :
    arrayString (.arr (values.map .str)) = .ok () := by
  rw [arrayString, forM_eq_ok]
  simp

/-- A closed record passes when each field passes its contract, or is absent and optional. -/
theorem recordContract_eq_ok {fields : List FieldContract} {values : List (String × Value)}
    (hclosed : values.all (fun value => fields.any fun field => field.name == value.1) = true) :
    recordContract fields (.record values) = .ok () ↔ ∀ field ∈ fields,
      (match values.lookup field.name with
        | some value => field.contract value
        | none => if field.optional then .ok () else .error (.missingField field.name))
        = .ok () := by
  have hnone : (values.find? fun value => fields.all fun field => field.name != value.1) = none := by
    rw [List.find?_eq_none]
    intro value hv hall
    obtain ⟨field, hf, hname⟩ := List.any_eq_true.1 (List.all_eq_true.1 hclosed value hv)
    have := List.all_eq_true.1 hall field hf
    simp [beq_iff_eq.1 hname] at this
  rw [recordContract, hnone]
  exact forM_eq_ok

theorem localModelContract_eq_ok {model : LocalModel} :
    localModelContract model.toValue = .ok ()
      ↔ modelAliasPattern model.aliasName ∧ modelRepositoryPattern model.repository
        ∧ modelRevisionPattern model.revision
        ∧ (modelFilePattern model.file && !dotComponentPattern model.file
          && !placeholderPattern model.file)
        ∧ modelSha256Pattern model.sha256 ∧ 0 < model.contextSize ∧ 0 ≤ model.gpuLayers := by
  rw [localModelContract, LocalModel.toValue, recordContract_eq_ok (by rfl)]
  simp [List.lookup_cons, modelAlias, modelRepository, modelRevision, modelFile, modelSha256,
    stringContract_eq_ok, positiveNumber_eq_ok, nonNegativeNumber_eq_ok, boolContract_eq_ok,
    arrayString_eq_ok, and_assoc]

structure MeshBackend where
  unit : Option String
  externallyManaged : Bool
  modelAlias : String
  localModel : Option LocalModel

structure RuntimeSecrets where
  tailscaleAuthKey : String
  meshJoinToken : String
  irohPrivateKey : String
  irohPublicKey : String

structure DgxMachine where
  name : String
  system : String
  targetHost : String
  diskById : String
  diskoModule : String
  facterReport : String
  knownHostsFile : String
  sshHostFingerprint : String
  accessPolicy : String
  runtimeSecrets : RuntimeSecrets
  meshBackend : MeshBackend

def MeshBackend.toValue (backend : MeshBackend) : Value :=
  .record ([("externallyManaged", .bool backend.externallyManaged)]
    ++ (backend.localModel.map fun model => ("localModel", model.toValue)).toList
    ++ [("modelAlias", .str backend.modelAlias)]
    ++ (backend.unit.map fun unit => ("unit", .str unit)).toList)

def RuntimeSecrets.toValue (secrets : RuntimeSecrets) : Value :=
  .record [("irohPrivateKey", .str secrets.irohPrivateKey),
    ("irohPublicKey", .str secrets.irohPublicKey), ("meshJoinToken", .str secrets.meshJoinToken),
    ("tailscaleAuthKey", .str secrets.tailscaleAuthKey)]

def RuntimeSecrets.names (secrets : RuntimeSecrets) : List String :=
  [secrets.tailscaleAuthKey, secrets.meshJoinToken, secrets.irohPrivateKey, secrets.irohPublicKey]

def DgxMachine.attrs (machine : DgxMachine) : List (String × Value) :=
  [("accessPolicy", .str machine.accessPolicy), ("diskById", .str machine.diskById),
    ("diskoModule", .str machine.diskoModule), ("facterReport", .str machine.facterReport),
    ("knownHostsFile", .str machine.knownHostsFile),
    ("meshBackend", machine.meshBackend.toValue), ("name", .str machine.name),
    ("runtimeSecrets", machine.runtimeSecrets.toValue),
    ("sshHostFingerprint", .str machine.sshHostFingerprint), ("system", .str machine.system),
    ("targetHost", .str machine.targetHost)]

theorem runtimeSecretsContract_eq_ok {secrets : RuntimeSecrets} :
    runtimeSecretsContract secrets.toValue = .ok ()
      ↔ ∀ name ∈ secrets.names, secretNamePattern name = true := by
  rw [runtimeSecretsContract, RuntimeSecrets.toValue, recordContract_eq_ok (by rfl)]
  simp [List.lookup_cons, secretName, stringContract_eq_ok, RuntimeSecrets.names]

theorem backendOwnership_eq_ok {backend : MeshBackend} :
    backendOwnership backend.toValue = .ok ()
      ↔ (∀ unit, backend.unit = some unit → unit = localBackendUnit)
        ∧ modelAliasPattern backend.modelAlias = true
        ∧ ∀ model, backend.localModel = some model → localModelContract model.toValue = .ok () := by
  rcases backend with ⟨_ | unit, external, modelAliasText, _ | model⟩ <;>
  · rw [backendOwnership, MeshBackend.toValue, recordContract_eq_ok (by rfl)]
    simp [List.lookup_cons, backendUnit, modelAlias, stringContract_eq_ok, boolContract_eq_ok]

theorem dgxMachineContract_eq_ok {machine : DgxMachine} :
    dgxMachineContract (.record machine.attrs) = .ok ()
      ↔ machineNamePattern machine.name = true ∧ machine.system = requiredSystem
        ∧ (targetHostPattern machine.targetHost && !placeholderPattern machine.targetHost) = true
        ∧ (diskPattern machine.diskById && machine.diskById != "/dev/disk/by-id/."
          && machine.diskById != "/dev/disk/by-id/.." && !placeholderPattern machine.diskById) = true
        ∧ (∀ path ∈ [machine.diskoModule, machine.facterReport, machine.knownHostsFile],
          (relativeFilePattern path && !placeholderPattern path) = true)
        ∧ sshFingerprintPattern machine.sshHostFingerprint = true
        ∧ machine.accessPolicy = "framework-only"
        ∧ runtimeSecretsContract machine.runtimeSecrets.toValue = .ok ()
        ∧ backendOwnership machine.meshBackend.toValue = .ok () := by
  rw [dgxMachineContract, DgxMachine.attrs, recordContract_eq_ok (by rfl)]
  simp [List.lookup_cons, nameContract, requiredSystemContract, targetHost, stableDisk, relativeFile,
    hostKeyFingerprint, accessPolicy, stringContract_eq_ok, and_assoc]

theorem secretsCoincide_eq {secrets : RuntimeSecrets} :
    secretsCoincide secrets.toValue = .ok (!decide secrets.names.Nodup) := by
  have htailscale : secrets.toValue.field "tailscaleAuthKey"
      = .ok (.str secrets.tailscaleAuthKey) := rfl
  have hmesh : secrets.toValue.field "meshJoinToken" = .ok (.str secrets.meshJoinToken) := rfl
  have hprivate : secrets.toValue.field "irohPrivateKey" = .ok (.str secrets.irohPrivateKey) := rfl
  have hpublic : secrets.toValue.field "irohPublicKey" = .ok (.str secrets.irohPublicKey) := rfl
  simp only [secretsCoincide, sameField, htailscale, hmesh, hprivate, hpublic, RuntimeSecrets.names,
    Value.same_str, bind, Except.bind, pure, Except.pure, Except.ok.injEq]
  simp [Bool.or_assoc, Bool.beq_eq_decide_eq]

theorem namesUnit_eq {backend : MeshBackend} :
    namesUnit backend.toValue = .ok (backend.unit.any (· != "")) := by
  rcases backend with ⟨_ | unit, external, modelAlias, _ | model⟩
  · rfl
  · rfl
  · exact congrArg (fun b => Except.ok !b) Value.same_str
  · exact congrArg (fun b => Except.ok !b) Value.same_str

theorem aliasDiffers_eq {backend : MeshBackend} : aliasDiffers backend.toValue
    = .ok (backend.localModel.any (backend.modelAlias != ·.aliasName)) := by
  rcases backend with ⟨_ | unit, external, modelAlias, _ | model⟩
  · rfl
  · exact congrArg (fun b => Except.ok !b) Value.same_str
  · rfl
  · exact congrArg (fun b => Except.ok !b) Value.same_str

theorem nameAndPathVerdict_eq_ok {key : String} {machine : DgxMachine} :
    nameAndPathVerdict key (.record machine.attrs) = .ok .ok
      ↔ machine.name = key
        ∧ machine.diskoModule = ".machines/" ++ key ++ "/disko.nix"
        ∧ machine.facterReport = ".machines/" ++ key ++ "/facter.json"
        ∧ machine.knownHostsFile = ".machines/" ++ key ++ "/known_hosts"
        ∧ machine.runtimeSecrets.names.Nodup
        ∧ machine.meshBackend.unit.any (· != "") ≠ machine.meshBackend.externallyManaged
        ∧ (machine.meshBackend.externallyManaged = true → machine.meshBackend.localModel = none)
        ∧ ∀ model, machine.meshBackend.externallyManaged = false →
          machine.meshBackend.localModel = some model →
            machine.meshBackend.modelAlias = model.aliasName := by
  have hdisko : (Value.record machine.attrs).field "diskoModule" = .ok (.str machine.diskoModule) := rfl
  have hfacter : (Value.record machine.attrs).field "facterReport"
      = .ok (.str machine.facterReport) := rfl
  have hknown : (Value.record machine.attrs).field "knownHostsFile"
      = .ok (.str machine.knownHostsFile) := rfl
  have hname : (Value.record machine.attrs).field "name" = .ok (.str machine.name) := rfl
  have hsecrets : (Value.record machine.attrs).field "runtimeSecrets"
      = .ok machine.runtimeSecrets.toValue := rfl
  have hbackend : (Value.record machine.attrs).field "meshBackend"
      = .ok machine.meshBackend.toValue := rfl
  have hexternal : machine.meshBackend.toValue.field "externallyManaged"
      = .ok (.bool machine.meshBackend.externallyManaged) := rfl
  have hlocal : machine.meshBackend.toValue.hasField "localModel"
      = .ok machine.meshBackend.localModel.isSome := by
    rcases machine.meshBackend with ⟨_ | unit, external, modelAlias, _ | model⟩ <;> rfl
  unfold nameAndPathVerdict
  simp only [hdisko, hfacter, hknown, hname, hsecrets, hbackend, hexternal, hlocal, Value.text,
    secretsCoincide_eq, namesUnit_eq, aliasDiffers_eq, bind_eq_ok, ite_return_eq_ok,
    Except.ok.injEq, exists_eq_left', Value.same_str, pure_eq_ok]
  rcases machine.meshBackend with ⟨unit, _ | _, modelAlias, _ | model⟩ <;>
    simp [both, Value.same]

def inventoryValue (machines : List (String × DgxMachine)) : Value :=
  .record [("machines", .record (machines.map fun entry => (entry.1, .record entry.2.attrs)))]

theorem nameAndPathMatch_eq_ok {machines : List (String × Value)} :
    nameAndPathMatch (.record machines) = .ok ()
      ↔ ∀ entry ∈ machines, nameAndPathVerdict entry.1 entry.2 = .ok .ok := by
  rw [nameAndPathMatch, fromValidator_eq_ok, Accepts, bind_eq_ok]
  simp only [pure_eq_ok]
  constructor
  · rintro ⟨verdicts, hmap, hverdicts⟩ entry he
    obtain ⟨verdict, hv⟩ := mapM_ok_mem hmap entry he
    have hmem : verdict ∈ verdicts := (mem_of_mapM hmap).2 ⟨entry, he, hv⟩
    rw [ofErrors_eq_ok (by simp [Verdict.isError]), List.filter_eq_nil_iff] at hverdicts
    have := hverdicts verdict hmem
    rcases verdict with _ | ⟨message, notes⟩
    · exact hv
    · exact absurd rfl this
  · intro h
    obtain ⟨verdicts, hmap⟩ := exists_mapM fun entry he => ⟨_, h entry he⟩
    refine ⟨verdicts, hmap, ?_⟩
    rw [ofErrors_eq_ok (by simp [Verdict.isError]), List.filter_eq_nil_iff]
    intro verdict hv
    obtain ⟨entry, he, hverdict⟩ := (mem_of_mapM hmap).1 hv
    obtain rfl := Except.ok.inj (hverdict.symm.trans (h entry he))
    simp [Verdict.isError]

theorem dgxMachines_eq_ok {machines : List (String × DgxMachine)} :
    dgxMachines (inventoryValue machines) = .ok ()
      ↔ ∀ entry ∈ machines, dgxMachineContract (.record entry.2.attrs) = .ok ()
        ∧ nameAndPathVerdict entry.1 (.record entry.2.attrs) = .ok .ok := by
  rw [dgxMachines, inventoryValue, recordContract_eq_ok (by rfl)]
  simp only [List.mem_singleton, forall_eq, List.lookup_cons, beq_self_eq_true, bind_eq_ok,
    nameAndPathMatch_eq_ok, List.forall_mem_map]
  rw [dictContract]
  simp only [forM_eq_ok, List.forall_mem_map, exists_const]
  exact forall₂_and.symm

end OnixCore.Dgx
