import OnixCore.Dgx.Proofs.Contracts
import OnixCore.Dgx.Proofs.Paths

/-!
# The two DGX validators

What the contracts and the Nix checks ask of one machine is split into the rules that both have and
those of one side. On an inventory that keeps the shared rules they agree exactly when it keeps the
contracts' own rules if and only if it keeps those of Nix.
-/

namespace OnixCore.Dgx

open ModuleSchema

theorem hasText_of_matches (pattern : String → Bool) {value : String}
    (hempty : pattern "" = false) (h : pattern value = true) : hasText (.str value) = true := by
  rw [hasText, bne_iff_ne]
  rintro rfl
  exact absurd h (by simp [hempty])

theorem localModelErrors_eq_nil {name : String} {model : LocalModel} :
    localModelErrors name true model.toValue = []
      ↔ modelAliasPattern model.aliasName = true ∧ modelRepositoryPattern model.repository = true
        ∧ modelRevisionPattern model.revision = true
        ∧ (modelFilePattern model.file = true ∧ isSafeRelativeModelPath (.str model.file) = true
          ∧ isPlaceholder (.str model.file) = false)
        ∧ modelSha256Pattern model.sha256 = true
        ∧ (isInt (.num model.contextSize) = true ∧ 0 < model.contextSize)
        ∧ isInt (.num model.gpuLayers) = true ∧ 0 ≤ model.gpuLayers := by
  unfold localModelErrors
  simp [List.append_eq_nil_iff, errorWhen_eq_nil, LocalModel.toValue, attrsOf, attrOr, hasAttr,
    List.lookup_cons, matchesPattern, Value.isRecord, requiredLocalModelFields, Value.isBool,
    isArrayOfString, and_assoc]
  intros
  rfl

/-- `lib.unique` keeps the length of a list exactly when the list has no value twice. -/
theorem length_unique_eq {values : List String} :
    (unique (values.map .str)).length = values.length ↔ values.Nodup := by
  have key : ∀ (values seen : List String),
      ((values.map Value.str).foldl (fun acc value => if value.elem acc then acc else acc ++ [value])
        (seen.map .str)).length ≤ seen.length + values.length
      ∧ (((values.map Value.str).foldl
          (fun acc value => if value.elem acc then acc else acc ++ [value])
          (seen.map .str)).length = seen.length + values.length
        ↔ values.Nodup ∧ ∀ value ∈ values, value ∉ seen) := by
    intro values
    induction values with
    | nil => simp
    | cons value values ih =>
      intro seen
      rw [List.map_cons, List.foldl_cons]
      by_cases hmem : value ∈ seen
      · have helem : (Value.str value).elem (seen.map .str) = true := by simpa [Value.elem] using hmem
        rw [if_pos helem]
        obtain ⟨hle, -⟩ := ih seen
        refine ⟨by simp; omega, ⟨fun heq => ?_, fun h => absurd hmem (h.2 value (by simp))⟩⟩
        simp only [List.length_cons] at heq
        omega
      · have helem : ¬ (Value.str value).elem (seen.map .str) = true := by
          simpa [Value.elem] using hmem
        rw [if_neg helem]
        obtain ⟨hle, hiff⟩ := ih (seen ++ [value])
        simp only [List.map_append, List.map_cons, List.map_nil, List.length_append,
          List.length_cons, List.length_nil] at hle hiff
        refine ⟨by simp only [List.length_cons]; omega, ?_⟩
        rw [List.length_cons, show seen.length + (values.length + 1)
          = seen.length + (0 + 1) + values.length by omega, hiff, List.nodup_cons]
        constructor
        · rintro ⟨hnodup, hnew⟩
          refine ⟨⟨fun h => hnew value h (by simp), hnodup⟩, ?_⟩
          intro other ho
          rcases List.mem_cons.1 ho with rfl | ho
          · exact hmem
          · exact fun h => hnew other ho (by simp [h])
        · rintro ⟨⟨hnew, hnodup⟩, hall⟩
          refine ⟨hnodup, fun other ho h => ?_⟩
          rcases List.mem_append.1 h with h | h
          · exact hall other (List.mem_cons_of_mem _ ho) h
          · exact hnew (by rwa [List.mem_singleton.1 h] at ho)
  simpa [unique] using (key values []).2

theorem secretErrors_eq_nil {name : String} {secrets : RuntimeSecrets} :
    secretErrors name (attrsOf secrets.toValue) = []
      ↔ (∀ name ∈ secrets.names, secretNamePattern name = true) ∧ secrets.names.Nodup := by
  have hnames : requiredSecretFields.map (fun field => attrOr field (attrsOf secrets.toValue) .null)
      = secrets.names.map .str := rfl
  have hhas : ∀ field ∈ requiredSecretFields, hasAttr field (attrsOf secrets.toValue) = true := by
    simp [requiredSecretFields, RuntimeSecrets.toValue, attrsOf, hasAttr, List.lookup_cons]
  generalize attrsOf secrets.toValue = attrs at hnames hhas
  have hvalid : (∀ field ∈ requiredSecretFields, ∃ text, attrOr field attrs .null = .str text
      ∧ secretNamePattern text = true) ↔ ∀ name ∈ secrets.names, secretNamePattern name = true := by
    constructor
    · intro h name hn
      obtain ⟨field, hf, heq⟩ := List.mem_map.1 (hnames ▸ List.mem_map_of_mem (f := Value.str) hn)
      obtain ⟨text, ht, hpattern⟩ := h field hf
      obtain rfl := Value.str.inj (ht.symm.trans heq)
      exact hpattern
    · intro h field hf
      obtain ⟨text, ht, heq⟩ := List.mem_map.1 (hnames ▸ List.mem_map_of_mem (f := fun field => attrOr field attrs .null) hf)
      exact ⟨text, heq.symm, h text ht⟩
  have hmissing : (requiredSecretFields.filter fun field => !hasAttr field attrs) = [] := by
    simpa [List.filter_eq_nil_iff] using hhas
  have hinvalid : (requiredSecretFields.filter fun field => hasAttr field attrs
      && (!hasText (attrOr field attrs .null)
        || !matchesPattern secretNamePattern (attrOr field attrs .null))) = []
      ↔ ∀ field ∈ requiredSecretFields, ∃ text, attrOr field attrs .null = .str text
        ∧ secretNamePattern text = true := by
    rw [List.filter_eq_nil_iff]
    refine forall₂_congr fun field hf => ?_
    rcases attrOr field attrs .null with _ | _ | _ | text | _ | _ | _
    case str =>
      simp only [hhas field hf, matchesPattern, Value.str.injEq, exists_eq_left', Bool.true_and,
        Bool.or_eq_true, Bool.not_eq_true', not_or, Bool.not_eq_false]
      exact ⟨And.right, fun h => ⟨hasText_of_matches secretNamePattern (by decide) h, h⟩⟩
    all_goals simp [hhas field hf, hasText, matchesPattern]
  unfold secretErrors
  simp only [List.append_eq_nil_iff, List.map_eq_nil_iff, hmissing, true_and, hinvalid,
    errorWhen_eq_nil, List.length_map, bne_eq_false_iff_eq]
  rw [← hvalid]
  refine and_congr_right fun h => ?_
  have htexts : (requiredSecretFields.filter fun field => hasAttr field attrs
      && hasText (attrOr field attrs .null)) = requiredSecretFields := by
    refine List.filter_eq_self.2 fun field hf => ?_
    obtain ⟨text, ht, hpattern⟩ := h field hf
    rw [hhas field hf, ht, hasText_of_matches secretNamePattern (by decide) hpattern]
    rfl
  rw [htexts, hnames]
  exact length_unique_eq

theorem backendErrors_eq_nil {name : String} {backend : MeshBackend} :
    backendErrors name (attrsOf backend.toValue) = []
      ↔ modelAliasPattern backend.modelAlias = true
        ∧ (∀ unit, backend.unit = some unit → unit ≠ "" → unit = localBackendUnit)
        ∧ backend.unit.any (· != "") ≠ backend.externallyManaged
        ∧ (backend.externallyManaged = true → backend.localModel = none)
        ∧ (∀ model, backend.externallyManaged = false → backend.localModel = some model →
          backend.modelAlias = model.aliasName)
        ∧ (backend.externallyManaged = false → backend.localModel = none →
          backend.modelAlias = rwkvProfileAlias) := by
  rcases backend with ⟨_ | unit, _ | _, modelAlias, _ | model⟩ <;>
  · simp [backendErrors, List.append_eq_nil_iff, errorWhen_eq_nil, MeshBackend.toValue,
      LocalModel.toValue, attrsOf, attrOr, hasAttr, List.lookup_cons, matchesPattern, hasText, Value.same]

theorem fileErrors_eq_nil {name : String} {pathExists : String → Bool} {machine : DgxMachine} :
    fileErrors name pathExists false machine.attrs = []
      ↔ ∀ path ∈ [machine.diskoModule, machine.facterReport, machine.knownHostsFile], path ≠ "" := by
  simp [fileErrors, requiredFileFields, DgxMachine.attrs, hasAttr, attrOr, List.lookup_cons, hasText]

/-- The rules for a local model that stand on both sides. -/
structure LocalModelRules (model : LocalModel) : Prop where
  alias_matches : modelAliasPattern model.aliasName = true
  repository_matches : modelRepositoryPattern model.repository = true
  revision_matches : modelRevisionPattern model.revision = true
  file_matches : modelFilePattern model.file = true
  file_safe : dotComponentPattern model.file = false
  file_real : placeholderPattern model.file = false
  sha256_matches : modelSha256Pattern model.sha256 = true
  context_pos : 0 < model.contextSize
  layers_nonneg : 0 ≤ model.gpuLayers

theorem localModelContract_iff {model : LocalModel} :
    localModelContract model.toValue = .ok () ↔ LocalModelRules model := by
  rw [localModelContract_eq_ok]
  simp only [Bool.and_eq_true, Bool.not_eq_true']
  constructor
  · rintro ⟨halias, hrepository, hrevision, ⟨⟨hfile, hsafe⟩, hreal⟩, hsha, hcontext, hlayers⟩
    exact ⟨halias, hrepository, hrevision, hfile, hsafe, hreal, hsha, hcontext, hlayers⟩
  · rintro ⟨halias, hrepository, hrevision, hfile, hsafe, hreal, hsha, hcontext, hlayers⟩
    exact ⟨halias, hrepository, hrevision, ⟨⟨hfile, hsafe⟩, hreal⟩, hsha, hcontext, hlayers⟩

theorem isPlaceholder_eq (pattern : String → Bool) {value : String}
    (hempty : pattern "" = false) (h : pattern value = true) :
    isPlaceholder (.str value) = placeholderPattern value := by
  rw [isPlaceholder, hasText_of_matches pattern hempty h, matchesPattern]
  rfl

theorem localModelErrors_iff {name : String} {model : LocalModel} :
    localModelErrors name true model.toValue = [] ↔ LocalModelRules model
      ∧ isInt (.num model.contextSize) = true ∧ isInt (.num model.gpuLayers) = true := by
  rw [localModelErrors_eq_nil]
  constructor
  · rintro ⟨halias, hrepository, hrevision, ⟨hfile, hsafe, hreal⟩, hsha, ⟨hint, hcontext⟩, hint',
      hlayers⟩
    rw [isPlaceholder_eq modelFilePattern (by decide) hfile] at hreal
    exact ⟨⟨halias, hrepository, hrevision, hfile, (isSafeRelativeModelPath_iff hfile).1 hsafe, hreal,
      hsha, hcontext, hlayers⟩, hint, hint'⟩
  · rintro ⟨⟨halias, hrepository, hrevision, hfile, hsafe, hreal, hsha, hcontext, hlayers⟩, hint,
      hint'⟩
    rw [← isPlaceholder_eq modelFilePattern (by decide) hfile] at hreal
    exact ⟨halias, hrepository, hrevision, ⟨hfile, (isSafeRelativeModelPath_iff hfile).2 hsafe, hreal⟩,
      hsha, ⟨hint, hcontext⟩, hint', hlayers⟩

/-- The rules for one machine that stand on both sides. -/
structure SharedRules (key : String) (machine : DgxMachine) : Prop where
  key_matches : machineNamePattern key = true
  name_eq : machine.name = key
  system_eq : machine.system = requiredSystem
  access_eq : machine.accessPolicy = "framework-only"
  host_matches : targetHostPattern machine.targetHost = true
  host_real : placeholderPattern machine.targetHost = false
  disk_real : diskErrors key (.str machine.diskById) = []
  paths_named : ∀ path ∈ [machine.diskoModule, machine.facterReport, machine.knownHostsFile],
    path ≠ ""
  fingerprint_matches : sshFingerprintPattern machine.sshHostFingerprint = true
  secrets_match : ∀ name ∈ machine.runtimeSecrets.names, secretNamePattern name = true
  secrets_distinct : machine.runtimeSecrets.names.Nodup
  alias_matches : modelAliasPattern machine.meshBackend.modelAlias = true
  unit_eq : ∀ unit, machine.meshBackend.unit = some unit → unit ≠ "" → unit = localBackendUnit
  owned_once : machine.meshBackend.unit.any (· != "") ≠ machine.meshBackend.externallyManaged
  external_plain : machine.meshBackend.externallyManaged = true →
    machine.meshBackend.localModel = none
  alias_eq : ∀ model, machine.meshBackend.externallyManaged = false →
    machine.meshBackend.localModel = some model → machine.meshBackend.modelAlias = model.aliasName
  model_matches : ∀ model, machine.meshBackend.localModel = some model → LocalModelRules model

/-- The rules that only the contracts have. -/
structure ContractRules (key : String) (machine : DgxMachine) : Prop where
  disk_matches : diskPattern machine.diskById = true
  disko_eq : machine.diskoModule = ".machines/" ++ key ++ "/disko.nix"
  facter_eq : machine.facterReport = ".machines/" ++ key ++ "/facter.json"
  knownHosts_eq : machine.knownHostsFile = ".machines/" ++ key ++ "/known_hosts"
  paths_real : ∀ path ∈ [machine.diskoModule, machine.facterReport, machine.knownHostsFile],
    placeholderPattern path = false
  unit_named : machine.meshBackend.unit ≠ some ""

/-- The rules that only Nix has. -/
structure NixRules (machine : DgxMachine) : Prop where
  fingerprint_real : placeholderPattern machine.sshHostFingerprint = false
  model_integral : ∀ model, machine.meshBackend.localModel = some model →
    isInt (.num model.contextSize) = true ∧ isInt (.num model.gpuLayers) = true
  default_alias : machine.meshBackend.externallyManaged = false →
    machine.meshBackend.localModel = none → machine.meshBackend.modelAlias = rwkvProfileAlias

theorem contracts_eq_ok {key : String} {machine : DgxMachine} :
    (dgxMachineContract (.record machine.attrs) = .ok ()
        ∧ nameAndPathVerdict key (.record machine.attrs) = .ok .ok)
      ↔ SharedRules key machine ∧ ContractRules key machine := by
  rw [dgxMachineContract_eq_ok, nameAndPathVerdict_eq_ok, stableDisk_iff key,
    runtimeSecretsContract_eq_ok, backendOwnership_eq_ok]
  simp only [localModelContract_iff, Bool.and_eq_true, Bool.not_eq_true']
  constructor
  · rintro ⟨⟨hname, hsystem, ⟨hhost, hreal⟩, ⟨hdisk, hdiskPattern⟩, hpaths, hfingerprint, haccess,
      hsecrets, hunit, halias, hmodel⟩, rfl, hdisko, hfacter, hknown, hdistinct, howned, hexternal,
      haliasEq⟩
    have hpath : ∀ path ∈ [machine.diskoModule, machine.facterReport, machine.knownHostsFile],
        path ≠ "" := by
      rintro path hpath rfl
      exact absurd (hpaths _ hpath).1 (by decide)
    exact ⟨{ key_matches := hname, name_eq := rfl, system_eq := hsystem, access_eq := haccess
             host_matches := hhost, host_real := hreal, disk_real := hdisk, paths_named := hpath
             fingerprint_matches := hfingerprint, secrets_match := hsecrets
             secrets_distinct := hdistinct, alias_matches := halias
             unit_eq := fun unit h _ => hunit unit h, owned_once := howned
             external_plain := hexternal, alias_eq := haliasEq
             model_matches := hmodel },
           { disk_matches := hdiskPattern, disko_eq := hdisko, facter_eq := hfacter
             knownHosts_eq := hknown, paths_real := fun path h => (hpaths path h).2
             unit_named := fun h => absurd (hunit "" h) (by decide) }⟩
  · rintro ⟨hshared, hcontract⟩
    have hname : machineNamePattern machine.name = true := hshared.name_eq ▸ hshared.key_matches
    have hpaths : ∀ path ∈ [machine.diskoModule, machine.facterReport, machine.knownHostsFile],
        relativeFilePattern path = true := by
      simp only [List.mem_cons, List.not_mem_nil, or_false, forall_eq_or_imp, forall_eq,
        hcontract.disko_eq, hcontract.facter_eq, hcontract.knownHosts_eq]
      exact ⟨relativeFile_machines hshared.key_matches (List.all_eq_true.1 (by decide)),
        relativeFile_machines hshared.key_matches (List.all_eq_true.1 (by decide)),
        relativeFile_machines hshared.key_matches (List.all_eq_true.1 (by decide))⟩
    have hunit : ∀ unit, machine.meshBackend.unit = some unit → unit = localBackendUnit :=
      fun unit h => hshared.unit_eq unit h fun hempty => hcontract.unit_named (hempty ▸ h)
    exact ⟨⟨hname, hshared.system_eq, ⟨hshared.host_matches, hshared.host_real⟩,
      ⟨hshared.disk_real, hcontract.disk_matches⟩,
      fun path h => ⟨hpaths path h, hcontract.paths_real path h⟩, hshared.fingerprint_matches,
      hshared.access_eq, hshared.secrets_match, hunit, hshared.alias_matches,
      hshared.model_matches⟩,
      hshared.name_eq, hcontract.disko_eq, hcontract.facter_eq, hcontract.knownHosts_eq,
      hshared.secrets_distinct, hshared.owned_once, hshared.external_plain, hshared.alias_eq⟩

/-- The errors of a backend's local model are none when there is no model. -/
theorem localErrors_eq_nil {name : String} {backend : MeshBackend} :
    localModelErrors name (hasAttr "localModel" (attrsOf backend.toValue))
        (attrOr "localModel" (attrsOf backend.toValue) (.record [])) = []
      ↔ ∀ model, backend.localModel = some model →
        localModelErrors name true model.toValue = [] := by
  have hnone : localModelErrors name false (.record []) = [] := by
    simp [localModelErrors, errorWhen, Value.isRecord]
  have hmodel : ∀ model : LocalModel, localModelErrors name true model.toValue = []
      ↔ ∀ other, some model = some other → localModelErrors name true other.toValue = [] := by
    simp
  rcases backend with ⟨_ | unit, external, modelAlias, _ | model⟩
  case none.none | some.none => exact iff_of_true hnone (by simp)
  case none.some | some.some => exact hmodel model

theorem validateMachine_eq_nil {key : String} {pathExists : String → Bool} {machine : DgxMachine} :
    validateMachine key pathExists false machine.attrs = []
      ↔ SharedRules key machine ∧ NixRules machine := by
  have hname : attrOr "name" machine.attrs .null = .str machine.name := rfl
  have hsystem : attrOr "system" machine.attrs .null = .str machine.system := rfl
  have haccess : attrOr "accessPolicy" machine.attrs .null = .str machine.accessPolicy := rfl
  have hhost : attrOr "targetHost" machine.attrs .null = .str machine.targetHost := rfl
  have hdisk : attrOr "diskById" machine.attrs (.str "") = .str machine.diskById := rfl
  have hfingerprint : attrOr "sshHostFingerprint" machine.attrs .null
      = .str machine.sshHostFingerprint := rfl
  have hsecrets : attrOr "runtimeSecrets" machine.attrs (.record [])
      = machine.runtimeSecrets.toValue := rfl
  have hbackend : attrOr "meshBackend" machine.attrs (.record []) = machine.meshBackend.toValue :=
    rfl
  have hexternal : attrOr "externallyManaged" (attrsOf machine.meshBackend.toValue) (.bool false)
      = .bool machine.meshBackend.externallyManaged := rfl
  have hrecord : machine.runtimeSecrets.toValue.isRecord = true := rfl
  have hrecord' : machine.meshBackend.toValue.isRecord = true := rfl
  unfold validateMachine
  simp only [hname, hsystem, haccess, hhost, hdisk, hfingerprint, hsecrets, hbackend, hexternal,
    hrecord, hrecord', List.append_eq_nil_iff, errorWhen_eq_nil, fileErrors_eq_nil,
    secretErrors_eq_nil, backendErrors_eq_nil, localErrors_eq_nil, localModelErrors_iff,
    Value.same_str, isPlaceholder, matchesPattern, Value.isBool, Bool.not_eq_false',
    Bool.or_eq_false_iff, Bool.not_true, and_true, beq_iff_eq]
  constructor
  · rintro ⟨⟨⟨⟨⟨⟨⟨⟨⟨⟨hkey, hnameEq⟩, hsystemEq⟩, haccessEq⟩, ⟨-, hreal⟩, hmatches⟩, hdiskEq⟩,
      ⟨-, hfpReal⟩, hfp⟩, hpaths⟩, hsecretsMatch, hdistinct⟩, halias, hunit, howned, hexternalPlain,
      haliasEq, hdefault⟩, hmodel⟩
    exact ⟨{ key_matches := hkey, name_eq := hnameEq, system_eq := hsystemEq, access_eq := haccessEq
             host_matches := hmatches, host_real := hreal, disk_real := hdiskEq
             paths_named := hpaths, fingerprint_matches := hfp, secrets_match := hsecretsMatch
             secrets_distinct := hdistinct, alias_matches := halias, unit_eq := hunit
             owned_once := howned, external_plain := hexternalPlain, alias_eq := haliasEq
             model_matches := fun model h => (hmodel model h).1 },
           { fingerprint_real := hfpReal, model_integral := fun model h => (hmodel model h).2
             default_alias := hdefault }⟩
  · rintro ⟨hshared, hnix⟩
    have hhostText := hasText_of_matches _ (by decide) hshared.host_matches
    have hfingerprintText := hasText_of_matches _ (by decide) hshared.fingerprint_matches
    exact ⟨⟨⟨⟨⟨⟨⟨⟨⟨⟨hshared.key_matches, hshared.name_eq⟩, hshared.system_eq⟩, hshared.access_eq⟩,
      ⟨hhostText, hshared.host_real⟩, hshared.host_matches⟩, hshared.disk_real⟩,
      ⟨hfingerprintText, hnix.fingerprint_real⟩, hshared.fingerprint_matches⟩, hshared.paths_named⟩,
      hshared.secrets_match, hshared.secrets_distinct⟩, hshared.alias_matches, hshared.unit_eq,
      hshared.owned_once, hshared.external_plain, hshared.alias_eq, hnix.default_alias⟩,
      fun model h => ⟨hshared.model_matches model h, hnix.model_integral model h⟩⟩

/-- The contract takes an inventory. -/
def Accepted (machines : List (String × DgxMachine)) : Prop :=
  dgxMachines (inventoryValue machines) = .ok ()

/-- Nix finds an inventory valid, with no machine of Clan's and no file looked for. -/
def Valid (pathExists : String → Bool) (machines : List (String × DgxMachine)) : Prop :=
  (validateInventory (machines.map fun entry => (entry.1, .record entry.2.attrs)) []
    pathExists false).valid = true

theorem accepted_iff {machines : List (String × DgxMachine)} :
    Accepted machines ↔ (∀ entry ∈ machines, SharedRules entry.1 entry.2)
      ∧ ∀ entry ∈ machines, ContractRules entry.1 entry.2 := by
  rw [Accepted, dgxMachines_eq_ok]
  simp only [contracts_eq_ok]
  exact forall₂_and

theorem valid_iff {pathExists : String → Bool} {machines : List (String × DgxMachine)} :
    Valid pathExists machines ↔ (∀ entry ∈ machines, SharedRules entry.1 entry.2)
      ∧ ∀ entry ∈ machines, NixRules entry.2 := by
  simp only [Valid, validateInventory, List.isEmpty_iff, List.append_eq_nil_iff, List.map_eq_nil_iff,
    List.filter_eq_nil_iff, List.contains_nil, List.flatMap_eq_nil_iff, List.forall_mem_map,
    validateMachine_eq_nil, Bool.false_eq_true, not_false_eq_true, implies_true, true_and]
  exact forall₂_and

theorem validators_agree_iff (pathExists : String → Bool) (machines : List (String × DgxMachine)) :
    (Accepted machines ↔ Valid pathExists machines)
      ↔ ((∀ entry ∈ machines, SharedRules entry.1 entry.2) →
        ((∀ entry ∈ machines, ContractRules entry.1 entry.2)
          ↔ ∀ entry ∈ machines, NixRules entry.2)) := by
  rw [accepted_iff, valid_iff]
  exact and_congr_right_iff

/-- The machine of `fixtures/valid.ncl`. -/
def fixtureDgx : DgxMachine where
  name := "fixture-dgx"
  system := "aarch64-linux"
  targetHost := "root@fixture-dgx"
  diskById := "/dev/disk/by-id/nvme-NVIDIA_fixture_01"
  diskoModule := ".machines/fixture-dgx/disko.nix"
  facterReport := ".machines/fixture-dgx/facter.json"
  knownHostsFile := ".machines/fixture-dgx/known_hosts"
  sshHostFingerprint := "SHA256:TrBgpa4BhZB3BXxKMxEjHaM5jZE13eMrwCPJv043YGo"
  accessPolicy := "framework-only"
  runtimeSecrets :=
    { tailscaleAuthKey := "DGX_FIXTURE_TAILSCALE_AUTH_KEY"
      meshJoinToken := "DGX_FIXTURE_MESH_JOIN_TOKEN"
      irohPrivateKey := "DGX_FIXTURE_IROH_PRIVATE_KEY"
      irohPublicKey := "DGX_FIXTURE_IROH_PUBLIC_KEY" }
  meshBackend :=
    { unit := some "llamacpp-server-dgx-local.service", externallyManaged := false
      modelAlias := "rwkv7-g1i-13.3b-q6-k", localModel := none }

/-- A machine whose host key was never filled in. -/
def unfilledDgx : DgxMachine :=
  { fixtureDgx with sshHostFingerprint := "SHA256:REPLACEWITHTHEHOSTKEY" }

theorem unfilledDgx_shared : SharedRules "fixture-dgx" unfilledDgx where
  key_matches := by decide
  name_eq := rfl
  system_eq := rfl
  access_eq := rfl
  host_matches := by decide
  host_real := by decide
  disk_real := by decide
  paths_named := by decide
  fingerprint_matches := by decide
  secrets_match := by decide
  secrets_distinct := by decide
  alias_matches := by decide
  unit_eq := fun unit h _ => (Option.some.inj h).symm
  owned_once := by decide
  external_plain := nofun
  alias_eq := nofun
  model_matches := nofun

theorem unfilledDgx_contract : ContractRules "fixture-dgx" unfilledDgx where
  disk_matches := by decide
  disko_eq := by decide
  facter_eq := by decide
  knownHosts_eq := by decide
  paths_real := by decide
  unit_named := by decide

/-- The contract takes a machine with a placeholder for its host key, and Nix does not. -/
theorem unfilledDgx_accepted : Accepted [("fixture-dgx", unfilledDgx)]
    ∧ ¬ Valid (fun _ => true) [("fixture-dgx", unfilledDgx)] := by
  constructor
  · refine accepted_iff.2 ⟨?_, ?_⟩ <;> intro entry he <;> obtain rfl := List.mem_singleton.1 he
    · exact unfilledDgx_shared
    · exact unfilledDgx_contract
  · intro h
    exact absurd ((valid_iff.1 h).2 _ List.mem_cons_self).fingerprint_real (by decide)

end OnixCore.Dgx
