import OnixCore.ModuleSchema.Proofs.Contracts
import OnixCore.ModuleSchema.Settings

/-!
# What `ValidateSettings` judges

Each settings record is judged by itself, the role's and each machine's: it must hold every
required field, and the fields of the schema it holds must pass their checks
(`accepts_iff_given`). What a machine gets is the role's settings overridden by its own. Accepted
records make good effective settings, and the converse holds up to a record that is not complete
by itself (`validateSettings_judges`).
-/

namespace OnixCore.ModuleSchema

variable {schemas : List (String × List (String × Value))}

section Levels

def given : Option Value → Option Fields
  | some (.record fields) => some fields
  | _ => none

/-- The settings given for the role itself. -/
def roleLevel (role : Fields) : Option Fields := given (role.lookup "settings")

def machines (role : Fields) : Fields := (given (role.lookup "machines")).getD []

/-- The settings given for one machine of the role. -/
def machineLevel : Value → Option Fields
  | .record fields => given (fields.lookup "settings")
  | _ => none

def givenLevels (role : Fields) : List (Option Fields) :=
  roleLevel role :: (machines role).map fun machine => machineLevel machine.2

/-- The role's settings, field by field overridden by the machine's. -/
def overridden : Option Fields → Option Fields → Option Fields
  | none, none => none
  | role, machine => some (machine.getD [] ++ role.getD [])

/-- The settings of each machine of the role, or the role's where it lists no machine. -/
def effective (role : Fields) : List (Option Fields) :=
  match machines role with
  | [] => [roleLevel role]
  | listed => listed.map fun machine => overridden (roleLevel role) (machineLevel machine.2)

/-- The fields of the schema that the settings hold pass their checks. -/
def WellTypedSettings (roleSchema : Value) (settings : Fields) : Prop :=
  ∃ entries, mkValidator roleSchema = .ok entries ∧ ∀ entry ∈ entries, ∀ val,
    settings.lookup entry.name = some val → entry.check val = .ok true

/-- The settings hold every required field besides. -/
def CompleteSettings (roleSchema : Value) (settings : Fields) : Prop :=
  ∃ entries, mkValidator roleSchema = .ok entries ∧ ∀ entry ∈ entries,
    (∀ val, settings.lookup entry.name = some val → entry.check val = .ok true)
      ∧ (settings.lookup entry.name = none → entry.required = .ok false)

/-- `P` of every role with a registered schema. -/
def EveryRole (schemas : List (String × List (String × Value)))
    (instances : List (String × ServiceInstance)) (P : Value → Fields → Prop) : Prop :=
  ∀ inst ∈ instances, ∀ role ∈ inst.2.roles, ∀ roleSchema,
    (registry schemas).lookup (inst.2.moduleName ++ ":" ++ role.1) = some roleSchema →
      P roleSchema role.2

/-- `P` of every settings record given, at either level. -/
def EveryGiven (P : Value → Fields → Prop) (roleSchema : Value) (role : Fields) : Prop :=
  ∀ settings, some settings ∈ givenLevels role → P roleSchema settings

/-- `P` of all effective settings. -/
def EveryEffective (P : Value → Fields → Prop) (roleSchema : Value) (role : Fields) : Prop :=
  ∀ settings, some settings ∈ effective role → P roleSchema settings

end Levels

section Accepted

theorem flatMapM_eq_nil {α β : Type} {f : α → Eval (List β)} :
    ∀ {l : List α}, flatMapM f l = .ok [] ↔ ∀ a ∈ l, f a = .ok []
  | [] => by simp [flatMapM]
  | a :: l => by
    rw [flatMapM, List.forall_mem_cons, ← flatMapM_eq_nil, bind_eq_ok]
    constructor
    · rintro ⟨x, hx, h⟩
      obtain ⟨y, hy, h⟩ := bind_eq_ok.1 h
      obtain ⟨rfl, rfl⟩ := List.append_eq_nil_iff.1 (pure_eq_ok.1 h)
      exact ⟨hx, hy⟩
    · rintro ⟨ha, hl⟩
      exact ⟨[], ha, bind_eq_ok.2 ⟨[], hl, rfl⟩⟩

theorem ite_return_eq_nil {c : Prop} [Decidable c] {x : Eval (List String)} :
    (if c then x else return []) = .ok [] ↔ (c → x = .ok []) := by
  split_ifs with h <;> simp [h]

theorem fieldErrors_eq_nil {path : String} {settings : Fields} {entry : ValidatorEntry} :
    fieldErrors path (.record settings) entry = .ok []
      ↔ (∀ val, settings.lookup entry.name = some val → entry.check val = .ok true)
        ∧ (settings.lookup entry.name = none → entry.required = .ok false) := by
  unfold fieldErrors
  rcases hl : settings.lookup entry.name with _ | val
  · rcases entry.required with e | _ | _
    case ok.true =>
      rcases entry.label with e | label <;> simp [Value.hasField, hl, bind_eq_ok]
    all_goals simp [Value.hasField, hl, bind_eq_ok]
  · rcases hc : entry.check val with e | _ | _
    case ok.false =>
      rcases entry.label with e | label <;>
        simp [Value.hasField, Value.field, hl, hc, bind_eq_ok]
    all_goals simp [Value.hasField, Value.field, hl, hc, bind_eq_ok]

theorem validateFields_eq_nil {key path : String} {settings : Fields} :
    validateFields schemas (.ok key) path (.record settings) = .ok []
      ↔ ∀ roleSchema, (registry schemas).lookup key = some roleSchema →
        CompleteSettings roleSchema settings := by
  unfold validateFields
  rcases hl : (registry schemas).lookup key with _ | roleSchema
  · simp [bind_eq_ok, hl]
  · simp [bind_eq_ok, hl, flatMapM_eq_nil, fieldErrors_eq_nil, CompleteSettings]

theorem settingsErrors_eq_nil {key path : String} {fields : Fields} :
    settingsErrors schemas (.ok key) path (.record fields) = .ok []
      ↔ ∀ roleSchema, (registry schemas).lookup key = some roleSchema →
        ∀ settings, given (fields.lookup "settings") = some settings →
          CompleteSettings roleSchema settings := by
  unfold settingsErrors
  rcases hl : fields.lookup "settings" with _ | val
  · simp [Value.hasField, hl, both, given]
  rcases val with _ | _ | _ | _ | _ | settings | _
  case record =>
    simp [Value.hasField, Value.field, hl, both, given, Value.isRecord, validateFields_eq_nil]
  all_goals simp [Value.hasField, Value.field, hl, both, given, Value.isRecord]

theorem machineErrors_eq_nil {key path : String} {machine : String × Value} :
    machineErrors schemas (.ok key) path machine = .ok []
      ↔ ∀ roleSchema, (registry schemas).lookup key = some roleSchema →
        ∀ settings, machineLevel machine.2 = some settings →
          CompleteSettings roleSchema settings := by
  unfold machineErrors
  rcases machine with ⟨name, _ | _ | _ | _ | _ | fields | _⟩
  case record => simp [Value.isRecord, settingsErrors_eq_nil, machineLevel]
  all_goals simp [Value.isRecord, machineLevel]

theorem machinesErrors_eq_nil {key path : String} {role : Fields} :
    machinesErrors schemas (.ok key) path (.record role) = .ok []
      ↔ ∀ machine ∈ machines role, ∀ roleSchema, (registry schemas).lookup key = some roleSchema →
        ∀ settings, machineLevel machine.2 = some settings →
          CompleteSettings roleSchema settings := by
  unfold machinesErrors
  rcases hl : role.lookup "machines" with _ | val
  · simp [Value.hasField, hl, both, machines, given]
  rcases val with _ | _ | _ | _ | _ | listed | _
  case record =>
    simp [Value.hasField, Value.field, hl, both, machines, given, Value.isRecord, Value.toArray,
      flatMapM_eq_nil, machineErrors_eq_nil]
  all_goals simp [Value.hasField, Value.field, hl, both, machines, given, Value.isRecord]

theorem append_eq_nil {x y : Eval (List String)} :
    (do return (← x) ++ (← y) : Eval (List String)) = .ok [] ↔ x = .ok [] ∧ y = .ok [] := by
  rcases x with e | xs <;> rcases y with e' | ys <;> simp [bind_eq_ok]

theorem roleSettingsErrors_eq_nil {instName modName : String} {role : String × Fields} :
    roleSettingsErrors schemas instName (.ok modName) (role.1, .record role.2) = .ok []
      ↔ ∀ roleSchema, (registry schemas).lookup (modName ++ ":" ++ role.1) = some roleSchema →
        EveryGiven CompleteSettings roleSchema role.2 := by
  have hkey : (do return (← (Except.ok modName : Eval String)) ++ ":" ++ role.1 : Eval String)
      = .ok (modName ++ ":" ++ role.1) := rfl
  unfold roleSettingsErrors
  simp only [hkey, append_eq_nil, settingsErrors_eq_nil, machinesErrors_eq_nil]
  constructor
  · rintro ⟨hrole, hmachines⟩ roleSchema hreg settings hmem
    rcases List.mem_cons.1 hmem with heq | hmem
    · exact hrole roleSchema hreg settings heq.symm
    · obtain ⟨machine, hm, heq⟩ := List.mem_map.1 hmem
      exact hmachines machine hm roleSchema hreg settings heq
  · intro h
    refine ⟨fun roleSchema hreg settings heq => h roleSchema hreg settings ?_,
      fun machine hm roleSchema hreg settings heq => h roleSchema hreg settings ?_⟩
    · exact List.mem_cons.2 (.inl heq.symm)
    · exact List.mem_cons.2 (.inr (List.mem_map.2 ⟨machine, hm, heq⟩))

theorem instanceErrors_eq_nil {inst : String × ServiceInstance} :
    instanceErrors schemas (inst.1, inst.2.toValue) = .ok []
      ↔ ∀ role ∈ inst.2.roles, ∀ roleSchema,
        (registry schemas).lookup (inst.2.moduleName ++ ":" ++ role.1) = some roleSchema →
          EveryGiven CompleteSettings roleSchema role.2 := by
  have hname : (do (← (← inst.2.toValue.field "module").field "name").text : Eval String)
      = .ok inst.2.moduleName := rfl
  have hroles : inst.2.toValue.field "roles"
      = .ok (.record (inst.2.roles.map fun role => (role.1, .record role.2))) := rfl
  unfold instanceErrors
  simp only [hname, hroles, bind_eq_ok, Except.ok.injEq, exists_eq_left', Value.toArray,
    pure_eq_ok, flatMapM_eq_nil, List.forall_mem_map]
  exact forall₂_congr fun role _ => roleSettingsErrors_eq_nil

/-- `ValidateSettings` accepts when every settings record given is complete by itself. -/
theorem accepts_iff_given {instances : List (String × ServiceInstance)} :
    Accepts (validateSettings schemas) (servicesValue instances)
      ↔ EveryRole schemas instances (EveryGiven CompleteSettings) := by
  have hinstances : (servicesValue instances).field "instances"
      = .ok (.record (instances.map fun entry => (entry.1, entry.2.toValue))) := rfl
  have hverdict : ∀ errors : List String, (if errors.length > 0 then
      return Verdict.error (", ".intercalate errors) ["Fix settings in services.ncl. See "
        ++ "settings-contracts.ncl for expected types."]
      else return .ok : Eval Verdict) = .ok .ok ↔ errors = [] := by
    intro errors
    cases errors <;> simp
  unfold Accepts validateSettings
  simp only [hinstances, bind_eq_ok, Except.ok.injEq, exists_eq_left', Value.toArray,
    pure_eq_ok, hverdict, exists_eq_right, flatMapM_eq_nil, List.forall_mem_map]
  exact forall₂_congr fun inst _ => instanceErrors_eq_nil

end Accepted

section Effective

variable {roleSchema : Value} {role : Fields}

theorem CompleteSettings.wellTyped {settings : Fields} (h : CompleteSettings roleSchema settings) :
    WellTypedSettings roleSchema settings := by
  obtain ⟨entries, hentries, hall⟩ := h
  exact ⟨entries, hentries, fun entry he => (hall entry he).1⟩

/-- Complete settings stay complete when complete settings override them. -/
theorem CompleteSettings.append {own base : Fields} (hown : CompleteSettings roleSchema own)
    (hbase : CompleteSettings roleSchema base) : CompleteSettings roleSchema (own ++ base) := by
  obtain ⟨entries, hentries, hown⟩ := hown
  obtain ⟨_, hsame, hbase⟩ := hbase
  obtain rfl := Except.ok.inj (hentries.symm.trans hsame)
  refine ⟨entries, hentries, fun entry he => ?_⟩
  rw [List.lookup_append]
  rcases hl : own.lookup entry.name with _ | val
  · simpa using hbase entry he
  · simpa using (hown entry he).1 val hl

theorem overridden_complete {own base : Option Fields}
    (hown : ∀ settings, own = some settings → CompleteSettings roleSchema settings)
    (hbase : ∀ settings, base = some settings → CompleteSettings roleSchema settings)
    {settings : Fields} (h : overridden base own = some settings) :
    CompleteSettings roleSchema settings := by
  rcases own with _ | own <;> rcases base with _ | base <;> simp only [overridden] at h
  · cases h
  · obtain rfl := Option.some.inj h
    simpa using hbase _ rfl
  · obtain rfl := Option.some.inj h
    simpa using hown _ rfl
  · obtain rfl := Option.some.inj h
    exact (hown _ rfl).append (hbase _ rfl)

theorem everyEffective_of_given (h : EveryGiven CompleteSettings roleSchema role) :
    EveryEffective CompleteSettings roleSchema role := by
  have hrole : ∀ settings, roleLevel role = some settings →
      CompleteSettings roleSchema settings := fun settings heq =>
    h settings (List.mem_cons.2 (.inl heq.symm))
  intro settings hmem
  unfold effective at hmem
  split at hmem
  · exact hrole settings (List.mem_singleton.1 hmem).symm
  · obtain ⟨machine, hm, heq⟩ := List.mem_map.1 hmem
    refine overridden_complete (fun own hown => h own ?_) hrole heq
    exact List.mem_cons.2 (.inr (List.mem_map.2 ⟨machine, hm, hown⟩))

/-- The role gives settings at one level only: for itself, or for machines. -/
def OneLevel (role : Fields) : Prop :=
  roleLevel role = none ∨ ∀ machine ∈ machines role, machineLevel machine.2 = none

theorem overridden_none_left (own : Option Fields) : overridden none own = own := by
  cases own <;> simp [overridden]

theorem overridden_none_right (base : Option Fields) : overridden base none = base := by
  cases base <;> simp [overridden]

/-- With one level only, what is given is what the machines get. -/
theorem everyGiven_of_effective (hone : OneLevel role)
    (h : EveryEffective CompleteSettings roleSchema role) :
    EveryGiven CompleteSettings roleSchema role := by
  unfold EveryEffective effective at h
  rcases hl : machines role with _ | ⟨first, rest⟩ <;> rw [hl] at h
  · intro settings hmem
    rw [givenLevels, hl] at hmem
    exact h settings hmem
  · simp only [← hl] at h
    intro settings hmem
    rcases hone with hnone | hnone
    · rcases List.mem_cons.1 hmem with heq | hmem
      · exact nomatch hnone.symm.trans heq.symm
      · simp only [hnone, overridden_none_left] at h
        exact h settings hmem
    · rcases List.mem_cons.1 hmem with heq | hmem
      · refine h settings (List.mem_map.2 ⟨first, by rw [hl]; exact List.mem_cons_self, ?_⟩)
        rw [hnone first (by rw [hl]; exact List.mem_cons_self), overridden_none_right, heq]
      · obtain ⟨machine, hm, heq⟩ := List.mem_map.1 hmem
        exact nomatch (hnone machine hm).symm.trans heq

end Effective

theorem EveryRole.imp {instances : List (String × ServiceInstance)} {P Q : Value → Fields → Prop}
    (h : EveryRole schemas instances P)
    (hPQ : ∀ roleSchema role, P roleSchema role → Q roleSchema role) :
    EveryRole schemas instances Q := fun inst hi role hr roleSchema hl =>
  hPQ roleSchema role.2 (h inst hi role hr roleSchema hl)

/-- Accepted services have effective settings that hold every required field, and every field of a
schema passes its check, also one that is overridden. Services are accepted when each settings
record given is complete by itself. Where no role gives settings at two levels, they are accepted
exactly when the effective settings are complete. -/
theorem validateSettings_judges (schemas : List (String × List (String × Value)))
    (instances : List (String × ServiceInstance)) :
    (Accepts (validateSettings schemas) (servicesValue instances) →
      EveryRole schemas instances (EveryEffective CompleteSettings)
        ∧ EveryRole schemas instances (EveryGiven WellTypedSettings))
    ∧ (EveryRole schemas instances (EveryGiven CompleteSettings) →
      Accepts (validateSettings schemas) (servicesValue instances))
    ∧ ((∀ inst ∈ instances, ∀ role ∈ inst.2.roles, OneLevel role.2) →
      (Accepts (validateSettings schemas) (servicesValue instances)
        ↔ EveryRole schemas instances (EveryEffective CompleteSettings))) := by
  rw [accepts_iff_given]
  refine ⟨fun h => ⟨h.imp fun _ _ => everyEffective_of_given, h.imp fun _ _ hg settings hs =>
    (hg settings hs).wellTyped⟩, id, fun hone => ?_⟩
  refine ⟨fun h => h.imp fun _ _ => everyEffective_of_given, ?_⟩
  intro h inst hi role hr roleSchema hl
  exact everyGiven_of_effective (hone inst hi role hr) (h inst hi role hr roleSchema hl)

section Split

/-- A role that asks for a domain, with a port of its own. -/
def siteRole : Value :=
  .record [("domain", .record [("type", .str "string")]),
    ("port", .record [("default", .num 80), ("type", .str "port")])]

def siteSchemas : List (String × List (String × Value)) :=
  [("static-server", [("server", siteRole)])]

/-- The role gives the domain, and one machine its port. -/
def splitServices : List (String × ServiceInstance) :=
  [("site", ⟨"static-server", [("server",
    [("machines", .record [("aspen1", .record [("settings", .record [("port", .num 8080)])])]),
      ("settings", .record [("domain", .str "onix.computer")])])]⟩)]

theorem complete_siteRole {settings : Fields} : CompleteSettings siteRole settings
    ↔ (∃ domain, settings.lookup "domain" = some (.str domain))
      ∧ ∀ port, settings.lookup "port" = some port → isPort port = true := by
  simp only [CompleteSettings, siteRole, mkValidator, List.map_cons, List.map_nil, pure_eq_ok,
    exists_eq_left', List.forall_mem_cons, List.not_mem_nil, false_implies, implies_true,
    and_true]
  constructor
  · rintro ⟨⟨hdomain, hrequired⟩, hport, -⟩
    refine ⟨?_, fun port hp => Except.ok.inj (hport port hp)⟩
    rcases hl : settings.lookup "domain" with _ | domain
    · cases hrequired hl
    · have hstring := hdomain domain hl
      cases domain
      case str domain => exact ⟨domain, rfl⟩
      all_goals cases hstring
  · rintro ⟨⟨domain, hd⟩, hport⟩
    refine ⟨⟨fun val hv => ?_, fun hnone => ?_⟩, fun val hv => ?_, fun _ => rfl⟩
    · obtain rfl := Option.some.inj (hv.symm.trans hd)
      rfl
    · cases hnone.symm.trans hd
    · exact congrArg Except.ok (hport val hv)

/-- Settings that are complete once merged are refused for the level that lacks a field. -/
theorem splitServices_rejected :
    ¬ Accepts (validateSettings siteSchemas) (servicesValue splitServices)
      ∧ EveryRole siteSchemas splitServices (EveryEffective CompleteSettings) := by
  have hlookup : (registry siteSchemas).lookup ("static-server" ++ ":" ++ "server")
      = some siteRole := rfl
  constructor
  · rw [accepts_iff_given]
    intro h
    have hport := h _ List.mem_cons_self _ List.mem_cons_self _ hlookup [("port", .num 8080)]
      (List.mem_cons_of_mem _ List.mem_cons_self)
    obtain ⟨domain, hd⟩ := (complete_siteRole.1 hport).1
    exact nomatch hd
  · intro inst hi role hr roleSchema hl settings hs
    obtain rfl := List.mem_singleton.1 hi
    obtain rfl := List.mem_singleton.1 hr
    obtain rfl := Option.some.inj (hlookup.symm.trans hl)
    obtain rfl := Option.some.inj (List.mem_singleton.1 hs)
    refine complete_siteRole.2 ⟨⟨"onix.computer", rfl⟩, fun port hp => ?_⟩
    obtain rfl := Option.some.inj hp
    decide +kernel

end Split

end OnixCore.ModuleSchema
