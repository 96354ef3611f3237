import OnixCore.Inventory.References
import OnixCore.ModuleSchema.Proofs.Settings

/-!
# What the reference validators see

The validator reports nothing exactly when no role of any instance gives an error
(`mkRefValidator_eq_ok`). A role's errors are its unknown tag and machine keys and, for the users,
the unregistered profiles of its own settings. The settings under its machines are not looked at, so
a profile that is only selected there may be any (`references_iff`).
-/

namespace OnixCore.Inventory

open ModuleSchema

section Specification

/-- The keys under a field that is a record. -/
def keysUnder (fieldName : String) (role : Fields) : List String :=
  ((given (role.lookup fieldName)).getD []).map Prod.fst

structure KeysRegistered (machineNames : List String) (role : Fields) : Prop where
  tags : ∀ tag ∈ keysUnder "tags" role, tag ∈ allServiceTags
  machines : ∀ machine ∈ keysUnder "machines" role, machine ∈ machineNames

/-- The profiles that the settings select, if they do, are registered ones. -/
def ProfilesRegistered (settings : Option Fields) : Prop :=
  ∀ fields, settings = some fields → ∀ profiles, fields.lookup "profiles" = some profiles →
    ∃ elems, profiles = .arr elems ∧ ∀ p ∈ elems, ∃ name ∈ profileNames, p = .str name

/-- The profiles in the settings of each machine of the role are registered ones. -/
def MachineProfilesRegistered (role : Fields) : Prop :=
  ∀ machine ∈ machines role, ProfilesRegistered (machineLevel machine.2)

def EveryInstanceRole (instances : Instances) (P : Fields → Prop) : Prop :=
  ∀ inst ∈ instances, ∀ role ∈ inst.2.roles, P role.2

/-- No reference of a role of the users is dangling. -/
structure UserRefsRegistered (machineNames : List String) (role : Fields) : Prop where
  keys : KeysRegistered machineNames role
  profiles : ProfilesRegistered (roleLevel role)
  machineProfiles : MachineProfilesRegistered role

/-- Both validators accept what has no dangling reference, and nothing else. -/
structure ReferencesJudged (machineNames : List String) (users services : Instances) : Prop where
  users : validateUserRefs machineNames (instancesValue users) = .ok .ok
    ↔ EveryInstanceRole users (UserRefsRegistered machineNames)
  services : validateRefs machineNames (instancesValue services) = .ok .ok
    ↔ EveryInstanceRole services (KeysRegistered machineNames)

end Specification

section Walk

variable {config : RefConfig} {fieldName what instName roleName : String} {valid : List String}
  {role : Fields}

theorem unknownNames_eq_nil :
    unknownNames fieldName what valid instName roleName (.record role) = .ok []
      ↔ ∀ name ∈ keysUnder fieldName role, name ∈ valid := by
  unfold unknownNames keysUnder
  rcases hl : role.lookup fieldName with _ | val
  · simp [Value.hasField, hl, both, given]
  rcases val with _ | _ | _ | _ | _ | fields | _
  case record =>
    simp [Value.hasField, Value.field, hl, both, given, Value.isRecord, fieldNames,
      List.filter_eq_nil_iff]
  all_goals simp [Value.hasField, Value.field, hl, both, given, Value.isRecord]

theorem elem_profileNames {p : Value} :
    p.elem (profileNames.map .str) = true ↔ ∃ name ∈ profileNames, p = .str name := by
  simp only [Value.elem, List.any_map, List.any_eq_true, Function.comp_apply,
    Value.same_str_right]

theorem profileErrors_eq_nil : profileErrors instName roleName (.record role) = .ok []
    ↔ ProfilesRegistered (roleLevel role) := by
  unfold profileErrors ProfilesRegistered roleLevel
  rcases hl : role.lookup "settings" with _ | val
  · simp [Value.hasField, hl, both, given]
  rcases val with _ | _ | _ | _ | _ | settings | _
  case record =>
    rcases hp : settings.lookup "profiles" with _ | profiles
    · simp [Value.hasField, Value.field, hl, hp, both, given, Value.isRecord]
    rcases profiles with _ | _ | _ | _ | elems | _ | _
    case arr =>
      simp [Value.hasField, Value.field, hl, hp, both, given, Value.isRecord, Value.elements,
        List.filter_eq_nil_iff, elem_profileNames]
    all_goals
      simp [Value.hasField, Value.field, hl, hp, both, given, Value.isRecord, Value.elements]
      rintro ⟨⟩
  all_goals simp [Value.hasField, Value.field, hl, both, given, Value.isRecord]

theorem roleRefErrors_eq_nil : roleRefErrors config instName (roleName, .record role) = .ok []
    ↔ ((∀ tag ∈ keysUnder "tags" role, tag ∈ config.validTags)
        ∧ ∀ machine ∈ keysUnder "machines" role, machine ∈ config.validMachines)
      ∧ config.extraRoleErrors instName roleName (.record role) = .ok [] := by
  rw [← unknownNames_eq_nil, ← @unknownNames_eq_nil "machines"]
  unfold roleRefErrors tagErrors unknownMachineErrors
  simp only [bind_eq_ok, pure_eq_ok, List.flatten_cons, List.flatten_nil, List.append_nil,
    List.append_eq_nil_iff]
  constructor
  · rintro ⟨_, htags, _, hmachines, _, hextra, rfl, rfl, rfl⟩
    exact ⟨⟨htags, hmachines⟩, hextra⟩
  · rintro ⟨⟨htags, hmachines⟩, hextra⟩
    exact ⟨[], htags, [], hmachines, [], hextra, rfl, rfl, rfl⟩

theorem instanceRefErrors_eq_nil {inst : String × Instance} :
    instanceRefErrors config (inst.1, inst.2.toValue) = .ok []
      ↔ ∀ role ∈ inst.2.roles, roleRefErrors config inst.1 (role.1, .record role.2) = .ok [] := by
  have hrun : instanceRefErrors config (inst.1, inst.2.toValue)
      = flatMapM (roleRefErrors config inst.1)
        (inst.2.roles.map fun role => (role.1, .record role.2)) := rfl
  rw [hrun, flatMapM_eq_nil, List.forall_mem_map]

theorem mkRefValidator_eq_ok {instances : Instances} :
    mkRefValidator config (instancesValue instances) = .ok .ok
      ↔ ∀ inst ∈ instances, ∀ role ∈ inst.2.roles,
        roleRefErrors config inst.1 (role.1, .record role.2) = .ok [] := by
  have herrors : flatMapM (instanceRefErrors config)
      (instances.map fun inst => (inst.1, inst.2.toValue)) = .ok []
      ↔ ∀ inst ∈ instances, ∀ role ∈ inst.2.roles,
        roleRefErrors config inst.1 (role.1, .record role.2) = .ok [] := by
    rw [flatMapM_eq_nil, List.forall_mem_map]
    exact forall₂_congr fun _ _ => instanceRefErrors_eq_nil
  rw [← herrors]
  have hrun : mkRefValidator config (instancesValue instances) = do
      let errors ← flatMapM (instanceRefErrors config)
        (instances.map fun inst => (inst.1, inst.2.toValue))
      if errors.length > 0 then
        return .error (", ".intercalate (← errors.mapM id)) config.errorNotes
      else
        return .ok := rfl
  rw [hrun, bind_eq_ok]
  constructor
  · rintro ⟨errors, hwalk, h⟩
    split at h
    · obtain ⟨_, -, h⟩ := bind_eq_ok.1 h
      cases h
    · next hnone =>
      obtain rfl : errors = [] := List.eq_nil_of_length_eq_zero (by omega)
      exact hwalk
  · exact fun hwalk => ⟨[], hwalk, rfl⟩

end Walk

section References

variable {machineNames : List String}

theorem validateUserRefs_eq_ok {users : Instances} :
    validateUserRefs machineNames (instancesValue users) = .ok .ok
      ↔ EveryInstanceRole users fun role =>
        KeysRegistered machineNames role ∧ ProfilesRegistered (roleLevel role) := by
  rw [validateUserRefs, mkRefValidator_eq_ok]
  refine forall₂_congr fun inst _ => forall₂_congr fun role _ => ?_
  rw [roleRefErrors_eq_nil, profileErrors_eq_nil]
  exact and_congr_left' ⟨fun h => ⟨h.1, h.2⟩, fun h => ⟨h.tags, h.machines⟩⟩

theorem validateRefs_eq_ok {services : Instances} :
    validateRefs machineNames (instancesValue services) = .ok .ok
      ↔ EveryInstanceRole services (KeysRegistered machineNames) := by
  rw [validateRefs, mkRefValidator_eq_ok]
  refine forall₂_congr fun inst _ => forall₂_congr fun role _ => ?_
  rw [roleRefErrors_eq_nil]
  exact ⟨fun h => ⟨h.1.1, h.1.2⟩, fun h => ⟨⟨h.tags, h.machines⟩, rfl⟩⟩

/-- The validators judge the references right exactly where no profile in the settings of a
machine is unregistered, or something else is that they do look at. -/
theorem references_iff (machineNames : List String) (users services : Instances) :
    ReferencesJudged machineNames users services
      ↔ EveryInstanceRole users MachineProfilesRegistered
        ∨ ¬ EveryInstanceRole users fun role =>
          KeysRegistered machineNames role ∧ ProfilesRegistered (roleLevel role) := by
  have hsplit : EveryInstanceRole users (UserRefsRegistered machineNames)
      ↔ EveryInstanceRole users (fun role =>
          KeysRegistered machineNames role ∧ ProfilesRegistered (roleLevel role))
        ∧ EveryInstanceRole users MachineProfilesRegistered := by
    constructor
    · intro h
      exact ⟨fun inst hinst role hrole =>
          ⟨(h inst hinst role hrole).keys, (h inst hinst role hrole).profiles⟩,
        fun inst hinst role hrole => (h inst hinst role hrole).machineProfiles⟩
    · rintro ⟨hseen, hmachines⟩ inst hinst role hrole
      obtain ⟨hkeys, hprofiles⟩ := hseen inst hinst role hrole
      exact ⟨hkeys, hprofiles, hmachines inst hinst role hrole⟩
  constructor
  · intro h
    refine or_iff_not_imp_right.2 fun hseen => ?_
    exact (hsplit.1 (h.users.1 (validateUserRefs_eq_ok.2 (not_not.1 hseen)))).2
  · intro h
    refine ⟨?_, validateRefs_eq_ok⟩
    rw [validateUserRefs_eq_ok, hsplit]
    refine ⟨fun hseen => ⟨hseen, h.resolve_right (not_not.2 hseen)⟩, And.left⟩

/-- A home-manager instance with a typo in the profiles of its one machine. -/
def misspelledUsers : Instances :=
  [("hm", { module := .record [("name", .str "home-manager-profiles")]
            roles := [("default",
              [("machines", .record [("aspen1", .record [("settings",
                .record [("profiles", .arr [.str "bse"])])])])])] })]

theorem misspelledProfile_accepted : ¬ ReferencesJudged ["aspen1"] misspelledUsers [] := by
  intro h
  have haccepted : validateUserRefs ["aspen1"] (instancesValue misspelledUsers) = .ok .ok := by
    rfl
  have hrole := h.users.1 haccepted _ List.mem_cons_self _ List.mem_cons_self
  obtain ⟨elems, harr, hnames⟩ := hrole.machineProfiles
    ("aspen1", .record [("settings", .record [("profiles", .arr [.str "bse"])])])
    List.mem_cons_self _ rfl (.arr [.str "bse"]) rfl
  obtain rfl := Value.arr.inj harr
  obtain ⟨name, hname, heq⟩ := hnames (.str "bse") List.mem_cons_self
  obtain rfl := Value.str.inj heq
  revert hname
  decide

end References

end OnixCore.Inventory
