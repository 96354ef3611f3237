import OnixCore.Inventory.Contracts
import OnixCore.ModuleSchema.Settings

/-!
# The references of the inventory

`mkRefValidator` of `inventory/core/contracts.ncl`, and the two validators made with it: that of the
users, which also looks at profiles, and that of the services. A message is written when the
validator has all of them.
-/

namespace OnixCore.Inventory

open ModuleSchema

/-- `std.record.fields` -/
def fieldNames : Value → Eval (List String)
  | .record fields => return fields.map Prod.fst
  | _ => throw .notRecord

/-- What a validator of references is made of. -/
structure RefConfig where
  validTags : List String
  validMachines : List String
  errorNotes : List String
  extraRoleErrors : String → String → Value → Eval (List (Eval String))

/-- The names under one field of a role, where that is a record, that are not among the valid ones.
What they name stands in the message. -/
def unknownNames (fieldName what : String) (valid : List String) (instName roleName : String)
    (roleVal : Value) : Eval (List (Eval String)) := do
  if ← both (← roleVal.hasField fieldName)
      (do return (← roleVal.field fieldName).isRecord) then
    let names ← fieldNames (← roleVal.field fieldName)
    return (names.filter fun name => !valid.contains name).map fun name =>
      return instName ++ ".roles." ++ roleName ++ ": unknown " ++ what ++ " \x22" ++ name ++ "\x22"
  else
    return []

def tagErrors (validTags : List String) :=
  unknownNames "tags" "tag" validTags

def unknownMachineErrors (validMachines : List String) :=
  unknownNames "machines" "machine" validMachines

def roleRefErrors (config : RefConfig) (instName : String) (role : String × Value) :
    Eval (List (Eval String)) := do
  return [← tagErrors config.validTags instName role.1 role.2,
    ← unknownMachineErrors config.validMachines instName role.1 role.2,
    ← config.extraRoleErrors instName role.1 role.2].flatten

def instanceRefErrors (config : RefConfig) (inst : String × Value) :
    Eval (List (Eval String)) := do
  flatMapM (roleRefErrors config inst.1) (← (← inst.2.field "roles").toArray)

def mkRefValidator (config : RefConfig) (data : Value) : Eval Verdict := do
  let instances ← data.field "instances"
  let errors ← flatMapM (instanceRefErrors config) (← instances.toArray)
  if errors.length > 0 then
    return .error (", ".intercalate (← errors.mapM id)) config.errorNotes
  else
    return .ok

/-- The profiles that a role's settings select and that are not registered. -/
def profileErrors (instName roleName : String) (role : Value) : Eval (List (Eval String)) := do
  if ← both (← role.hasField "settings") (do
      let settings ← role.field "settings"
      both settings.isRecord (settings.hasField "profiles")) then
    let profiles ← (← (← role.field "settings").field "profiles").elements
    return (profiles.filter fun p => !p.elem (profileNames.map .str)).map fun p => do
      return instName ++ ".roles." ++ roleName ++ ": unknown profile \x22" ++ (← p.text) ++ "\x22"
  else
    return []

section Validators

variable (machineNames : List String)

def validateUserRefs : Value → Eval Verdict :=
  mkRefValidator
    { validTags := allServiceTags
      validMachines := machineNames
      errorNotes := ["Fix references in users.ncl"]
      extraRoleErrors := profileErrors }

def validateRefs : Value → Eval Verdict :=
  mkRefValidator
    { validTags := allServiceTags
      validMachines := machineNames
      errorNotes := ["Fix references in services.ncl"]
      extraRoleErrors := fun _inst _role _val => return [] }

end Validators

/-- An instance of either inventory: its module, which no reference is in, and its roles. -/
structure Instance where
  module : Value
  roles : List (String × Fields)

def Instance.toValue (inst : Instance) : Value :=
  .record [("module", inst.module),
    ("roles", .record (inst.roles.map fun role => (role.1, .record role.2)))]

abbrev Instances := List (String × Instance)

def instancesValue (instances : Instances) : Value :=
  .record [("instances", .record (instances.map fun inst => (inst.1, inst.2.toValue)))]

end OnixCore.Inventory
