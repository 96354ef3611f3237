import OnixCore.ModuleSchema.Contracts

/-!
# The settings of the service inventory

`validate_fields` of `inventory/services/settings-contracts.ncl` and `ValidateSettings` of
`contracts.ncl`: the settings of each role and of each of its machines are checked against the
schema that is registered for the module and the role.
-/

namespace OnixCore.ModuleSchema

def typeName : Value → String
  | .bool _ => "Bool"
  | .num _ => "Number"
  | .str _ => "String"
  | .arr _ => "Array"
  | .record _ => "Record"
  | .null => "Null"
  | .func => "Unknown"

/-- `std.record.to_array` -/
def Value.toArray : Value → Eval (List (String × Value))
  | .record fields => return fields
  | _ => throw .notRecord

/-- `std.array.flat_map` -/
def flatMapM {α β : Type} (f : α → Eval (List β)) : List α → Eval (List β)
  | [] => return []
  | a :: as => do return (← f a) ++ (← flatMapM f as)

/-- The schemas of the modules, by the role's schema under each `module:role`. No module's name has
a colon in it, so that each key is made once. -/
def registry (schemas : List (String × List (String × Value))) : List (String × Value) :=
  schemas.flatMap fun entry => entry.2.map fun role => (entry.1 ++ ":" ++ role.1, role.2)

section Validate

variable (schemas : List (String × List (String × Value)))

def fieldErrors (path : String) (settings : Value) (entry : ValidatorEntry) :
    Eval (List String) := do
  if ← settings.hasField entry.name then
    let val ← settings.field entry.name
    if ← entry.check val then
      return []
    else
      return [path ++ ".settings." ++ entry.name ++ ": expected " ++ (← entry.label) ++ ", got "
        ++ typeName val]
  else if ← entry.required then
    return [path ++ ".settings." ++ entry.name ++ ": required field missing (expected "
      ++ (← entry.label) ++ ")"]
  else
    return []

def validateFields (key : Eval String) (path : String) (settings : Value) :
    Eval (List String) := do
  match (registry schemas).lookup (← key) with
  | some roleSchema => flatMapM (fieldErrors path settings) (← mkValidator roleSchema)
  | none => return []

/-- The errors of `value.settings`, where it is a record. -/
def settingsErrors (key : Eval String) (path : String) (value : Value) : Eval (List String) := do
  if ← both (← value.hasField "settings") (do return (← value.field "settings").isRecord) then
    validateFields schemas key path (← value.field "settings")
  else
    return []

def machineErrors (key : Eval String) (path : String) (machine : String × Value) :
    Eval (List String) :=
  if machine.2.isRecord then
    settingsErrors schemas key (path ++ ".machines." ++ machine.1) machine.2
  else
    return []

/-- The errors of the machines under `roleVal.machines`, where it is a record. -/
def machinesErrors (key : Eval String) (path : String) (roleVal : Value) : Eval (List String) := do
  if ← both (← roleVal.hasField "machines") (do return (← roleVal.field "machines").isRecord) then
    flatMapM (machineErrors schemas key path) (← (← roleVal.field "machines").toArray)
  else
    return []

def roleSettingsErrors (instName : String) (modName : Eval String) (role : String × Value) :
    Eval (List String) := do
  let key : Eval String := do return (← modName) ++ ":" ++ role.1
  let path := instName ++ ".roles." ++ role.1
  return (← settingsErrors schemas key path role.2) ++ (← machinesErrors schemas key path role.2)

def instanceErrors (inst : String × Value) : Eval (List String) := do
  let modName : Eval String := do (← (← inst.2.field "module").field "name").text
  flatMapM (roleSettingsErrors schemas inst.1 modName) (← (← inst.2.field "roles").toArray)

/-- `ValidateSettings` -/
def validateSettings (data : Value) : Eval Verdict := do
  let instances ← data.field "instances"
  let errors ← flatMapM (instanceErrors schemas) (← instances.toArray)
  if errors.length > 0 then
    return .error (", ".intercalate errors) ["Fix settings in services.ncl. See "
      ++ "settings-contracts.ncl for expected types."]
  else
    return .ok

end Validate

/-- The fields of a record. -/
abbrev Fields := List (String × Value)

/-- An instance as the contract `Services` has it: a module of this name, and roles. -/
structure ServiceInstance where
  moduleName : String
  roles : List (String × Fields)

def ServiceInstance.toValue (inst : ServiceInstance) : Value :=
  .record [("module", .record [("name", .str inst.moduleName)]),
    ("roles", .record (inst.roles.map fun role => (role.1, .record role.2)))]

def servicesValue (instances : List (String × ServiceInstance)) : Value :=
  .record [("instances", .record (instances.map fun entry => (entry.1, entry.2.toValue)))]

end OnixCore.ModuleSchema
