import OnixCore.ModuleSchema.Value

/-!
# The contracts of a module schema

`lib/schema-contracts.ncl`: the contracts for a field descriptor, for the descriptors of a role and
for the roles of a module, and the validator entries made from a role's descriptors. Nickel is
lazy: an `Eval` that is bound and not run is not evaluated.
-/

namespace OnixCore.ModuleSchema

def validTypes : List String :=
  ["bool", "string", "number", "port", "array", "array_string", "record", "nullable_string",
    "nullable_record", "enum"]

def isPort : Value → Bool
  | .num q => 1 ≤ q && q ≤ 65535
  | _ => false

def nullable (innerCheck : Value → Bool) (val : Value) : Bool := val.isNull || innerCheck val

def isArrayOfString : Value → Bool
  | .arr elems => elems.all Value.isString
  | _ => false

def typeCheck (typeTag : Value) : Value → Bool :=
  if typeTag.same (.str "bool") then Value.isBool
  else if typeTag.same (.str "string") then Value.isString
  else if typeTag.same (.str "number") then Value.isNumber
  else if typeTag.same (.str "port") then isPort
  else if typeTag.same (.str "array") then Value.isArray
  else if typeTag.same (.str "array_string") then isArrayOfString
  else if typeTag.same (.str "record") then Value.isRecord
  else if typeTag.same (.str "nullable_string") then nullable Value.isString
  else if typeTag.same (.str "nullable_record") then nullable Value.isRecord
  -- The entry of an enum has a check of its own, with the values of its descriptor.
  else if typeTag.same (.str "enum") then Value.isString
  else fun _ => false

def typeLabel (typeTag : Value) : String :=
  if typeTag.same (.str "bool") then "Bool"
  else if typeTag.same (.str "string") then "String"
  else if typeTag.same (.str "number") then "Number"
  else if typeTag.same (.str "port") then "Port (1-65535)"
  else if typeTag.same (.str "array") then "Array"
  else if typeTag.same (.str "array_string") then "Array of String"
  else if typeTag.same (.str "record") then "Record"
  else if typeTag.same (.str "nullable_string") then "String or null"
  else if typeTag.same (.str "nullable_record") then "Record or null"
  else if typeTag.same (.str "enum") then "Enum"
  else "Unknown"

/-- What a validator says of a value. -/
inductive Verdict where
  | ok
  | error (message : String) (notes : List String)

def Verdict.isError : Verdict → Bool
  | .ok => false
  | .error _ _ => true

/-- The first error, if there is one. -/
def Verdict.ofErrors : List Verdict → Verdict
  | [] => .ok
  | err :: _ => err

/-- `std.contract.apply`: the value, or blame. -/
def contractApply (validator : Value → Eval Verdict) (_label value : Value) : Eval Value := do
  match ← validator value with
  | .ok => return value
  | .error message notes => throw (.blame message notes)

/-- The type tags as `std.serialize 'Json` writes them. -/
def validTypesJson : String :=
  "[\n" ++ ",\n".intercalate (validTypes.map fun tag => "  \"" ++ tag ++ "\"") ++ "\n]"

/-- `a && b`, which runs `b` only where `a` holds. -/
def both (a : Bool) (b : Eval Bool) : Eval Bool := if a then b else return false

/-- The check of a descriptor, for the values of its type: an enum's are the ones it lists. -/
def descriptorCheck (fd type val : Value) : Eval Bool := do
  if type.same (.str "enum") then
    both val.isString (do return val.elem (← (← fd.field "values").elements))
  else
    return typeCheck type val

/-- `FieldDescriptor` -/
def fieldDescriptor (fd : Value) : Eval Verdict := do
  if !fd.isRecord then
    return .error "field descriptor must be a record" []
  else if !(← fd.hasField "type") then
    return .error "field descriptor missing 'type'" []
  else
    let type ← fd.field "type"
    if !type.isString then
      return .error "field descriptor 'type' must be a string" []
    else if !type.elem (validTypes.map .str) then
      return .error ("unknown type: \"" ++ (← type.text) ++ "\"")
        ["Valid types: " ++ validTypesJson]
    else if ← both (type.same (.str "enum")) (do return !(← fd.hasField "values")) then
      return .error "enum field descriptor requires 'values' array" []
    else if ← both (type.same (.str "enum")) (do return !(← fd.field "values").isArray) then
      return .error "enum 'values' must be an array" []
    else if ← both (type.same (.str "enum"))
        (do return !(← (← fd.field "values").elements).all Value.isString) then
      return .error "enum 'values' must be an array of strings" []
    else if ← both (!type.same (.str "enum")) (fd.hasField "values") then
      return .error "'values' is only valid for type = \"enum\"" []
    else if ← both (← fd.hasField "description")
        (do return !(← fd.field "description").isString) then
      return .error "'description' must be a string" []
    else if ← fd.hasField "default" then
      let default ← fd.field "default"
      if default.isNull
          && (type.same (.str "nullable_string") || type.same (.str "nullable_record")) then
        return .ok
      else if ← descriptorCheck fd type default then
        return .ok
      else
        return .error ("default value does not match type \"" ++ (← type.text) ++ "\"") []
    else
      return .ok

/-- `RoleSchema` -/
def roleSchema : Value → Eval Verdict
  | .record fields =>
    let checked := fields.map fun entry =>
      -- `std.contract.apply` still waits for the value, and nothing uses the result.
      let _result : Value → Eval Value := contractApply fieldDescriptor entry.2
      Verdict.ok
    return Verdict.ofErrors (checked.filter Verdict.isError)
  | _ => return .error "role schema must be a record" []

/-- The errors that `Schema` collects of one role. -/
def roleErrors (roleName : String) : Value → List Verdict
  | .record fields => fields.flatMap fun fd =>
    let _r : Value → Eval Value := contractApply fieldDescriptor fd.2
    []
  | _ =>
    [.error ("role \"" ++ roleName ++ "\" must be a record of field descriptors") []]

/-- `Schema` -/
def schema : Value → Eval Verdict
  | .record roles =>
    return Verdict.ofErrors (roles.flatMap fun entry => roleErrors entry.1 entry.2)
  | _ => return .error "schema must be a record of role names" []

/-- An entry of the validator array. Each field is evaluated when it is used. -/
structure ValidatorEntry where
  name : String
  check : Value → Eval Bool
  label : Eval String
  required : Eval Bool

def mkValidatorEntry (fieldName : String) (fd : Value) : ValidatorEntry where
  name := fieldName
  check val := do descriptorCheck fd (← fd.field "type") val
  label := do
    let type ← fd.field "type"
    if type.same (.str "enum") then
      let vals ← (← (← fd.field "values").elements).mapM Value.text
      return "Enum (" ++ ", ".intercalate vals ++ ")"
    else
      return typeLabel type
  required := do return !(← fd.hasField "default")

def mkValidator : Value → Eval (List ValidatorEntry)
  | .record fields => return fields.map fun entry => mkValidatorEntry entry.1 entry.2
  | _ => throw .notRecord

end OnixCore.ModuleSchema
