import OnixCore.ModuleSchema.Contracts

/-!
# Options of a module schema

`lib/mk-settings.nix`: the NixOS option made from a field descriptor. `OptionType` stands for the
types of `lib.types` that it uses; `OptionType.check` is what such a type accepts.
-/

namespace OnixCore.ModuleSchema

inductive OptionType where
  | anything
  | bool
  | str
  | int
  | port
  | listOf (elemType : OptionType)
  | attrsOf (elemType : OptionType)
  | nullOr (elemType : OptionType)
  | enum (values : List Value)

def OptionType.check : OptionType → Value → Bool
  | .anything, _ => true
  | .bool, v => v.isBool
  | .str, v => v.isString
  | .int, .num q => q.isInt
  | .port, .num q => q.isInt && 0 ≤ q && q ≤ 65535
  | .listOf elemType, .arr elems => elems.all elemType.check
  | .attrsOf elemType, .record fields => fields.all fun entry => elemType.check entry.2
  | .nullOr elemType, v => v.isNull || elemType.check v
  | .enum values, v => v.elem values
  | _, _ => false

/-- A declared option. Its type is evaluated when it is used. -/
structure NixOption where
  type : Eval OptionType
  description : Option Value
  default : Option Value

def typeMap : List (String × OptionType) :=
  [("bool", .bool),
    ("string", .str),
    ("number", .int),
    ("port", .port),
    ("array", .listOf .anything),
    ("array_string", .listOf .str),
    ("record", .attrsOf .anything),
    ("nullable_string", .nullOr .str),
    ("nullable_record", .nullOr (.attrsOf .anything))]

/-- `fd.name or null`, told apart from a field that is null. -/
def Value.attr (name : String) : Value → Option Value
  | .record fields => fields.lookup name
  | _ => none

def mkOpt (name : String) (fd : Value) : NixOption where
  type := do
    let type ← fd.field "type"
    if type.same (.str "enum") then
      return .enum (← (← fd.field "values").elements)
    else
      let tag ← type.text
      match typeMap.lookup tag with
      | some nixType => return nixType
      | none => throw (.unknownType
          ("mk-settings: unknown type '" ++ tag ++ "' for field '" ++ name ++ "'"))
  description := fd.attr "description"
  default := fd.attr "default"

/-- An option without a default has to be set. -/
def NixOption.required (option : NixOption) : Bool := option.default.isNone

end OnixCore.ModuleSchema
