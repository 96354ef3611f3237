import Mathlib.Data.Rat.Defs
import OnixCore.Lib.Steps

/-!
# Values of a module schema

The values that Nickel and Nix have in common: JSON values, numbers being exact, and functions,
which nothing here looks into. The fields of a record stand in the order of their names, in which
both languages list them.
-/

namespace OnixCore.ModuleSchema

inductive Value where
  | null
  | bool (b : Bool)
  | num (q : ℚ)
  | str (s : String)
  | arr (elems : List Value)
  | record (fields : List (String × Value))
  | func

/-- Why an evaluation stops without a value. -/
inductive Abort where
  | missingField (name : String)
  | notRecord
  | notArray
  | notString
  | unknownType (message : String)
  | blame (message : String) (notes : List String)

abbrev Eval := Except Abort

namespace Value

def isNull : Value → Bool
  | .null => true
  | _ => false

def isBool : Value → Bool
  | .bool _ => true
  | _ => false

def isNumber : Value → Bool
  | .num _ => true
  | _ => false

def isString : Value → Bool
  | .str _ => true
  | _ => false

def isArray : Value → Bool
  | .arr _ => true
  | _ => false

def isRecord : Value → Bool
  | .record _ => true
  | _ => false

def hasField (name : String) : Value → Eval Bool
  | .record fields => return (fields.lookup name).isSome
  | _ => throw .notRecord

def field (name : String) : Value → Eval Value
  | .record fields =>
    match fields.lookup name with
    | some value => return value
    | none => throw (.missingField name)
  | _ => throw .notRecord

def elements : Value → Eval (List Value)
  | .arr elems => return elems
  | _ => throw .notArray

def text : Value → Eval String
  | .str s => return s
  | _ => throw .notString

mutual

/-- Equality of data. A function equals nothing. -/
def same : Value → Value → Bool
  | .null, .null => true
  | .bool a, .bool b => a == b
  | .num a, .num b => a == b
  | .str a, .str b => a == b
  | .arr a, .arr b => sameElems a b
  | .record a, .record b => sameFields a b
  | _, _ => false

def sameElems : List Value → List Value → Bool
  | [], [] => true
  | a :: as, b :: bs => same a b && sameElems as bs
  | _, _ => false

def sameFields : List (String × Value) → List (String × Value) → Bool
  | [], [] => true
  | (n, a) :: as, (m, b) :: bs => n == m && same a b && sameFields as bs
  | _, _ => false

end

def elem (value : Value) (elems : List Value) : Bool := elems.any (same value)

@[simp] theorem same_str {a b : String} : same (.str a) (.str b) = (a == b) := by
  rw [same]

theorem same_str_right {v : Value} {s : String} : same v (.str s) = true ↔ v = .str s := by
  cases v <;> simp [same]

end Value

end OnixCore.ModuleSchema
