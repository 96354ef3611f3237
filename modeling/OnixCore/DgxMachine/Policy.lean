import Mathlib.Data.List.Destutter
import Mathlib.Data.List.Sort
import Mathlib.Data.String.Basic
import OnixCore.Lib.BinarySearch
import OnixCore.Lib.Steps
import OnixCore.Lib.Text

/-!
# The command policy of the DGX shell

The shell takes two commands: one that shows the machines and one that builds a declared machine.
The names of the declared machines come as one text, a name on each line.
-/

namespace OnixCore.DgxMachine

def machineNameFirstMessage : String :=
  "a machine name must start with an ASCII letter or underscore"

def machineNameRestMessage : String :=
  "a machine name can contain only ASCII letters, digits, underscores, and hyphens"

inductive Operation where
  | info
  | build (name : String)
  deriving DecidableEq, Repr

structure Invocation where
  args : List String
  deriving DecidableEq, Repr

inductive PolicyError where
  | missingCommand
  | unexpectedArguments (command : String)
  | destructiveCommand (command : String)
  | unsupportedCommand (command : String)
  | invalidMachineName (name reason : String)
  | undeclaredMachine (name : String)
  deriving DecidableEq, Repr

def declaredNames (encodedNames : String) : List String :=
  let names := ((Text.lines encodedNames.toList).filter (· ≠ [])).map String.ofList
  (names.insertionSort (· ≤ ·)).destutter (· ≠ ·)

/-- A byte of a character beyond ASCII is no letter and no digit, so characters are looked at. -/
def validateMachineName (name : String) : Except PolicyError Unit :=
  match name.toList with
  | [] => .error (.invalidMachineName name machineNameFirstMessage)
  | first :: _ => do
    ensure (first.isAlpha ∨ first = '_') (.invalidMachineName name machineNameFirstMessage)
    ensure (name.toList.all fun c => c.isAlphanum || c == '_' || c == '-')
      (.invalidMachineName name machineNameRestMessage)

def parseOperation (args declared : List String) : Except PolicyError Operation :=
  match args with
  | [] => .error .missingCommand
  | command :: rest =>
    if command = "info" then do
      ensure (rest = []) (.unexpectedArguments command)
      pure .info
    else if command = "build" then
      match rest with
      | [name] => do
        validateMachineName name
        match binarySearch declared name with
        | .ok _ => pure (.build name)
        | .error _ => .error (.undeclaredMachine name)
      | _ => .error (.unexpectedArguments command)
    else if command = "deploy" ∨ command = "install" then .error (.destructiveCommand command)
    else .error (.unsupportedCommand command)

def invocation : Operation → Invocation
  | .info => ⟨["machines", "info"]⟩
  | .build name => ⟨["build", "machines." ++ name]⟩

end OnixCore.DgxMachine
