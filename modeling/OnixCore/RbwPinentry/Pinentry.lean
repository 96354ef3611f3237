import OnixCore.NixEvalWarnings.Warnings

/-!
# The pinentry of rbw

`pinentry.py`: a session answers its lines one by one, and a GETPIN either takes the password from
the key ring or asks for it in a dialog. What the key ring and the dialog do at a line is given with
it: each call of the key ring may fail with a `KeyringError`, and the dialog sees its own command
line. The log is left out.
-/

namespace OnixCore.RbwPinentry

open NixEvalWarnings (strip)

/-- What `subprocess.run` comes to. -/
inductive Dialog where
  | osError
  | exit (returncode : Int) (stdout : Text)

/-- What the key ring and the dialog do while one line is answered. -/
structure Surroundings where
  getFails : Bool
  deleteFails : Bool
  setFails : Bool
  zenity : List Text → Dialog

/-- The texts of a session, and what the key ring holds for the profile. -/
structure State where
  title : Text
  prompt : Text
  desc : Text
  error : Text
  keyring : Option Text

def initial (keyring : Option Text) : State := ⟨[], [], [], [], keyring⟩

/-- The line ends as text mode reads them. -/
def universalNewlines : Text → Text
  | [] => []
  | '\r' :: '\n' :: t => '\n' :: universalNewlines t
  | '\r' :: t => '\n' :: universalNewlines t
  | c :: t => c :: universalNewlines t

def zenityCmd (title prompt desc error : Text) : List Text :=
  let textParts := (if error ≠ [] then ["Error: ".toList ++ error] else [])
    ++ (if desc ≠ [] then [desc] else []) ++ (if prompt ≠ [] ∧ prompt ≠ title then [prompt] else [])
  ["zenity".toList, "--password".toList]
    ++ (if title ≠ [] then ["--title".toList, title]
      else if prompt ≠ [] then ["--title".toList, prompt] else [])
    ++ (if textParts ≠ [] then ["--text".toList, "\n\n".toList.intercalate textParts] else [])

def quoted (t : Text) : Text := '\x27' :: t ++ ['\x27']

section Session

variable (rbwProfile : Text) (around : Surroundings)

def showZenityPasswordDialog (title prompt desc error : Text) : Option Text :=
  match around.zenity (zenityCmd title prompt desc error) with
  | .osError => none
  | .exit returncode stdout =>
    let stdout := universalNewlines stdout
    if returncode = 0 ∧ stdout ≠ [] then
      let password := strip stdout
      if password ≠ [] then some (password.rdropWhile (· == '\n')) else none
    else none

def getCachedPassword (state : State) : Option Text :=
  if around.getFails then none else state.keyring

def clearCachedPassword (state : State) : State :=
  if around.deleteFails then state else { state with keyring := none }

def cachePassword (password : Text) (state : State) : State :=
  if around.setFails then state else { state with keyring := some password }

def dialogTitle (state : State) : Text :=
  if state.title = [] then "rbw".toList else state.title

def dialogDesc (state : State) : Text :=
  if state.desc = [] then
    if state.error ≠ [] then
      "Authentication failed. Please enter the password for ".toList ++ quoted rbwProfile
    else "Please enter the password for ".toList ++ quoted rbwProfile
      ++ " (will be cached in secure storage)".toList
  else state.desc

/-- The second half of `_handle_password`: the dialog, and the key ring after it. -/
def askPassword (state : State) : State × Option Text :=
  match showZenityPasswordDialog around (dialogTitle state) state.prompt (dialogDesc rbwProfile state)
      state.error with
  | some value => (if value ≠ [] then cachePassword around value state else state, some value)
  | none => (state, none)

def handlePassword (state : State) : State × Option Text :=
  if state.error ≠ [] then askPassword rbwProfile around (clearCachedPassword around state)
  else match getCachedPassword around state with
    | some cached =>
      if cached ≠ [] then (state, some cached) else askPassword rbwProfile around state
    | none => askPassword rbwProfile around state

/-- The state after a GETPIN, and what is printed. -/
def handleGetpin (state : State) : State × List Text :=
  match handlePassword rbwProfile around state with
  | (after, some value) =>
    (after, (if value ≠ [] then ["D ".toList ++ value] else []) ++ ["OK".toList])
  | (after, none) => (after, ["OK".toList])

def command (line : Text) : Text := line.takeWhile (· ≠ ' ')

def args (line : Text) : Text := (line.dropWhile (· ≠ ' ')).drop 1

/-- The state after a line and what is printed, or nothing where the line ends the session. -/
def processCommand (line : Text) (state : State) : Option (State × List Text) :=
  if command line = "SETTITLE".toList then some ({ state with title := args line }, ["OK".toList])
  else if command line = "SETDESC".toList then some ({ state with desc := args line }, ["OK".toList])
  else if command line = "SETPROMPT".toList then
    some ({ state with prompt := args line }, ["OK".toList])
  else if command line = "SETERROR".toList then
    some ({ state with error := args line }, ["OK".toList])
  else if command line = "GETPIN".toList then some (handleGetpin rbwProfile around state)
  else if command line = "BYE".toList then none
  else some (state, ["ERR Unknown command".toList])

end Session

/-- One line of a session, what it met and what it did. -/
structure Event where
  line : Text
  around : Surroundings
  before : State
  after : State
  printed : List Text

/-- `handle_pinentry_session`, after its greeting -/
def handlePinentrySession (rbwProfile : Text) :
    State → List (Text × Surroundings) → List Event
  | _, [] => []
  | state, (line, around) :: input =>
    match processCommand rbwProfile around line state with
    | none => []
    | some (after, printed) =>
      { line := line, around := around, before := state, after := after, printed := printed }
        :: handlePinentrySession rbwProfile after input

end OnixCore.RbwPinentry
