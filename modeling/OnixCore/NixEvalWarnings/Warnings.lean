import OnixCore.Lib.Json
import OnixCore.Lib.Pattern
import OnixCore.Lib.Text

/-!
# nix-eval-warnings

The lines of `nix-eval-jobs` come through one pipe: warnings as the evaluator prints them, and one
JSON record for each attribute. A record with an error becomes an `EvalWarning`. `json.loads` is a
parameter that gives the members of an object, fails as it documents, or raises something else; an
exception that nothing catches ends the program. The progress line and the printed report are left
out.
-/

namespace OnixCore.NixEvalWarnings

open Pattern

/-- `str.isspace` -/
def isspace (c : Char) : Bool :=
  let n := c.toNat
  (0x09 ≤ n && n ≤ 0x0D) || (0x1C ≤ n && n ≤ 0x20) || n == 0x85 || n == 0xA0 || n == 0x1680
    || (0x2000 ≤ n && n ≤ 0x200A) || n == 0x2028 || n == 0x2029 || n == 0x202F || n == 0x205F
    || n == 0x3000

def strip (t : Text) : Text := (t.dropWhile isspace).rdropWhile isspace

/-- The zeros of the decimal digits, with nine more after each. -/
def zeros : List Nat :=
  [0x30, 0x660, 0x6F0, 0x7C0, 0x966, 0x9E6, 0xA66, 0xAE6, 0xB66, 0xBE6, 0xC66, 0xCE6, 0xD66, 0xDE6,
    0xE50, 0xED0, 0xF20, 0x1040, 0x1090, 0x17E0, 0x1810, 0x1946, 0x19D0, 0x1A80, 0x1A90, 0x1B50,
    0x1BB0, 0x1C40, 0x1C50, 0xA620, 0xA8D0, 0xA900, 0xA9D0, 0xA9F0, 0xAA50, 0xABF0, 0xFF10, 0x104A0,
    0x10D30, 0x11066, 0x110F0, 0x11136, 0x111D0, 0x112F0, 0x11450, 0x114D0, 0x11650, 0x116C0,
    0x11730, 0x118E0, 0x11950, 0x11C50, 0x11D50, 0x11DA0, 0x11F50, 0x16A60, 0x16AC0, 0x16B50,
    0x1D7CE, 0x1D7D8, 0x1D7E2, 0x1D7EC, 0x1D7F6, 0x1E140, 0x1E2F0, 0x1E4D0, 0x1E950, 0x1FBF0]

/-- `\d` -/
def isdecimal (c : Char) : Bool := zeros.any fun first => first ≤ c.toNat && c.toNat < first + 10

/-- `\x1b\[[0-9;]*m` -/
def ansiPattern : List Item :=
  [.one (· == '\x1b'), .one (· == '['), .many (fun c => c.isDigit || c == ';'), .one (· == 'm')]

/-- `error:\s*(.+?)(?:\n|$)` -/
def errorPattern : List Item :=
  literal "error:".toList
    ++ [.many isspace, .mark, .one (· != '\n'), .few (· != '\n'), .mark, .lineEnd]

/-- The text between a backquote and an apostrophe, after some words. -/
def quotedPattern (words : String) : List Item :=
  literal words.toList
    ++ [.one (· == '\x60'), .mark, .one (· != '\x27'), .many (· != '\x27'), .mark, .one (· == '\x27')]

/-- `at (/[^:]+\.nix):(\d+):\d+:` -/
def positionPattern : List Item :=
  literal "at ".toList ++ [.mark, .one (· == '/'), .one (· != ':'), .many (· != ':')]
    ++ literal ".nix".toList ++ [.mark, .one (· == ':'), .mark, .one isdecimal, .many isdecimal, .mark,
      .one (· == ':'), .one isdecimal, .many isdecimal, .one (· == ':')]

def stripAnsi (text : Text) : Text := removeAll ansiPattern text

def resolveStorePath (filepath : Text) : List (Text × Text) → Text
  | [] => filepath
  | (storePath, inputName) :: inputMapping => match Text.stripPrefix storePath filepath with
    | some rest =>
      let relative := rest.dropWhile (· == '/')
      if inputName = ['.'] then relative else inputName ++ '/' :: relative
    | none => resolveStorePath filepath inputMapping

def extractErrorMessage (errorText : Text) : Text :=
  let messages := (matchesIn errorPattern errorText).map fun m => strip (m.group 0)
  (messages.reverse.find? fun msg => msg ≠ [] && msg ≠ "aborting".toList
    && msg ≠ "evaluation aborted".toList && !"...".toList.isPrefixOf msg).getD "unknown".toList

def extractOptionPath (errorText : Text) : Text :=
  ((matchesIn (quotedPattern "while evaluating the option ") errorText).map (·.group 0)).getLast?.getD []

def extractSource (errorText : Text) (inputMapping : List (Text × Text)) : Text :=
  match (matchesIn positionPattern errorText).head? with
  | some m => resolveStorePath (m.group 0) inputMapping ++ ':' :: m.group 1
  | none =>
    let paths := (matchesIn (quotedPattern "definitions from ") errorText).map fun m =>
      (m.group 0).takeWhile (· ≠ ',')
    (paths.reverse.findSome? fun cleanPath =>
      let resolved := resolveStorePath cleanPath inputMapping
      if resolved ≠ cleanPath then some resolved else none).getD []

structure EvalWarning where
  attr : Json
  warningType : Text
  source : Text
  optionPath : Text

/-- How `json.loads` fails. -/
inductive LoadError where
  | jsonDecodeError
  | other

/-- What one line of the output is to the parser. -/
inductive Line where
  | skipped
  | warning (text : Text)
  | clean
  | failed (attr error : Json)
  | raised

section Parse

variable (loads : Text → Except LoadError (List (String × Json)))

def readLine (rawLine : Text) : Line :=
  let line := strip rawLine
  if line = [] then .skipped
  else match Text.stripPrefix "evaluation warning:".toList line with
    | some text => .warning (strip text)
    | none =>
      if line.head? = some '{' then match loads line with
        | .ok data => match data.lookup "error" with
          | some error => .failed ((data.lookup "attr").getD (.str "unknown")) error
          | none => .clean
        | .error .jsonDecodeError => .skipped
        | .error .other => .raised
      else .skipped

/-- What a generator yields, and whether an exception ends it. -/
structure Yielded (α : Type) where
  results : List α
  raised : Bool

def Yielded.cons {α : Type} (a : α) (rest : Yielded α) : Yielded α :=
  { rest with results := a :: rest.results }

variable (inputMapping : List (Text × Text))

/-- `last_warning or extract_error_message(error_text)` -/
def warningType (lastWarning : Option Text) (errorText : Text) : Text :=
  match lastWarning with
  | some (c :: text) => c :: text
  | _ => extractErrorMessage errorText

def evalWarning (lastWarning : Option Text) (attr : Json) (error : String) : EvalWarning :=
  let errorText := stripAnsi error.toList
  { attr := attr, warningType := warningType lastWarning errorText
    source := extractSource errorText inputMapping, optionPath := extractOptionPath errorText }

/-- The loop, with the warning that waits for a record. -/
def parseFrom : Option Text → List Text → Yielded (Option EvalWarning)
  | _, [] => { results := [], raised := false }
  | lastWarning, rawLine :: lines => match readLine loads rawLine with
    | .skipped => parseFrom lastWarning lines
    | .warning text => parseFrom (some text) lines
    | .clean => (parseFrom lastWarning lines).cons none
    | .failed attr (.str error) =>
      (parseFrom none lines).cons (some (evalWarning inputMapping lastWarning attr error))
    -- `strip_ansi` takes a string only
    | .failed _ _ => { results := [], raised := true }
    | .raised => { results := [], raised := true }

def parseNixEvalOutput (lines : List Text) : Yielded (Option EvalWarning) :=
  parseFrom loads inputMapping none lines

end Parse

/-- The pipe of `nix-eval-jobs`: its lines, and whether bytes that are no text come after them. -/
structure Output where
  lines : List Text
  undecodable : Bool

/-- What starting `nix-eval-jobs` gives. -/
inductive Launch where
  | notFound
  | ran (output : Output) (status : Int)

/-- An exception that `main` does not catch. -/
inductive Raised where
  | raised

section Main

variable (loads : Text → Except LoadError (List (String × Json))) (inputMapping : List (Text × Text))

def runNixEvalJobs (output : Output) (status : Int) : Except Raised (List EvalWarning × Int) :=
  let yielded := parseNixEvalOutput loads inputMapping output.lines
  if yielded.raised || output.undecodable then .error .raised
  else .ok (yielded.results.filterMap id, status)

def exitOk : Nat := 0
def exitWarnings : Nat := 1
def exitError : Nat := 2

def main : Launch → Except Raised Nat
  | .notFound => .ok exitError
  | .ran output status => match runNixEvalJobs loads inputMapping output status with
    | .error e => .error e
    | .ok (warnings, _) => .ok (if warnings.isEmpty then exitOk else exitWarnings)

end Main

end OnixCore.NixEvalWarnings
