import Mathlib.Algebra.GroupWithZero.Nat
import OnixCore.Lib.Text

/-!
# Text on the terminal

What Pueue says about its tasks is text that others wrote. Before it is drawn, escape sequences and
control characters are taken out of it, and it is cut to a number of columns and of characters
(`sanitizeTerminalText`). Of a command, only what stands before the first assignment is shown, or
the program alone where the command begins with one (`sanitizeCommandDescription`).
-/

namespace OnixCore.HerdrPueue

/-- How many columns a character takes, where that is known: one for a space and the ellipsis. -/
structure UnicodeWidth where
  width : Char → Option ℕ
  space : width ' ' = some 1
  ellipsis : width (Char.ofNat 0x2026) = some 1
  small : ∀ c w, width c = some w → w < 2 ^ 16

/-- A terminal where every character takes one column. -/
def plainWidth : UnicodeWidth where
  width _ := some 1
  space := rfl
  ellipsis := rfl
  small := by simp

def escape : Char := Char.ofNat 0x1b

def bell : Char := Char.ofNat 0x07

def controlSequenceIntroducer : Char := Char.ofNat 0x9b

def operatingSystemCommand : Char := Char.ofNat 0x9d

def stringTerminator : Char := Char.ofNat 0x9c

def ellipsis : Char := Char.ofNat 0x2026

def ellipsisColumns : ℕ := 1

def maxOutputCharactersPerColumn : ℕ := 4

def maxU32 : ℕ := 2 ^ 32 - 1

def saturatingAdd (a b : ℕ) : ℕ := min (a + b) maxU32

def saturatingMul (a b : ℕ) : ℕ := min (a * b) maxU32

structure TextBounds where
  columns : ℕ
  characters : ℕ

inductive EscapeState where
  | ground
  | escape
  | escapeIntermediate
  | controlSequence
  | controlString
  | controlStringEscape
  deriving DecidableEq, Repr

def consumeEscapeState : EscapeState → Char → EscapeState
  | .ground, c =>
    if c = escape then .escape
    else if c = controlSequenceIntroducer then .controlSequence
    else if c = operatingSystemCommand then .controlString
    else .ground
  | .escape, c =>
    if c = '[' then .controlSequence
    else if c = ']' ∨ c = 'P' ∨ c = '^' ∨ c = '_' then .controlString
    else if 0x20 ≤ c.toNat ∧ c.toNat ≤ 0x2f then .escapeIntermediate
    else .ground
  | .escapeIntermediate, c =>
    if 0x30 ≤ c.toNat ∧ c.toNat ≤ 0x7e then .ground else .escapeIntermediate
  | .controlSequence, c =>
    if 0x40 ≤ c.toNat ∧ c.toNat ≤ 0x7e then .ground else .controlSequence
  | .controlString, c =>
    if c = bell ∨ c = stringTerminator then .ground
    else if c = escape then .controlStringEscape
    else .controlString
  | .controlStringEscape, c =>
    if c = '\x5c' then .ground
    else if c = escape then .controlStringEscape
    else .controlString

/-- What was written so far, its last character first. -/
structure Output where
  reversed : Text
  columns : ℕ
  characters : ℕ

def Output.push (o : Output) (c : Char) (width : ℕ) : Output where
  reversed := c :: o.reversed
  columns := saturatingAdd o.columns width
  characters := saturatingAdd o.characters 1

section Sanitizing

variable (unicode : UnicodeWidth) (bounds : TextBounds)

def displayWidth (c : Char) : ℕ :=
  match unicode.width c with
  | some width => if width ≤ maxU32 then width else 0
  | none => 0

/-- A space, but not at the beginning, after another one or out of bounds. -/
def appendSpace (o : Output) : Output :=
  if o.reversed = [] ∨ o.reversed.head? = some ' ' ∨ bounds.columns ≤ o.columns then o
  else if bounds.characters ≤ o.characters then o
  else o.push ' ' 1

/-- What is written of a text, and whether it was cut. -/
def sanitizeFrom : EscapeState → Output → Text → Output × Bool
  | _, o, [] => (o, false)
  | state, o, c :: cs =>
    let next := consumeEscapeState state c
    if state ≠ .ground ∨ next ≠ .ground then sanitizeFrom next o cs
    else if c = escape ∨ c = controlSequenceIntroducer then
      sanitizeFrom (consumeEscapeState state c) o cs
    else if Text.isControl c then
      sanitizeFrom state (if Text.isWhitespace c then appendSpace bounds o else o) cs
    else if bounds.columns < saturatingAdd o.columns (displayWidth unicode c) then (o, true)
    else if bounds.characters ≤ o.characters then (o, true)
    else sanitizeFrom state (o.push c (displayWidth unicode c)) cs

/-- Takes characters off the end until there is room for the ellipsis. -/
def makeRoom : Text → ℕ → ℕ → Option Text
  | [], columns, characters =>
    if bounds.columns < saturatingAdd columns ellipsisColumns ∨ bounds.characters ≤ characters then
      none
    else some []
  | last :: rest, columns, characters =>
    if bounds.columns < saturatingAdd columns ellipsisColumns ∨ bounds.characters ≤ characters then
      makeRoom rest (columns - displayWidth unicode last) (characters - 1)
    else some (last :: rest)

/-- Nobody reads the counts after this. -/
def appendEllipsis (o : Output) : Text :=
  match makeRoom unicode bounds o.reversed o.columns o.characters with
  | none => []
  | some reversed => ellipsis :: reversed.dropWhile (· = ' ')

end Sanitizing

def sanitizeTerminalText (unicode : UnicodeWidth) (input : Text) (maxColumns : ℕ) : Text :=
  if maxColumns = 0 then []
  else
    let bounds : TextBounds :=
      ⟨maxColumns, saturatingMul maxColumns maxOutputCharactersPerColumn⟩
    let (o, wasTruncated) := sanitizeFrom unicode bounds .ground ⟨[], 0, 0⟩ input
    Text.trim (if wasTruncated then appendEllipsis unicode bounds o else o.reversed).reverse

/-- The text is one of these. -/
def isOneOf (texts : List Text) (t : Text) : Bool := texts.any (· = t)

@[simp] theorem isOneOf_eq_true {texts : List Text} {t : Text} :
    isOneOf texts t = true ↔ t ∈ texts := by
  simp [isOneOf]

/-! ## Commands -/

def envProgram : Text := "env".toList

def unlabeledTaskDescription : Text := "unlabeled task".toList

def shellChainMarkers : List Text := ["&&".toList, "||".toList, ";".toList]

def maxEnvironmentPrefixTokens : ℕ := 256

def maxCommandTextColumns : ℕ := 120

def environmentAssignment (token : Text) : Bool :=
  '=' ∈ token &&
    match token.takeWhile (· ≠ '=') with
    | [] => false
    | first :: rest => (first.isAlpha ∨ first = '_') && rest.all fun c => c.isAlphanum ∨ c = '_'

/-- The last component of a path, when nothing in it but letters, digits and a few signs. -/
def safeProgramName (token : Text) : Option Text :=
  if token.head? = some '-' then none
  else if !token.all fun c => c.isAlphanum ∨ c ∈ "._/+-".toList then none
  else
    match (token.splitOn '/').getLast? with
    | none => none
    | some name => if name = [] ∨ name = ['.'] ∨ name = ['.', '.'] then none else some name

def environmentWrappedProgram (command : Text) : Text :=
  match ((Text.words command).take maxEnvironmentPrefixTokens).find?
    fun token => !(token = envProgram ∨ '=' ∈ token) with
  | none => unlabeledTaskDescription
  | some token => (safeProgramName token).getD unlabeledTaskDescription

def commandPrefix (tokens : List Text) : Text :=
  match tokens.rdropWhile (isOneOf shellChainMarkers) with
  | [] => unlabeledTaskDescription
  | kept => [' '].intercalate kept

def sanitizeCommandDescription (unicode : UnicodeWidth) (command : Text) (maxColumns : ℕ) : Text :=
  match Text.words command with
  | [] => unlabeledTaskDescription
  | first :: _ =>
    if first = envProgram ∨ environmentAssignment first then environmentWrappedProgram command
    else
      let boundedCommand := sanitizeTerminalText unicode command maxColumns
      let tokens := Text.words boundedCommand
      match tokens.findIdx? fun token => token = envProgram ∨ '=' ∈ token with
      | some index => commandPrefix (tokens.take index)
      | none => boundedCommand

end OnixCore.HerdrPueue
