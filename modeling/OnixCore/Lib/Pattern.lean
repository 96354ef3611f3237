import OnixCore.Lib.Text

/-!
# Patterns over text

A regular expression without alternatives: single characters, runs of characters that give back what
they took when the rest does not match, the end of a line, and marks where a group starts or stops.
`match?` tries one position, `matches` goes through a text from left to right, and a match starts
where the one before it ended.
-/

namespace OnixCore.Pattern

/-- One item of a pattern. A run takes as many characters as it can or as few. -/
inductive Item where
  | one (accepts : Char → Bool)
  | many (accepts : Char → Bool)
  | few (accepts : Char → Bool)
  | lineEnd
  | mark

/-- The text at each mark and after the match. -/
structure Match where
  marks : List Text
  rest : Text

def literal (t : Text) : List Item := t.map fun c => .one (· == c)

section Runs

variable {α : Type} (accepts : Char → Bool) (next : Text → Option α)

def greedy : Text → Option α
  | [] => next []
  | c :: t => if accepts c then (greedy t).or (next (c :: t)) else next (c :: t)

def lazily : Text → Option α
  | [] => next []
  | c :: t => (next (c :: t)).or (if accepts c then lazily t else none)

end Runs

def match? : List Item → Text → Option Match
  | [], t => some { marks := [], rest := t }
  | .one accepts :: items, t => match t with
    | [] => none
    | c :: t => if accepts c then match? items t else none
  | .many accepts :: items, t => greedy accepts (match? items) t
  | .few accepts :: items, t => lazily accepts (match? items) t
  | .lineEnd :: items, t => match t with
    | [] => match? items []
    | c :: t => if c == '\n' then
        (match? items t).or (if t.isEmpty then match? items (c :: t) else none)
      else none
  | .mark :: items, t => (match? items t).map fun m => { m with marks := t :: m.marks }

section Search

variable (items : List Item)

/-- The matches in a text, of which the first characters belong to the match before. -/
def matchesFrom : Nat → Text → List Match
  | _, [] => (match? items []).toList
  | skip + 1, _ :: t => matchesFrom skip t
  | 0, c :: t => match match? items (c :: t) with
    | some m => m :: matchesFrom (t.length - m.rest.length) t
    | none => matchesFrom 0 t

def matchesIn (t : Text) : List Match := matchesFrom items 0 t

def removeFrom : Nat → Text → Text
  | _, [] => []
  | skip + 1, _ :: t => removeFrom skip t
  | 0, c :: t => match match? items (c :: t) with
    | some m => removeFrom (t.length - m.rest.length) t
    | none => c :: removeFrom 0 t

/-- The text without its matches. -/
def removeAll (t : Text) : Text := removeFrom items 0 t

end Search

/-- The group between the two marks at a place. -/
def Match.group (n : Nat) (m : Match) : Text :=
  match m.marks.drop (2 * n) with
  | start :: stop :: _ => start.take (start.length - stop.length)
  | _ => []

end OnixCore.Pattern
