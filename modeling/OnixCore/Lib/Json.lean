import Mathlib.Algebra.GroupWithZero.Nat
import Mathlib.Data.Int.Notation
import Mathlib.Data.List.Basic
import Mathlib.Tactic.Common
import OnixCore.Lib.Bytes

/-!
# JSON values

A value as a serializer writes it: the members of an object stand in the order they are written.
A digest of a value is a function of it that the user of the library supplies.

`prettyStrings` is the indented text of an object of strings. Its size is that of the names and
the strings, with two bytes and ten for each member, where nothing is escaped
(`size_prettyStrings`).
-/

namespace OnixCore

inductive Json where
  | null
  | bool (b : Bool)
  | num (n : ℤ)
  | str (s : String)
  | arr (items : List Json)
  | obj (members : List (String × Json))

namespace Json

variable {α : Type}

/-- An optional value: absent is `null`. -/
def option (f : α → Json) : Option α → Json
  | none => .null
  | some a => f a

def strings (l : List String) : Json := .arr (l.map .str)

theorem strings_inj {l l' : List String} : strings l = strings l' ↔ l = l' := by
  have hstr : Function.Injective Json.str := fun _ _ h => Json.str.inj h
  rw [strings, strings, Json.arr.injEq, (List.map_injective_iff.2 hstr).eq_iff]

/-- An encoding that never gives `null` stays injective on optional values. -/
theorem option_inj {f : α → Json} (hf : ∀ a b, f a = f b → a = b) (hnull : ∀ a, f a ≠ .null) :
    ∀ {a b : Option α}, option f a = option f b ↔ a = b
  | none, none => ⟨fun _ => rfl, fun _ => rfl⟩
  | none, some b => ⟨fun h => absurd h.symm (hnull b), fun h => nomatch h⟩
  | some a, none => ⟨fun h => absurd h (hnull a), fun h => nomatch h⟩
  | some a, some b => ⟨fun h => congrArg some (hf a b h), fun h => congrArg (option f) h⟩

theorem option_str_inj {a b : Option String} : option .str a = option .str b ↔ a = b :=
  option_inj (fun _ _ h => Json.str.inj h) (fun _ h => nomatch h)

theorem option_num_inj {a b : Option ℤ} : option .num a = option .num b ↔ a = b :=
  option_inj (fun _ _ h => Json.num.inj h) (fun _ h => nomatch h)

section Text

/-- A character of a string, with a backslash before it or as a code where JSON asks for one. -/
def escape (c : Char) : List Char :=
  if c = '\x22' then ['\x5c', '\x22']
  else if c = '\x5c' then ['\x5c', '\x5c']
  else if c = '\x08' then ['\x5c', 'b']
  else if c = '\t' then ['\x5c', 't']
  else if c = '\n' then ['\x5c', 'n']
  else if c = '\x0c' then ['\x5c', 'f']
  else if c = '\r' then ['\x5c', 'r']
  else if c < ' ' then
    ['\x5c', 'u', '0', '0', Nat.digitChar (c.toNat / 16), Nat.digitChar (c.toNat % 16)]
  else [c]

def quote (s : String) : String := "\x22" ++ String.ofList (s.toList.flatMap escape) ++ "\x22"

def prettyMember (name value : String) : String := "  " ++ quote name ++ ": " ++ quote value

/-- The members of an object of strings, one on each line. -/
def prettyMembers : List (String × String) → String
  | [] => ""
  | [(name, value)] => prettyMember name value
  | (name, value) :: rest => prettyMember name value ++ ",\n" ++ prettyMembers rest

def prettyStrings (members : List (String × String)) : String :=
  if members = [] then "\x7b\x7d" else "\x7b\n" ++ prettyMembers members ++ "\n\x7d"

/-- A character that stands for itself in a string. -/
def Unescaped (c : Char) : Prop := c ≠ '\x22' ∧ c ≠ '\x5c' ∧ ' ' ≤ c

instance : DecidablePred Unescaped := fun _ => inferInstanceAs (Decidable (_ ∧ _))

theorem unescaped_of_all {s : String} (h : s.toList.all (Unescaped ·) = true) :
    ∀ c ∈ s.toList, Unescaped c :=
  fun c hc => of_decide_eq_true (List.all_eq_true.1 h c hc)

theorem escape_of_unescaped {c : Char} (h : Unescaped c) : escape c = [c] := by
  obtain ⟨hquote, hslash, hspace⟩ := h
  have hne : ∀ d : Char, d < ' ' → c ≠ d := by
    rintro d hd rfl
    exact absurd hspace (Char.not_le.2 hd)
  rw [escape, if_neg hquote, if_neg hslash, if_neg (hne _ (by decide)), if_neg (hne _ (by decide)),
    if_neg (hne _ (by decide)), if_neg (hne _ (by decide)), if_neg (hne _ (by decide)),
    if_neg (Char.not_lt.2 hspace)]

theorem size_quote {s : String} (h : ∀ c ∈ s.toList, Unescaped c) :
    (quote s).utf8ByteSize = s.utf8ByteSize + 2 := by
  have hplain : s.toList.flatMap escape = s.toList := by
    rw [List.flatMap_congr fun c hc => escape_of_unescaped (h c hc)]
    exact List.flatMap_pure_eq_map id _ |>.trans (List.map_id _)
  rw [quote, hplain, String.ofList_toList, String.utf8ByteSize_append, String.utf8ByteSize_append]
  have hmark : "\x22".utf8ByteSize = 1 := by decide
  omega

theorem size_prettyMember {name value : String} (hname : ∀ c ∈ name.toList, Unescaped c)
    (hvalue : ∀ c ∈ value.toList, Unescaped c) :
    (prettyMember name value).utf8ByteSize = name.utf8ByteSize + value.utf8ByteSize + 8 := by
  have hindent : "  ".utf8ByteSize = 2 := by decide
  have hcolon : ": ".utf8ByteSize = 2 := by decide
  simp only [prettyMember, String.utf8ByteSize_append, size_quote hname, size_quote hvalue]
  omega

theorem size_prettyMembers : ∀ {members : List (String × String)}, members ≠ [] →
    (∀ m ∈ members, (∀ c ∈ m.1.toList, Unescaped c) ∧ ∀ c ∈ m.2.toList, Unescaped c) →
    (prettyMembers members).utf8ByteSize + 2
      = (members.map fun m => m.1.utf8ByteSize + m.2.utf8ByteSize + 10).sum
  | [(name, value)], _, h => by
    obtain ⟨hname, hvalue⟩ := h _ List.mem_cons_self
    simp only [prettyMembers, size_prettyMember hname hvalue, List.map_cons, List.map_nil,
      List.sum_cons, List.sum_nil]
    omega
  | (name, value) :: m :: rest, _, h => by
    obtain ⟨hname, hvalue⟩ := h _ List.mem_cons_self
    have ih := size_prettyMembers (List.cons_ne_nil m rest) fun m' hm =>
      h m' (List.mem_cons_of_mem _ hm)
    have hcomma : ",\n".utf8ByteSize = 2 := by decide
    simp only [prettyMembers, String.utf8ByteSize_append, size_prettyMember hname hvalue]
    rw [List.map_cons, List.sum_cons, ← ih]
    dsimp only
    omega

/-- The size of an object whose names and strings need no escape. -/
theorem size_prettyStrings {members : List (String × String)} (hne : members ≠ [])
    (h : ∀ m ∈ members, (∀ c ∈ m.1.toList, Unescaped c) ∧ ∀ c ∈ m.2.toList, Unescaped c) :
    (prettyStrings members).utf8ByteSize
      = (members.map fun m => m.1.utf8ByteSize + m.2.utf8ByteSize + 10).sum + 2 := by
  have hopen : "\x7b\n".utf8ByteSize = 2 := by decide
  have hclose : "\n\x7d".utf8ByteSize = 2 := by decide
  rw [prettyStrings, if_neg hne, String.utf8ByteSize_append, String.utf8ByteSize_append,
    ← size_prettyMembers hne h]
  omega

end Text

end Json

/-- The digest tells the two values apart: they have one digest only if they are one value. -/
def NoCollision {α β : Type} (digest : α → β) (a b : α) : Prop := digest a = digest b → a = b

end OnixCore
