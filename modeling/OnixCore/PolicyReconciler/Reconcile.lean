import Mathlib.Data.List.AList
import OnixCore.Lib.Execution
import OnixCore.PolicyReconciler.Policies

/-!
# Reconciliation with the node

`reconcile` as a program whose one action is to run `rad` with some arguments. The reply is an error
of the operating system or an output, of which the standard error is read as `from_utf8_lossy` gives
it and the standard output as `from_utf8` does.

The node has one policy and one scope for each repository it knows. `rad seed` lists them and
`rad unseed` and `rad seed --no-fetch --scope all` change one of them (`requested`).
-/

namespace OnixCore.PolicyReconciler

open Prog

structure Output where
  success : Bool
  stdout : Except String String
  stderr : String

abbrev Reply := Except String Output

/-- A program that runs `rad`. -/
abbrev Rad := Prog (List String) (fun _ => Reply) String

def trimmed (text : String) : String := String.ofList (Text.trim text.toList)

section Reconcile

variable (rad : String)

def run (arguments : List String) : Rad Output := do
  match ← act arguments with
  | .error error => fail ("failed to execute " ++ rad ++ ": " ++ error)
  | .ok output =>
    if !output.success then
      fail (rad ++ " " ++ " ".intercalate arguments ++ " failed: " ++ trimmed output.stderr)
    else
      return output

def list : Rad (Finset String) := do
  let output ← run rad ["seed"]
  if trimmed output.stderr ≠ "" then
    fail ("rad seed emitted diagnostics: " ++ trimmed output.stderr)
  else
    match output.stdout with
    | .error error => fail ("rad seed output was not UTF-8: " ++ error)
    | .ok stdout => ofExcept (policySet stdout)

def unseedCommand (rid : String) : List String := ["unseed", rid]

def seedCommand (rid : String) : List String := ["seed", "--no-fetch", "--scope", scope, rid]

def apply (plan : Plan) : Rad Unit := do
  plan.remove.forM fun rid => do
    let _ ← run rad (unseedCommand rid)
  plan.add.forM fun rid => do
    let _ ← run rad (seedCommand rid)

def reconcile (desired : Finset String) : Rad Plan := do
  let current ← list rad
  let plan := reconcilePlan current desired
  apply rad plan
  let observed ← list rad
  if observed ≠ desired then
    fail ("policy reconciliation mismatch: expected " ++ debugSet desired ++ ", observed "
      ++ debugSet observed)
  else
    return plan

end Reconcile

/-! ## The node -/

inductive Policy where
  | allow
  | block
  deriving DecidableEq

inductive Scope where
  | all
  | followed
  deriving DecidableEq

structure Entry where
  policy : Policy
  scope : Scope
  deriving DecidableEq

def Policy.text : Policy → Text
  | .allow => "allow".toList
  | .block => "block".toList

def Scope.text : Scope → Text
  | .all => "all".toList
  | .followed => "followed".toList

abbrev Rid := {id : String // isCanonicalRid id = true}

/-- The policies of the node. -/
abbrev Store := AList fun _ : Rid => Entry

/-- The repositories that the node has a policy for. -/
def ids (store : Store) : Finset String := (store.keys.map Subtype.val).toFinset

/-- What a command makes of the policies, for the commands the reconciler runs. -/
def requested (arguments : List String) (store : Store) : Option Store :=
  match arguments with
  | ["seed"] => some store
  | ["unseed", id] => if h : isCanonicalRid id = true then some (store.erase ⟨id, h⟩) else none
  | ["seed", "--no-fetch", "--scope", "all", id] =>
    if h : isCanonicalRid id = true then some (store.insert ⟨id, h⟩ ⟨.allow, .all⟩) else none
  | _ => none

/-- The rows of a table, each without its left border. -/
def tableRows (lines : List Text) : List Text :=
  lines.filterMap fun line => Text.stripPrefix ['│'] (Text.trimStart line)

/-- A row with an entry: the id, a name, the policy, the scope and the right border. -/
def EntryRow (entry : Sigma fun _ : Rid => Entry) (row : Text) : Prop :=
  ∃ name, Text.words row
    = [entry.1.1.toList] ++ name ++ [entry.2.policy.text, entry.2.scope.text, ['│']]

/-- The text is a listing of the policies: one row for each in some order, after the row with the
headings, or the message that there are none. -/
inductive Lists : Store → String → Prop
  | empty {store : Store} {text : String} (hstore : store.entries = [])
      (hline : ∃ line ∈ Text.lines text.toList, Text.trim line = emptyPolicyMessage.toList) :
      Lists store text
  | table {store : Store} {text : String} {header : Text} {rows : List Text}
      {order : List (Sigma fun _ : Rid => Entry)} (hstore : store.entries ≠ [])
      (hlines : ∀ line ∈ Text.lines text.toList, Text.trim line ≠ emptyPolicyMessage.toList)
      (hrows : tableRows (Text.lines text.toList) = header :: rows)
      (hheader : Text.words header
        = ["Repository".toList, "Name".toList, "Policy".toList, "Scope".toList, ['│']])
      (horder : order.Perm store.entries) (hentries : List.Forall₂ EntryRow order rows) :
      Lists store text

/-- `rad` does what it is asked for, or fails, with or without having done it. -/
def Responds (store : Store) (arguments : List String) (reply : Reply) (store' : Store) : Prop :=
  match reply with
  | .ok ⟨true, stdout, _⟩ => requested arguments store = some store'
    ∧ (arguments = ["seed"] → ∀ text, stdout = .ok text → Lists store text)
  | _ => store' = store ∨ requested arguments store = some store'

/-- `rad` does what it is asked for. -/
def Works (store : Store) (arguments : List String) (reply : Reply) (store' : Store) : Prop :=
  Responds store arguments reply store' ∧ ∃ text, reply = .ok ⟨true, .ok text, ""⟩

end OnixCore.PolicyReconciler
