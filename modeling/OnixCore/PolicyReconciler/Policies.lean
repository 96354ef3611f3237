import Mathlib.Data.Finset.Sort
import Mathlib.Data.String.Basic
import OnixCore.Lib.Text

/-!
# The sets of the policy reconciler

`modules/radicle-node/policy-reconciler.rs`: the set of repositories that the node has a policy
for, read from a table, the set the arguments ask for, and what to do about their difference. A
`BTreeSet` is a finite set, which is read in order.
-/

namespace OnixCore.PolicyReconciler

def radPrefix : String := "rad:z"

def emptyPolicyMessage : String := "No seeding policies to show."

def policyHeader : String := "Repository"

def scope : String := "all"

structure Plan where
  remove : List String
  add : List String

def isBase58Character (c : Char) : Bool :=
  ('1' ≤ c && c ≤ '9') || ('A' ≤ c && c ≤ 'H') || ('J' ≤ c && c ≤ 'N') || ('P' ≤ c && c ≤ 'Z')
    || ('a' ≤ c && c ≤ 'k') || ('m' ≤ c && c ≤ 'z')

def isCanonicalRid (value : String) : Bool :=
  match Text.stripPrefix radPrefix.toList value.toList with
  | none => false
  | some payload => !payload.isEmpty && payload.all isBase58Character

/-- The loop of `policy_set` over the lines. -/
def policyRows : List Text → Bool → Finset String → Except String (Bool × Finset String)
  | [], headerSeen, policies => .ok (headerSeen, policies)
  | line :: lines, headerSeen, policies =>
    match Text.stripPrefix ['│'] (Text.trimStart line) with
    | none => policyRows lines headerSeen policies
    | some row =>
      match (Text.words row).head? with
      | none => policyRows lines headerSeen policies
      | some word =>
        let candidate := String.ofList word
        if candidate = policyHeader then policyRows lines true policies
        else if !headerSeen then
          .error "Radicle policy row appeared before the expected header"
        else if !isCanonicalRid candidate then
          .error ("invalid repository ID in Radicle policy output: " ++ candidate)
        else policyRows lines headerSeen (insert candidate policies)

def policySet (output : String) : Except String (Finset String) :=
  let lines := Text.lines output.toList
  if lines.any fun line => Text.trim line == emptyPolicyMessage.toList then .ok ∅
  else
    match policyRows lines false ∅ with
    | .error error => .error error
    | .ok (headerSeen, policies) =>
      if !headerSeen || policies = ∅ then .error "unrecognized or empty Radicle policy table"
      else .ok policies

/-- The loop of `desired_set` over the arguments. -/
def desiredFrom : List String → Finset String → Except String (Finset String)
  | [], desired => .ok desired
  | rid :: arguments, desired =>
    if !isCanonicalRid rid then .error ("invalid desired repository ID: " ++ rid)
    else if rid ∈ desired then .error ("duplicate desired repository ID: " ++ rid)
    else desiredFrom arguments (insert rid desired)

def desiredSet (arguments : List String) : Except String (Finset String) := desiredFrom arguments ∅

def reconcilePlan (current desired : Finset String) : Plan where
  remove := (current \ desired).sort (· ≤ ·)
  add := (desired \ current).sort (· ≤ ·)

/-- `{:?}` of a set of strings that have nothing to escape. -/
def debugSet (ids : Finset String) : String :=
  "\x7b" ++ ", ".intercalate ((ids.sort (· ≤ ·)).map fun id => "\"" ++ id ++ "\"") ++ "\x7d"

end OnixCore.PolicyReconciler
