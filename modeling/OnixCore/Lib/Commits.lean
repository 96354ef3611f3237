import Mathlib.Logic.Relation

/-!
# Commits

A commit is what it changes and its parents, so that commits with one history are one commit.
A replay puts changes again on top of another commit: what is reached from its result is what was
reached from there, and the new commits (`reaches_replay`).
-/

namespace OnixCore

inductive Commit (Change : Type) where
  | mk (change : Change) (parents : List (Commit Change))

namespace Commit

variable {Change : Type}

def change : Commit Change → Change
  | .mk change _ => change

def parents : Commit Change → List (Commit Change)
  | .mk _ parents => parents

/-- The commits that are reached from one by going to parents, itself among them. -/
def Reaches : Commit Change → Commit Change → Prop :=
  Relation.ReflTransGen fun commit parent => parent ∈ commit.parents

theorem reaches_mk {change : Change} {parents : List (Commit Change)} {c : Commit Change} :
    Reaches (.mk change parents) c ↔ c = .mk change parents ∨ ∃ p ∈ parents, Reaches p c :=
  Relation.ReflTransGen.cases_head_iff.trans (or_congr_left eq_comm)

/-- The changes of the picked commits, one after another on top of a commit, and each pick with the
commit made of it. -/
def replay (onto : Commit Change) :
    List (Commit Change) → Commit Change × List (Commit Change × Commit Change)
  | [] => (onto, [])
  | pick :: picks =>
    let made := .mk pick.change [onto]
    let rest := replay made picks
    (rest.1, (pick, made) :: rest.2)

theorem reaches_replay {c : Commit Change} : ∀ {picks : List (Commit Change)} {onto : Commit Change},
    Reaches (replay onto picks).1 c
      ↔ Reaches onto c ∨ ∃ pair ∈ (replay onto picks).2, pair.2 = c
  | [], onto => by simp [replay]
  | pick :: picks, onto => by
    rw [replay, reaches_replay, reaches_mk]
    simp only [List.mem_cons, exists_eq_or_imp, List.not_mem_nil, or_false, exists_eq_left]
    rw [or_comm (a := c = _), or_assoc, eq_comm (a := c)]

end Commit

end OnixCore
