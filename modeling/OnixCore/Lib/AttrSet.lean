import Mathlib.Data.List.Basic
import Mathlib.Data.List.Nodup
import OnixCore.Lib.Steps

/-!
# Attribute sets

A set of named values, listed. Where a list of names and values is made into a set, the first value
of a name stays, and the values are not looked at until the set is forced; an update gives way to
the set on its right.
-/

namespace OnixCore.AttrSet

variable {α ε : Type}

/-- `builtins.listToAttrs` -/
def listToAttrs : List (String × α) → List (String × α)
  | [] => []
  | entry :: entries => entry :: (listToAttrs entries).filter fun other => other.1 ≠ entry.1

/-- `left // right` -/
def update (left right : List (String × α)) : List (String × α) :=
  (left.filter fun entry => (right.lookup entry.1).isNone) ++ right

/-- The set with every value computed. -/
def force : List (String × Except ε α) → Except ε (List (String × α))
  | [] => .ok []
  | (name, value) :: entries => do
    let value ← value
    let entries ← force entries
    return (name, value) :: entries

theorem mem_of_mem_listToAttrs {entry : String × α} : ∀ {entries : List (String × α)},
    entry ∈ listToAttrs entries → entry ∈ entries
  | [], h => h
  | _ :: _, h => by
    rcases List.mem_cons.1 h with rfl | h
    · exact List.mem_cons_self
    · exact List.mem_cons_of_mem _ (mem_of_mem_listToAttrs (List.mem_filter.1 h).1)

/-- Names that are all different are all kept. -/
theorem listToAttrs_of_nodup : ∀ {entries : List (String × α)},
    (entries.map Prod.fst).Nodup → listToAttrs entries = entries
  | [], _ => rfl
  | entry :: entries, h => by
    obtain ⟨hnew, hrest⟩ := List.nodup_cons.1 h
    rw [listToAttrs, listToAttrs_of_nodup hrest, List.filter_eq_self.2]
    intro other hother
    have hname : other.1 ∈ entries.map Prod.fst := List.mem_map_of_mem hother
    simpa using fun heq : other.1 = entry.1 => hnew (heq ▸ hname)

theorem mem_update {left right : List (String × α)} {entry : String × α} :
    entry ∈ update left right
      ↔ (entry ∈ left ∧ right.lookup entry.1 = none) ∨ entry ∈ right := by
  simp [update]

theorem lookup_of_mem : ∀ {entries : List (String × α)} {name : String} {value : α},
    (entries.map Prod.fst).Nodup → (name, value) ∈ entries → entries.lookup name = some value
  | (first, _) :: entries, name, value, hnodup, h => by
    obtain ⟨hnew, hrest⟩ := List.nodup_cons.1 hnodup
    rcases List.mem_cons.1 h with heq | hmem
    · obtain ⟨rfl, rfl⟩ := Prod.mk.inj heq
      exact List.lookup_cons_self
    · have hne : (name == first) = false := by
        rw [beq_eq_false_iff_ne]
        rintro rfl
        exact hnew (List.mem_map.2 ⟨_, hmem, rfl⟩)
      rw [List.lookup_cons, hne]
      exact lookup_of_mem hrest hmem

/-- What keeps the names makes a set of a set. -/
theorem names_filterMap_sublist {β : Type} {f : String × α → Option (String × β)}
    (hf : ∀ entry other, f entry = some other → other.1 = entry.1) :
    ∀ entries : List (String × α),
      ((entries.filterMap f).map Prod.fst).Sublist (entries.map Prod.fst)
  | [] => .slnil
  | entry :: entries => by
    have ih := names_filterMap_sublist hf entries
    rcases h : f entry with _ | other
    · rw [List.filterMap_cons_none h, List.map_cons]
      exact ih.cons _
    · rw [List.filterMap_cons_some h, List.map_cons, List.map_cons, hf entry other h]
      exact ih.cons_cons _

theorem lookup_filter_ne {entries : List (String × α)} {first name : String} (h : name ≠ first) :
    (entries.filter fun other => other.1 ≠ first).lookup name = entries.lookup name := by
  induction entries with
  | nil => rfl
  | cons entry entries ih =>
    by_cases hfirst : entry.1 = first
    · have hname : (name == entry.1) = false := by
        rw [beq_eq_false_iff_ne, hfirst]
        exact h
      rw [List.filter_cons_of_neg (by simpa using hfirst), List.lookup_cons, hname, ih]
    · rw [List.filter_cons_of_pos (by simpa using hfirst), List.lookup_cons, List.lookup_cons, ih]

/-- The first value of a name is the one that is found. -/
theorem lookup_listToAttrs {name : String} : ∀ {entries : List (String × α)},
    (listToAttrs entries).lookup name = entries.lookup name
  | [] => rfl
  | entry :: entries => by
    rw [listToAttrs, List.lookup_cons, List.lookup_cons]
    rcases hname : name == entry.1
    · rw [lookup_filter_ne (beq_eq_false_iff_ne.1 hname), lookup_listToAttrs]
    · rfl

theorem lookup_map_eq_find? {β : Type} {f : β → String} {name : String} : ∀ {l : List β},
    (l.map fun b => (f b, b)).lookup name = l.find? fun b => f b == name
  | [] => rfl
  | b :: l => by
    rw [List.map_cons, List.lookup_cons, List.find?_cons, lookup_map_eq_find?, BEq.comm]

theorem lookup_force : ∀ {entries : List (String × Except ε α)} {forced : List (String × α)}
    {name : String} {value : Except ε α}, force entries = .ok forced →
    entries.lookup name = some value → ∃ a, value = .ok a ∧ forced.lookup name = some a
  | (first, thunk) :: entries, forced, name, value, hforce, hlookup => by
    simp only [force, bind_eq_ok, pure_eq_ok] at hforce
    obtain ⟨a, hthunk, rest, hrest, rfl⟩ := hforce
    rw [List.lookup_cons] at hlookup ⊢
    rcases hname : name == first
    · rw [hname] at hlookup
      exact lookup_force hrest hlookup
    · rw [hname] at hlookup
      obtain rfl := Option.some.inj hlookup
      exact ⟨a, hthunk, rfl⟩

end OnixCore.AttrSet
