import Mathlib.Order.Lattice

/-!
# Binary search

The search keeps a place at which the value is not after the one it looks for, and halves the number
of places that are left, without stopping early where it meets the value; only the last place is
compared for equality. In a sorted list it finds a value exactly when the list has it
(`binarySearch_isOk_iff`).
-/

namespace OnixCore

variable {α : Type} [LinearOrder α]

/-- The place the search ends at, with `size` places left from `base` on. -/
def searchFrom (l : List α) (key : α) (base size : ℕ) : ℕ :=
  if 1 < size then
    let half := size / 2
    if l[base + half]?.any (key < ·) then searchFrom l key base (size - half)
    else searchFrom l key (base + half) (size - half)
  else base
  termination_by size

/-- The place of the value, or the place where it could be put. -/
def binarySearch (l : List α) (key : α) : Except ℕ ℕ :=
  match l[searchFrom l key 0 l.length]? with
  | none => .error 0
  | some found =>
    if found = key then .ok (searchFrom l key 0 l.length)
    else if found < key then .error (searchFrom l key 0 l.length + 1)
    else .error (searchFrom l key 0 l.length)

/-- The value, if it is there, is not before the base, and is before the places that are left out. -/
structure Narrowed (l : List α) (key : α) (base size : ℕ) : Prop where
  pos : 0 < size
  bound : base + size ≤ l.length
  below : base = 0 ∨ ∃ x, l[base]? = some x ∧ x ≤ key
  above : ∀ j x, base + size ≤ j → l[j]? = some x → key < x

variable {l : List α} {key : α}

theorem pairwise_le_get {i j : ℕ} {x y : α} (h : l.Pairwise (· ≤ ·)) (hij : i ≤ j)
    (hx : l[i]? = some x) (hy : l[j]? = some y) : x ≤ y := by
  obtain ⟨hi, rfl⟩ := List.getElem?_eq_some_iff.1 hx
  obtain ⟨hj, rfl⟩ := List.getElem?_eq_some_iff.1 hy
  rcases Nat.lt_or_eq_of_le hij with hlt | rfl
  · exact List.pairwise_iff_getElem.1 h i j hi hj hlt
  · exact le_rfl

theorem narrowed_searchFrom (h : l.Pairwise (· ≤ ·)) {base size : ℕ}
    (hn : Narrowed l key base size) : Narrowed l key (searchFrom l key base size) 1 := by
  fun_induction searchFrom l key base size with
  | case1 base size hsize half hafter ih =>
    obtain ⟨x, hx, hlt⟩ := (Option.any_eq_true _ _).1 hafter
    have hlt : key < x := by simpa using hlt
    refine ih ⟨by omega, by have := hn.bound; omega, hn.below, fun j y hj hy => ?_⟩
    exact hlt.trans_le (pairwise_le_get h (by omega) hx hy)
  | case2 base size hsize half hafter ih =>
    have hbound := hn.bound
    refine ih ⟨by omega, by omega, .inr ?_, fun j y hj hy => hn.above j y (by omega) hy⟩
    have hx : l[base + half]? = some l[base + half] := List.getElem?_eq_getElem (by omega)
    refine ⟨_, hx, not_lt.1 fun hlt => hafter ?_⟩
    rw [hx]
    simpa using hlt
  | case3 base size hsize =>
    have hpos := hn.pos
    obtain rfl : size = 1 := by omega
    exact hn

/-- In a sorted list the search finds a value exactly when the list has it. -/
theorem binarySearch_isOk_iff (h : l.Pairwise (· ≤ ·)) :
    (∃ i, binarySearch l key = .ok i) ↔ key ∈ l := by
  constructor
  · rintro ⟨i, hi⟩
    unfold binarySearch at hi
    split at hi
    · cases hi
    next found hfound =>
      split_ifs at hi with heq
      exact heq ▸ List.mem_of_getElem? hfound
  · intro hmem
    obtain ⟨j, hj⟩ := List.mem_iff_getElem?.1 hmem
    obtain ⟨hlt, -⟩ := List.getElem?_eq_some_iff.1 hj
    have hstart : Narrowed l key 0 l.length :=
      ⟨by omega, by omega, .inl rfl, fun k x hk hx => by
        rw [List.getElem?_eq_none (by omega)] at hx
        cases hx⟩
    obtain ⟨-, hbound, hbelow, habove⟩ := narrowed_searchFrom h hstart
    have hfound : l[searchFrom l key 0 l.length]? = some key := by
      have hle : j ≤ searchFrom l key 0 l.length := by
        by_contra hgt
        exact absurd (habove j key (by omega) hj) (lt_irrefl _)
      rcases hbelow with hzero | ⟨x, hx, hxle⟩
      · rw [← show j = searchFrom l key 0 l.length by omega, hj]
      · rw [hx, le_antisymm hxle (pairwise_le_get h hle hj hx)]
    refine ⟨searchFrom l key 0 l.length, ?_⟩
    simp only [binarySearch, hfound, if_true]

end OnixCore
