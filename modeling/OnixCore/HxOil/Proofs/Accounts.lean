import Mathlib.Data.List.Perm.Basic
import OnixCore.HxOil.Plan

/-!
# What a plan accounts for

A plan splits both lists it was built from: every snapshot entry is kept, deleted or renamed
once, and every edited line is kept, a rename's new name or created, once (`Accounts`). What is
renamed to or created is never an entry the snapshot already has under that name and kind, since
such a line is an exact match (`buildPlan_accounts`).
-/

namespace OnixCore.HxOil

def createdKeys (ops : List Operation) : List Key :=
  ops.filterMap fun
    | .create path kind => some (path, kind)
    | _ => none

def deletedKeys (ops : List Operation) : List Key :=
  ops.filterMap fun
    | .delete path kind => some (path, kind)
    | _ => none

def renamedFrom (ops : List Operation) : List Key :=
  ops.filterMap fun
    | .rename source _ kind => some (source, kind)
    | _ => none

def renamedTo (ops : List Operation) : List Key :=
  ops.filterMap fun
    | .rename _ target kind => some (target, kind)
    | _ => none

section Keys

variable (xs ys : List Operation)

@[simp] theorem createdKeys_append : createdKeys (xs ++ ys) = createdKeys xs ++ createdKeys ys :=
  List.filterMap_append

@[simp] theorem deletedKeys_append : deletedKeys (xs ++ ys) = deletedKeys xs ++ deletedKeys ys :=
  List.filterMap_append

@[simp] theorem renamedFrom_append : renamedFrom (xs ++ ys) = renamedFrom xs ++ renamedFrom ys :=
  List.filterMap_append

@[simp] theorem renamedTo_append : renamedTo (xs ++ ys) = renamedTo xs ++ renamedTo ys :=
  List.filterMap_append

variable {xs} {k : Key}

theorem mem_createdKeys : k ∈ createdKeys xs ↔ .create k.1 k.2 ∈ xs := by
  simp only [createdKeys, List.mem_filterMap]
  constructor
  · rintro ⟨op, hop, h⟩
    cases op <;> simp at h
    subst h
    exact hop
  · exact fun h => ⟨_, h, rfl⟩

theorem mem_deletedKeys : k ∈ deletedKeys xs ↔ .delete k.1 k.2 ∈ xs := by
  simp only [deletedKeys, List.mem_filterMap]
  constructor
  · rintro ⟨op, hop, h⟩
    cases op <;> simp at h
    subst h
    exact hop
  · exact fun h => ⟨_, h, rfl⟩

theorem mem_renamedFrom : k ∈ renamedFrom xs ↔ ∃ target, .rename k.1 target k.2 ∈ xs := by
  simp only [renamedFrom, List.mem_filterMap]
  constructor
  · rintro ⟨op, hop, h⟩
    cases op <;> simp at h
    subst h
    exact ⟨_, hop⟩
  · exact fun ⟨t, h⟩ => ⟨_, h, rfl⟩

theorem mem_renamedTo : k ∈ renamedTo xs ↔ ∃ source, .rename source k.1 k.2 ∈ xs := by
  simp only [renamedTo, List.mem_filterMap]
  constructor
  · rintro ⟨op, hop, h⟩
    cases op <;> simp at h
    subst h
    exact ⟨_, hop⟩
  · exact fun ⟨t, h⟩ => ⟨_, h, rfl⟩

/-- An operation is one of the three kinds, so without any of them there is none. -/
theorem eq_nil_of_keys (hc : createdKeys xs = []) (hd : deletedKeys xs = [])
    (hr : renamedFrom xs = []) : xs = [] := by
  rcases xs with _ | ⟨op, xs⟩
  · rfl
  · cases op
    · simp [createdKeys] at hc
    · simp [renamedFrom] at hr
    · simp [deletedKeys] at hd

end Keys

/-- The operations account for both lists, where `kept` are the entries in both. -/
structure Accounts (o e : List Key) (ops : List Operation) (kept : List Key) : Prop where
  original : o.Perm (kept ++ (deletedKeys ops ++ renamedFrom ops))
  edited : e.Perm (kept ++ (renamedTo ops ++ createdKeys ops))

theorem Accounts.append {o o' e e' kept kept' : List Key} {ops ops' : List Operation} {k : Key}
    (h : Accounts o e ops kept) (h' : Accounts o' e' ops' kept') :
    Accounts (o ++ k :: o') (e ++ k :: e') (ops ++ ops') (kept ++ k :: kept') := by
  constructor
  · refine List.perm_iff_count.2 fun a => ?_
    have h1 := h.original.count_eq a
    have h2 := h'.original.count_eq a
    simp only [List.count_append, List.count_cons, deletedKeys_append, renamedFrom_append]
      at h1 h2 ⊢
    omega
  · refine List.perm_iff_count.2 fun a => ?_
    have h1 := h.edited.count_eq a
    have h2 := h'.edited.count_eq a
    simp only [List.count_append, List.count_cons, createdKeys_append, renamedTo_append]
      at h1 h2 ⊢
    omega

theorem planHunk_accounts {o : List SnapshotEntry} {e : List ManifestEntry}
    {ops : List Operation} (h : planHunk o e = .ok ops) :
    Accounts (o.map (·.key)) (e.map (·.key)) ops [] := by
  unfold planHunk at h
  split at h
  · simp only [pure_eq_ok] at h
    subst h
    exact ⟨List.Perm.refl _, List.Perm.refl _⟩
  · simp only [pure_eq_ok] at h
    subst h
    constructor <;>
      simp [createdKeys, deletedKeys, renamedFrom, renamedTo, List.filterMap_map,
        ManifestEntry.key]
  · simp only [pure_eq_ok] at h
    subst h
    constructor <;>
      simp [createdKeys, deletedKeys, renamedFrom, renamedTo, List.filterMap_map,
        SnapshotEntry.key]
  · rename_i s m
    simp only [bind_eq_ok, ensure_eq_ok, pure_eq_ok] at h
    obtain ⟨-, hk, rfl⟩ := h
    constructor <;>
      simp [createdKeys, deletedKeys, renamedFrom, renamedTo, SnapshotEntry.key,
        ManifestEntry.key, hk]
  · simp at h

section Positions

variable {original : List SnapshotEntry} {k : Key}

theorem mem_exactPositions {i : ℕ} :
    (k, i) ∈ exactPositions original ↔ ∃ s, original[i]? = some s ∧ s.key = k := by
  simp only [exactPositions, List.mem_reverse, List.mem_map, Prod.mk.injEq, Prod.exists]
  constructor
  · rintro ⟨s, j, hs, rfl, rfl⟩
    exact ⟨s, List.mem_zipIdx_iff_getElem?.1 hs, rfl⟩
  · rintro ⟨s, hs, rfl⟩
    exact ⟨s, i, List.mem_zipIdx_iff_getElem?.2 hs, rfl, rfl⟩

theorem lookup_exactPositions_some {i : ℕ} (h : (exactPositions original).lookup k = some i) :
    ∃ s, original[i]? = some s ∧ s.key = k := by
  obtain ⟨l₁, l₂, hl, -⟩ := List.lookup_eq_some_iff.1 h
  exact mem_exactPositions.1 (by rw [hl]; simp)

theorem lookup_exactPositions_none (h : (exactPositions original).lookup k = none) :
    k ∉ original.map (·.key) := by
  intro hk
  obtain ⟨s, hs, rfl⟩ := List.mem_map.1 hk
  obtain ⟨i, hi⟩ := List.getElem?_of_mem hs
  have hne := List.lookup_eq_none_iff.1 h (s.key, i) (mem_exactPositions.2 ⟨s, hi, rfl⟩)
  simp at hne

end Positions

section Slice

variable {α : Type} {l : List α} {i j : ℕ}

theorem slice_length (l : List α) (i : ℕ) : slice l i l.length = l.drop i := by
  simp [slice]

theorem slice_of_length_le (h : l.length ≤ j) : slice l i j = l.drop i := by
  simp [slice, List.take_of_length_le h]

/-- A list from `i` on is its slice up to `j`, the entry at `j` and what follows. -/
theorem drop_eq_slice_append {a : α} (hij : i ≤ j) (ha : l[j]? = some a) :
    l.drop i = slice l i j ++ a :: l.drop (j + 1) := by
  obtain ⟨hj, rfl⟩ := List.getElem?_eq_some_iff.1 ha
  have h1 : l = l.take j ++ l[j] :: l.drop (j + 1) := by
    rw [List.getElem_cons_drop, List.take_append_drop]
  conv_lhs => rw [h1]
  rw [List.drop_append_of_le_length (by simp; omega)]
  rfl

theorem slice_succ {a : α} (hij : i ≤ j) (ha : l[j]? = some a) :
    slice l i (j + 1) = slice l i j ++ [a] := by
  unfold slice
  have hj : j < l.length := (List.getElem?_eq_some_iff.1 ha).1
  rw [List.take_add_one, ha, List.drop_append_of_le_length (by simp; omega)]
  rfl

end Slice

variable {original : List SnapshotEntry} {edited : List ManifestEntry}

/-- From a hunk that starts at `os` and `es` on, with the lines from `es` to `j` unmatched: the
induction follows the lines still to be matched. -/
theorem planHunks_accounts : ∀ (rest : List ManifestEntry) (j es os : ℕ) {last : Option ℕ}
    {ms : List (ℕ × ℕ)} {ops : List Operation}, edited.drop j = rest → es ≤ j →
    (∀ e ∈ slice edited es j, e.key ∉ original.map (·.key)) → os ≤ original.length →
    (∀ i, (∀ previous ∈ last, previous < i) → os ≤ i) →
    exactMatches (exactPositions original) last j rest = .ok ms →
    planHunks original edited os es (ms ++ [(original.length, edited.length)]) = .ok ops →
    ∃ kept, Accounts ((original.drop os).map (·.key)) ((edited.drop es).map (·.key)) ops kept
      ∧ ∀ k ∈ renamedTo ops ++ createdKeys ops, k ∉ original.map (·.key)
  | [], j, es, os, last, ms, ops, hr, hes, hnew, hos, hlast, hm, hp => by
    simp only [exactMatches, pure_eq_ok] at hm
    subst hm
    simp only [List.nil_append, planHunks, bind_eq_ok, pure_eq_ok] at hp
    obtain ⟨ops, hh, -, rfl, rfl⟩ := hp
    have hj : edited.length ≤ j := List.drop_eq_nil_iff.1 hr
    rw [slice_of_length_le hj] at hnew
    rw [slice_length, slice_length] at hh
    have hacc := planHunk_accounts hh
    rw [List.append_nil]
    refine ⟨[], hacc, fun k hk => ?_⟩
    have hke : k ∈ (edited.drop es).map (·.key) := hacc.edited.symm.subset (by simpa using hk)
    obtain ⟨e, he, rfl⟩ := List.mem_map.1 hke
    exact hnew e he
  | e :: rest, j, es, os, last, ms, ops, hr, hes, hnew, hos, hlast, hm, hp => by
    have hj : edited[j]? = some e := by
      rw [← List.head?_drop, hr, List.head?_cons]
    have hrest : edited.drop (j + 1) = rest := by
      rw [← List.tail_drop, hr, List.tail_cons]
    simp only [exactMatches] at hm
    rcases hl : (exactPositions original).lookup e.key with _ | oi
    · -- an unmatched line lengthens the hunk
      rw [hl] at hm
      refine planHunks_accounts rest (j + 1) es os hrest (by omega) ?_ hos hlast hm hp
      rw [slice_succ hes hj]
      intro x hx
      rcases List.mem_append.1 hx with hx | hx
      · exact hnew x hx
      · rw [List.mem_singleton.1 hx]
        exact lookup_exactPositions_none hl
    · -- an exact match closes the hunk
      rw [hl] at hm
      simp only [bind_eq_ok, ensure_eq_ok, pure_eq_ok] at hm
      obtain ⟨-, hinc, ms', hm', rfl⟩ := hm
      obtain ⟨s, hs, hkey⟩ := lookup_exactPositions_some hl
      have hoi : oi < original.length := (List.getElem?_eq_some_iff.1 hs).1
      have hjl : j < edited.length := (List.getElem?_eq_some_iff.1 hj).1
      have hle : os ≤ oi := hlast oi hinc
      simp only [List.cons_append, planHunks, hoi, hjl, ↓reduceIte, bind_eq_ok, pure_eq_ok] at hp
      obtain ⟨ops₁, hh, ops₂, hp', rfl⟩ := hp
      obtain ⟨kept, hacc, hfresh⟩ := planHunks_accounts rest (j + 1) (j + 1) (oi + 1)
        hrest le_rfl (by simp [slice]) (by omega) (fun i hi => hi oi rfl) hm' hp'
      have hacc₁ := planHunk_accounts hh
      refine ⟨[] ++ s.key :: kept, ?_, fun k hk => ?_⟩
      · rw [drop_eq_slice_append hle hs, drop_eq_slice_append hes hj, List.map_append,
          List.map_append, List.map_cons, List.map_cons, ← hkey]
        exact hacc₁.append hacc
      · simp only [renamedTo_append, createdKeys_append, List.mem_append] at hk
        rcases (show k ∈ renamedTo ops₁ ++ createdKeys ops₁ ∨ k ∈ renamedTo ops₂ ++ createdKeys ops₂
            by simp only [List.mem_append]; tauto) with hk | hk
        · have hke : k ∈ (slice edited es j).map (·.key) :=
            hacc₁.edited.symm.subset (by simpa using hk)
          obtain ⟨x, hx, rfl⟩ := List.mem_map.1 hke
          exact hnew x hx
        · exact hfresh k hk

/-- A plan accounts for the snapshot and the edited lines it was built from. -/
theorem buildPlan_accounts {root : String} {plan : Plan}
    (h : buildPlan root original edited = .ok plan) :
    ∃ kept, Accounts (original.map (·.key)) (edited.map (·.key)) plan.operations kept
      ∧ ∀ k ∈ renamedTo plan.operations ++ createdKeys plan.operations,
        k ∉ original.map (·.key) := by
  simp only [buildPlan, bind_eq_ok, pure_eq_ok] at h
  obtain ⟨ms, hm, ops, hp, rfl⟩ := h
  have h0 : ∀ e ∈ slice edited 0 0, e.key ∉ original.map (·.key) := by simp [slice]
  simpa using planHunks_accounts edited 0 0 0 rfl le_rfl h0 (Nat.zero_le _)
    (fun _ _ => Nat.zero_le _) hm hp

end OnixCore.HxOil
