import OnixCore.HxOil.Apply

/-!
# What a snapshot says about its directory

A snapshot lists each entry of the directory once, under its name and kind
(`mem_collectSnapshot`, `nodup_collectSnapshot`); a snapshot that matches another one lists the
same (`keys_of_match`).
-/

namespace OnixCore.HxOil

variable {β : Type}

theorem assignIds_keys (ids : List (Key × ℕ)) :
    ∀ (l : List SnapshotEntry) (next index : ℕ),
      (assignIds ids next index l).1.map (·.key) = l.map (·.key)
  | [], _, _ => rfl
  | e :: rest, next, index => by
    simp only [assignIds]
    split <;>
      · simp only [List.map_cons, assignIds_keys ids rest]
        rfl

theorem keys_collectSnapshotWithIds (d : Folder β) (previous : List SnapshotEntry) (nextId : ℕ) :
    ((collectSnapshotWithIds d previous nextId).1.map (·.key)).Perm
      (d.entries.map fun e => (e.1, kindOf e.2)) := by
  simp only [collectSnapshotWithIds, assignIds_keys]
  refine ((List.perm_insertionSort listOrder _).map _).trans ?_
  rw [List.map_map]
  exact List.Perm.refl _

variable {d : Folder β}

theorem mem_collectSnapshotWithIds {k : Key} {previous : List SnapshotEntry} {nextId : ℕ} :
    k ∈ (collectSnapshotWithIds d previous nextId).1.map (·.key)
      ↔ ∃ o, d.lookup k.1 = some o ∧ kindOf o = k.2 := by
  rw [(keys_collectSnapshotWithIds d previous nextId).mem_iff, List.mem_map]
  constructor
  · rintro ⟨⟨n, o⟩, h, rfl⟩
    exact ⟨o, AList.mem_lookup_iff.2 h, rfl⟩
  · rintro ⟨o, h, hk⟩
    exact ⟨⟨k.1, o⟩, AList.mem_lookup_iff.1 h, by simp [hk]⟩

theorem mem_collectSnapshot {k : Key} :
    k ∈ (collectSnapshot d).map (·.key) ↔ ∃ o, d.lookup k.1 = some o ∧ kindOf o = k.2 :=
  mem_collectSnapshotWithIds

theorem names_eq_keys (l : List SnapshotEntry) :
    l.map (·.relativePath) = (l.map (·.key)).map Prod.fst := by
  simp [SnapshotEntry.key]

/-- The names of a snapshot are the names in the directory. -/
theorem mem_names_collectSnapshot {n : String} :
    n ∈ (collectSnapshot d).map (·.relativePath) ↔ (d.lookup n).isSome := by
  rw [names_eq_keys, List.mem_map, Option.isSome_iff_exists]
  constructor
  · rintro ⟨k, hk, rfl⟩
    obtain ⟨o, ho, -⟩ := mem_collectSnapshot.1 hk
    exact ⟨o, ho⟩
  · rintro ⟨o, ho⟩
    exact ⟨(n, kindOf o), mem_collectSnapshot.2 ⟨o, ho, rfl⟩, rfl⟩

theorem nodup_collectSnapshotWithIds (d : Folder β) (previous : List SnapshotEntry) (nextId : ℕ) :
    ((collectSnapshotWithIds d previous nextId).1.map (·.relativePath)).Nodup := by
  rw [names_eq_keys, ((keys_collectSnapshotWithIds d previous nextId).map Prod.fst).nodup_iff,
    List.map_map]
  exact d.keys_nodup

theorem sameEntry_key {l r : SnapshotEntry} (h : sameEntry l r = true) : l.key = r.key := by
  simp only [sameEntry, decide_eq_true_eq] at h
  simp [SnapshotEntry.key, h.2.1, h.2.2.1]

theorem keys_of_zip : ∀ {l r : List SnapshotEntry}, l.length = r.length →
    (∀ p ∈ l.zip r, sameEntry p.1 p.2 = true) → l.map (·.key) = r.map (·.key)
  | [], [], _, _ => rfl
  | x :: l, y :: r, hlen, h => by
    have hxy := h (x, y) (by simp)
    have hlr := keys_of_zip (l := l) (r := r) (by simpa using hlen)
      (fun p hp => h p (by simp [hp]))
    rw [List.map_cons, List.map_cons, sameEntry_key hxy, hlr]

/-- Matching snapshots list the same names and kinds in the same order. -/
theorem keys_of_match {l r : List SnapshotEntry} (h : snapshotListsMatch l r = true) :
    l.map (·.key) = r.map (·.key) := by
  simp only [snapshotListsMatch, Bool.and_eq_true, decide_eq_true_eq, List.all_eq_true] at h
  exact keys_of_zip h.1 fun p hp => h.2 p hp

/-- The snapshot of a current directory lists its entries by name and kind. -/
theorem mem_of_current {original : List SnapshotEntry}
    (h : snapshotListsMatch (collectSnapshot d) original = true) {k : Key} :
    k ∈ original.map (·.key) ↔ ∃ o, d.lookup k.1 = some o ∧ kindOf o = k.2 := by
  rw [← keys_of_match h]
  exact mem_collectSnapshot

theorem nodup_of_current {original : List SnapshotEntry}
    (h : snapshotListsMatch (collectSnapshot d) original = true) :
    (original.map (·.relativePath)).Nodup := by
  rw [names_eq_keys, ← keys_of_match h, ← names_eq_keys]
  exact nodup_collectSnapshotWithIds d [] 1

end OnixCore.HxOil
