import Mathlib.Data.List.Nodup
import Mathlib.Data.Set.Function
import OnixCore.Lib.Folder

/-!
# Renames that keep every entry

`Renamed d d'` says that `d'` is `d` under other names: what stood under a name stands under
exactly one name now, and nothing else does. A rename to a free name is such a change. One that
replaces an entry is not, whatever renames come after it, since the entries only get fewer.
-/

namespace OnixCore.Folder

variable {β : Type} {d d' d'' : Folder β} {n m : String} {o : Obj β}

def Renamed (d d' : Folder β) : Prop :=
  ∃ f : String → String, Set.InjOn f {n | n ∈ d}
    ∧ ∀ m o, d'.lookup m = some o ↔ ∃ n, d.lookup n = some o ∧ f n = m

theorem mem_of_lookup (h : d.lookup n = some o) : n ∈ d :=
  AList.lookup_isSome.1 (h ▸ rfl)

theorem lookup_of_mem (h : n ∈ d) : ∃ o, d.lookup n = some o :=
  Option.isSome_iff_exists.1 (AList.lookup_isSome.2 h)

@[refl] theorem Renamed.refl (d : Folder β) : Renamed d d :=
  ⟨id, Set.injOn_id _, fun m o => by simp⟩

theorem Renamed.mem (h : Renamed d d') : ∃ f : String → String, Set.InjOn f {n | n ∈ d}
    ∧ ∀ m, m ∈ d' ↔ ∃ n ∈ d, f n = m := by
  obtain ⟨f, hinj, hf⟩ := h
  refine ⟨f, hinj, fun m => ⟨fun hm => ?_, ?_⟩⟩
  · obtain ⟨o, ho⟩ := lookup_of_mem hm
    obtain ⟨n, hn, hfn⟩ := (hf m o).1 ho
    exact ⟨n, mem_of_lookup hn, hfn⟩
  · rintro ⟨n, hn, rfl⟩
    obtain ⟨o, ho⟩ := lookup_of_mem hn
    exact mem_of_lookup ((hf _ o).2 ⟨n, ho, rfl⟩)

theorem Renamed.trans (h : Renamed d d') (h' : Renamed d' d'') : Renamed d d'' := by
  obtain ⟨f, hinj, hf⟩ := h
  obtain ⟨g, hinj', hg⟩ := h'
  refine ⟨g ∘ f, hinj'.comp hinj fun n hn => ?_, fun m o => ?_⟩
  · obtain ⟨o, ho⟩ := lookup_of_mem hn
    exact mem_of_lookup ((hf _ o).2 ⟨n, ho, rfl⟩)
  · rw [hg]
    constructor
    · rintro ⟨k, hk, rfl⟩
      obtain ⟨n, hn, rfl⟩ := (hf _ _).1 hk
      exact ⟨n, hn, rfl⟩
    · rintro ⟨n, hn, rfl⟩
      exact ⟨f n, (hf _ _).2 ⟨n, hn, rfl⟩, rfl⟩

/-- The names are as many as before. -/
theorem Renamed.length_keys (h : Renamed d d') : d'.keys.length = d.keys.length := by
  obtain ⟨f, hinj, hf⟩ := h.mem
  have hperm : d'.keys.Perm (d.keys.map f) := by
    refine (List.perm_ext_iff_of_nodup d'.keys_nodup (d.keys_nodup.map_on fun a ha b hb => ?_)).2
      fun m => ?_
    · exact hinj (AList.mem_keys.2 ha) (AList.mem_keys.2 hb)
    · rw [List.mem_map]
      exact hf m
  rw [hperm.length_eq, List.length_map]

/-- What a name holds after an entry was moved from `n` to `m`. -/
theorem lookup_moved (k : String) : ((d.erase n).insert m o).lookup k
    = if k = m then some o else if k = n then none else d.lookup k := by
  rw [lookup_insert_eq, lookup_erase_eq]

theorem renamed_moved (hn : d.lookup n = some o) (hm : d.lookup m = none) :
    Renamed d ((d.erase n).insert m o) := by
  have hfree : ∀ k ∈ d, k ≠ m := by
    rintro k hk rfl
    exact AList.lookup_eq_none.1 hm hk
  refine ⟨fun k => if k = n then m else k, fun a ha b hb h => ?_, fun k p => ?_⟩
  · simp only at h
    split_ifs at h with h₁ h₂ h₂
    · rw [h₁, h₂]
    · exact absurd h.symm (hfree b hb)
    · exact absurd h (hfree a ha)
    · exact h
  · rw [lookup_moved]
    constructor
    · intro h
      split_ifs at h with h₁ h₂
      · exact ⟨n, hn.trans h, by simp [h₁]⟩
      · exact ⟨k, h, if_neg h₂⟩
    · rintro ⟨a, ha, hfa⟩
      simp only at hfa
      by_cases h₁ : a = n
      · subst h₁
        rw [if_pos rfl] at hfa
        rw [if_pos hfa.symm, ← hn, ha]
      · rw [if_neg h₁] at hfa
        subst hfa
        rw [if_neg (hfree a (mem_of_lookup ha)), if_neg h₁, ha]

theorem length_keys_moved (hn : n ∈ d) (hne : n ≠ m) :
    ((d.erase n).insert m o).keys.length + (if m ∈ d then 1 else 0) = d.keys.length := by
  have hpos : 0 < d.keys.length := List.length_pos_of_mem hn
  rw [AList.keys_insert, AList.keys_erase, List.length_cons]
  split_ifs with hm
  · have hm' : m ∈ d.keys.erase n := (List.mem_erase_of_ne hne.symm).2 hm
    rw [List.length_erase_of_mem hm', List.length_erase_of_mem hn]
    have := List.length_pos_of_mem hm'
    rw [List.length_erase_of_mem hn] at this
    omega
  · rw [List.erase_of_not_mem fun h => hm (List.mem_of_mem_erase h), List.length_erase_of_mem hn]
    omega

variable [Content β]

theorem rename_eq_ok (hne : n ≠ m) : rename n m d = .ok d' ↔ ∃ o, d.lookup n = some o
    ∧ legalComponent m = true ∧ (∀ t, d.lookup m = some t → replaces o t = .ok ())
    ∧ d' = (d.erase n).insert m o := by
  unfold rename
  rcases hn : d.lookup n with _ | o
  · simp
  · by_cases hl : legalComponent m = true
    · rcases hm : d.lookup m with _ | t
      · simp [hne, hl, eq_comm]
      · rcases hr : replaces o t with e | u <;> simp [hne, hl, hr, Except.map, eq_comm]
    · simp [hne, hl]

/-- A rename that succeeds keeps every entry exactly when the new name was free. -/
theorem rename_renamed_iff (hne : n ≠ m) (h : rename n m d = .ok d') :
    (d.lookup m = none → Renamed d d')
      ∧ d'.keys.length + (if m ∈ d then 1 else 0) = d.keys.length := by
  obtain ⟨o, hn, -, -, rfl⟩ := (rename_eq_ok hne).1 h
  exact ⟨renamed_moved hn, length_keys_moved (mem_of_lookup hn) hne⟩

end OnixCore.Folder
