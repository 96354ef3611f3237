import Mathlib.Data.List.Nodup
import Mathlib.Data.Set.Basic

/-!
# Numbering with reuse

A list of keys is numbered: a key that is known keeps its number, a new one takes the next free
one. `Draws old next last ids` is what such a list of numbers says to everything else: they are
distinct, each is an old one or was free before, and from `last` on all are free. Two lists drawn
one after the other are one list, where the numbers they reuse are apart (`Draws.append`).
-/

namespace OnixCore

variable {κ : Type}

/-- Numbers the keys, and returns the next free number. -/
def number (known : κ → Option ℕ) (next : ℕ) : List κ → List ℕ × ℕ
  | [] => ([], next)
  | k :: ks =>
    match known k with
    | some i => (i :: (number known next ks).1, (number known next ks).2)
    | none => (next :: (number known (next + 1) ks).1, (number known (next + 1) ks).2)

structure Draws (old : Set ℕ) (next last : ℕ) (ids : List ℕ) : Prop where
  le : next ≤ last
  nodup : ids.Nodup
  source : ∀ i ∈ ids, i ∈ old ∨ next ≤ i ∧ i < last

namespace Draws

variable {old old₁ old₂ : Set ℕ} {next mid last : ℕ} {ids ids₁ ids₂ : List ℕ}

theorem nil (old : Set ℕ) (next : ℕ) : Draws old next next [] :=
  ⟨le_rfl, List.nodup_nil, by simp⟩

theorem mono (h : Draws old₁ next last ids) (hold : old₁ ⊆ old₂) : Draws old₂ next last ids :=
  ⟨h.le, h.nodup, fun i hi => (h.source i hi).imp_left fun ho => hold ho⟩

theorem below (h : Draws old next last ids) (hold : ∀ i ∈ old, i < next) : ∀ i ∈ ids, i < last := by
  intro i hi
  rcases h.source i hi with ho | ho
  · exact (hold i ho).trans_le h.le
  · exact ho.2

theorem append (h₁ : Draws old₁ next mid ids₁) (h₂ : Draws old₂ mid last ids₂)
    (hdisj : ∀ i ∈ old₁, i ∉ old₂) (hold₁ : ∀ i ∈ old₁, i < next) (hold₂ : ∀ i ∈ old₂, i < next) :
    Draws (old₁ ∪ old₂) next last (ids₁ ++ ids₂) := by
  refine ⟨h₁.le.trans h₂.le, ?_, ?_⟩
  · rw [List.nodup_append]
    refine ⟨h₁.nodup, h₂.nodup, ?_⟩
    rintro i hi₁ _ hi₂ rfl
    have hlt := h₁.below hold₁ i hi₁
    rcases h₂.source i hi₂ with ho₂ | ⟨hle, -⟩
    · rcases h₁.source i hi₁ with ho₁ | ⟨hle, -⟩
      · exact hdisj i ho₁ ho₂
      · exact absurd (hold₂ i ho₂) (by omega)
    · omega
  · intro i hi
    rcases List.mem_append.1 hi with hi | hi
    · rcases h₁.source i hi with ho | ho
      · exact .inl (.inl ho)
      · exact .inr ⟨ho.1, ho.2.trans_le h₂.le⟩
    · rcases h₂.source i hi with ho | ho
      · exact .inl (.inr ho)
      · exact .inr ⟨h₁.le.trans ho.1, ho.2⟩

/-- A stretch of distinct numbers may be drawn anew in its place. -/
theorem replace {xs stretch ys : List ℕ} (h : Draws {i | i ∈ stretch} next last ids)
    (hnd : (xs ++ (stretch ++ ys)).Nodup) (hlt : ∀ i ∈ xs ++ (stretch ++ ys), i < next) :
    (xs ++ (ids ++ ys)).Nodup := by
  simp only [List.nodup_append, List.mem_append] at hnd hlt ⊢
  obtain ⟨hxs, ⟨-, hys, hsy⟩, hxsy⟩ := hnd
  refine ⟨hxs, ⟨h.nodup, hys, ?_⟩, ?_⟩
  · rintro i hi _ hy rfl
    rcases h.source i hi with ho | ⟨hle, -⟩
    · exact hsy i ho i hy rfl
    · exact absurd (hlt i (.inr (.inr hy))) (by omega)
  · rintro i hx _ (hi | hy) rfl
    · rcases h.source i hi with ho | ⟨hle, -⟩
      · exact hxsy i hx i (.inl ho) rfl
      · exact absurd (hlt i (.inl hx)) (by omega)
    · exact hxsy i hx i (.inr hy) rfl

end Draws

/-- Distinct keys get distinct numbers, where no two keys are known by one number. -/
theorem draws_number {known : κ → Option ℕ} {old : Set ℕ}
    (hinj : ∀ k k' i, known k = some i → known k' = some i → k = k')
    (hold : ∀ k i, known k = some i → i ∈ old) :
    ∀ {next : ℕ} {ks : List κ}, (∀ i ∈ old, i < next) → ks.Nodup →
      Draws old next (number known next ks).2 (number known next ks).1
        ∧ ∀ k i, known k = some i → i ∈ (number known next ks).1 → k ∈ ks
  | next, [], _, _ => ⟨.nil _ _, by simp [number]⟩
  | next, k :: ks, hlt, hnd => by
    obtain ⟨hk, hnd⟩ := List.nodup_cons.1 hnd
    rcases hi : known k with _ | i
    · simp only [number, hi]
      have hsucc : ∀ i ∈ old, i < next + 1 := fun i ho => (hlt i ho).trans (Nat.lt_succ_self next)
      obtain ⟨hrest, hkeys⟩ := draws_number hinj hold hsucc hnd
      refine ⟨⟨(Nat.le_succ next).trans hrest.le, List.nodup_cons.2 ⟨fun hm => ?_, hrest.nodup⟩,
        fun j hj => ?_⟩, fun k' j hknown hj => ?_⟩
      · rcases hrest.source next hm with ho | ⟨hle, -⟩
        · exact (hlt next ho).false
        · omega
      · rcases List.mem_cons.1 hj with rfl | hj
        · exact .inr ⟨le_rfl, hrest.le⟩
        · exact (hrest.source j hj).imp_right fun hf => ⟨by omega, hf.2⟩
      · rcases List.mem_cons.1 hj with rfl | hj
        · exact absurd (hlt j (hold k' j hknown)) (lt_irrefl j)
        · exact List.mem_cons_of_mem _ (hkeys k' j hknown hj)
    · simp only [number, hi]
      obtain ⟨hrest, hkeys⟩ := draws_number hinj hold hlt hnd
      refine ⟨⟨hrest.le, List.nodup_cons.2 ⟨fun hm => hk (hkeys k i hi hm), hrest.nodup⟩,
        fun j hj => ?_⟩, fun k' j hknown hj => ?_⟩
      · rcases List.mem_cons.1 hj with rfl | hj
        · exact .inl (hold k j hi)
        · exact hrest.source j hj
      · rcases List.mem_cons.1 hj with rfl | hj
        · rw [hinj k' k j hknown hi]
          exact List.mem_cons_self
        · exact List.mem_cons_of_mem _ (hkeys k' j hknown hj)

end OnixCore
