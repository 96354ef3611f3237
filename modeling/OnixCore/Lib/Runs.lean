import Mathlib.Tactic.Common

/-!
# Runs of a step relation

A run is a list of steps, each with its label and the state it leads to. `Run.invariant` carries
an invariant along it. Where a property can be lost, `Run.forall_iff` says when it is not: if each
step from a good state leads to a good state exactly when its guard holds, then all the states of a
run are good exactly when all its guards hold.
-/

namespace OnixCore

variable {σ ι : Type}

inductive Run (step : σ → ι → σ → Prop) : σ → List (ι × σ) → Prop
  | nil (s : σ) : Run step s []
  | cons {s t : σ} {i : ι} {rest : List (ι × σ)} (first : step s i t) (then_ : Run step t rest) :
      Run step s ((i, t) :: rest)

/-- The states a run goes through, the first one included. -/
def visited (s : σ) (steps : List (ι × σ)) : List σ := s :: steps.map Prod.snd

/-- The state a run leads to. -/
def finalState : σ → List (ι × σ) → σ
  | s, [] => s
  | _, (_, t) :: rest => finalState t rest

/-- The labels of a run, the latest first. -/
def history (steps : List (ι × σ)) : List ι := (steps.map Prod.fst).reverse

/-- The steps of a run, each with the state it was taken in, the latest first. -/
def trail : σ → List (ι × σ) → List (σ × ι)
  | _, [] => []
  | s, (i, t) :: rest => trail t rest ++ [(s, i)]

/-- Every step of the run meets the guard in the state it is taken in. -/
def Guarded (guard : σ → ι → Prop) : σ → List (ι × σ) → Prop
  | _, [] => True
  | s, (i, t) :: rest => guard s i ∧ Guarded guard t rest

/-- The states some run from an initial state goes through. -/
def Reachable (init : σ → Prop) (step : σ → ι → σ → Prop) (s : σ) : Prop :=
  ∃ s₀ steps, init s₀ ∧ Run step s₀ steps ∧ s ∈ visited s₀ steps

@[simp] theorem visited_nil (s : σ) : visited s ([] : List (ι × σ)) = [s] := rfl

@[simp] theorem visited_cons (s t : σ) (i : ι) (rest : List (ι × σ)) :
    visited s ((i, t) :: rest) = s :: visited t rest := rfl

theorem finalState_mem : ∀ (s : σ) (steps : List (ι × σ)), finalState s steps ∈ visited s steps
  | _, [] => List.mem_cons_self
  | _, (_, t) :: rest => List.mem_cons_of_mem _ (finalState_mem t rest)

variable {step : σ → ι → σ → Prop} {init : σ → Prop}

namespace Run

/-- What every step keeps holds in every state of a run. -/
theorem invariant {I : σ → Prop} (hstep : ∀ s i t, I s → step s i t → I t) {s : σ}
    {steps : List (ι × σ)} (hr : Run step s steps) (hs : I s) : ∀ t ∈ visited s steps, I t := by
  induction hr with
  | nil s => simpa using hs
  | cons first _ ih =>
    rw [visited_cons, List.forall_mem_cons]
    exact ⟨hs, ih (hstep _ _ _ hs first)⟩

/-- A relation between a state and what led to it, when every step keeps it. -/
theorem history_invariant {I : List ι → σ → Prop}
    (hstep : ∀ past s i t, I past s → step s i t → I (i :: past) t) {s : σ} {past : List ι}
    {steps : List (ι × σ)} (hr : Run step s steps) (hs : I past s) :
    I (history steps ++ past) (finalState s steps) := by
  induction hr generalizing past with
  | nil s => exact hs
  | cons first _ ih =>
    rw [history, List.map_cons, List.reverse_cons, List.append_assoc]
    exact ih (hstep _ _ _ _ hs first)

/-- The same with the states that the steps were taken in. -/
theorem trail_invariant {I : List (σ × ι) → σ → Prop}
    (hstep : ∀ past s i t, I past s → step s i t → I ((s, i) :: past) t) {s : σ}
    {past : List (σ × ι)} {steps : List (ι × σ)} (hr : Run step s steps) (hs : I past s) :
    I (trail s steps ++ past) (finalState s steps) := by
  induction hr generalizing past with
  | nil s => exact hs
  | cons first _ ih =>
    rw [trail, List.append_assoc]
    exact ih (hstep _ _ _ _ hs first)

/-- A step of a run, and what led to it. -/
theorem split {s t : σ} {i : ι} {before after : List (ι × σ)}
    (hr : Run step s (before ++ (i, t) :: after)) :
    Run step s before ∧ step (finalState s before) i t := by
  induction before generalizing s with
  | nil =>
    cases hr with
    | cons first _ => exact ⟨.nil s, first⟩
  | cons _ before ih =>
    cases hr with
    | cons first rest => exact ⟨.cons first (ih rest).1, (ih rest).2⟩

/-- What every guarded step keeps holds in every state of a guarded run. -/
theorem guarded_invariant {I : σ → Prop} {guard : σ → ι → Prop}
    (hstep : ∀ s i t, I s → guard s i → step s i t → I t) {s : σ} {steps : List (ι × σ)}
    (hr : Run step s steps) (hg : Guarded guard s steps) (hs : I s) : ∀ t ∈ visited s steps, I t := by
  induction hr with
  | nil s => simpa using hs
  | cons first _ ih =>
    rw [visited_cons, List.forall_mem_cons]
    exact ⟨hs, ih hg.2 (hstep _ _ _ hs hg.1 first)⟩

/-- Guards that agree on the steps an invariant allows are met by the same runs. -/
theorem guarded_congr {I : σ → Prop} {guard guard' : σ → ι → Prop}
    (hstep : ∀ s i t, I s → step s i t → I t)
    (hguard : ∀ s i t, I s → step s i t → (guard s i ↔ guard' s i)) {s : σ}
    {steps : List (ι × σ)} (hr : Run step s steps) (hs : I s) :
    Guarded guard s steps ↔ Guarded guard' s steps := by
  induction hr with
  | nil s => exact Iff.rfl
  | cons first _ ih => exact and_congr (hguard _ _ _ hs first) (ih (hstep _ _ _ hs first))

/-- Where a step keeps `P` exactly when its guard holds, a run keeps it exactly when all its guards
hold. `Q` is what the good states have besides. -/
theorem forall_iff {P Q : σ → Prop} {guard : σ → ι → Prop}
    (hstep : ∀ s i t, P s → Q s → step s i t → (P t ↔ guard s i) ∧ (P t → Q t)) {s : σ}
    {steps : List (ι × σ)} (hr : Run step s steps) (hp : P s) (hq : Q s) :
    (∀ t ∈ visited s steps, P t) ↔ Guarded guard s steps := by
  induction hr with
  | nil s => simp [Guarded, hp]
  | @cons s t i rest first _ ih =>
    obtain ⟨hiff, hkeep⟩ := hstep s i t hp hq first
    rw [visited_cons, List.forall_mem_cons, Guarded, ← hiff]
    constructor
    · rintro ⟨-, hall⟩
      have ht : P t := hall t (by simp [visited])
      exact ⟨ht, (ih ht (hkeep ht)).1 hall⟩
    · rintro ⟨ht, hall⟩
      exact ⟨hp, (ih ht (hkeep ht)).2 hall⟩

end Run

namespace Reachable

theorem invariant {I : σ → Prop} (hinit : ∀ s, init s → I s)
    (hstep : ∀ s i t, I s → step s i t → I t) {s : σ} (h : Reachable init step s) : I s := by
  obtain ⟨s₀, steps, h₀, hr, hs⟩ := h
  exact hr.invariant hstep (hinit s₀ h₀) s hs

end Reachable

end OnixCore
