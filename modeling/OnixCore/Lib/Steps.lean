import Mathlib.Data.List.Forall2
import Mathlib.Tactic.Common

/-!
# Programs that stop at their first failing step

`runAll` runs a list of steps and stops at the first one that fails, in the state the steps
before it reached: what a failed program has already done stays done. `ensure` is a guard that
fails with a message.
-/

namespace OnixCore

variable {α β ε σ τ : Type}

/-- Fails with `e` unless `c` holds. -/
def ensure (c : Prop) [Decidable c] (e : ε) : Except ε Unit :=
  if c then .ok () else .error e

@[simp] theorem ensure_eq_ok {c : Prop} [Decidable c] {e : ε} {u : Unit} :
    ensure c e = .ok u ↔ c := by
  unfold ensure
  split_ifs with h <;> simp [h]

theorem bind_eq_ok {x : Except ε α} {f : α → Except ε β} {b : β} :
    x >>= f = .ok b ↔ ∃ a, x = .ok a ∧ f a = .ok b := by
  cases x <;> simp [bind, Except.bind]

@[simp] theorem pure_eq_ok {a b : α} : (pure a : Except ε α) = .ok b ↔ a = b := by
  simp [pure, Except.pure]

@[simp] theorem mapError_eq_ok {f : ε → σ} {x : Except ε α} {a : α} :
    x.mapError f = .ok a ↔ x = .ok a := by
  cases x <;> simp [Except.mapError]

theorem ok_of_isOk {x : Except ε Unit} (h : x.isOk = true) : x = .ok () := by
  rcases x with e | u
  · cases h
  · rfl

/-- An early failure: what follows it counts only where its condition does not hold. -/
theorem ite_throw_eq_ok {c : Prop} [Decidable c] {e : ε} {k : α → Except ε β} {x : Except ε β}
    {b : β} : (if c then throw e >>= k else x) = .ok b ↔ ¬ c ∧ x = .ok b := by
  split_ifs with h
  · simp [h, throw, throwThe, MonadExceptOf.throw, bind, Except.bind]
  · simp [h]

/-- A loop that only checks succeeds when every check does. -/
theorem forM_eq_ok {f : α → Except ε Unit} {u : Unit} :
    ∀ {l : List α}, l.forM f = .ok u ↔ ∀ a ∈ l, f a = .ok ()
  | [] => by simp [List.forM]
  | a :: l => by
    rw [List.forM, bind_eq_ok, List.forall_mem_cons]
    constructor
    · rintro ⟨v, ha, hl⟩
      exact ⟨ha, forM_eq_ok.1 hl⟩
    · rintro ⟨ha, hl⟩
      exact ⟨(), ha, forM_eq_ok.2 hl⟩

/-- A loop that collects results succeeds when each step does, in order. -/
theorem mapM_eq_ok {f : α → Except ε β} :
    ∀ {l : List α} {bs : List β}, l.mapM f = .ok bs ↔ List.Forall₂ (fun a b => f a = .ok b) l bs
  | [], bs => by rw [List.mapM_nil, pure_eq_ok, List.forall₂_nil_left_iff, eq_comm]
  | a :: l, bs => by
    rw [List.mapM_cons, bind_eq_ok]
    constructor
    · rintro ⟨b, hb, h⟩
      obtain ⟨more, hm, hp⟩ := bind_eq_ok.1 h
      rw [← pure_eq_ok.1 hp]
      exact .cons hb (mapM_eq_ok.1 hm)
    · rintro (_ | ⟨hb, hm⟩)
      exact ⟨_, hb, bind_eq_ok.2 ⟨_, mapM_eq_ok.2 hm, rfl⟩⟩

/-- The results are those of the elements. -/
theorem mem_of_mapM {f : α → Except ε β} {l : List α} {bs : List β} (h : l.mapM f = .ok bs)
    {b : β} : b ∈ bs ↔ ∃ a ∈ l, f a = .ok b := by
  have hforall := mapM_eq_ok.1 h
  clear h
  induction hforall with
  | nil => simp
  | cons hb _ ih => simp [ih, hb, eq_comm]

theorem mapM_ok_mem {f : α → Except ε β} {l : List α} {bs : List β} (h : l.mapM f = .ok bs) :
    ∀ a ∈ l, ∃ b, f a = .ok b := by
  have hforall := mapM_eq_ok.1 h
  clear h
  induction hforall with
  | nil => exact fun _ h => nomatch h
  | cons hb _ ih => exact List.forall_mem_cons.2 ⟨⟨_, hb⟩, ih⟩

theorem exists_mapM {f : α → Except ε β} : ∀ {l : List α}, (∀ a ∈ l, ∃ b, f a = .ok b) →
    ∃ bs, l.mapM f = .ok bs
  | [], _ => ⟨[], rfl⟩
  | a :: l, h => by
    obtain ⟨b, hb⟩ := h a List.mem_cons_self
    obtain ⟨bs, hbs⟩ := exists_mapM fun a ha => h a (List.mem_cons_of_mem _ ha)
    refine ⟨b :: bs, ?_⟩
    rw [List.mapM_cons, hb, hbs]
    rfl

/-- Runs `f` along the list until a step fails, and keeps the state it stopped in. -/
def runAll (f : α → σ → Except ε σ) : List α → σ → σ × Except ε Unit
  | [], s => (s, .ok ())
  | a :: as, s =>
    match f a s with
    | .error e => (s, .error e)
    | .ok s' => runAll f as s'

@[simp] theorem runAll_nil (f : α → σ → Except ε σ) (s : σ) : runAll f [] s = (s, .ok ()) := rfl

theorem runAll_cons_ok {f : α → σ → Except ε σ} {a : α} {as : List α} {s s' : σ}
    (h : f a s = .ok s') : runAll f (a :: as) s = runAll f as s' := by
  simp only [runAll, h]

theorem runAll_cons_error {f : α → σ → Except ε σ} {a : α} {as : List α} {s : σ} {e : ε}
    (h : f a s = .error e) : runAll f (a :: as) s = (s, .error e) := by
  simp only [runAll, h]

theorem runAll_append (f : α → σ → Except ε σ) :
    ∀ (as bs : List α) (s : σ), runAll f (as ++ bs) s =
      match runAll f as s with
      | (s', .ok ()) => runAll f bs s'
      | (s', .error e) => (s', .error e)
  | [], bs, s => rfl
  | a :: as, bs, s => by
    rcases h : f a s with e | s'
    · simp [runAll, h]
    · simp only [List.cons_append, runAll, h]
      exact runAll_append f as bs s'

theorem runAll_append_ok {f : α → σ → Except ε σ} {as : List α} {s s' : σ}
    (h : runAll f as s = (s', .ok ())) (bs : List α) :
    runAll f (as ++ bs) s = runAll f bs s' := by
  rw [runAll_append, h]

theorem runAll_cons_inv {f : α → σ → Except ε σ} {a : α} {as : List α} {s t : σ}
    (h : runAll f (a :: as) s = (t, .ok ())) :
    ∃ s', f a s = .ok s' ∧ runAll f as s' = (t, .ok ()) := by
  rcases hf : f a s with e | s'
  · rw [runAll_cons_error hf] at h; simp at h
  · rw [runAll_cons_ok hf] at h; exact ⟨s', rfl, h⟩

/-- What every step keeps, a run keeps, also a run that fails. -/
theorem runAll_invariant {f : α → σ → Except ε σ} {I : σ → Prop} :
    ∀ (as : List α) {s : σ}, (∀ a ∈ as, ∀ s s', I s → f a s = .ok s' → I s') → I s →
      I (runAll f as s).1
  | [], _, _, h => h
  | a :: as, s, hstep, h => by
    rcases hf : f a s with e | s'
    · rw [runAll_cons_error hf]; exact h
    · rw [runAll_cons_ok hf]
      exact runAll_invariant as (fun b hb => hstep b (List.mem_cons_of_mem _ hb))
        (hstep a List.mem_cons_self s s' h hf)

/-- Two runs side by side: where related states take each step to related states, the runs end
alike. -/
theorem runAll_simulation {f : α → σ → Except ε σ} {g : α → τ → Except ε τ} {R : σ → τ → Prop} :
    ∀ (as : List α) {s : σ} {t : τ},
      (∀ a ∈ as, ∀ s t, R s t → match f a s, g a t with
        | .ok s', .ok t' => R s' t'
        | .error e, .error e' => e = e'
        | _, _ => False) →
      R s t → R (runAll f as s).1 (runAll g as t).1 ∧ (runAll f as s).2 = (runAll g as t).2
  | [], _, _, _, h => ⟨h, rfl⟩
  | a :: as, s, t, hstep, h => by
    have ha := hstep a List.mem_cons_self s t h
    rcases hf : f a s with e | s' <;> rcases hg : g a t with e' | t' <;>
      rw [hf, hg] at ha <;> simp only [] at ha
    · subst ha
      rw [runAll_cons_error hf, runAll_cons_error hg]
      exact ⟨h, rfl⟩
    · rw [runAll_cons_ok hf, runAll_cons_ok hg]
      exact runAll_simulation as (fun b hb => hstep b (List.mem_cons_of_mem _ hb)) ha

/-- Runs `f` along the list until a step fails; a step that fails may have changed the state. -/
def runEach (f : α → σ → σ × Except ε Unit) : List α → σ → σ × Except ε Unit
  | [], s => (s, .ok ())
  | a :: as, s =>
    match f a s with
    | (s', .ok ()) => runEach f as s'
    | (s', .error e) => (s', .error e)

theorem runEach_map {f : β → σ → σ × Except ε Unit} {g : α → β} : ∀ (as : List α) (s : σ),
    runEach f (as.map g) s = runEach (fun a => f (g a)) as s
  | [], _ => rfl
  | a :: as, s => by
    rcases h : f (g a) s with ⟨s', e | ⟨⟩⟩
    · simp only [List.map_cons, runEach, h]
    · simp only [List.map_cons, runEach, h]
      exact runEach_map as s'

section RunEach

variable {f : α → σ → σ × Except ε Unit} {as : List α} {s s' : σ}

theorem runEach_cons_ok {a : α} (h : f a s = (s', .ok ())) :
    runEach f (a :: as) s = runEach f as s' := by
  simp only [runEach, h]

theorem runEach_cons_error {a : α} {e : ε} (h : f a s = (s', .error e)) :
    runEach f (a :: as) s = (s', .error e) := by
  simp only [runEach, h]

theorem runEach_cons_inv {a : α} (h : runEach f (a :: as) s = (s', .ok ())) :
    ∃ mid, f a s = (mid, .ok ()) ∧ runEach f as mid = (s', .ok ()) := by
  rcases ha : f a s with ⟨mid, e | ⟨⟩⟩
  · rw [runEach_cons_error ha] at h
    simp at h
  · rw [runEach_cons_ok ha] at h
    exact ⟨mid, rfl, h⟩

theorem runEach_append_ok {bs : List α} (h : runEach f as s = (s', .ok ())) :
    runEach f (as ++ bs) s = runEach f bs s' := by
  induction as generalizing s with
  | nil =>
    cases h
    rfl
  | cons a as ih =>
    obtain ⟨mid, ha, hrest⟩ := runEach_cons_inv h
    rw [List.cons_append, runEach_cons_ok ha]
    exact ih hrest

/-- A run that ends well does so with any steps that do the same. -/
theorem runEach_congr_ok {g : α → σ → σ × Except ε Unit}
    (hstep : ∀ a ∈ as, ∀ s s', f a s = (s', .ok ()) → g a s = (s', .ok ()))
    (h : runEach f as s = (s', .ok ())) : runEach g as s = (s', .ok ()) := by
  induction as generalizing s with
  | nil => exact h
  | cons a as ih =>
    obtain ⟨mid, ha, hrest⟩ := runEach_cons_inv h
    rw [runEach_cons_ok (hstep a List.mem_cons_self s mid ha)]
    exact ih (fun b hb => hstep b (List.mem_cons_of_mem _ hb)) hrest

/-- However a run ends, what its steps say of what they have done holds of some first part. -/
theorem runEach_upto {I : List α → σ → Prop}
    (hstep : ∀ before a after now, as = before ++ a :: after → runEach f before s = (now, .ok ()) →
      I before now → I (before ++ [a]) (f a now).1) (h : I [] s) :
    ∃ before, before <+: as ∧ I before (runEach f as s).1 := by
  have hrun : ∀ rest before now, as = before ++ rest → runEach f before s = (now, .ok ()) →
      I before now → ∃ done, done <+: as ∧ I done (runEach f rest now).1 := by
    intro rest
    induction rest with
    | nil =>
      intro before now heq hbefore hI
      exact ⟨before, heq ▸ List.prefix_append _ _, hI⟩
    | cons a rest ih =>
      intro before now heq hbefore hI
      have hnext : as = (before ++ [a]) ++ rest := by rw [heq, List.append_assoc]; rfl
      have hI' := hstep before a rest now heq hbefore hI
      rcases ha : f a now with ⟨s', e | ⟨⟩⟩
      · rw [runEach_cons_error ha]
        rw [ha] at hI'
        exact ⟨before ++ [a], hnext ▸ List.prefix_append _ _, hI'⟩
      · rw [runEach_cons_ok ha]
        rw [ha] at hI'
        refine ih (before ++ [a]) s' hnext ?_ hI'
        rw [runEach_append_ok hbefore, runEach_cons_ok ha]
        rfl
  exact hrun as [] s rfl rfl h

end RunEach

section Fuel

variable {f : ℕ → α → σ → σ × Except ε Unit} {as : List α} {s s' : σ}

/-- More fuel does not change a step that ends well. -/
theorem ok_of_le (hsucc : ∀ n a s s', f n a s = (s', .ok ()) → f (n + 1) a s = (s', .ok ()))
    {m n : ℕ} (hle : m ≤ n) {a : α} (h : f m a s = (s', .ok ())) : f n a s = (s', .ok ()) := by
  induction hle with
  | refl => exact h
  | step _ ih => exact hsucc _ _ _ _ ih

theorem runEach_of_le (hsucc : ∀ n a s s', f n a s = (s', .ok ()) → f (n + 1) a s = (s', .ok ()))
    {m n : ℕ} (hle : m ≤ n) (h : runEach (f m) as s = (s', .ok ())) :
    runEach (f n) as s = (s', .ok ()) :=
  runEach_congr_ok (fun _ _ _ _ hstep => ok_of_le hsucc hle hstep) h

/-- Where each step a run comes to ends well with enough fuel, so does the run. -/
theorem exists_runEach (hsucc : ∀ n a s s', f n a s = (s', .ok ()) → f (n + 1) a s = (s', .ok ()))
    (hstep : ∀ before a after n now, as = before ++ a :: after →
      runEach (f n) before s = (now, .ok ()) → ∃ m next, f m a now = (next, .ok ())) :
    ∃ n s', runEach (f n) as s = (s', .ok ()) := by
  have hrun : ∀ rest before n now, as = before ++ rest → runEach (f n) before s = (now, .ok ()) →
      ∃ n s', runEach (f n) as s = (s', .ok ()) := by
    intro rest
    induction rest with
    | nil =>
      intro before n now heq hbefore
      rw [List.append_nil] at heq
      exact ⟨n, now, heq ▸ hbefore⟩
    | cons a rest ih =>
      intro before n now heq hbefore
      obtain ⟨m, next, hnext⟩ := hstep before a rest n now heq hbefore
      refine ih (before ++ [a]) (max n m) next (by rw [heq, List.append_assoc]; rfl) ?_
      rw [runEach_append_ok (runEach_of_le hsucc (Nat.le_max_left n m) hbefore),
        runEach_cons_ok (ok_of_le hsucc (Nat.le_max_right n m) hnext)]
      rfl
  exact hrun as [] 0 s rfl rfl

end Fuel

end OnixCore
