import Mathlib.Logic.Function.Basic
import Mathlib.Logic.Relation
import OnixCore.Lib.Execution
import OnixCore.Lib.Runs

/-!
# Programs that run together

A pool is a world and the programs that run in it, at most one under each name. They take their
actions in any order, and each of them may be stopped at any point: `PoolStep`.

`Keeps` is what one program promises to the others. Whatever they do within `rely` between two of
its actions, each action keeps the invariant and is within `guar`. A program may have notes of its
own about how far it has come, which no action reads: they stand beside the world. Programs that
keep their promises keep the invariant together (`Pool.invariant`).
-/

namespace OnixCore

open Relation

variable {κ ι : Type} {ρ : ι → Type} {ε σ γ α β : Type}

structure Pool (κ ι : Type) (ρ : ι → Type) (ε σ : Type) where
  world : σ
  running : κ → Option (Prog ι ρ ε Unit)

inductive Move (κ : Type) where
  | start (k : κ)
  | act (k : κ)
  | stop (k : κ)

/-- A program starts where none is running under its name, takes its next action, or is gone: it
has ended, or was stopped where it is. -/
inductive PoolStep [DecidableEq κ] (effect : σ → (i : ι) → ρ i → σ → Prop)
    (starts : κ → Prog ι ρ ε Unit → Prop) :
    Pool κ ι ρ ε σ → Move κ → Pool κ ι ρ ε σ → Prop
  | start {s : Pool κ ι ρ ε σ} {k : κ} {p : Prog ι ρ ε Unit} (hidle : s.running k = none)
      (hp : starts k p) :
      PoolStep effect starts s (.start k) ⟨s.world, Function.update s.running k (some p)⟩
  | act {s : Pool κ ι ρ ε σ} {k : κ} {i : ι} {f : ρ i → Prog ι ρ ε Unit} {r : ρ i} {w : σ}
      (hrunning : s.running k = some (.call i f)) (heffect : effect s.world i r w) :
      PoolStep effect starts s (.act k) ⟨w, Function.update s.running k (some (f r))⟩
  | stop {s : Pool κ ι ρ ε σ} {k : κ} :
      PoolStep effect starts s (.stop k) ⟨s.world, Function.update s.running k none⟩

namespace Prog

variable (effect : σ → (i : ι) → ρ i → σ → Prop) (I : σ × γ → Prop)
  (rely guar : σ × γ → σ × γ → Prop)

/-- From `s` on, while the others do what `rely` allows, each action of the program keeps the
invariant within `guar`, and what it returns or fails with satisfies the postcondition. -/
def Keeps : Prog ι ρ ε α → σ × γ → (α → σ × γ → Prop) → (ε → σ × γ → Prop) → Prop
  | .done a, s, Q, _ => Q a s
  | .fail e, s, _, E => E e s
  | .call i k, s, Q, E => ∀ t, ReflTransGen rely s t → I t → ∀ r w, effect t.1 i r w →
      ∃ g, I (w, g) ∧ guar t (w, g) ∧ Keeps (k r) (w, g) Q E

variable {effect I rely guar}

theorem lasts {P : σ × γ → Prop} {s t : σ × γ} (hstable : ∀ s t, P s → rely s t → P t)
    (h : ReflTransGen rely s t) (hs : P s) : P t := by
  induction h with
  | refl => exact hs
  | tail _ hrely ih => exact hstable _ _ ih hrely

namespace Keeps

variable {p : Prog ι ρ ε α} {s t : σ × γ} {Q : α → σ × γ → Prop} {E : ε → σ × γ → Prop}

theorem conseq {Q' : α → σ × γ → Prop} {E' : ε → σ × γ → Prop} (hQ : ∀ a s, Q a s → Q' a s)
    (hE : ∀ e s, E e s → E' e s) : ∀ {p : Prog ι ρ ε α} {s : σ × γ},
      Keeps effect I rely guar p s Q E → Keeps effect I rely guar p s Q' E'
  | .done a, s, h => hQ a s h
  | .fail e, s, h => hE e s h
  | .call _ _, _, h => fun t ht hI r w heffect => by
    obtain ⟨g, hI, hguar, hrest⟩ := h t ht hI r w heffect
    exact ⟨g, hI, hguar, conseq hQ hE hrest⟩

theorem bind {f : α → Prog ι ρ ε β} {R : β → σ × γ → Prop} :
    ∀ {x : Prog ι ρ ε α} {s : σ × γ},
      Keeps effect I rely guar x s (fun a t => Keeps effect I rely guar (f a) t R E) E →
        Keeps effect I rely guar (x >>= f) s R E
  | .done _, _, h => h
  | .fail _, _, h => h
  | .call _ _, _, h => fun t ht hI r w heffect => by
    obtain ⟨g, hI, hguar, hrest⟩ := h t ht hI r w heffect
    exact ⟨g, hI, hguar, bind hrest⟩

theorem attempt {R : Except ε α → σ × γ → Prop} {E' : ε → σ × γ → Prop} :
    ∀ {x : Prog ι ρ ε α} {s : σ × γ},
      Keeps effect I rely guar x s (fun a => R (.ok a)) (fun e => R (.error e)) →
        Keeps effect I rely guar x.attempt s R E'
  | .done _, _, h => h
  | .fail _, _, h => h
  | .call _ _, _, h => fun t ht hI r w heffect => by
    obtain ⟨g, hI, hguar, hrest⟩ := h t ht hI r w heffect
    exact ⟨g, hI, hguar, attempt hrest⟩

/-- An action whose precondition the others leave alone. -/
theorem act {i : ι} {P : σ × γ → Prop} {R : ρ i → σ × γ → Prop}
    (hstable : ∀ s t, P s → rely s t → P t) (hs : P s)
    (h : ∀ t, P t → I t → ∀ r w, effect t.1 i r w → ∃ g, I (w, g) ∧ guar t (w, g) ∧ R r (w, g)) :
    Keeps effect I rely guar (Prog.act i : Prog ι ρ ε (ρ i)) s R E := by
  intro t ht hI r w heffect
  exact h t (lasts hstable ht hs) hI r w heffect

/-- What every action of the program keeps, the program keeps. -/
theorem of_uses {A : ι → Prop} {P : σ × γ → Prop} (hstable : ∀ s t, P s → rely s t → P t)
    (hkeep : ∀ t, P t → I t → ∀ i, A i → ∀ r w, effect t.1 i r w →
      ∃ g, I (w, g) ∧ guar t (w, g) ∧ P (w, g)) :
    ∀ {p : Prog ι ρ ε α} {s : σ × γ}, p.Uses A → P s →
      Keeps effect I rely guar p s (fun _ => P) (fun _ => P)
  | .done _, _, _, hs => hs
  | .fail _, _, _, hs => hs
  | .call i k, s, hp, hs => fun t ht hI r w heffect => by
    have hP : P t := lasts hstable ht hs
    obtain ⟨g, hI, hguar, hP⟩ := hkeep t hP hI i hp.1 r w heffect
    exact ⟨g, hI, hguar, of_uses hstable hkeep (hp.2 r) hP⟩

/-- What the program's actions leave alone holds as long as it is left alone by the others. -/
theorem frame {A : ι → Prop} {R : σ × γ → Prop} (hstable : ∀ s t, R s → rely s t → R t)
    (hkeep : ∀ t w g i r, R t → A i → effect t.1 i r w → guar t (w, g) → R (w, g)) :
    ∀ {p : Prog ι ρ ε α} {s : σ × γ}, p.Uses A → R s → Keeps effect I rely guar p s Q E →
      Keeps effect I rely guar p s (fun a t => Q a t ∧ R t) fun e t => E e t ∧ R t
  | .done _, _, _, hs, h => ⟨h, hs⟩
  | .fail _, _, _, hs, h => ⟨h, hs⟩
  | .call i k, s, hp, hs, h => fun t ht hI r w heffect => by
    obtain ⟨g, hI', hguar, hrest⟩ := h t ht hI r w heffect
    have hR : R t := lasts hstable ht hs
    exact ⟨g, hI', hguar,
      frame hstable hkeep (hp.2 r) (hkeep t w g i r hR hp.1 heffect hguar) hrest⟩

/-- A promise outlasts what the others do. -/
theorem of_rely : ∀ {p : Prog ι ρ ε α},
    Keeps effect I rely guar p s (fun _ _ => True) (fun _ _ => True) → rely s t →
      Keeps effect I rely guar p t (fun _ _ => True) (fun _ _ => True)
  | .done _, _, _ => trivial
  | .fail _, _, _ => trivial
  | .call _ _, h, hrely => fun u hu => h u (.head hrely hu)

end Keeps

variable (effect I rely guar) in
/-- Started with the invariant and the precondition, the program keeps its promise, and ends with
the invariant and the postcondition. -/
def Triple (P : σ × γ → Prop) (p : Prog ι ρ ε α) (Q : α → σ × γ → Prop) (E : σ × γ → Prop) : Prop :=
  ∀ s, I s → P s → Keeps effect I rely guar p s (fun a t => I t ∧ Q a t) fun _ t => I t ∧ E t

namespace Triple

variable {p : Prog ι ρ ε α} {P P' E E' : σ × γ → Prop} {Q Q' : α → σ × γ → Prop}

theorem conseq (h : Triple effect I rely guar P p Q E) (hP : ∀ s, I s → P' s → P s)
    (hQ : ∀ a s, Q a s → Q' a s) (hE : ∀ s, E s → E' s) : Triple effect I rely guar P' p Q' E' :=
  fun s hI hs => (h s hI (hP s hI hs)).conseq (fun a t => And.imp_right (hQ a t))
    fun _ t => And.imp_right (hE t)

theorem done {a : α} (h : ∀ s, P s → Q a s) :
    Triple effect I rely guar P (.done a : Prog ι ρ ε α) Q E :=
  fun s hI hs => ⟨hI, h s hs⟩

theorem fail {e : ε} (h : ∀ s, P s → E s) :
    Triple effect I rely guar P (.fail e : Prog ι ρ ε α) Q E :=
  fun s hI hs => ⟨hI, h s hs⟩

theorem bind {f : α → Prog ι ρ ε β} {R : β → σ × γ → Prop} (h : Triple effect I rely guar P p Q E)
    (hf : ∀ a, Triple effect I rely guar (Q a) (f a) R E) :
    Triple effect I rely guar P (p >>= f) R E :=
  fun s hI hs => .bind ((h s hI hs).conseq (fun a t ht => hf a t ht.1 ht.2) fun _ _ => id)

theorem attempt {R : Except ε α → σ × γ → Prop} (h : Triple effect I rely guar P p Q E)
    (hok : ∀ a s, Q a s → R (.ok a) s) (herror : ∀ e s, E s → R (.error e) s) :
    Triple effect I rely guar P p.attempt R E' :=
  fun s hI hs => .attempt ((h s hI hs).conseq (fun a t => And.imp_right (hok a t))
    fun e t => And.imp_right (herror e t))

/-- For an action, the precondition has to last while the others go on. -/
theorem act {i : ι} {R : ρ i → σ × γ → Prop}
    (hstable : ∀ s t, I s → P s → rely s t → I t ∧ P t)
    (h : ∀ t, I t → P t → ∀ r w, effect t.1 i r w → ∃ g, I (w, g) ∧ guar t (w, g) ∧ R r (w, g)) :
    Triple effect I rely guar P (Prog.act i : Prog ι ρ ε (ρ i)) R E :=
  fun s hI hs => .act (P := fun t => I t ∧ P t) (fun s t hs => hstable s t hs.1 hs.2) ⟨hI, hs⟩
    fun t ht _ r w heffect => by
      obtain ⟨g, hI', hguar, hR⟩ := h t ht.1 ht.2 r w heffect
      exact ⟨g, hI', hguar, hI', hR⟩

theorem of_uses {A : ι → Prop} (hp : p.Uses A)
    (hstable : ∀ s t, I s → P s → rely s t → I t ∧ P t)
    (hkeep : ∀ t, I t → P t → ∀ i, A i → ∀ r w, effect t.1 i r w →
      ∃ g, I (w, g) ∧ guar t (w, g) ∧ P (w, g)) :
    Triple effect I rely guar P p (fun _ => P) P :=
  fun s hI hs => .of_uses (P := fun t => I t ∧ P t) (fun s t hs => hstable s t hs.1 hs.2)
    (fun t ht _ i hi r w heffect => by
      obtain ⟨g, hI', hguar, hP⟩ := hkeep t ht.1 ht.2 i hi r w heffect
      exact ⟨g, hI', hguar, hI', hP⟩) hp ⟨hI, hs⟩

theorem frame {A : ι → Prop} {R : σ × γ → Prop} (h : Triple effect I rely guar P p Q E)
    (hp : p.Uses A) (hstable : ∀ s t, I s → R s → rely s t → I t ∧ R t)
    (hkeep : ∀ t w g i r, I t → R t → A i → effect t.1 i r w → guar t (w, g) →
      I (w, g) ∧ R (w, g)) :
    Triple effect I rely guar (fun s => P s ∧ R s) p (fun a s => Q a s ∧ R s)
      fun s => E s ∧ R s :=
  fun s hI hs => (Keeps.frame (R := fun t => I t ∧ R t)
    (fun s t hs => hstable s t hs.1 hs.2)
    (fun t w g i r ht => hkeep t w g i r ht.1 ht.2) hp ⟨hI, hs.2⟩ (h s hI hs.1)).conseq
      (fun _ _ ht => ⟨ht.1.1, ht.1.2, ht.2.2⟩) fun _ _ ht => ⟨ht.1.1, ht.1.2, ht.2.2⟩

end Triple

end Prog

namespace Pool

variable [DecidableEq κ] {effect : σ → (i : ι) → ρ i → σ → Prop}
  {starts : κ → Prog ι ρ ε Unit → Prop}

/-- What the program under a name may expect: that the others keep their promises. -/
def rely (guar : κ → σ × γ → σ × γ → Prop) (k : κ) (s t : σ × γ) : Prop := ∃ j ≠ k, guar j s t

/-- The invariant holds with some notes beside the world, and every program keeps its promise. -/
def Promised (effect : σ → (i : ι) → ρ i → σ → Prop) (I : σ × γ → Prop)
    (guar : κ → σ × γ → σ × γ → Prop) (s : Pool κ ι ρ ε σ) : Prop :=
  ∃ g, I (s.world, g) ∧ ∀ k p, s.running k = some p →
    Prog.Keeps effect I (rely guar k) (guar k) p (s.world, g) (fun _ _ => True) fun _ _ => True

variable {I : σ × γ → Prop} {guar : κ → σ × γ → σ × γ → Prop}

/-- What one program does within its promise. -/
theorem promised_update {running : κ → Option (Prog ι ρ ε Unit)} {v w : σ} {g g' : γ} {k : κ}
    {x : Option (Prog ι ρ ε Unit)}
    (hkeeps : ∀ j q, running j = some q →
      Prog.Keeps effect I (rely guar j) (guar j) q (v, g) (fun _ _ => True) fun _ _ => True)
    (hI : I (w, g')) (hguar : guar k (v, g) (w, g'))
    (hx : ∀ q, x = some q →
      Prog.Keeps effect I (rely guar k) (guar k) q (w, g') (fun _ _ => True) fun _ _ => True) :
    Promised effect I guar ⟨w, Function.update running k x⟩ := by
  refine ⟨g', hI, fun j q hq => ?_⟩
  by_cases hjk : j = k
  · subst hjk
    exact hx q ((Function.update_self j x running).symm.trans hq)
  · exact (hkeeps j q ((Function.update_of_ne hjk x running).symm.trans hq)).of_rely
      ⟨k, Ne.symm hjk, hguar⟩

/-- Where a program starts or is gone, `forget` is what becomes of its notes. -/
theorem promised_step (forget : κ → γ → γ)
    (hforget : ∀ k w g, I (w, g) → I (w, forget k g) ∧ guar k (w, g) (w, forget k g))
    (hstart : ∀ k p, starts k p → ∀ w g, I (w, g) →
      Prog.Keeps effect I (rely guar k) (guar k) p (w, forget k g) (fun _ _ => True)
        fun _ _ => True)
    {s t : Pool κ ι ρ ε σ} {move : Move κ} (hs : Promised effect I guar s)
    (h : PoolStep effect starts s move t) : Promised effect I guar t := by
  obtain ⟨g, hI, hkeeps⟩ := hs
  cases h with
  | @start k p _ hp =>
    obtain ⟨hI', hguar⟩ := hforget k s.world g hI
    refine promised_update hkeeps hI' hguar fun q hq => ?_
    cases hq
    exact hstart k p hp s.world g hI
  | @act k i f r w hrunning heffect =>
    obtain ⟨g', hI', hguar, hrest⟩ := hkeeps k _ hrunning _ .refl hI r w heffect
    refine promised_update hkeeps hI' hguar fun q hq => ?_
    cases hq
    exact hrest
  | @stop k =>
    obtain ⟨hI', hguar⟩ := hforget k s.world g hI
    exact promised_update hkeeps hI' hguar nofun

/-- A program that runs to its end while the others rest, each action with one answer. -/
theorem exists_alone {answer : σ → (i : ι) → ρ i × σ}
    (hanswer : ∀ s i, effect s i (answer s i).1 (answer s i).2)
    {running : κ → Option (Prog ι ρ ε Unit)} {k : κ} : ∀ (p : Prog ι ρ ε Unit) (w : σ), ∃ steps,
      Run (PoolStep effect starts) ⟨w, Function.update running k (some p)⟩ steps
        ∧ finalState ⟨w, Function.update running k (some p)⟩ steps
          = ⟨(p.eval answer w).1, Function.update running k none⟩ := by
  have hstop : ∀ p (w : σ), PoolStep effect starts ⟨w, Function.update running k (some p)⟩
      (.stop k) ⟨w, Function.update running k none⟩ := fun p w => by
    have h := @PoolStep.stop _ _ _ _ _ _ effect starts ⟨w, Function.update running k (some p)⟩ k
    rwa [Function.update_idem] at h
  intro p
  induction p with
  | done a => exact fun w => ⟨_, .cons (hstop _ w) (.nil _), rfl⟩
  | fail e => exact fun w => ⟨_, .cons (hstop _ w) (.nil _), rfl⟩
  | call i f ih =>
    intro w
    obtain ⟨steps, hrun, hfinal⟩ := ih (answer w i).1 (answer w i).2
    have hact := @PoolStep.act _ _ _ _ _ _ effect starts
      ⟨w, Function.update running k (some (.call i f))⟩ k i f _ _ (Function.update_self ..)
      (hanswer w i)
    rw [Function.update_idem] at hact
    exact ⟨_, .cons hact hrun, hfinal⟩

end Pool

end OnixCore
