import OnixCore.Lib.Program
import OnixCore.Lib.Steps

/-!
# A program alone with its world

`Executes` follows a program where nothing else touches the world: each action starts in the state
the one before left. The program may be stopped after any of its actions. `effect` is a relation,
so one action can have several answers, a failure among them.

`Maintains` is the precondition for an invariant to hold all through an execution, with a
postcondition for a program that returns and one for a program that fails; its rules follow the
program, and `Maintains.sound` says what it means for executions.

`eval` runs a program whose actions each have one answer.
-/

namespace OnixCore

namespace Prog

variable {ι : Type} {ρ : ι → Type} {ε σ α β : Type} {effect : σ → (i : ι) → ρ i → σ → Prop}

/-- `Executes effect p s log q t`: from `s`, the program `p` took the actions of `log`, and `q` and
`t` are what is left of the program and the world. -/
inductive Executes (effect : σ → (i : ι) → ρ i → σ → Prop) :
    Prog ι ρ ε α → σ → List (Event ι ρ σ) → Prog ι ρ ε α → σ → Prop
  | stop (p : Prog ι ρ ε α) (s : σ) : Executes effect p s [] p s
  | act {i : ι} {k : ρ i → Prog ι ρ ε α} {r : ρ i} {s s' t : σ} {log : List (Event ι ρ σ)}
      {q : Prog ι ρ ε α} (first : effect s i r s') (rest : Executes effect (k r) s' log q t) :
      Executes effect (.call i k) s (⟨i, r, s, s'⟩ :: log) q t

variable {p q : Prog ι ρ ε α} {s t : σ} {log : List (Event ι ρ σ)}

namespace Executes

theorem of_done {a : α} (h : Executes effect (.done a : Prog ι ρ ε α) s log q t) :
    log = [] ∧ q = .done a ∧ t = s := by
  cases h
  exact ⟨rfl, rfl, rfl⟩

theorem of_fail {e : ε} (h : Executes effect (.fail e : Prog ι ρ ε α) s log q t) :
    log = [] ∧ q = .fail e ∧ t = s := by
  cases h
  exact ⟨rfl, rfl, rfl⟩

/-- An execution of a sequence, wherever it stopped: in the first part, or in the second. -/
theorem bind_inv {f : α → Prog ι ρ ε β} {q : Prog ι ρ ε β} {x : Prog ι ρ ε α}
    (h : Executes effect (x >>= f) s log q t) :
    (∃ x', Executes effect x s log x' t ∧ q = x' >>= f)
      ∨ ∃ a log₁ log₂ mid, log = log₁ ++ log₂ ∧ Executes effect x s log₁ (.done a) mid
        ∧ Executes effect (f a) mid log₂ q t := by
  induction x generalizing s log with
  | done a => exact .inr ⟨a, [], log, s, rfl, .stop _ _, h⟩
  | fail e =>
    obtain ⟨rfl, rfl, rfl⟩ := of_fail h
    exact .inl ⟨.fail e, .stop _ _, rfl⟩
  | call i k ih =>
    rcases h with _ | ⟨first, rest⟩
    · exact .inl ⟨.call i k, .stop _ _, rfl⟩
    · rcases ih _ rest with ⟨x', hx, rfl⟩ | ⟨a, log₁, log₂, mid, rfl, h₁, h₂⟩
      · exact .inl ⟨x', .act first hx, rfl⟩
      · exact .inr ⟨a, _ :: log₁, log₂, mid, rfl, .act first h₁, h₂⟩

/-- A sequence that came to its end: the first part failed, or it returned and the second part
came to its end. -/
theorem bind_ended {f : α → Prog ι ρ ε β} {x : Prog ι ρ ε α} {q : Prog ι ρ ε β} (hq : q.ended)
    (h : Executes effect (x >>= f) s log q t) :
    (∃ e, Executes effect x s log (.fail e) t ∧ q = .fail e)
      ∨ ∃ a log₁ log₂ mid, log = log₁ ++ log₂ ∧ Executes effect x s log₁ (.done a) mid
        ∧ Executes effect (f a) mid log₂ q t := by
  rcases bind_inv h with ⟨x', hx, rfl⟩ | h
  · rcases x' with a | e | ⟨i, k⟩
    · exact .inr ⟨a, log, [], t, (List.append_nil _).symm, hx, .stop _ _⟩
    · exact .inl ⟨e, hx, rfl⟩
    · exact absurd hq id
  · exact .inr h

/-- A sequence that returned: its first part returned, and then its second part. -/
theorem bind_done {f : α → Prog ι ρ ε β} {x : Prog ι ρ ε α} {b : β}
    (h : Executes effect (x >>= f) s log (.done b) t) :
    ∃ a log₁ log₂ mid, log = log₁ ++ log₂ ∧ Executes effect x s log₁ (.done a) mid
      ∧ Executes effect (f a) mid log₂ (.done b) t := by
  rcases bind_ended (q := .done b) trivial h with ⟨e, -, heq⟩ | h
  · exact nomatch heq
  · exact h

/-- An action that was left behind: what it answered, and the rest. -/
theorem call_ended {i : ι} {k : ρ i → Prog ι ρ ε α} (hq : q.ended)
    (h : Executes effect (.call i k) s log q t) :
    ∃ r s' rest, log = ⟨i, r, s, s'⟩ :: rest ∧ effect s i r s' ∧ Executes effect (k r) s' rest q t := by
  cases h with
  | stop => exact absurd hq id
  | act first rest => exact ⟨_, _, _, rfl, first, rest⟩

theorem bind {x : Prog ι ρ ε α} {f : α → Prog ι ρ ε β} {a : α} {q : Prog ι ρ ε β} {mid : σ}
    {log₁ log₂ : List (Event ι ρ σ)} (h₁ : Executes effect x s log₁ (.done a) mid)
    (h₂ : Executes effect (f a) mid log₂ q t) : Executes effect (x >>= f) s (log₁ ++ log₂) q t := by
  induction log₁ generalizing x s with
  | nil =>
    cases h₁
    exact h₂
  | cons e log₁ ih =>
    rcases h₁ with _ | ⟨first, rest⟩
    exact .act first (ih rest)

theorem uses {P : ι → Prop} (h : Executes effect p s log q t) (hp : p.Uses P) :
    ∀ e ∈ log, P e.action := by
  induction h with
  | stop => simp
  | act _ _ ih =>
    rw [List.forall_mem_cons]
    exact ⟨hp.1, ih (hp.2 _)⟩

/-- What every action of an execution keeps, the execution keeps. -/
theorem invariant {P : ι → Prop} {I : σ → Prop}
    (hkeep : ∀ s i r s', P i → I s → effect s i r s' → I s') (h : Executes effect p s log q t)
    (hlog : ∀ e ∈ log, P e.action) (hs : I s) : (∀ e ∈ log, I e.after) ∧ I t := by
  induction h with
  | stop => exact ⟨List.forall_mem_nil _, hs⟩
  | act first _ ih =>
    obtain ⟨hfirst, hrest⟩ := List.forall_mem_cons.1 hlog
    have hafter := hkeep _ _ _ _ hfirst hs first
    obtain ⟨hlog, ht⟩ := ih hrest hafter
    exact ⟨List.forall_mem_cons.2 ⟨hafter, hlog⟩, ht⟩

theorem mono {effect' : σ → (i : ι) → ρ i → σ → Prop}
    (himp : ∀ s i r s', effect s i r s' → effect' s i r s') (h : Executes effect p s log q t) :
    Executes effect' p s log q t := by
  induction h with
  | stop => exact .stop _ _
  | act first _ ih => exact .act (himp _ _ _ _ first) ih

end Executes

/-- From `s` on, the invariant holds after every action of the program, and what it returns or
fails with satisfies the postcondition. -/
def Maintains (effect : σ → (i : ι) → ρ i → σ → Prop) (I : σ → Prop) :
    Prog ι ρ ε α → σ → (α → σ → Prop) → (ε → σ → Prop) → Prop
  | .done a, s, Q, _ => Q a s
  | .fail e, s, _, E => E e s
  | .call i k, s, Q, E => ∀ r s', effect s i r s' → I s' ∧ Maintains effect I (k r) s' Q E

namespace Maintains

variable {I : σ → Prop} {Q : α → σ → Prop} {E : ε → σ → Prop}

theorem conseq {Q' : α → σ → Prop} {E' : ε → σ → Prop} (hQ : ∀ a s, Q a s → Q' a s)
    (hE : ∀ e s, E e s → E' e s) : ∀ {p : Prog ι ρ ε α} {s : σ},
      Maintains effect I p s Q E → Maintains effect I p s Q' E'
  | .done a, s, h => hQ a s h
  | .fail e, s, h => hE e s h
  | .call _ _, _, h => fun r s' heffect =>
    ⟨(h r s' heffect).1, conseq hQ hE (h r s' heffect).2⟩

theorem bind {f : α → Prog ι ρ ε β} {R : β → σ → Prop} : ∀ {x : Prog ι ρ ε α} {s : σ},
    Maintains effect I x s (fun a t => Maintains effect I (f a) t R E) E →
      Maintains effect I (x >>= f) s R E
  | .done _, _, h => h
  | .fail _, _, h => h
  | .call _ _, _, h => fun r s' heffect => ⟨(h r s' heffect).1, bind (h r s' heffect).2⟩

theorem attempt {R : Except ε α → σ → Prop} {E' : ε → σ → Prop} : ∀ {x : Prog ι ρ ε α} {s : σ},
    Maintains effect I x s (fun a => R (.ok a)) (fun e => R (.error e)) →
      Maintains effect I x.attempt s R E'
  | .done _, _, h => h
  | .fail _, _, h => h
  | .call _ _, _, h => fun r s' heffect => ⟨(h r s' heffect).1, attempt (h r s' heffect).2⟩

theorem act {i : ι} {R : ρ i → σ → Prop} (h : ∀ r s', effect s i r s' → I s' ∧ R r s') :
    Maintains effect I (Prog.act i : Prog ι ρ ε (ρ i)) s R E := h

/-- What every action of the program keeps, the program keeps. -/
theorem of_uses {P : ι → Prop} {J : σ → Prop}
    (hkeep : ∀ s i r s', P i → J s → effect s i r s' → J s') (hI : ∀ s, J s → I s) :
    ∀ {p : Prog ι ρ ε α} {s : σ}, p.Uses P → J s →
      Maintains effect I p s (fun _ => J) (fun _ => J)
  | .done _, _, _, hs => hs
  | .fail _, _, _, hs => hs
  | .call _ _, _, hp, hs => fun r s' heffect =>
    have hs' := hkeep _ _ _ _ hp.1 hs heffect
    ⟨hI s' hs', of_uses hkeep hI (hp.2 r) hs'⟩

theorem sound (h : Maintains effect I p s Q E) (hs : I s) (hexec : Executes effect p s log q t) :
    I t ∧ Maintains effect I q t Q E := by
  induction hexec with
  | stop => exact ⟨hs, h⟩
  | act first _ ih =>
    obtain ⟨hs', hrest⟩ := h _ _ first
    exact ih hrest hs'

end Maintains

section Eval

variable {answer : σ → (i : ι) → ρ i × σ} {s' : σ} {r : Except ε α}

/-- Runs a program whose actions each have one answer, and keeps the world it stopped in. -/
def eval (answer : σ → (i : ι) → ρ i × σ) : Prog ι ρ ε α → σ → σ × Except ε α
  | .done a, s => (s, .ok a)
  | .fail e, s => (s, .error e)
  | .call i k, s => (k (answer s i).1).eval answer (answer s i).2

@[simp] theorem eval_done (a : α) : eval answer (.done a : Prog ι ρ ε α) s = (s, .ok a) := rfl

@[simp] theorem eval_fail (e : ε) : eval answer (.fail e : Prog ι ρ ε α) s = (s, .error e) := rfl

@[simp] theorem eval_call (i : ι) (k : ρ i → Prog ι ρ ε α) :
    eval answer (.call i k) s = eval answer (k (answer s i).1) (answer s i).2 := rfl

theorem eval_bind_ok {x : Prog ι ρ ε α} {f : α → Prog ι ρ ε β} {a : α}
    (h : eval answer x s = (s', .ok a)) : eval answer (x >>= f) s = eval answer (f a) s' := by
  induction x generalizing s with
  | done b =>
    cases h
    rfl
  | fail e => cases h
  | call i k ih => exact ih _ h

theorem eval_bind_error {x : Prog ι ρ ε α} {f : α → Prog ι ρ ε β} {e : ε}
    (h : eval answer x s = (s', .error e)) : eval answer (x >>= f) s = (s', .error e) := by
  induction x generalizing s with
  | done b => cases h
  | fail e' =>
    cases h
    rfl
  | call i k ih => exact ih _ h

/-- A loop runs its steps until one fails. -/
theorem eval_forM (f : β → Prog ι ρ ε Unit) : ∀ (l : List β) (s : σ),
    eval answer (l.forM f) s = runEach (fun b s => eval answer (f b) s) l s
  | [], _ => rfl
  | b :: l, s => by
    rw [List.forM]
    rcases hb : eval answer (f b) s with ⟨mid, e | ⟨⟩⟩
    · simp only [eval_bind_error hb, runEach, hb]
    · simp only [eval_bind_ok hb, runEach, hb]
      exact eval_forM f l mid

end Eval

end Prog

end OnixCore
