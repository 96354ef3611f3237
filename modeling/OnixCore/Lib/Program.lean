import Mathlib.Tactic.Common

/-!
# Programs that act on a shared world

A program is a tree: it has returned, it has failed, or it asks the world for one action and goes
on with the answer. What an action does is the world's business, `perform`: it takes the state and
a possible answer to the next state, and is `none` for an answer that cannot come.

`Runs` follows one program through its own actions. Between two of them the world may have become
anything, so a fact about every `Runs` holds whatever else is at work at the same time.
-/

namespace OnixCore

/-- A program with actions `ι`, answers `ρ`, errors `ε` and results `α`. -/
inductive Prog (ι : Type) (ρ : ι → Type) (ε α : Type) where
  | done (a : α)
  | fail (e : ε)
  | call (i : ι) (k : ρ i → Prog ι ρ ε α)

namespace Prog

variable {ι : Type} {ρ : ι → Type} {ε σ α β : Type}

protected def bind : Prog ι ρ ε α → (α → Prog ι ρ ε β) → Prog ι ρ ε β
  | .done a, f => f a
  | .fail e, _ => .fail e
  | .call i k, f => .call i fun r => (k r).bind f

instance : Monad (Prog ι ρ ε) where
  pure := .done
  bind := Prog.bind

/-- One action, and its answer. -/
def act (i : ι) : Prog ι ρ ε (ρ i) := .call i .done

/-- Runs a program for its outcome: a failure is a result like any other. -/
def attempt : Prog ι ρ ε α → Prog ι ρ ε (Except ε α)
  | .done a => .done (.ok a)
  | .fail e => .done (.error e)
  | .call i k => .call i fun r => (k r).attempt

/-- Fails with `e` unless `c` holds. -/
def check (c : Prop) [Decidable c] (e : ε) : Prog ι ρ ε Unit :=
  if c then .done () else .fail e

def ofExcept : Except ε α → Prog ι ρ ε α
  | .ok a => .done a
  | .error e => .fail e

@[simp] theorem pure_eq_done (a : α) : (pure a : Prog ι ρ ε α) = .done a := rfl

@[simp] theorem done_bind (a : α) (f : α → Prog ι ρ ε β) : Prog.done a >>= f = f a := rfl

@[simp] theorem fail_bind (e : ε) (f : α → Prog ι ρ ε β) : Prog.fail e >>= f = .fail e := rfl

@[simp] theorem call_bind (i : ι) (k : ρ i → Prog ι ρ ε α) (f : α → Prog ι ρ ε β) :
    Prog.call i k >>= f = .call i fun r => k r >>= f := rfl

@[simp] theorem act_bind (i : ι) (f : ρ i → Prog ι ρ ε β) : act i >>= f = .call i f := rfl

@[simp] theorem ofExcept_ok (a : α) : (ofExcept (.ok a) : Prog ι ρ ε α) = .done a := rfl

@[simp] theorem ofExcept_error (e : ε) : (ofExcept (.error e) : Prog ι ρ ε α) = .fail e := rfl

@[simp] theorem check_pos {c : Prop} [Decidable c] {e : ε} (h : c) :
    (check c e : Prog ι ρ ε Unit) = .done () := if_pos h

@[simp] theorem check_neg {c : Prop} [Decidable c] {e : ε} (h : ¬ c) :
    (check c e : Prog ι ρ ε Unit) = .fail e := if_neg h

theorem bind_assoc {γ : Type} (f : α → Prog ι ρ ε β) (g : β → Prog ι ρ ε γ) :
    ∀ x : Prog ι ρ ε α, x >>= f >>= g = x >>= fun a => f a >>= g
  | .done _ => rfl
  | .fail _ => rfl
  | .call i k => congrArg (Prog.call i) (funext fun r => bind_assoc f g (k r))

theorem bind_done : ∀ x : Prog ι ρ ε α, x >>= (fun a => .done a) = x
  | .done _ => rfl
  | .fail _ => rfl
  | .call i k => congrArg (Prog.call i) (funext fun r => bind_done (k r))

/-- Every action the program may take satisfies `P`. -/
def Uses (P : ι → Prop) : Prog ι ρ ε α → Prop
  | .done _ => True
  | .fail _ => True
  | .call i k => P i ∧ ∀ r, (k r).Uses P

section Uses

variable {P : ι → Prop}

@[simp] theorem uses_done (a : α) : (Prog.done a : Prog ι ρ ε α).Uses P := trivial

@[simp] theorem uses_fail (e : ε) : (Prog.fail e : Prog ι ρ ε α).Uses P := trivial

@[simp] theorem uses_act {i : ι} : (act i : Prog ι ρ ε (ρ i)).Uses P ↔ P i :=
  ⟨fun h => h.1, fun h => ⟨h, fun _ => trivial⟩⟩

@[simp] theorem uses_check {c : Prop} [Decidable c] {e : ε} :
    (check c e : Prog ι ρ ε Unit).Uses P := by
  unfold check
  split_ifs <;> trivial

@[simp] theorem uses_ofExcept : ∀ x : Except ε α, (ofExcept x : Prog ι ρ ε α).Uses P
  | .ok _ => trivial
  | .error _ => trivial

theorem uses_bind {f : α → Prog ι ρ ε β} :
    ∀ {x : Prog ι ρ ε α}, x.Uses P → (∀ a, (f a).Uses P) → (x >>= f).Uses P
  | .done a, _, hf => hf a
  | .fail _, _, _ => trivial
  | .call _ _, hx, hf => ⟨hx.1, fun r => uses_bind (hx.2 r) hf⟩

theorem Uses.mono {P' : ι → Prop} (h : ∀ i, P i → P' i) :
    ∀ {x : Prog ι ρ ε α}, x.Uses P → x.Uses P'
  | .done _, _ => trivial
  | .fail _, _ => trivial
  | .call i _, hx => ⟨h i hx.1, fun r => (hx.2 r).mono h⟩

end Uses

end Prog

/-- One action a program took: the answer it got, and the world before and after. -/
structure Event (ι : Type) (ρ : ι → Type) (σ : Type) where
  action : ι
  answer : ρ action
  before : σ
  after : σ

namespace Prog

variable {ι : Type} {ρ : ι → Type} {ε σ α β : Type} {perform : σ → (i : ι) → ρ i → Option σ}

/-- `Runs p log q`: the program `p` took the actions of `log`, and `q` is what is left of it. -/
inductive Runs (perform : σ → (i : ι) → ρ i → Option σ) :
    Prog ι ρ ε α → List (Event ι ρ σ) → Prog ι ρ ε α → Prop
  | stop (p : Prog ι ρ ε α) : Runs perform p [] p
  | act {i : ι} {k : ρ i → Prog ι ρ ε α} {r : ρ i} {s s' : σ} {log : List (Event ι ρ σ)}
      {q : Prog ι ρ ε α} (h : perform s i r = some s') (rest : Runs perform (k r) log q) :
      Runs perform (.call i k) (⟨i, r, s, s'⟩ :: log) q

/-- The program has returned or failed. -/
def ended : Prog ι ρ ε α → Prop
  | .call _ _ => False
  | _ => True

theorem runs_done {a : α} {log : List (Event ι ρ σ)} {q : Prog ι ρ ε α} :
    Runs perform (.done a) log q ↔ log = [] ∧ q = .done a := by
  constructor
  · rintro (_ | _)
    exact ⟨rfl, rfl⟩
  · rintro ⟨rfl, rfl⟩
    exact .stop _

theorem runs_fail {e : ε} {log : List (Event ι ρ σ)} {q : Prog ι ρ ε α} :
    Runs perform (.fail e) log q ↔ log = [] ∧ q = .fail e := by
  constructor
  · rintro (_ | _)
    exact ⟨rfl, rfl⟩
  · rintro ⟨rfl, rfl⟩
    exact .stop _

/-- A run to the end takes its first action, and is then a run of what follows the answer. -/
theorem runs_call {i : ι} {k : ρ i → Prog ι ρ ε α} {log : List (Event ι ρ σ)}
    {q : Prog ι ρ ε α} (hq : q.ended) :
    Runs perform (.call i k) log q ↔ ∃ r s s' rest,
      perform s i r = some s' ∧ log = ⟨i, r, s, s'⟩ :: rest ∧ Runs perform (k r) rest q := by
  constructor
  · rintro (_ | ⟨h, rest⟩)
    · exact absurd hq id
    · exact ⟨_, _, _, _, h, rfl, rest⟩
  · rintro ⟨r, s, s', rest, h, rfl, hrest⟩
    exact .act h hrest

/-- A run of a sequence to the end: the first part fails, or returns and the second part runs. -/
theorem runs_bind {f : α → Prog ι ρ ε β} {q : Prog ι ρ ε β} (hq : q.ended) :
    ∀ {x : Prog ι ρ ε α} {log : List (Event ι ρ σ)}, Runs perform (x >>= f) log q ↔
      (∃ e, Runs perform x log (.fail e) ∧ q = .fail e) ∨
      ∃ a log₁ log₂, log = log₁ ++ log₂ ∧ Runs perform x log₁ (.done a)
        ∧ Runs perform (f a) log₂ q
  | .done a, log => by simp [runs_done]
  | .fail e, log => by simp [runs_fail]
  | .call i k, log => by
    rw [call_bind, runs_call hq]
    constructor
    · rintro ⟨r, s, s', rest, h, rfl, hrest⟩
      rcases (runs_bind hq).1 hrest with ⟨e, he, rfl⟩ | ⟨a, log₁, log₂, rfl, h₁, h₂⟩
      · exact .inl ⟨e, .act h he, rfl⟩
      · exact .inr ⟨a, _ :: log₁, log₂, rfl, .act h h₁, h₂⟩
    · rintro (⟨e, he, rfl⟩ | ⟨a, log₁, log₂, rfl, h₁, h₂⟩)
      · obtain ⟨r, s, s', rest, h, rfl, hrest⟩ := (runs_call (by trivial)).1 he
        exact ⟨r, s, s', rest, h, rfl, (runs_bind hq).2 (.inl ⟨e, hrest, rfl⟩)⟩
      · obtain ⟨r, s, s', rest, h, rfl, hrest⟩ := (runs_call (by trivial)).1 h₁
        exact ⟨r, s, s', rest ++ log₂, h, rfl,
          (runs_bind hq).2 (.inr ⟨a, rest, log₂, rfl, hrest, h₂⟩)⟩

/-- A run of a sequence, wherever it stopped: still in the first part, or in the second. -/
theorem runs_bind_inv {f : α → Prog ι ρ ε β} {q : Prog ι ρ ε β} {x : Prog ι ρ ε α}
    {log : List (Event ι ρ σ)} (h : Runs perform (x >>= f) log q) :
    (∃ x', Runs perform x log x') ∨ ∃ a log₁ log₂, log = log₁ ++ log₂
      ∧ Runs perform x log₁ (.done a) ∧ Runs perform (f a) log₂ q := by
  induction x generalizing log with
  | done a => exact .inr ⟨a, [], log, rfl, .stop _, h⟩
  | fail e =>
    obtain ⟨rfl, -⟩ := runs_fail.1 h
    exact .inl ⟨_, .stop _⟩
  | call i k ih =>
    rcases h with _ | ⟨h, rest⟩
    · exact .inl ⟨_, .stop _⟩
    · rcases ih _ rest with ⟨x', hx⟩ | ⟨a, log₁, log₂, rfl, h₁, h₂⟩
      · exact .inl ⟨x', .act h hx⟩
      · exact .inr ⟨a, _ :: log₁, log₂, rfl, .act h h₁, h₂⟩

theorem Runs.bind {x : Prog ι ρ ε α} {f : α → Prog ι ρ ε β} {a : α} {q : Prog ι ρ ε β}
    {log₁ log₂ : List (Event ι ρ σ)} (h₁ : Runs perform x log₁ (.done a))
    (h₂ : Runs perform (f a) log₂ q) : Runs perform (x >>= f) (log₁ ++ log₂) q := by
  induction log₁ generalizing x with
  | nil =>
    cases h₁
    exact h₂
  | cons e log₁ ih =>
    rcases h₁ with _ | ⟨h, rest⟩
    exact .act h (ih rest)

theorem Runs.trans {p q r : Prog ι ρ ε α} {log₁ log₂ : List (Event ι ρ σ)}
    (h₁ : Runs perform p log₁ q) (h₂ : Runs perform q log₂ r) :
    Runs perform p (log₁ ++ log₂) r := by
  induction h₁ with
  | stop => exact h₂
  | act h _ ih => exact .act h (ih h₂)

theorem Runs.uses {P : ι → Prop} {p q : Prog ι ρ ε α} {log : List (Event ι ρ σ)}
    (h : Runs perform p log q) (hp : p.Uses P) : ∀ e ∈ log, P e.action := by
  induction h with
  | stop => simp
  | act _ _ ih =>
    rw [List.forall_mem_cons]
    exact ⟨hp.1, ih (hp.2 _)⟩

/-- Every step of a run changed the world as its action does. -/
theorem Runs.performs {p q : Prog ι ρ ε α} {log : List (Event ι ρ σ)} (h : Runs perform p log q) :
    ∀ e ∈ log, perform e.before e.action e.answer = some e.after := by
  induction h with
  | stop => simp
  | act h _ ih =>
    rw [List.forall_mem_cons]
    exact ⟨h, ih⟩

end Prog

/-- What happens to the world while a program runs: a step of its own, or a change by others. -/
inductive Moment (ι : Type) (ρ : ι → Type) (σ : Type) where
  | own (e : Event ι ρ σ)
  | other (before after : σ)

section Timeline

variable {ι : Type} {ρ : ι → Type} {ε σ α : Type} {perform : σ → (i : ι) → ρ i → Option σ}
  {p q : Prog ι ρ ε α} {w v : σ} {ms : List (Moment ι ρ σ)}

/-- `Timeline p w ms q v`: from the world `w`, the moments `ms` left `q` of the program and the
world `v`. Between two steps of the program others may change the world in any way. -/
inductive Timeline (perform : σ → (i : ι) → ρ i → Option σ) :
    Prog ι ρ ε α → σ → List (Moment ι ρ σ) → Prog ι ρ ε α → σ → Prop
  | stop (p : Prog ι ρ ε α) (w : σ) : Timeline perform p w [] p w
  | own {i : ι} {k : ρ i → Prog ι ρ ε α} {r : ρ i} {w w' v : σ} {ms : List (Moment ι ρ σ)}
      {q : Prog ι ρ ε α} (h : perform w i r = some w') (rest : Timeline perform (k r) w' ms q v) :
      Timeline perform (.call i k) w (.own ⟨i, r, w, w'⟩ :: ms) q v
  | other {p q : Prog ι ρ ε α} {w w' v : σ} {ms : List (Moment ι ρ σ)}
      (rest : Timeline perform p w' ms q v) :
      Timeline perform p w (.other w w' :: ms) q v

/-- The program's own steps. -/
def ownEvents : List (Moment ι ρ σ) → List (Event ι ρ σ)
  | [] => []
  | .own e :: ms => e :: ownEvents ms
  | .other _ _ :: ms => ownEvents ms

theorem ownEvents_append : ∀ ms ms' : List (Moment ι ρ σ),
    ownEvents (ms ++ ms') = ownEvents ms ++ ownEvents ms'
  | [], _ => rfl
  | .own e :: ms, ms' => congrArg (e :: ·) (ownEvents_append ms ms')
  | .other _ _ :: ms, ms' => ownEvents_append ms ms'

/-- Seen from the program alone, a timeline is one of its runs. -/
theorem Timeline.runs (h : Timeline perform p w ms q v) :
    Prog.Runs perform p (ownEvents ms) q := by
  induction h with
  | stop => exact .stop _
  | own h _ ih => exact .act h ih
  | other _ ih => exact ih

theorem Timeline.append {p' : Prog ι ρ ε α} {w' : σ} {ms' : List (Moment ι ρ σ)}
    (h : Timeline perform p w ms q v) (h' : Timeline perform q v ms' p' w') :
    Timeline perform p w (ms ++ ms') p' w' := by
  induction h with
  | stop => exact h'
  | own h _ ih => exact .own h (ih h')
  | other _ ih => exact .other (ih h')

/-- Every run comes about on some timeline, from any world. -/
theorem Prog.Runs.timeline {log : List (Event ι ρ σ)} (h : Prog.Runs perform p log q) (w : σ) :
    ∃ ms v, ownEvents ms = log ∧ Timeline perform p w ms q v := by
  induction h generalizing w with
  | stop p => exact ⟨[], w, rfl, .stop p w⟩
  | act h _ ih =>
    obtain ⟨ms, v, rfl, hms⟩ := ih _
    exact ⟨_, v, rfl, .other (.own h hms)⟩

end Timeline

end OnixCore
