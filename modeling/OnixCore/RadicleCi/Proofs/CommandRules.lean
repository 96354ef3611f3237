import OnixCore.RadicleCi.Proofs.Promises

/-!
# Rules for the commands

`Does` says what a part of a command does while the other commands go by their promises. What it
knows between two of its actions has to last: the others leave a claimed job alone, and what is in
`staging` and belongs to the command.
-/

namespace OnixCore.RadicleCi

/-- Within the command's promise, from the precondition to what holds where the program returns or
fails. -/
def Does (codec : Codec) (k : Command) {α : Type} (P : Noted → Prop) (p : ExchangeProg α)
    (Q : α → Noted → Prop) (E : Noted → Prop) : Prop :=
  Prog.Triple exchangeEffect (Custody codec) (Pool.rely (Within codec) k) (Within codec k) P p Q E

/-- The others leave it alone. -/
def Lasts (codec : Codec) (k : Command) (P : Noted → Prop) : Prop :=
  ∀ j s t, j ≠ k → Custody codec s → Within codec j s t → P s → P t

/-- Nobody else touches it, and it is not about the command's part of `staging`. -/
structure Apart (codec : Codec) (k : Command) (P : Noted → Prop) : Prop where
  lasts : Lasts codec k P
  idle : ∀ s t, (∀ q n, ¬ Mine k (q, n) → t.1.queues.get q n = s.1.queues.get q n) →
    t.2 = s.2 → P s → P t

section Assertions

variable {codec : Codec} {k : Command} {s t : Noted} {P P' : Noted → Prop} {n job : String}

theorem Lasts.and (h : Lasts codec k P) (h' : Lasts codec k P') :
    Lasts codec k fun s => P s ∧ P' s :=
  fun j s t hj hs hwithin => And.imp (h j s t hj hs hwithin) (h' j s t hj hs hwithin)

theorem Lasts.rely (h : Lasts codec k P) (s t : Noted) (hs : Custody codec s) (hP : P s)
    (hrely : Pool.rely (Within codec) k s t) : Custody codec t ∧ P t := by
  obtain ⟨j, hj, hwithin⟩ := hrely
  exact ⟨hwithin.custody hs, h j s t hj hs hwithin hP⟩

theorem Apart.and (h : Apart codec k P) (h' : Apart codec k P') :
    Apart codec k fun s => P s ∧ P' s :=
  ⟨h.lasts.and h'.lasts, fun s t hsame hnotes =>
    And.imp (h.idle s t hsame hnotes) (h'.idle s t hsame hnotes)⟩

theorem apart_true : Apart codec k fun _ => True := ⟨fun _ _ _ _ _ _ => id, fun _ _ _ _ => id⟩

theorem mine_staging {q : Queue} (h : q ≠ .staging) : ¬ Mine k (q, n) := fun hmine => h hmine.1

theorem view_of_idle (hsame : ∀ q n, ¬ Mine k (q, n) → t.1.queues.get q n = s.1.queues.get q n)
    (hnotes : t.2 = s.2) : view t job = view s job := by
  have hget : ∀ q, q ≠ .staging → t.1.queues.get q job = s.1.queues.get q job := fun q hq =>
    hsame q job (mine_staging hq)
  unfold view
  rw [hget .incoming nofun, hget .processing nofun, hget .outbox nofun, hget .published nofun,
    hget .rejected nofun, hnotes]

/-- In `staging` a command is alone. -/
theorem lasts_staging (h : Mine k (.staging, n)) (R : Option Entry → Prop) :
    Lasts codec k fun s => R (s.1.queues.get .staging n) := by
  intro j s t hj hs hwithin hR
  have htouches : ¬ Touches j .staging n := by
    intro hother
    obtain ⟨-, hmine⟩ := h
    cases j <;> cases k
    case scan.runNext => exact hmine.elim fun job heq => hother job heq
    case runNext.scan => exact hother.elim fun job heq => hmine job heq
    all_goals first | exact hj rfl | exact hother | exact hmine
  rw [hwithin.rest .staging n (.inl rfl) htouches]
  exact hR

theorem apart_kept : Apart codec k fun s => (view s job).Kept :=
  ⟨fun _ _ _ _ hs hwithin => hwithin.kept hs, fun s t hsame hnotes hkept => by
    rwa [view_of_idle hsame hnotes]⟩

theorem JobStep.others {j : Command} {v v' : JobView} (h : JobStep codec job j v v')
    (hj : j ≠ .runNext) : v'.processing = v.processing ∧ (v.incoming ≠ none → v'.incoming ≠ none) := by
  cases h with
  | queue => exact ⟨rfl, fun _ => nofun⟩
  | load => exact ⟨rfl, id⟩
  | replace => exact ⟨rfl, id⟩
  | publish => exact ⟨rfl, id⟩
  | forget => exact ⟨rfl, id⟩
  | claim => exact absurd rfl hj
  | recover => exact absurd rfl hj
  | drop => exact absurd rfl hj
  | withdraw => exact absurd rfl hj
  | deliver => exact absurd rfl hj
  | discard => exact absurd rfl hj
  | reject => exact absurd rfl hj

theorem apart_processing (R : Option Entry → Prop) :
    Apart codec .runNext fun s => R (s.1.queues.get .processing job) := by
  constructor
  · intro j s t hj hs hwithin hR
    have hsame : t.1.queues.get .processing job = s.1.queues.get .processing job := by
      rcases hwithin.jobs job with heq | hstep
      · exact congrArg JobView.processing heq
      · exact (hstep.others hj).1
    rwa [hsame]
  · intro s t hsame _ hR
    rwa [hsame .processing job (mine_staging nofun)]

theorem apart_incoming : Apart codec .runNext fun s => s.1.queues.get .incoming job ≠ none := by
  constructor
  · intro j s t hj hs hwithin hthere
    rcases hwithin.jobs job with heq | hstep
    · exact fun hnone => hthere ((congrArg JobView.incoming heq).symm.trans hnone)
    · exact (hstep.others hj).2 hthere
  · intro s t hsame _ hthere
    rwa [hsame .incoming job (mine_staging nofun)]

theorem apart_delivered : Apart codec .runNext fun s => (view s job).Delivered := by
  constructor
  · intro j s t hj hs hwithin hdelivered
    rcases hwithin.jobs job with heq | hstep
    · rwa [heq]
    · exact hstep.delivered hj hdelivered
  · intro s t hsame hnotes hdelivered
    rwa [view_of_idle hsame hnotes]

theorem apart_note (g : Option String) : Apart codec .publishNext fun s => s.2 = g :=
  ⟨fun _ _ _ hj _ hwithin hnote => (hwithin.notes hj).trans hnote,
    fun _ _ _ hnotes hnote => hnotes.trans hnote⟩

end Assertions

section Moving

variable {codec : Codec} {k : Command} {s : Noted} {w : Exchange} {g : Option String}
  {q q' : Queue} {n n' job : String} {x : Option Entry}

theorem view_move : view (w.withQueues ((w.queues.put q n none).put q' n' x), g) job
    = if job = n' then (if job = n then (view (w, g) job).set q none else view (w, g) job).set q' x
      else if job = n then (view (w, g) job).set q none else view (w, g) job := by
  have hmid : view (w.withQueues (w.queues.put q n none), g) job
      = if job = n then (view (w, g) job).set q none else view (w, g) job := view_put
  rw [← hmid]
  exact view_put (w := w.withQueues (w.queues.put q n none))

theorem view_note (h : g = some job ↔ s.2 = some job) : view (s.1, g) job = view s job := by
  simp only [view, h]

/-- A rename into a queue that the jobs go through, of a directory from another one or of one that
the command made. -/
theorem takes_move (hs : Custody codec s)
    (hstep : JobStep codec n' k (view s n')
      (view (s.1.withQueues ((s.1.queues.put q n none).put q' n' x), g) n'))
    (hfrom : q = .staging ∧ Touches k .staging n ∨ q ≠ .staging ∧ q ≠ .ledger ∧ n = n')
    (hto : q' ≠ .staging ∧ q' ≠ .ledger) (hnote : ∀ job, job ≠ n' → (g = some job ↔ s.2 = some job))
    (hnotes : k ≠ .publishNext → g = s.2) :
    Takes codec k s (s.1.withQueues ((s.1.queues.put q n none).put q' n' x), g) := by
  have hget : ∀ p m, p = .staging ∨ p = .ledger → ¬ (p = q ∧ m = n) →
      ((s.1.queues.put q n none).put q' n' x).get p m = s.1.queues.get p m := by
    intro p m hp hne
    have hp' : p ≠ q' := by
      rintro rfl
      exact hp.elim hto.1 hto.2
    simp only [Spool.get_put, hp', hne, false_and, if_false]
  refine takes_step (n := n') hs (fun job hjob => ?_) hstep (fun p m hp htouches => ?_)
    (fun job hknown => ?_) hnotes
  · rw [view_move, if_neg hjob, view_note (hnote job hjob)]
    rcases hfrom with ⟨rfl, -⟩ | ⟨-, -, rfl⟩
    · exact ite_self _
    · exact if_neg hjob
  · refine hget p m hp ?_
    rintro ⟨rfl, rfl⟩
    rcases hfrom with ⟨rfl, hmine⟩ | ⟨hstaging, hledger, -⟩
    · exact htouches hmine
    · exact hp.elim hstaging hledger
  · have hne : ¬ (Queue.ledger = q ∧ job = n) := by
      rintro ⟨rfl, -⟩
      exact hfrom.elim (fun h => absurd h.1 (by decide)) fun h => h.2.1 rfl
    rwa [Known, withQueues_queues, hget _ _ (.inr rfl) hne] at hknown

end Moving

namespace Does

variable {codec : Codec} {k : Command} {α β : Type} {P P' E E' R : Noted → Prop}
  {Q Q' : α → Noted → Prop} {p : ExchangeProg α} {i : ExchangeAction} {q : Queue} {n : String}

theorem conseq (h : Does codec k P p Q E) (hP : ∀ s, Custody codec s → P' s → P s)
    (hQ : ∀ a s, Q a s → Q' a s) (hE : ∀ s, E s → E' s) : Does codec k P' p Q' E' :=
  Prog.Triple.conseq h hP hQ hE

theorem done {a : α} (h : ∀ s, P s → Q a s) : Does codec k P (.done a) Q E := Prog.Triple.done h

theorem fail {e : String} (h : ∀ s, P s → E s) : Does codec k P (.fail e) Q E :=
  Prog.Triple.fail h

theorem bind {f : α → ExchangeProg β} {Q' : β → Noted → Prop} (h : Does codec k P p Q E)
    (hf : ∀ a, Does codec k (Q a) (f a) Q' E) : Does codec k P (p >>= f) Q' E :=
  Prog.Triple.bind h hf

theorem act {Q : ExchangeAnswer i → Noted → Prop} (hP : Lasts codec k P)
    (h : ∀ t, Custody codec t → P t → ∀ told, ∃ g,
      Takes codec k t ((exchangePerform t.1 i told).2, g)
        ∧ Q (exchangePerform t.1 i told).1 ((exchangePerform t.1 i told).2, g)) :
    Does codec k P (ExchangeProg.act i) Q E :=
  Prog.Triple.act hP.rely fun t ht hPt r w ⟨told, heffect⟩ => by
    obtain ⟨g, htakes, hQ⟩ := h t ht hPt told
    rw [heffect] at htakes hQ
    exact ⟨g, htakes.1, htakes.2, hQ⟩

theorem idle {Q : ExchangeAnswer i → Noted → Prop} (hi : Confined (Mine k) i)
    (hP : Lasts codec k P) (h : ∀ t, Custody codec t → P t → ∀ told,
      Q (exchangePerform t.1 i told).1 ((exchangePerform t.1 i told).2, t.2)) :
    Does codec k P (ExchangeProg.act i) Q E :=
  act hP fun t ht hPt told => ⟨t.2, takes_idle ht hi told, h t ht hPt told⟩

theorem uses_idle (hp : p.Uses (Confined (Mine k))) (hP : Apart codec k P) :
    Does codec k P p (fun _ => P) P :=
  Prog.Triple.of_uses hp hP.lasts.rely fun t ht hPt i hi r w ⟨told, heffect⟩ => by
    have htakes := takes_idle ht hi told
    have hsame : ∀ q n, ¬ Mine k (q, n) → w.queues.get q n = t.1.queues.get q n := fun q n hn => by
      have hget := get_confined (w := t.1) hi told hn
      rwa [heffect] at hget
    rw [heffect] at htakes
    exact ⟨t.2, htakes.1, htakes.2, hP.idle t (w, t.2) hsame rfl hPt⟩

theorem exists_pre {ι : Type} {P : ι → Noted → Prop} (h : ∀ a, Does codec k (P a) p Q E) :
    Does codec k (fun s => ∃ a, P a s) p Q E :=
  fun s hs ⟨a, ha⟩ => h a s hs ha

theorem and_pre {c : Prop} (h : c → Does codec k P p Q E) :
    Does codec k (fun s => P s ∧ c) p Q E :=
  fun s hs ⟨hP, hc⟩ => h hc s hs hP

/-- What the state tells where the program starts. -/
theorem know {c : Prop} (hc : ∀ s, Custody codec s → P s → c) (h : c → Does codec k P p Q E) :
    Does codec k P p Q E :=
  fun s hs hP => h (hc s hs hP) s hs hP

theorem forM {f : β → ExchangeProg Unit} (h : ∀ b, Does codec k P (f b) (fun _ => P) E) :
    ∀ l : List β, Does codec k P (l.forM f) (fun _ => P) E
  | [] => done fun _ => id
  | b :: l => bind (h b) fun _ => forM h l

/-- What a part that only works in `staging` knows besides. -/
theorem frame (h : Does codec k P p Q E) (hk : k ≠ .publishNext)
    (hp : p.Uses (Confined (Mine k))) (hR : Apart codec k R) :
    Does codec k (fun s => P s ∧ R s) p (fun a s => Q a s ∧ R s) fun s => E s ∧ R s :=
  Prog.Triple.frame h hp hR.lasts.rely fun t w g i r ht hRt hi ⟨told, heffect⟩ hwithin => by
    have hsame : ∀ q n, ¬ Mine k (q, n) → w.queues.get q n = t.1.queues.get q n := fun q n hn => by
      have hget := get_confined (w := t.1) hi told hn
      rwa [heffect] at hget
    exact ⟨hwithin.custody ht, hR.idle t (w, g) hsame (hwithin.notes hk) hRt⟩

/-- A removal within the promise, of something that what is known is not about. -/
theorem removes (hq : q ≠ .staging ∧ q ≠ .ledger) (hp : p.Uses (Removes q n))
    (hP : Lasts codec k P)
    (hstep : ∀ s slot, Custody codec s → P s → Lessens (s.1.queues.get q n) slot →
      JobStep codec n k (view s n) ((view s n).set q slot))
    (hkeep : ∀ s slot, P s → P (s.1.withQueues (s.1.queues.put q n slot), s.2)) :
    Does codec k P p (fun _ => P) P :=
  Prog.Triple.of_uses hp hP.rely fun t ht hPt i hi r w ⟨told, heffect⟩ => by
    refine ⟨t.2, ?_⟩
    obtain rfl : (exchangePerform t.1 i told).2 = w := congrArg Prod.snd heffect
    rcases removes_perform hi told with hsame | ⟨slot, hless, hput⟩
    · rw [hsame]
      have htakes : Takes codec k t t := takes_same ht (fun _ _ _ => rfl) (fun _ _ => id) rfl
      exact ⟨htakes.1, htakes.2, hPt⟩
    · rw [hput]
      have hother : ∀ q' m, q' = .staging ∨ q' = .ledger →
          (t.1.queues.put q n slot).get q' m = t.1.queues.get q' m := by
        intro q' m h
        rw [Spool.get_put, if_neg]
        rintro ⟨rfl, -⟩
        exact h.elim hq.1 hq.2
      have htakes : Takes codec k t (t.1.withQueues (t.1.queues.put q n slot), t.2) := by
        refine takes_step (n := n) ht (fun job hjob => ?_) ?_ (fun q' m h _ => hother q' m h)
          (fun job => ?_) fun _ => rfl
        · exact view_put.trans (if_neg hjob)
        · rw [show view _ n = _ from view_put, if_pos rfl]
          exact hstep t slot ht hPt hless
        · rw [Known, Known, withQueues_queues, hother _ _ (.inr rfl)]
          exact id
      exact ⟨htakes.1, htakes.2, hkeep t slot hPt⟩

section Shell

variable {context : String}

theorem shellIo {r : Except IoError α} (hok : ∀ a, r = .ok a → ∀ s, P s → Q a s)
    (herror : ∀ s, P s → E s) : Does codec k P (shellIo context r) Q E := by
  rcases r with e | a
  · exact fail herror
  · exact done (hok a rfl)

theorem shellText {r : Except String α} (hok : ∀ a, r = .ok a → ∀ s, P s → Q a s)
    (herror : ∀ s, P s → E s) : Does codec k P (shellText context r) Q E := by
  rcases r with e | a
  · exact fail herror
  · exact done (hok a rfl)

theorem ofExcept {r : Except String α} (hok : ∀ a, r = .ok a → ∀ s, P s → Q a s)
    (herror : ∀ s, P s → E s) : Does codec k P (Prog.ofExcept r) Q E := by
  rcases r with e | a
  · exact fail herror
  · exact done (hok a rfl)

theorem check {c : Prop} [Decidable c] {Q : Unit → Noted → Prop} (hok : c → ∀ s, P s → Q () s)
    (herror : ∀ s, P s → E s) : Does codec k P (Prog.check c context) Q E := by
  unfold Prog.check
  split_ifs with h
  · exact done (hok h)
  · exact fail herror

end Shell

end Does

end OnixCore.RadicleCi
