import OnixCore.Lib.Together
import OnixCore.RadicleCi.Custody
import OnixCore.RadicleCi.Proofs.Candidates

/-!
# What the commands promise each other

The exchange seen job by job, and what a step of a command may do there: steps of custody in the
queues that the jobs go through (`JobStep`), and anything in the part of `staging` and the ledger
that belongs to the command alone (`Touches`). `takes_idle` has the actions that do no more than
that; the others are taken one by one.
-/

namespace OnixCore.RadicleCi

/-- The exchange with the publisher's note: the job it replaces. -/
abbrev Noted := Exchange × Option String

def view (s : Noted) (job : String) : JobView where
  incoming := s.1.queues.get .incoming job
  processing := s.1.queues.get .processing job
  outbox := s.1.queues.get .outbox job
  published := s.1.queues.get .published job
  rejected := s.1.queues.get .rejected job
  replacing := s.2 = some job

def JobView.set (v : JobView) : Queue → Option Entry → JobView
  | .incoming, x => { v with incoming := x }
  | .processing, x => { v with processing := x }
  | .outbox, x => { v with outbox := x }
  | .published, x => { v with published := x }
  | .rejected, x => { v with rejected := x }
  | .ledger, _ => v
  | .staging, _ => v

/-- Every job is in order, and no job of the ledger is lost. -/
structure Custody (codec : Codec) (s : Noted) : Prop where
  sound : ∀ job, (view s job).Sound codec job
  ledger : ∀ job, Admission.blake3Digest job = true → Known s.1 job → (view s job).Kept

/-- What in `staging` and the ledger belongs to a command. -/
def Touches : Command → Queue → String → Prop
  | .scan, .staging, n => ∀ job, n ≠ stagedResultName job
  | .scan, .ledger, _ => True
  | .runNext, .staging, n => ∃ job, n = stagedResultName job
  | _, _, _ => False

/-- What a step of a command may do. -/
structure Within (codec : Codec) (k : Command) (s t : Noted) : Prop where
  jobs : ∀ job, view t job = view s job ∨ JobStep codec job k (view s job) (view t job)
  rest : ∀ q n, q = .staging ∨ q = .ledger → ¬ Touches k q n →
    t.1.queues.get q n = s.1.queues.get q n
  notes : k ≠ .publishNext → t.2 = s.2
  custody : Custody codec s → Custody codec t

def Takes (codec : Codec) (k : Command) (s t : Noted) : Prop :=
  Custody codec t ∧ Within codec k s t

section Views

variable {codec : Codec} {k : Command} {s t : Noted} {w : Exchange} {g : Option String}
  {q : Queue} {n job : String} {x : Option Entry}

theorem view_put : view (w.withQueues (w.queues.put q n x), g) job
    = if job = n then (view (w, g) job).set q x else view (w, g) job := by
  split_ifs with h
  · subst h
    cases q <;> simp [view, JobView.set]
  · simp [view, h]

theorem Within.kept (h : Within codec k s t) (hs : Custody codec s) (hkept : (view s job).Kept) :
    (view t job).Kept := by
  rcases h.jobs job with heq | hstep
  · exact heq ▸ hkept
  · exact hstep.kept (hs.sound job) hkept

/-- Steps of custody keep it, where only jobs that are not lost come into the ledger. -/
theorem takes_of_jobs (hs : Custody codec s)
    (hjobs : ∀ job, view t job = view s job ∨ JobStep codec job k (view s job) (view t job))
    (hrest : ∀ q n, q = .staging ∨ q = .ledger → ¬ Touches k q n →
      t.1.queues.get q n = s.1.queues.get q n)
    (hnotes : k ≠ .publishNext → t.2 = s.2)
    (hledger : ∀ job, Admission.blake3Digest job = true → Known t.1 job →
      Known s.1 job ∨ (view t job).Kept) : Takes codec k s t := by
  have hcustody : Custody codec t := by
    constructor
    · intro job
      rcases hjobs job with heq | hstep
      · exact heq ▸ hs.sound job
      · exact hstep.sound (hs.sound job)
    · intro job hjob hknown
      rcases hledger job hjob hknown with hbefore | hkept
      · have hkept := hs.ledger job hjob hbefore
        rcases hjobs job with heq | hstep
        · exact heq ▸ hkept
        · exact hstep.kept (hs.sound job) hkept
      · exact hkept
  exact ⟨hcustody, hjobs, hrest, hnotes, fun _ => hcustody⟩

/-- A step that changes one job, in the queues that the jobs go through. -/
theorem takes_step (hs : Custody codec s) (hother : ∀ job, job ≠ n → view t job = view s job)
    (hstep : JobStep codec n k (view s n) (view t n))
    (hrest : ∀ q m, q = .staging ∨ q = .ledger → ¬ Touches k q m →
      t.1.queues.get q m = s.1.queues.get q m)
    (hledger : ∀ job, Known t.1 job → Known s.1 job)
    (hnotes : k ≠ .publishNext → t.2 = s.2) : Takes codec k s t := by
  refine takes_of_jobs hs (fun job => ?_) hrest hnotes fun job _ h => .inl (hledger job h)
  by_cases hjob : job = n
  · subst hjob
    exact .inr hstep
  · exact .inl (hother job hjob)

/-- A step that changes nothing but what belongs to the command. -/
theorem takes_same (hs : Custody codec s)
    (hsame : ∀ q n, ¬ Touches k q n → t.1.queues.get q n = s.1.queues.get q n)
    (hledger : ∀ job, Admission.blake3Digest job = true → Known t.1 job → Known s.1 job)
    (hnotes : t.2 = s.2) : Takes codec k s t := by
  have hview : ∀ job, view t job = view s job := by
    intro job
    have hfree : ∀ q, q ≠ .staging → q ≠ .ledger → ¬ Touches k q job := by
      intro q hstaging hledger
      cases q <;> first | exact absurd rfl hstaging | exact absurd rfl hledger | cases k <;> exact id
    unfold view
    rw [hsame _ _ (hfree .incoming nofun nofun), hsame _ _ (hfree .processing nofun nofun),
      hsame _ _ (hfree .outbox nofun nofun), hsame _ _ (hfree .published nofun nofun),
      hsame _ _ (hfree .rejected nofun nofun), hnotes]
  exact takes_of_jobs hs (fun job => .inl (hview job)) (fun q n _ => hsame q n) (fun _ => hnotes)
    fun job hjob h => .inl (hledger job hjob h)

end Views

/-- The action changes nothing but what stands at these spots. -/
def Confined (M : Queue × String → Prop) : ExchangeAction → Prop
  | .createDir q name => M (q, name)
  | .createNew p => M p.spot
  | .write p _ => M p.spot
  | .rename source target => M source.spot ∧ M target.spot
  | .unlink p => M p.spot
  | .removeDir q name => M (q, name)
  | .gitArchive _ output => M output.spot
  | _ => True

/-- The part of `staging` where the command is alone. -/
def Mine (k : Command) (spot : Queue × String) : Prop :=
  spot.1 = .staging ∧ Touches k .staging spot.2

section Changes

variable {codec : Codec} {k : Command} {s : Noted} {w : Exchange} {i : ExchangeAction}
  {M : Queue × String → Prop} {q : Queue} {n : String}

/-- What a call leaves alone, the action leaves alone. -/
theorem get_change {x : Except IoError (Spool Queue)}
    (h : ∀ s', x = .ok s' → s'.get q n = w.queues.get q n) :
    (w.change x).2.queues.get q n = w.queues.get q n := by
  rcases x with e | s'
  · rfl
  · exact h s' rfl

theorem get_leave {output : ExchangePath} {file : Option Bytes} (hne : (q, n) ≠ output.spot) :
    (w.leave output file).queues.get q n = w.queues.get q n := by
  unfold Exchange.leave
  split_ifs
  · rfl
  · split
    next h => exact Spool.get_store h hne
    · rfl

theorem get_confined (h : Confined M i) (told : ExchangeAnswer i) (hn : ¬ M (q, n)) :
    (exchangePerform w i told).2.queues.get q n = w.queues.get q n := by
  have hne : ∀ spot, M spot → (q, n) ≠ spot := fun spot hspot heq => hn (heq ▸ hspot)
  cases i with
  | createDir q' name => exact get_change fun _ hok => Spool.get_createDir hok (hne _ h)
  | createNew p => exact get_change fun _ hok => Spool.get_createNew hok (hne _ h)
  | write p bytes => exact get_change fun _ hok => Spool.get_write hok (hne _ h)
  | rename source target =>
    exact get_change fun _ hok => Spool.get_rename hok (hne _ h.1) (hne _ h.2)
  | unlink p => exact get_change fun _ hok => Spool.get_unlink hok (hne _ h)
  | removeDir q' name => exact get_change fun _ hok => Spool.get_removeDir hok (hne _ h)
  | gitArchive oid output => exact get_leave (hne _ h)
  | radComment revisionId message rid searchPath =>
    simp only [exchangePerform]
    split_ifs <;> rfl
  | _ => rfl

theorem takes_idle (hs : Custody codec s) (h : Confined (Mine k) i) (told : ExchangeAnswer i) :
    Takes codec k s ((exchangePerform s.1 i told).2, s.2) := by
  refine takes_same hs (fun q n hn => get_confined h told ?_) (fun job _ hknown => ?_) rfl
  · rintro ⟨hq, htouches⟩
    obtain rfl : q = .staging := hq
    exact hn htouches
  · have hledger : ¬ Mine k (.ledger, job) := fun hmine => Queue.noConfusion hmine.1
    rwa [Known, get_confined h told hledger] at hknown

end Changes

/-! ### Removing a directory -/

/-- The actions that take something away from the directory. -/
def Removes (q : Queue) (n : String) : ExchangeAction → Prop
  | .pathExists _ => True
  | .openDir _ _ => True
  | .unlink p => ∃ f, p = .inside q n f
  | .removeDir q' n' => q' = q ∧ n' = n
  | _ => False

/-- A directory that lost a file or is gone. -/
def Lessens (old new : Option Entry) : Prop :=
  ∃ files, old = some (.dir files)
    ∧ (new = none ∨ ∃ f, new = some (.dir (files.assign f none)))

section Removing

variable {w : Exchange} {q : Queue} {n : String} {i : ExchangeAction}

theorem removes_perform (h : Removes q n i) (told : ExchangeAnswer i) :
    (exchangePerform w i told).2 = w ∨ ∃ slot, Lessens (w.queues.get q n) slot
      ∧ (exchangePerform w i told).2 = w.withQueues (w.queues.put q n slot) := by
  cases i with
  | pathExists p => exact .inl rfl
  | openDir q' n' => exact .inl rfl
  | unlink p =>
    obtain ⟨f, rfl⟩ := h
    rcases hunlink : w.queues.unlink (.inside q n f) with e | s'
    · exact .inl (by simp only [exchangePerform, hunlink, change_error])
    · obtain ⟨files, bytes, hdir, -, rfl⟩ := Spool.unlink_inside_eq_ok hunlink
      refine .inr ⟨_, ⟨files, hdir, .inr ⟨f, rfl⟩⟩, ?_⟩
      simp only [exchangePerform, hunlink, change_ok]
  | removeDir q' n' =>
    obtain ⟨rfl, rfl⟩ := h
    rcases hremove : w.queues.removeDir q' n' with e | s'
    · exact .inl (by simp only [exchangePerform, hremove, change_error])
    · obtain ⟨hdir, rfl⟩ := Spool.removeDir_eq_ok hremove
      refine .inr ⟨none, ⟨∅, hdir, .inl rfl⟩, ?_⟩
      simp only [exchangePerform, hremove, change_ok]
  | _ => exact h.elim

variable (q n) in
theorem uses_unlinkAll : ∀ files, (unlinkAll q n files).Uses (Removes q n)
  | [] => by
    refine Prog.uses_bind (Prog.uses_act.2 ⟨rfl, rfl⟩) fun r => ?_
    split <;> exact Prog.uses_done _
  | file :: files => by
    refine Prog.uses_bind (Prog.uses_act.2 ⟨file, rfl⟩) fun r => ?_
    split
    · exact uses_unlinkAll files
    · exact uses_unlinkAll files
    · exact Prog.uses_done _

variable (q n) in
theorem uses_removeDirAll : (removeDirAll q n).Uses (Removes q n) := by
  refine Prog.uses_bind (Prog.uses_act.2 trivial) fun r => ?_
  split
  · exact uses_unlinkAll q n _
  · exact Prog.uses_done _

theorem uses_shellIo {α : Type} {A : ExchangeAction → Prop} (context : String) :
    ∀ r : Except IoError α, (shellIo context r).Uses A
  | .ok _ => Prog.uses_done _
  | .error _ => Prog.uses_fail _

theorem uses_shellText {α : Type} {A : ExchangeAction → Prop} (context : String) :
    ∀ r : Except String α, (shellText context r).Uses A
  | .ok _ => Prog.uses_done _
  | .error _ => Prog.uses_fail _

variable (q n) in
theorem uses_clearDirectory (context : String) : (clearDirectory q n context).Uses (Removes q n) := by
  refine Prog.uses_bind (Prog.uses_act.2 trivial) fun found => ?_
  split
  · exact Prog.uses_bind (uses_removeDirAll q n) (uses_shellIo context)
  · exact Prog.uses_done _

theorem Removes.confined {M : Queue × String → Prop} (h : Removes q n i) (hM : M (q, n)) :
    Confined M i := by
  cases i with
  | pathExists p => exact trivial
  | openDir q' n' => exact trivial
  | unlink p =>
    obtain ⟨f, rfl⟩ := h
    exact hM
  | removeDir q' n' =>
    obtain ⟨rfl, rfl⟩ := h
    exact hM
  | _ => exact h.elim

end Removing

end OnixCore.RadicleCi
