import OnixCore.Lib.Steps
import OnixCore.RadicleCi.GuardCommand
import OnixCore.RadicleCi.Proofs.Binding

/-!
# When the guard command is atomic

The command swaps the canonical reference before it confirms the swap and before it creates its
receipt. A run is atomic, that is it leaves the reference alone when it fails and leaves a receipt
when it does not, exactly when nothing after a swap that took effect goes wrong
(`guardAtomic_iff_undisturbed`): the reference is read back as it was swapped, and the receipt is
created, written, synced and made read-only.

A run here is any `Runs` of the command: between two of its own steps other writers may do
anything to the references and the files.
-/

namespace OnixCore.RadicleCi

abbrev GuardEvent := Event GuardAction GuardAnswer GuardWorld

/-- The step changed the canonical reference. -/
def ChangesCanonical (e : GuardEvent) : Prop :=
  e.before.refs canonicalTargetRef ≠ e.after.refs canonicalTargetRef

/-- What the change of the canonical reference is followed by. -/
def AfterChange (P : GuardEvent → List GuardEvent → Prop) : List GuardEvent → Prop
  | [] => True
  | e :: later => (ChangesCanonical e → P e later) ∧ AfterChange P later

/-- The step `w` wrote the receipt of the change `e`. -/
def WritesReceiptOf (e w : GuardEvent) : Prop :=
  ∃ (path : String) (receipt : GuardExecutionReceiptV1) (before after : GuardWorld)
    (decision : GuardDecisionV1) (old new : Oid),
    w = ⟨.writeAll path receipt, Except.ok (), before, after⟩
      ∧ receipt.executed = true
      ∧ receipt.report.decision = some decision
      ∧ receipt.observedAfterOid = new.text
      ∧ decision.targetRef = canonicalTargetRef
      ∧ e.before.refs canonicalTargetRef = some old ∧ decision.expectedOldOid = old.text
      ∧ e.after.refs canonicalTargetRef = some new ∧ decision.candidateOid = new.text

/-- What a run of the command may do to the canonical reference. -/
structure GuardAtomic (arguments : List String) (log : List GuardEvent) (left : GuardProg Unit) :
    Prop where
  unchangedOnError : ∀ message, left = .fail message → ∀ e ∈ log, ¬ ChangesCanonical e
  receiptOnChange : AfterChange (fun e later => ∃ w ∈ later, WritesReceiptOf e w) log
  unchangedInPreview : "--execute" ∉ arguments → ∀ e ∈ log, ¬ ChangesCanonical e

/-- Nothing goes wrong in `f`, a step after the change `e`: a reference is read as `e` left it, and
an output file is created, written, synced and made read-only. -/
def GoesWell (e f : GuardEvent) : Prop :=
  match f with
  | ⟨.refnameToId name, answer, _, _⟩ =>
    ∃ oid, answer = Except.ok oid ∧ e.after.refs name = some oid
  | ⟨.createNew _, answer, _, _⟩ => answer = Except.ok ()
  | ⟨.writeAll _ _, answer, _, _⟩ => answer = Except.ok ()
  | ⟨.syncAll _, answer, _, _⟩ => answer = Except.ok ()
  | ⟨.setMode _, answer, _, _⟩ => answer = Except.ok ()
  | _ => True

/-- Nothing goes wrong after a change of the canonical reference. -/
def Undisturbed (log : List GuardEvent) : Prop :=
  AfterChange (fun e later => ∀ f ∈ later, GoesWell e f) log

/-- The actions that leave the references alone: all but the swap. -/
def GuardAction.Quiet : GuardAction → Prop
  | .referenceMatching _ _ _ => False
  | _ => True

theorem refs_of_quiet {w w' : GuardWorld} {i : GuardAction} {r : GuardAnswer i}
    (h : guardPerform w i r = some w') (hi : i.Quiet) : w'.refs = w.refs := by
  unfold guardPerform at h
  split at h
  · split_ifs at h
    cases h
    rfl
  · split_ifs at h
    cases h
    rfl
  · exact absurd hi id
  · split_ifs at h
    cases h
    rfl
  · cases h
    rfl
  · cases h
    rfl

section Quiet

theorem act_quiet {i : GuardAction} (h : i.Quiet) :
    (GuardProg.act i).Uses GuardAction.Quiet := Prog.uses_act.2 h

theorem require_quiet {α : Type} (context : String) :
    ∀ x : Except String α, (require context x).Uses GuardAction.Quiet
  | .ok _ => trivial
  | .error _ => trivial

theorem value_quiet (flags : GuardFlagSet) (name : String) :
    (flags.value name).Uses GuardAction.Quiet := by
  unfold GuardFlagSet.value
  split <;> trivial

theorem openGuardRepository_quiet (path rid : String) :
    (openGuardRepository path rid).Uses GuardAction.Quiet :=
  Prog.uses_bind (act_quiet trivial) fun _ => Prog.uses_bind (require_quiet _ _) fun _ =>
    Prog.uses_bind Prog.uses_check fun _ => trivial

theorem signingDelegates_quiet (candidate : Oid) : ∀ delegates : List String,
    (signingDelegates candidate delegates).Uses GuardAction.Quiet
  | [] => trivial
  | delegate :: rest => by
    unfold signingDelegates
    split
    · exact Prog.uses_bind (act_quiet trivial) fun _ => Prog.uses_bind (require_quiet _ _) fun _ =>
        Prog.uses_bind (signingDelegates_quiet candidate rest) fun _ => trivial
    · trivial

theorem materializeSigningDelegates_quiet (policy : ForgeGuardPolicyV1) (candidate : Oid) :
    (materializeSigningDelegates policy candidate).Uses GuardAction.Quiet :=
  Prog.uses_bind (signingDelegates_quiet candidate _) fun _ => trivial

theorem guardOutputPath_quiet (root output : String) :
    (guardOutputPath root output).Uses GuardAction.Quiet :=
  Prog.uses_bind (act_quiet trivial) fun _ => Prog.uses_bind Prog.uses_check fun _ =>
    Prog.uses_bind Prog.uses_check fun _ => Prog.uses_bind (act_quiet trivial) fun _ =>
      Prog.uses_bind (require_quiet _ _) fun _ => Prog.uses_bind (act_quiet trivial) fun _ =>
        Prog.uses_bind (require_quiet _ _) fun _ =>
          Prog.uses_bind Prog.uses_check fun _ => trivial

theorem writeGuardJson_quiet (path : String) (receipt : GuardExecutionReceiptV1) :
    (writeGuardJson path receipt).Uses GuardAction.Quiet :=
  Prog.uses_bind (act_quiet trivial) fun _ => Prog.uses_bind (require_quiet _ _) fun _ =>
    Prog.uses_bind (act_quiet trivial) fun _ => Prog.uses_bind (require_quiet _ _) fun _ =>
      Prog.uses_bind (act_quiet trivial) fun _ => Prog.uses_bind (require_quiet _ _) fun _ =>
        Prog.uses_bind (act_quiet trivial) fun _ => require_quiet _ _

variable (blake3 : Json → String) (decode : String → Option SignedStatusV1)

theorem materializeLive_quiet (id : String) (policy : ForgeGuardPolicyV1)
    (event : AdmittedEventV1) :
    (materializeLiveGuardObservation blake3 decode id policy event).Uses GuardAction.Quiet := by
  unfold materializeLiveGuardObservation
  split
  · split
    · refine Prog.uses_bind (act_quiet trivial) fun _ => Prog.uses_bind (require_quiet _ _) fun _ =>
        Prog.uses_bind (Prog.uses_ofExcept _) fun statuses => ?_
      split
      · refine Prog.uses_bind (act_quiet trivial) fun _ =>
          Prog.uses_bind (require_quiet _ _) fun _ =>
            Prog.uses_bind (act_quiet trivial) fun _ => ?_
        simp only []
        split_ifs
        · exact Prog.uses_bind (act_quiet trivial) fun _ =>
            Prog.uses_bind (require_quiet _ _) fun _ =>
              Prog.uses_bind (materializeSigningDelegates_quiet policy _) fun _ => trivial
        · exact Prog.uses_bind trivial fun _ =>
            Prog.uses_bind (materializeSigningDelegates_quiet policy _) fun _ => trivial
      · trivial
    · trivial
  · trivial

end Quiet

section Observation

/-- A run that returns, of a sequence: the first part returns, and the second runs on its value. -/
theorem runs_bind_done {α β : Type} {x : GuardProg α} {f : α → GuardProg β} {b : β}
    {log : List GuardEvent} (h : Prog.Runs guardPerform (x >>= f) log (.done b)) :
    ∃ a log₁ log₂, log = log₁ ++ log₂ ∧ Prog.Runs guardPerform x log₁ (.done a)
      ∧ Prog.Runs guardPerform (f a) log₂ (.done b) := by
  rcases (Prog.runs_bind (by trivial)).1 h with ⟨e, -, he⟩ | h
  · cases he
  · exact h

/-- The log shows the action with this answer. -/
def Answered (log : List GuardEvent) (i : GuardAction) (r : GuardAnswer i) : Prop :=
  ∃ s s', guardPerform s i r = some s' ∧ ⟨i, r, s, s'⟩ ∈ log

theorem Answered.mono {log log' : List GuardEvent} {i : GuardAction} {r : GuardAnswer i}
    (h : Answered log i r) (hsub : log ⊆ log') : Answered log' i r := by
  obtain ⟨s, s', hp, hmem⟩ := h
  exact ⟨s, s', hp, hsub hmem⟩

theorem runs_act_done {i : GuardAction} {r : GuardAnswer i} {log : List GuardEvent}
    (h : Prog.Runs guardPerform (GuardProg.act i) log (.done r)) : Answered log i r := by
  obtain ⟨r', s, s', rest, hp, rfl, hrest⟩ := (Prog.runs_call (by trivial)).1 h
  obtain ⟨-, hr⟩ := Prog.runs_done.1 hrest
  cases hr
  exact ⟨s, s', hp, List.mem_cons_self⟩

theorem require_done {α : Type} {context : String} {x : Except String α} {a : α}
    {log : List GuardEvent} (h : Prog.Runs guardPerform (require context x) log (.done a)) :
    x = .ok a := by
  cases x with
  | ok b =>
    obtain ⟨-, hb⟩ := Prog.runs_done.1 h
    cases hb
    rfl
  | error e =>
    obtain ⟨-, hb⟩ := Prog.runs_fail.1 h
    cases hb

/-- What the observation was read from. A candidate that was observed to descend from the current
canonical commit is another one. -/
theorem materializeLive_observed {blake3 : Json → String}
    {decode : String → Option SignedStatusV1} {id : String} {policy : ForgeGuardPolicyV1}
    {event : AdmittedEventV1} {live : LiveGuardObservationV1} {log : List GuardEvent}
    (h : Prog.Runs guardPerform (materializeLiveGuardObservation blake3 decode id policy event) log
      (.done live)) :
    ∃ patchId revisionId revision current,
      Answered log (.loadRevision patchId revisionId) (.ok revision)
      ∧ Answered log (.refnameToId policy.targetRef) (.ok current)
      ∧ live.baseOid = revision.base.text ∧ live.candidateOid = revision.head.text
      ∧ live.currentCanonicalOid = current.text
      ∧ (live.candidateIsDescendant = true → revision.head ≠ current) := by
  unfold materializeLiveGuardObservation at h
  split at h
  case h_2 => exact absurd (Prog.runs_fail.1 h).2 (by simp)
  case h_1 patchId _ =>
  split at h
  case h_2 => exact absurd (Prog.runs_fail.1 h).2 (by simp)
  case h_1 revisionId _ =>
  obtain ⟨_, _, _, rfl, hload, h₁⟩ := runs_bind_done h
  obtain ⟨revision, _, _, rfl, hreq, h₂⟩ := runs_bind_done h₁
  obtain rfl := require_done hreq
  obtain ⟨statuses, _, _, rfl, -, h₃⟩ := runs_bind_done h₂
  split at h₃
  case h_2 => exact absurd (Prog.runs_fail.1 h₃).2 (by simp)
  obtain ⟨_, _, _, rfl, hread, h₄⟩ := runs_bind_done h₃
  obtain ⟨current, _, _, rfl, hreq', h₅⟩ := runs_bind_done h₄
  obtain rfl := require_done hreq'
  obtain ⟨present, _, _, rfl, -, h₆⟩ := runs_bind_done h₅
  refine ⟨patchId, revisionId, revision, current, (runs_act_done hload).mono fun e he => by simp [he],
    (runs_act_done hread).mono fun e he => by simp [he], ?_⟩
  simp only [] at h₆
  split_ifs at h₆
  · obtain ⟨answer, _, _, -, hask, h₇⟩ := runs_bind_done h₆
    obtain ⟨descends, _, _, -, hreq'', h₈⟩ := runs_bind_done h₇
    obtain ⟨_, _, _, -, -, h₉⟩ := runs_bind_done h₈
    obtain ⟨-, hlive⟩ := Prog.runs_done.1 h₉
    cases hlive
    refine ⟨rfl, rfl, rfl, fun hd heq => ?_⟩
    simp only [] at hd
    obtain ⟨s, s', hp, -⟩ := runs_act_done hask
    rw [require_done hreq'', hd] at hp
    simp [guardPerform, heq] at hp
  · obtain ⟨_, _, _, -, hf, h₇⟩ := runs_bind_done h₆
    obtain ⟨_, _, _, -, -, h₈⟩ := runs_bind_done h₇
    obtain ⟨-, hlive⟩ := Prog.runs_done.1 h₈
    obtain ⟨-, hf⟩ := Prog.runs_done.1 hf
    cases hlive
    cases hf
    exact ⟨rfl, rfl, rfl, fun hd => by simp at hd⟩

end Observation

section Atomicity

variable {P : GuardEvent → List GuardEvent → Prop}

/-- Of every run of the program to its end: it is atomic exactly when it is undisturbed. -/
def AtomicIff (p : GuardProg Unit) : Prop :=
  ∀ (log : List GuardEvent) (left : GuardProg Unit), Prog.Runs guardPerform p log left →
    left.ended →
      (((∀ message, left = .fail message → ∀ e ∈ log, ¬ ChangesCanonical e)
        ∧ AfterChange (fun e later => ∃ w ∈ later, WritesReceiptOf e w) log) ↔ Undisturbed log)

/-- Steps that leave the references alone change nothing canonical. -/
theorem not_changes_of_quiet {α : Type} {p q : GuardProg α} {log : List GuardEvent}
    (h : Prog.Runs guardPerform p log q) (hp : p.Uses GuardAction.Quiet) :
    ∀ e ∈ log, ¬ ChangesCanonical e := fun e he hc =>
  hc (by rw [refs_of_quiet (h.performs e he) (h.uses hp e he)])

theorem afterChange_append {log₁ log₂ : List GuardEvent} (h : ∀ e ∈ log₁, ¬ ChangesCanonical e) :
    AfterChange P (log₁ ++ log₂) ↔ AfterChange P log₂ := by
  induction log₁ with
  | nil => rfl
  | cons e log₁ ih =>
    rw [List.forall_mem_cons] at h
    rw [List.cons_append, AfterChange, ih h.2]
    exact ⟨fun hu => hu.2, fun hu => ⟨fun hc => absurd hc h.1, hu⟩⟩

theorem afterChange_of_not_changes {log : List GuardEvent} (h : ∀ e ∈ log, ¬ ChangesCanonical e) :
    AfterChange P log := by
  have happ : AfterChange P (log ++ []) ↔ AfterChange P [] := afterChange_append h
  rw [← List.append_nil log]
  exact happ.2 trivial

theorem atomicIff_of_quiet {p : GuardProg Unit} (h : p.Uses GuardAction.Quiet) : AtomicIff p := by
  intro log left hrun _
  have hno := not_changes_of_quiet hrun h
  exact ⟨fun _ => afterChange_of_not_changes hno,
    fun _ => ⟨fun _ _ => hno, afterChange_of_not_changes hno⟩⟩

/-- Quiet steps come before: whether a run is atomic is decided by what follows them. -/
theorem atomicIff_bind {α : Type} {x : GuardProg α} {f : α → GuardProg Unit}
    (hx : x.Uses GuardAction.Quiet)
    (hf : ∀ a log, Prog.Runs guardPerform x log (.done a) → AtomicIff (f a)) :
    AtomicIff (x >>= f) := by
  intro log left hrun hend
  rcases (Prog.runs_bind hend).1 hrun with ⟨e, he, rfl⟩ | ⟨a, log₁, log₂, rfl, h₁, h₂⟩
  · have hno := not_changes_of_quiet he hx
    exact ⟨fun _ => afterChange_of_not_changes hno,
      fun _ => ⟨fun _ _ => hno, afterChange_of_not_changes hno⟩⟩
  · have hno := not_changes_of_quiet h₁ hx
    rw [Undisturbed, afterChange_append hno, afterChange_append hno, ← Undisturbed,
      ← hf a log₁ h₁ log₂ left h₂ hend]
    simp only [List.forall_mem_append]
    exact and_congr_left' (forall₂_congr fun _ _ => and_iff_right hno)

/-- After the change `e`: the program returns, nothing having gone wrong and a receipt of `e` being
written, or it fails, something having gone wrong. -/
def Concludes (e : GuardEvent) (written : Prop) (p : GuardProg Unit) : Prop :=
  ∀ (log : List GuardEvent) (left : GuardProg Unit), Prog.Runs guardPerform p log left →
    left.ended →
      (left = .done () ∧ (∀ f ∈ log, GoesWell e f) ∧ (written ∨ ∃ w ∈ log, WritesReceiptOf e w))
      ∨ (∃ message, left = .fail message) ∧ ∃ f ∈ log, ¬ GoesWell e f

theorem concludes_done {e : GuardEvent} {written : Prop} (h : written) :
    Concludes e written (.done ()) := by
  intro log left hrun _
  obtain ⟨rfl, rfl⟩ := Prog.runs_done.1 hrun
  exact .inl ⟨rfl, by simp, .inl h⟩

theorem Concludes.mono {e : GuardEvent} {a b : Prop} {p : GuardProg Unit} (h : Concludes e a p)
    (hab : a → b) : Concludes e b p := fun log left hrun hend =>
  (h log left hrun hend).imp_left fun ⟨hl, hall, hw⟩ => ⟨hl, hall, hw.imp_left hab⟩

/-- One more step after the change goes well, or it goes wrong and the program fails. -/
theorem concludes_call {e : GuardEvent} {written : Prop} {i : GuardAction}
    {k : GuardAnswer i → GuardProg Unit}
    (h : ∀ r s s', guardPerform s i r = some s' →
      (GoesWell e ⟨i, r, s, s'⟩ ∧ Concludes e (written ∨ WritesReceiptOf e ⟨i, r, s, s'⟩) (k r))
        ∨ (¬ GoesWell e ⟨i, r, s, s'⟩ ∧ ∃ message, k r = .fail message)) :
    Concludes e written (.call i k) := by
  intro log left hrun hend
  obtain ⟨r, s, s', rest, hp, rfl, hrest⟩ := (Prog.runs_call hend).1 hrun
  rcases h r s s' hp with ⟨hwell, hk⟩ | ⟨hbad, message, hk⟩
  · rcases hk rest left hrest hend with ⟨rfl, hall, hw⟩ | ⟨hfail, f, hf, hbad⟩
    · refine .inl ⟨rfl, List.forall_mem_cons.2 ⟨hwell, hall⟩, ?_⟩
      rcases hw with (hw | hw) | ⟨w, hw, hwrites⟩
      · exact .inl hw
      · exact .inr ⟨_, List.mem_cons_self, hw⟩
      · exact .inr ⟨w, List.mem_cons_of_mem _ hw, hwrites⟩
    · exact .inr ⟨hfail, f, List.mem_cons_of_mem _ hf, hbad⟩
  · rw [hk] at hrest
    obtain ⟨rfl, rfl⟩ := Prog.runs_fail.1 hrest
    exact .inr ⟨⟨message, rfl⟩, _, List.mem_cons_self, hbad⟩

/-- Creating, writing, syncing and closing off the receipt, once the change `e` is made. -/
theorem writeGuardJson_concludes {e : GuardEvent} {path : String}
    {receipt : GuardExecutionReceiptV1}
    (h : ∀ before after,
      WritesReceiptOf e ⟨.writeAll path receipt, Except.ok (), before, after⟩) :
    Concludes e False (writeGuardJson path receipt) := by
  refine concludes_call fun r s s' _ => ?_
  rcases r with message | u
  · exact .inr ⟨by simp [GoesWell], _, rfl⟩
  refine .inl ⟨rfl, concludes_call fun r s s' _ => ?_⟩
  rcases r with message | u
  · exact .inr ⟨by simp [GoesWell], _, rfl⟩
  refine .inl ⟨rfl, concludes_call fun r s s' _ => ?_⟩
  rcases r with message | u
  · exact .inr ⟨by simp [GoesWell], _, rfl⟩
  refine .inl ⟨rfl, concludes_call fun r s s' _ => ?_⟩
  rcases r with message | u
  · exact .inr ⟨by simp [GoesWell], _, rfl⟩
  · exact .inl ⟨rfl, concludes_done (.inl (.inl (.inr (h _ _))))⟩

variable {blake3 : Json → String} {decision : GuardDecisionV1} {report : GuardReportV1}
  {output : String}

/-- What follows the swap: reading the reference back, and writing the receipt. -/
def confirmation (blake3 : Json → String) (decision : GuardDecisionV1) (report : GuardReportV1)
    (output : String) : GuardProg Unit := do
  let after ← require "failed to verify canonical ref after compare-and-swap"
    (← GuardProg.act (.refnameToId decision.targetRef))
  Prog.check (after.text = decision.candidateOid)
    "canonical ref does not equal the admitted candidate after compare-and-swap"
  writeGuardJson output (guardExecutionReceipt blake3 true report after.text)

theorem confirmation_quiet :
    (confirmation blake3 decision report output).Uses GuardAction.Quiet :=
  Prog.uses_bind (act_quiet trivial) fun _ => Prog.uses_bind (require_quiet _ _) fun _ =>
    Prog.uses_bind Prog.uses_check fun _ => writeGuardJson_quiet _ _

theorem confirmation_concludes {e : GuardEvent} {old new : Oid}
    (htarget : decision.targetRef = canonicalTargetRef)
    (hreport : report.decision = some decision)
    (hold : e.before.refs canonicalTargetRef = some old) (hexp : decision.expectedOldOid = old.text)
    (hnew : e.after.refs canonicalTargetRef = some new) (hcand : decision.candidateOid = new.text) :
    Concludes e False (confirmation blake3 decision report output) := by
  refine concludes_call fun r s s' _ => ?_
  rcases r with message | after
  · exact .inr ⟨by simp [GoesWell], _, rfl⟩
  by_cases hafter : after.text = decision.candidateOid
  · have hsame : after = new := Oid.ext (hafter.trans hcand)
    refine .inl ⟨⟨after, rfl, by rw [htarget, hnew, hsame]⟩, ?_⟩
    show Concludes e _ (Prog.check (after.text = decision.candidateOid) _ >>= fun _ =>
      writeGuardJson output (guardExecutionReceipt blake3 true report after.text))
    rw [Prog.check_pos hafter, Prog.done_bind]
    refine (writeGuardJson_concludes fun before after' => ?_).mono fun h => absurd h id
    exact ⟨_, _, _, _, decision, old, new, rfl, rfl, hreport, congrArg Oid.text hsame, htarget, hold,
      hexp, hnew, hcand⟩
  · refine .inr ⟨?_, "canonical ref does not equal the admitted candidate after compare-and-swap",
      ?_⟩
    case refine_2 =>
      show (Prog.check (after.text = decision.candidateOid) _ >>= fun _ =>
        writeGuardJson output (guardExecutionReceipt blake3 true report after.text)) = _
      rw [Prog.check_neg hafter, Prog.fail_bind]
    rintro ⟨oid, hoid, hread⟩
    cases hoid
    rw [htarget, hnew] at hread
    exact hafter (by rw [hcand, Option.some.inj hread])

/-- The swap and what follows it. -/
theorem swap_atomicIff {observed candidate : Oid} (hne : candidate ≠ observed)
    (htarget : decision.targetRef = canonicalTargetRef)
    (hreport : report.decision = some decision) (hexp : decision.expectedOldOid = observed.text)
    (hcand : decision.candidateOid = candidate.text) (context : String) :
    AtomicIff (.call (.referenceMatching decision.targetRef candidate observed) fun r =>
      require context r >>= fun _ => confirmation blake3 decision report output) := by
  intro log left hrun hend
  obtain ⟨r, s, s', rest, hp, rfl, hrest⟩ := (Prog.runs_call hend).1 hrun
  rcases r with message | u
  · obtain ⟨rfl, rfl⟩ := Prog.runs_fail.1 hrest
    have hno : ∀ e ∈ [(⟨.referenceMatching decision.targetRef candidate observed,
        Except.error message, s, s'⟩ : GuardEvent)], ¬ ChangesCanonical e := by
      cases hp
      simp [ChangesCanonical]
    exact ⟨fun _ => afterChange_of_not_changes hno,
      fun _ => ⟨fun _ _ => hno, afterChange_of_not_changes hno⟩⟩
  · simp only [guardPerform] at hp
    split_ifs at hp with hheld
    cases hp
    have hbefore : s.refs canonicalTargetRef = some observed := htarget ▸ hheld
    have hafter : (s.setRef decision.targetRef candidate).refs canonicalTargetRef
        = some candidate := by simp [GuardWorld.setRef, htarget]
    have hchange : ChangesCanonical ⟨.referenceMatching decision.targetRef candidate observed,
        Except.ok u, s, s.setRef decision.targetRef candidate⟩ := by
      intro heq
      rw [hbefore, hafter] at heq
      exact hne (Option.some.inj heq).symm
    have hno := not_changes_of_quiet hrest confirmation_quiet
    rcases confirmation_concludes (e := ⟨.referenceMatching decision.targetRef candidate observed,
        Except.ok u, s, s.setRef decision.targetRef candidate⟩) htarget hreport hbefore hexp hafter
        hcand rest left hrest hend with ⟨rfl, hall, hw⟩ | ⟨⟨message, rfl⟩, f, hf, hbad⟩
    · refine ⟨fun _ => ⟨fun _ => hall, afterChange_of_not_changes hno⟩, fun _ => ⟨?_, ?_⟩⟩
      · rintro m ⟨⟩
      · exact ⟨fun _ => hw.resolve_left id, afterChange_of_not_changes hno⟩
    · refine ⟨fun ha => absurd hchange (ha.1 message rfl _ List.mem_cons_self), fun hu => ?_⟩
      exact absurd (hu.1 hchange f hf) hbad

theorem execute_atomicIff {head current : Oid} (hne : head ≠ current)
    (htarget : decision.targetRef = canonicalTargetRef)
    (hreport : report.decision = some decision) (hexp : decision.expectedOldOid = current.text)
    (hcand : decision.candidateOid = head.text) :
    AtomicIff (executeGuardCompareAndSwap decision >>= fun observedAfterOid =>
      writeGuardJson output (guardExecutionReceipt blake3 true report observedAfterOid)) := by
  simp only [executeGuardCompareAndSwap, hcand, Oid.parse_text, Prog.bind_assoc,
    Prog.pure_eq_done, Prog.done_bind]
  refine atomicIff_bind (act_quiet trivial) fun _ _ _ => ?_
  refine atomicIff_bind (require_quiet _ _) fun observed _ _ => ?_
  by_cases hobs : observed.text = decision.expectedOldOid
  case neg =>
    rw [Prog.check_neg hobs]
    exact atomicIff_of_quiet trivial
  rw [Prog.check_pos hobs, Prog.done_bind]
  refine atomicIff_bind (act_quiet trivial) fun _ _ _ => ?_
  refine atomicIff_bind Prog.uses_check fun _ _ _ => ?_
  have hold : head ≠ observed := fun h => hne (h.trans (Oid.ext (hobs.trans hexp)))
  have hswap : AtomicIff (.call (.referenceMatching decision.targetRef head observed) fun r =>
      require "atomic canonical compare-and-swap failed" r >>= fun _ =>
        confirmation blake3 decision report output) :=
    swap_atomicIff hold htarget hreport hobs.symm hcand _
  simp only [confirmation, hcand] at hswap
  exact hswap

end Atomicity

section Command

variable {blake3 : Json → String} {decode : String → Option SignedStatusV1}

theorem guardCommand_atomicIff (arguments : List String) :
    AtomicIff (guardCommand blake3 decode arguments) := by
  unfold guardCommand
  refine atomicIff_bind (Prog.uses_ofExcept _) fun flags _ _ => ?_
  refine atomicIff_bind (value_quiet _ _) fun _ _ _ => ?_
  refine atomicIff_bind (act_quiet trivial) fun _ _ _ => ?_
  refine atomicIff_bind (require_quiet _ _) fun policy _ _ => ?_
  refine atomicIff_bind (value_quiet _ _) fun _ _ _ => ?_
  refine atomicIff_bind (act_quiet trivial) fun _ _ _ => ?_
  refine atomicIff_bind (require_quiet _ _) fun event _ _ => ?_
  refine atomicIff_bind (value_quiet _ _) fun _ _ _ => ?_
  refine atomicIff_bind (act_quiet trivial) fun _ _ _ => ?_
  refine atomicIff_bind (require_quiet _ _) fun result _ _ => ?_
  refine atomicIff_bind (value_quiet _ _) fun _ _ _ => ?_
  refine atomicIff_bind (act_quiet trivial) fun _ _ _ => ?_
  refine atomicIff_bind (require_quiet _ _) fun valence _ _ => ?_
  refine atomicIff_bind (value_quiet _ _) fun _ _ _ => ?_
  refine atomicIff_bind (openGuardRepository_quiet _ _) fun repository _ _ => ?_
  refine atomicIff_bind (materializeLive_quiet _ _ _ _ _) fun live _ hlive => ?_
  refine atomicIff_bind (value_quiet _ _) fun _ _ _ => ?_
  refine atomicIff_bind (value_quiet _ _) fun _ _ _ => ?_
  refine atomicIff_bind (guardOutputPath_quiet _ _) fun output _ _ => ?_
  split
  · exact atomicIff_of_quiet (Prog.uses_bind (writeGuardJson_quiet _ _) fun _ => trivial)
  case isFalse hadmitted =>
  split
  case h_2 => exact atomicIff_of_quiet trivial
  case h_1 decision hdecision =>
  simp only []
  split_ifs with hexec
  · simp only [Bool.not_eq_true', Bool.not_eq_false] at hadmitted
    have hholds := admitted_iff.1 hadmitted
    have hd := decision_of_admitted hadmitted
    rw [hdecision, Option.some.injEq] at hd
    obtain ⟨_, _, revision, current, -, -, -, hhead, hcurrent, hdescends⟩ :=
      materializeLive_observed hlive
    have hne := hdescends hholds.livePatch.2.2.2.2.2.2.2.2.2.2.2.2.1
    rw [hexec]
    exact execute_atomicIff hne (by rw [hd]; exact hholds.policyHolds.2.2.2.2.2.2.2.2.2.2.2.2.2.2.2.1)
      hdecision (by rw [hd]; exact hcurrent) (by rw [hd]; exact hhead)
  · exact atomicIff_of_quiet
      (Prog.uses_bind trivial fun _ => writeGuardJson_quiet _ _)

theorem flagName_eq_some {argument name : String} (h : flagName argument = some name) :
    argument = "--" ++ name := by
  obtain ⟨t, ht, rfl⟩ := Option.map_eq_some_iff.1 h
  have happ := Text.stripPrefix_eq_some.1 ht
  simp [← String.toList_inj, ← happ]

/-- The switch is set only where it stands among the arguments. -/
theorem parseFlags_execute : ∀ {arguments : List String} {flags parsed : GuardFlagSet},
    parseFlags flags arguments = .ok parsed → parsed.execute = true →
      flags.execute = true ∨ "--execute" ∈ arguments
  | [], flags, parsed, h, hx => by
    cases h
    exact .inl hx
  | argument :: rest, flags, parsed, h, hx => by
    unfold parseFlags at h
    split at h
    case h_1 => cases h
    case h_2 name hname =>
    split_ifs at h with hexec hset
    · have hswitch : argument = "--execute" := by rw [flagName_eq_some hname, hexec]; rfl
      exact .inr (hswitch ▸ List.mem_cons_self)
    · split at h
      case h_1 => cases h
      case h_2 =>
      split_ifs at h
      rcases parseFlags_execute h hx with h | h
      · exact .inl h
      · exact .inr (List.mem_cons_of_mem _ (List.mem_cons_of_mem _ h))

theorem parse_execute {arguments : List String} {flags : GuardFlagSet}
    (h : GuardFlagSet.parse arguments = .ok flags) (hx : flags.execute = true) :
    "--execute" ∈ arguments := by
  obtain ⟨parsed, hparsed, h⟩ := bind_eq_ok.1 h
  have hflags : parsed = flags := by
    simp only [] at h
    split at h
    · cases h
    · split at h
      · cases h
      · exact pure_eq_ok.1 h
  subst hflags
  exact (parseFlags_execute hparsed hx).resolve_left (by simp)

/-- Without `--execute` among its arguments the command leaves the references alone. -/
theorem guardCommand_preview {arguments : List String} (h : "--execute" ∉ arguments) :
    (guardCommand blake3 decode arguments).Uses GuardAction.Quiet := by
  unfold guardCommand
  rcases hp : GuardFlagSet.parse arguments with message | flags
  · trivial
  have hexec : flags.execute = false := by
    rw [← Bool.not_eq_true]
    exact fun hx => h (parse_execute hp hx)
  rw [Prog.ofExcept_ok, Prog.done_bind]
  refine Prog.uses_bind (value_quiet _ _) fun _ => Prog.uses_bind (act_quiet trivial) fun _ =>
    Prog.uses_bind (require_quiet _ _) fun policy => Prog.uses_bind (value_quiet _ _) fun _ =>
    Prog.uses_bind (act_quiet trivial) fun _ => Prog.uses_bind (require_quiet _ _) fun event =>
    Prog.uses_bind (value_quiet _ _) fun _ => Prog.uses_bind (act_quiet trivial) fun _ =>
    Prog.uses_bind (require_quiet _ _) fun result => Prog.uses_bind (value_quiet _ _) fun _ =>
    Prog.uses_bind (act_quiet trivial) fun _ => Prog.uses_bind (require_quiet _ _) fun valence =>
    Prog.uses_bind (value_quiet _ _) fun _ =>
    Prog.uses_bind (openGuardRepository_quiet _ _) fun repository =>
    Prog.uses_bind (materializeLive_quiet _ _ _ _ _) fun live =>
    Prog.uses_bind (value_quiet _ _) fun _ => Prog.uses_bind (value_quiet _ _) fun _ =>
    Prog.uses_bind (guardOutputPath_quiet _ _) fun output => ?_
  split
  · exact Prog.uses_bind (writeGuardJson_quiet _ _) fun _ => trivial
  · split
    · simp only [hexec, Bool.false_eq_true, if_false]
      exact Prog.uses_bind trivial fun _ => writeGuardJson_quiet _ _
    · trivial

/-- The command is atomic exactly when nothing goes wrong after it swapped the reference. -/
theorem guardAtomic_iff_undisturbed {arguments : List String} {log : List GuardEvent}
    {left : GuardProg Unit}
    (h : Prog.Runs guardPerform (guardCommand blake3 decode arguments) log left)
    (hend : left.ended) : GuardAtomic arguments log left ↔ Undisturbed log := by
  rw [← guardCommand_atomicIff arguments log left h hend]
  constructor
  · rintro ⟨herror, hreceipt, -⟩
    exact ⟨herror, hreceipt⟩
  · rintro ⟨herror, hreceipt⟩
    exact ⟨herror, hreceipt, fun hx => not_changes_of_quiet h (guardCommand_preview hx)⟩

end Command

section Promotion

def promotedHeadOid : Oid := ⟨promotedHead, promotedStatus_holds.2.2.2.2.2.2.2.2.1⟩

def promotedBaseOid : Oid := ⟨promotedBase, by decide +kernel⟩

/-- The line of JSON that states the promotion's status, in pieces. -/
def promotedStatusPieces : List String :=
  ["\x7b\"schema\":\"onix.radicle-ci-status.v1\",\"status_blake3\":\"", promotedStatusBlake3,
    "\",\"policy_blake3\":\"", promotedCiPolicy, "\",\"rid\":\"", promotedRid,
    "\",\"patch_id\":\"", promotedPatch, "\",\"revision_id\":\"", promotedRevision,
    "\",\"check_name\":\"onix/ci/v1\",\"job_id\":\"", promotedJob,
    "\",\"object_oid\":\"", promotedHead, "\",\"disposition\":\"succeeded\"",
    ",\"artifact_blake3\":\"", promotedArtifact, "\",\"event_blake3\":\"",
    promotedEventBlake3, "\",\"result_blake3\":\"", promotedResultBlake3,
    "\",\"claim_scope\":\"", statusClaimScope, "\",\"non_claim\":\"", statusNonClaim,
    "\"\x7d"]

def promotedStatusLine : Text := promotedStatusPieces.flatMap String.toList

def recordedDecode (line : String) : Option SignedStatusV1 :=
  if line.toList = promotedStatusLine then some promotedLive.status else none

def promotedComment : String :=
  String.ofList (statusMarker.toList ++ '\n' :: (promotedStatusLine ++ ['\n']))

def promotedPatchRevision : Revision where
  base := promotedBaseOid
  head := promotedHeadOid
  comments := [(promotedBot, promotedComment)]
  reviews := promotedDelegates.map fun delegate => (delegate, some .accept)

def promotedArguments : List String :=
  ["--repository", "/repository", "--policy", "policy.json", "--event", "event.json",
    "--result", "result.json", "--receipt", "receipt.json", "--output-root", "/output",
    "--output", "guard.json", "--execute"]

theorem all_toList {p : Char → Bool} (t : Text) (h : t.all p = true) :
    (String.ofList t).toList.all p = true := by
  rw [String.toList_ofList]
  exact h

theorem promotedStatusLine_printable : ∀ c ∈ promotedStatusLine, ' ' ≤ c := by
  have h : ∀ piece ∈ promotedStatusPieces, piece.toList.all (' ' ≤ ·) = true := by
    have hscope : statusNonClaim.toList.all (' ' ≤ ·) = true := by
      unfold statusNonClaim
      simp only [String.toList_append, List.all_append, Bool.and_eq_true]
      exact ⟨all_toList _ (by decide +kernel), all_toList _ (by decide +kernel)⟩
    unfold promotedStatusPieces
    -- a literal is the list of its characters, which is checked faster than its bytes
    repeat' first
      | with_reducible exact hscope
      | exact all_toList _ (by decide +kernel)
      | refine List.forall_mem_cons.2 ⟨?_, ?_⟩
      | exact List.forall_mem_nil _
  intro c hc
  obtain ⟨piece, hp, hc⟩ := List.mem_flatMap.1 hc
  exact of_decide_eq_true (List.all_eq_true.1 (h piece hp) c hc)

theorem promotedStatusLine_ne_nil : promotedStatusLine ≠ [] := fun h => by
  have hfirst := List.flatMap_eq_nil_iff.1 h _ List.mem_cons_self
  exact absurd (String.toList_eq_nil_iff.1 hfirst) (by decide)

theorem lines_promotedComment :
    Text.lines promotedComment.toList = [statusMarker.toList, promotedStatusLine] := by
  have hfeed : '\n' ∉ promotedStatusLine := fun h =>
    absurd (promotedStatusLine_printable _ h) (by decide)
  have hreturn : promotedStatusLine.getLast? ≠ some '\r' := fun h =>
    absurd (promotedStatusLine_printable _ (List.mem_of_getLast? h)) (by decide)
  rw [promotedComment, String.toList_ofList,
    Text.lines_line _ (by decide +kernel) (by decide +kernel), Text.lines_line [] hfeed hreturn,
    Text.lines, Text.splitInclusive, List.map_nil]

theorem parse_of_lines {blake3 : Json → String} {decode : String → Option SignedStatusV1}
    {body : String} {json : Text} {rest : List Text} {status : SignedStatusV1}
    (hlines : Text.lines body.toList = statusMarker.toList :: json :: rest) (hjson : json ≠ [])
    (hmarker : statusMarker.toList ∉ rest) (hdecode : decode (String.ofList json) = some status)
    (hvalid : validateSignedStatus blake3 status = .ok ()) :
    parseSignedStatus blake3 decode body = .ok status := by
  simp only [parseSignedStatus, hlines]
  rw [if_neg (not_not.2 rfl), if_neg (not_or.2 ⟨hjson, hmarker⟩), hdecode]
  simp [hvalid, bind, Except.bind, pure, Except.pure]

theorem parse_promotedComment :
    parseSignedStatus recordedBlake3 recordedDecode promotedComment = .ok promotedLive.status := by
  have hdecode : recordedDecode (String.ofList promotedStatusLine) = some promotedLive.status := by
    rw [recordedDecode, if_pos String.toList_ofList]
  have hvalid : validateSignedStatus recordedBlake3 promotedLive.status = .ok () := by
    rw [validateSignedStatus, if_pos promotedStatus_holds]
  exact parse_of_lines lines_promotedComment promotedStatusLine_ne_nil List.not_mem_nil hdecode
    hvalid

/-- The program can return the value. -/
def Returns {α : Type} (x : GuardProg α) (a : α) : Prop :=
  ∃ log, Prog.Runs guardPerform x log (.done a)

theorem returns_done {α : Type} (a : α) : Returns (.done a) a := ⟨[], .stop _⟩

theorem returns_act {i : GuardAction} {r : GuardAnswer i} {s s' : GuardWorld}
    (h : guardPerform s i r = some s') : Returns (GuardProg.act i) r :=
  ⟨_, .act h (.stop _)⟩

theorem Returns.bind {α β : Type} {x : GuardProg α} {f : α → GuardProg β} {a : α} {b : β}
    (hx : Returns x a) (hf : Returns (f a) b) : Returns (x >>= f) b := by
  obtain ⟨log₁, h₁⟩ := hx
  obtain ⟨log₂, h₂⟩ := hf
  exact ⟨_, h₁.bind h₂⟩

/-- The program can change the canonical reference, and end as `left` after the steps `rest`. -/
def SwapsThen (p : GuardProg Unit) (rest : List GuardEvent) (left : GuardProg Unit) : Prop :=
  ∃ log, (∃ e ∈ log, ChangesCanonical e) ∧ Prog.Runs guardPerform p (log ++ rest) left

/-- The program can come to `q`, on steps that show the action with this answer. -/
def ComesTo (p q : GuardProg Unit) (i : GuardAction) (r : GuardAnswer i) : Prop :=
  ∃ log, Answered log i r ∧ Prog.Runs guardPerform p log q

theorem Returns.comesTo {α : Type} {x : GuardProg α} {f : α → GuardProg Unit} {a : α}
    {q : GuardProg Unit} {i : GuardAction} {r : GuardAnswer i} (hx : Returns x a)
    (hf : ComesTo (f a) q i r) : ComesTo (x >>= f) q i r := by
  obtain ⟨log₁, h₁⟩ := hx
  obtain ⟨log₂, ha, h₂⟩ := hf
  exact ⟨log₁ ++ log₂, ha.mono (List.subset_append_right _ _), h₁.bind h₂⟩

theorem Returns.swapsThen {α : Type} {x : GuardProg α} {f : α → GuardProg Unit} {a : α}
    {rest : List GuardEvent} {left : GuardProg Unit} (hx : Returns x a)
    (hf : SwapsThen (f a) rest left) : SwapsThen (x >>= f) rest left := by
  obtain ⟨log₁, h₁⟩ := hx
  obtain ⟨log₂, ⟨e, he, hc⟩, h₂⟩ := hf
  refine ⟨log₁ ++ log₂, ⟨e, List.mem_append_right _ he, hc⟩, ?_⟩
  rw [List.append_assoc]
  exact h₁.bind h₂

theorem execute_swapsThen {blake3 : Json → String} {decision : GuardDecisionV1}
    {report : GuardReportV1} {output : String} {head current : Oid} {w : GuardWorld}
    {rest : List GuardEvent} {left : GuardProg Unit} (hne : head ≠ current)
    (htarget : decision.targetRef = canonicalTargetRef)
    (hexp : decision.expectedOldOid = current.text) (hcand : decision.candidateOid = head.text)
    (hw : w.refs canonicalTargetRef = some current) (hrest : Prog.Runs guardPerform
      (writeGuardJson output (guardExecutionReceipt blake3 true report head.text)) rest left) :
    SwapsThen (executeGuardCompareAndSwap decision >>= fun observedAfterOid =>
      writeGuardJson output (guardExecutionReceipt blake3 true report observedAfterOid))
      rest left := by
  rw [← htarget] at hw
  let w' := w.setRef decision.targetRef head
  have hw' : w'.refs decision.targetRef = some head := by simp [w', GuardWorld.setRef]
  simp only [executeGuardCompareAndSwap, hcand, hexp, Oid.parse_text, Prog.bind_assoc,
    Prog.pure_eq_done, Prog.done_bind]
  refine (returns_act (i := .refnameToId decision.targetRef) (r := .ok current)
    (show guardPerform w _ _ = some w by simp [guardPerform, hw])).swapsThen ?_
  refine (returns_done current).swapsThen ?_
  rw [Prog.check_pos rfl, Prog.done_bind]
  refine (returns_act (i := .findCommit head) (r := true) (s := w) rfl).swapsThen ?_
  rw [Prog.check_pos rfl, Prog.done_bind]
  refine ⟨[⟨.referenceMatching decision.targetRef head current, Except.ok (), w, w'⟩,
    ⟨.refnameToId decision.targetRef, Except.ok head, w', w'⟩],
    ⟨_, List.mem_cons_self, fun heq => ?_⟩, ?_⟩
  · rw [← htarget, hw, hw'] at heq
    exact hne (Option.some.inj heq).symm
  · refine .act (by simp [guardPerform, hw, w']) (.act (by simp [guardPerform, hw']) ?_)
    show Prog.Runs guardPerform (Prog.check (head.text = head.text) _ >>= fun _ =>
      writeGuardJson output (guardExecutionReceipt blake3 true report head.text)) rest left
    rw [Prog.check_pos rfl]
    exact hrest

/-- The canonical reference is at the promotion's base, and the output file may be there. -/
def promotedWorld (output : Option OutputFile) : GuardWorld where
  refs := fun name => if name = canonicalTargetRef then some promotedBaseOid else none
  outputs := fun path => if path = "/output/guard.json" then output else none

theorem matchingStatuses_promoted : matchingStatuses recordedBlake3 recordedDecode promotedPolicy
    promotedEvent promotedPatchRevision.comments = .ok [(promotedBot, promotedLive.status)] := by
  have hstart : startsWith statusMarker promotedComment = true := by
    rw [startsWith, promotedComment, String.toList_ofList]
    exact decide_eq_true (List.prefix_append _ _)
  have hskip : ¬ (promotedBot ≠ promotedPolicy.botDid
      ∨ (!startsWith statusMarker promotedComment) = true) := by
    rw [hstart]
    simp [promotedPolicy]
  rw [promotedPatchRevision, matchingStatuses, if_neg hskip, parse_promotedComment]
  simp [matchingStatuses, promotedLive, promotedEvent, bind, Except.bind, pure, Except.pure]

theorem promotedHeadOid_ne : promotedHeadOid ≠ promotedBaseOid := fun h =>
  absurd (congrArg Oid.text h) (by decide)

theorem sortDedup_promoted : sortDedup promotedDelegates = promotedDelegates := by
  rw [sortDedup, promotedDelegates_sorted]
  decide +kernel

theorem signing_promoted (output : Option OutputFile) : ∀ delegates ⊆ promotedDelegates,
    Returns (signingDelegates promotedHeadOid delegates) delegates
  | [], _ => returns_done _
  | delegate :: rest, h => by
    have hstrip : ∀ d ∈ promotedDelegates,
        (Text.stripPrefix "did:key:".toList d.toList).isSome = true := by decide +kernel
    obtain ⟨nodeId, hnode⟩ := Option.isSome_iff_exists.1 (hstrip _ (h List.mem_cons_self))
    have ih := signing_promoted output rest fun d hd => h (List.mem_cons_of_mem _ hd)
    unfold signingDelegates
    rw [hnode]
    refine (returns_act (i := .loadSignedRefs (String.ofList nodeId))
      (r := .ok (some ⟨.parent, some promotedHeadOid⟩)) (s := promotedWorld output) rfl).bind ?_
    refine (returns_done (some (SignedRefs.mk .parent (some promotedHeadOid)))).bind (ih.bind ?_)
    simpa using returns_done (delegate :: rest)

theorem materializeLive_promoted (output : Option OutputFile) :
    Returns (materializeLiveGuardObservation recordedBlake3 recordedDecode promotedRid
      promotedPolicy promotedEvent) promotedLive := by
  have happroving : (promotedPatchRevision.reviews.filterMap fun review =>
      if review.2 = some .accept ∧ review.1 ∈ promotedPolicy.delegates then some review.1 else none)
        = promotedDelegates := by decide +kernel
  refine (returns_act (i := .loadRevision promotedPatch promotedRevision)
    (r := .ok promotedPatchRevision) (s := promotedWorld output) rfl).bind ?_
  refine (returns_done promotedPatchRevision).bind ?_
  rw [matchingStatuses_promoted]
  simp only [Prog.ofExcept_ok, Prog.done_bind, happroving, sortDedup_promoted]
  refine (returns_act (i := .refnameToId canonicalTargetRef) (r := .ok promotedBaseOid)
    (show guardPerform (promotedWorld output) _ _ = some (promotedWorld output) by
      simp [guardPerform, promotedWorld])).bind ?_
  refine (returns_done promotedBaseOid).bind ?_
  refine (returns_act (i := .findCommit promotedHeadOid) (r := true) (s := promotedWorld output)
    rfl).bind ?_
  simp only [if_true]
  refine (returns_act (i := .graphDescendantOf promotedHeadOid promotedBaseOid) (r := .ok true)
    (show guardPerform (promotedWorld output) _ _ = some (promotedWorld output) by
      simp [guardPerform, promotedHeadOid_ne])).bind ?_
  refine (returns_done true).bind (Returns.bind (a := promotedDelegates) ?_ (returns_done _))
  refine (signing_promoted output promotedDelegates (List.Subset.refl _)).bind ?_
  rw [sortDedup_promoted]
  exact returns_done _

/-- The receipt of the promotion's execution. -/
def promotedExecution : GuardExecutionReceiptV1 :=
  guardExecutionReceipt recordedBlake3 true
    (evaluateCanonicalGuard recordedBlake3 promotedPolicy promotedEvent promotedResult
      (promotedReceipt promotedJob promotedReceiptBlake3) promotedLive) promotedHead

theorem parse_promotedArguments : ∃ flags, GuardFlagSet.parse promotedArguments = .ok flags
    ∧ flags.execute = true
    ∧ requiredFlags.map flags.values.lookup = [some "/repository", some "policy.json",
      some "event.json", some "result.json", some "receipt.json", some "/output",
      some "guard.json"] := by
  have h : (GuardFlagSet.parse promotedArguments).toOption.map (fun flags =>
      (flags.execute, requiredFlags.map flags.values.lookup)) = some (true, [some "/repository",
        some "policy.json", some "event.json", some "result.json", some "receipt.json",
        some "/output", some "guard.json"]) := by decide +kernel
  rcases hp : GuardFlagSet.parse promotedArguments with message | flags
  · rw [hp] at h
    cases h
  · rw [hp] at h
    obtain ⟨hexec, hvalues⟩ := Prod.mk.inj (Option.some.inj h)
    exact ⟨flags, rfl, hexec, hvalues⟩

theorem returns_value {flags : GuardFlagSet} {name value : String}
    (h : flags.values.lookup name = some value) : Returns (flags.value name) value := by
  rw [GuardFlagSet.value, h]
  exact returns_done value

theorem guardOutputPath_promoted (w : GuardWorld) :
    Returns (guardOutputPath "/output" "guard.json") "/output/guard.json" := by
  have hplain : plainRelative "guard.json" = true := by decide
  unfold guardOutputPath
  refine (returns_act (i := .isDir "/output") (r := true) (s := w) rfl).bind ?_
  rw [Prog.check_pos rfl, Prog.done_bind, Prog.check_pos hplain, Prog.done_bind]
  refine (returns_act (i := .canonicalize "/output") (r := .ok "/output") (s := w) rfl).bind ?_
  refine (returns_done "/output").bind ?_
  refine (returns_act (i := .canonicalizeParent "/output" "guard.json") (r := .ok "/output")
    (s := w) rfl).bind ?_
  refine (returns_done "/output").bind ?_
  rw [Prog.check_pos rfl, Prog.done_bind]
  exact returns_done _

theorem materializeLive_comesTo (output : Option OutputFile)
    {f : LiveGuardObservationV1 → GuardProg Unit} {q : GuardProg Unit}
    (hf : ∃ log, Prog.Runs guardPerform (f promotedLive) log q) :
    ComesTo (materializeLiveGuardObservation recordedBlake3 recordedDecode promotedRid
      promotedPolicy promotedEvent >>= f) q (.refnameToId canonicalTargetRef)
      (.ok promotedBaseOid) := by
  obtain ⟨log₁, h₁⟩ := materializeLive_promoted output
  obtain ⟨log₂, h₂⟩ := hf
  obtain ⟨_, _, _, current, -, hobserved, -, -, hcurrent, -⟩ := materializeLive_observed h₁
  have hbase : current = promotedBaseOid := Oid.ext hcurrent.symm
  subst hbase
  exact ⟨log₁ ++ log₂, hobserved.mono (List.subset_append_left _ _), h₁.bind h₂⟩

def promotedReport : GuardReportV1 :=
  evaluateCanonicalGuard recordedBlake3 promotedPolicy promotedEvent promotedResult
    (promotedReceipt promotedJob promotedReceiptBlake3) promotedLive

def promotedDecision : GuardDecisionV1 :=
  guardDecision recordedBlake3 promotedPolicy promotedEvent
    (promotedReceipt promotedJob promotedReceiptBlake3) promotedLive
    (recordedBlake3 promotedEvent.toJson) (recordedBlake3 promotedResult.toJson)

/-- What is left of the promotion's run when the guard has admitted. -/
def promotedExecutionLeft : GuardProg Unit :=
  executeGuardCompareAndSwap promotedDecision >>= fun observedAfterOid =>
    writeGuardJson "/output/guard.json"
      (guardExecutionReceipt recordedBlake3 true promotedReport observedAfterOid)

/-- The promotion's run observes the reference, and comes to the execution. -/
theorem promoted_comesTo (output : Option OutputFile) :
    ComesTo (guardCommand recordedBlake3 recordedDecode promotedArguments) promotedExecutionLeft
      (.refnameToId canonicalTargetRef) (.ok promotedBaseOid) := by
  obtain ⟨flags, hflags, hexec, hvalues⟩ := parse_promotedArguments
  simp only [requiredFlags, List.map_cons, List.map_nil, List.cons.injEq, and_true] at hvalues
  obtain ⟨hrepository, hpolicy, hevent, hresult, hreceipt, hroot, houtput⟩ := hvalues
  have hadmitted := promoted_admitted promotedReceipt_digest
  have hdecision := decision_of_admitted hadmitted
  let w := promotedWorld output
  unfold guardCommand
  rw [hflags, Prog.ofExcept_ok, Prog.done_bind]
  refine (returns_value hpolicy).comesTo ?_
  refine (returns_act (i := .readPolicy "policy.json") (r := .ok promotedPolicy) (s := w)
    rfl).comesTo ((returns_done promotedPolicy).comesTo ?_)
  refine (returns_value hevent).comesTo ?_
  refine (returns_act (i := .readEvent "event.json") (r := .ok promotedEvent) (s := w)
    rfl).comesTo ((returns_done promotedEvent).comesTo ?_)
  refine (returns_value hresult).comesTo ?_
  refine (returns_act (i := .readResult "result.json") (r := .ok promotedResult) (s := w)
    rfl).comesTo ((returns_done promotedResult).comesTo ?_)
  refine (returns_value hreceipt).comesTo ?_
  refine (returns_act (i := .readReceipt "receipt.json")
    (r := .ok (promotedReceipt promotedJob promotedReceiptBlake3)) (s := w) rfl).comesTo
    ((returns_done (promotedReceipt promotedJob promotedReceiptBlake3)).comesTo ?_)
  refine (returns_value hrepository).comesTo ?_
  refine Returns.comesTo (a := promotedRid) ?_ ?_
  · refine (returns_act (i := .openRepository "/repository" promotedRid) (r := .ok promotedRid)
      (s := w) rfl).bind ((returns_done promotedRid).bind ?_)
    rw [Prog.check_pos (show promotedRid = promotedPolicy.rid from rfl), Prog.done_bind]
    exact returns_done _
  refine materializeLive_comesTo output ?_
  obtain ⟨log₁, h₁⟩ := returns_value hroot
  obtain ⟨log₂, h₂⟩ := returns_value houtput
  obtain ⟨log₃, h₃⟩ := guardOutputPath_promoted w
  refine ⟨log₁ ++ (log₂ ++ (log₃ ++ [])), h₁.bind (h₂.bind (h₃.bind ?_))⟩
  simp only [hadmitted, Bool.not_true, Bool.false_eq_true, if_false, hdecision, hexec, if_true]
  exact .stop _

/-- The promotion's run swaps the reference, and then writes its receipt as well as it can. -/
theorem promoted_swapsThen (output : Option OutputFile) {rest : List GuardEvent}
    {left : GuardProg Unit} (hrest : Prog.Runs guardPerform
      (writeGuardJson "/output/guard.json" promotedExecution) rest left) :
    SwapsThen (guardCommand recordedBlake3 recordedDecode promotedArguments) rest left := by
  have href : (promotedWorld output).refs canonicalTargetRef = some promotedBaseOid := by
    simp [promotedWorld]
  obtain ⟨log₁, -, h₁⟩ := promoted_comesTo output
  obtain ⟨log₂, ⟨e, he, hc⟩, h₂⟩ : SwapsThen promotedExecutionLeft rest left :=
    execute_swapsThen promotedHeadOid_ne rfl rfl rfl href hrest
  refine ⟨log₁ ++ log₂, ⟨e, List.mem_append_right _ he, hc⟩, ?_⟩
  rw [List.append_assoc]
  exact h₁.trans h₂

/-- With a file of the output's name already there, the command swaps and then fails. -/
theorem existingOutput_swapped : ∃ log message,
    Prog.Runs guardPerform (guardCommand recordedBlake3 recordedDecode promotedArguments) log
      (.fail message)
    ∧ ∃ e ∈ log, ChangesCanonical e := by
  have hrest : Prog.Runs guardPerform (writeGuardJson "/output/guard.json" promotedExecution)
      [⟨.createNew "/output/guard.json", Except.error "File exists (os error 17)",
        promotedWorld (some .unwritten), promotedWorld (some .unwritten)⟩]
      (.fail ("failed to create guard output" ++ ": " ++ "File exists (os error 17)")) :=
    .act rfl (.stop _)
  obtain ⟨log, ⟨e, he, hc⟩, hrun⟩ := promoted_swapsThen (some .unwritten) hrest
  exact ⟨_, _, hrun, e, List.mem_append_left _ he, hc⟩

theorem freshOutput_atomic : ∃ log,
    Prog.Runs guardPerform (guardCommand recordedBlake3 recordedDecode promotedArguments) log
      (.done ())
    ∧ (GuardAtomic promotedArguments log (.done ()) ↔ Undisturbed log) := by
  let opened := (promotedWorld none).setOutput "/output/guard.json" .unwritten
  let written := opened.setOutput "/output/guard.json" (.written promotedExecution)
  have hrest : Prog.Runs guardPerform (writeGuardJson "/output/guard.json" promotedExecution)
      [⟨.createNew "/output/guard.json", Except.ok (), promotedWorld none, opened⟩,
        ⟨.writeAll "/output/guard.json" promotedExecution, Except.ok (), opened, written⟩,
        ⟨.syncAll "/output/guard.json", Except.ok (), written, written⟩,
        ⟨.setMode "/output/guard.json", Except.ok (), written, written⟩] (.done ()) :=
    .act (by simp [guardPerform, promotedWorld, opened]) (.act rfl (.act rfl (.act rfl (.stop _))))
  obtain ⟨log, -, hrun⟩ := promoted_swapsThen none hrest
  exact ⟨_, hrun, guardAtomic_iff_undisturbed hrun trivial⟩

end Promotion

end OnixCore.RadicleCi
