import OnixCore.RadicleCi.Proofs.GuardAtomic

/-!
# What a swap replaces

On every timeline of a guard run, with other guards and other writers at work between its steps,
the run changes the references in one way only: it sets the canonical reference to the candidate
it admitted, at an instant when the reference is what the run observed, what the receipt names as
predecessor, and what the revision is based on (`swap_admitted`).

The swap compares values. A writer that moved the reference away and back again after the run
observed it is not noticed (`returnedRef_swapped`).
-/

namespace OnixCore.RadicleCi

abbrev GuardMoment := Moment GuardAction GuardAnswer GuardWorld

def ChangesRefs (e : GuardEvent) : Prop := e.before.refs ≠ e.after.refs

/-- The step `e` replaced the base of the revision, which the run had, by then, observed and
admitted as predecessor, by the revision's head, which it had admitted as candidate. -/
def AdmittedSwap (blake3 : Json → String) (revision : Revision) (earlier : List GuardEvent)
    (e : GuardEvent) : Prop :=
  ∃ policyPath eventPath resultPath receiptPath patchId revisionId policy event result valence
    live decision,
    Answered earlier (.readPolicy policyPath) (.ok policy)
    ∧ Answered earlier (.readEvent eventPath) (.ok event)
    ∧ Answered earlier (.readResult resultPath) (.ok result)
    ∧ Answered earlier (.readReceipt receiptPath) (.ok valence)
    ∧ Answered earlier (.loadRevision patchId revisionId) (.ok revision)
    ∧ Answered earlier (.refnameToId canonicalTargetRef) (.ok revision.base)
    ∧ (evaluateCanonicalGuard blake3 policy event result valence live).decision = some decision
    ∧ decision.expectedOldOid = revision.base.text
    ∧ valence.currentCanonicalOid = revision.base.text
    ∧ decision.candidateOid = revision.head.text
    ∧ e.before.refs canonicalTargetRef = some revision.base
    ∧ e.after = e.before.setRef canonicalTargetRef revision.head

section Swaps

variable {G : List GuardEvent → GuardEvent → Prop} {seen : List GuardEvent}

/-- Every step of the program that changes the references is good, after what was seen before. -/
def SwapsAs (G : List GuardEvent → GuardEvent → Prop) (seen : List GuardEvent)
    (p : GuardProg Unit) : Prop :=
  ∀ log q, Prog.Runs guardPerform p log q → ∀ earlier e later, log = earlier ++ e :: later →
    ChangesRefs e → G (seen ++ earlier) e

theorem not_changesRefs {α : Type} {p q : GuardProg α} {log : List GuardEvent}
    (h : Prog.Runs guardPerform p log q) (hp : p.Uses GuardAction.Quiet) :
    ∀ e ∈ log, ¬ ChangesRefs e := fun e he hc =>
  hc (refs_of_quiet (h.performs e he) (h.uses hp e he)).symm

theorem swapsAs_of_quiet {p : GuardProg Unit} (hp : p.Uses GuardAction.Quiet) :
    SwapsAs G seen p := by
  rintro log q hrun earlier e later rfl hc
  exact absurd hc (not_changesRefs hrun hp e (List.mem_append_right _ List.mem_cons_self))

theorem swapsAs_bind {α : Type} {x : GuardProg α} {f : α → GuardProg Unit}
    (hx : x.Uses GuardAction.Quiet)
    (hf : ∀ a log, Prog.Runs guardPerform x log (.done a) → SwapsAs G (seen ++ log) (f a)) :
    SwapsAs G seen (x >>= f) := by
  rintro log q hrun earlier e later hlog hc
  rcases Prog.runs_bind_inv hrun with ⟨x', h⟩ | ⟨a, log₁, log₂, rfl, h₁, h₂⟩
  · have hmem : e ∈ log := hlog ▸ List.mem_append_right _ List.mem_cons_self
    exact absurd hc (not_changesRefs h hx e hmem)
  -- The step is not among those of the first part, so these all come before it.
  have hno : e ∉ log₁ := fun he => not_changesRefs h₁ hx e he hc
  rcases List.append_eq_append_iff.1 hlog with ⟨mid, rfl, hmid⟩ | ⟨mid, rfl, hmid⟩
  · rw [← List.append_assoc]
    exact hf a log₁ h₁ log₂ q h₂ mid e later hmid hc
  · cases mid with
    | nil =>
      rw [List.append_nil] at h₁
      have := hf a earlier h₁ log₂ q h₂ [] e later hmid.symm hc
      rwa [List.append_nil] at this
    | cons m mid =>
      cases (List.cons.inj hmid).1
      exact absurd (List.mem_append_right _ List.mem_cons_self) hno

/-- A swap, with nothing after it that changes the references. -/
theorem swapsAs_swap {name : String} {oid current : Oid} {k : Except String Unit → GuardProg Unit}
    (hk : ∀ r, (k r).Uses GuardAction.Quiet)
    (h : ∀ e : GuardEvent, e.before.refs name = some current →
      e.after = e.before.setRef name oid → G seen e) :
    SwapsAs G seen (.call (.referenceMatching name oid current) k) := by
  rintro log q hrun earlier e later hlog hc
  cases hrun with
  | stop => exact absurd hlog (by simp)
  | @act _ _ r s s' _ _ hp rest =>
  cases earlier with
  | nil =>
    rw [List.append_nil]
    obtain ⟨rfl, rfl⟩ := List.cons.inj hlog
    rcases r with message | u
    · cases hp
      exact absurd rfl hc
    · simp only [guardPerform, Option.ite_none_right_eq_some, Option.some.injEq] at hp
      exact h _ hp.1 hp.2.symm
  | cons m earlier =>
    obtain ⟨-, rfl⟩ := List.cons.inj hlog
    exact absurd hc (not_changesRefs rest (hk _) e
      (List.mem_append_right _ List.mem_cons_self))

/-- The execution swaps the reference only from what the decision expects. -/
theorem execute_swapsAs {blake3 : Json → String} {decision : GuardDecisionV1}
    {report : GuardReportV1} {output : String} {head current : Oid}
    (htarget : decision.targetRef = canonicalTargetRef)
    (hexp : decision.expectedOldOid = current.text) (hcand : decision.candidateOid = head.text)
    (h : ∀ log, ∀ e : GuardEvent, e.before.refs canonicalTargetRef = some current →
      e.after = e.before.setRef canonicalTargetRef head → G (seen ++ log) e) :
    SwapsAs G seen (executeGuardCompareAndSwap decision >>= fun observedAfterOid =>
      writeGuardJson output (guardExecutionReceipt blake3 true report observedAfterOid)) := by
  simp only [executeGuardCompareAndSwap, hcand, Oid.parse_text, Prog.bind_assoc,
    Prog.pure_eq_done, Prog.done_bind]
  refine swapsAs_bind (act_quiet trivial) fun _ l₁ _ => ?_
  refine swapsAs_bind (require_quiet _ _) fun observed l₂ _ => ?_
  by_cases hobs : observed.text = decision.expectedOldOid
  case neg =>
    rw [Prog.check_neg hobs]
    exact swapsAs_of_quiet trivial
  have hsame : observed = current := Oid.ext (hobs.trans hexp)
  subst hsame
  rw [Prog.check_pos hobs, Prog.done_bind]
  refine swapsAs_bind (act_quiet trivial) fun _ l₃ _ => ?_
  refine swapsAs_bind Prog.uses_check fun _ l₄ _ => ?_
  refine swapsAs_swap (fun r => ?_) fun e hbefore hafter => ?_
  · exact Prog.uses_bind trivial fun _ => Prog.uses_bind (require_quiet _ _) fun _ =>
      Prog.uses_bind (act_quiet trivial) fun _ => Prog.uses_bind (require_quiet _ _) fun _ =>
        Prog.uses_bind Prog.uses_check fun _ => writeGuardJson_quiet _ _
  · rw [htarget] at hbefore hafter
    rw [List.append_assoc, List.append_assoc, List.append_assoc]
    exact h _ e hbefore hafter

end Swaps

section Command

variable {blake3 : Json → String} {decode : String → Option SignedStatusV1}

theorem guardCommand_swapsAs (arguments : List String) :
    SwapsAs (fun earlier e => ∃ revision, AdmittedSwap blake3 revision earlier e) []
      (guardCommand blake3 decode arguments) := by
  unfold guardCommand
  refine swapsAs_bind (Prog.uses_ofExcept _) fun flags l₁ _ => ?_
  refine swapsAs_bind (value_quiet _ _) fun policyPath l₂ _ => ?_
  refine swapsAs_bind (act_quiet trivial) fun _ l₃ hpolicy => ?_
  refine swapsAs_bind (require_quiet _ _) fun policy l₄ hreq₁ => ?_
  obtain rfl := require_done hreq₁
  refine swapsAs_bind (value_quiet _ _) fun eventPath l₅ _ => ?_
  refine swapsAs_bind (act_quiet trivial) fun _ l₆ hevent => ?_
  refine swapsAs_bind (require_quiet _ _) fun event l₇ hreq₂ => ?_
  obtain rfl := require_done hreq₂
  refine swapsAs_bind (value_quiet _ _) fun resultPath l₈ _ => ?_
  refine swapsAs_bind (act_quiet trivial) fun _ l₉ hresult => ?_
  refine swapsAs_bind (require_quiet _ _) fun result l₁₀ hreq₃ => ?_
  obtain rfl := require_done hreq₃
  refine swapsAs_bind (value_quiet _ _) fun receiptPath l₁₁ _ => ?_
  refine swapsAs_bind (act_quiet trivial) fun _ l₁₂ hvalence => ?_
  refine swapsAs_bind (require_quiet _ _) fun valence l₁₃ hreq₄ => ?_
  obtain rfl := require_done hreq₄
  refine swapsAs_bind (value_quiet _ _) fun _ l₁₄ _ => ?_
  refine swapsAs_bind (openGuardRepository_quiet _ _) fun repository l₁₅ _ => ?_
  refine swapsAs_bind (materializeLive_quiet _ _ _ _ _) fun live l₁₆ hlive => ?_
  refine swapsAs_bind (value_quiet _ _) fun _ l₁₇ _ => ?_
  refine swapsAs_bind (value_quiet _ _) fun _ l₁₈ _ => ?_
  refine swapsAs_bind (guardOutputPath_quiet _ _) fun output l₁₉ _ => ?_
  split
  · exact swapsAs_of_quiet (Prog.uses_bind (writeGuardJson_quiet _ _) fun _ => trivial)
  case isFalse hadmitted =>
  split
  case h_2 => exact swapsAs_of_quiet trivial
  case h_1 decision hdecision =>
  simp only []
  split_ifs with hexec
  case neg =>
    exact swapsAs_of_quiet (Prog.uses_bind trivial fun _ => writeGuardJson_quiet _ _)
  simp only [Bool.not_eq_true', Bool.not_eq_false] at hadmitted
  have hold := admitted_iff.1 hadmitted
  have hd := decision_of_admitted hadmitted
  rw [hdecision, Option.some.injEq] at hd
  obtain ⟨-, -, -, -, -, -, -, -, hreceipt, -, hbased, -⟩ := hold.livePatch
  obtain ⟨patchId, revisionId, revision, current, hrevision, hobserved, hbase, hhead, hcurrent, -⟩ :=
    materializeLive_observed hlive
  have htarget : policy.targetRef = canonicalTargetRef :=
    hold.policyHolds.2.2.2.2.2.2.2.2.2.2.2.2.2.2.2.1
  have hsame : current = revision.base := Oid.ext (by rw [← hcurrent, ← hbase, hbased])
  subst hsame
  rw [htarget] at hobserved
  rw [hexec]
  refine execute_swapsAs (by rw [hd]; exact htarget) (by rw [hd]; exact hcurrent)
    (by rw [hd]; exact hhead) fun log e hbefore hafter => ?_
  refine ⟨revision, policyPath, eventPath, resultPath, receiptPath, patchId, revisionId, policy,
    event, result, valence, live, decision, ?_⟩
  refine ⟨(runs_act_done hpolicy).mono ?_, (runs_act_done hevent).mono ?_,
    (runs_act_done hresult).mono ?_, (runs_act_done hvalence).mono ?_, hrevision.mono ?_,
    hobserved.mono ?_, hdecision, ?_, ?_, ?_, hbefore, hafter⟩
  iterate 6
    · intro x hx
      simp [hx]
  · rw [hd]
    exact hcurrent
  · rw [← hreceipt, hcurrent]
  · rw [hd]
    exact hhead

/-- However others act in between: a guard run changes the references only by an admitted swap, so
it replaces no value that they wrote unless it is the admitted predecessor. -/
theorem swap_admitted {arguments : List String} {w v : GuardWorld}
    {moments earlier later : List GuardMoment} {e : GuardEvent} {left : GuardProg Unit}
    (h : Timeline guardPerform (guardCommand blake3 decode arguments) w moments left v)
    (hm : moments = earlier ++ .own e :: later) (hc : ChangesRefs e) :
    ∃ revision, AdmittedSwap blake3 revision (ownEvents earlier) e
      ∧ ∀ a b, Moment.other a b ∈ earlier → b.refs canonicalTargetRef ≠ some revision.base →
        e.before.refs canonicalTargetRef ≠ b.refs canonicalTargetRef := by
  have hown : ownEvents moments = ownEvents earlier ++ e :: ownEvents later := by
    rw [hm, ownEvents_append, ownEvents]
  obtain ⟨revision, hswap⟩ := guardCommand_swapsAs arguments _ _ h.runs _ _ _ hown hc
  refine ⟨revision, hswap, fun a b _ hother heq => hother ?_⟩
  obtain ⟨-, -, -, -, -, -, -, -, -, -, -, -, -, -, -, -, -, -, -, -, -, -, hbefore, -⟩ := hswap
  rw [← heq, hbefore]

end Command

section Promotion

/-- The execution, up to its swap, with nobody else at work. -/
theorem execute_timeline {w : GuardWorld} {f : String → GuardProg Unit}
    {decision : GuardDecisionV1} {head current : Oid}
    (hexp : decision.expectedOldOid = current.text) (hcand : decision.candidateOid = head.text)
    (hw : w.refs decision.targetRef = some current) :
    ∃ left, Timeline guardPerform (executeGuardCompareAndSwap decision >>= f) w
      [.own ⟨.refnameToId decision.targetRef, Except.ok current, w, w⟩,
        .own ⟨.findCommit head, true, w, w⟩,
        .own ⟨.referenceMatching decision.targetRef head current, Except.ok (), w,
          w.setRef decision.targetRef head⟩] left (w.setRef decision.targetRef head) := by
  simp only [executeGuardCompareAndSwap, hcand, hexp, Oid.parse_text, Prog.bind_assoc,
    Prog.pure_eq_done, Prog.done_bind, GuardProg.act, Prog.act_bind, Prog.call_bind]
  have hread : guardPerform w (.refnameToId decision.targetRef) (.ok current) = some w := by
    simp [guardPerform, hw]
  have hset : guardPerform w (.referenceMatching decision.targetRef head current) (.ok ())
      = some (w.setRef decision.targetRef head) := by
    simp [guardPerform, hw]
  apply Exists.intro
  apply Timeline.own hread
  simp only [require, Prog.done_bind, Prog.check_pos]
  apply Timeline.own rfl
  rw [Prog.check_pos rfl, Prog.done_bind]
  exact .own hset (.stop _ _)

/-- The promotion's run and its swap, while another writer sets the reference to the candidate and
back. -/
theorem promoted_timeline : ∃ (b a v₁ : GuardWorld) (m₁ : List GuardMoment)
    (left : GuardProg Unit),
    b.refs canonicalTargetRef = some promotedBaseOid
    ∧ a.refs canonicalTargetRef = some promotedHeadOid
    ∧ Answered (ownEvents m₁) (.refnameToId canonicalTargetRef) (.ok promotedBaseOid)
    ∧ Timeline guardPerform (guardCommand recordedBlake3 recordedDecode promotedArguments) b
      ((m₁ ++ [.other v₁ a]) ++ .other a b ::
        ([.own ⟨.refnameToId canonicalTargetRef, Except.ok promotedBaseOid, b, b⟩,
          .own ⟨.findCommit promotedHeadOid, true, b, b⟩] ++
        [.own ⟨.referenceMatching canonicalTargetRef promotedHeadOid promotedBaseOid,
          Except.ok (), b, a⟩])) left a := by
  let b := promotedWorld none
  let a := b.setRef canonicalTargetRef promotedHeadOid
  have hb : b.refs canonicalTargetRef = some promotedBaseOid := by simp [b, promotedWorld]
  have ha : a.refs canonicalTargetRef = some promotedHeadOid := by simp [a, GuardWorld.setRef]
  obtain ⟨log, hobserved, hrun⟩ := promoted_comesTo none
  obtain ⟨m₁, v₁, rfl, ht₁⟩ := hrun.timeline b
  obtain ⟨left, ht₂⟩ : ∃ left, Timeline guardPerform promotedExecutionLeft b
      [.own ⟨.refnameToId canonicalTargetRef, Except.ok promotedBaseOid, b, b⟩,
        .own ⟨.findCommit promotedHeadOid, true, b, b⟩,
        .own ⟨.referenceMatching canonicalTargetRef promotedHeadOid promotedBaseOid, Except.ok (),
          b, a⟩] left a := execute_timeline rfl rfl hb
  refine ⟨b, a, v₁, m₁, left, hb, ha, hobserved, ?_⟩
  rw [List.append_assoc]
  exact ht₁.append (.other (.other ht₂))

theorem promotedHead_ne_base : promotedHeadOid ≠ promotedBaseOid := by decide +kernel

theorem promotedSwap_admitted : ∃ (earlier : List GuardMoment) (e : GuardEvent)
    (revision : Revision), ChangesRefs e
    ∧ AdmittedSwap recordedBlake3 revision (ownEvents earlier) e
    ∧ ∀ a b, Moment.other a b ∈ earlier → b.refs canonicalTargetRef ≠ some revision.base →
      e.before.refs canonicalTargetRef ≠ b.refs canonicalTargetRef := by
  obtain ⟨b, a, v₁, m₁, left, hb, ha, -, ht⟩ := promoted_timeline
  have hc : ChangesRefs ⟨.referenceMatching canonicalTargetRef promotedHeadOid promotedBaseOid,
      Except.ok (), b, a⟩ := fun h : b.refs = a.refs =>
    promotedHead_ne_base (Option.some.inj (by rw [← ha, ← h, hb]))
  rw [← List.cons_append, ← List.append_assoc] at ht
  obtain ⟨revision, h⟩ := swap_admitted ht rfl hc
  exact ⟨_, _, revision, hc, h⟩

/-- A writer sets the canonical reference to another commit and back after the guard observed it:
the guard's swap replaces what that writer wrote. -/
theorem returnedRef_swapped : ∃ (w v a b : GuardWorld) (m₁ m₂ : List GuardMoment) (e : GuardEvent)
    (left : GuardProg Unit) (value : Oid),
    Timeline guardPerform (guardCommand recordedBlake3 recordedDecode promotedArguments) w
      (m₁ ++ .other a b :: (m₂ ++ [.own e])) left v
    ∧ Answered (ownEvents m₁) (.refnameToId canonicalTargetRef) (.ok promotedBaseOid)
    ∧ a.refs canonicalTargetRef ≠ b.refs canonicalTargetRef
    ∧ b.refs canonicalTargetRef = some value
    ∧ (∀ m ∈ m₂, ∃ e, m = .own e ∧ ¬ ChangesRefs e)
    ∧ e.before.refs canonicalTargetRef = some value
    ∧ e.after.refs canonicalTargetRef ≠ some value := by
  obtain ⟨b, a, v₁, m₁, left, hb, ha, hobserved, ht⟩ := promoted_timeline
  refine ⟨b, a, a, b, m₁ ++ [.other v₁ a], _, _, left, promotedBaseOid, ht, ?_, ?_, hb, ?_, hb, ?_⟩
  · rw [ownEvents_append]
    exact hobserved.mono (List.subset_append_left _ _)
  · rw [ha, hb]
    exact fun h => promotedHead_ne_base (Option.some.inj h)
  · intro m hm
    rcases List.mem_cons.1 hm with rfl | hm
    · exact ⟨_, rfl, fun h => h rfl⟩
    · obtain rfl := List.mem_singleton.1 hm
      exact ⟨_, rfl, fun h => h rfl⟩
  · show a.refs canonicalTargetRef ≠ _
    rw [ha]
    exact fun h => promotedHead_ne_base (Option.some.inj h)

end Promotion

end OnixCore.RadicleCi
