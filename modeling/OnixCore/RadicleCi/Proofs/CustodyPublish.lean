import OnixCore.RadicleCi.Proofs.Staged

/-!
# The custody of the publisher

Once it has read a result, the publisher replaces what it published before of the job, and then
moves the result there. Until then its note says so.
-/

namespace OnixCore.RadicleCi

section Publishing

variable {codec : Codec} {config : RunnerConfigV1} {blake3 : Json → String} {job file : String}
  {M : Queue × String → Prop} {α : Type}

theorem uses_directoryNames {q : Queue} : (directoryNames q).Uses (Confined M) :=
  Prog.uses_bind (Prog.uses_act.2 trivial) fun _ => Prog.uses_done _

theorem uses_firstDirectory {q : Queue} : (firstDirectory q).Uses (Confined M) :=
  Prog.uses_bind uses_directoryNames fun _ => Prog.uses_done _

theorem uses_readJson {decode : Bytes → Except String α} {path : ExchangePath} :
    (readJson decode path).Uses (Confined M) :=
  Prog.uses_bind (Prog.uses_act.2 trivial) fun _ => Prog.uses_bind (uses_shellIo _ _) fun _ =>
    uses_shellText _ _

theorem uses_commentStatus {event : AdmittedEventV1} {result : JobResultV1} :
    (commentStatus blake3 codec config event result).Uses (Confined M) :=
  Prog.uses_bind (Prog.uses_ofExcept _) fun _ => Prog.uses_bind (Prog.uses_ofExcept _) fun _ =>
    Prog.uses_bind (Prog.uses_act.2 trivial) fun _ => Prog.uses_bind (uses_shellText _ _) fun _ =>
      Prog.uses_check

theorem does_load : Does codec .publishNext (fun s => s.2 = none)
    (ExchangeProg.act (.read (.inside .outbox job file)))
    (fun r s => ∀ bytes, r = .ok bytes → s.2 = some job) fun _ => True := by
  refine .act (apart_note none).lasts fun t ht hnote told => ?_
  rcases hread : t.1.queues.read (.inside .outbox job file) with e | bytes
  · refine ⟨t.2, takes_same ht (fun _ _ _ => rfl) (fun _ _ => id) rfl, ?_⟩
    simp only [exchangePerform, hread]
    rintro _ ⟨⟩
  · have hthere : t.1.queues.get .outbox job ≠ none := by
      intro hnone
      simp [Spool.read, Spool.find, hnone] at hread
    have hview : view (t.1, some job) job = { view t job with replacing := True } := by
      simp [view]
    have hstep : JobStep codec job .publishNext (view t job) (view (t.1, some job) job) :=
      hview ▸ JobStep.load hthere
    refine ⟨some job, takes_step ht (fun n hn => view_note ?_) hstep (fun _ _ _ _ => rfl)
      (fun _ => id) fun h => absurd rfl h, fun _ _ => rfl⟩
    rw [hnote]
    exact iff_of_false (fun h => hn (Option.some.inj h).symm) (by simp)

theorem does_loadOutcome : Does codec .publishNext (fun s => s.2 = none)
    (loadOutcome blake3 codec config job) (fun _ s => s.2 = some job) fun _ => True := by
  have htrue : ∀ s : Noted, s.2 = some job → True := fun _ _ => trivial
  refine .bind (.conseq (.uses_idle uses_readJson (apart_note none)) (fun _ _ => id)
    (fun _ _ => id) fun _ _ => trivial) fun event => ?_
  refine .bind (.bind does_load fun r => .bind (Q := fun _ s => s.2 = some job)
    (.shellIo (fun bytes hr s hs => hs bytes hr) fun _ _ => trivial) fun bytes =>
      .shellText (fun _ _ _ => id) htrue) fun result => ?_
  refine .bind (.ofExcept (Q := fun _ s => s.2 = some job) (fun _ _ _ => id) htrue) fun _ => ?_
  exact .bind (.ofExcept (Q := fun _ s => s.2 = some job) (fun _ _ _ => id) htrue) fun _ =>
    .done fun _ => id

theorem does_replace (context : String) : Does codec .publishNext (fun s => s.2 = some job)
    (clearDirectory .published job context) (fun _ s => s.2 = some job) fun s => s.2 = some job :=
  .removes (q := .published) ⟨nofun, nofun⟩ (uses_clearDirectory _ _ _) (apart_note _).lasts
    (fun _ _ _ hnote _ => .replace hnote) fun _ _ => id

theorem does_publish : Does codec .publishNext (fun s => s.2 = some job)
    (ExchangeProg.act (.rename (.entry .outbox job) (.entry .published job)))
    (fun _ _ => True) fun _ => True := by
  refine .act (apart_note _).lasts fun t ht hnote told => ?_
  rcases hrename : t.1.queues.rename (.entry .outbox job) (.entry .published job) with e | s'
  · simp only [exchangePerform, hrename, change_error]
    exact ⟨t.2, takes_same ht (fun _ _ _ => rfl) (fun _ _ => id) rfl, trivial⟩
  · obtain ⟨x, hfrom, -, rfl⟩ := Spool.rename_entry_eq_ok hrename (by simp)
    have hview : view (t.1.withQueues ((t.1.queues.put .outbox job none).put .published job
        (some x)), none) job = { view t job with
          outbox := none, published := some x, replacing := False } := by
      simp [view]
    have hstep := @JobStep.publish codec job (view t job) x hnote hfrom
    rw [← hview] at hstep
    simp only [exchangePerform, hrename, change_ok]
    refine ⟨none, takes_move ht hstep (.inr ⟨by decide, by decide, rfl⟩) (by decide)
      (fun n hn => ?_) fun h => absurd rfl h, trivial⟩
    rw [hnote]
    exact iff_of_false (by simp) fun h => hn (Option.some.inj h).symm

theorem does_publishJob : Does codec .publishNext (fun s => s.2 = none)
    (publishJob blake3 codec config job) (fun _ _ => True) fun _ => True := by
  refine .bind does_loadOutcome fun outcome => ?_
  have hrest : Does codec .publishNext (fun s => s.2 = some job) (do
      clearDirectory .published job "failed to replace published result"
      shellIo "failed to commit published result" (← ExchangeProg.act
        (.rename (.entry .outbox job) (.entry .published job)))) (fun _ _ => True) fun _ => True :=
    .bind ((does_replace _).conseq (fun _ _ => id) (fun _ _ => id) fun _ _ => trivial) fun _ =>
      .bind does_publish fun r => .shellIo (fun _ _ _ _ => trivial) fun _ _ => trivial
  dsimp only
  split
  · refine .bind (Q := fun _ s => s.2 = some job) ?_ fun _ => hrest
    exact (Does.uses_idle uses_commentStatus (apart_note _)).conseq (fun _ _ => id)
      (fun _ _ => id) fun _ _ => trivial
  · exact hrest

theorem does_publishNext : Does codec .publishNext (fun s => s.2 = none)
    (publishNext blake3 codec config) (fun _ _ => True) fun _ => True := by
  refine .bind (Q := fun _ s => s.2 = none) ?_ fun selected => ?_
  · exact (Does.uses_idle uses_firstDirectory (apart_note _)).conseq (fun _ _ => id)
      (fun _ _ => id) fun _ _ => trivial
  · split
    · exact .done fun _ _ => trivial
    · exact does_publishJob

end Publishing

end OnixCore.RadicleCi
