import OnixCore.RadicleCi.Proofs.CustodyRun

/-!
# No job is lost

Whatever order the commands take their steps in, and wherever they are stopped, a job that has its
entry in the ledger is in `incoming` or `processing` with all that its execution needs, in `outbox`
or `published` with its result, or in `rejected` (`no_job_lost`). The commands' promises are the
invariant, with one note for the publisher.
-/

namespace OnixCore.RadicleCi

/-- Nothing was done yet. -/
def Fresh (s : ExchangePool) : Prop := (∀ q, s.world.queues q = ∅) ∧ ∀ k, s.running k = none

/-- The job can still be executed, or there is what became of it. -/
def Safe (w : Exchange) (job : String) : Prop :=
  (Holds jobFiles (w.queues.get .incoming job) ∨ Holds jobFiles (w.queues.get .processing job))
    ∨ (Holds resultFiles (w.queues.get .outbox job)
      ∨ Holds resultFiles (w.queues.get .published job))
    ∨ ∃ files, w.queues.get .rejected job = some (.dir files)

section Promised

variable {codec : Codec} {config : RunnerConfigV1} {blake3 : Json → String}
  {hash : Bytes → String} {s t : ExchangePool} {move : Move Command} {job : String}

/-- The publisher starts without a note, and none is left of it where it is gone. -/
def forget : Command → Option String → Option String
  | .publishNext, _ => none
  | _, note => note

/-- The commands keep their promises. -/
def Promised (codec : Codec) (s : ExchangePool) : Prop :=
  Pool.Promised exchangeEffect (Custody codec) (Within codec) s

theorem takes_forget {k : Command} {w : Exchange} {g : Option String}
    (h : Custody codec (w, g)) : Takes codec k (w, g) (w, forget k g) := by
  have hsame : Takes codec k (w, g) (w, g) := takes_same h (fun _ _ _ => rfl) (fun _ _ => id) rfl
  cases k with
  | publishNext =>
    refine takes_of_jobs h (fun job => .inr ?_) (fun _ _ _ _ => rfl) (fun h => absurd rfl h)
      fun _ _ => .inl
    have hview : view (w, none) job = { view (w, g) job with replacing := False } := by
      simp [view]
    exact hview ▸ JobStep.forget
  | scan => exact hsame
  | runNext => exact hsame

theorem promised_commandStep (hcodec : codec.Faithful) (hs : Promised codec s)
    (h : CommandStep blake3 hash codec config s move t) : Promised codec t := by
  refine Pool.promised_step forget (fun k w g => takes_forget) ?_ hs h
  intro k p hp w g hI
  have hkeeps : ∀ {p : ExchangeProg Unit} {g'}, Does codec k (fun s => s.2 = g') p
      (fun _ _ => True) (fun _ => True) → Custody codec (w, g') →
        Prog.Keeps exchangeEffect (Custody codec) (Pool.rely (Within codec) k) (Within codec k) p
          (w, g') (fun _ _ => True) fun _ _ => True := fun hdoes hI =>
    (hdoes _ hI rfl).conseq (fun _ _ _ => trivial) fun _ _ _ => trivial
  have htrue : ∀ {g'} (s : Noted), Custody codec s → s.2 = g' → True := fun _ _ _ => trivial
  cases hp with
  | scan pid =>
    exact hkeeps ((does_scan hcodec).conseq htrue (fun _ _ => id) fun _ => id) hI
  | runNext pid => exact hkeeps (does_runNext.conseq htrue (fun _ _ => id) fun _ => id) hI
  | publishNext => exact hkeeps does_publishNext (takes_forget (k := .publishNext) hI).1

theorem Fresh.promised (h : Fresh s) : Promised codec s := by
  have hget : ∀ q n, s.world.queues.get q n = none := fun q n => by
    rw [Spool.get, h.1 q, AList.lookup_empty]
  refine ⟨none, ⟨fun job => ⟨?_, ?_⟩, fun job _ hknown => absurd (hget _ _) hknown⟩, ?_⟩
  · exact fun x hx => nomatch (hget _ _).symm.trans hx
  · exact fun x hx => nomatch (hget _ _).symm.trans hx
  · exact fun k p hp => nomatch (h.2 k).symm.trans hp

theorem Promised.safe (h : Promised codec s) (hjob : Admission.blake3Digest job = true)
    (hknown : Known s.world job) : Safe s.world job := by
  obtain ⟨g, hI, -⟩ := h
  rcases hI.ledger job hjob hknown with hwaits | hdelivered | hrejected
  · exact .inl hwaits
  · exact .inr (.inl (hdelivered.imp_right And.left))
  · exact .inr (.inr hrejected)

/-- Every job of the ledger can still be executed or has an outcome, in every state that the
commands can bring about, stopped and started again at any point. -/
theorem no_job_lost (hcodec : codec.Faithful)
    (hs : Reachable Fresh (CommandStep blake3 hash codec config) s)
    (hjob : Admission.blake3Digest job = true) (hknown : Known s.world job) : Safe s.world job := by
  have hpromised : Promised codec s := hs.invariant (fun _ => Fresh.promised)
    fun _ _ _ hs hstep => promised_commandStep hcodec hs hstep
  exact hpromised.safe hjob hknown

/-- A command that starts first and runs to its end alone. -/
theorem reachable_alone {k : Command} {p : ExchangeProg Unit} {host : ExchangeHost}
    {r : Exchange × Except String Unit} (hp : Starts blake3 hash codec config k p)
    (hr : runAlone host p emptyExchange = r) :
    Reachable Fresh (CommandStep blake3 hash codec config) ⟨r.1, fun _ => none⟩ := by
  subst hr
  have hstart : CommandStep blake3 hash codec config ⟨emptyExchange, fun _ => none⟩ (.start k)
      ⟨emptyExchange, Function.update (fun _ => none) k (some p)⟩ := PoolStep.start rfl hp
  obtain ⟨steps, hrun, hfinal⟩ : ∃ steps, Run (CommandStep blake3 hash codec config)
      ⟨emptyExchange, Function.update (fun _ => none) k (some p)⟩ steps
        ∧ finalState (⟨emptyExchange, Function.update (fun _ => none) k (some p)⟩ : ExchangePool)
          steps = ⟨(runAlone host p emptyExchange).1, Function.update (fun _ => none) k none⟩ :=
    Pool.exists_alone (fun w i => ⟨host i, rfl⟩) p emptyExchange
  rw [Function.update_eq_self_iff.2 rfl] at hfinal
  refine ⟨⟨emptyExchange, fun _ => none⟩, _, ⟨fun _ => rfl, fun _ => rfl⟩, .cons hstart hrun, ?_⟩
  refine List.mem_cons_of_mem _ ?_
  have hmem := finalState_mem (⟨emptyExchange, Function.update (fun _ => none) k (some p)⟩ :
    ExchangePool) steps
  rw [hfinal] at hmem
  exact hmem

end Promised

/-- Writes the event of the proposed patch as a document of its own. -/
def eventCodec : Codec :=
  { promotedCodec with writeEvent := fun event => if event = promotedEvent then eventFile else [] }

example : (eventCodec.readEvent (eventCodec.writeEvent promotedEvent)).toOption
    = some promotedEvent := by
  decide +kernel

theorem eventCodec_faithful : eventCodec.Faithful := by
  intro event event' hread
  have hempty : ([] : Bytes) ≠ eventFile := by decide +kernel
  by_cases h : event = promotedEvent
  · simp only [eventCodec, promotedCodec, h, if_true, Except.ok.injEq] at hread
    rw [h, hread]
  · simp [eventCodec, promotedCodec, h, hempty] at hread

/-- A first scan, and what it leaves. -/
def scanned : Exchange × Except String Unit := runAlone (repositoryHost lockedFile)
  (scan signedBlake3 promotedHash eventCodec promotedConfig 7) emptyExchange

theorem scanned_reachable : Reachable Fresh
    (CommandStep signedBlake3 promotedHash eventCodec promotedConfig)
    ⟨scanned.1, fun _ => none⟩ := by
  have hrun : runAlone (repositoryHost lockedFile)
      (scan signedBlake3 promotedHash eventCodec promotedConfig 7) emptyExchange = scanned := rfl
  exact reachable_alone (.scan 7) hrun

theorem scanned_known : Known scanned.1 promotedJob := by
  rw [scanned, runAlone_scan (scannable_repositoryHost _) rfl]
  refine exportAll_known signedBlake3_digest _ _ (fun seed hseed => ?_) (patchSeed promotedProposal)
    (List.mem_cons_of_mem _ List.mem_cons_self) promotedJob
    ⟨sourceArchive, promotedEvent, promotedProposal_admissible lockedFile, rfl⟩
  simp only [List.map_nil, List.mem_cons, List.not_mem_nil, or_false] at hseed
  rcases hseed with rfl | rfl
  · exact ⟨_, ⟨_, mainHead_admissible⟩, nofun, .inr ⟨nofun, nofun, rfl⟩⟩
  · exact ⟨_, ⟨_, promotedProposal_admissible lockedFile⟩, nofun, .inr ⟨nofun, nofun, rfl⟩⟩

theorem scanned_safe : Safe scanned.1 promotedJob := by
  -- for any exchange, or the scan would be run again here
  have hsafe : ∀ w, Reachable Fresh
      (CommandStep signedBlake3 promotedHash eventCodec promotedConfig) ⟨w, fun _ => none⟩ →
        Known w promotedJob → Safe w promotedJob := fun w hreachable hknown =>
    no_job_lost eventCodec_faithful hreachable (by decide +kernel) hknown
  exact hsafe scanned.1 scanned_reachable scanned_known

end OnixCore.RadicleCi
