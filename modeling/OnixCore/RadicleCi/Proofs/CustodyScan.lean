import OnixCore.RadicleCi.Proofs.Scan
import OnixCore.RadicleCi.Proofs.Staged

/-!
# The custody of a scan

A scan puts a job into the queue as one complete directory, and enters it into the ledger when it is
there. So a job of the ledger is not lost, whatever became of it in between.
-/

namespace OnixCore.RadicleCi

section Scanning

variable {codec : Codec} {config : RunnerConfigV1} {pid : ℕ} {event : AdmittedEventV1}
  {source job : String} {blake3 : Json → String} {hash : Bytes → String}

theorem stagedJobName_ne (a b : String) : stagedJobName a ≠ stagedResultName b := by
  intro h
  have hhead := congrArg (fun s : String => s.toList.head?) h
  have hjob : "job-".toList = 'j' :: "ob-".toList := by decide +kernel
  have hresult : "result-".toList = 'r' :: "esult-".toList := by decide +kernel
  simp only [stagedJobName, stagedResultName, String.toList_append, hjob, hresult,
    List.cons_append, List.head?_cons] at hhead
  exact absurd hhead (by decide)

theorem sourceName_ne_result (pid : ℕ) (oid b : String) :
    sourceName pid oid ≠ stagedResultName b := by
  intro h
  have hhead := congrArg (fun s : String => s.toList.head?) h
  have hsource : "source-".toList = 's' :: "ource-".toList := by decide +kernel
  have hresult : "result-".toList = 'r' :: "esult-".toList := by decide +kernel
  simp only [sourceName, stagedResultName, String.toList_append, hsource, hresult,
    List.cons_append, List.head?_cons] at hhead
  exact absurd hhead (by decide)

theorem mine_job (job : String) : Mine .scan (.staging, stagedJobName job) :=
  ⟨rfl, stagedJobName_ne job⟩

theorem mine_source (pid : ℕ) (oid : String) : Mine .scan (.staging, sourceName pid oid) :=
  ⟨rfl, sourceName_ne_result pid oid⟩

/-- The directory of a job that is all there. -/
def Queueable (codec : Codec) (event : AdmittedEventV1) (files : Names Bytes) : Prop :=
  files.lookup "event.json" = some (codec.writeEvent event)
    ∧ "source.tar" ∈ files ∧ "ready" ∈ files

theorem does_stageJob (hmine : Mine .scan (.staging, source))
    (hne : source ≠ stagedJobName event.jobId) :
    Does codec .scan (fun _ => True) (stageJob codec pid (.entry .staging source) event)
      (fun _ => Staged (stagedJobName event.jobId) (Queueable codec event)) fun _ => True := by
  have htmp : ∀ f, ∀ name ∈ ["event.json", "source.tar"], name ≠ temporaryName pid f :=
    fun f name hname => temporaryName_ne_of_head ((by decide +kernel : ∀ name ∈ ["event.json",
      "source.tar"], name.toList.head? ≠ some '.') name hname)
  simp only [List.forall_mem_cons] at htmp
  have h := mine_job event.jobId
  unfold stageJob
  simp only []
  generalize stagedJobName event.jobId = staged at *
  let Waiting : Names Bytes → Prop := fun files =>
    files.lookup "event.json" = some (codec.writeEvent event) ∧ "source.tar" ∈ files
  refine .bind (.uses_idle (uses_clear h _) apart_true) fun _ => ?_
  refine .bind (Q := fun _ => Staged staged fun _ => True)
    ((does_createDirectory h).conseq (fun _ _ _ => ⟨fun _ => trivial, fun _ _ => trivial⟩)
      (fun _ _ => id) fun _ => id) fun _ => ?_
  refine .bind (does_writeFile h fun _ _ _ _ => id) fun _ => ?_
  refine .bind (Q := fun r s => r = .ok () → Staged staged Waiting s)
    (.idle ⟨hmine, h⟩ (lasts_staged h) ?_) fun r => .bind
      (.shellIo (fun a hr s hs => hs hr) fun _ _ => trivial) fun _ => ?_
  · rintro t - ⟨files, hdir, -, hevent⟩ -
    rcases hrename : t.1.queues.rename (.entry .staging source) (.inside .staging staged
      "source.tar") with e | s'
    · simp only [exchangePerform, hrename, change_error]
      rintro ⟨⟩
    · obtain ⟨files', file, hdir', -, rfl⟩ :=
        Spool.rename_into_eq_ok (fun heq => hne (congrArg Prod.snd heq)) hrename
      cases hdir.symm.trans hdir'
      simp only [exchangePerform, hrename, change_ok]
      exact fun _ => staged_put (w := t.1.withQueues (t.1.queues.put .staging source none))
        ⟨by simpa using hevent, by simp⟩
  have hlast : ∀ f, f ∉ ["event.json", "source.tar"] → ∀ files m y,
      m = temporaryName pid f ∨ m = f → Waiting files → Waiting (files.assign m y) := by
    rintro f hf files m y hm ⟨hevent, hsource⟩
    simp only [List.mem_cons, List.not_mem_nil, or_false, not_or] at hf
    have hne₁ : "event.json" ≠ m := by
      rcases hm with rfl | rfl
      exacts [(htmp f).1, Ne.symm hf.1]
    have hne₂ : "source.tar" ≠ m := by
      rcases hm with rfl | rfl
      exacts [(htmp f).2.1, Ne.symm hf.2]
    exact ⟨by simpa [hne₁] using hevent, by simpa [hne₂] using hsource⟩
  refine .bind (Q := fun _ => Staged staged Waiting) ((does_writeFile h (hlast _ (by decide))).conseq
    (fun _ _ => id) (fun _ s hs => hs.mono fun _ => And.left) fun _ => id) fun _ => ?_
  refine (does_writeFile h (hlast _ (by decide))).conseq (fun _ _ => id) (fun _ s hs => ?_)
    fun _ => id
  exact hs.mono fun files hfiles => ⟨hfiles.1.1, hfiles.1.2, Names.mem_of_lookup hfiles.2⟩

theorem queueable_owned (hcodec : codec.Faithful) {files : Names Bytes}
    (h : Queueable codec event files) : Owned codec event.jobId (.dir files) := by
  refine ⟨files, rfl, fun bytes hbytes event' hread => ?_⟩
  cases hbytes.symm.trans h.1
  rw [hcodec event event' hread]

theorem does_queue (hcodec : codec.Faithful) :
    Does codec .scan (Staged (stagedJobName event.jobId) (Queueable codec event))
      (ExchangeProg.act (.rename (.entry .staging (stagedJobName event.jobId))
        (.entry .incoming event.jobId)))
      (fun r s => r = .ok () → (view s event.jobId).Kept) fun _ => True := by
  refine .act (lasts_staged (mine_job _)) ?_
  rintro t ht ⟨files, hdir, hfiles⟩ -
  rcases hrename : t.1.queues.rename (.entry .staging (stagedJobName event.jobId))
    (.entry .incoming event.jobId) with e | s'
  · simp only [exchangePerform, hrename, change_error]
    exact ⟨t.2, takes_same ht (fun _ _ _ => rfl) (fun _ _ => id) rfl, by simp⟩
  · obtain ⟨e, hdir', hreplaces, rfl⟩ := Spool.rename_entry_eq_ok hrename (by simp)
    cases hdir.symm.trans hdir'
    have hall : Holds jobFiles (some (.dir files)) := by
      refine ⟨files, rfl, ?_⟩
      simp only [jobFiles, List.forall_mem_cons]
      exact ⟨hfiles.2.2, Names.mem_of_lookup hfiles.1, hfiles.2.1, by simp⟩
    have hview : view (t.1.withQueues ((t.1.queues.put .staging (stagedJobName event.jobId)
        none).put .incoming event.jobId (some (.dir files))), t.2) event.jobId
          = { view t event.jobId with incoming := some (.dir files) } := by
      rw [view_move, if_pos rfl]
      exact congrArg (JobView.set · .incoming _) (ite_self _)
    simp only [exchangePerform, hrename, change_ok]
    refine ⟨t.2, takes_move ht ?_ (.inl ⟨rfl, stagedJobName_ne event.jobId⟩) (by decide)
      (fun _ _ => Iff.rfl) fun _ => rfl, fun _ => ?_⟩
    · rw [hview]
      exact .queue (replaces_dir.1 hreplaces) (queueable_owned hcodec hfiles) hall
    · rw [hview]
      exact .inl (.inl hall)

/-- The entry of a job in the ledger, and the file it is written as. -/
def Entered (pid : ℕ) (job : String) (spot : Queue × String) : Prop :=
  spot = (.ledger, temporaryName pid job) ∨ spot = (.ledger, job)

theorem does_ledger {bytes : Bytes} : Does codec .scan (fun s => (view s job).Kept)
    (writeFile pid (.entry .ledger job) bytes) (fun _ s => (view s job).Kept)
      fun s => (view s job).Kept := by
  refine Prog.Triple.of_uses (uses_writeFile (M := Entered pid job) (.inr rfl) (.inl rfl))
    apart_kept.lasts.rely fun t ht hkept i hi r w ⟨told, heffect⟩ => ⟨t.2, ?_⟩
  obtain rfl : (exchangePerform t.1 i told).2 = w := congrArg Prod.snd heffect
  have hget : ∀ q n, ¬ Entered pid job (q, n) →
      (exchangePerform t.1 i told).2.queues.get q n = t.1.queues.get q n := fun q n hn =>
    get_confined hi told hn
  have hqueue : ∀ {q n}, q ≠ .ledger → ¬ Entered pid job (q, n) := by
    rintro q n hq (⟨⟨⟩⟩ | ⟨⟨⟩⟩) <;> exact hq rfl
  have hview : ∀ n, view ((exchangePerform t.1 i told).2, t.2) n = view t n := by
    intro n
    unfold view
    rw [hget _ _ (hqueue (q := .incoming) nofun), hget _ _ (hqueue (q := .processing) nofun),
      hget _ _ (hqueue (q := .outbox) nofun), hget _ _ (hqueue (q := .published) nofun),
      hget _ _ (hqueue (q := .rejected) nofun)]
  have hkept' : (view ((exchangePerform t.1 i told).2, t.2) job).Kept := (hview job).symm ▸ hkept
  have htakes : Takes codec .scan t ((exchangePerform t.1 i told).2, t.2) := by
    refine takes_of_jobs ht (fun n => .inl (hview n)) (fun q n hq htouches => ?_) (fun _ => rfl)
      fun n hn hknown => ?_
    · rcases hq with rfl | rfl
      · exact hget _ _ (hqueue nofun)
      · exact absurd trivial htouches
    · by_cases hjob : n = job
      · exact .inr (hjob ▸ hkept')
      · refine .inl ?_
        rwa [Known, hget .ledger n] at hknown
        rintro (h | h)
        · exact ne_temporaryName hn (congrArg Prod.snd h)
        · exact hjob (congrArg Prod.snd h)
  exact ⟨htakes.1, htakes.2, hkept'⟩

theorem does_queueJob (hcodec : codec.Faithful) :
    Does codec .scan (Staged (stagedJobName event.jobId) (Queueable codec event))
      (queueJob pid event) (fun _ _ => True) fun _ => True :=
  .bind (does_queue hcodec) fun _ => .bind (Q := fun _ s => (view s event.jobId).Kept)
    (.shellIo (fun _ hr _ hs => hs hr) fun _ _ => trivial) fun _ =>
      does_ledger.conseq (fun _ _ => id) (fun _ _ _ => trivial) fun _ _ => trivial

section Observing

variable {M : Queue × String → Prop} {oid : String}

theorem uses_runBounded (r : Except String ExecutionOutput) :
    (runBounded r).Uses (Confined M) := uses_shellText _ r

theorem uses_gitObjectExists : (gitObjectExists oid).Uses (Confined M) :=
  Prog.uses_bind (Prog.uses_act.2 trivial) fun _ =>
    Prog.uses_bind (uses_runBounded _) fun _ => Prog.uses_done _

theorem uses_observeControlFile {file : String} :
    (observeControlFile hash oid file).Uses (Confined M) :=
  Prog.uses_bind (Prog.uses_act.2 trivial) fun _ => Prog.uses_bind (uses_runBounded _) fun _ =>
    Prog.uses_bind Prog.uses_check fun _ => Prog.uses_done _

theorem uses_observeLocks : (observeLocks hash oid).Uses (Confined M) :=
  Prog.uses_bind uses_observeControlFile fun _ => Prog.uses_bind uses_observeControlFile fun _ =>
    Prog.uses_bind uses_observeControlFile fun _ =>
      Prog.uses_bind uses_observeControlFile fun _ => Prog.uses_done _

theorem uses_createGitArchive {output : ExchangePath} (h : M output.spot) :
    (createGitArchive config oid output).Uses (Confined M) :=
  Prog.uses_bind (Prog.uses_act.2 h) fun _ => Prog.uses_bind (uses_runBounded _) fun _ =>
    Prog.uses_bind Prog.uses_check fun _ => Prog.uses_bind (Prog.uses_act.2 trivial) fun _ =>
      Prog.uses_bind (uses_shellIo _ _) fun _ => Prog.uses_check

theorem uses_admitSeed {seed : CandidateSeed}
    (h : M (.staging, sourceName pid seed.objectOid)) :
    (admitSeed blake3 hash config pid seed).Uses (Confined M) :=
  Prog.uses_bind uses_gitObjectExists fun _ => Prog.uses_bind Prog.uses_check fun _ =>
    Prog.uses_bind uses_observeLocks fun _ => Prog.uses_bind (uses_createGitArchive h) fun _ =>
      Prog.uses_bind (Prog.uses_act.2 trivial) fun _ => Prog.uses_bind (uses_shellIo _ _) fun _ =>
        Prog.uses_ofExcept _

theorem uses_verifyDelegates : (verifyDelegates config).Uses (Confined M) :=
  Prog.uses_bind (Prog.uses_act.2 trivial) fun _ =>
    Prog.uses_bind (uses_shellText _ _) fun _ => Prog.uses_check

end Observing

theorem does_exportCandidate (hcodec : codec.Faithful) (seed : CandidateSeed) :
    Does codec .scan (fun _ => True) (exportCandidate blake3 hash codec config pid seed)
      (fun _ _ => True) fun _ => True := by
  have hsource := mine_source pid seed.objectOid
  refine .bind (.uses_idle (uses_admitSeed hsource) apart_true) fun event => ?_
  refine .bind (.uses_idle (Prog.uses_act.2 trivial) apart_true) fun known => ?_
  split
  · exact .bind (.uses_idle (Prog.uses_act.2 hsource) apart_true) fun _ => .done fun _ => id
  · exact .bind (does_stageJob hsource (sourceName_ne pid _ _)) fun _ => does_queueJob hcodec

theorem does_scan (hcodec : codec.Faithful) :
    Does codec .scan (fun _ => True) (scan blake3 hash codec config pid) (fun _ _ => True)
      fun _ => True := by
  have hidle : ∀ {α : Type} {p : ExchangeProg α}, p.Uses (Confined (Mine .scan)) →
      Does codec .scan (fun _ => True) p (fun _ _ => True) fun _ => True := fun hp =>
    .uses_idle hp apart_true
  refine .bind (hidle (Prog.uses_act.2 trivial)) fun parsed => ?_
  refine .bind (hidle Prog.uses_check) fun _ => ?_
  refine .bind (hidle (Prog.uses_act.2 trivial)) fun opened => ?_
  refine .bind (hidle (uses_shellText _ _)) fun _ => ?_
  refine .bind (hidle uses_verifyDelegates) fun _ => ?_
  refine .bind (hidle (Prog.uses_act.2 trivial)) fun head => ?_
  refine .bind (hidle (uses_shellText _ _)) fun head => ?_
  refine .bind (does_exportCandidate hcodec _) fun _ => ?_
  refine .bind (hidle (Prog.uses_act.2 trivial)) fun store => ?_
  refine .bind (hidle (uses_shellText _ _)) fun _ => ?_
  refine .bind (hidle (Prog.uses_act.2 trivial)) fun proposed => ?_
  refine .bind (hidle (uses_shellText _ _)) fun proposed => ?_
  exact .forM (fun patch => does_exportCandidate hcodec _) proposed

end Scanning

end OnixCore.RadicleCi
