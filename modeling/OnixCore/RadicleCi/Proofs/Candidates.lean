import OnixCore.RadicleCi.Proofs.Identity
import OnixCore.RadicleCi.Proofs.Queues

/-!
# Exporting a candidate

A candidate is `Admissible` by what the repository answers about it alone. Whether it can be
exported also depends on what earlier scans left in the queues: `Exports` says when, and
`Exports.exported` and `export_fails` say what an export does to the queues. An export does not
change which other candidates can be exported (`Exported.exports_iff`).
-/

namespace OnixCore.RadicleCi

section Candidates

variable (blake3 : Json → String) (hash : Bytes → String) (config : RunnerConfigV1) (pid : ℕ)
  (host : ExchangeHost)

/-- The digest of a control file, where it can be read. -/
def controlDigest (oid file : String) : Option String :=
  match host (.gitShow oid file) with
  | .ok output =>
    if output.disposition = .succeeded ∧ !output.stdout.truncated then
      some (hash output.stdout.bytes)
    else none
  | .error _ => none

structure ReadsLocks (oid : String) (locks : LockIdentityV1) : Prop where
  cargoToml : controlDigest hash host oid "Cargo.toml" = some locks.cargoTomlBlake3
  cargoLock : controlDigest hash host oid "Cargo.lock" = some locks.cargoLockBlake3
  flakeNix : controlDigest hash host oid "flake.nix" = some locks.flakeNixBlake3
  flakeLock : controlDigest hash host oid "flake.lock" = some locks.flakeLockBlake3

/-- The candidate is admissible on its own, with this source archive and as this event. -/
structure Admissible (seed : CandidateSeed) (archive : Bytes) (event : AdmittedEventV1) : Prop where
  present : succeeded (host (.gitCatFile seed.objectOid)) = true
  locks : ReadsLocks hash host seed.objectOid config.expectedLocks
  archived : succeeded (host (.gitArchive seed.objectOid
    (.entry .staging (sourceName pid seed.objectOid)))).1 = true
  output : (host (.gitArchive seed.objectOid
    (.entry .staging (sourceName pid seed.objectOid)))).2 = some archive
  bounded : archive.length ≠ 0 ∧ archive.length ≤ config.limits.artifactMaxBytes
  admitted : admitCandidate blake3 config (candidateOf config seed config.expectedLocks)
    (hash archive) = .ok event

end Candidates

section Observing

variable {blake3 : Json → String} {hash : Bytes → String} {config : RunnerConfigV1} {pid : ℕ}
  {host : ExchangeHost} {w : Exchange} {oid file : String}

theorem asks_gitObjectExists :
    Asks host w (gitObjectExists oid) fun present => ∃ output,
      host (.gitCatFile oid) = .ok output ∧ present = decide (output.disposition = .succeeded) := by
  unfold gitObjectExists Asks
  rw [runAlone_act_bind]
  simp only [exchangePerform_gitCatFile]
  exact (asks_runBounded _).bind fun _ _ => asks_done _

theorem asks_observeControlFile :
    Asks host w (observeControlFile hash oid file) (controlDigest hash host oid file = some ·) := by
  unfold observeControlFile controlDigest
  unfold Asks
  rw [runAlone_act_bind]
  simp only [exchangePerform_gitShow]
  rcases host (.gitShow oid file) with e | output
  · refine ⟨.error _, rfl, fun a => iff_of_false ?_ ?_⟩ <;> rintro ⟨⟩
  · have h : Asks host w (do
        Prog.check (output.disposition = .succeeded ∧ !output.stdout.truncated)
          "failed to read bounded control file from Git object"
        return hash output.stdout.bytes) _ := asks_check.bind fun _ _ => asks_done _
    refine h.mono fun a => ?_
    simp only []
    split_ifs with hc
    · rw [Option.some.injEq, @eq_comm _ _ a]
      simp only [hc, exists_const, true_and]
    · simp only [hc, false_and, exists_false]

theorem asks_observeLocks :
    Asks host w (observeLocks hash oid) (ReadsLocks hash host oid ·) := by
  have h : Asks host w (observeLocks hash oid) _ :=
    asks_observeControlFile.bind fun _ _ => asks_observeControlFile.bind fun _ _ =>
      asks_observeControlFile.bind fun _ _ => asks_observeControlFile.bind fun _ _ => asks_done _
  refine h.mono fun locks => ⟨?_, ?_⟩
  · rintro ⟨a, ha, b, hb, c, hc, d, hd, rfl⟩
    exact ⟨ha, hb, hc, hd⟩
  · rintro ⟨ha, hb, hc, hd⟩
    exact ⟨_, ha, _, hb, _, hc, _, hd, rfl⟩

theorem succeeded_iff {r : Except String ExecutionOutput} :
    succeeded r = true ↔ ∃ output, r = .ok output ∧ output.disposition = .succeeded := by
  cases r <;> simp [succeeded]

end Observing

section Admitting

variable {blake3 : Json → String} {hash : Bytes → String} {config : RunnerConfigV1} {pid : ℕ}
  {host : ExchangeHost} {w : Exchange} {seed : CandidateSeed} {oid : String}

/-- No directory is where the archive goes. -/
def ArchiveFits (pid : ℕ) (w : Exchange) (seed : CandidateSeed) : Prop :=
  ∀ files, w.queues.get .staging (sourceName pid seed.objectOid) ≠ some (.dir files)

/-- The archive of a candidate, and what is in the queues with it. -/
def archived (host : ExchangeHost) (pid : ℕ) (w : Exchange) (seed : CandidateSeed) : Exchange :=
  w.leave (.entry .staging (sourceName pid seed.objectOid))
    (host (.gitArchive seed.objectOid (.entry .staging (sourceName pid seed.objectOid)))).2

theorem archived_of_fits (h : ArchiveFits pid w seed) : archived host pid w seed
    = w.withQueues (w.queues.put .staging (sourceName pid seed.objectOid)
      ((host (.gitArchive seed.objectOid
        (.entry .staging (sourceName pid seed.objectOid)))).2.map .file)) := by
  unfold archived Exchange.leave
  rcases hget : w.queues.get .staging (sourceName pid seed.objectOid) with _ | bytes | files
  · simp [hget, Exchange.withQueues]
  · simp [hget, Entry.isDir, Exchange.withQueues]
  · exact absurd hget (h files)

theorem archived_of_dir {files : Names Bytes}
    (h : w.queues.get .staging (sourceName pid seed.objectOid) = some (.dir files)) :
    archived host pid w seed = w := by
  simp [archived, Exchange.leave, h, Entry.isDir]

theorem read_archived {archive : Bytes} :
    (archived host pid w seed).queues.read (.entry .staging (sourceName pid seed.objectOid))
        = .ok archive
      ↔ ArchiveFits pid w seed ∧ (host (.gitArchive seed.objectOid
        (.entry .staging (sourceName pid seed.objectOid)))).2 = some archive := by
  by_cases hfits : ArchiveFits pid w seed
  · rw [archived_of_fits hfits]
    rcases (host (.gitArchive seed.objectOid
      (.entry .staging (sourceName pid seed.objectOid)))).2 with _ | bytes <;>
      simp [Spool.read, hfits]
  · obtain ⟨files, hdir⟩ : ∃ files,
        w.queues.get .staging (sourceName pid seed.objectOid) = some (.dir files) := by
      simpa [ArchiveFits] using hfits
    rw [archived_of_dir hdir]
    simp [Spool.read, hdir, hfits]

/-- What is asked of a candidate before its archive is made. -/
def observeSeed (hash : Bytes → String) (seed : CandidateSeed) : ExchangeProg LockIdentityV1 := do
  let present ← gitObjectExists seed.objectOid
  Prog.check (present = true) "candidate Git object is missing locally"
  observeLocks hash seed.objectOid

theorem asks_observeSeed : Asks host w (observeSeed hash seed) fun locks =>
    succeeded (host (.gitCatFile seed.objectOid)) = true
      ∧ ReadsLocks hash host seed.objectOid locks := by
  have h : Asks host w (observeSeed hash seed) _ :=
    asks_gitObjectExists.bind fun _ _ => asks_check.bind fun _ _ => asks_observeLocks
  refine h.mono fun locks => ?_
  rw [succeeded_iff]
  constructor
  · rintro ⟨present, ⟨output, houtput, rfl⟩, ⟨⟩, hpresent, hlocks⟩
    exact ⟨⟨output, houtput, of_decide_eq_true hpresent⟩, hlocks⟩
  · rintro ⟨⟨output, houtput, hpresent⟩, hlocks⟩
    exact ⟨_, ⟨output, houtput, rfl⟩, (), decide_eq_true hpresent, hlocks⟩

/-- Makes the archive of a candidate, and admits it with what was observed. -/
def admitObserved (blake3 : Json → String) (hash : Bytes → String) (config : RunnerConfigV1)
    (pid : ℕ) (seed : CandidateSeed) (locks : LockIdentityV1) : ExchangeProg AdmittedEventV1 := do
  let archivePath := Spool.Path.entry Queue.staging (sourceName pid seed.objectOid)
  createGitArchive config seed.objectOid archivePath
  let archive ← shellIo "failed to read source archive" (← ExchangeProg.act (.read archivePath))
  Prog.ofExcept
    ((admitCandidate blake3 config (candidateOf config seed locks) (hash archive)).mapError
      Diagnostic.text)

theorem admitSeed_eq : admitSeed blake3 hash config pid seed
    = observeSeed hash seed >>= admitObserved blake3 hash config pid seed := by
  simp only [admitSeed, observeSeed, Prog.bind_assoc]
  rfl

theorem runAlone_admitObserved (locks : LockIdentityV1) : ∃ r,
    runAlone host (admitObserved blake3 hash config pid seed locks) w
        = (archived host pid w seed, r)
      ∧ ∀ event, r = .ok event ↔ succeeded (host (.gitArchive seed.objectOid
          (.entry .staging (sourceName pid seed.objectOid)))).1 = true
        ∧ ∃ archive, (ArchiveFits pid w seed ∧ (host (.gitArchive seed.objectOid
            (.entry .staging (sourceName pid seed.objectOid)))).2 = some archive)
          ∧ (archive.length ≠ 0 ∧ archive.length ≤ config.limits.artifactMaxBytes)
          ∧ admitCandidate blake3 config (candidateOf config seed locks) (hash archive)
            = .ok event := by
  unfold admitObserved createGitArchive
  rw [Prog.bind_assoc, runAlone_act_bind]
  have hchecks : ∀ r : Except String ExecutionOutput, Asks host (archived host pid w seed) (do
      let process ← runBounded r
      Prog.check (process.disposition = .succeeded) "Git source archive failed"
      let archive ← shellIo "Git source archive is missing" (← ExchangeProg.act (.read
        (.entry .staging (sourceName pid seed.objectOid))))
      Prog.check (archive.length ≠ 0 ∧ archive.length ≤ config.limits.artifactMaxBytes)
        "Git source archive is empty or above artifact bound") _ := fun r =>
    (asks_runBounded r).bind fun _ _ => asks_check.bind fun _ _ => (asks_read _).bind
      fun _ _ => (asks_shellIo _ _).bind fun _ _ => asks_check
  obtain ⟨r, hrun, hr⟩ := (hchecks _).bind fun _ _ => (asks_read
    (.entry .staging (sourceName pid seed.objectOid))).bind fun answer _ =>
      (asks_shellIo "failed to read source archive" answer).bind fun archive _ => asks_ofExcept
        ((admitCandidate blake3 config (candidateOf config seed locks) (hash archive)).mapError
          Diagnostic.text)
  refine ⟨r, hrun, fun event => (hr event).trans ?_⟩
  simp only [mapError_eq_ok, succeeded_iff]
  constructor
  · rintro ⟨⟨⟩, ⟨process, hprocess, ⟨⟩, hdone, _, rfl, archive, hread, hbounds⟩, _, rfl, _, hagain,
      hadmit⟩
    obtain rfl := Except.ok.inj (hread.symm.trans hagain)
    exact ⟨⟨process, hprocess, hdone⟩, archive, read_archived.1 hread, hbounds, hadmit⟩
  · rintro ⟨⟨process, hprocess, hdone⟩, archive, hread, hbounds, hadmit⟩
    exact ⟨(), ⟨process, hprocess, (), hdone, _, rfl, archive, read_archived.2 hread, hbounds⟩, _,
      rfl, archive, read_archived.2 hread, hadmit⟩

theorem ReadsLocks.eq {locks locks' : LockIdentityV1} (h : ReadsLocks hash host oid locks)
    (h' : ReadsLocks hash host oid locks') : locks = locks' := by
  obtain ⟨ha, hb, hc, hd⟩ := h
  obtain ⟨ha', hb', hc', hd'⟩ := h'
  rcases locks with ⟨a, b, c, d⟩
  rcases locks' with ⟨a', b', c', d'⟩
  simp_all

/-- Admitting a candidate leaves at most its archive behind. -/
theorem runAlone_admitSeed : ∃ v r, runAlone host (admitSeed blake3 hash config pid seed) w = (v, r)
    ∧ (v = w ∧ (∀ event, r ≠ .ok event) ∨ v = archived host pid w seed)
    ∧ ∀ event, r = .ok event ↔ ArchiveFits pid w seed
      ∧ ∃ archive, Admissible blake3 hash config pid host seed archive event := by
  rw [admitSeed_eq]
  have hobserve : Asks host w (observeSeed hash seed) _ := asks_observeSeed
  rcases hobserve.then_run _ with ⟨e, hrun, hnone⟩ | ⟨locks, ⟨hpresent, hlocks⟩, hrun⟩
  · refine ⟨w, _, hrun, .inl ⟨rfl, nofun⟩, fun event => ⟨nofun, ?_⟩⟩
    rintro ⟨-, archive, h⟩
    exact absurd ⟨h.present, h.locks⟩ (hnone _)
  · obtain ⟨r, hr, hevent⟩ := @runAlone_admitObserved blake3 hash config pid host w seed
      locks
    refine ⟨_, r, hrun.trans hr, .inr rfl, fun event => (hevent event).trans ⟨?_, ?_⟩⟩
    · rintro ⟨hprocess, archive, ⟨hfits, houtput⟩, hbounds, hadmit⟩
      have hsame : locks = config.expectedLocks := (admitCandidate_eq_ok.1 hadmit).1.locks
      subst hsame
      exact ⟨hfits, archive, hpresent, hlocks, hprocess, houtput, hbounds, hadmit⟩
    · rintro ⟨hfits, archive, h⟩
      rw [hlocks.eq h.locks]
      exact ⟨h.archived, archive, ⟨hfits, h.output⟩, h.bounded, h.admitted⟩

end Admitting

section Queueing

variable {codec : Codec} {pid : ℕ} {host : ExchangeHost} {w : Exchange}
  {event : AdmittedEventV1} {archive : Bytes} {source : String}

/-- The files of a job that a scan has queued. -/
structure JobFiles (codec : Codec) (event : AdmittedEventV1) (archive : Bytes)
    (files : Names Bytes) : Prop where
  eventJson : files.lookup "event.json" = some (codec.writeEvent event)
  sourceTar : files.lookup "source.tar" = some archive
  sourceBlake3 : files.lookup "source.blake3"
    = some (Bytes.utf8 (event.sourceArchiveBlake3 ++ "\n"))
  ready : files.lookup "ready" = some (Bytes.utf8 "ready\n")

theorem temporaryName_ne_of_head {f name : String} (h : name.toList.head? ≠ some '.') :
    name ≠ temporaryName pid f := by
  rintro rfl
  apply h
  have hdot : ".tmp-".toList = '.' :: "tmp-".toList := by decide +kernel
  simp only [temporaryName, String.toList_append, hdot, List.cons_append, List.head?_cons]

variable (codec pid host event) in
theorem runAlone_stageJob
    (hsource : w.queues.get .staging source = some (.file archive))
    (hne : source ≠ stagedJobName event.jobId)
    (hfile : ∀ bytes, w.queues.get .staging (stagedJobName event.jobId) ≠ some (.file bytes)) :
    ∃ files s, runAlone host (stageJob codec pid (.entry .staging source) event) w
        = (w.withQueues s, .ok ())
      ∧ s.get .staging (stagedJobName event.jobId) = some (.dir files)
      ∧ JobFiles codec event archive files
      ∧ s.get .staging source = none
      ∧ ∀ q n, ¬ (q = .staging ∧ (n = source ∨ n = stagedJobName event.jobId)) →
        s.get q n = w.queues.get q n := by
  -- no temporary name is that of a file of the job
  have htmp : ∀ f, ∀ name ∈ ["event.json", "source.tar", "source.blake3"],
      temporaryName pid f ≠ name := fun f name hname =>
    (temporaryName_ne_of_head ((by decide +kernel : ∀ name ∈ ["event.json", "source.tar",
      "source.blake3"], name.toList.head? ≠ some '.') name hname)).symm
  simp only [List.forall_mem_cons] at htmp
  unfold stageJob
  simp only []
  generalize stagedJobName event.jobId = staged at *
  have hget : ∀ (s : Spool Queue) files, (s.put .staging staged (some (.dir files))).get .staging
      staged = some (.dir files) := by simp
  have hstill : (w.queues.put .staging staged (some (.dir ((∅ : Names Bytes).assign "event.json"
      (some (codec.writeEvent event)))))).get .staging source = some (.file archive) := by
    simp [hne, hsource]
  rw [runAlone_bind_ok (runAlone_clearDirectory hfile),
    runAlone_bind_ok (runAlone_createDirectory_new (by simp))]
  simp only [withQueues_queues, withQueues_withQueues, Spool.put_put]
  rw [runAlone_bind_ok (runAlone_writeFile_inside (hget _ _) (AList.lookup_empty _)),
    runAlone_act_bind]
  simp only [withQueues_queues, withQueues_withQueues, Spool.put_put, exchangePerform_rename,
    Spool.rename_into hstill (hget _ _), change_ok, shellIo_ok, Prog.done_bind]
  rw [runAlone_bind_ok (runAlone_writeFile_inside (hget _ _) (by simp [htmp]))]
  simp only [withQueues_queues, withQueues_withQueues, Spool.put_put]
  rw [runAlone_writeFile_inside (hget _ _) (by simp [htmp])]
  simp only [withQueues_queues, withQueues_withQueues, Spool.put_put]
  refine ⟨_, _, rfl, hget _ _, ⟨by simp, by simp, by simp, by simp⟩, by simp [hne], ?_⟩
  intro q n hother
  simp only [not_and, not_or] at hother
  by_cases hq : q = .staging
  · simp [hother hq]
  · simp [hq]

/-- Nothing that an interrupted scan left is in the way of a new job. -/
structure JobFits (pid : ℕ) (w : Exchange) (job : String) : Prop where
  staged : ∀ bytes, w.queues.get .staging (stagedJobName job) ≠ some (.file bytes)
  incoming : ∀ x, w.queues.get .incoming job = some x → x = .dir ∅
  ledger : w.queues.get .ledger (temporaryName pid job) = none

theorem replaces_dir {files : Names Bytes} {target : Option Entry} :
    Spool.replaces (.dir files) target = .ok () ↔ ∀ x, target = some x → x = .dir ∅ := by
  rcases target with _ | bytes | there
  · simp [Spool.replaces]
  · simp [Spool.replaces]
  · have hempty : there.entries = [] ↔ there = ∅ := ⟨fun h => AList.ext h, fun h => h ▸ rfl⟩
    simp [Spool.replaces, hempty]

theorem runAlone_queueJob {files : Names Bytes}
    (hstaged : w.queues.get .staging (stagedJobName event.jobId) = some (.dir files))
    (hincoming : ∀ x, w.queues.get .incoming event.jobId = some x → x = .dir ∅)
    (htaken : w.queues.get .ledger (temporaryName pid event.jobId) = none)
    (hnew : w.queues.get .ledger event.jobId = none) :
    runAlone host (queueJob pid event) w
      = (w.withQueues (((w.queues.put .staging (stagedJobName event.jobId) none).put .incoming
          event.jobId (some (.dir files))).put .ledger event.jobId
            (some (.file (Bytes.utf8 (event.objectOid ++ "\n"))))), .ok ()) := by
  have hrename := Spool.rename_entry .incoming event.jobId hstaged nofun
    (replaces_dir.2 hincoming)
  unfold queueJob
  rw [runAlone_act_bind]
  simp only [exchangePerform_rename, hrename, change_ok, shellIo_ok, Prog.done_bind]
  rw [runAlone_writeFile_entry (by simpa using htaken) (by simpa using hnew)]
  simp only [withQueues_queues, withQueues_withQueues]

/-- Where the job cannot be queued, or not be noted, what is known stays as it is. -/
theorem runAlone_queueJob_error {files : Names Bytes}
    (hstaged : w.queues.get .staging (stagedJobName event.jobId) = some (.dir files))
    (h : ¬ ((∀ x, w.queues.get .incoming event.jobId = some x → x = .dir ∅)
      ∧ w.queues.get .ledger (temporaryName pid event.jobId) = none)) :
    ∃ s e, runAlone host (queueJob pid event) w = (w.withQueues s, .error e)
      ∧ (∀ n, s.get .ledger n = w.queues.get .ledger n)
      ∧ ∀ n, n ≠ event.jobId → s.get .incoming n = w.queues.get .incoming n := by
  unfold queueJob
  rw [runAlone_act_bind]
  by_cases hincoming : ∀ x, w.queues.get .incoming event.jobId = some x → x = .dir ∅
  · have hrename := Spool.rename_entry .incoming event.jobId hstaged nofun
      (replaces_dir.2 hincoming)
    obtain ⟨x, htaken⟩ := Option.ne_none_iff_exists'.1 fun hnone => h ⟨hincoming, hnone⟩
    simp only [exchangePerform_rename, hrename, change_ok, shellIo_ok, Prog.done_bind]
    have hlater : (w.withQueues ((w.queues.put .staging (stagedJobName event.jobId) none).put
        .incoming event.jobId (some (.dir files)))).queues.get .ledger
          (temporaryName pid event.jobId) = some x := by
      simpa using htaken
    obtain ⟨text, hwrite⟩ :=
      runAlone_writeFile_taken host (Bytes.utf8 (event.objectOid ++ "\n")) hlater
    exact ⟨_, text, hwrite, by simp, fun n hn => by simp [hn]⟩
  · obtain ⟨e, he⟩ : ∃ e, Spool.replaces (.dir files) (w.queues.get .incoming event.jobId)
        = .error e := by
      rcases hr : Spool.replaces (.dir files) (w.queues.get .incoming event.jobId) with e | ⟨⟩
      · exact ⟨e, rfl⟩
      · exact absurd (replaces_dir.1 hr) hincoming
    have hrename := Spool.rename_entry_error .incoming event.jobId hstaged nofun he
    simp only [exchangePerform_rename, hrename, change_error]
    exact ⟨w.queues, _, rfl, fun _ => rfl, fun _ _ => rfl⟩

end Queueing

section Exporting

variable {blake3 : Json → String} {hash : Bytes → String} {codec : Codec}
  {config : RunnerConfigV1} {pid : ℕ} {host : ExchangeHost} {w v : Exchange}
  {seed : CandidateSeed} {event : AdmittedEventV1}

/-- The job has its entry in the ledger. -/
def Known (w : Exchange) (job : String) : Prop := w.queues.get .ledger job ≠ none

/-- The candidate is admissible, and what lies in the queues lets it be exported. -/
structure Exports (blake3 : Json → String) (hash : Bytes → String) (config : RunnerConfigV1)
    (pid : ℕ) (host : ExchangeHost) (w : Exchange) (seed : CandidateSeed)
    (event : AdmittedEventV1) : Prop where
  admissible : ∃ archive, Admissible blake3 hash config pid host seed archive event
  archiveFits : ArchiveFits pid w seed
  jobFits : Known w event.jobId ∨ JobFits pid w event.jobId

/-- What an export has done. -/
structure Exported (codec : Codec) (pid : ℕ) (seed : CandidateSeed) (event : AdmittedEventV1)
    (w v : Exchange) : Prop where
  known : ∀ n, Known v n ↔ Known w n ∨ n = event.jobId
  queued : ¬ Known w event.jobId → ∃ archive files, JobFiles codec event archive files
    ∧ v.queues.get .incoming event.jobId = some (.dir files)
  kept : Known w event.jobId →
    v.queues.get .incoming event.jobId = w.queues.get .incoming event.jobId
  source : v.queues.get .staging (sourceName pid seed.objectOid) = none
  staged : ∀ bytes, v.queues.get .staging (stagedJobName event.jobId) = some (.file bytes) →
    w.queues.get .staging (stagedJobName event.jobId) = some (.file bytes)
  other : ∀ q n, ¬ (q = .staging ∧ (n = sourceName pid seed.objectOid
      ∨ n = stagedJobName event.jobId)) → ¬ (q = .incoming ∧ n = event.jobId) →
    ¬ (q = .ledger ∧ n = event.jobId) → v.queues.get q n = w.queues.get q n

variable (pid) in
theorem sourceName_ne (oid job : String) : sourceName pid oid ≠ stagedJobName job := by
  intro h
  have hhead := congrArg (fun s : String => s.toList.head?) h
  have hsource : "source-".toList = 's' :: "ource-".toList := by decide +kernel
  have hjob : "job-".toList = 'j' :: "ob-".toList := by decide +kernel
  simp only [sourceName, stagedJobName, String.toList_append, hsource, hjob, List.cons_append,
    List.head?_cons] at hhead
  exact absurd hhead (by decide)

theorem archived_eq {archive : Bytes}
    (h : Admissible blake3 hash config pid host seed archive event)
    (hfits : ArchiveFits pid w seed) :
    archived host pid w seed = w.withQueues (w.queues.put .staging
      (sourceName pid seed.objectOid) (some (.file archive))) := by
  rw [archived_of_fits hfits, h.output]
  rfl

/-- What follows the admission of a candidate. -/
theorem runAlone_admitted {archive : Bytes}
    (hadm : Admissible blake3 hash config pid host seed archive event)
    (hfits : ArchiveFits pid w seed) :
    runAlone host (exportCandidate blake3 hash codec config pid seed) w
      = runAlone host (do
          let known : Bool ← ExchangeProg.act (.pathExists (.entry .ledger event.jobId))
          if known then
            let _ ← ExchangeProg.act (.unlink (.entry .staging (sourceName pid seed.objectOid)))
            return
          stageJob codec pid (.entry .staging (sourceName pid seed.objectOid)) event
          queueJob pid event)
        (w.withQueues (w.queues.put .staging (sourceName pid seed.objectOid)
          (some (.file archive)))) := by
  obtain ⟨v, r, hrun, hv, hr⟩ := @runAlone_admitSeed blake3 hash config pid host w seed
  obtain rfl := (hr event).2 ⟨hfits, archive, hadm⟩
  obtain rfl : v = archived host pid w seed :=
    hv.resolve_left fun h => h.2 event rfl
  rw [archived_eq hadm hfits] at hrun
  unfold exportCandidate
  rw [runAlone_bind_ok hrun]

theorem export_known {archive : Bytes}
    (hadm : Admissible blake3 hash config pid host seed archive event)
    (hfits : ArchiveFits pid w seed) (hknown : Known w event.jobId) :
    runAlone host (exportCandidate blake3 hash codec config pid seed) w
      = (w.withQueues (w.queues.put .staging (sourceName pid seed.objectOid) none), .ok ()) := by
  obtain ⟨x, hx⟩ := Option.ne_none_iff_exists'.1 hknown
  rw [runAlone_admitted hadm hfits, runAlone_act_bind]
  simp only [exchangePerform_pathExists, withQueues_queues, Spool.find_entry, Spool.get_put, hx,
    Option.isSome_some, if_true, reduceCtorEq, false_and, if_false]
  rw [runAlone_act_bind]
  simp only [exchangePerform_unlink, withQueues_queues, Spool.unlink_entry (s := w.queues.put _ _ _)
    (Spool.get_put.trans (if_pos ⟨rfl, rfl⟩)), change_ok, withQueues_withQueues, Spool.put_put]
  rfl

theorem export_new {archive : Bytes}
    (hadm : Admissible blake3 hash config pid host seed archive event)
    (hfits : ArchiveFits pid w seed) (hnew : ¬ Known w event.jobId)
    (hjob : JobFits pid w event.jobId) :
    ∃ v, runAlone host (exportCandidate blake3 hash codec config pid seed) w = (v, .ok ())
      ∧ Exported codec pid seed event w v := by
  have hledger : w.queues.get .ledger event.jobId = none := not_not.1 hnew
  have hne := sourceName_ne pid seed.objectOid event.jobId
  have hput : (w.withQueues (w.queues.put .staging (sourceName pid seed.objectOid)
      (some (.file archive)))).queues.get .staging (sourceName pid seed.objectOid)
        = some (.file archive) := by
    simp
  obtain ⟨files, s, hstage, hstaged, hfiles, hsource, hother⟩ :=
    runAlone_stageJob codec pid host event hput hne (by simpa [hne.symm] using hjob.staged)
  have hsame : ∀ q n, ¬ (q = .staging ∧ (n = sourceName pid seed.objectOid
      ∨ n = stagedJobName event.jobId)) → s.get q n = w.queues.get q n := by
    intro q n h
    rw [hother q n h]
    simp only [withQueues_queues, Spool.get_put]
    exact if_neg fun h' => h ⟨h'.1, .inl h'.2⟩
  have hqueue := @runAlone_queueJob pid host (w.withQueues s) event files hstaged
    (by simpa [hsame] using hjob.incoming) (by simpa [hsame] using hjob.ledger)
    (by simpa [hsame] using hledger)
  rw [runAlone_admitted hadm hfits, runAlone_act_bind]
  simp only [exchangePerform_pathExists, withQueues_queues, Spool.find_entry, Spool.get_put, hledger,
    reduceCtorEq, false_and, if_false, Option.isSome_none, Bool.false_eq_true]
  rw [runAlone_bind_ok hstage, withQueues_withQueues, hqueue]
  refine ⟨_, rfl, ?_, ?_, ?_, ?_, ?_, ?_⟩
  · intro n
    simp only [Known, withQueues_queues, Spool.get_put]
    by_cases hn : n = event.jobId <;> simp [hn, hsame]
  · exact fun _ => ⟨archive, files, hfiles, by simp⟩
  · exact fun h => absurd h hnew
  · simp [hne, hsource]
  · simp
  · intro q n hstaging hincoming hnoted
    simp only [not_and, not_or] at hstaging
    simp only [withQueues_queues, Spool.get_put, hincoming, hnoted, if_false]
    rw [if_neg fun h => (hstaging h.1).2 h.2, hsame q n fun h => h.2.elim (hstaging h.1).1
      (hstaging h.1).2]

variable (codec) in
theorem Exports.exported (h : Exports blake3 hash config pid host w seed event) :
    ∃ v, runAlone host (exportCandidate blake3 hash codec config pid seed) w = (v, .ok ())
      ∧ Exported codec pid seed event w v := by
  obtain ⟨⟨archive, hadm⟩, hfits, hjob⟩ := h
  by_cases hknown : Known w event.jobId
  · refine ⟨_, export_known hadm hfits hknown, ?_⟩
    have hne := sourceName_ne pid seed.objectOid event.jobId
    refine ⟨fun n => ?_, fun h => absurd hknown h, fun _ => by simp, by simp,
      fun bytes hb => by simpa [hne.symm] using hb, fun q n hother _ _ => ?_⟩
    · simp only [Known, withQueues_queues, Spool.get_put, reduceCtorEq, false_and, if_false]
      exact ⟨.inl, fun h => h.elim id fun h => h ▸ hknown⟩
    · simp only [withQueues_queues, Spool.get_put]
      exact if_neg fun h => hother ⟨h.1, .inl h.2⟩
  · exact export_new hadm hfits hknown (hjob.resolve_left hknown)

/-- An export that fails leaves the ledger as it is, and the jobs it knows. -/
structure Unexported (w v : Exchange) : Prop where
  known : ∀ n, Known v n ↔ Known w n
  kept : ∀ n, Known w n → v.queues.get .incoming n = w.queues.get .incoming n

theorem unexported_of_eq (h : ∀ q n, q ≠ .staging → v.queues.get q n = w.queues.get q n) :
    Unexported w v :=
  ⟨fun n => by rw [Known, Known, h _ n (by decide)], fun n _ => h _ n (by decide)⟩

theorem unexported_archived : Unexported w (archived host pid w seed) := by
  refine unexported_of_eq fun q n hq => ?_
  by_cases hfits : ArchiveFits pid w seed
  · simp [archived_of_fits hfits, hq]
  · obtain ⟨files, hdir⟩ : ∃ files,
        w.queues.get .staging (sourceName pid seed.objectOid) = some (.dir files) := by
      simpa [ArchiveFits] using hfits
    rw [archived_of_dir hdir]

/-- A job that is new, and that something is in the way of. -/
theorem export_blocked {archive : Bytes}
    (hadm : Admissible blake3 hash config pid host seed archive event)
    (hfits : ArchiveFits pid w seed) (hnew : ¬ Known w event.jobId)
    (hjob : ¬ JobFits pid w event.jobId) :
    ∃ v e, runAlone host (exportCandidate blake3 hash codec config pid seed) w = (v, .error e)
      ∧ Unexported w v := by
  have hledger : w.queues.get .ledger event.jobId = none := not_not.1 hnew
  have hne := sourceName_ne pid seed.objectOid event.jobId
  rw [runAlone_admitted hadm hfits, runAlone_act_bind]
  simp only [exchangePerform_pathExists, withQueues_queues, Spool.find_entry, Spool.get_put, hledger,
    reduceCtorEq, false_and, if_false, Option.isSome_none, Bool.false_eq_true]
  by_cases hfile : ∃ bytes, w.queues.get .staging (stagedJobName event.jobId) = some (.file bytes)
  · obtain ⟨bytes, hfile⟩ := hfile
    have hstale : (w.withQueues (w.queues.put .staging (sourceName pid seed.objectOid)
        (some (.file archive)))).queues.get .staging (stagedJobName event.jobId)
          = some (.file bytes) := by
      simpa [hne.symm] using hfile
    obtain ⟨text, hclear⟩ :=
      runAlone_clearDirectory_file host "failed to clear stale staged job" hstale
    have hstage : runAlone host (stageJob codec pid
        (.entry .staging (sourceName pid seed.objectOid)) event) _ = _ :=
      runAlone_bind_error hclear
    rw [runAlone_bind_error hstage]
    exact ⟨_, _, rfl, unexported_of_eq fun q n hq => by simp [hq]⟩
  · have hput : (w.withQueues (w.queues.put .staging (sourceName pid seed.objectOid)
        (some (.file archive)))).queues.get .staging (sourceName pid seed.objectOid)
          = some (.file archive) := by
      simp
    obtain ⟨files, s, hstage, hstaged, -, -, hother⟩ :=
      runAlone_stageJob codec pid host event hput hne (by simpa [hne.symm] using hfile)
    have hsame : ∀ q n, q ≠ .staging → s.get q n = w.queues.get q n := by
      intro q n hq
      rw [hother q n fun h => hq h.1]
      simp [hq]
    obtain ⟨t, e, hqueue, hnoted, hincoming⟩ := @runAlone_queueJob_error pid host
      (w.withQueues s) event files hstaged (by
        rintro ⟨hincoming, htaken⟩
        exact hjob ⟨fun bytes hb => hfile ⟨bytes, hb⟩, by simpa [hsame] using hincoming,
          by simpa [hsame] using htaken⟩)
    rw [runAlone_bind_ok hstage, withQueues_withQueues, hqueue]
    refine ⟨_, e, rfl, fun n => ?_, fun n hn => ?_⟩
    · simp [Known, hnoted, hsame]
    · have hother : n ≠ event.jobId := fun h => hnew (h ▸ hn)
      simp [hincoming n hother, hsame]

variable (codec) in
theorem export_fails (h : ∀ event, ¬ Exports blake3 hash config pid host w seed event) :
    ∃ v e, runAlone host (exportCandidate blake3 hash codec config pid seed) w = (v, .error e)
      ∧ Unexported w v := by
  obtain ⟨v, r, hrun, hv, hr⟩ := @runAlone_admitSeed blake3 hash config pid host w seed
  rcases r with e | event
  · refine ⟨v, e, runAlone_bind_error hrun, ?_⟩
    rcases hv with ⟨rfl, -⟩ | rfl
    · exact unexported_of_eq fun _ _ _ => rfl
    · exact unexported_archived
  · obtain ⟨hfits, archive, hadm⟩ := (hr event).1 rfl
    have hjob : ¬ (Known w event.jobId ∨ JobFits pid w event.jobId) := fun hjob =>
      h event ⟨⟨archive, hadm⟩, hfits, hjob⟩
    exact export_blocked hadm hfits (fun hk => hjob (.inl hk)) fun hf => hjob (.inr hf)

theorem stagedJobName_inj {a b : String} (h : stagedJobName a = stagedJobName b) : a = b :=
  (String.append_right_inj _).1 h

/-- No digest is a temporary name. -/
theorem ne_temporaryName {job name : String} (h : Admission.blake3Digest job = true) :
    job ≠ temporaryName pid name := by
  refine temporaryName_ne_of_head fun hhead => ?_
  have hdigits := (of_decide_eq_true h).2
  have hdot := List.all_eq_true.1 hdigits '.' (List.mem_of_head? hhead)
  exact absurd hdot (by decide)

theorem Admissible.job_eq {archive : Bytes}
    (h : Admissible blake3 hash config pid host seed archive event) :
    event.jobId = deriveJobId blake3 config (candidateOf config seed config.expectedLocks)
      (hash archive) := by
  obtain ⟨-, rfl⟩ := admitCandidate_eq_ok.1 h.admitted
  rfl

/-- An export changes nothing about which candidates can be exported. -/
theorem Exported.exports_iff (hdone : Exported codec pid seed event w v)
    (hexports : Exports blake3 hash config pid host w seed event)
    (hdigest : Admission.blake3Digest event.jobId = true) {seed' : CandidateSeed}
    {event' : AdmittedEventV1} : Exports blake3 hash config pid host v seed' event'
      ↔ Exports blake3 hash config pid host w seed' event' := by
  have harchive : ArchiveFits pid v seed' ↔ ArchiveFits pid w seed' := by
    by_cases hsame : sourceName pid seed'.objectOid = sourceName pid seed.objectOid
    · have hw := hexports.archiveFits
      simp only [ArchiveFits] at hw
      simp only [ArchiveFits, hsame, hdone.source]
      exact ⟨fun _ => hw, fun _ => nofun⟩
    · simp only [ArchiveFits]
      rw [hdone.other _ _ (fun h => h.2.elim hsame (sourceName_ne _ _ _)) (by simp) (by simp)]
  have hjob : Known v event'.jobId ∨ JobFits pid v event'.jobId
      ↔ Known w event'.jobId ∨ JobFits pid w event'.jobId := by
    by_cases hsame : event'.jobId = event.jobId
    · rw [hsame]
      exact ⟨fun _ => hexports.jobFits, fun _ => .inl ((hdone.known _).2 (.inr rfl))⟩
    · have hfits : JobFits pid v event'.jobId ↔ JobFits pid w event'.jobId := by
        have hstaged := hdone.other .staging (stagedJobName event'.jobId)
          (fun h => h.2.elim (fun h => sourceName_ne _ _ _ h.symm)
            fun h => hsame (stagedJobName_inj h)) (by simp) (by simp)
        have hincoming := hdone.other .incoming event'.jobId (by simp) (fun h => hsame h.2)
          (by simp)
        have htaken := hdone.other .ledger (temporaryName pid event'.jobId) (by simp) (by simp)
          fun h => ne_temporaryName hdigest h.2.symm
        constructor
        · rintro ⟨h₁, h₂, h₃⟩
          exact ⟨hstaged ▸ h₁, hincoming ▸ h₂, htaken ▸ h₃⟩
        · rintro ⟨h₁, h₂, h₃⟩
          exact ⟨hstaged ▸ h₁, hincoming ▸ h₂, htaken ▸ h₃⟩
      rw [hfits, hdone.known]
      simp [hsame]
  exact ⟨fun h => ⟨h.admissible, harchive.1 h.archiveFits, hjob.1 h.jobFits⟩,
    fun h => ⟨h.admissible, harchive.2 h.archiveFits, hjob.2 h.jobFits⟩⟩

end Exporting

/-! ### A repository with one proposed patch -/

def promotedProposal : ProposedPatch := ⟨promotedPatch, promotedRevision, promotedHead⟩

def mainHead : CanonicalHead := ⟨"refs/heads/main", promotedBase⟩

def lockedFile : Bytes := Bytes.ascii "locked"

def changedFile : Bytes := Bytes.ascii "changed"

def sourceArchive : Bytes := Bytes.ascii "archive"

def promotedHash (bytes : Bytes) : String :=
  if bytes = sourceArchive then promotedEvent.sourceArchiveBlake3
  else if bytes = lockedFile then promotedCiPolicy
  else promotedHead ++ promotedHead

def processOutput (bytes : Bytes) : Except String ExecutionOutput :=
  .ok ⟨.succeeded, some 0, ⟨bytes, bytes.length, false⟩, ⟨[], 0, false⟩⟩

/-- A repository whose canonical head has `file` for each of its control files. -/
def repositoryHost (file : Bytes) : ExchangeHost
  | .readDir _ => []
  | .pathExists _ => false
  | .isDir _ => false
  | .isFile _ => false
  | .read _ => .error .notFound
  | .createDir _ _ => .error .notFound
  | .createNew _ => .error .notFound
  | .write _ _ => .error .notFound
  | .rename _ _ => .error .notFound
  | .openDir _ _ => .error .notFound
  | .unlink _ => .error .notFound
  | .removeDir _ _ => .error .notFound
  | .parseRid => true
  | .openRepository => .ok ()
  | .delegates => .ok promotedDelegates
  | .head => .ok mainHead
  | .openPatches => .ok ()
  | .proposed => .ok [promotedProposal]
  | .gitCatFile _ => processOutput []
  | .gitShow oid _ => processOutput (if oid = promotedBase then file else lockedFile)
  | .gitArchive _ _ => (processOutput [], some sourceArchive)
  | .resetWork _ => .ok ()
  | .extractArchive _ => processOutput []
  | .readWorktree _ _ => .ok lockedFile
  | .sealSource _ => .ok ()
  | .nixArchive _ => processOutput []
  | .nixBuild _ _ => processOutput []
  | .keepArtifact _ _ => .ok ()
  | .radComment _ _ _ _ => (processOutput [], true)

def emptyExchange : Exchange := ⟨fun _ => ∅, []⟩

def eventFile : Bytes := Bytes.ascii "event"

def resultFile : Bytes := Bytes.ascii "result"

/-- Reads and writes one document of each kind. -/
def promotedCodec : Codec where
  writeEvent _ := eventFile
  readEvent bytes :=
    if bytes = eventFile then .ok promotedEvent else .error "expected value at line 1 column 1"
  writeResult _ := resultFile
  readResult bytes :=
    if bytes = resultFile then .ok promotedResult else .error "expected value at line 1 column 1"
  writeStatus _ := "{}"

/-- The archive is the one that the event names. -/
example : promotedHash sourceArchive = promotedEvent.sourceArchiveBlake3 := by decide +kernel

theorem promotedProposal_admissible (file : Bytes) :
    Admissible signedBlake3 promotedHash promotedConfig 7 (repositoryHost file)
      (patchSeed promotedProposal) sourceArchive promotedEvent := by
  have hlocks : promotedHash lockedFile = promotedCiPolicy := by decide +kernel
  have hfile : ∀ name, controlDigest promotedHash (repositoryHost file) promotedHead name
      = some promotedCiPolicy := fun name => by
    have hne : promotedHead ≠ promotedBase := by decide +kernel
    simp [controlDigest, repositoryHost, processOutput, hne, hlocks]
  have hvalid := validateEvent_eq_ok.1 promotedEvent_valid
  have hdigest : promotedHash sourceArchive = promotedEvent.sourceArchiveBlake3 := by
    decide +kernel
  have hcandidate : candidateOf promotedConfig (patchSeed promotedProposal)
      promotedConfig.expectedLocks = eventCandidate promotedEvent := by decide +kernel
  refine ⟨rfl, ⟨hfile _, hfile _, hfile _, hfile _⟩, rfl, rfl, by decide +kernel, ?_⟩
  rw [hdigest, hcandidate, admitCandidate_eq_ok]
  refine ⟨⟨hvalid.valid, rfl, hvalid.oid, rfl, rfl, rfl, rfl, hvalid.trigger, rfl,
    hvalid.digest⟩, ?_⟩
  rw [admittedEvent, ← hvalid.job]
  rfl

end OnixCore.RadicleCi
