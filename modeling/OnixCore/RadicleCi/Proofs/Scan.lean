import OnixCore.RadicleCi.Proofs.Candidates
import OnixCore.RadicleCi.Proofs.Publication

/-!
# Which candidates a scan queues

A scan exports the canonical head and then each proposed patch, and stops at the first that cannot
be exported. So it treats the candidates independently of each other only where none is in the
way, or where those behind it bring nothing new (`scan_independent_iff`).
-/

namespace OnixCore.RadicleCi

section Scanning

variable {blake3 : Json → String} {hash : Bytes → String} {codec : Codec}
  {config : RunnerConfigV1} {pid : ℕ} {host : ExchangeHost} {u v w : Exchange}
  {seed : CandidateSeed} {event : AdmittedEventV1} {jobs more : String → Prop} {n : String}

/-- The complete directory of the job is in the queue. -/
def InQueue (codec : Codec) (w : Exchange) (job : String) : Prop :=
  ∃ event archive files, event.jobId = job ∧ JobFiles codec event archive files
    ∧ w.queues.get .incoming job = some (.dir files)

/-- `job` is what the candidate is admitted as, looked at on its own. -/
def IsJob (blake3 : Json → String) (hash : Bytes → String) (config : RunnerConfigV1) (pid : ℕ)
    (host : ExchangeHost) (seed : CandidateSeed) (job : String) : Prop :=
  ∃ archive event, Admissible blake3 hash config pid host seed archive event ∧ event.jobId = job

/-- The jobs that became known, and they are all in the queue. -/
structure Advances (codec : Codec) (w v : Exchange) (jobs : String → Prop) : Prop where
  known : ∀ n, Known v n ↔ Known w n ∨ jobs n
  queued : ∀ n, ¬ Known w n → Known v n → InQueue codec v n
  kept : ∀ n, Known w n → v.queues.get .incoming n = w.queues.get .incoming n

theorem Advances.refl (w : Exchange) : Advances codec w w fun _ => False :=
  ⟨fun n => by simp, fun n h h' => absurd h' h, fun _ _ => rfl⟩

theorem Advances.trans (h : Advances codec w u jobs) (h' : Advances codec u v more) :
    Advances codec w v fun n => jobs n ∨ more n := by
  refine ⟨fun n => by rw [h'.known, h.known, or_assoc], fun n hw hv => ?_, fun n hw => ?_⟩
  · by_cases hu : Known u n
    · obtain ⟨event, archive, files, hid, hfiles, hdir⟩ := h.queued n hw hu
      exact ⟨event, archive, files, hid, hfiles, (h'.kept n hu).trans hdir⟩
    · exact h'.queued n hu hv
  · rw [h'.kept n ((h.known n).2 (.inl hw)), h.kept n hw]

theorem Exported.advances (h : Exported codec pid seed event w v) :
    Advances codec w v (· = event.jobId) := by
  refine ⟨h.known, fun n hw hv => ?_, fun n hw => ?_⟩
  · obtain rfl : n = event.jobId := ((h.known n).1 hv).resolve_left hw
    obtain ⟨archive, files, hfiles, hdir⟩ := h.queued hw
    exact ⟨event, archive, files, rfl, hfiles, hdir⟩
  · by_cases hn : n = event.jobId
    · subst hn
      exact h.kept hw
    · exact h.other _ _ (by simp) (fun h => hn h.2) (by simp)

theorem Unexported.advances (h : Unexported w v) : Advances codec w v fun _ => False :=
  ⟨fun n => by rw [h.known, or_false], fun n hw hv => absurd ((h.known n).1 hv) hw, h.kept⟩

/-- Exports the candidates one after the other, up to the first that cannot be. -/
def exportAll (blake3 : Json → String) (hash : Bytes → String) (codec : Codec)
    (config : RunnerConfigV1) (pid : ℕ) (host : ExchangeHost) (seeds : List CandidateSeed)
    (w : Exchange) : Exchange × Except String Unit :=
  runEach (fun seed w => runAlone host (exportCandidate blake3 hash codec config pid seed) w)
    seeds w

variable (codec) in
theorem exportAll_cons (h : Exports blake3 hash config pid host w seed event)
    (seeds : List CandidateSeed) : ∃ u, Exported codec pid seed event w u
      ∧ exportAll blake3 hash codec config pid host (seed :: seeds) w
        = exportAll blake3 hash codec config pid host seeds u := by
  obtain ⟨u, hrun, hdone⟩ := h.exported codec
  exact ⟨u, hdone, runEach_cons_ok hrun⟩

theorem exportAll_stops (h : ∀ event, ¬ Exports blake3 hash config pid host w seed event)
    (seeds : List CandidateSeed) :
    Unexported w (exportAll blake3 hash codec config pid host (seed :: seeds) w).1 := by
  obtain ⟨v, e, hrun, hdone⟩ := export_fails codec h
  have hstop : exportAll blake3 hash codec config pid host (seed :: seeds) w = (v, .error e) :=
    runEach_cons_error hrun
  rw [hstop]
  exact hdone

/-- Only jobs of admissible candidates are queued. -/
theorem exportAll_advances : ∀ (seeds : List CandidateSeed) (w : Exchange), ∃ jobs,
    Advances codec w (exportAll blake3 hash codec config pid host seeds w).1 jobs
      ∧ ∀ n, jobs n → ∃ seed ∈ seeds, IsJob blake3 hash config pid host seed n
  | [], w => ⟨_, .refl w, fun _ h => h.elim⟩
  | seed :: seeds, w => by
    by_cases h : ∃ event, Exports blake3 hash config pid host w seed event
    · obtain ⟨event, hexports⟩ := h
      obtain ⟨u, hdone, hrun⟩ := exportAll_cons codec hexports seeds
      obtain ⟨jobs, hrest, hjobs⟩ := exportAll_advances seeds u
      rw [hrun]
      refine ⟨_, hdone.advances.trans hrest, fun n hn => ?_⟩
      rcases hn with rfl | hn
      · obtain ⟨archive, hadm⟩ := hexports.admissible
        exact ⟨seed, List.mem_cons_self, archive, event, hadm, rfl⟩
      · obtain ⟨other, hmem, hjob⟩ := hjobs n hn
        exact ⟨other, List.mem_cons_of_mem _ hmem, hjob⟩
    · exact ⟨_, (exportAll_stops (not_exists.1 h) seeds).advances, fun _ h => h.elim⟩

/-- Where nothing is in the way, every admissible candidate's job is known afterwards. -/
theorem exportAll_known (hblake3 : ∀ json, Admission.blake3Digest (blake3 json) = true) :
    ∀ (seeds : List CandidateSeed) (w : Exchange),
      (∀ seed ∈ seeds, ∃ event, Exports blake3 hash config pid host w seed event) →
      ∀ seed ∈ seeds, ∀ n, IsJob blake3 hash config pid host seed n →
        Known (exportAll blake3 hash codec config pid host seeds w).1 n
  | [], _, _, seed, hmem, _, _ => absurd hmem (List.not_mem_nil)
  | first :: seeds, w, hall, seed, hmem, n, hjob => by
    obtain ⟨event, hexports⟩ := hall first List.mem_cons_self
    obtain ⟨u, hdone, hrun⟩ := exportAll_cons codec hexports seeds
    have hdigest : Admission.blake3Digest event.jobId = true := by
      obtain ⟨archive, hadm⟩ := hexports.admissible
      rw [hadm.job_eq]
      exact hblake3 _
    rw [hrun]
    rcases List.mem_cons.1 hmem with rfl | hmem
    · obtain ⟨archive, event', hadm', rfl⟩ := hjob
      obtain ⟨archive', hadm⟩ := hexports.admissible
      obtain rfl : archive' = archive := Option.some.inj (hadm.output.symm.trans hadm'.output)
      obtain rfl : event' = event := Except.ok.inj (hadm'.admitted.symm.trans hadm.admitted)
      obtain ⟨jobs, hrest, -⟩ := @exportAll_advances blake3 hash codec config pid host seeds u
      exact (hrest.known _).2 (.inl ((hdone.known _).2 (.inr rfl)))
    · refine exportAll_known hblake3 seeds u (fun other hother => ?_) seed hmem n hjob
      obtain ⟨event', h⟩ := hall other (List.mem_cons_of_mem _ hother)
      exact ⟨event', (hdone.exports_iff hexports hdigest).2 h⟩

end Scanning

section Scan

variable {blake3 : Json → String} {hash : Bytes → String} {codec : Codec}
  {config : RunnerConfigV1} {pid : ℕ} {host : ExchangeHost} {v w : Exchange}
  {head : CanonicalHead} {patches listing : List ProposedPatch}

/-- The repository can be read, and is the configured one. -/
structure Scannable (config : RunnerConfigV1) (host : ExchangeHost) (head : CanonicalHead) :
    Prop where
  parsed : host .parseRid = true
  opened : host .openRepository = .ok ()
  delegates : ∃ actual, host .delegates = .ok actual
    ∧ actual.insertionSort (· ≤ ·) = config.delegates.insertionSort (· ≤ ·)
  head : host .head = .ok head
  store : host .openPatches = .ok ()

/-- The host, where these are the proposed patches, in this order. -/
def ExchangeHost.withProposed (host : ExchangeHost) (patches : List ProposedPatch) : ExchangeHost
  | .proposed => .ok patches
  | i => host i

def candidates (head : CanonicalHead) (patches : List ProposedPatch) : List CandidateSeed :=
  canonicalSeed head :: patches.map patchSeed

/-- The job was not known, and now it is, and it is in the queue. -/
def Queued (codec : Codec) (w v : Exchange) (job : String) : Prop :=
  ¬ Known w job ∧ Known v job ∧ InQueue codec v job

/-- The new jobs of the scan are those of the candidates that are admissible on their own. -/
def Independent (blake3 : Json → String) (hash : Bytes → String) (codec : Codec)
    (config : RunnerConfigV1) (pid : ℕ) (host : ExchangeHost) (seeds : List CandidateSeed)
    (w v : Exchange) : Prop :=
  ∀ job, Queued codec w v job
    ↔ ¬ Known w job ∧ ∃ seed ∈ seeds, IsJob blake3 hash config pid host seed job

theorem runAlone_scan (h : Scannable config host head) (hlisting : host .proposed = .ok listing) :
    runAlone host (scan blake3 hash codec config pid) w
      = exportAll blake3 hash codec config pid host (candidates head listing) w := by
  obtain ⟨hparsed, hopened, ⟨actual, hdelegates, hsorted⟩, hhead, hstore⟩ := h
  have hverify : runAlone host (verifyDelegates config) w = (w, .ok ()) := by
    unfold verifyDelegates
    rw [runAlone_act_bind]
    simp only [exchangePerform_delegates, hdelegates, shellText_ok, Prog.done_bind, Prog.check_pos hsorted]
    rfl
  unfold scan
  rw [runAlone_act_bind]
  simp only [exchangePerform_parseRid, hparsed, Prog.check_pos, Prog.done_bind]
  rw [runAlone_act_bind]
  simp only [exchangePerform_openRepository, hopened, shellText_ok, Prog.done_bind]
  rw [runAlone_bind_ok hverify, runAlone_act_bind]
  simp only [exchangePerform_head, hhead, shellText_ok, Prog.done_bind]
  rcases hexport : runAlone host (exportCandidate blake3 hash codec config pid
    (canonicalSeed head)) w with ⟨u, e | ⟨⟩⟩
  · have hstop : exportAll blake3 hash codec config pid host (candidates head listing) w
        = (u, .error e) := runEach_cons_error hexport
    rw [runAlone_bind_error hexport, hstop]
  · rw [runAlone_bind_ok hexport, runAlone_act_bind]
    simp only [exchangePerform_openPatches, hstore, shellText_ok, Prog.done_bind]
    rw [runAlone_act_bind]
    simp only [exchangePerform_proposed, hlisting, shellText_ok, Prog.done_bind]
    have hrest : exportAll blake3 hash codec config pid host (candidates head listing) w
        = exportAll blake3 hash codec config pid host (listing.map patchSeed) u :=
      runEach_cons_ok hexport
    rw [hrest, exportAll, runEach_map]
    exact Prog.eval_forM _ _ _

theorem withProposed_admissible {seed : CandidateSeed} {archive : Bytes} {event : AdmittedEventV1} :
    Admissible blake3 hash config pid (host.withProposed listing) seed archive event
      ↔ Admissible blake3 hash config pid host seed archive event :=
  ⟨fun ⟨h₁, ⟨a, b, c, d⟩, h₃, h₄, h₅, h₆⟩ => ⟨h₁, ⟨a, b, c, d⟩, h₃, h₄, h₅, h₆⟩,
    fun ⟨h₁, ⟨a, b, c, d⟩, h₃, h₄, h₅, h₆⟩ => ⟨h₁, ⟨a, b, c, d⟩, h₃, h₄, h₅, h₆⟩⟩

theorem withProposed_isJob {seed : CandidateSeed} {job : String} :
    IsJob blake3 hash config pid (host.withProposed listing) seed job
      ↔ IsJob blake3 hash config pid host seed job := by
  simp only [IsJob, withProposed_admissible]

variable (listing) in
theorem withProposed_exports {seed : CandidateSeed} {event : AdmittedEventV1} :
    Exports blake3 hash config pid (host.withProposed listing) w seed event
      ↔ Exports blake3 hash config pid host w seed event := by
  constructor
  · rintro ⟨hadm, harchive, hjob⟩
    exact ⟨by simpa only [withProposed_admissible] using hadm, harchive, hjob⟩
  · rintro ⟨hadm, harchive, hjob⟩
    exact ⟨by simpa only [withProposed_admissible] using hadm, harchive, hjob⟩

theorem withProposed_scannable (h : Scannable config host head) :
    Scannable config (host.withProposed listing) head :=
  ⟨h.parsed, h.opened, h.delegates, h.head, h.store⟩

/-- A scan that queues only admissible candidates' jobs has to queue all of them. -/
theorem independent_exportAll {seeds : List CandidateSeed} :
    Independent blake3 hash codec config pid host seeds w
        (exportAll blake3 hash codec config pid host seeds w).1
      ↔ ∀ seed ∈ seeds, ∀ n, IsJob blake3 hash config pid host seed n →
        Known (exportAll blake3 hash codec config pid host seeds w).1 n := by
  obtain ⟨jobs, hdone, hjobs⟩ := @exportAll_advances blake3 hash codec config pid host seeds w
  constructor
  · intro h seed hmem n hjob
    by_cases hknown : Known w n
    · exact (hdone.known n).2 (.inl hknown)
    · exact ((h n).2 ⟨hknown, seed, hmem, hjob⟩).2.1
  · intro h job
    constructor
    · rintro ⟨hnew, hknown, -⟩
      exact ⟨hnew, hjobs job (((hdone.known job).1 hknown).resolve_left hnew)⟩
    · rintro ⟨hnew, seed, hmem, hjob⟩
      have hknown := h seed hmem job hjob
      exact ⟨hnew, hknown, hdone.queued job hnew hknown⟩

theorem scan_independent (hscannable : Scannable config host head) (hperm : listing.Perm patches) :
    Independent blake3 hash codec config pid host (candidates head patches) w
        (runAlone (host.withProposed listing) (scan blake3 hash codec config pid) w).1
      ↔ ∀ seed ∈ candidates head patches, ∀ n, IsJob blake3 hash config pid host seed n →
        Known (exportAll blake3 hash codec config pid (host.withProposed listing)
          (candidates head listing) w).1 n := by
  have hmem : ∀ seed, seed ∈ candidates head listing ↔ seed ∈ candidates head patches :=
    fun seed => ((hperm.map patchSeed).cons (canonicalSeed head)).mem_iff
  have h := @independent_exportAll blake3 hash codec config pid (host.withProposed listing) w
    (candidates head listing)
  simp only [Independent, withProposed_isJob, hmem] at h ⊢
  rw [runAlone_scan (withProposed_scannable hscannable) rfl]
  exact h

/-- Where the first of two candidates is exported and the second cannot be, only the first one's
job becomes known. -/
theorem exportAll_second (hblake3 : ∀ json, Admission.blake3Digest (blake3 json) = true)
    {first second : CandidateSeed} {event : AdmittedEventV1} {seeds : List CandidateSeed}
    (hfirst : Exports blake3 hash config pid host w first event)
    (hsecond : ∀ event, ¬ Exports blake3 hash config pid host w second event) {n : String} :
    Known (exportAll blake3 hash codec config pid host (first :: second :: seeds) w).1 n
      ↔ Known w n ∨ n = event.jobId := by
  obtain ⟨u, hdone, hrun⟩ := exportAll_cons codec hfirst (second :: seeds)
  have hdigest : Admission.blake3Digest event.jobId = true := by
    obtain ⟨archive, hadm⟩ := hfirst.admissible
    rw [hadm.job_eq]
    exact hblake3 _
  have hstops : ∀ event', ¬ Exports blake3 hash config pid host u second event' :=
    fun event' h => hsecond event' ((hdone.exports_iff hfirst hdigest).1 h)
  rw [hrun, (exportAll_stops hstops seeds).known, hdone.known]

/-- In any listing order a scan queues the jobs of exactly the candidates that are admissible on
their own, if and only if each candidate is, with nothing in its way, or no admissible one has a
job that is not known once the canonical head is handled. -/
theorem scan_independent_iff (hblake3 : ∀ json, Admission.blake3Digest (blake3 json) = true)
    (hscannable : Scannable config host head) :
    (∀ listing, listing.Perm patches →
        Independent blake3 hash codec config pid host (candidates head patches) w
          (runAlone (host.withProposed listing) (scan blake3 hash codec config pid) w).1)
      ↔ (∀ seed ∈ candidates head patches,
          ∃ event, Exports blake3 hash config pid host w seed event)
        ∨ ∀ seed ∈ candidates head patches, ∀ job, IsJob blake3 hash config pid host seed job →
          Known w job ∨ ∃ event, Exports blake3 hash config pid host w (canonicalSeed head) event
            ∧ event.jobId = job := by
  constructor
  · intro h
    by_contra hneither
    obtain ⟨hblocked, hnews⟩ := not_or.1 hneither
    apply hnews
    intro seed hmem job hjob
    by_cases hhead : ∃ event, Exports blake3 hash config pid host w (canonicalSeed head) event
    · obtain ⟨event, hexports⟩ := hhead
      -- a patch that cannot be exported, listed first
      obtain ⟨patch, hpatch, hblocked⟩ : ∃ patch ∈ patches,
          ∀ event, ¬ Exports blake3 hash config pid host w (patchSeed patch) event := by
        by_contra hnone
        apply hblocked
        intro other hother
        rcases List.mem_cons.1 hother with rfl | hother
        · exact ⟨event, hexports⟩
        · obtain ⟨patch, hpatch, rfl⟩ := List.mem_map.1 hother
          by_contra hother
          exact hnone ⟨patch, hpatch, not_exists.1 hother⟩
      have hperm := (List.perm_cons_erase hpatch).symm
      have hknown := (scan_independent hscannable hperm).1 (h _ hperm) seed hmem job hjob
      rw [candidates, List.map_cons, exportAll_second hblake3 ((withProposed_exports _).2 hexports)
        fun event' h => hblocked event' ((withProposed_exports _).1 h)] at hknown
      exact hknown.imp_right fun hsame => ⟨event, hexports, hsame.symm⟩
    · have hknown := (scan_independent hscannable (.refl _)).1 (h patches (.refl _)) seed hmem job
        hjob
      rw [candidates, (exportAll_stops (fun event h => hhead
        ⟨event, (withProposed_exports _).1 h⟩) _).known] at hknown
      exact .inl hknown
  · intro h listing hperm
    rw [scan_independent hscannable hperm]
    intro seed hmem n hjob
    have hsame : ∀ other, other ∈ candidates head listing ↔ other ∈ candidates head patches :=
      fun other => ((hperm.map patchSeed).cons (canonicalSeed head)).mem_iff
    rcases h with hall | hnews
    · refine exportAll_known hblake3 _ w (fun other hother => ?_) seed ((hsame seed).2 hmem) n
        (withProposed_isJob.2 hjob)
      obtain ⟨event, hexports⟩ := hall other ((hsame other).1 hother)
      exact ⟨event, (withProposed_exports _).2 hexports⟩
    · obtain ⟨jobs, hdone, -⟩ := @exportAll_advances blake3 hash codec config pid
        (host.withProposed listing) (candidates head listing) w
      rcases hnews seed hmem n hjob with hknown | ⟨event, hexports, rfl⟩
      · exact (hdone.known n).2 (.inl hknown)
      · obtain ⟨u, hfirst, hrun⟩ := exportAll_cons codec
          ((withProposed_exports listing).2 hexports) (listing.map patchSeed)
        obtain ⟨jobs', hrest, -⟩ := @exportAll_advances blake3 hash codec config pid
          (host.withProposed listing) (listing.map patchSeed) u
        rw [candidates, hrun]
        exact (hrest.known _).2 (.inl ((hfirst.known _).2 (.inr rfl)))

end Scan

theorem scannable_repositoryHost (file : Bytes) :
    Scannable promotedConfig (repositoryHost file) mainHead :=
  ⟨rfl, rfl, ⟨promotedDelegates, rfl, rfl⟩, rfl, rfl⟩

theorem mainHead_admissible : Admissible signedBlake3 promotedHash promotedConfig 7
    (repositoryHost lockedFile) (canonicalSeed mainHead) sourceArchive
    (admittedEvent signedBlake3 promotedConfig
      (candidateOf promotedConfig (canonicalSeed mainHead) promotedConfig.expectedLocks)
      (promotedHash sourceArchive)) := by
  have hlocks : promotedHash lockedFile = promotedCiPolicy := by decide +kernel
  have hfile : ∀ name, controlDigest promotedHash (repositoryHost lockedFile) promotedBase name
      = some promotedCiPolicy := fun name => by
    simp [controlDigest, repositoryHost, processOutput, hlocks]
  have htrigger : validateTrigger
      (candidateOf promotedConfig (canonicalSeed mainHead) promotedConfig.expectedLocks)
        = .ok () := by
    decide +kernel
  exact ⟨rfl, ⟨hfile _, hfile _, hfile _, hfile _⟩, rfl, rfl, by decide +kernel,
    admitCandidate_eq_ok.2 ⟨⟨promotedConfig_valid, rfl, by decide +kernel, rfl, rfl, rfl, rfl,
      htrigger, rfl, by decide +kernel⟩, rfl⟩⟩

theorem lockedHead_independent : Independent signedBlake3 promotedHash promotedCodec promotedConfig 7
    (repositoryHost lockedFile) (candidates mainHead []) emptyExchange
    (runAlone ((repositoryHost lockedFile).withProposed [])
      (scan signedBlake3 promotedHash promotedCodec promotedConfig 7) emptyExchange).1 := by
  refine (scan_independent_iff signedBlake3_digest (scannable_repositoryHost _)).2 (.inl ?_) []
    (List.Perm.refl _)
  intro seed hseed
  obtain rfl := List.mem_singleton.1 hseed
  exact ⟨_, ⟨_, mainHead_admissible⟩, nofun, .inr ⟨nofun, nofun, rfl⟩⟩

/-- The canonical head has other control files, and nothing is queued of the patch behind it. -/
theorem changedHead_blocks : ¬ Independent signedBlake3 promotedHash promotedCodec promotedConfig 7
    (repositoryHost changedFile) (candidates mainHead [promotedProposal]) emptyExchange
    (runAlone (repositoryHost changedFile)
      (scan signedBlake3 promotedHash promotedCodec promotedConfig 7) emptyExchange).1 := by
  have hchanged : promotedHash changedFile ≠ promotedCiPolicy := by decide +kernel
  have hhead : ∀ event, ¬ Exports signedBlake3 promotedHash promotedConfig 7
      (repositoryHost changedFile) emptyExchange (canonicalSeed mainHead) event := by
    rintro event ⟨⟨archive, hadm⟩, -, -⟩
    exact hchanged (Option.some.inj hadm.locks.cargoToml)
  rw [runAlone_scan (scannable_repositoryHost _) rfl]
  intro h
  have hqueued := (h promotedJob).2 ⟨fun hk => hk rfl, patchSeed promotedProposal,
    List.mem_cons_of_mem _ List.mem_cons_self, sourceArchive, promotedEvent,
    promotedProposal_admissible changedFile, rfl⟩
  exact hqueued.1 (((exportAll_stops hhead _).known _).1 hqueued.2.1)

end OnixCore.RadicleCi
