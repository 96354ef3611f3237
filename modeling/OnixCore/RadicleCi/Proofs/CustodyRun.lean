import OnixCore.RadicleCi.Proofs.CustodyPublish
import OnixCore.RadicleCi.Proofs.CustodyScan

/-!
# The custody of the runner

Only the runner takes jobs out of `incoming` and has them in `processing`. It removes a claimed copy
where the queue has another one or its result is delivered, takes an old result away where the
claimed copy is all there, and rejects what it could not execute.
-/

namespace OnixCore.RadicleCi

section Copies

variable {codec : Codec} {job : String} {x : Entry} {slot : Option Entry} {P : Noted → Prop}
  {v : JobView}

theorem Owned.isDir (h : Owned codec job x) : ∃ files, x = .dir files := by
  obtain ⟨files, rfl, -⟩ := h
  exact ⟨files, rfl⟩

/-- Where a directory takes a place, the place was free. -/
theorem Owned.free (h : Owned codec job x) (hreplaces : Spool.replaces x slot = .ok ()) :
    Free slot := by
  obtain ⟨files, rfl⟩ := h.isDir
  exact replaces_dir.1 hreplaces

theorem Owned.lessens (h : Owned codec job x) (hless : Lessens (some x) slot) :
    ∀ y, slot = some y → Owned codec job y := by
  obtain ⟨files, ⟨⟩, rfl | ⟨f, rfl⟩⟩ := hless
  · exact nofun
  · rintro _ ⟨⟩
    refine ⟨_, rfl, fun bytes hbytes => ?_⟩
    obtain ⟨_, ⟨⟩, howned⟩ := h
    rw [Names.lookup_assign] at hbytes
    split_ifs at hbytes
    exact howned bytes hbytes

/-- Removes a claimed copy that is not needed any more. -/
theorem does_drop (hP : Lasts codec .runNext P)
    (hother : ∀ s, P s → s.1.queues.get .incoming job ≠ none ∨ (view s job).Delivered)
    (hkeep : ∀ s slot, P s → P (s.1.withQueues (s.1.queues.put .processing job slot), s.2)) :
    Does codec .runNext P (removeDirAll .processing job) (fun _ => P) P := by
  refine .removes (q := .processing) ⟨nofun, nofun⟩ (uses_removeDirAll _ _) hP
    (fun s slot hs hPs hless => ?_) hkeep
  obtain ⟨files, hdir, -⟩ := id hless
  have howned := ((hs.sound job).processing _ hdir).1
  rw [hdir] at hless
  exact .drop hdir (howned.lessens hless) (hother s hPs)

/-- A rename between two queues, of the job that is there. -/
theorem does_move (q q' : Queue) (hP : Lasts codec .runNext P) (hq : q ≠ .staging ∧ q ≠ .ledger)
    (hq' : q' ≠ .staging ∧ q' ≠ .ledger) (hne : q ≠ q') {Q : Noted → Prop}
    (hstep : ∀ s x, Custody codec s → P s → s.1.queues.get q job = some x →
      Spool.replaces x (s.1.queues.get q' job) = .ok () →
        JobStep codec job .runNext (view s job) (((view s job).set q none).set q' (some x)))
    (hQ : ∀ s x, Custody codec s → s.1.queues.get q job = some x →
      Q (s.1.withQueues ((s.1.queues.put q job none).put q' job (some x)), s.2)) :
    Does codec .runNext P (ExchangeProg.act (.rename (.entry q job) (.entry q' job)))
      (fun r s => (r = .ok () → Q s) ∧ ((∃ e, r = .error e) → P s)) fun _ => True := by
  refine .act hP fun t ht hPt told => ?_
  rcases hrename : t.1.queues.rename (.entry q job) (.entry q' job) with e | s'
  · simp only [exchangePerform, hrename, change_error]
    exact ⟨t.2, takes_same ht (fun _ _ _ => rfl) (fun _ _ => id) rfl, by simp, fun _ => hPt⟩
  · obtain ⟨x, hfrom, hreplaces, rfl⟩ := Spool.rename_entry_eq_ok hrename fun h => hne h.1
    have hview : view (t.1.withQueues ((t.1.queues.put q job none).put q' job (some x)), t.2) job
        = ((view t job).set q none).set q' (some x) := by
      rw [view_move, if_pos rfl, if_pos rfl]
    have hjob := hstep t x ht hPt hfrom hreplaces
    rw [← hview] at hjob
    simp only [exchangePerform, hrename, change_ok]
    exact ⟨t.2, takes_move ht hjob (.inr ⟨hq.1, hq.2, rfl⟩) hq' (fun _ _ => Iff.rfl) fun _ => rfl,
      fun _ => hQ t x ht hfrom, by simp⟩

end Copies

section Running

variable {codec : Codec} {config : RunnerConfigV1} {blake3 : Json → String}
  {hash : Bytes → String} {pid : ℕ} {job : String} {files : Names Bytes} {α : Type}
  {event : AdmittedEventV1} {result : JobResultV1}

theorem lasts_true {k : Command} : Lasts codec k fun _ => True := apart_true.lasts

theorem does_recoverJob : Does codec .runNext (fun _ => True) (recoverJob job) (fun _ _ => True)
    fun _ => True := by
  refine .bind (Q := fun found s => found = true → s.1.queues.get .incoming job ≠ none)
    (.idle trivial lasts_true fun t _ _ _ hfound => ?_) fun found => ?_
  · exact Option.isSome_iff_ne_none.1 hfound
  split
  next hfound =>
    have hdrop : Does codec .runNext (fun s => s.1.queues.get .incoming job ≠ none)
        (removeDirAll .processing job) (fun _ _ => True) fun _ => True :=
      (does_drop apart_incoming.lasts (fun _ => .inl) (by simp)).conseq (fun _ _ => id)
        (fun _ _ _ => trivial) fun _ _ => trivial
    exact .bind (hdrop.conseq (fun _ _ hs => hs hfound) (fun _ _ => id) fun _ => id) fun _ =>
      .shellIo (fun _ _ _ _ => trivial) fun _ _ => trivial
  next =>
    refine .bind (.conseq (does_move .processing .incoming (Q := fun _ => True)
      lasts_true (by decide) (by decide) (by decide) ?_ fun _ _ _ _ => trivial)
        (fun _ _ _ => trivial) (fun _ _ => id) fun _ => id) fun _ =>
          .shellIo (fun _ _ _ _ => trivial) fun _ _ => trivial
    intro s x hs _ hfrom hreplaces
    exact .recover hfrom (((hs.sound job).processing x hfrom).1.free hreplaces)

/-- The runner has these files of the job. -/
def Claimed (job : String) (files : Names Bytes) (s : Noted) : Prop :=
  s.1.queues.get .processing job = some (.dir files)

theorem apart_claimed : Apart codec .runNext (Claimed job files) :=
  apart_processing (· = some (.dir files))

theorem does_claim : Does codec .runNext (fun _ => True)
    (ExchangeProg.act (.rename (.entry .incoming job) (.entry .processing job)))
    (fun r s => r = .ok () → ∃ files, Claimed job files s) fun _ => True := by
  refine .conseq (does_move .incoming .processing
    (Q := fun s => ∃ files, Claimed job files s) lasts_true (by decide) (by decide) (by decide) ?_ ?_)
      (fun _ _ => id) (fun _ _ h => h.1) fun _ => id
  · intro s x hs _ hfrom hreplaces
    exact .claim hfrom (((hs.sound job).incoming x hfrom).1.free hreplaces)
  · intro s x hs hfrom
    obtain ⟨files, rfl⟩ := ((hs.sound job).incoming x hfrom).1.isDir
    exact ⟨files, by simp [Claimed]⟩

theorem does_readClaimed (file : String) : Does codec .runNext (Claimed job files)
    (ExchangeProg.act (.read (.inside .processing job file)))
    (fun r s => Claimed job files s ∧ ∀ bytes, r = .ok bytes → files.lookup file = some bytes)
    (Claimed job files) := by
  refine .idle trivial apart_claimed.lasts fun t _ ht _ => ⟨ht, fun bytes hread => ?_⟩
  simp only [exchangePerform, Spool.read, Spool.find_inside ht] at hread
  rcases hfile : files.lookup file with _ | found
  · simp [hfile] at hread
  · simp only [hfile, Option.map_some, Except.ok.injEq] at hread
    rw [hread]

/-- What the runner executes is all there, and of the job that it claimed. -/
theorem does_loadClaimedEvent : Does codec .runNext (Claimed job files)
    (loadClaimedEvent blake3 hash codec config job)
    (fun event s => Claimed job files s ∧ event.jobId = job ∧ Holds jobFiles (some (.dir files)))
    (Claimed job files) := by
  refine .know (c := Owned codec job (.dir files))
    (fun s hs hclaimed => ((hs.sound job).processing _ hclaimed).1) fun howned => ?_
  obtain ⟨_, ⟨⟩, howned⟩ := howned
  have hclaimed : ∀ s, Claimed job files s → Claimed job files s := fun _ => id
  refine .bind (Q := fun ready s => Claimed job files s ∧ (ready = true → "ready" ∈ files))
    (.idle trivial apart_claimed.lasts fun t _ ht _ => ⟨ht, fun hready => ?_⟩) fun ready => ?_
  · simp only [exchangePerform, Spool.find_inside ht] at hready
    rcases hfile : files.lookup "ready" with _ | bytes
    · simp [hfile] at hready
    · exact Names.mem_of_lookup hfile
  refine .bind (Q := fun _ s => Claimed job files s ∧ "ready" ∈ files)
    (.check (fun hready s hs => ⟨hs.1, hs.2 hready⟩) fun s hs => hs.1) fun _ =>
      .and_pre fun hready => ?_
  refine .bind (Q := fun event s => Claimed job files s ∧ ∃ bytes,
      files.lookup "event.json" = some bytes ∧ codec.readEvent bytes = .ok event)
    (.bind (does_readClaimed _) fun r => .bind (Q := fun bytes s => Claimed job files s
      ∧ files.lookup "event.json" = some bytes) (.shellIo (fun bytes hr s hs => ⟨hs.1, hs.2 bytes hr⟩)
        fun _ => And.left) fun bytes => .and_pre fun hbytes =>
          .shellText (fun event hread s hs => ⟨hs, bytes, hbytes, hread⟩) hclaimed) fun event =>
            .and_pre fun hevent => ?_
  obtain ⟨bytes, hbytes, hread⟩ := hevent
  have hjob : event.jobId = job := howned bytes hbytes event hread
  refine .bind (Q := fun _ => Claimed job files) (.ofExcept (fun _ _ _ => id) hclaimed) fun _ => ?_
  refine .bind (does_readClaimed "source.tar") fun r => ?_
  refine .bind (Q := fun bytes s => Claimed job files s ∧ files.lookup "source.tar" = some bytes)
    (.shellIo (fun bytes hr s hs => ⟨hs.1, hs.2 bytes hr⟩) fun _ => And.left) fun archive =>
      .and_pre fun harchive => ?_
  have hall : Holds jobFiles (some (.dir files)) := by
    refine ⟨files, rfl, ?_⟩
    simp only [jobFiles, List.forall_mem_cons]
    exact ⟨hready, Names.mem_of_lookup hbytes, Names.mem_of_lookup harchive, by simp⟩
  exact .bind (Q := fun _ => Claimed job files) (.check (fun _ _ => id) hclaimed) fun _ =>
    .done fun s hs => ⟨hs, hjob, hall⟩

/-- The directory of a result that is all there. -/
def Finished (files : Names Bytes) : Prop := "event.json" ∈ files ∧ "result.json" ∈ files

theorem mine_result (job : String) : Mine .runNext (.staging, stagedResultName job) :=
  ⟨rfl, job, rfl⟩

theorem does_deliver : Does codec .runNext
    (fun s => Staged (stagedResultName job) Finished s ∧ Claimed job files s)
    (ExchangeProg.act (.rename (.entry .staging (stagedResultName job)) (.entry .outbox job)))
    (fun r s => (r = .ok () → (view s job).Delivered) ∧ Claimed job files s)
    (Claimed job files) := by
  refine .act ((lasts_staged (mine_result job)).and apart_claimed.lasts) ?_
  rintro t ht ⟨⟨there, hdir, hevent, hresult⟩, hclaimed⟩ -
  rcases hrename : t.1.queues.rename (.entry .staging (stagedResultName job))
    (.entry .outbox job) with e | s'
  · simp only [exchangePerform, hrename, change_error]
    exact ⟨t.2, takes_same ht (fun _ _ _ => rfl) (fun _ _ => id) rfl, by simp, hclaimed⟩
  · obtain ⟨e, hdir', -, rfl⟩ := Spool.rename_entry_eq_ok hrename (by simp)
    cases hdir.symm.trans hdir'
    have hall : Holds resultFiles (some (.dir there)) := by
      refine ⟨there, rfl, ?_⟩
      simp only [resultFiles, List.forall_mem_cons]
      exact ⟨hevent, hresult, by simp⟩
    have hview : view (t.1.withQueues ((t.1.queues.put .staging (stagedResultName job) none).put
        .outbox job (some (.dir there))), t.2) job
          = { view t job with outbox := some (.dir there) } := by
      rw [view_move, if_pos rfl]
      exact congrArg (JobView.set · .outbox _) (ite_self _)
    have hstep := @JobStep.deliver codec job (view t job) _ hall
    rw [← hview] at hstep
    simp only [exchangePerform, hrename, change_ok]
    refine ⟨t.2, takes_move ht hstep (.inl ⟨rfl, job, rfl⟩) (by decide)
      (fun _ _ => Iff.rfl) fun _ => rfl, fun _ => ?_, by simpa [Claimed] using hclaimed⟩
    rw [hview]
    exact .inl hall

theorem does_writeResult {staged f : String} {bytes : Bytes} {F : Names Bytes → Prop}
    (h : Mine .runNext (.staging, staged))
    (hF : ∀ files m y, m = temporaryName pid f ∨ m = f → F files → F (files.assign m y)) :
    Does codec .runNext (fun s => Staged staged F s ∧ Claimed job files s)
      (writeFile pid (.inside .staging staged f) bytes)
      (fun _ s => Staged staged (fun files => F files ∧ f ∈ files) s ∧ Claimed job files s)
      (Claimed job files) :=
  ((does_writeFile h hF).frame nofun (uses_writeFile h h) apart_claimed).conseq (fun _ _ => id)
    (fun _ _ => And.imp_left (·.mono fun _ => And.imp_right Names.mem_of_lookup))
    fun _ => And.right

/-- The job is all there while its result is put together and delivered. -/
theorem does_publishResult (hall : Holds jobFiles (some (.dir files))) :
    Does codec .runNext (Claimed event.jobId files)
      (publishResultToOutbox codec config pid event result)
      (fun _ s => (view s event.jobId).Delivered) (Claimed event.jobId files) := by
  have htmp : ∀ f, ∀ name ∈ ["event.json", "result.json"], name ≠ temporaryName pid f :=
    fun f name hname => temporaryName_ne_of_head ((by decide +kernel : ∀ name ∈ ["event.json",
      "result.json"], name.toList.head? ≠ some '.') name hname)
  have h := mine_result event.jobId
  have hclaimed : ∀ (s : Noted), Claimed event.jobId files s → Claimed event.jobId files s :=
    fun _ => id
  have hmem : ∀ name ∈ ["event.json", "result.json"], ∀ f, f ≠ name → ∀ files m y,
      m = temporaryName pid f ∨ m = f → name ∈ files → name ∈ Names.assign (β := Bytes) files m y := by
    rintro name hname f hne files m y hm hfiles
    have hother : name ≠ m := by
      rcases hm with rfl | rfl
      exacts [htmp f name hname, hne.symm]
    simpa [hother] using hfiles
  refine .bind (.uses_idle (uses_clear h _) apart_claimed) fun _ => ?_
  refine .bind (Q := fun _ s => Staged (stagedResultName event.jobId) (fun _ => True) s
      ∧ Claimed event.jobId files s)
    (((does_createDirectory h).frame nofun (uses_createDirectory h) apart_claimed).conseq
      (fun _ _ hs => ⟨⟨fun _ => trivial, fun _ _ => trivial⟩, hs⟩) (fun _ _ => id)
        fun _ => And.right) fun _ => ?_
  refine .bind (does_writeResult h fun _ _ _ _ => id) fun _ => ?_
  refine .bind (does_writeResult h fun files m y hm hfiles => ⟨trivial, hmem "event.json"
    (by decide) _ (by decide) files m y hm hfiles.2⟩) fun _ => ?_
  refine .bind (does_writeResult h fun files m y hm hfiles => ⟨⟨trivial, hmem "event.json"
    (by decide) _ (by decide) files m y hm hfiles.1.2⟩, hmem "result.json" (by decide) _
      (by decide) files m y hm hfiles.2⟩) fun _ => ?_
  refine .bind (Q := fun _ s => Staged (stagedResultName event.jobId) Finished s
      ∧ Claimed event.jobId files s) ?_ fun _ => ?_
  · refine (Does.removes (q := .outbox) (n := event.jobId)
      (P := fun s => Staged (stagedResultName event.jobId) Finished s
        ∧ Claimed event.jobId files s) ⟨nofun, nofun⟩ (uses_clearDirectory _ _ _)
        ((lasts_staged h).and apart_claimed.lasts) (fun s slot _ hs _ => ?_)
          fun s slot hs => ?_).conseq (fun _ _ => And.imp_left (·.mono fun _ hf =>
            ⟨hf.1.1.2, hf.1.2⟩)) (fun _ _ => id) fun _ => And.right
    · have hview : (view s event.jobId).processing = some (.dir files) := hs.2
      exact .withdraw (hview ▸ hall)
    · obtain ⟨⟨there, hdir, hthere⟩, hclaimed⟩ := hs
      exact ⟨⟨there, by simpa using hdir, hthere⟩, by simpa [Claimed] using hclaimed⟩
  · exact .bind does_deliver fun r => .shellIo (fun _ hr s hs => hs.1 hr) fun _ => And.right

/-! The rest of an execution is outside of the exchange. -/

section Outside

variable {M : Queue × String → Prop}

theorem uses_observeWorktreeLocks : (observeWorktreeLocks hash job).Uses (Confined M) := by
  have hfile : ∀ file, (observeWorktreeFile hash job file).Uses (Confined M) := fun file =>
    Prog.uses_bind (Prog.uses_act.2 trivial) fun _ => Prog.uses_bind (uses_shellText _ _) fun _ =>
      Prog.uses_bind Prog.uses_check fun _ => Prog.uses_done _
  exact Prog.uses_bind (hfile _) fun _ => Prog.uses_bind (hfile _) fun _ =>
    Prog.uses_bind (hfile _) fun _ => Prog.uses_bind (hfile _) fun _ => Prog.uses_done _

theorem uses_materializeSource : (materializeSource hash config event).Uses (Confined M) :=
  Prog.uses_bind (Prog.uses_act.2 trivial) fun _ => Prog.uses_bind (Prog.uses_ofExcept _) fun _ =>
    Prog.uses_bind (Prog.uses_act.2 trivial) fun _ => Prog.uses_bind (uses_runBounded _) fun _ =>
      Prog.uses_bind Prog.uses_check fun _ => Prog.uses_bind uses_observeWorktreeLocks fun _ =>
        Prog.uses_bind Prog.uses_check fun _ => Prog.uses_bind (Prog.uses_act.2 trivial) fun _ =>
          Prog.uses_ofExcept _

theorem uses_executeNixJob : (executeNixJob config event).Uses (Confined M) := by
  refine Prog.uses_bind (Prog.uses_act.2 trivial) fun _ =>
    Prog.uses_bind (uses_runBounded _) fun preparation => ?_
  split
  · exact Prog.uses_done _
  · exact Prog.uses_bind (Prog.uses_act.2 trivial) fun _ => uses_runBounded _

end Outside

theorem does_storeJobResult (hall : Holds jobFiles (some (.dir files)))
    (output : ExecutionOutput) : Does codec .runNext (Claimed event.jobId files)
      (storeJobResult blake3 hash codec config pid event output)
      (fun _ s => (view s event.jobId).Delivered) (Claimed event.jobId files) := by
  unfold storeJobResult
  generalize persistJobResult blake3 hash config event output = persisted
  refine .bind (.uses_idle (Prog.uses_act.2 trivial) apart_claimed) fun kept => ?_
  refine .bind (.uses_idle (Prog.uses_ofExcept _) apart_claimed) fun _ => ?_
  exact .bind (.uses_idle (Prog.uses_ofExcept _) apart_claimed) fun result =>
    does_publishResult hall

theorem does_executeClaimedJob : Does codec .runNext (Claimed job files)
    (executeClaimedJob blake3 hash codec config pid job) (fun _ s => (view s job).Delivered)
    (Claimed job files) := by
  unfold executeClaimedJob
  refine .bind does_loadClaimedEvent fun event => .and_pre ?_
  rintro ⟨rfl, hall⟩
  refine .bind (.uses_idle uses_materializeSource apart_claimed) fun _ => ?_
  exact .bind (.uses_idle uses_executeNixJob apart_claimed) fun output =>
    does_storeJobResult hall output

/-- A job that could not be executed is kept as it is. -/
theorem does_reject {e : String} : Does codec .runNext (Claimed job files) (do
    clearDirectory .rejected job "failed to replace rejected job"
    shellIo "failed to retain rejected job"
      (← ExchangeProg.act (.rename (.entry .processing job) (.entry .rejected job)))
    Prog.fail e : ExchangeProg Unit) (fun _ _ => True) fun _ => True := by
  refine .bind (Q := fun _ => Claimed job files) ?_ fun _ => .bind (Q := fun _ _ => True) ?_
    fun r => .bind (.shellIo (Q := fun _ _ => True) (fun _ _ _ _ => trivial) fun _ _ => trivial)
      fun _ => .fail fun _ _ => trivial
  · refine (Does.removes (q := .rejected) (n := job) (P := Claimed job files) (by decide)
      (uses_clearDirectory _ _ _) apart_claimed.lasts (fun s slot _ hs _ => .discard ?_)
        fun s slot hs => by simpa [Claimed] using hs).conseq (fun _ _ => id) (fun _ _ => id)
          fun _ _ => trivial
    have hview : (view s job).processing = some (.dir files) := hs
    simp [hview]
  · refine (does_move .processing .rejected (Q := fun _ => True)
      apart_claimed.lasts (by decide) (by decide) (by decide) (fun s x _ _ hfrom _ => ?_)
        fun _ _ _ _ => trivial).conseq (fun _ _ => id) (fun _ _ _ => trivial) fun _ => id
    exact .reject hfrom

theorem does_runNext : Does codec .runNext (fun _ => True)
    (runNext blake3 hash codec config pid) (fun _ _ => True) fun _ => True := by
  have hidle : ∀ {α : Type} {p : ExchangeProg α}, p.Uses (Confined (Mine .runNext)) →
      Does codec .runNext (fun _ => True) p (fun _ _ => True) fun _ => True := fun hp =>
    .uses_idle hp apart_true
  refine .bind (Q := fun _ _ => True) (.bind (hidle uses_directoryNames) fun names =>
    .forM (fun name => does_recoverJob) names) fun _ => ?_
  refine .bind (hidle uses_firstDirectory) fun selected => ?_
  split
  · exact .done fun _ => id
  next job =>
    refine .bind does_claim fun r => .bind (Q := fun _ s => ∃ files, Claimed job files s)
      (.shellIo (fun _ hr s hs => hs hr) fun _ _ => trivial) fun _ => .exists_pre fun files => ?_
    refine .bind (Q := fun r s => (r = .ok () → (view s job).Delivered)
      ∧ ∀ e, r = .error e → Claimed job files s) (Prog.Triple.attempt does_executeClaimedJob
        (fun _ s hs => ⟨fun _ => hs, nofun⟩) fun e s hs => ⟨nofun, fun _ _ => hs⟩) fun r => ?_
    split
    · have hdrop : Does codec .runNext (fun s => (view s job).Delivered)
          (removeDirAll .processing job) (fun _ _ => True) fun _ => True :=
        (does_drop apart_delivered.lasts (fun _ => .inr) fun s slot hs => by
          rwa [view_put, if_pos rfl]).conseq (fun _ _ => id) (fun _ _ _ => trivial)
            fun _ _ => trivial
      exact .bind (hdrop.conseq (fun _ _ hs => hs.1 rfl) (fun _ _ => id) fun _ => id) fun _ =>
        .shellIo (fun _ _ _ _ => trivial) fun _ _ => trivial
    next e => exact does_reject.conseq (fun _ _ hs => hs.2 e rfl) (fun _ _ => id) fun _ => id

end Running

end OnixCore.RadicleCi
