import OnixCore.RadicleCi.Proofs.Scan

/-!
# Which results are published

`publishNext` takes the first job of the outbox in name order, and a job it cannot publish stays
where it is. So one such job holds up all those behind it: the publisher gets past every job
exactly where it can publish all of them (`publisher_proceeds_iff`).
-/

namespace OnixCore.RadicleCi

section Names

variable {host : ExchangeHost} {w : Exchange} {q : Queue} {n : String}

/-- The directories of a queue, in the order of their names. -/
def queueNames (w : Exchange) (q : Queue) : List String :=
  (((w.queues.readDir q).filter (·.2)).map (·.1)).insertionSort (· ≤ ·)

theorem mem_queueNames : n ∈ queueNames w q ↔ ∃ files, w.queues.get q n = some (.dir files) := by
  rw [queueNames, List.mem_insertionSort, List.mem_map]
  constructor
  · rintro ⟨⟨m, b⟩, hmem, rfl⟩
    obtain ⟨hmem, hdir⟩ := List.mem_filter.1 hmem
    obtain ⟨e, he, rfl⟩ := Spool.mem_readDir.1 hmem
    cases e with
    | file bytes => cases hdir
    | dir files => exact ⟨files, he⟩
  · rintro ⟨files, hget⟩
    exact ⟨(n, true), List.mem_filter.2 ⟨Spool.mem_readDir.2 ⟨_, hget, rfl⟩, rfl⟩, rfl⟩

theorem nodup_queueNames : (queueNames w q).Nodup := by
  have hkeys : ((w.queues.readDir q).map (·.1)).Nodup := by
    rw [Spool.readDir, List.map_map]
    exact (w.queues q).keys_nodup
  exact (List.perm_insertionSort _ _).nodup_iff.2
    (hkeys.sublist ((List.filter_sublist).map _))

theorem runAlone_firstDirectory : runAlone host (firstDirectory q) w
    = (w, .ok (queueNames w q).head?) := rfl

end Names

section Outcomes

variable {blake3 : Json → String} {codec : Codec} {config : RunnerConfigV1} {host : ExchangeHost}
  {w : Exchange} {job : String} {files : Names Bytes} {event : AdmittedEventV1}
  {result : JobResultV1} {α : Type}

/-- The file can be read as `a`. -/
def Reads (decode : Bytes → Except String α) (files : Names Bytes) (file : String) (a : α) : Prop :=
  ∃ bytes, files.lookup file = some bytes ∧ decode bytes = .ok a

/-- The files of a job are those of an outcome that can be published. -/
structure Publishes (blake3 : Json → String) (codec : Codec) (config : RunnerConfigV1)
    (files : Names Bytes) (event : AdmittedEventV1) (result : JobResultV1) : Prop where
  eventJson : Reads codec.readEvent files "event.json" event
  resultJson : Reads codec.readResult files "result.json" result
  validEvent : validateEvent blake3 config event = .ok ()
  validResult : validateResult event result = .ok ()
  status : event.trigger = .patch →
    ∃ comment, statusComment blake3 codec config event result = .ok comment

/-- The content of the job can be published. -/
def Publishable (blake3 : Json → String) (codec : Codec) (config : RunnerConfigV1)
    (files : Names Bytes) : Prop :=
  ∃ event result, Publishes blake3 codec config files event result

/-- The job can be published: its content, with the configured programs, over what is there. -/
structure Passes (blake3 : Json → String) (codec : Codec) (config : RunnerConfigV1)
    (w : Exchange) (job : String) (files : Names Bytes) : Prop where
  content : Publishable blake3 codec config files
  programs : ∀ event result, Publishes blake3 codec config files event result →
    event.trigger = .patch → ∃ path, executablePathEnvironment config = .ok path
  target : ∀ bytes, w.queues.get .published job ≠ some (.file bytes)

theorem asks_readJson {decode : Bytes → Except String α} {q : Queue} {file : String}
    (hdir : w.queues.get q job = some (.dir files)) :
    Asks host w (readJson decode (.inside q job file)) (Reads decode files file) := by
  have htext : ∀ bytes,
      Asks host w (shellText "invalid JSON" (decode bytes)) (decode bytes = .ok ·) := by
    intro bytes
    rcases decode bytes with e | a
    · exact ⟨.error _, rfl, fun _ => ⟨nofun, nofun⟩⟩
    · exact (asks_done a).mono fun a => by rw [Except.ok.injEq, eq_comm]
  have h : Asks host w (readJson decode (.inside q job file)) _ :=
    (asks_read _).bind fun _ _ => (asks_shellIo _ _).bind fun bytes _ => htext bytes
  refine h.mono fun a => ?_
  have hread : ∀ bytes, w.queues.read (.inside q job file) = .ok bytes
      ↔ files.lookup file = some bytes := by
    intro bytes
    rw [Spool.read, Spool.find_inside hdir]
    rcases files.lookup file with _ | b <;> simp
  constructor
  · rintro ⟨_, rfl, bytes, hbytes, ha⟩
    exact ⟨bytes, (hread bytes).1 hbytes, ha⟩
  · rintro ⟨bytes, hbytes, ha⟩
    exact ⟨_, rfl, bytes, (hread bytes).2 hbytes, ha⟩

variable (blake3 codec config host) in
theorem asks_loadOutcome (hdir : w.queues.get .outbox job = some (.dir files)) :
    Asks host w (loadOutcome blake3 codec config job) fun outcome =>
      Reads codec.readEvent files "event.json" outcome.1
        ∧ Reads codec.readResult files "result.json" outcome.2
        ∧ validateEvent blake3 config outcome.1 = .ok ()
        ∧ validateResult outcome.1 outcome.2 = .ok () := by
  have h : Asks host w (loadOutcome blake3 codec config job) _ :=
    (asks_readJson hdir).bind fun _ _ => (asks_readJson hdir).bind fun _ _ =>
      (asks_ofExcept _).bind fun _ _ => (asks_ofExcept _).bind fun _ _ => asks_done _
  refine h.mono fun outcome => ?_
  simp only [mapError_eq_ok]
  constructor
  · rintro ⟨event, hevent, result, hresult, ⟨⟩, hvalid, ⟨⟩, hfits, rfl⟩
    exact ⟨hevent, hresult, hvalid, hfits⟩
  · rintro ⟨hevent, hresult, hvalid, hfits⟩
    exact ⟨_, hevent, _, hresult, (), hvalid, (), hfits, rfl⟩

theorem Reads.eq {decode : Bytes → Except String α} {file : String} {a b : α}
    (ha : Reads decode files file a) (hb : Reads decode files file b) : a = b := by
  obtain ⟨bytes, hbytes, ha⟩ := ha
  obtain ⟨bytes', hbytes', hb⟩ := hb
  obtain rfl := Option.some.inj (hbytes.symm.trans hbytes')
  exact Except.ok.inj (ha.symm.trans hb)

theorem statusComment_of_render {revisionId message : String} {status : SignedStatusV1}
    (hid : event.revisionId = some revisionId)
    (hbuild : buildSignedStatus blake3 config event result = .ok status)
    (hrender : renderSignedStatus blake3 codec.writeStatus status = .ok message) :
    statusComment blake3 codec config event result = .ok (revisionId, message) := by
  simp only [statusComment, hid, hbuild, hrender, Except.mapError, bind, Except.bind]
  rfl

theorem runAlone_commentStatus : ∃ v r,
    runAlone host (commentStatus blake3 codec config event result) w = (v, r)
      ∧ v.queues = w.queues ∧ (r = .ok () ↔ ∃ comment path,
        statusComment blake3 codec config event result = .ok comment
          ∧ executablePathEnvironment config = .ok path
          ∧ succeeded (host (.radComment comment.1 comment.2 event.rid path)).1 = true) := by
  unfold commentStatus
  rcases hcomment : statusComment blake3 codec config event result with e | comment
  · exact ⟨w, .error e, rfl, rfl, nofun, fun ⟨_, _, h, _⟩ => nomatch h⟩
  rw [Prog.ofExcept_ok, Prog.done_bind]
  rcases hpath : executablePathEnvironment config with e | path
  · exact ⟨w, .error e, rfl, rfl, nofun, fun ⟨_, _, _, h, _⟩ => nomatch h⟩
  rw [Prog.ofExcept_ok, Prog.done_bind, runAlone_act_bind]
  simp only [exchangePerform_radComment]
  have hprocess : ∀ u : Exchange, Asks host u (do
      let process ← runBounded (host (.radComment comment.1 comment.2 event.rid path)).1
      Prog.check (process.disposition = .succeeded)
        "Radicle patch status publication failed") _ := fun u =>
    (asks_runBounded _).bind fun _ _ => asks_check
  obtain ⟨r, hrun, hr⟩ := hprocess _
  refine ⟨_, r, hrun, by split_ifs <;> rfl, (hr ()).trans ?_⟩
  rw [← succeeded_iff]
  constructor
  · exact fun h => ⟨comment, path, rfl, rfl, h⟩
  · rintro ⟨_, _, ⟨⟩, ⟨⟩, h⟩
    exact h

/-- The queues, with the job moved from the outbox to the published ones. -/
def moveJob (s : Spool Queue) (job : String) (files : Names Bytes) : Spool Queue :=
  ((s.put .published job none).put .outbox job none).put .published job (some (.dir files))

theorem runAlone_move (hdir : w.queues.get .outbox job = some (.dir files))
    (htarget : ∀ bytes, w.queues.get .published job ≠ some (.file bytes)) :
    runAlone host (do
      clearDirectory .published job "failed to replace published result"
      shellIo "failed to commit published result"
        (← ExchangeProg.act (.rename (.entry .outbox job) (.entry .published job)))) w
      = (w.withQueues (moveJob w.queues job files), .ok ()) := by
  have hfrom : (w.queues.put .published job none).get .outbox job = some (.dir files) := by
    simpa using hdir
  have hrename := Spool.rename_entry .published job hfrom (by simp) (by simp [Spool.replaces])
  rw [runAlone_bind_ok (runAlone_clearDirectory htarget), runAlone_act_bind]
  simp only [exchangePerform_rename, withQueues_queues, hrename, change_ok, withQueues_withQueues]
  rfl

variable (host) in
theorem runAlone_move_file {bytes : Bytes}
    (htarget : w.queues.get .published job = some (.file bytes)) : ∃ e, runAlone host (do
      clearDirectory .published job "failed to replace published result"
      shellIo "failed to commit published result"
        (← ExchangeProg.act (.rename (.entry .outbox job) (.entry .published job)))) w
      = (w, .error e) := by
  obtain ⟨e, hclear⟩ := runAlone_clearDirectory_file host "failed to replace published result"
    htarget
  exact ⟨e, runAlone_bind_error hclear⟩

/-- Some comment was not posted. -/
def RadFails (host : ExchangeHost) : Prop :=
  ∃ revisionId message rid path,
    succeeded (host (.radComment revisionId message rid path)).1 = false

theorem repositoryHost_rad (file : Bytes) : ¬ RadFails (repositoryHost file) := by
  rintro ⟨_, _, _, _, h⟩
  cases h

/-- What is left of a job in the outbox after an attempt to publish it. -/
def Attempted (blake3 : Json → String) (codec : Codec) (config : RunnerConfigV1)
    (host : ExchangeHost) (job : String) (files : Names Bytes) (w v : Exchange) : Prop :=
  v.queues = w.queues ∧ (Passes blake3 codec config w job files → RadFails host)
    ∨ v.queues = moveJob w.queues job files ∧ Passes blake3 codec config w job files

/-- The last part of an attempt, after the comment. -/
theorem attempted_move {v : Exchange} (hdir : w.queues.get .outbox job = some (.dir files))
    (hqueues : v.queues = w.queues) (hpub : Publishes blake3 codec config files event result)
    (hprograms : event.trigger = .patch → ∃ path, executablePathEnvironment config = .ok path) :
    Attempted blake3 codec config host job files w (runAlone host (do
      clearDirectory .published job "failed to replace published result"
      shellIo "failed to commit published result"
        (← ExchangeProg.act (.rename (.entry .outbox job) (.entry .published job)))) v).1 := by
  by_cases htarget : ∃ bytes, w.queues.get .published job = some (.file bytes)
  · obtain ⟨bytes, htarget⟩ := htarget
    have hstill : v.queues.get .published job = some (.file bytes) := hqueues ▸ htarget
    obtain ⟨e, hrun⟩ := runAlone_move_file host hstill
    rw [hrun]
    exact .inl ⟨hqueues, fun h => absurd htarget (h.target bytes)⟩
  · have htarget := not_exists.1 htarget
    rw [runAlone_move (hqueues ▸ hdir) (hqueues ▸ htarget), hqueues]
    refine .inr ⟨rfl, ⟨event, result, hpub⟩, fun event' result' hpub' hpatch => ?_, htarget⟩
    exact hprograms (hpub.eventJson.eq hpub'.eventJson ▸ hpatch)

variable (blake3 codec config host) in
theorem attempted_publishJob (hdir : w.queues.get .outbox job = some (.dir files)) :
    Attempted blake3 codec config host job files w
      (runAlone host (publishJob blake3 codec config job) w).1 := by
  unfold publishJob
  have hload := asks_loadOutcome blake3 codec config host hdir
  rcases hload.then_run _ with ⟨e, hrun, hnone⟩ | ⟨⟨event, result⟩, houtcome, hrun⟩
  · rw [hrun]
    refine .inl ⟨rfl, fun h => ?_⟩
    obtain ⟨event, result, hpub⟩ := h.content
    exact absurd ⟨hpub.eventJson, hpub.resultJson, hpub.validEvent, hpub.validResult⟩
      (hnone (event, result))
  rw [hrun]
  obtain ⟨hevent, hresult, hvalid, hfits⟩ := houtcome
  by_cases hpatch : event.trigger = .patch
  · simp only [hpatch, if_true]
    obtain ⟨v, r, hcomment, hqueues, hr⟩ := @runAlone_commentStatus blake3 codec config host w
      event result
    rcases r with e | ⟨⟩
    · rw [runAlone_bind_error hcomment]
      refine .inl ⟨hqueues, fun h => ?_⟩
      obtain ⟨event', result', hpub⟩ := h.content
      obtain rfl := hpub.eventJson.eq hevent
      obtain rfl := hpub.resultJson.eq hresult
      obtain ⟨comment, hstatus⟩ := hpub.status hpatch
      obtain ⟨path, hpath⟩ := h.programs _ _ hpub hpatch
      refine ⟨comment.1, comment.2, event'.rid, path, ?_⟩
      by_contra hdone
      exact nomatch hr.2 ⟨comment, path, hstatus, hpath, by simpa using hdone⟩
    · obtain ⟨comment, path, hstatus, hpath, -⟩ := hr.1 rfl
      rw [runAlone_bind_ok hcomment]
      exact attempted_move hdir hqueues ⟨hevent, hresult, hvalid, hfits, fun _ => ⟨_, hstatus⟩⟩
        fun _ => ⟨path, hpath⟩
  · simp only [hpatch, if_false]
    exact attempted_move hdir rfl ⟨hevent, hresult, hvalid, hfits, fun h => absurd h hpatch⟩
      fun h => absurd h hpatch

end Outcomes

section Runs

variable {blake3 : Json → String} {codec : Codec} {config : RunnerConfigV1} {host : ExchangeHost}
  {hosts : ℕ → ExchangeHost} {u v w : Exchange} {job : String} {files : Names Bytes}

/-- The job that the publisher takes next. -/
def selected (w : Exchange) : Option String := (queueNames w .outbox).head?

/-- The exchange after `n` runs of the publisher, the `i`-th with the answers of `hosts i`. -/
def publishRuns (blake3 : Json → String) (codec : Codec) (config : RunnerConfigV1)
    (hosts : ℕ → ExchangeHost) (w : Exchange) : ℕ → Exchange
  | 0 => w
  | n + 1 => (runAlone (hosts n) (publishNext blake3 codec config)
      (publishRuns blake3 codec config hosts w n)).1

@[simp] theorem get_moveJob_outbox {s : Spool Queue} {n : String} :
    (moveJob s job files).get .outbox n = if n = job then none else s.get .outbox n := by
  simp [moveJob]

@[simp] theorem get_moveJob_published {s : Spool Queue} {n : String} :
    (moveJob s job files).get .published n
      = if n = job then some (.dir files) else s.get .published n := by
  by_cases hn : n = job <;> simp [moveJob, hn]

theorem exists_selected (h : w.queues.get .outbox job = some (.dir files)) :
    ∃ first there, selected w = some first ∧ w.queues.get .outbox first = some (.dir there) := by
  rcases hnames : queueNames w .outbox with _ | ⟨first, rest⟩
  · have hmem := mem_queueNames.2 ⟨files, h⟩
    rw [hnames] at hmem
    exact absurd hmem List.not_mem_nil
  · obtain ⟨there, hthere⟩ := mem_queueNames.1 (hnames ▸ List.mem_cons_self : first ∈ _)
    exact ⟨first, there, by rw [selected, hnames]; rfl, hthere⟩

theorem publishNext_of_selected (h : selected w = some job) :
    runAlone host (publishNext blake3 codec config) w
      = runAlone host (publishJob blake3 codec config job) w := by
  unfold publishNext
  rw [runAlone_bind_ok runAlone_firstDirectory]
  unfold selected at h
  rw [h]

theorem publishNext_idle (h : selected w = none) :
    runAlone host (publishNext blake3 codec config) w = (w, .ok ()) := by
  unfold publishNext
  rw [runAlone_bind_ok runAlone_firstDirectory]
  unfold selected at h
  rw [h]
  rfl

/-- One run of the publisher: nothing moves, or one job that passes. -/
inductive PublishStep (blake3 : Json → String) (codec : Codec) (config : RunnerConfigV1)
    (w v : Exchange) : Prop
  | idle (h : v.queues = w.queues)
  | move (job : String) (files : Names Bytes) (hdir : w.queues.get .outbox job = some (.dir files))
      (hpasses : Passes blake3 codec config w job files)
      (h : v.queues = moveJob w.queues job files)

theorem publishStep_publishNext : PublishStep blake3 codec config w
    (runAlone host (publishNext blake3 codec config) w).1 := by
  rcases hselected : selected w with _ | job
  · rw [publishNext_idle hselected]
    exact .idle rfl
  · obtain ⟨files, hdir⟩ := mem_queueNames.1 (List.mem_of_head? hselected)
    rw [publishNext_of_selected hselected]
    rcases attempted_publishJob blake3 codec config host hdir with ⟨h, -⟩ | ⟨h, hpasses⟩
    · exact .idle h
    · exact .move job files hdir hpasses h

/-- What is in the outbox was there before. -/
theorem PublishStep.outbox (h : PublishStep blake3 codec config w v) {x : Entry}
    (hx : v.queues.get .outbox job = some x) : w.queues.get .outbox job = some x := by
  cases h with
  | idle h => exact h ▸ hx
  | move moved there hdir hpasses h =>
    rw [h, get_moveJob_outbox] at hx
    split_ifs at hx
    exact hx

/-- Whether a job passes does not change while it is in the outbox. -/
theorem PublishStep.passes_iff (h : PublishStep blake3 codec config w v)
    (hdir : v.queues.get .outbox job = some (.dir files)) :
    Passes blake3 codec config v job files ↔ Passes blake3 codec config w job files := by
  have hsame : v.queues.get .published job = w.queues.get .published job := by
    cases h with
    | idle h => rw [h]
    | move moved there _ _ h =>
      have hne : job ≠ moved := by
        rintro rfl
        rw [h, get_moveJob_outbox, if_pos rfl] at hdir
        cases hdir
      rw [h, get_moveJob_published, if_neg hne]
  exact ⟨fun ⟨a, b, c⟩ => ⟨a, b, hsame ▸ c⟩, fun ⟨a, b, c⟩ => ⟨a, b, hsame ▸ c⟩⟩

/-- A job that does not pass stays in the outbox. -/
theorem PublishStep.stuck (h : PublishStep blake3 codec config w v)
    (hdir : w.queues.get .outbox job = some (.dir files))
    (hfails : ¬ Passes blake3 codec config w job files) :
    v.queues.get .outbox job = some (.dir files) ∧ ¬ Passes blake3 codec config v job files := by
  have hstays : v.queues.get .outbox job = some (.dir files) := by
    cases h with
    | idle h => exact h ▸ hdir
    | move moved there hmoved hpasses h =>
      have hne : job ≠ moved := by
        rintro rfl
        rw [hdir] at hmoved
        cases hmoved
        exact hfails hpasses
      rw [h, get_moveJob_outbox, if_neg hne, hdir]
  exact ⟨hstays, fun hp => hfails ((h.passes_iff hstays).1 hp)⟩

/-- The publisher has nothing to publish, or a job that does not pass is the next one. -/
def Stopped (blake3 : Json → String) (codec : Codec) (config : RunnerConfigV1) (w : Exchange) :
    Prop :=
  ∀ job files, selected w = some job → w.queues.get .outbox job = some (.dir files) →
    ¬ Passes blake3 codec config w job files

/-- A run that moves a job leaves fewer in the outbox. -/
theorem length_publishNext (hrad : ¬ RadFails host)
    (h : ¬ Stopped blake3 codec config w) :
    (queueNames (runAlone host (publishNext blake3 codec config) w).1 .outbox).length
      < (queueNames w .outbox).length := by
  simp only [Stopped, not_forall, not_not] at h
  obtain ⟨job, files, hselected, hdir, hpasses⟩ := h
  rw [publishNext_of_selected hselected]
  rcases attempted_publishJob blake3 codec config host hdir with ⟨-, hfails⟩ | ⟨hmoved, -⟩
  · exact absurd (hfails hpasses) hrad
  · generalize (runAlone host (publishJob blake3 codec config job) w).1 = v at hmoved
    have hsub : job :: queueNames v .outbox ⊆ queueNames w .outbox := by
      intro n hn
      rcases List.mem_cons.1 hn with rfl | hn
      · exact mem_queueNames.2 ⟨files, hdir⟩
      · obtain ⟨there, hthere⟩ := mem_queueNames.1 hn
        rw [hmoved, get_moveJob_outbox] at hthere
        split_ifs at hthere
        exact mem_queueNames.2 ⟨there, hthere⟩
    have hgone : job ∉ queueNames v .outbox := by
      intro hmem
      obtain ⟨there, hthere⟩ := mem_queueNames.1 hmem
      rw [hmoved, get_moveJob_outbox, if_pos rfl] at hthere
      cases hthere
    exact (List.nodup_cons.2 ⟨hgone, nodup_queueNames⟩).length_le_of_subset hsub

variable (blake3 codec config) in
theorem exists_stopped (hrad : ∀ n, ¬ RadFails (hosts n)) (w : Exchange) :
    ∃ n, Stopped blake3 codec config (publishRuns blake3 codec config hosts w n) := by
  by_contra hnone
  have hgoes := not_exists.1 hnone
  have hlength : ∀ n, (queueNames (publishRuns blake3 codec config hosts w n) .outbox).length + n
      ≤ (queueNames w .outbox).length := by
    intro n
    induction n with
    | zero => exact Nat.le_refl _
    | succ n ih =>
      have hless := length_publishNext (hrad n) (hgoes n)
      unfold publishRuns
      omega
  have htoo := hlength ((queueNames w .outbox).length + 1)
  omega

/-- What was stuck stays stuck. -/
theorem stuck_publishRuns {m n : ℕ} (hle : m ≤ n)
    (hdir : (publishRuns blake3 codec config hosts w m).queues.get .outbox job
      = some (.dir files))
    (hfails : ¬ Passes blake3 codec config (publishRuns blake3 codec config hosts w m) job files) :
    (publishRuns blake3 codec config hosts w n).queues.get .outbox job = some (.dir files)
      ∧ ¬ Passes blake3 codec config (publishRuns blake3 codec config hosts w n) job files := by
  induction hle with
  | refl => exact ⟨hdir, hfails⟩
  | step _ ih => exact publishStep_publishNext.stuck ih.1 ih.2

theorem outbox_publishRuns {m n : ℕ} (hle : m ≤ n) {x : Entry}
    (h : (publishRuns blake3 codec config hosts w n).queues.get .outbox job = some x) :
    (publishRuns blake3 codec config hosts w m).queues.get .outbox job = some x := by
  induction hle with
  | refl => exact h
  | step _ ih => exact ih (publishStep_publishNext.outbox h)

/-- A job that the publisher refused for its content is not the next one again. -/
def SkipsRefused (blake3 : Json → String) (codec : Codec) (config : RunnerConfigV1)
    (w : Exchange) : Prop :=
  ∀ hosts n job files, selected (publishRuns blake3 codec config hosts w n) = some job →
    (publishRuns blake3 codec config hosts w n).queues.get .outbox job = some (.dir files) →
    ¬ Publishable blake3 codec config files →
    selected (publishRuns blake3 codec config hosts w (n + 1)) ≠ some job

/-- While `rad` succeeds, finitely many runs publish each job with a content for it. -/
def PublishesAll (blake3 : Json → String) (codec : Codec) (config : RunnerConfigV1)
    (w : Exchange) : Prop :=
  ∀ hosts, (∀ n, ¬ RadFails (hosts n)) → ∃ n, ∀ job files,
    w.queues.get .outbox job = some (.dir files) → Publishable blake3 codec config files →
    (publishRuns blake3 codec config hosts w n).queues.get .outbox job = none
      ∧ (publishRuns blake3 codec config hosts w n).queues.get .published job
        = some (.dir files)

/-- Where every job passes, they all do until they are published. -/
theorem passes_publishRuns (hall : ∀ job files, w.queues.get .outbox job = some (.dir files) →
      Passes blake3 codec config w job files) (n : ℕ)
    (hdir : (publishRuns blake3 codec config hosts w n).queues.get .outbox job
      = some (.dir files)) :
    Passes blake3 codec config (publishRuns blake3 codec config hosts w n) job files := by
  induction n with
  | zero => exact hall job files hdir
  | succ n ih =>
    exact (publishStep_publishNext.passes_iff hdir).2 (ih (publishStep_publishNext.outbox hdir))

/-- A job of the outbox is there still, or published. -/
theorem published_publishRuns (hdir : w.queues.get .outbox job = some (.dir files)) (n : ℕ) :
    (publishRuns blake3 codec config hosts w n).queues.get .outbox job = some (.dir files)
      ∨ (publishRuns blake3 codec config hosts w n).queues.get .outbox job = none
        ∧ (publishRuns blake3 codec config hosts w n).queues.get .published job
          = some (.dir files) := by
  induction n with
  | zero => exact .inl hdir
  | succ n ih =>
    have hstep : PublishStep blake3 codec config (publishRuns blake3 codec config hosts w n)
      (publishRuns blake3 codec config hosts w (n + 1)) := publishStep_publishNext
    generalize publishRuns blake3 codec config hosts w n = u at *
    generalize publishRuns blake3 codec config hosts w (n + 1) = v at *
    cases hstep with
    | idle h => exact h ▸ ih
    | move moved there hmoved _ h =>
      rw [h, get_moveJob_outbox, get_moveJob_published]
      by_cases hsame : job = moved
      · subst hsame
        rcases ih with hin | ⟨hout, -⟩
        · rw [hin] at hmoved
          cases hmoved
          exact .inr ⟨if_pos rfl, if_pos rfl⟩
        · rw [hout] at hmoved
          cases hmoved
      · rw [if_neg hsame, if_neg hsame]
        exact ih

/-- A job that does not pass is the next one again. -/
theorem selected_blocked (hselected : selected w = some job)
    (hdir : w.queues.get .outbox job = some (.dir files))
    (hfails : ¬ Passes blake3 codec config w job files) :
    selected (runAlone host (publishNext blake3 codec config) w).1 = some job := by
  rw [publishNext_of_selected hselected]
  rcases attempted_publishJob blake3 codec config host hdir with ⟨hsame, -⟩ | ⟨-, hpasses⟩
  · rw [selected, queueNames, hsame]
    exact hselected
  · exact absurd hpasses hfails

/-- Nothing is published while the next job is one that does not pass. -/
theorem queues_blocked (hselected : selected w = some job)
    (hdir : w.queues.get .outbox job = some (.dir files))
    (hfails : ¬ Passes blake3 codec config w job files) (n : ℕ) :
    (publishRuns blake3 codec config hosts w n).queues = w.queues := by
  induction n with
  | zero => rfl
  | succ n ih =>
    have hsame : selected (publishRuns blake3 codec config hosts w n) = some job := by
      rw [selected, queueNames, ih]
      exact hselected
    unfold publishRuns
    rw [publishNext_of_selected hsame]
    have hstill : (publishRuns blake3 codec config hosts w n).queues.get .outbox job
        = some (.dir files) := ih ▸ hdir
    rcases attempted_publishJob blake3 codec config (hosts n) hstill with ⟨hstays, -⟩ | ⟨-, hpasses⟩
    · exact hstays.trans ih
    · exact absurd ⟨hpasses.content, hpasses.programs, ih ▸ hpasses.target⟩ hfails

theorem passes_of_proceeds (hskips : SkipsRefused blake3 codec config w)
    (hpublishes : PublishesAll blake3 codec config w)
    (hdir : w.queues.get .outbox job = some (.dir files)) :
    Passes blake3 codec config w job files := by
  by_contra hfails
  have hrad : ∀ _ : ℕ, ¬ RadFails (repositoryHost []) := fun _ => repositoryHost_rad []
  obtain ⟨k, hstopped⟩ := exists_stopped blake3 codec config hrad w
  have hstill : (publishRuns blake3 codec config (fun _ => repositoryHost []) w k).queues.get
      .outbox job = some (.dir files) :=
    (stuck_publishRuns (Nat.zero_le k) hdir hfails).1
  obtain ⟨first, there, hselected, hthere⟩ := exists_selected hstill
  have hblocked := hstopped first there hselected hthere
  by_cases hcontent : Publishable blake3 codec config there
  · obtain ⟨n, hn⟩ := hpublishes _ hrad
    obtain ⟨hgone, -⟩ := hn first there (outbox_publishRuns (Nat.zero_le k) hthere) hcontent
    rcases Nat.le_total k n with hle | hle
    · obtain ⟨hlater, -⟩ := stuck_publishRuns hle hthere hblocked
      rw [hgone] at hlater
      cases hlater
    · have hearlier := outbox_publishRuns hle hthere
      rw [hgone] at hearlier
      cases hearlier
  · exact hskips _ k first there hselected hthere hcontent
      (selected_blocked hselected hthere hblocked)

theorem proceeds_of_passes (hall : ∀ job files, w.queues.get .outbox job = some (.dir files) →
      Passes blake3 codec config w job files) :
    SkipsRefused blake3 codec config w ∧ PublishesAll blake3 codec config w := by
  refine ⟨fun hosts n job files _ hdir hrefused => ?_, fun hosts hrad => ?_⟩
  · exact absurd (passes_publishRuns hall n hdir).content hrefused
  · obtain ⟨n, hstopped⟩ := exists_stopped blake3 codec config hrad w
    refine ⟨n, fun job files hdir _ => ?_⟩
    refine (published_publishRuns hdir n).resolve_left fun hstill => ?_
    obtain ⟨first, there, hselected, hthere⟩ := exists_selected hstill
    exact hstopped first there hselected hthere (passes_publishRuns hall n hthere)

/-- The publisher gets past every job it refuses, and to every job it can publish, exactly when
there is no job in the outbox that it cannot publish. -/
theorem publisher_proceeds_iff :
    SkipsRefused blake3 codec config w ∧ PublishesAll blake3 codec config w
      ↔ ∀ job files, w.queues.get .outbox job = some (.dir files) →
        Passes blake3 codec config w job files :=
  ⟨fun h _ _ hdir => passes_of_proceeds h.1 h.2 hdir, proceeds_of_passes⟩

end Runs

/-! ### A garbled job before a good one -/

def garbledJob : String := "0000000000000000000000000000000000000000000000000000000000000000"

def garbledFiles : Names Bytes :=
  ((∅ : Names Bytes).assign "event.json" (some (Bytes.ascii "?"))).assign "result.json"
    (some resultFile)

def promotedFiles : Names Bytes :=
  ((∅ : Names Bytes).assign "event.json" (some eventFile)).assign "result.json" (some resultFile)

def garbledOutbox : Exchange :=
  emptyExchange.withQueues ((emptyExchange.queues.put .outbox garbledJob
    (some (.dir garbledFiles))).put .outbox promotedJob (some (.dir promotedFiles)))

theorem promotedFiles_publishable :
    Publishable signedBlake3 promotedCodec promotedConfig promotedFiles := by
  obtain ⟨body, hrender⟩ := exists_render promotedCodec.writeStatus promotedStatus_signed
  refine ⟨promotedEvent, promotedResult, ⟨eventFile, by decide +kernel, rfl⟩,
    ⟨resultFile, by decide +kernel, rfl⟩, promotedEvent_valid, promotedResult_valid, fun _ => ?_⟩
  exact ⟨_, statusComment_of_render rfl promotedStatus_built hrender⟩

/-- The garbled job comes first again and again, and the good one is never published. -/
theorem garbledOutbox_blocked :
    ¬ SkipsRefused signedBlake3 promotedCodec promotedConfig garbledOutbox
      ∧ ¬ PublishesAll signedBlake3 promotedCodec promotedConfig garbledOutbox := by
  have hselected : selected garbledOutbox = some garbledJob := by decide +kernel
  have hne : garbledJob ≠ promotedJob := by decide +kernel
  have hdir : garbledOutbox.queues.get .outbox garbledJob = some (.dir garbledFiles) := by
    simp [garbledOutbox, hne]
  have hgood : garbledOutbox.queues.get .outbox promotedJob = some (.dir promotedFiles) := by
    simp [garbledOutbox]
  have hrefused : ¬ Publishable signedBlake3 promotedCodec promotedConfig garbledFiles := by
    rintro ⟨event, result, hpub⟩
    obtain ⟨bytes, hbytes, hread⟩ := hpub.eventJson
    obtain rfl : Bytes.ascii "?" = bytes := by simpa [garbledFiles] using hbytes
    have hother : Bytes.ascii "?" ≠ eventFile := by decide +kernel
    simp [promotedCodec, hother] at hread
  have hfails : ¬ Passes signedBlake3 promotedCodec promotedConfig garbledOutbox garbledJob
      garbledFiles := fun h => hrefused h.content
  constructor
  · intro h
    exact h (fun _ => repositoryHost []) 0 garbledJob garbledFiles hselected hdir hrefused
      (selected_blocked hselected hdir hfails)
  · intro h
    obtain ⟨n, hn⟩ := h _ fun _ => repositoryHost_rad []
    obtain ⟨hgone, -⟩ := hn promotedJob promotedFiles hgood promotedFiles_publishable
    rw [queues_blocked hselected hdir hfails n, hgood] at hgone
    cases hgone

end OnixCore.RadicleCi
