import OnixCore.BuildbotPrCheck.Check

/-!
# What the tool makes of its answers

Each function of the tool by the answers to its requests: which of them end it with an exception,
and what it passes on otherwise.
-/

namespace OnixCore.BuildbotPrCheck

section Answers

variable {α β : Type}

/-- The request failed in a way that most of the tool expects. -/
def Unavailable (answer : Answer α) : Prop := ∃ e, answer = .error e ∧ e.unavailable = true

def Unexpected (answer : Answer α) : Prop := ∃ e, answer = .error e ∧ e.unavailable = false

theorem answer_cases (answer : Answer α) :
    Unavailable answer ∨ Unexpected answer ∨ ∃ a, answer = .ok a := by
  rcases answer with e | a
  · cases h : e.unavailable
    · exact .inr (.inl ⟨e, rfl, h⟩)
    · exact .inl ⟨e, rfl, h⟩
  · exact .inr (.inr ⟨a, rfl⟩)

@[simp] theorem not_unavailable_ok {a : α} : ¬ Unavailable (.ok a : Answer α) := nofun

@[simp] theorem not_unexpected_ok {a : α} : ¬ Unexpected (.ok a : Answer α) := nofun

@[simp] theorem unavailable_error {e : RequestError} :
    Unavailable (.error e : Answer α) ↔ e.unavailable = true := by
  simp [Unavailable]

@[simp] theorem unexpected_error {e : RequestError} :
    Unexpected (.error e : Answer α) ↔ e.unavailable = false := by
  simp [Unexpected]

theorem recover_ok_iff {fallback : α} {answer : Answer α} :
    (∃ a, recover RequestError.unavailable fallback answer = .ok a) ↔ ¬ Unexpected answer := by
  rcases answer with e | a
  · cases h : e.unavailable <;> simp [recover, h]
  · simp [recover]

theorem ok_of_expected {answer : Answer α} (h : ¬ Unexpected answer) (h' : ¬ Unavailable answer) :
    ∃ a, answer = .ok a :=
  ((answer_cases answer).resolve_left h').resolve_left h

theorem not_unavailable_recover {fallback : α} {answer : Answer α} :
    ¬ Unavailable (recover RequestError.unavailable fallback answer) := by
  rcases answer with e | a
  · cases h : e.unavailable <;> simp [recover, h]
  · simp [recover]

theorem recover_of_caught {fallback : α} {answer : Answer α} (h : ¬ Unavailable answer) :
    recover RequestError.unavailable fallback answer = answer := by
  rcases answer with e | a
  · rw [unavailable_error, Bool.not_eq_true] at h
    simp [recover, h]
  · rfl

theorem unexpected_bind_ok {answer : Answer α} {f : α → β} :
    Unexpected (answer >>= fun a => (.ok (f a) : Answer β)) ↔ Unexpected answer := by
  cases answer <;> simp [bind, Except.bind]

theorem unavailable_bind_ok {answer : Answer α} {f : α → β} :
    Unavailable (answer >>= fun a => (.ok (f a) : Answer β)) ↔ Unavailable answer := by
  cases answer <;> simp [bind, Except.bind]

/-- A loop over checks that never end in an expected error. -/
theorem not_unavailable_forM {f : β → Answer Unit} (hf : ∀ b, ¬ Unavailable (f b)) :
    ∀ l : List β, ¬ Unavailable (l.forM f)
  | [] => not_unavailable_ok
  | b :: l => by
    rw [List.forM]
    have hb := hf b
    rcases h : f b with e | u
    · rw [h] at hb
      exact hb
    · exact not_unavailable_forM hf l

end Answers

namespace ParentAnswers

variable (answers : ParentAnswers)

def Shows (s : BuildStatus) : Prop :=
  ∃ results, answers.build = .ok results ∧ getBuildStatus results = some s

/-- An exception that nothing catches: in the first answer, or on the way to the logs. -/
def Breaks : Prop :=
  Unexpected answers.build ∨ (∃ s ∈ broken, answers.Shows s) ∧ (Unexpected answers.steps ∨
    ∃ steps, answers.steps = .ok steps ∧
      ∃ step ∈ steps.zipIdx, step.1.failed ∧ Unexpected (answers.logs step.2))

/-- A broken build that is seen, or an exception before that. -/
def Alarms : Prop :=
  Unexpected answers.build ∨ (∃ s ∈ broken, answers.Shows s) ∧ ¬ Unavailable answers.steps

end ParentAnswers

section Parent

variable {answers : ParentAnswers} {results : Option Int} {s : BuildStatus}

theorem shows_iff (h : answers.build = .ok results) :
    answers.Shows s ↔ getBuildStatus results = some s := by
  constructor
  · rintro ⟨results', h', hs⟩
    rw [h] at h'
    cases h'
    exact hs
  · exact fun hs => ⟨results, h, hs⟩

theorem not_shows {e : RequestError} (h : answers.build = .error e) : ¬ answers.Shows s := by
  rintro ⟨results, h', -⟩
  rw [h] at h'
  cases h'

theorem getParentBuildStatus_error {e : RequestError} (h : answers.build = .error e) :
    getParentBuildStatus answers = recover RequestError.unavailable none (.error e) := by
  unfold getParentBuildStatus
  rw [h]
  rfl

theorem getParentBuildStatus_clear (h : answers.build = .ok results)
    (hs : (getBuildStatus results).any (· ∈ broken) = false) :
    getParentBuildStatus answers = .ok (getBuildStatus results) := by
  unfold getParentBuildStatus
  rw [h]
  simp only [bind, Except.bind, hs]
  rfl

theorem getParentBuildStatus_broken (h : answers.build = .ok results)
    (hs : getBuildStatus results = some s) (hb : s ∈ broken) :
    getParentBuildStatus answers = recover RequestError.unavailable none (do
      let steps ← answers.steps
      steps.zipIdx.forM (failedStepLogs answers.logs)
      return some s) := by
  unfold getParentBuildStatus
  rw [h]
  simp [bind, Except.bind, hs, hb]

end Parent

theorem broken_cases (status : Option BuildStatus) :
    status.any (· ∈ broken) = false ∨ ∃ s ∈ broken, status = some s := by
  rcases status with _ | s
  · exact .inl rfl
  · by_cases h : s ∈ broken
    · exact .inr ⟨s, h, rfl⟩
    · exact .inl (by simp [h])

section StepLogs

variable {logs : ℕ → Answer Unit}

theorem failedStepLogs_eq_ok {step : Step × ℕ} :
    failedStepLogs logs step = .ok () ↔ ¬ (step.1.failed ∧ Unexpected (logs step.2)) := by
  unfold failedStepLogs getStepLogUrls
  split_ifs with hfailed
  · rw [and_iff_right hfailed, ← recover_ok_iff]
    exact ⟨fun h => ⟨(), h⟩, fun ⟨(), h⟩ => h⟩
  · simp [hfailed]

theorem not_unavailable_failedStepLogs (step : Step × ℕ) :
    ¬ Unavailable (failedStepLogs logs step) := by
  unfold failedStepLogs
  split_ifs
  · exact not_unavailable_recover
  · exact not_unavailable_ok

/-- The loop over the failed steps. -/
theorem stepLogs_ok_iff {steps : List (Step × ℕ)} :
    ¬ Unexpected (steps.forM (failedStepLogs logs))
      ↔ ¬ ∃ step ∈ steps, step.1.failed ∧ Unexpected (logs step.2) := by
  constructor
  · rintro h ⟨step, hmem, hstep⟩
    obtain ⟨u, hu⟩ := ok_of_expected h (not_unavailable_forM not_unavailable_failedStepLogs steps)
    exact failedStepLogs_eq_ok.1 (forM_eq_ok.1 hu step hmem) hstep
  · intro h
    have hok : steps.forM (failedStepLogs logs) = .ok () :=
      forM_eq_ok.2 fun step hmem => failedStepLogs_eq_ok.2 fun hstep => h ⟨step, hmem, hstep⟩
    rw [hok]
    exact not_unexpected_ok

end StepLogs

theorem getParentBuildStatus_ok_iff {answers : ParentAnswers} :
    (∃ s, getParentBuildStatus answers = .ok s) ↔ ¬ answers.Breaks := by
  unfold ParentAnswers.Breaks
  rcases h : answers.build with e | results
  · rw [getParentBuildStatus_error h, recover_ok_iff]
    simp [not_shows h]
  simp only [not_unexpected_ok, false_or, shows_iff h]
  obtain hclear | ⟨s, hb, hs⟩ := broken_cases (getBuildStatus results)
  · rw [getParentBuildStatus_clear h hclear]
    simp only [Except.ok.injEq, exists_eq', true_iff]
    rintro ⟨⟨s, hb, hs⟩, -⟩
    simp [hs, hb] at hclear
  · rw [getParentBuildStatus_broken h hs hb, recover_ok_iff, and_iff_right ⟨s, hb, hs⟩]
    rcases hsteps : answers.steps with e | steps
    · simp [bind, Except.bind]
    · simp only [not_unexpected_ok, false_or, Except.ok.injEq, exists_eq_left']
      rw [← stepLogs_ok_iff]
      exact not_congr unexpected_bind_ok

theorem getParentBuildStatus_quiet_iff {answers : ParentAnswers} :
    (∃ s, getParentBuildStatus answers = .ok s ∧ s.any (· ∈ broken) = false)
      ↔ ¬ answers.Alarms := by
  unfold ParentAnswers.Alarms
  rcases h : answers.build with e | results
  · rw [getParentBuildStatus_error h]
    simp only [not_shows h, and_false, exists_false, false_and, or_false]
    cases hcaught : e.unavailable <;> simp [recover, hcaught]
  simp only [not_unexpected_ok, false_or, shows_iff h]
  obtain hclear | ⟨s, hb, hs⟩ := broken_cases (getBuildStatus results)
  · rw [getParentBuildStatus_clear h hclear]
    refine iff_of_true ⟨_, rfl, hclear⟩ ?_
    rintro ⟨⟨s, hb, hs⟩, -⟩
    simp [hs, hb] at hclear
  · rw [getParentBuildStatus_broken h hs hb, and_iff_right ⟨s, hb, hs⟩, not_not]
    rcases hsteps : answers.steps with e | steps
    · cases hcaught : e.unavailable <;> simp [recover, hcaught, bind, Except.bind]
    · refine iff_of_false ?_ not_unavailable_ok
      rintro ⟨shown, hshown, hquiet⟩
      change recover RequestError.unavailable none
        (steps.zipIdx.forM (failedStepLogs answers.logs) >>= fun _ => .ok (some s)) = _ at hshown
      rw [recover_of_caught (mt unavailable_bind_ok.1
        (not_unavailable_forM not_unavailable_failedStepLogs steps.zipIdx))] at hshown
      obtain ⟨u, -, hreturn⟩ := bind_eq_ok.1 hshown
      cases pure_eq_ok.1 hreturn
      simp [hb] at hquiet

section Requests

/-- The steps fail unexpectedly, or link to a request with a number that `int` does not read. -/
def Malformed (answer : Answer (List Step)) : Prop :=
  Unexpected answer ∨
    ∃ steps, answer = .ok steps ∧ ∃ digits ∈ linkedRequests steps, 4300 < digits.length

theorem Unavailable.not_malformed {answer : Answer (List Step)} (h : Unavailable answer) :
    ¬ Malformed answer := by
  obtain ⟨e, rfl, he⟩ := h
  rintro (hun | ⟨steps, hsteps, -⟩)
  · rw [unexpected_error, he] at hun
    cases hun
  · cases hsteps

theorem int_ok_iff {digits : Text} : (∃ n, int digits = .ok n) ↔ ¬ 4300 < digits.length := by
  unfold int
  split_ifs with h <;> simp [h]

theorem getTriggeredBuilds_ok {steps : List Step} :
    getTriggeredBuilds (.ok steps)
      = (((linkedRequests steps).mapM int).mapError .request).map (·.mergeSort) := by
  unfold getTriggeredBuilds
  dsimp only
  rcases (linkedRequests steps).mapM int with e | ids <;> rfl

/-- The steps are passed over, stop the tool, or give the build requests. -/
theorem getTriggeredBuilds_cases (answer : Answer (List Step)) :
    (Unavailable answer ∧ getTriggeredBuilds answer = .error .buildbotCheckError)
      ∨ (Malformed answer ∧ ∃ e, getTriggeredBuilds answer = .error (.request e))
      ∨ (¬ Unavailable answer ∧ ¬ Malformed answer
        ∧ ∃ ids, getTriggeredBuilds answer = .ok ids) := by
  obtain h | ⟨e, rfl, he⟩ | ⟨steps, rfl⟩ := answer_cases answer
  · obtain ⟨e, rfl, he⟩ := h
    exact .inl ⟨⟨e, rfl, he⟩, by simp [getTriggeredBuilds, he]⟩
  · exact .inr (.inl ⟨.inl ⟨e, rfl, he⟩, e, by simp [getTriggeredBuilds, he]⟩)
  · rw [getTriggeredBuilds_ok]
    rcases hids : (linkedRequests steps).mapM int with e | ids
    · refine .inr (.inl ⟨.inr ⟨steps, rfl, ?_⟩, e, rfl⟩)
      by_contra hshort
      obtain ⟨ids, hok⟩ := exists_mapM fun digits hdigits =>
        int_ok_iff.2 fun hlong => hshort ⟨digits, hdigits, hlong⟩
      rw [hids] at hok
      cases hok
    · refine .inr (.inr ⟨not_unavailable_ok, ?_, ids.mergeSort, rfl⟩)
      rintro (h | ⟨steps', h, digits, hdigits, hlong⟩)
      · exact not_unexpected_ok h
      · cases h
        exact int_ok_iff.1 (mapM_ok_mem hids digits hdigits) hlong

end Requests

namespace BuildAnswers

variable (answers : BuildAnswers)

/-- The requests for the names end the tool. -/
def NamesBreak : Prop :=
  Unexpected answers.properties ∨ ∃ keys, answers.properties = .ok keys ∧
    keys.any isSystem ∧ (Unavailable answers.stepsAgain ∨ Malformed answers.stepsAgain)

end BuildAnswers

theorem getBuildNames_eq_ok {answers : BuildAnswers} :
    getBuildNames answers = .ok () ↔ ¬ answers.NamesBreak := by
  unfold getBuildNames BuildAnswers.NamesBreak
  obtain ⟨e, h, he⟩ | ⟨e, h, he⟩ | ⟨keys, h⟩ := answer_cases answers.properties
  · simp [h, recover, he, bind, Except.bind, Except.mapError]
  · simp [h, recover, he, bind, Except.bind, Except.mapError]
  · simp only [h, not_unexpected_ok, false_or, Except.ok.injEq, exists_eq_left']
    change (if keys.any isSystem then (getTriggeredBuilds answers.stepsAgain).map fun _ => ()
      else .ok ()) = .ok () ↔ _
    split_ifs with hkeys
    · rw [and_iff_right hkeys]
      obtain ⟨hun, hres⟩ | ⟨hmal, e, hres⟩ | ⟨hun, hmal, ids, hres⟩ :=
        getTriggeredBuilds_cases answers.stepsAgain
      · simp [hres, hun, Except.map]
      · simp [hres, hmal, Except.map]
      · simp [hres, hun, hmal, Except.map]
    · simp [hkeys]

namespace RequestAnswers

variable (answers : RequestAnswers)

/-- A status that reaches the report. -/
def Shows (s : BuildStatus) : Prop :=
  ∃ request, answers.request = .ok request ∧ getBuildStatus request.results = some s
    ∧ (request.complete → ¬ Unexpected answers.builds)

/-- A build of a complete request that reaches the report. -/
def ShowsBuild (buildId : ℕ) : Prop :=
  ∃ request builds, answers.request = .ok request ∧ request.complete ∧ answers.builds = .ok builds
    ∧ builds.head?.join = some buildId

end RequestAnswers

section Worker

variable {answers : BuildAnswers} {request : ℕ × ℕ}

/-- The answers reach the report, or nothing of them does. -/
theorem workerResult_cases :
    (∃ r, (answers.requests request.2).request = .ok r
        ∧ (r.complete → ¬ Unexpected (answers.requests request.2).builds)
        ∧ workerResult answers request = (request.2, ⟨request.1, getBuildStatus r.results,
          if r.complete then (answers.requests request.2).builds.toOption.bind (·.head?.join)
          else none⟩))
      ∨ (∀ r, (answers.requests request.2).request = .ok r → r.complete
          ∧ Unexpected (answers.requests request.2).builds)
        ∧ workerResult answers request = (request.2, ⟨request.1, none, none⟩) := by
  unfold workerResult checkBuildRequestStatus
  rcases hrequest : (answers.requests request.2).request with e | r
  · right
    cases e <;> simp [recover, RequestError.unavailable, bind, Except.bind]
  cases hcomplete : r.complete
  · simp [recover, bind, Except.bind, pure, Except.pure, hcomplete]
  · rcases hbuilds : (answers.requests request.2).builds with e | builds
    · cases e <;> simp [recover, RequestError.unavailable, bind, Except.bind, Except.map, pure,
        Except.pure, Except.toOption, hcomplete]
    · simp [recover, bind, Except.bind, Except.map, pure, Except.pure, Except.toOption, hcomplete]

@[simp] theorem workerResult_place : (workerResult answers request).1 = request.2 := by
  obtain ⟨r, -, -, h⟩ | ⟨-, h⟩ := @workerResult_cases answers request <;>
    rw [h]

@[simp] theorem workerResult_requestId :
    (workerResult answers request).2.requestId = request.1 := by
  obtain ⟨r, -, -, h⟩ | ⟨-, h⟩ := @workerResult_cases answers request <;>
    rw [h]

theorem workerResult_status {s : BuildStatus} : (workerResult answers request).2.status = some s
    ↔ (answers.requests request.2).Shows s := by
  obtain ⟨r, hr, hbuilds, h⟩ | ⟨hnone, h⟩ := @workerResult_cases answers request
  · rw [h]
    constructor
    · exact fun hs => ⟨r, hr, hs, hbuilds⟩
    · rintro ⟨r', hr', hs, -⟩
      rw [hr] at hr'
      cases hr'
      exact hs
  · rw [h]
    refine iff_of_false nofun ?_
    rintro ⟨r, hr, -, hbuilds⟩
    exact hbuilds (hnone r hr).1 (hnone r hr).2

theorem workerResult_buildId {buildId : ℕ} :
    (workerResult answers request).2.buildId = some buildId
      ↔ (answers.requests request.2).ShowsBuild buildId := by
  obtain ⟨r, hr, hbuilds, h⟩ | ⟨hnone, h⟩ := @workerResult_cases answers request
  · rw [h]
    unfold RequestAnswers.ShowsBuild
    rcases hb : (answers.requests request.2).builds with e | builds <;>
      simp [hr, Except.toOption]
  · rw [h]
    refine iff_of_false nofun ?_
    rintro ⟨r, builds, hr, -, hbuilds, -⟩
    have hun := (hnone r hr).2
    rw [hbuilds] at hun
    exact not_unexpected_ok hun

end Worker

end OnixCore.BuildbotPrCheck
