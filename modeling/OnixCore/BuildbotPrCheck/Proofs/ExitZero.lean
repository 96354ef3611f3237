import OnixCore.BuildbotPrCheck.Proofs.Answers

/-!
# What a green pull request shows

Exit code zero is given exactly where no answer raises an alarm (`checkPr_eq_zero`). Where none
does, the builds are verified exactly where none of the gaps is there that the tool passes over in
silence (`exit_zero_verified_iff`).
-/

namespace OnixCore.BuildbotPrCheck

/-- The code of a finished build or request that is none of the broken ones. A build that is retried
has not ended. -/
def Accepted (results : Option Int) : Prop :=
  ∃ s, getBuildStatus results = some s ∧ s ∉ broken ∧ s ≠ .retry

/-- What makes the check of one build end with an exception or with exit code one. -/
inductive Alarm (included : Option (BuildStatus → Bool)) (answers : BuildAnswers)
    (ids : List ℕ) : Prop
  | parentBefore (h : answers.parentBefore.Breaks)
  | names (h : answers.NamesBreak)
  | shown {request : ℕ × ℕ} {s : BuildStatus} (hmem : request ∈ ids.zipIdx)
      (hs : s = .failure ∨ s = .cancelled) (h : (answers.requests request.2).Shows s)
  | logs {set : BuildStatus → Bool} {request last : ℕ × ℕ} {buildId : ℕ}
      (hset : included = some set) (hincluded : set .exception) (hmem : request ∈ ids.zipIdx)
      (h : (answers.requests request.2).Shows .exception)
      (hlast : ((answers.completion.order ids.zipIdx).filter (·.1 = request.1)).getLast? = some last)
      (hbuild : (answers.requests last.2).ShowsBuild buildId) (hne : buildId ≠ 0)
      (hlogs : Unexpected (answers.requests request.2).buildSteps)
  | parentAfter (h : answers.parentAfter.Alarms)

section Report

variable {answers : BuildAnswers} {ids : List ℕ}

/-- The report on the requests, once every worker has ended. -/
def reportOn (answers : BuildAnswers) (ids : List ℕ) : BuildStatusReport :=
  ⟨(answers.completion.order ids.zipIdx).map (workerResult answers)⟩

theorem mem_reportOn {result : ℕ × BuildRequestStatus} :
    result ∈ (reportOn answers ids).results
      ↔ ∃ request ∈ ids.zipIdx, workerResult answers request = result := by
  simp [reportOn, (answers.completion.perm _).mem_iff]

theorem mem_statuses {s : BuildStatus} {result : ℕ × BuildRequestStatus} :
    result ∈ (reportOn answers ids).statuses (some s) ↔ ∃ request ∈ ids.zipIdx,
      (answers.requests request.2).Shows s ∧ workerResult answers request = result := by
  unfold BuildStatusReport.statuses
  rw [List.mem_filter, mem_reportOn]
  constructor
  · rintro ⟨⟨request, hmem, rfl⟩, hs⟩
    exact ⟨request, hmem, workerResult_status.1 (of_decide_eq_true hs), rfl⟩
  · rintro ⟨request, hmem, hshows, rfl⟩
    exact ⟨⟨request, hmem, rfl⟩, decide_eq_true (workerResult_status.2 hshows)⟩

theorem statuses_eq_nil {s : BuildStatus} : (reportOn answers ids).statuses (some s) = []
    ↔ ∀ request ∈ ids.zipIdx, ¬ (answers.requests request.2).Shows s := by
  rw [List.eq_nil_iff_forall_not_mem]
  constructor
  · exact fun h request hmem hshows => h _ (mem_statuses.2 ⟨request, hmem, hshows, rfl⟩)
  · rintro h result hresult
    obtain ⟨request, hmem, hshows, -⟩ := mem_statuses.1 hresult
    exact h request hmem hshows

theorem buildId_reportOn {id buildId : ℕ} :
    (reportOn answers ids).buildId id = some buildId
      ↔ ∃ last, ((answers.completion.order ids.zipIdx).filter (·.1 = id)).getLast? = some last
        ∧ (answers.requests last.2).ShowsBuild buildId := by
  have hfilter : (reportOn answers ids).results.filter (·.2.requestId = id)
      = ((answers.completion.order ids.zipIdx).filter (·.1 = id)).map (workerResult answers) := by
    simp [reportOn, List.filter_map, Function.comp_def]
  unfold BuildStatusReport.buildId
  rw [hfilter, List.getLast?_map, Option.bind_map, Option.bind_eq_some_iff]
  exact exists_congr fun last => and_congr_right fun _ => workerResult_buildId

end Report

theorem checkBuildStatus_eq_ok {build : BuildWithTriggers} {report : BuildStatusReport} :
    checkBuildStatus build = .ok report ↔ ¬ build.answers.parentBefore.Breaks
      ∧ ¬ build.answers.NamesBreak ∧ reportOn build.answers build.buildRequests = report := by
  unfold checkBuildStatus
  simp only [bind_eq_ok, mapError_eq_ok, pure_eq_ok, ← getParentBuildStatus_ok_iff,
    ← getBuildNames_eq_ok]
  constructor
  · rintro ⟨status, hparent, ⟨⟩, hnames, hreport⟩
    exact ⟨⟨status, hparent⟩, hnames, hreport⟩
  · rintro ⟨⟨status, hparent⟩, hnames, hreport⟩
    exact ⟨status, hparent, (), hnames, hreport⟩

theorem getBuildLogUrls_eq_ok {steps : Answer (List Step)} :
    getBuildLogUrls steps = .ok () ↔ ¬ Unexpected steps := by
  rcases steps with e | steps
  · cases h : e.unavailable <;> simp [getBuildLogUrls, recover, Except.map, h]
  · simp [getBuildLogUrls, recover, Except.map]

/-- The logs of a broken request that is shown in detail. -/
theorem requestLogs_eq_ok {answers : BuildAnswers} {report : BuildStatusReport} {s : BuildStatus}
    {result : ℕ × BuildRequestStatus} : requestLogs answers report s result = .ok ()
      ↔ ¬ (s ∈ broken ∧ (∃ buildId ≠ 0, report.buildId result.2.requestId = some buildId)
        ∧ Unexpected (answers.requests result.1).buildSteps) := by
  have hany : (report.buildId result.2.requestId).any (· ≠ 0) = true
      ↔ ∃ buildId ≠ 0, report.buildId result.2.requestId = some buildId := by
    simp [Option.any_eq_true, and_comm]
  unfold requestLogs
  rw [← hany]
  split_ifs with h
  · rw [mapError_eq_ok, getBuildLogUrls_eq_ok, ← and_assoc, and_iff_right h]
  · rw [← and_assoc]
    exact iff_of_true rfl fun h' => h h'.1

theorem mem_allStatuses (s : BuildStatus) : s ∈ allStatuses := by
  cases s <;> decide

theorem printBuildReport_eq_ok {included : Option (BuildStatus → Bool)} {build : BuildWithTriggers}
    {report : BuildStatusReport} : printBuildReport included build report = .ok () ↔
      ∀ s, included.getD (· ∈ [.failure, .cancelled]) s → ∀ result ∈ report.statuses (some s),
        requestLogs build.answers report s result = .ok () := by
  unfold printBuildReport
  simp only [forM_eq_ok, List.mem_filter, mem_allStatuses, true_and, List.mem_mergeSort]

theorem checkBuild_ok_zero {included : Option (BuildStatus → Bool)} {build : BuildWithTriggers}
    {exitCode : ℕ} : checkBuild included build exitCode = .ok 0 ↔ exitCode = 0
      ∧ ¬ build.answers.parentBefore.Breaks ∧ ¬ build.answers.NamesBreak
      ∧ printBuildReport included build (reportOn build.answers build.buildRequests) = .ok ()
      ∧ ¬ build.answers.parentAfter.Alarms
      ∧ (reportOn build.answers build.buildRequests).statuses (some .failure) = []
      ∧ (reportOn build.answers build.buildRequests).statuses (some .cancelled) = [] := by
  unfold checkBuild
  simp only [bind_eq_ok, mapError_eq_ok, pure_eq_ok, checkBuildStatus_eq_ok,
    ← getParentBuildStatus_quiet_iff]
  constructor
  · rintro ⟨report, ⟨hbefore, hnames, rfl⟩, ⟨⟩, hprint, status, hparent, hcode⟩
    split_ifs at hcode with h
    push Not at h
    exact ⟨hcode, hbefore, hnames, hprint, ⟨status, hparent, by simpa using h.1⟩, h.2⟩
  · rintro ⟨hcode, hbefore, hnames, hprint, ⟨status, hparent, hquiet⟩, hfailure, hcancelled⟩
    refine ⟨_, ⟨hbefore, hnames, rfl⟩, (), hprint, status, hparent, ?_⟩
    rw [if_neg (by simp [hquiet, hfailure, hcancelled])]
    exact hcode

theorem checkBuild_eq_zero {included : Option (BuildStatus → Bool)} {build : BuildWithTriggers}
    {exitCode : ℕ} : checkBuild included build exitCode = .ok 0
      ↔ exitCode = 0 ∧ ¬ Alarm included build.answers build.buildRequests := by
  rw [checkBuild_ok_zero, printBuildReport_eq_ok, statuses_eq_nil, statuses_eq_nil]
  refine and_congr_right fun _ => ?_
  constructor
  · rintro ⟨hbefore, hnames, hprint, hafter, hfailure, hcancelled⟩ alarm
    cases alarm with
    | parentBefore h => exact hbefore h
    | names h => exact hnames h
    | shown hmem hs h =>
      obtain rfl | rfl := hs
      · exact hfailure _ hmem h
      · exact hcancelled _ hmem h
    | @logs _ request last buildId hset hincluded hmem h hlast hbuild hne hlogs =>
      subst hset
      have hresult := hprint .exception hincluded _ (mem_statuses.2 ⟨_, hmem, h, rfl⟩)
      rw [requestLogs_eq_ok, workerResult_requestId, workerResult_place] at hresult
      exact hresult ⟨by decide, ⟨buildId, hne, buildId_reportOn.2 ⟨last, hlast, hbuild⟩⟩, hlogs⟩
    | parentAfter h => exact hafter h
  · intro halarm
    have hfailure : ∀ request ∈ build.buildRequests.zipIdx,
        ¬ (build.answers.requests request.2).Shows .failure :=
      fun request hmem h => halarm (.shown hmem (.inl rfl) h)
    have hcancelled : ∀ request ∈ build.buildRequests.zipIdx,
        ¬ (build.answers.requests request.2).Shows .cancelled :=
      fun request hmem h => halarm (.shown hmem (.inr rfl) h)
    refine ⟨fun h => halarm (.parentBefore h), fun h => halarm (.names h), ?_,
      fun h => halarm (.parentAfter h), hfailure, hcancelled⟩
    intro s hincluded result hresult
    obtain ⟨request, hmem, hshows, rfl⟩ := mem_statuses.1 hresult
    rw [requestLogs_eq_ok, workerResult_requestId, workerResult_place]
    rintro ⟨hs, ⟨buildId, hne, hbuild⟩, hlogs⟩
    obtain ⟨last, hlast, hbuild⟩ := buildId_reportOn.1 hbuild
    -- only exceptions are left, which are shown where they were asked for
    simp only [broken, List.mem_cons, List.not_mem_nil, or_false] at hs
    obtain rfl | rfl | rfl := hs
    · exact hfailure request hmem hshows
    · rcases included with _ | set
      · cases hincluded
      · exact halarm (.logs rfl hincluded hmem hshows hlast hbuild hne hlogs)
    · exact hcancelled request hmem hshows

section Runs

variable {included : Option (BuildStatus → Bool)}

theorem checkBuilds_eq_zero : ∀ {builds : List BuildWithTriggers} {exitCode : ℕ},
    checkBuilds included builds exitCode = .ok 0
      ↔ exitCode = 0 ∧ ∀ build ∈ builds, ¬ Alarm included build.answers build.buildRequests
  | [], exitCode => by simp [checkBuilds]
  | build :: builds, exitCode => by
    rw [checkBuilds, bind_eq_ok, List.forall_mem_cons]
    constructor
    · rintro ⟨code, hbuild, hbuilds⟩
      obtain ⟨rfl, hrest⟩ := checkBuilds_eq_zero.1 hbuilds
      obtain ⟨hcode, halarm⟩ := checkBuild_eq_zero.1 hbuild
      exact ⟨hcode, halarm, hrest⟩
    · rintro ⟨hcode, halarm, hrest⟩
      exact ⟨0, checkBuild_eq_zero.2 ⟨hcode, halarm⟩, checkBuilds_eq_zero.2 ⟨rfl, hrest⟩⟩

end Runs

/-- What makes an address end the check with another code than zero. -/
inductive Discovered.Alarms (included : Option (BuildStatus → Bool)) (found : Discovered) : Prop
  | malformed {info : BuildInfo} (hinfo : found.info? = some info)
      (h : Malformed found.answers.steps)
  | check {info : BuildInfo} {ids : List ℕ} (hinfo : found.info? = some info)
      (hids : getTriggeredBuilds found.answers.steps = .ok ids)
      (h : Alarm included found.answers ids)

section Runs

variable {included : Option (BuildStatus → Bool)}

theorem filterBuilds_quiet : ∀ {found : List Discovered},
    (∃ builds, filterBuildsWithTriggers found = .ok builds
        ∧ ∀ build ∈ builds, ¬ Alarm included build.answers build.buildRequests)
      ↔ ∀ one ∈ found, ¬ one.Alarms included
  | [] => by simp [filterBuildsWithTriggers]
  | one :: rest => by
    rw [List.forall_mem_cons, ← filterBuilds_quiet, filterBuildsWithTriggers]
    rcases hinfo : one.info? with _ | info
    · rw [and_iff_right]
      rintro (⟨h, -⟩ | ⟨h, -⟩) <;> cases hinfo.symm.trans h
    obtain ⟨hun, hsteps⟩ | ⟨hmal, e, hsteps⟩ | ⟨-, hmal, ids, hsteps⟩ :=
      getTriggeredBuilds_cases one.answers.steps
    · simp only [hsteps]
      rw [and_iff_right]
      rintro (⟨-, h⟩ | ⟨-, hids, -⟩)
      · exact hun.not_malformed h
      · cases hsteps.symm.trans hids
    · simp only [hsteps]
      exact iff_of_false nofun fun h => h.1 (.malformed hinfo hmal)
    · simp only [hsteps]
      constructor
      · rintro ⟨builds, hbuilds, hquiet⟩
        rcases hrest : filterBuildsWithTriggers rest with e | more
        · rw [hrest] at hbuilds
          cases hbuilds
        rw [hrest] at hbuilds
        cases hbuilds
        obtain ⟨hone, hquiet⟩ := List.forall_mem_cons.1 hquiet
        refine ⟨?_, more, rfl, hquiet⟩
        rintro (⟨-, h⟩ | ⟨-, hids, h⟩)
        · exact hmal h
        · cases hsteps.symm.trans hids
          exact hone h
      · rintro ⟨hone, builds, hbuilds, hquiet⟩
        refine ⟨_, congrArg (Except.map _) hbuilds, List.forall_mem_cons.2 ⟨?_, hquiet⟩⟩
        exact fun h => hone (.check hinfo hsteps h)

theorem checkDiscovered_eq_zero {discovered : Except Raised (List Discovered)} :
    checkDiscovered included discovered = .ok 0
      ↔ ∃ found, discovered = .ok found ∧ ∀ one ∈ found, ¬ one.Alarms included := by
  unfold checkDiscovered
  simp only [bind_eq_ok, ← filterBuilds_quiet]
  refine exists_congr fun found => and_congr_right fun _ => ?_
  rcases found with _ | ⟨one, rest⟩
  · simp [filterBuildsWithTriggers]
  simp only [List.isEmpty_cons, Bool.false_eq_true, if_false, bind_eq_ok]
  refine exists_congr fun builds => and_congr_right fun _ => ?_
  rcases builds with _ | ⟨build, more⟩
  · simp
  · simp only [List.isEmpty_cons, Bool.false_eq_true, if_false, checkBuilds_eq_zero, true_and]

theorem checkPr_eq_zero {discovered : Except Raised (List Discovered)} :
    checkPr included discovered = .code 0
      ↔ ∃ found, discovered = .ok found ∧ ∀ one ∈ found, ¬ one.Alarms included := by
  rw [← checkDiscovered_eq_zero, checkPr]
  rcases checkDiscovered included discovered with (_ | e) | exitCode <;> simp

end Runs

/-- The address is read, and its build and every build it triggered are known to have ended well. -/
def Discovered.Verified (found : Discovered) : Prop :=
  ∃ info ids results, found.info? = some info ∧ getTriggeredBuilds found.answers.steps = .ok ids
    ∧ found.answers.parentAfter.build = .ok results ∧ Accepted results
    ∧ ∀ request ∈ ids.zipIdx, ∃ r, (found.answers.requests request.2).request = .ok r
      ∧ Accepted r.results

/-- What the tool passes over of a parent build: no answer, a status that is unknown or no end, and
a broken build whose steps cannot be had. -/
inductive ParentAnswers.Gap (answers : ParentAnswers) : Prop
  | unavailable (h : Unavailable answers.build)
  | unknown {results : Option Int} (h : answers.build = .ok results)
      (hs : ∀ s, getBuildStatus results = some s → s = .retry)
  | hidden {s : BuildStatus} (hs : s ∈ broken) (h : answers.Shows s)
      (hsteps : Unavailable answers.steps)

/-- What it passes over of a build request: no answer, a status that is unknown, no end or an
exception, and a failure whose build cannot be had. -/
inductive RequestAnswers.Gap (answers : RequestAnswers) : Prop
  | failed {e : RequestError} (h : answers.request = .error e)
  | unknown {r : Request} (h : answers.request = .ok r)
      (hs : ∀ s, getBuildStatus r.results = some s → s = .retry ∨ s = .exception)
  | hidden {r : Request} {s : BuildStatus} (h : answers.request = .ok r)
      (hs : getBuildStatus r.results = some s) (hbad : s = .failure ∨ s = .cancelled)
      (hcomplete : r.complete) (hbuilds : Unexpected answers.builds)

/-- What it passes over of an address: all of it, or an answer about it. -/
inductive Discovered.Gap (found : Discovered) : Prop
  | unread (h : found.info? = none)
  | skipped (h : Unavailable found.answers.steps)
  | parent {ids : List ℕ} (hids : getTriggeredBuilds found.answers.steps = .ok ids)
      (h : found.answers.parentAfter.Gap)
  | request {ids : List ℕ} {request : ℕ × ℕ}
      (hids : getTriggeredBuilds found.answers.steps = .ok ids) (hmem : request ∈ ids.zipIdx)
      (h : (found.answers.requests request.2).Gap)

theorem parent_accepted_iff {answers : ParentAnswers} (halarm : ¬ answers.Alarms) :
    (∃ results, answers.build = .ok results ∧ Accepted results) ↔ ¬ answers.Gap := by
  obtain hun | hun | ⟨results, h⟩ := answer_cases answers.build
  · refine iff_of_false ?_ (not_not.2 (.unavailable hun))
    rintro ⟨results, h, -⟩
    rw [h] at hun
    exact not_unavailable_ok hun
  · exact absurd (.inl hun) halarm
  simp only [h, Except.ok.injEq, exists_eq_left']
  by_cases hend : ∀ s, getBuildStatus results = some s → s = .retry
  · refine iff_of_false ?_ (not_not.2 (.unknown h hend))
    rintro ⟨s, hs, -, hretry⟩
    exact hretry (hend s hs)
  push Not at hend
  obtain ⟨s, hs, hretry⟩ := hend
  by_cases hbroken : s ∈ broken
  · have hsteps : Unavailable answers.steps :=
      not_not.1 fun hsteps => halarm (.inr ⟨⟨s, hbroken, results, h, hs⟩, hsteps⟩)
    refine iff_of_false ?_ (not_not.2 (.hidden hbroken ⟨results, h, hs⟩ hsteps))
    rintro ⟨s', hs', hgood, -⟩
    rw [hs] at hs'
    cases hs'
    exact hgood hbroken
  · refine iff_of_true ⟨s, hs, hbroken, hretry⟩ ?_
    rintro (hun | ⟨h', hend⟩ | ⟨hbad, hshown, -⟩)
    · rw [h] at hun
      exact not_unavailable_ok hun
    · rw [h] at h'
      cases h'
      exact hretry (hend s hs)
    · rw [shows_iff h, hs] at hshown
      cases hshown
      exact hbroken hbad

theorem request_accepted_iff {answers : RequestAnswers}
    (hquiet : ∀ s, s = .failure ∨ s = .cancelled → ¬ answers.Shows s) :
    (∃ r, answers.request = .ok r ∧ Accepted r.results) ↔ ¬ answers.Gap := by
  rcases h : answers.request with e | r
  · exact iff_of_false nofun (not_not.2 (.failed h))
  simp only [Except.ok.injEq, exists_eq_left']
  by_cases hend : ∀ s, getBuildStatus r.results = some s → s = .retry ∨ s = .exception
  · refine iff_of_false ?_ (not_not.2 (.unknown h hend))
    rintro ⟨s, hs, hbroken, hretry⟩
    obtain rfl | rfl := hend s hs
    · exact hretry rfl
    · exact hbroken (by decide)
  push Not at hend
  obtain ⟨s, hs, hretry, hexception⟩ := hend
  by_cases hbad : s = .failure ∨ s = .cancelled
  · have hhidden : r.complete ∧ Unexpected answers.builds := by
      by_contra hshown
      exact hquiet s hbad ⟨r, h, hs, fun hcomplete hbuilds => hshown ⟨hcomplete, hbuilds⟩⟩
    refine iff_of_false ?_ (not_not.2 (.hidden h hs hbad hhidden.1 hhidden.2))
    rintro ⟨s', hs', hgood, -⟩
    rw [hs] at hs'
    cases hs'
    obtain rfl | rfl := hbad <;> exact hgood (by decide)
  · refine iff_of_true ⟨s, hs, ?_, hretry⟩ ?_
    · simp only [broken, List.mem_cons, List.not_mem_nil, or_false]
      rintro (rfl | rfl | rfl)
      · exact hbad (.inl rfl)
      · exact hexception rfl
      · exact hbad (.inr rfl)
    · rintro (h' | ⟨h', hend⟩ | ⟨h', hs', hbad', -⟩) <;> cases h.symm.trans h'
      · exact (hend s hs).elim hretry hexception
      · rw [hs] at hs'
        cases hs'
        exact hbad hbad'

/-- Without an alarm, an address is verified where no gap is. -/
theorem verified_iff {included : Option (BuildStatus → Bool)} {one : Discovered}
    (halarm : ¬ one.Alarms included) : one.Verified ↔ ¬ one.Gap := by
  rcases hinfo : one.info? with _ | info
  · refine iff_of_false ?_ (not_not.2 (.unread hinfo))
    rintro ⟨info, ids, results, h, -⟩
    cases hinfo.symm.trans h
  obtain ⟨hun, hsteps⟩ | ⟨hmal, -⟩ | ⟨hun, -, ids, hids⟩ := getTriggeredBuilds_cases one.answers.steps
  · refine iff_of_false ?_ (not_not.2 (.skipped hun))
    rintro ⟨info, ids, results, -, h, -⟩
    cases hsteps.symm.trans h
  · exact absurd (.malformed hinfo hmal) halarm
  have hcheck : ¬ Alarm included one.answers ids := fun h => halarm (.check hinfo hids h)
  have hparent := parent_accepted_iff fun h => hcheck (.parentAfter h)
  have hrequest : ∀ request ∈ ids.zipIdx, (∃ r, (one.answers.requests request.2).request = .ok r
      ∧ Accepted r.results) ↔ ¬ (one.answers.requests request.2).Gap :=
    fun request hmem => request_accepted_iff fun s hs h => hcheck (.shown hmem hs h)
  constructor
  · rintro ⟨-, ids', results, -, hids', hbuild, haccepted, hall⟩ gap
    cases hids.symm.trans hids'
    cases gap with
    | unread h => cases hinfo.symm.trans h
    | skipped h => exact hun h
    | parent _ h => exact hparent.1 ⟨results, hbuild, haccepted⟩ h
    | request hids' hmem h =>
      cases hids.symm.trans hids'
      exact (hrequest _ hmem).1 (hall _ hmem) h
  · intro hgap
    obtain ⟨results, hbuild, haccepted⟩ := hparent.2 fun h => hgap (.parent hids h)
    exact ⟨info, ids, results, hinfo, hids, hbuild, haccepted,
      fun request hmem => (hrequest request hmem).2 fun h => hgap (.request hids hmem h)⟩

/-- Code zero says that builds were found and that each of them ended well. -/
def FailsClosed (included : Option (BuildStatus → Bool))
    (discovered : Except Raised (List Discovered)) : Prop :=
  checkPr included discovered = .code 0 →
    ∃ found, discovered = .ok found ∧ found ≠ [] ∧ ∀ one ∈ found, one.Verified

/-- The check fails closed exactly where something raises an alarm, or where builds are found and
nothing about them is passed over. -/
theorem failsClosed_iff {included : Option (BuildStatus → Bool)}
    {discovered : Except Raised (List Discovered)} : FailsClosed included discovered
      ↔ (∃ e, discovered = .error e) ∨ ∃ found, discovered = .ok found
        ∧ ((∃ one ∈ found, one.Alarms included) ∨ found ≠ [] ∧ ∀ one ∈ found, ¬ one.Gap) := by
  unfold FailsClosed
  rw [checkPr_eq_zero]
  rcases discovered with e | found
  · exact iff_of_true nofun (.inl ⟨e, rfl⟩)
  simp only [reduceCtorEq, exists_false, false_or, Except.ok.injEq, exists_eq_left']
  by_cases halarm : ∃ one ∈ found, one.Alarms included
  · obtain ⟨one, hmem, h⟩ := halarm
    exact iff_of_true (fun hquiet => absurd h (hquiet one hmem)) (.inl ⟨one, hmem, h⟩)
  push Not at halarm
  have hverified : (∀ one ∈ found, one.Verified) ↔ ∀ one ∈ found, ¬ one.Gap :=
    forall₂_congr fun one hmem => verified_iff (halarm one hmem)
  rw [hverified]
  constructor
  · exact fun h => .inr (h halarm)
  · rintro (⟨one, hmem, h⟩ | h)
    · exact absurd h (halarm one hmem)
    · exact fun _ => h

/-- Buildbot does not answer at all. -/
def outage : BuildAnswers where
  steps := .error .urlError
  parentBefore := ⟨.error .urlError, .error .urlError, fun _ => .error .urlError⟩
  properties := .error .urlError
  stepsAgain := .error .urlError
  requests _ := ⟨.error .urlError, .error .urlError, .error .urlError⟩
  completion := ⟨id, fun _ => .rfl⟩
  parentAfter := ⟨.error .urlError, .error .urlError, fun _ => .error .urlError⟩

theorem outage_green :
    ¬ FailsClosed none (.ok [⟨"https://buildbot.dse.in.tum.de/#/builders/18/builds/710".toList, outage⟩]) := by
  intro h
  obtain ⟨found, hfound, -, hverified⟩ := h (by decide +kernel)
  cases hfound
  obtain ⟨info, ids, results, -, hids, -⟩ := hverified _ List.mem_cons_self
  cases hids

end OnixCore.BuildbotPrCheck
