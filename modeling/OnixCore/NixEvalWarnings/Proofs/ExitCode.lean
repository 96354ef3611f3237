import OnixCore.NixEvalWarnings.Proofs.Attribution

/-!
# What the exit code says

The status of `nix-eval-jobs` is read and dropped, so the exit code tells what the records tell: an
evaluator that fails is noticed only by a record with an error.
-/

namespace OnixCore.NixEvalWarnings

section Stream

variable {loads : Text → Except LoadError (List (String × Json))}
  {inputMapping : List (Text × Text)} {lines : List Text}

theorem raised_eq_any : ∀ (lastWarning : Option Text) (lines : List Text),
    (parseFrom loads inputMapping lastWarning lines).raised = lines.any (raises loads)
  | _, [] => rfl
  | lastWarning, line :: lines => by
    have ih := fun lastWarning => raised_eq_any lastWarning lines
    rw [List.any_cons]
    rcases hread : readLine loads line with _ | text | _ | ⟨attr, error⟩ | _
    case failed =>
      rcases error with _ | _ | _ | error | _ | _ <;>
        simp [parseFrom, hread, raises, Yielded.cons, ih]
    all_goals simp [parseFrom, hread, raises, Yielded.cons, ih]

/-- The loop that comes to its end has a warning for each record with an error. -/
theorem warnings_eq_nil_iff : ∀ (lastWarning : Option Text) {lines : List Text},
    (∀ line ∈ lines, raises loads line = false) →
      ((parseFrom loads inputMapping lastWarning lines).results.filterMap id = []
        ↔ ∀ line ∈ lines, hasError loads line = false)
  | _, [], _ => by simp [parseFrom]
  | lastWarning, line :: lines, h => by
    obtain ⟨hline, hlines⟩ := List.forall_mem_cons.1 h
    have ih := fun lastWarning => warnings_eq_nil_iff lastWarning hlines
    rw [List.forall_mem_cons]
    rcases hread : readLine loads line with _ | text | _ | ⟨attr, error⟩ | _
    case failed =>
      rcases error with _ | _ | _ | error | _ | _
      case str => simp [parseFrom, hread, hasError, Yielded.cons]
      all_goals simp [raises, hread] at hline
    case clean =>
      simpa [parseFrom, hread, hasError, Yielded.cons] using ih lastWarning
    case warning => simpa [parseFrom, hread, hasError] using ih (some text)
    case skipped => simpa [parseFrom, hread, hasError] using ih lastWarning
    case raised => simp [raises, hread] at hline

/-- Something in the pipe ends the program with an exception. -/
def Output.Raises (loads : Text → Except LoadError (List (String × Json))) (output : Output) : Prop :=
  output.undecodable = true ∨ ∃ line ∈ output.lines, raises loads line = true

theorem raises_iff {output : Output} :
    ((parseNixEvalOutput loads inputMapping output.lines).raised || output.undecodable) = true
      ↔ output.Raises loads := by
  rw [parseNixEvalOutput, raised_eq_any, Bool.or_eq_true, List.any_eq_true, or_comm]
  rfl

theorem main_of_raises {output : Output} {status : Int} (h : output.Raises loads) :
    main loads inputMapping (.ran output status) = .error .raised := by
  rw [main, runNixEvalJobs, if_pos (raises_iff.2 h)]

theorem main_of_not_raises {output : Output} {status : Int} (h : ¬ output.Raises loads) :
    main loads inputMapping (.ran output status)
      = .ok (if ∀ line ∈ output.lines, hasError loads line = false then exitOk
        else exitWarnings) := by
  have hgoes : ∀ line ∈ output.lines, raises loads line = false := by
    simpa using (not_or.1 h).2
  rw [main, runNixEvalJobs, if_neg fun hraised => h (raises_iff.1 hraised)]
  simp only [List.isEmpty_iff, parseNixEvalOutput, warnings_eq_nil_iff none hgoes]

end Stream

/-- Zero says that the evaluator succeeded without an error in a record, one that some record has an
error, and an evaluator that fails without a record gives two. -/
structure ExitContract (loads : Text → Except LoadError (List (String × Json)))
    (inputMapping : List (Text × Text)) (output : Output) (status : Int) : Prop where
  ok : main loads inputMapping (.ran output status) = .ok exitOk →
    status = 0 ∧ ∀ line ∈ output.lines, hasError loads line = false
  warnings : main loads inputMapping (.ran output status) = .ok exitWarnings →
    ∃ line ∈ output.lines, hasError loads line = true
  failure : status ≠ 0 → (∀ line ∈ output.lines, isRecord loads line = false) →
    main loads inputMapping (.ran output status) = .ok exitError

/-- The exit code tells the truth exactly when the evaluator succeeds, or a record has an error, or
an exception comes in the way after all and there is a record. -/
theorem exitContract_iff (loads : Text → Except LoadError (List (String × Json)))
    (inputMapping : List (Text × Text)) (output : Output) (status : Int) :
    ExitContract loads inputMapping output status
      ↔ status = 0 ∨ (∃ line ∈ output.lines, hasError loads line = true)
        ∨ output.Raises loads ∧ ∃ line ∈ output.lines, isRecord loads line = true := by
  by_cases hraises : output.Raises loads
  · have hmain := @main_of_raises loads inputMapping output status hraises
    constructor
    · intro h
      by_contra hneither
      obtain ⟨hstatus, -, hrecord⟩ := by simpa only [not_or] using hneither
      have hnone : ∀ line ∈ output.lines, isRecord loads line = false := by
        simpa using fun line hline h => hrecord ⟨hraises, line, hline, h⟩
      exact absurd (hmain.symm.trans (h.failure hstatus hnone)) nofun
    · intro h
      refine ⟨fun hok => ?_, fun hwarnings => ?_, fun hstatus hnone => ?_⟩
      · exact absurd (hmain.symm.trans hok) nofun
      · exact absurd (hmain.symm.trans hwarnings) nofun
      · rcases h with h | ⟨line, hline, herror⟩ | ⟨-, line, hline, hrecord⟩
        · exact absurd h hstatus
        · exact absurd (isRecord_of_hasError herror) (by simp [hnone line hline])
        · exact absurd hrecord (by simp [hnone line hline])
  · have hmain := @main_of_not_raises loads inputMapping output status hraises
    by_cases hclean : ∀ line ∈ output.lines, hasError loads line = false
    · rw [if_pos hclean] at hmain
      have hnone : ¬ ∃ line ∈ output.lines, hasError loads line = true := by simpa using hclean
      refine ⟨fun h => .inl (h.ok hmain).1, fun h => ?_⟩
      have hstatus : status = 0 := by simpa [hraises, hnone] using h
      refine ⟨fun _ => ⟨hstatus, hclean⟩, fun hwarnings => ?_, fun h => absurd hstatus h⟩
      exact absurd (Except.ok.inj (hmain.symm.trans hwarnings)) (by decide)
    · rw [if_neg hclean] at hmain
      have hsome : ∃ line ∈ output.lines, hasError loads line = true := by simpa using hclean
      refine iff_of_true ⟨fun hok => ?_, fun _ => hsome, fun _ hnone => ?_⟩ (.inr (.inl hsome))
      · exact absurd (Except.ok.inj (hmain.symm.trans hok)) (by decide)
      · obtain ⟨line, hline, herror⟩ := hsome
        exact absurd (isRecord_of_hasError herror) (by simp [hnone line hline])

/-- An evaluator that fails before its first record counts as a clean one. -/
theorem failedEvaluator_reports_success : ¬ ExitContract sampleLoads []
    { lines := ["error: getting status of flake".toList], undecodable := false } 1 := by
  intro h
  have hmain : main sampleLoads [] (.ran
      { lines := ["error: getting status of flake".toList], undecodable := false } 1)
      = .ok exitOk := rfl
  exact absurd (h.ok hmain).1 (by decide)

end OnixCore.NixEvalWarnings
