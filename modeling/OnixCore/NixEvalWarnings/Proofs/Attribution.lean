import Mathlib.Data.List.DropRight
import OnixCore.NixEvalWarnings.Warnings

/-!
# Which warning a record gets

The loop keeps the last warning line since the last record with an error. A record without one does
not clear it, and a warning line with no text counts as none: an `EvalWarning` has the warning that
was printed for its own attribute exactly where neither makes a difference.
-/

namespace OnixCore.NixEvalWarnings

open Pattern

theorem extractErrorMessage_ne_nil (errorText : Text) : extractErrorMessage errorText ≠ [] := by
  unfold extractErrorMessage
  simp only
  rcases h : List.find? _ _ with _ | msg
  · decide
  · have hmsg := List.find?_some h
    simp only [Bool.and_eq_true, decide_eq_true_eq] at hmsg
    exact hmsg.1.1.1

section Stream

variable (loads : Text → Except LoadError (List (String × Json)))

/-- A line with the record of an attribute. -/
def isRecord (line : Text) : Bool :=
  match readLine loads line with
  | .clean | .failed _ _ => true
  | _ => false

/-- A line with a record that carries an error. -/
def hasError (line : Text) : Bool :=
  match readLine loads line with
  | .failed _ _ => true
  | _ => false

/-- A line that ends the loop with an exception. -/
def raises (line : Text) : Bool :=
  match readLine loads line with
  | .failed _ (.str _) => false
  | .failed _ _ | .raised => true
  | _ => false

def warningText (line : Text) : Option Text :=
  match readLine loads line with
  | .warning text => some text
  | _ => none

/-- The last warning after the last line of a kind. -/
def lastSince (stop : Text → Bool) (before : List Text) : Option Text :=
  ((before.rtakeWhile fun line => !stop line).filterMap (warningText loads)).getLast?

/-- The `n`-th record's warning is the `n`-th result, and its type is the last warning printed since
the record before it, or else the record's own error. -/
def Attributed (inputMapping : List (Text × Text)) (lines : List Text) : Prop :=
  ∀ before line after attr error, lines = before ++ line :: after →
    readLine loads line = .failed attr (.str error) →
    ∀ w, (parseNixEvalOutput loads inputMapping lines).results[before.countP (isRecord loads)]?
        = some (some w) →
      w.warningType = (lastSince loads (isRecord loads) before).getD
        (extractErrorMessage (stripAnsi error.toList))

/-- The attribute's own warning has a text, or the warnings left over from the attributes before it
since the last error make no difference. -/
def OwnWarning (before : List Text) (error : String) : Prop :=
  match lastSince loads (isRecord loads) before with
  | some text => text ≠ []
  | none => ∀ text, lastSince loads (hasError loads) before = some text →
    text = [] ∨ text = extractErrorMessage (stripAnsi error.toList)

variable {loads} {stop stop' : Text → Bool} {before after : List Text} {line : Text}

theorem isRecord_of_hasError (h : hasError loads line = true) : isRecord loads line = true := by
  unfold hasError at h
  split at h
  case h_1 hread => simp [isRecord, hread]
  case h_2 => cases h

theorem lastSince_stop (h : stop line = true) : lastSince loads stop (before ++ [line]) = none := by
  rw [lastSince, List.rtakeWhile_concat_neg _ _ _ (by simp [h])]
  rfl

theorem lastSince_warning {text : Text} (h : stop line = false)
    (htext : warningText loads line = some text) :
    lastSince loads stop (before ++ [line]) = some text := by
  rw [lastSince, List.rtakeWhile_concat_pos _ _ _ (by simp [h]), List.filterMap_append]
  simp [htext]

theorem lastSince_other (h : stop line = false) (htext : warningText loads line = none) :
    lastSince loads stop (before ++ [line]) = lastSince loads stop before := by
  rw [lastSince, List.rtakeWhile_concat_pos _ _ _ (by simp [h]), List.filterMap_append]
  simp [htext, lastSince]

theorem lastSince_of_stop (hstop : ∀ line, stop' line = true → stop line = true) {text : Text} :
    lastSince loads stop before = some text → lastSince loads stop' before = some text := by
  induction before using List.reverseRecOn with
  | nil => exact id
  | append_singleton before line ih =>
    intro h
    by_cases hline : stop line = true
    · rw [lastSince_stop hline] at h
      cases h
    have hline' : stop' line = false := by
      rw [← Bool.not_eq_true]
      exact fun h => hline (hstop line h)
    rw [Bool.not_eq_true] at hline
    rcases htext : warningText loads line with _ | text'
    · rw [lastSince_other hline htext] at h
      rw [lastSince_other hline' htext, ih h]
    · rw [lastSince_warning hline htext] at h
      rw [lastSince_warning hline' htext, h]

variable {inputMapping : List (Text × Text)}

/-- The lines that raise nothing give one result for each record, and leave the last warning since
the last error. -/
theorem parseFrom_append (h : ∀ line ∈ before, raises loads line = false) :
    ∃ results, results.length = before.countP (isRecord loads) ∧ ∀ after,
      (parseFrom loads inputMapping none (before ++ after)).results
        = results ++ (parseFrom loads inputMapping
            (lastSince loads (hasError loads) before) after).results := by
  induction before using List.reverseRecOn with
  | nil => exact ⟨[], rfl, fun _ => rfl⟩
  | append_singleton before line ih =>
    obtain ⟨results, hlength, happend⟩ := ih fun line hline => h line (List.mem_append_left _ hline)
    have hline := h line (by simp)
    simp only [List.append_assoc, happend, List.singleton_append, List.countP_append, ← hlength]
    rcases hread : readLine loads line with _ | text | _ | ⟨attr, error⟩ | _
    case skipped =>
      refine ⟨results, by simp [isRecord, hread], fun after => ?_⟩
      rw [lastSince_other (by simp [hasError, hread]) (by simp [warningText, hread])]
      simp [parseFrom, hread]
    case warning =>
      refine ⟨results, by simp [isRecord, hread], fun after => ?_⟩
      rw [@lastSince_warning _ _ _ _ text (by simp [hasError, hread]) (by simp [warningText, hread])]
      simp [parseFrom, hread]
    case clean =>
      refine ⟨results ++ [none], by simp [isRecord, hread], fun after => ?_⟩
      rw [lastSince_other (by simp [hasError, hread]) (by simp [warningText, hread])]
      simp [parseFrom, hread, Yielded.cons]
    case failed =>
      rcases error with _ | _ | _ | error | _ | _
      case str =>
        refine ⟨results ++ [some (evalWarning inputMapping (lastSince loads (hasError loads) before)
          attr error)], by simp [isRecord, hread], fun after => ?_⟩
        rw [lastSince_stop (by simp [hasError, hread])]
        simp [parseFrom, hread, Yielded.cons]
      all_goals simp [raises, hread] at hline
    case raised => simp [raises, hread] at hline

/-- After a line that raises there are no results. -/
theorem length_results_le (h : ∃ line ∈ before, raises loads line = true) :
    ∀ lastWarning, (parseFrom loads inputMapping lastWarning (before ++ after)).results.length
      ≤ before.countP (isRecord loads) := by
  induction before with
  | nil => simp at h
  | cons line before ih =>
    intro lastWarning
    by_cases hline : raises loads line = true
    · rcases hread : readLine loads line with _ | text | _ | ⟨attr, error⟩ | _
      case failed => cases error <;> simp_all [raises, parseFrom]
      case raised => simp [parseFrom, hread]
      all_goals simp [raises, hread] at hline
    · have hbefore : ∃ line ∈ before, raises loads line = true := by
        obtain ⟨line', hmem, hraises⟩ := h
        rcases List.mem_cons.1 hmem with rfl | hmem
        · exact absurd hraises hline
        · exact ⟨line', hmem, hraises⟩
      have hrest := ih hbefore
      rw [List.cons_append, List.countP_cons]
      rcases hread : readLine loads line with _ | text | _ | ⟨attr, error⟩ | _
      case failed =>
        rcases error with _ | _ | _ | error | _ | _
        case str => simpa [parseFrom, hread, Yielded.cons, isRecord] using hrest none
        all_goals simp [raises, hread] at hline
      case clean => simpa [parseFrom, hread, Yielded.cons, isRecord] using hrest lastWarning
      case raised => simp [raises, hread] at hline
      case warning => simpa [parseFrom, hread, isRecord] using hrest (some text)
      case skipped => simpa [parseFrom, hread, isRecord] using hrest lastWarning

/-- What the loop takes is the record's own warning, or what its own error says, exactly when the
record has its own warning. -/
theorem warningType_eq_iff (error : String) :
    warningType (lastSince loads (hasError loads) before) (stripAnsi error.toList)
        = (lastSince loads (isRecord loads) before).getD
          (extractErrorMessage (stripAnsi error.toList))
      ↔ OwnWarning loads before error := by
  unfold OwnWarning
  rcases hown : lastSince loads (isRecord loads) before with _ | text
  · rcases lastSince loads (hasError loads) before with _ | _ | ⟨c, text⟩ <;> simp [warningType]
  · rw [lastSince_of_stop (fun _ => isRecord_of_hasError) hown]
    rcases text with _ | ⟨c, text⟩
    · simpa [warningType] using extractErrorMessage_ne_nil _
    · simp [warningType]

/-- Each warning goes to its own attribute exactly when every record the loop reaches with an error
has a warning of its own or none that was left over. -/
theorem attributed_iff (loads : Text → Except LoadError (List (String × Json)))
    (inputMapping : List (Text × Text)) (lines : List Text) :
    Attributed loads inputMapping lines
      ↔ ∀ before line after attr error, lines = before ++ line :: after →
        readLine loads line = .failed attr (.str error) →
        (∀ line ∈ before, raises loads line = false) → OwnWarning loads before error := by
  refine forall₅_congr fun before line after attr error => ?_
  refine forall₂_congr fun hlines hread => ?_
  subst hlines
  by_cases hgoes : ∀ line ∈ before, raises loads line = false
  · obtain ⟨results, hlength, happend⟩ := @parseFrom_append _ _ inputMapping hgoes
    have hget : (parseNixEvalOutput loads inputMapping (before ++ line :: after)).results[
        before.countP (isRecord loads)]? = some (some (evalWarning inputMapping
          (lastSince loads (hasError loads) before) attr error)) := by
      rw [parseNixEvalOutput, happend, ← hlength, List.getElem?_append_right le_rfl]
      simp [parseFrom, hread, Yielded.cons]
    rw [hget, ← warningType_eq_iff]
    refine ⟨fun h _ => h _ rfl, fun h w hw => ?_⟩
    obtain rfl := Option.some.inj (Option.some.inj hw)
    exact h hgoes
  · have hraises : ∃ line ∈ before, raises loads line = true := by
      simpa using hgoes
    rw [parseNixEvalOutput, List.getElem?_eq_none (length_results_le hraises none)]
    simp [hgoes]

end Stream

/-- A decoder for one record with an error and one without. -/
def sampleLoads (line : Text) : Except LoadError (List (String × Json)) :=
  if line = "\x7b\x22attr\x22: \x22clean\x22\x7d".toList then .ok [("attr", .str "clean")]
  else if line = "\x7b\x22attr\x22: \x22broken\x22, \x22error\x22: \x22error: abort\x22\x7d".toList
  then .ok [("attr", .str "broken"), ("error", .str "error: abort")]
  else .error .jsonDecodeError

/-- A warning that an attribute prints without an error goes to the next one that fails. -/
theorem cleanRecord_leaves_warning : ¬ Attributed sampleLoads []
    ["evaluation warning: left over".toList, "\x7b\x22attr\x22: \x22clean\x22\x7d".toList,
      "\x7b\x22attr\x22: \x22broken\x22, \x22error\x22: \x22error: abort\x22\x7d".toList] := by
  intro h
  have htype := h [_, _] _ [] (.str "broken") "error: abort" rfl rfl
    (evalWarning [] (some "left over".toList) (.str "broken") "error: abort") rfl
  exact absurd htype (by decide +kernel)

end OnixCore.NixEvalWarnings
