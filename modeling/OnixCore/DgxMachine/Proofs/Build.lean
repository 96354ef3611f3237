import OnixCore.DgxMachine.Policy

/-!
# What the DGX shell builds

The declared names are sorted and hold each non-empty line (`mem_declaredNames`), so the search in
them finds exactly the declared ones, and a command builds a machine exactly when it names one
(`build_iff`).
-/

namespace OnixCore.DgxMachine

section Names

variable {name : String}

/-- A letter or an underscore, and after it letters, digits, underscores and hyphens. -/
def MachineName (name : String) : Prop :=
  ∃ first rest, name.toList = first :: rest ∧ (first.isAlpha = true ∨ first = '_')
    ∧ ∀ c ∈ rest, c.isAlphanum = true ∨ c = '_' ∨ c = '-'

theorem validateMachineName_eq_ok : validateMachineName name = .ok () ↔ MachineName name := by
  unfold validateMachineName MachineName
  rcases hname : name.toList with _ | ⟨first, rest⟩
  · simp
  · simp only [bind_eq_ok, ensure_eq_ok, exists_const, List.cons.injEq, List.all_cons,
      Bool.and_eq_true, Bool.or_eq_true, beq_iff_eq, List.all_eq_true, or_assoc]
    constructor
    · rintro ⟨hfirst, -, hrest⟩
      exact ⟨first, rest, ⟨rfl, rfl⟩, hfirst, hrest⟩
    · rintro ⟨_, _, ⟨rfl, rfl⟩, hfirst, hrest⟩
      refine ⟨hfirst, ?_, hrest⟩
      rcases hfirst with halpha | rfl
      · exact .inl (by simp [Char.isAlphanum, halpha])
      · exact .inr (.inl rfl)

end Names

section Declared

theorem mem_destutter' {α : Type} [DecidableEq α] {x : α} : ∀ {l : List α} {a : α},
    x ∈ a :: l → x ∈ l.destutter' (· ≠ ·) a
  | [], a, h => by simpa using h
  | b :: l, a, h => by
    by_cases hne : a ≠ b
    · rw [List.destutter'_cons_pos _ hne, List.mem_cons]
      exact (List.mem_cons.1 h).imp_right mem_destutter'
    · rw [List.destutter'_cons_neg _ hne]
      rw [not_not] at hne
      subst hne
      exact mem_destutter' (by simpa using h)

/-- Repeated values go, but not the last of them. -/
theorem mem_destutter {α : Type} [DecidableEq α] {x : α} {l : List α} :
    x ∈ l.destutter (· ≠ ·) ↔ x ∈ l := by
  refine ⟨fun h => (List.destutter_sublist _ l).subset h, fun h => ?_⟩
  cases l with
  | nil => cases h
  | cons a l => exact mem_destutter' h

variable {encodedNames name : String}

/-- The declared names are the non-empty lines. -/
theorem mem_declaredNames :
    name ∈ declaredNames encodedNames ↔ name ≠ "" ∧ name.toList ∈ Text.lines encodedNames.toList := by
  rw [declaredNames, mem_destutter, List.mem_insertionSort, List.mem_map]
  constructor
  · rintro ⟨line, hline, rfl⟩
    obtain ⟨hmem, hne⟩ := List.mem_filter.1 hline
    refine ⟨fun hempty => of_decide_eq_true hne ?_, by rwa [String.toList_ofList]⟩
    rw [← String.toList_ofList (l := line), hempty]
    rfl
  · rintro ⟨hne, hmem⟩
    refine ⟨name.toList, List.mem_filter.2 ⟨hmem, ?_⟩, String.ofList_toList⟩
    exact decide_eq_true fun hnil => hne (String.toList_eq_nil_iff.1 hnil)

theorem declaredNames_sorted : (declaredNames encodedNames).Pairwise (· ≤ ·) :=
  (List.pairwise_insertionSort (· ≤ ·) _).sublist (List.destutter_sublist _ _)

end Declared

section Build

variable {args declared : List String} {name : String}

theorem parse_build : parseOperation args declared = .ok (.build name)
    ↔ args = ["build", name] ∧ MachineName name ∧ ∃ i, binarySearch declared name = .ok i := by
  constructor
  · intro h
    unfold parseOperation at h
    split at h
    · cases h
    next command rest =>
      split_ifs at h with hinfo hbuild
      · simp only [bind_eq_ok] at h
        obtain ⟨_, -, h⟩ := h
        cases h
      · split at h
        next machine =>
          simp only [bind_eq_ok] at h
          obtain ⟨_, hvalid, h⟩ := h
          split at h
          next i hi =>
            obtain rfl := Operation.build.inj (pure_eq_ok.1 h)
            exact ⟨by rw [hbuild], validateMachineName_eq_ok.1 hvalid, i, hi⟩
          next => cases h
        next => cases h
  · rintro ⟨rfl, hname, i, hi⟩
    have hvalid := validateMachineName_eq_ok.2 hname
    simp [parseOperation, hvalid, hi, bind, Except.bind, pure, Except.pure]

theorem parse_info : parseOperation args declared = .ok .info ↔ args = ["info"] := by
  constructor
  · intro h
    unfold parseOperation at h
    split at h
    · cases h
    next command rest =>
      split_ifs at h with hinfo hbuild
      · simp only [bind_eq_ok, ensure_eq_ok] at h
        obtain ⟨_, hrest, -⟩ := h
        rw [hinfo, hrest]
      · split at h
        next machine =>
          simp only [bind_eq_ok] at h
          obtain ⟨_, -, h⟩ := h
          split at h <;> cases h
        next => cases h
  · rintro rfl
    rfl

/-- A command builds a machine exactly when it is `build` with the valid name of a declared machine.
What is run then builds that machine alone, and what is run for any other command lists the
machines. -/
theorem build_iff (encodedNames : String) (args : List String) :
    (∀ name, parseOperation args (declaredNames encodedNames) = .ok (.build name)
        ↔ args = ["build", name] ∧ (name ≠ "" ∧ name.toList ∈ Text.lines encodedNames.toList)
          ∧ MachineName name)
      ∧ ∀ operation, parseOperation args (declaredNames encodedNames) = .ok operation →
        (args = ["info"] ∧ (invocation operation).args = ["machines", "info"])
          ∨ ∃ name, operation = .build name
            ∧ (invocation operation).args = ["build", "machines." ++ name] := by
  refine ⟨fun name => ?_, fun operation h => ?_⟩
  · rw [parse_build, binarySearch_isOk_iff declaredNames_sorted, mem_declaredNames]
    exact and_congr_right' and_comm
  · cases operation with
    | info => exact .inl ⟨parse_info.1 h, rfl⟩
    | build name => exact .inr ⟨name, rfl, rfl⟩

/-- The middle one of three declared machines, one of them declared twice. -/
theorem build_middle :
    parseOperation ["build", "m-2"] (declaredNames "z\n\nm-2\r\nalpha\nz") = .ok (.build "m-2") := by
  have hrest : ∀ c ∈ ['-', '2'], c.isAlphanum = true ∨ c = '_' ∨ c = '-' :=
    List.forall_mem_cons.2 ⟨.inr (.inr rfl), List.forall_mem_singleton.2 (.inl rfl)⟩
  have hname : MachineName "m-2" := ⟨'m', ['-', '2'], rfl, .inl rfl, hrest⟩
  exact ((build_iff "z\n\nm-2\r\nalpha\nz" ["build", "m-2"]).1 "m-2").2
    ⟨rfl, ⟨by decide, by decide⟩, hname⟩

end Build

end OnixCore.DgxMachine
