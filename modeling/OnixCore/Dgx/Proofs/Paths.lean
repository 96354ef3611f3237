import OnixCore.Dgx.Inventory

/-!
# Paths on both sides of the inventory

The contract asks a pattern of a path where Nix takes it apart: a model file has no dot component
either way, and a disk ends in a name that is not `.` or `..`.
-/

namespace OnixCore.Dgx

open ModuleSchema

theorem baseNameOf_append {dir rest : Text} (hne : rest ≠ []) (hslash : '/' ∉ rest) :
    baseNameOf (dir ++ '/' :: rest) = rest := by
  have hlast : (dir ++ '/' :: rest).getLast? ≠ some '/' := by
    rw [List.getLast?_append_of_ne_nil _ (by simp), List.getLast?_cons_of_ne_nil hne]
    exact fun h => hslash (List.mem_of_getLast? h)
  have hdrop : ¬ ((dir ++ '/' :: rest).length > 1
      && (dir ++ '/' :: rest).getLast? == some '/') = true := by
    rw [Bool.and_eq_true, beq_iff_eq]
    exact fun h => hlast h.2
  rw [baseNameOf, if_neg hdrop, List.rtakeWhile, List.reverse_append, List.reverse_cons,
    List.append_assoc, List.singleton_append, List.takeWhile_append_of_pos, List.takeWhile_cons_of_neg]
  · simp
  · simp
  · intro c hc
    simpa using fun h : c = '/' => hslash (h ▸ List.mem_reverse.1 hc)

/-- One of the two components that a safe path does not have. -/
def Dots (component : Text) : Prop := component = ['.'] ∨ component = ['.', '.']

theorem splitOn_slash {t : Text} : ('/' :: t).splitOn '/' = [] :: t.splitOn '/' := by
  simp [List.splitOn, List.splitOnP_cons_eq_if_modifyHead]

theorem splitOn_cons {c : Char} (hc : c ≠ '/') {t : Text} {first : Text} {others : List Text}
    (h : t.splitOn '/' = first :: others) : (c :: t).splitOn '/' = (c :: first) :: others := by
  simp only [List.splitOn] at h ⊢
  simp [List.splitOnP_cons_eq_if_modifyHead, hc, h]

theorem exists_splitOn (t : Text) : ∃ first others, t.splitOn '/' = first :: others :=
  List.exists_cons_of_ne_nil (List.splitOn_ne_nil _ _)

theorem first_eq_takeWhile : ∀ {t first : Text} {others : List Text},
    t.splitOn '/' = first :: others → first = t.takeWhile (· ≠ '/') := by
  intro t
  induction t with
  | nil => exact fun h => (List.cons.inj h).1.symm
  | cons c t ih =>
    intro first others h
    obtain ⟨next, rest, hnext⟩ := exists_splitOn t
    by_cases hc : c = '/'
    · rw [hc, splitOn_slash] at h
      simp [hc, (List.cons.inj h).1.symm]
    · rw [splitOn_cons hc hnext] at h
      rw [List.takeWhile_cons_of_pos (by simpa using hc), ← ih hnext, (List.cons.inj h).1]

/-- `dotsThenEnd` looks at the first component only. -/
theorem dotsThenEnd_iff {t : Text} :
    dotsThenEnd t = true ↔ Dots (t.takeWhile (· ≠ '/')) := by
  unfold Dots
  rcases t with _ | ⟨a, _ | ⟨b, _ | ⟨c, t⟩⟩⟩
  · decide
  · by_cases ha : a = '.' <;> by_cases hs : a = '/' <;> simp [dotsThenEnd, ha, hs]
  · by_cases ha : a = '.' <;> by_cases hs : a = '/' <;> by_cases hb : b = '.' <;>
      by_cases hbs : b = '/' <;> simp_all [dotsThenEnd]
  · by_cases ha : a = '.' <;> by_cases hs : a = '/' <;> by_cases hb : b = '.' <;>
      by_cases hbs : b = '/' <;> by_cases hcs : c = '/' <;> simp_all [dotsThenEnd]

theorem dotComponentFrom_iff {t first : Text} {others : List Text} :
    ∀ {atStart : Bool}, t.splitOn '/' = first :: others →
      (dotComponentFrom atStart t = true
        ↔ (atStart = true ∧ Dots first) ∨ ∃ component ∈ others, Dots component) := by
  induction t generalizing first others with
  | nil =>
    intro atStart h
    obtain ⟨rfl, rfl⟩ := List.cons.inj h
    simp [dotComponentFrom, Dots]
  | cons c t ih =>
    intro atStart h
    obtain ⟨next, rest, hnext⟩ := exists_splitOn t
    have hfirst := first_eq_takeWhile h
    rw [dotComponentFrom, Bool.or_eq_true, Bool.and_eq_true, dotsThenEnd_iff, ← hfirst, ih hnext,
      beq_iff_eq]
    refine or_congr_right ?_
    by_cases hc : c = '/'
    · rw [hc, splitOn_slash, hnext] at h
      obtain ⟨-, rfl⟩ := List.cons.inj h
      simp [hc]
    · rw [splitOn_cons hc hnext] at h
      obtain ⟨-, rfl⟩ := List.cons.inj h
      simp [hc]

theorem dotComponentPattern_iff {value : String} : dotComponentPattern value = true
    ↔ ∃ component ∈ value.toList.splitOn '/', Dots component := by
  obtain ⟨first, others, h⟩ := exists_splitOn value.toList
  rw [dotComponentPattern, dotComponentFrom_iff h, h]
  simp

/-- Text without a slash at the end of a path goes to one of its components. -/
theorem splitOn_append {suffix : Text} (hs : '/' ∉ suffix) (t : Text) :
    List.Forall₂ (fun stem component => component = stem ∨ component = stem ++ suffix)
      (t.splitOn '/') ((t ++ suffix).splitOn '/') := by
  induction t with
  | nil =>
    rw [List.nil_append, List.splitOn_nil, List.splitOn_eq_singleton hs]
    exact .cons (.inr rfl) .nil
  | cons c t ih =>
    obtain ⟨stem, stems, hstem⟩ := exists_splitOn t
    obtain ⟨component, components, hcomponent⟩ := exists_splitOn (t ++ suffix)
    rw [List.cons_append]
    by_cases hc : c = '/'
    · rw [hc, splitOn_slash, splitOn_slash]
      exact .cons (.inl rfl) ih
    · rw [splitOn_cons hc hstem, splitOn_cons hc hcomponent]
      rw [hstem, hcomponent] at ih
      obtain ⟨hhead, htail⟩ := List.forall₂_cons.1 ih
      refine .cons (hhead.imp (congrArg _) (congrArg _)) htail

theorem mem_splitOn_append {suffix t component : Text} (hs : '/' ∉ suffix)
    (h : component ∈ (t ++ suffix).splitOn '/') :
    ∃ stem ∈ t.splitOn '/', component = stem ∨ component = stem ++ suffix := by
  have happend := splitOn_append hs t
  generalize t.splitOn '/' = stems, (t ++ suffix).splitOn '/' = components at happend h
  induction happend with
  | nil => cases h
  | cons hhead _ ih =>
    rcases List.mem_cons.1 h with rfl | h
    · exact ⟨_, List.mem_cons_self, hhead⟩
    · obtain ⟨stem, hstem, heq⟩ := ih h
      exact ⟨stem, List.mem_cons_of_mem _ hstem, heq⟩

theorem splitOn_ne_nil_of_modelFile {value : String} (h : modelFilePattern value = true) :
    ∀ component ∈ value.toList.splitOn '/', component ≠ [] := by
  simp only [modelFilePattern, Bool.and_eq_true, List.isSuffixOf_iff_suffix, List.all_eq_true] at h
  obtain ⟨⟨stem, hstem⟩, hall⟩ := h
  have hrdrop : (stem ++ ".gguf".toList).rdrop 5 = stem := by simp [List.rdrop]
  rw [← hstem, hrdrop] at hall
  intro component hcomponent
  rw [← hstem] at hcomponent
  obtain ⟨part, hpart, rfl | rfl⟩ := mem_splitOn_append (by decide) hcomponent
  · rintro rfl
    exact absurd (hall _ hpart) (by simp [oneOrMore])
  · simp

/-- A model path that matches its pattern has no dot component exactly when Nix finds it safe. -/
theorem isSafeRelativeModelPath_iff {value : String} (h : modelFilePattern value = true) :
    isSafeRelativeModelPath (.str value) = true ↔ dotComponentPattern value = false := by
  have hne : value ≠ "" := by
    rintro rfl
    exact absurd h (by decide)
  have hcomponents := splitOn_ne_nil_of_modelFile h
  rw [← Bool.not_eq_true, dotComponentPattern_iff]
  simp only [isSafeRelativeModelPath, bne_iff_ne.2 hne, Bool.true_and, List.all_eq_true,
    Bool.and_eq_true, bne_iff_ne, Dots]
  push Not
  exact forall₂_congr fun component hc => by simp [hcomponents component hc]

theorem machineName_chars {key : String} (h : machineNamePattern key = true) :
    ∀ c ∈ key.toList, (c.isAlphanum || ['.', '_', '/', '-'].contains c) = true := by
  unfold machineNamePattern at h
  split at h
  case h_1 => exact absurd h (by decide)
  case h_2 first others hkey =>
    rw [hkey]
    simp only [Bool.and_eq_true, Bool.or_eq_true, beq_iff_eq, List.all_eq_true] at h
    intro c hc
    rcases List.mem_cons.1 hc with rfl | hc
    · rcases h.1 with h | rfl
      · simp [Char.isAlphanum, h]
      · decide
    · rcases h.2 c hc with (h | rfl) | rfl
      · simp [h]
      · decide
      · decide

/-- The path of a machine's file is one the contracts take. -/
theorem relativeFile_machines {key file : String} (h : machineNamePattern key = true)
    (hfile : ∀ c ∈ file.toList, (c.isAlphanum || ['.', '_', '/', '-'].contains c) = true) :
    relativeFilePattern (".machines/" ++ key ++ file) = true := by
  rw [relativeFilePattern, oneOrMore, Bool.and_eq_true, List.all_eq_true]
  refine ⟨by simp, fun c hc => ?_⟩
  simp only [String.toList_append, List.mem_append] at hc
  rcases hc with (hc | hc) | hc
  · revert c
    exact List.all_eq_true.1 (by decide)
  · exact machineName_chars h c hc
  · exact hfile c hc

theorem errorWhen_eq_nil {c : Bool} {message : String} : errorWhen c message = [] ↔ c = false := by
  cases c <;> simp [errorWhen]

theorem exists_of_after {start value : String} {rest : Text → Bool}
    (h : after start rest value = true) : ∃ t, value.toList = start.toList ++ t ∧ rest t = true := by
  unfold after at h
  split at h
  case h_1 t ht => exact ⟨t, (Text.stripPrefix_eq_some.1 ht).symm, h⟩
  case h_2 => cases h

/-- The disks the contract takes are those of Nix that match the pattern. -/
theorem stableDisk_iff (name : String) {value : String} :
    (diskPattern value && value != "/dev/disk/by-id/." && value != "/dev/disk/by-id/.."
        && !placeholderPattern value) = true
      ↔ diskErrors name (.str value) = [] ∧ diskPattern value = true := by
  by_cases hpattern : diskPattern value = true
  · obtain ⟨rest, hvalue, hrest⟩ := exists_of_after hpattern
    simp only [oneOrMore, Bool.and_eq_true, Bool.not_eq_true', List.isEmpty_eq_false_iff,
      List.all_eq_true] at hrest
    obtain ⟨hne, hchars⟩ := hrest
    have hslash : '/' ∉ rest := fun h => absurd (hchars _ h) (by decide)
    have hbase : baseNameOf value.toList = rest := by
      rw [hvalue, show "/dev/disk/by-id/".toList ++ rest = "/dev/disk/by-id".toList ++ '/' :: rest
        from rfl]
      exact baseNameOf_append hne hslash
    have hprefix : "/dev/disk/by-id/".toList.isPrefixOf value.toList = true := by
      rw [List.isPrefixOf_iff_prefix, hvalue]
      exact List.prefix_append _ _
    have htext : hasText (.str value) = true := by
      rw [hasText, bne_iff_ne]
      rintro rfl
      exact absurd hpattern (by decide)
    have hdot : value = "/dev/disk/by-id/." ↔ rest = ['.'] := by
      rw [← String.toList_inj, hvalue]
      exact List.append_right_inj "/dev/disk/by-id/".toList
    have hdots : value = "/dev/disk/by-id/.." ↔ rest = ['.', '.'] := by
      rw [← String.toList_inj, hvalue]
      exact List.append_right_inj "/dev/disk/by-id/".toList
    simp only [diskErrors, errorWhen_eq_nil, hbase, matchesPattern, hprefix, htext, isPlaceholder,
      hpattern]
    rcases placeholderPattern value <;> simp [hdot, hdots]
  · simp [hpattern]

end OnixCore.Dgx
