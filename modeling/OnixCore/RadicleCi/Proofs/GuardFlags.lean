import OnixCore.Lib.Steps
import OnixCore.RadicleCi.GuardCommand

/-!
# The flags of the guard command

The parser reads the arguments from the left, one group after the other: a name with its value, or
the switch (`parseFlags_eq_ok`). What it accepts is a list of groups in any order, with each
required name once and the switch at most once, and what it makes of them does not depend on the
order (`parse_grammar`).
-/

namespace OnixCore.RadicleCi

section Names

theorem flagName_flag (name : String) : flagName ("--" ++ name) = some name := by
  simp [flagName, String.toList_append, Text.stripPrefix, List.isPrefixOf?]

theorem eq_of_flagName {argument name : String} (h : flagName argument = some name) :
    argument = "--" ++ name := by
  obtain ⟨rest, hrest, rfl⟩ := Option.map_eq_some_iff.1 h
  rw [Text.stripPrefix_eq_some] at hrest
  rw [← String.toList_inj, ← hrest]
  simp only [String.toList_append, String.toList_ofList]
  rfl

end Names

/-- What the parser reads at once. -/
inductive FlagGroup where
  | pair (name value : String)
  | execute
  deriving DecidableEq, Repr

namespace FlagGroup

def arguments : FlagGroup → List String
  | pair name value => ["--" ++ name, value]
  | execute => ["--execute"]

def name? : FlagGroup → Option String
  | pair name _ => some name
  | execute => none

/-- The name of a pair is not the switch, and its value is no flag. -/
def WellFormed : FlagGroup → Prop
  | pair name value => name ≠ "execute" ∧ flagName value = none
  | execute => True

end FlagGroup

/-- Each required name with one value that is no flag, and the switch at most once, in any order. -/
structure Grammatical (groups : List FlagGroup) : Prop where
  names : (groups.filterMap FlagGroup.name?).Perm requiredFlags
  values : ∀ name value, .pair name value ∈ groups → flagName value = none
  switch : groups.count .execute ≤ 1

section Groups

def GuardFlagSet.add (flags : GuardFlagSet) : FlagGroup → GuardFlagSet
  | .pair name value => { flags with values := flags.values.insert name value }
  | .execute => { flags with execute := true }

/-- The parser takes the groups when it has read `flags` before. -/
structure Fits (flags : GuardFlagSet) (groups : List FlagGroup) : Prop where
  wellFormed : ∀ g ∈ groups, g.WellFormed
  distinct : (groups.filterMap FlagGroup.name?).Nodup
  fresh : ∀ name ∈ groups.filterMap FlagGroup.name?, name ∉ flags.values
  switch : groups.count .execute + (if flags.execute then 1 else 0) ≤ 1

variable {flags t : GuardFlagSet} {groups : List FlagGroup}

theorem fits_nil : Fits flags [] := by
  refine ⟨nofun, List.nodup_nil, nofun, ?_⟩
  split_ifs <;> simp

theorem fits_execute : Fits flags (.execute :: groups)
    ↔ flags.execute = false ∧ Fits (flags.add .execute) groups := by
  constructor
  · rintro ⟨hwf, hdistinct, hfresh, hswitch⟩
    rw [List.count_cons_self] at hswitch
    have hflag : flags.execute = false := by
      by_contra hset
      rw [if_pos (by simpa using hset)] at hswitch
      omega
    refine ⟨hflag, (List.forall_mem_cons.1 hwf).2, hdistinct, hfresh, ?_⟩
    rw [hflag] at hswitch
    simpa [GuardFlagSet.add] using hswitch
  · rintro ⟨hflag, hwf, hdistinct, hfresh, hswitch⟩
    refine ⟨List.forall_mem_cons.2 ⟨trivial, hwf⟩, hdistinct, hfresh, ?_⟩
    rw [List.count_cons_self, hflag]
    simpa [GuardFlagSet.add] using hswitch

theorem fits_pair {name value : String} : Fits flags (.pair name value :: groups)
    ↔ (name ≠ "execute" ∧ flagName value = none ∧ name ∉ flags.values)
      ∧ Fits (flags.add (.pair name value)) groups := by
  have hnames : (FlagGroup.pair name value :: groups).filterMap FlagGroup.name?
      = name :: groups.filterMap FlagGroup.name? := rfl
  have hcount : (FlagGroup.pair name value :: groups).count .execute = groups.count .execute := by
    simp
  constructor
  · rintro ⟨hwf, hdistinct, hfresh, hswitch⟩
    rw [hnames] at hdistinct hfresh
    rw [hcount] at hswitch
    obtain ⟨hnew, hdistinct⟩ := List.nodup_cons.1 hdistinct
    obtain ⟨hname, hfresh⟩ := List.forall_mem_cons.1 hfresh
    obtain ⟨⟨hne, hvalue⟩, hwf⟩ := List.forall_mem_cons.1 hwf
    refine ⟨⟨hne, hvalue, hname⟩, hwf, hdistinct, fun other hother => ?_, hswitch⟩
    rw [GuardFlagSet.add, AList.mem_insert]
    rintro (rfl | hmem)
    · exact hnew hother
    · exact hfresh other hother hmem
  · rintro ⟨⟨hne, hvalue, hname⟩, hwf, hdistinct, hfresh, hswitch⟩
    simp only [GuardFlagSet.add, AList.mem_insert, not_or] at hfresh
    refine ⟨List.forall_mem_cons.2 ⟨⟨hne, hvalue⟩, hwf⟩, ?_, ?_, hcount.symm ▸ hswitch⟩
    · rw [hnames, List.nodup_cons]
      exact ⟨fun hmem => (hfresh name hmem).1 rfl, hdistinct⟩
    · rw [hnames, List.forall_mem_cons]
      exact ⟨hname, fun other hother => (hfresh other hother).2⟩

theorem parseFlags_of_fits : ∀ {groups : List FlagGroup} {flags : GuardFlagSet},
    Fits flags groups → parseFlags flags (groups.flatMap FlagGroup.arguments)
      = .ok (groups.foldl GuardFlagSet.add flags)
  | [], flags, _ => rfl
  | .execute :: groups, flags, h => by
    obtain ⟨hflag, hrest⟩ := fits_execute.1 h
    have hname : flagName "--execute" = some "execute" := flagName_flag "execute"
    rw [List.flatMap_cons, List.foldl_cons, ← parseFlags_of_fits hrest]
    simp only [FlagGroup.arguments, List.cons_append, List.nil_append, parseFlags, hname, hflag]
    rfl
  | .pair name value :: groups, flags, h => by
    obtain ⟨⟨hne, hvalue, hname⟩, hrest⟩ := fits_pair.1 h
    rw [List.flatMap_cons, List.foldl_cons, ← parseFlags_of_fits hrest]
    simp only [FlagGroup.arguments, List.cons_append, List.nil_append, parseFlags, flagName_flag,
      if_neg hne]
    rw [if_neg (by simp [hvalue, hname]), GuardFlagSet.add]

/-- What the parser has read are groups, and it has added one after the other. -/
theorem fits_of_parseFlags {arguments : List String} (h : parseFlags flags arguments = .ok t) :
    ∃ groups, Fits flags groups ∧ arguments = groups.flatMap FlagGroup.arguments
      ∧ t = groups.foldl GuardFlagSet.add flags := by
  fun_induction parseFlags flags arguments with
  | case1 flags => exact ⟨[], fits_nil, rfl, (Except.ok.inj h).symm⟩
  | case4 flags argument rest hflag hname ih =>
    obtain ⟨groups, hfits, hrest, ht⟩ := ih h
    refine ⟨.execute :: groups, fits_execute.2 ⟨by simpa using hflag, hfits⟩, ?_, ht⟩
    rw [eq_of_flagName hname, hrest]
    rfl
  | case7 flags argument name hname hne value rest hvalid ih =>
    obtain ⟨groups, hfits, hrest, ht⟩ := ih h
    rw [not_or] at hvalid
    have hgroup : name ≠ "execute" ∧ flagName value = none ∧ name ∉ flags.values :=
      ⟨hne, by simpa using hvalid.1, hvalid.2⟩
    refine ⟨.pair name value :: groups, fits_pair.2 ⟨hgroup, hfits⟩, ?_, ht⟩
    rw [eq_of_flagName hname, hrest]
    rfl
  | _ => cases h

theorem execute_foldl : ∀ {groups : List FlagGroup} {flags : GuardFlagSet},
    (groups.foldl GuardFlagSet.add flags).execute = true
      ↔ flags.execute = true ∨ .execute ∈ groups
  | [], flags => by simp
  | .execute :: groups, flags => by simp [execute_foldl, GuardFlagSet.add]
  | .pair name value :: groups, flags => by simp [execute_foldl, GuardFlagSet.add]

theorem mem_foldl {name : String} : ∀ {groups : List FlagGroup} {flags : GuardFlagSet},
    name ∈ (groups.foldl GuardFlagSet.add flags).values
      ↔ name ∈ flags.values ∨ name ∈ groups.filterMap FlagGroup.name?
  | [], flags => by simp
  | .execute :: groups, flags => by simp [mem_foldl, GuardFlagSet.add, FlagGroup.name?]
  | .pair other value :: groups, flags => by
    simp [mem_foldl, GuardFlagSet.add, FlagGroup.name?, or_assoc, or_left_comm]

/-- A name that comes no more keeps its value. -/
theorem lookup_foldl_of_notMem {name : String} : ∀ {groups : List FlagGroup} {flags : GuardFlagSet},
    name ∉ groups.filterMap FlagGroup.name? →
      (groups.foldl GuardFlagSet.add flags).values.lookup name = flags.values.lookup name
  | [], flags, _ => rfl
  | .execute :: groups, flags, h => by
    have hrest : name ∉ groups.filterMap FlagGroup.name? := h
    rw [List.foldl_cons, lookup_foldl_of_notMem hrest, GuardFlagSet.add]
  | .pair other value :: groups, flags, h => by
    obtain ⟨hne, hrest⟩ := List.ne_and_not_mem_of_not_mem_cons h
    rw [List.foldl_cons, lookup_foldl_of_notMem hrest, GuardFlagSet.add,
      AList.lookup_insert_ne hne]

/-- Names that are distinct have the values of their pairs. -/
theorem lookup_foldl {name value : String} : ∀ {groups : List FlagGroup} {flags : GuardFlagSet},
    (groups.filterMap FlagGroup.name?).Nodup → .pair name value ∈ groups →
      (groups.foldl GuardFlagSet.add flags).values.lookup name = some value
  | .execute :: groups, flags, hdistinct, h => by
    have hrest : (groups.filterMap FlagGroup.name?).Nodup := hdistinct
    have hmem : .pair name value ∈ groups := List.mem_of_ne_of_mem (by simp) h
    rw [List.foldl_cons, lookup_foldl hrest hmem]
  | .pair other v :: groups, flags, hdistinct, h => by
    obtain ⟨hnew, hdistinct⟩ := List.nodup_cons.1 hdistinct
    rcases List.mem_cons.1 h with heq | hmem
    · obtain ⟨rfl, rfl⟩ := FlagGroup.pair.inj heq
      rw [List.foldl_cons, lookup_foldl_of_notMem hnew, GuardFlagSet.add, AList.lookup_insert]
    · rw [List.foldl_cons, lookup_foldl hdistinct hmem]

end Groups

section Grammar

variable {arguments : List String} {groups groups' : List FlagGroup} {t : GuardFlagSet}

def noFlags : GuardFlagSet := ⟨∅, false⟩

theorem notMem_noFlags (name : String) : name ∉ noFlags.values := AList.notMem_empty name

theorem parse_eq_ok : GuardFlagSet.parse arguments = .ok t
    ↔ parseFlags noFlags arguments = .ok t ∧ ∀ name, name ∈ t.values ↔ name ∈ requiredFlags := by
  have hstart : (⟨∅, false⟩ : GuardFlagSet) = noFlags := rfl
  rcases hflags : parseFlags noFlags arguments with e | flags
  · simp [GuardFlagSet.parse, hstart, hflags, bind, Except.bind]
  have hunknown : (flags.values.keys.insertionSort (· ≤ ·)).find? (· ∉ requiredFlags) = none
      ↔ ∀ name ∈ flags.values, name ∈ requiredFlags := by
    simp [List.find?_eq_none, List.mem_insertionSort, AList.mem_keys]
  have hmissing : requiredFlags.find? (· ∉ flags.values) = none
      ↔ ∀ name ∈ requiredFlags, name ∈ flags.values := by
    simp [List.find?_eq_none]
  have hboth : GuardFlagSet.parse arguments = .ok t
      ↔ flags = t ∧ (∀ name ∈ flags.values, name ∈ requiredFlags)
        ∧ ∀ name ∈ requiredFlags, name ∈ flags.values := by
    rw [← hunknown, ← hmissing]
    simp only [GuardFlagSet.parse, hstart, hflags]
    rcases hu : (flags.values.keys.insertionSort (· ≤ ·)).find? (· ∉ requiredFlags) with _ | name
    · rcases hm : requiredFlags.find? (· ∉ flags.values) with _ | name
      · simp only [bind, Except.bind, hu, hm, pure, Except.pure, Except.ok.injEq, and_true]
      · simp only [bind, Except.bind, hu, hm, throw, throwThe, MonadExceptOf.throw, reduceCtorEq,
          and_false]
    · simp only [bind, Except.bind, hu, throw, throwThe, MonadExceptOf.throw, reduceCtorEq,
        false_and, and_false]
  rw [hboth, Except.ok.injEq]
  constructor
  · rintro ⟨rfl, hknown, hall⟩
    exact ⟨rfl, fun name => ⟨hknown name, hall name⟩⟩
  · rintro ⟨rfl, hnames⟩
    exact ⟨rfl, fun name => (hnames name).1, fun name => (hnames name).2⟩

/-- The groups of the grammar are those the parser takes from the start, with the required names. -/
theorem grammatical_iff : Grammatical groups
    ↔ Fits noFlags groups
      ∧ ∀ name, name ∈ groups.filterMap FlagGroup.name? ↔ name ∈ requiredFlags := by
  have hrequired : requiredFlags.Nodup := by decide
  constructor
  · rintro ⟨hnames, hvalues, hswitch⟩
    refine ⟨⟨fun g hg => ?_, hnames.nodup_iff.2 hrequired, fun _ _ => AList.notMem_empty _, hswitch⟩,
      fun name => hnames.mem_iff⟩
    cases g with
    | execute => trivial
    | pair name value =>
      have hmem : name ∈ requiredFlags := hnames.mem_iff.1 (List.mem_filterMap.2 ⟨_, hg, rfl⟩)
      refine ⟨?_, hvalues name value hg⟩
      rintro rfl
      exact absurd hmem (by decide)
  · rintro ⟨⟨hwf, hdistinct, -, hswitch⟩, hnames⟩
    refine ⟨(List.perm_ext_iff_of_nodup hdistinct hrequired).2 hnames, ?_, hswitch⟩
    exact fun name value hmem => (hwf _ hmem).2

/-- The parser accepts the groups of the grammar, each value under its name. -/
theorem parse_of_grammatical (h : Grammatical groups) :
    GuardFlagSet.parse (groups.flatMap FlagGroup.arguments)
      = .ok (groups.foldl GuardFlagSet.add noFlags) := by
  obtain ⟨hfits, hnames⟩ := grammatical_iff.1 h
  refine parse_eq_ok.2 ⟨parseFlags_of_fits hfits, fun name => ?_⟩
  rw [mem_foldl, hnames, or_iff_right (notMem_noFlags name)]

theorem grammatical_of_parse (h : GuardFlagSet.parse arguments = .ok t) :
    ∃ groups, Grammatical groups ∧ arguments = groups.flatMap FlagGroup.arguments := by
  obtain ⟨hflags, hnames⟩ := parse_eq_ok.1 h
  obtain ⟨groups, hfits, harguments, rfl⟩ := fits_of_parseFlags hflags
  refine ⟨groups, grammatical_iff.2 ⟨hfits, fun name => ?_⟩, harguments⟩
  rw [← hnames, mem_foldl, or_iff_right (notMem_noFlags name)]

theorem Grammatical.perm (h : Grammatical groups) (hperm : groups.Perm groups') :
    Grammatical groups' := by
  refine ⟨(hperm.filterMap _).symm.trans h.names, fun name value hmem => ?_, ?_⟩
  · exact h.values name value (hperm.mem_iff.2 hmem)
  · rw [← hperm.count_eq]
    exact h.switch

/-- The parser accepts exactly the arguments of its grammar. What it makes of them has the value of
each pair under its name and the switch when it is there, and is the same in every order. -/
theorem parse_grammar :
    (∀ arguments, (∃ flags, GuardFlagSet.parse arguments = .ok flags)
        ↔ ∃ groups, Grammatical groups ∧ arguments = groups.flatMap FlagGroup.arguments)
      ∧ ∀ groups groups', Grammatical groups → groups.Perm groups' →
        ∃ flags flags', GuardFlagSet.parse (groups.flatMap FlagGroup.arguments) = .ok flags
          ∧ GuardFlagSet.parse (groups'.flatMap FlagGroup.arguments) = .ok flags'
          ∧ (∀ name value, .pair name value ∈ groups → flags.value name = .done value)
          ∧ (flags.execute = true ↔ .execute ∈ groups)
          ∧ (∀ name, flags'.value name = flags.value name) ∧ flags'.execute = flags.execute := by
  have hvalue : ∀ {groups : List FlagGroup}, Grammatical groups → ∀ name value,
      .pair name value ∈ groups →
        (groups.foldl GuardFlagSet.add noFlags).value name = .done value := by
    intro groups h name value hmem
    rw [GuardFlagSet.value, lookup_foldl (grammatical_iff.1 h).1.distinct hmem]
  have hexecute : ∀ groups : List FlagGroup,
      (groups.foldl GuardFlagSet.add noFlags).execute = true ↔ .execute ∈ groups := by
    intro groups
    rw [execute_foldl, or_iff_right nofun]
  refine ⟨fun arguments => ⟨fun ⟨flags, h⟩ => grammatical_of_parse h, ?_⟩, ?_⟩
  · rintro ⟨groups, h, rfl⟩
    exact ⟨_, parse_of_grammatical h⟩
  · intro groups groups' h hperm
    have h' := h.perm hperm
    refine ⟨_, _, parse_of_grammatical h, parse_of_grammatical h', hvalue h, hexecute groups,
      fun name => ?_, ?_⟩
    · by_cases hname : name ∈ groups.filterMap FlagGroup.name?
      · obtain ⟨g, hg, hgname⟩ := List.mem_filterMap.1 hname
        cases g with
        | execute => cases hgname
        | pair other value =>
          obtain rfl := Option.some.inj hgname
          rw [hvalue h _ value hg, hvalue h' _ value (hperm.mem_iff.1 hg)]
      · have hname' : name ∉ groups'.filterMap FlagGroup.name? :=
          (hperm.filterMap _).mem_iff.not.1 hname
        rw [GuardFlagSet.value, GuardFlagSet.value, lookup_foldl_of_notMem hname,
          lookup_foldl_of_notMem hname']
    · rw [Bool.eq_iff_iff, hexecute, hexecute, hperm.mem_iff]

/-- The groups of a run with the switch in front. -/
def usualGroups : List FlagGroup :=
  [.execute, .pair "repository" "/repository", .pair "policy" "policy.json",
    .pair "event" "event.json", .pair "result" "result.json", .pair "receipt" "receipt.json",
    .pair "output-root" "/output", .pair "output" "guard.json"]

theorem usualGroups_grammatical : Grammatical usualGroups where
  names := by decide
  values := by
    intro name value h
    have hvalues : ∀ g ∈ usualGroups, ∀ v ∈ g.arguments.drop 1, flagName v = none := by decide
    exact hvalues _ h value (by simp [FlagGroup.arguments])
  switch := by decide

/-- Read from behind they are the same flags. -/
theorem usualGroups_reversed : ∃ flags flags',
    GuardFlagSet.parse (usualGroups.flatMap FlagGroup.arguments) = .ok flags
      ∧ GuardFlagSet.parse (usualGroups.reverse.flatMap FlagGroup.arguments) = .ok flags'
      ∧ flags.value "output" = .done "guard.json" ∧ flags'.value "output" = .done "guard.json"
      ∧ flags'.execute = true := by
  obtain ⟨flags, flags', hparse, hparse', hvalue, hexecute, hvalue', hexecute'⟩ :=
    parse_grammar.2 usualGroups usualGroups.reverse usualGroups_grammatical
      (List.reverse_perm _).symm
  have houtput : flags.value "output" = .done "guard.json" := hvalue _ _ (by decide)
  exact ⟨flags, flags', hparse, hparse', houtput, (hvalue' _).trans houtput,
    hexecute'.trans (hexecute.2 (by decide))⟩

end Grammar

end OnixCore.RadicleCi
