import OnixCore.Inventory.Builders

/-!
# Where the remote builders lead

A name that several targets are declared under belongs to the first of them
(`lookup_targetsByName`), and each machine whose first target admits the host makes one entry
(`mem_builderMachines`). Its host name is among the names of the machine's key (`mem_hostNames`), but
may be another machine's name or address too. So each declared target is served once and each entry
meets one key as long as no target is hidden, no two make the same entry, and no endpoint is shared
with a machine of another key (`routing_iff`).
-/

namespace OnixCore.Inventory

open AttrSet

section Specification

variable (machines : Machines) (targets : List BuilderTarget) (hostname builderKeyPath : String)
  (getHostKey : String → Option String)

/-- The target is not the consumer itself and allows it. -/
def Admitted (target : BuilderTarget) : Prop :=
  target.name ≠ hostname
    ∧ ∀ consumers, target.allowedConsumers = some consumers → hostname ∈ consumers

/-- The explicit SSH host, else the LAN address, else the name of the machine. -/
def endpoint (target : BuilderTarget) (machine : Machine) : String :=
  (target.sshHost.or machine.addresses.lan).getD machine.name

/-- The entry has the endpoint and the settings of the target. -/
def Serves (target : BuilderTarget) (machine : Machine) (entry : BuildMachine) : Prop :=
  entry.hostName = endpoint target machine ∧ entry.systems = target.systems
    ∧ entry.sshUser = target.sshUser ∧ entry.maxJobs = target.maxJobs
    ∧ entry.speedFactor = target.speedFactor
    ∧ entry.supportedFeatures = target.supportedFeatures

instance (target : BuilderTarget) (machine : Machine) :
    DecidablePred (Serves target machine) := fun _ => inferInstanceAs (Decidable (_ ∧ _))

/-- Each declared target that admits the host has one entry, and the host name of each entry is
known with the key of the entry's machine and with no other. -/
structure Routed : Prop where
  served : ∀ target ∈ targets, Admitted hostname target → ∃ machine,
    machines.entries.lookup target.name = some machine
      ∧ (allBuildMachines machines.entries targets hostname builderKeyPath).countP
        (Serves target machine) = 1
  known : ∀ entry ∈ builderMachines machines.entries targets hostname, ∀ built,
    buildMachine targets builderKeyPath entry = some built → ∀ key, getHostKey entry.1 = some key →
      (∃ known, (knownHostEntries machines.entries targets getHostKey).lookup entry.1 = some known
        ∧ known.publicKey = key ∧ built.hostName ∈ known.hostNames)
      ∧ ∀ known ∈ knownHostEntries machines.entries targets getHostKey,
        built.hostName ∈ known.2.hostNames → known.2.publicKey = key

/-- The first target that is declared under a machine's name. -/
def firstTarget (name : String) : Option BuilderTarget := targets.find? fun t => t.name == name

/-- Both make the same entry. -/
def SameEntry (target : BuilderTarget) (machine : Machine) (other : BuilderTarget)
    (otherMachine : Machine) : Prop :=
  endpoint target machine = endpoint other otherMachine ∧ target.systems = other.systems
    ∧ target.sshUser = other.sshUser ∧ target.maxJobs = other.maxJobs
    ∧ target.speedFactor = other.speedFactor
    ∧ target.supportedFeatures = other.supportedFeatures

/-- A machine whose first target admits the host, with that target. -/
def Builder (entry : String × Machine) (first : BuilderTarget) : Prop :=
  entry ∈ machines.entries ∧ firstTarget targets entry.1 = some first ∧ Admitted hostname first

/-- A name, an address or an explicit SSH host of a machine. -/
def Names (entry : String × Machine) (host : String) : Prop :=
  (∃ first, firstTarget targets entry.1 = some first ∧ first.sshHost = some host)
    ∨ entry.2.addresses.lan = some host ∨ entry.1 = host

/-- No target is hidden behind another one of its name, no two builders make the same entry, and no
builder's endpoint names a machine with another key. -/
structure Unambiguous : Prop where
  shown : ∀ target ∈ targets, Admitted hostname target → ∀ machine,
    machines.entries.lookup target.name = some machine → ∃ entry first,
      Builder machines targets hostname entry first ∧ SameEntry first entry.2 target machine
  distinct : ∀ entry first other second, Builder machines targets hostname entry first →
    Builder machines targets hostname other second →
      SameEntry first entry.2 second other.2 → entry = other
  keys : ∀ entry first, Builder machines targets hostname entry first →
    ∀ key, getHostKey entry.1 = some key → ∀ other ∈ machines.entries, ∀ otherKey,
      getHostKey other.1 = some otherKey → Names targets other (endpoint first entry.2) →
        otherKey = key

end Specification

section Entries

variable {machines : Machines} {targets : List BuilderTarget} {hostname builderKeyPath : String}
  {getHostKey : String → Option String} {entry : String × Machine}

theorem Machines.nodup_names (machines : Machines) : (machines.entries.map Prod.fst).Nodup :=
  machines.sorted.imp fun h => ne_of_lt h

theorem Machines.lookup_eq_some {name : String} {machine : Machine} :
    machines.entries.lookup name = some machine ↔ (name, machine) ∈ machines.entries := by
  refine ⟨fun h => ?_, lookup_of_mem machines.nodup_names⟩
  obtain ⟨l, r, hsplit, -⟩ := List.lookup_eq_some_iff.1 h
  rw [hsplit]
  exact List.mem_append_right l List.mem_cons_self

/-- A machine's name is its key and is not empty. -/
theorem Machines.name_of_mem (h : entry ∈ machines.entries) :
    entry.2.name = entry.1 ∧ entry.1 ≠ "" := by
  have hname : entry.2.name = entry.1 := by
    simpa using List.all_eq_true.1 machines.named entry h
  refine ⟨hname, fun hempty => ?_⟩
  have hcheck := List.all_eq_true.1 machines.checked entry h
  rw [hempty] at hname
  rw [Machine.check, hname] at hcheck
  simp [validName] at hcheck

theorem lookup_targetsByName {name : String} :
    (builderTargetsByName targets).lookup name = firstTarget targets name := by
  rw [builderTargetsByName, lookup_listToAttrs, lookup_map_eq_find?, firstTarget]

theorem admitted_iff {target : BuilderTarget} :
    Admitted hostname target
      ↔ target.name ≠ hostname ∧ consumerMayUseTarget hostname target = true := by
  unfold Admitted consumerMayUseTarget
  rcases target.allowedConsumers with _ | consumers <;> simp

theorem mem_builderMachines : entry ∈ builderMachines machines.entries targets hostname
    ↔ ∃ first, Builder machines targets hostname entry first := by
  unfold builderMachines Builder
  rw [List.mem_filter, lookup_targetsByName, Bool.and_eq_true, Bool.and_eq_true]
  constructor
  · rintro ⟨hentry, ⟨-, hother⟩, hmay⟩
    obtain ⟨first, hfirst, hmay⟩ := (Option.any_eq_true _ _).1 hmay
    have hname : first.name = entry.1 := by simpa using List.find?_some hfirst
    refine ⟨first, hentry, hfirst, admitted_iff.2 ⟨?_, hmay⟩⟩
    rw [hname]
    exact bne_iff_ne.1 hother
  · rintro ⟨first, hentry, hfirst, hadmitted⟩
    obtain ⟨hother, hmay⟩ := admitted_iff.1 hadmitted
    have hname : first.name = entry.1 := by simpa using List.find?_some hfirst
    have hlisted : first.name ∈ builderTargetNames targets :=
      List.mem_map_of_mem (List.mem_of_find?_eq_some hfirst)
    refine ⟨hentry, ⟨?_, ?_⟩, ?_⟩
    · rw [← hname]
      exact List.contains_iff_mem.2 hlisted
    · rw [← hname]
      exact bne_iff_ne.2 hother
    · rw [hfirst]
      exact hmay

theorem buildMachine_eq {first : BuilderTarget} (h : firstTarget targets entry.1 = some first) :
    ∃ built, buildMachine targets builderKeyPath entry = some built
      ∧ Serves first entry.2 built := by
  have hhost : selectBuilderHost first entry.2 = endpoint first entry.2 := by
    unfold selectBuilderHost endpoint
    rcases first.sshHost with _ | explicitSshHost <;>
      rcases entry.2.addresses.lan with _ | lanAddress <;> rfl
  refine ⟨_, by rw [buildMachine, lookup_targetsByName, h]; rfl, hhost, rfl, rfl, rfl, rfl, rfl⟩

theorem serves_iff {first target : BuilderTarget} {machine : Machine} {built : BuildMachine}
    (h : Serves first entry.2 built) :
    Serves target machine built ↔ SameEntry first entry.2 target machine := by
  obtain ⟨hhost, hsystems, huser, hjobs, hspeed, hfeatures⟩ := h
  rw [Serves, hhost, hsystems, huser, hjobs, hspeed, hfeatures, SameEntry]

theorem map_serves_iff {target : BuilderTarget} {machine : Machine} :
    ((buildMachine targets builderKeyPath entry).map fun built =>
        decide (Serves target machine built)).getD false = true
      ↔ ∃ first, firstTarget targets entry.1 = some first
        ∧ SameEntry first entry.2 target machine := by
  rcases hfirst : firstTarget targets entry.1 with _ | first
  · simp [buildMachine, lookup_targetsByName, hfirst]
  · obtain ⟨built, hbuilt, hserves⟩ := @buildMachine_eq _ builderKeyPath _ _ hfirst
    simp [hbuilt, serves_iff hserves]

theorem countP_eq_one_iff {α : Type} {p : α → Bool} {l : List α} (h : l.Nodup) :
    l.countP p = 1 ↔ ∃! a, a ∈ l ∧ p a = true := by
  rw [List.countP_eq_length_filter, List.length_eq_one_iff]
  constructor
  · rintro ⟨a, hfilter⟩
    have hmem : ∀ b, b ∈ l ∧ p b = true ↔ b = a := fun b => by
      rw [← List.mem_filter, hfilter, List.mem_singleton]
    exact ⟨a, (hmem a).2 rfl, fun b hb => (hmem b).1 hb⟩
  · rintro ⟨a, ha, honly⟩
    refine ⟨a, List.perm_singleton.1 ((List.perm_ext_iff_of_nodup (h.filter p)
      (List.nodup_singleton a)).2 fun b => ?_)⟩
    rw [List.mem_filter, List.mem_singleton]
    exact ⟨honly b, fun hb => hb ▸ ha⟩

theorem count_serves_iff {target : BuilderTarget} {machine : Machine} :
    (allBuildMachines machines.entries targets hostname builderKeyPath).countP
        (Serves target machine) = 1
      ↔ ∃! entry, ∃ first, Builder machines targets hostname entry first
        ∧ SameEntry first entry.2 target machine := by
  have hnodup : (builderMachines machines.entries targets hostname).Nodup :=
    (List.Nodup.of_map Prod.fst machines.nodup_names).filter _
  rw [allBuildMachines, List.countP_filterMap, countP_eq_one_iff hnodup]
  refine existsUnique_congr fun entry => ?_
  rw [mem_builderMachines, map_serves_iff]
  constructor
  · rintro ⟨⟨first, hbuilder⟩, other, hother, hsame⟩
    obtain rfl := Option.some.inj (hbuilder.2.1.symm.trans hother)
    exact ⟨first, hbuilder, hsame⟩
  · rintro ⟨first, hbuilder, hsame⟩
    exact ⟨⟨first, hbuilder⟩, first, hbuilder.2.1, hsame⟩

end Entries

section Keys

variable {machines : Machines} {targets : List BuilderTarget} {hostname builderKeyPath : String}
  {getHostKey : String → Option String} {entry : String × Machine} {host : String}

/-- The key of a machine is known under each of its names. -/
theorem mem_hostNames (h : entry ∈ machines.entries) :
    host ∈ hostNames targets entry ↔ Names targets entry host := by
  have hname := (Machines.name_of_mem h).2
  rw [hostNames, List.mem_eraseDups, List.mem_append, List.mem_append, Option.mem_toList,
    Option.mem_toList, lookup_targetsByName, Option.bind_eq_some_iff, Names, or_assoc]
  refine or_congr_right ?_
  rcases hlan : entry.2.addresses.lan with _ | lan
  · simp [hname, eq_comm]
  · by_cases heq : entry.1 = lan <;> simp [heq, eq_comm]

theorem endpoint_named {first : BuilderTarget} (h : Builder machines targets hostname entry first) :
    Names targets entry (endpoint first entry.2) := by
  unfold endpoint
  rcases hssh : first.sshHost with _ | explicitSshHost
  · rcases hlan : entry.2.addresses.lan with _ | lan
    · exact .inr (.inr (Machines.name_of_mem h.1).1.symm)
    · exact .inr (.inl hlan)
  · exact .inl ⟨first, h.2.1, hssh⟩

/-- The known hosts have the names of their machines, so each machine with a key has its own. -/
theorem knownHostEntries_eq :
    knownHostEntries machines.entries targets getHostKey
        = (machines.entries.filterMap fun entry => (getHostKey entry.1).map fun hostKey =>
          (entry.1, { hostNames := hostNames targets entry, publicKey := hostKey }))
      ∧ ((knownHostEntries machines.entries targets getHostKey).map Prod.fst).Nodup := by
  have hnodup : ((machines.entries.filterMap fun entry => (getHostKey entry.1).map fun hostKey =>
      (entry.1, ({ hostNames := hostNames targets entry, publicKey := hostKey } : KnownHost))).map
        Prod.fst).Nodup := by
    refine machines.nodup_names.sublist (names_filterMap_sublist (fun entry other h => ?_) _)
    obtain ⟨_, -, rfl⟩ := Option.map_eq_some_iff.1 h
    rfl
  have heq := listToAttrs_of_nodup hnodup
  exact ⟨heq, by rw [knownHostEntries, heq]; exact hnodup⟩

theorem mem_knownHostEntries {known : String × KnownHost} :
    known ∈ knownHostEntries machines.entries targets getHostKey
      ↔ ∃ entry ∈ machines.entries, ∃ key, getHostKey entry.1 = some key
        ∧ known = (entry.1, { hostNames := hostNames targets entry, publicKey := key }) := by
  rw [knownHostEntries_eq.1, List.mem_filterMap]
  refine exists_congr fun entry => and_congr_right fun _ => ?_
  rw [Option.map_eq_some_iff]
  exact exists_congr fun key => and_congr_right fun _ => eq_comm

theorem known_iff :
    (∀ entry ∈ builderMachines machines.entries targets hostname, ∀ built,
      buildMachine targets builderKeyPath entry = some built →
        ∀ key, getHostKey entry.1 = some key →
          (∃ known, (knownHostEntries machines.entries targets getHostKey).lookup entry.1
              = some known ∧ known.publicKey = key ∧ built.hostName ∈ known.hostNames)
            ∧ ∀ known ∈ knownHostEntries machines.entries targets getHostKey,
              built.hostName ∈ known.2.hostNames → known.2.publicKey = key)
      ↔ ∀ entry first, Builder machines targets hostname entry first →
        ∀ key, getHostKey entry.1 = some key → ∀ other ∈ machines.entries, ∀ otherKey,
          getHostKey other.1 = some otherKey → Names targets other (endpoint first entry.2) →
            otherKey = key := by
  constructor
  · intro h entry first hbuilder key hkey other hother otherKey hotherKey hnames
    obtain ⟨built, hbuilt, hserves⟩ := @buildMachine_eq _ builderKeyPath _ _ hbuilder.2.1
    refine (h entry (mem_builderMachines.2 ⟨first, hbuilder⟩) built hbuilt key hkey).2 _
      (mem_knownHostEntries.2 ⟨other, hother, otherKey, hotherKey, rfl⟩) ?_
    rw [hserves.1]
    exact (mem_hostNames hother).2 hnames
  · intro h entry hentry built hbuilt key hkey
    obtain ⟨first, hbuilder⟩ := mem_builderMachines.1 hentry
    obtain ⟨built', hbuilt', hserves⟩ := @buildMachine_eq _ builderKeyPath _ _ hbuilder.2.1
    obtain rfl := Option.some.inj (hbuilt.symm.trans hbuilt')
    rw [hserves.1]
    constructor
    · exact ⟨_, lookup_of_mem knownHostEntries_eq.2
          (mem_knownHostEntries.2 ⟨entry, hbuilder.1, key, hkey, rfl⟩), rfl,
        (mem_hostNames hbuilder.1).2 (endpoint_named hbuilder)⟩
    · intro known hknown hhost
      obtain ⟨other, hother, otherKey, hotherKey, rfl⟩ := mem_knownHostEntries.1 hknown
      exact h entry first hbuilder key hkey other hother otherKey hotherKey
        ((mem_hostNames hother).1 hhost)

end Keys

section Routing

variable {machines : Machines}

theorem SameEntry.symm {target other : BuilderTarget} {machine otherMachine : Machine}
    (h : SameEntry target machine other otherMachine) :
    SameEntry other otherMachine target machine :=
  ⟨h.1.symm, h.2.1.symm, h.2.2.1.symm, h.2.2.2.1.symm, h.2.2.2.2.1.symm, h.2.2.2.2.2.symm⟩

theorem SameEntry.trans {target middle other : BuilderTarget}
    {machine middleMachine otherMachine : Machine}
    (h : SameEntry target machine middle middleMachine)
    (h' : SameEntry middle middleMachine other otherMachine) :
    SameEntry target machine other otherMachine :=
  ⟨h.1.trans h'.1, h.2.1.trans h'.2.1, h.2.2.1.trans h'.2.2.1, h.2.2.2.1.trans h'.2.2.2.1,
    h.2.2.2.2.1.trans h'.2.2.2.2.1, h.2.2.2.2.2.trans h'.2.2.2.2.2⟩

/-- A target that the contract accepts is a machine. -/
theorem BuilderTargets.exists_machine (builders : BuilderTargets machines.names)
    {target : BuilderTarget} (h : target ∈ builders.targets) :
    ∃ machine, machines.entries.lookup target.name = some machine := by
  have hcheck := List.all_eq_true.1 builders.checked target h
  simp only [BuilderTarget.check, Bool.and_eq_true, List.contains_iff_mem] at hcheck
  obtain ⟨entry, hentry, hname⟩ := List.mem_map.1 hcheck.1.1.1.1.1.1.1
  exact ⟨entry.2, Machines.lookup_eq_some.2 (hname ▸ hentry)⟩

/-- The routes are right exactly when the inventory and the targets are unambiguous for the host. -/
theorem routing_iff (machines : Machines) (builders : BuilderTargets machines.names)
    (hostname builderKeyPath : String) (getHostKey : String → Option String) :
    Routed machines builders.targets hostname builderKeyPath getHostKey
      ↔ Unambiguous machines builders.targets hostname getHostKey := by
  constructor
  · rintro ⟨hserved, hknown⟩
    refine ⟨fun target htarget hadmitted machine hmachine => ?_, ?_, known_iff.1 hknown⟩
    · obtain ⟨machine', hmachine', hcount⟩ := hserved target htarget hadmitted
      obtain rfl := Option.some.inj (hmachine.symm.trans hmachine')
      obtain ⟨entry, ⟨first, hbuilder, hsame⟩, -⟩ := count_serves_iff.1 hcount
      exact ⟨entry, first, hbuilder, hsame⟩
    · intro entry first other second hbuilder hother hsame
      have hname : second.name = other.1 := by simpa using List.find?_some hother.2.1
      have hlookup : machines.entries.lookup second.name = some other.2 := by
        rw [hname]
        exact Machines.lookup_eq_some.2 hother.1
      obtain ⟨machine, hmachine, hcount⟩ :=
        hserved second (List.mem_of_find?_eq_some hother.2.1) hother.2.2
      obtain rfl := Option.some.inj (hlookup.symm.trans hmachine)
      exact (count_serves_iff.1 hcount).unique ⟨first, hbuilder, hsame⟩
        ⟨second, hother, rfl, rfl, rfl, rfl, rfl, rfl⟩
  · rintro ⟨hshown, hdistinct, hkeys⟩
    refine ⟨fun target htarget hadmitted => ?_, known_iff.2 hkeys⟩
    obtain ⟨machine, hmachine⟩ := builders.exists_machine htarget
    obtain ⟨entry, first, hbuilder, hsame⟩ := hshown target htarget hadmitted machine hmachine
    refine ⟨machine, hmachine, count_serves_iff.2 ⟨entry, ⟨first, hbuilder, hsame⟩, ?_⟩⟩
    rintro other ⟨second, hother, hsame'⟩
    exact hdistinct other second entry first hother hbuilder (hsame'.trans hsame.symm)

def aspenMachines : Machines where
  entries := [("aspen1", { name := "aspen1", system := "x86_64-linux", machineClass := .nixos
                           addresses := { lan := some "10.10.10.1" }, tags := ["llm"]
                           deploy := { targetHost := "root@aspen1", buildHost := none } })]
  sorted := by decide
  checked := by decide
  profiles := by decide
  named := by decide

def aspenTarget (sshHost : Option String) : BuilderTarget where
  name := "aspen1"
  allowedConsumers := none
  speedFactor := 20
  systems := ["x86_64-linux"]
  sshUser := "root"
  sshHost := sshHost
  maxJobs := 16
  supportedFeatures := ["kvm"]

/-- The explicit endpoint of a target that is declared again has no entry. -/
def aspenBuilders : BuilderTargets aspenMachines.names where
  targets := [aspenTarget none, aspenTarget (some "aspen1.local")]
  checked := by decide

theorem redeclaredTarget_unserved :
    ¬ Routed aspenMachines aspenBuilders.targets "desktop" "/run/key" fun _ => none := by
  intro h
  obtain ⟨machine, hmachine, hcount⟩ := h.served (aspenTarget (some "aspen1.local"))
    (by simp [aspenBuilders]) ⟨by decide, nofun⟩
  obtain rfl := Option.some.inj hmachine
  revert hcount
  decide

end Routing

end OnixCore.Inventory
