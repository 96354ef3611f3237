import OnixCore.Dgx.Proofs.TwoSides

/-!
# The disk of a machine

Nix asks that the disk's path starts in `/dev/disk/by-id/` and that what comes after its last slash
is not a dot component. The path can still leave the directory on the way there, or be the directory
itself: it is one name of the directory exactly when the text after the prefix is not empty and has
no slash of its own.
-/

namespace OnixCore.Dgx

open ModuleSchema

/-- The directory the disks are named in. -/
def byIdPrefix : Text := "/dev/disk/by-id/".toList

/-- The disk of a machine as Nix reads it, with an empty one where there is none. -/
def diskPath : Value → Text
  | .record machine => match attrOr "diskById" machine (.str "") with
    | .str path => path.toList
    | _ => []
  | _ => []

/-- One component that names an entry of the directory. -/
def EntryName (name : Text) : Prop := name ≠ [] ∧ '/' ∉ name ∧ ¬ Dots name

/-- A path that names a disk of the directory and nothing else. -/
def StableDisk (path : Text) : Prop := ∃ name, path = byIdPrefix ++ name ∧ EntryName name

/-- What the path says after the directory. -/
def diskRest (path : Text) : Text := path.drop byIdPrefix.length

theorem diskRest_append (rest : Text) : diskRest (byIdPrefix ++ rest) = rest :=
  List.drop_left

theorem baseNameOf_byId {rest : Text} (hne : rest ≠ []) (hslash : '/' ∉ rest) :
    baseNameOf (byIdPrefix ++ rest) = rest := by
  have hsplit : byIdPrefix = "/dev/disk/by-id".toList ++ ['/'] := by decide
  rw [hsplit, List.append_assoc, List.singleton_append]
  exact baseNameOf_append hne hslash

/-- What the disk check leaves: a path into the directory whose base name is no dot component. -/
theorem exists_of_diskErrors {name : String} {disk : Value} (h : diskErrors name disk = []) :
    ∃ path rest, disk = .str path ∧ path.toList = byIdPrefix ++ rest
      ∧ ¬ Dots (baseNameOf path.toList) := by
  rcases disk with _ | _ | _ | path | _ | _
  case str =>
    simp only [diskErrors, errorWhen_eq_nil, matchesPattern, Bool.or_eq_false_iff,
      Bool.not_eq_false', List.isPrefixOf_iff_prefix, beq_eq_false_iff_ne] at h
    obtain ⟨⟨⟨⟨-, rest, hrest⟩, -⟩, hdot⟩, hdots⟩ := h
    exact ⟨path, rest, rfl, hrest.symm, fun hbase => hbase.elim hdot hdots⟩
  all_goals simp [diskErrors, errorWhen_eq_nil, hasText] at h

/-- A valid inventory has a record for each machine, and the disk of each passes its check. -/
theorem diskErrors_of_valid {machines : Attrs} {clanMachineNames : List String}
    {pathExists : String → Bool} {requireFiles : Bool}
    (h : (validateInventory machines clanMachineNames pathExists requireFiles).valid = true)
    {entry : String × Value} (hentry : entry ∈ machines) :
    ∃ machine, entry.2 = .record machine
      ∧ diskErrors entry.1 (attrOr "diskById" machine (.str "")) = [] := by
  simp only [validateInventory, List.isEmpty_iff, List.append_eq_nil_iff,
    List.flatMap_eq_nil_iff] at h
  have hnone := h.2 entry hentry
  obtain ⟨name, value⟩ := entry
  rcases value with _ | _ | _ | _ | _ | machine
  case record =>
    simp only [validateMachine, List.append_eq_nil_iff] at hnone
    exact ⟨machine, rfl, by tauto⟩
  all_goals simp at hnone

theorem stableDisk_iff_rest {path rest : Text} (hpath : path = byIdPrefix ++ rest)
    (hbase : ¬ Dots (baseNameOf path)) :
    StableDisk path ↔ diskRest path ≠ [] ∧ '/' ∉ diskRest path := by
  subst hpath
  rw [diskRest_append]
  constructor
  · rintro ⟨name, hname, hne, hslash, -⟩
    obtain rfl := List.append_cancel_left hname
    exact ⟨hne, hslash⟩
  · rintro ⟨hne, hslash⟩
    rw [baseNameOf_byId hne hslash] at hbase
    exact ⟨rest, rfl, hne, hslash, hbase⟩

/-- The disks of a valid inventory are stable exactly when no path goes on after its first name
and none stops at the directory. -/
theorem validInventory_disks_iff {machines : Attrs} {clanMachineNames : List String}
    {pathExists : String → Bool} {requireFiles : Bool}
    (h : (validateInventory machines clanMachineNames pathExists requireFiles).valid = true) :
    (∀ entry ∈ machines, StableDisk (diskPath entry.2))
      ↔ ∀ entry ∈ machines, diskRest (diskPath entry.2) ≠ []
        ∧ '/' ∉ diskRest (diskPath entry.2) := by
  refine forall₂_congr fun entry hentry => ?_
  obtain ⟨machine, hrecord, hdisk⟩ := diskErrors_of_valid h hentry
  obtain ⟨path, rest, hpath, hrest, hbase⟩ := exists_of_diskErrors hdisk
  have hread : diskPath entry.2 = path.toList := by
    rw [hrecord, diskPath, hpath]
  rw [hread]
  exact stableDisk_iff_rest hrest hbase

/-- The inventory of the fixture's machine with a disk of its own. -/
def inventoryOnDisk (disk : String) : Attrs :=
  [("fixture-dgx", .record { fixtureDgx with diskById := disk }.attrs)]

theorem inventoryOnDisk_valid {disk : String} (h : diskErrors "fixture-dgx" (.str disk) = []) :
    (validateInventory (inventoryOnDisk disk) [] (fun _ => true) false).valid = true := by
  have hfingerprint : sshFingerprintPattern fixtureDgx.sshHostFingerprint = true := by decide
  have hreal : placeholderPattern fixtureDgx.sshHostFingerprint = false := by decide
  have hshared : SharedRules "fixture-dgx" { fixtureDgx with diskById := disk } :=
    { unfilledDgx_shared with disk_real := h, fingerprint_matches := hfingerprint }
  have hnix : NixRules { fixtureDgx with diskById := disk } :=
    { fingerprint_real := hreal, model_integral := nofun, default_alias := fun _ _ => rfl }
  change Valid (fun _ => true) [("fixture-dgx", { fixtureDgx with diskById := disk })]
  refine valid_iff.2 ⟨fun entry hentry => ?_, fun entry hentry => ?_⟩ <;>
    obtain rfl := List.mem_singleton.1 hentry
  · exact hshared
  · exact hnix

theorem fixtureDisk_stable : StableDisk "/dev/disk/by-id/nvme-NVIDIA_fixture_01".toList := by
  refine (validInventory_disks_iff (inventoryOnDisk_valid (by decide))).2 (fun entry hentry => ?_)
    _ List.mem_cons_self
  obtain rfl := List.mem_singleton.1 hentry
  decide

/-- A path that leaves the directory is taken for a disk of it. -/
theorem validInventory_leaves_directory :
    (validateInventory (inventoryOnDisk "/dev/disk/by-id/../../sda") [] (fun _ => true)
      false).valid = true
    ∧ ¬ ∀ entry ∈ inventoryOnDisk "/dev/disk/by-id/../../sda", StableDisk (diskPath entry.2) := by
  refine ⟨inventoryOnDisk_valid (by decide), fun h => ?_⟩
  obtain ⟨name, hname, -, hslash, -⟩ := h _ List.mem_cons_self
  have hrest : name = "../../sda".toList := by
    have hread : diskRest "/dev/disk/by-id/../../sda".toList = "../../sda".toList := by decide
    rw [← hread, ← diskRest_append name, ← hname]
    rfl
  exact hslash (hrest ▸ by decide)

end OnixCore.Dgx
