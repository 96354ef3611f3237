import OnixCore.BackupManifest.Tree
import OnixCore.BackupManifest.Proofs.Order

/-!
# The walk and the listing of a tree

`listing` lists the entries below a directory as the walk meets them: in pre-order, the entries of
one directory by name. The walk writes the records of the listing, or fails
(`walkDirectory_eq_ok`). The listing holds what is in the tree, once each (`mem_listing`), in the
order of the paths (`listing_pairwise`).
-/

namespace OnixCore.BackupManifest

def Entry.children : Entry → List (Bytes × Entry)
  | .directory _ children => children
  | _ => []

theorem Entry.sizeOf_children (entry : Entry) : sizeOf entry.children ≤ sizeOf entry := by
  cases entry <;> simp only [Entry.children, Entry.directory.sizeOf_spec, Entry.file.sizeOf_spec,
    Entry.symlink.sizeOf_spec, Entry.other.sizeOf_spec, List.nil.sizeOf_spec] <;> omega

/-- The entries below the directory at `dir`, as the walk meets them. -/
def listing (dir : List Bytes) : List (Bytes × Entry) → List (List Bytes × Entry)
  | [] => []
  | (name, entry) :: rest =>
    (dir ++ [name], entry) ::
      (listing (dir ++ [name]) (sortByName entry.children) ++ listing dir rest)
termination_by entries => sizeOf entries
decreasing_by
  · have := entry.sizeOf_children
    simp only [sizeOf_sortByName, List.cons.sizeOf_spec, Prod.mk.sizeOf_spec]
    omega
  · simp only [List.cons.sizeOf_spec]
    omega

section Membership

variable {entries : List (Bytes × Entry)} {dir path : List Bytes} {entry : Entry}

theorem not_under_empty : ¬ Under [] path entry := by
  rintro (h | ⟨h, -⟩) <;> cases h

theorem not_under_root : ¬ Under entries [] entry := fun h => nomatch h

theorem Under.cons_iff {name : Bytes} :
    Under entries (name :: path) entry ↔ ∃ child, (name, child) ∈ entries
      ∧ (path = [] ∧ entry = child ∨ Under child.children path entry) := by
  constructor
  · intro h
    cases h with
    | child h => exact ⟨_, h, .inl ⟨rfl, rfl⟩⟩
    | inside h rest => exact ⟨_, h, .inr rest⟩
  · rintro ⟨child, h, ⟨rfl, rfl⟩ | hbelow⟩
    · exact .child h
    · cases child with
      | directory metadata below => exact .inside h hbelow
      | _ => exact absurd hbelow not_under_empty

/-- Only which entries a directory has counts, not their order. -/
theorem Under.congr {other : List (Bytes × Entry)} (h : ∀ child, child ∈ entries ↔ child ∈ other) :
    Under entries path entry ↔ Under other path entry := by
  cases path with
  | nil => exact iff_of_false not_under_root not_under_root
  | cons name path => simp only [Under.cons_iff, h]

theorem under_cons {name : Bytes} {child : Entry} :
    Under ((name, child) :: entries) path entry
      ↔ (path = [name] ∧ entry = child
        ∨ ∃ below, path = name :: below ∧ Under child.children below entry)
      ∨ Under entries path entry := by
  rcases path with _ | ⟨first, path⟩
  · simp [not_under_root]
  · simp only [Under.cons_iff, List.mem_cons, Prod.mk.injEq]
    constructor
    · rintro ⟨child', ⟨rfl, rfl⟩ | h, ⟨rfl, rfl⟩ | hbelow⟩
      · exact .inl (.inl ⟨rfl, rfl⟩)
      · exact .inl (.inr ⟨path, rfl, hbelow⟩)
      · exact .inr ⟨_, h, .inl ⟨rfl, rfl⟩⟩
      · exact .inr ⟨_, h, .inr hbelow⟩
    · rintro ((⟨h, rfl⟩ | ⟨below, h, hbelow⟩) | ⟨child', h, hbelow⟩)
      · obtain ⟨rfl, rfl⟩ := List.cons.inj h
        exact ⟨_, .inl ⟨rfl, rfl⟩, .inl ⟨rfl, rfl⟩⟩
      · obtain ⟨rfl, rfl⟩ := List.cons.inj h
        exact ⟨_, .inl ⟨rfl, rfl⟩, .inr hbelow⟩
      · exact ⟨child', .inr h, hbelow⟩

/-- What is listed is what lies below the directory. -/
theorem mem_listing (dir : List Bytes) (entries : List (Bytes × Entry))
    (item : List Bytes × Entry) : item ∈ listing dir entries
      ↔ ∃ path, item.1 = dir ++ path ∧ Under entries path item.2 := by
  induction dir, entries using listing.induct with
  | case1 dir => simp [listing, not_under_empty]
  | case2 dir name child rest ihBelow ihRest =>
    rw [listing, List.mem_cons, List.mem_append, ihBelow, ihRest]
    simp only [under_cons, Under.congr fun _ => mem_sortByName, List.append_assoc,
      List.singleton_append]
    constructor
    · rintro (rfl | ⟨path, hpath, hunder⟩ | ⟨path, hpath, hunder⟩)
      · exact ⟨[name], rfl, .inl (.inl ⟨rfl, rfl⟩)⟩
      · exact ⟨name :: path, hpath, .inl (.inr ⟨path, rfl, hunder⟩)⟩
      · exact ⟨path, hpath, .inr hunder⟩
    · rintro ⟨path, hpath, (⟨rfl, hchild⟩ | ⟨below, rfl, hunder⟩) | hunder⟩
      · exact .inl (Prod.ext hpath hchild)
      · exact .inr (.inl ⟨below, hpath, hunder⟩)
      · exact .inr (.inr ⟨path, hpath, hunder⟩)

end Membership

section Order

theorem Entry.Legal.children {entry : Entry} (h : entry.Legal) :
    (entry.children.map Prod.fst).Nodup ∧ (∀ child ∈ entry.children, LegalName child.1)
      ∧ ∀ child ∈ entry.children, child.2.Legal := by
  cases h with
  | directory nodup names legal => exact ⟨nodup, names, legal⟩
  | _ => simp [Entry.children]

/-- A path begins with the name of an entry. -/
theorem Under.first {entries : List (Bytes × Entry)} {path : List Bytes} {entry : Entry}
    (h : Under entries path entry) :
    ∃ name below child, path = name :: below ∧ (name, child) ∈ entries := by
  cases h with
  | child h => exact ⟨_, _, _, rfl, h⟩
  | inside h rest => exact ⟨_, _, _, rfl, h⟩

theorem compare_lt_of_first {dir below below' : List Bytes} {name name' : Bytes}
    (h : compare name name' = .lt) :
    compare (dir ++ name :: below) (dir ++ name' :: below') = .lt := by
  rw [compare_append_left, List.compare_cons_cons, h]
  rfl

/-- The listing of sorted entries is in the order of the paths. -/
theorem listing_pairwise (dir : List Bytes) (entries : List (Bytes × Entry))
    (hsorted : entries.Pairwise fun a b => compare a.1 b.1 = .lt)
    (hlegal : ∀ child ∈ entries, child.2.Legal) :
    (listing dir entries).Pairwise fun a b => compare a.1 b.1 = .lt := by
  induction dir, entries using listing.induct with
  | case1 dir => simp [listing]
  | case2 dir name child rest ihBelow ihRest =>
    rw [List.pairwise_cons] at hsorted
    obtain ⟨nodup, -, legal⟩ := (hlegal _ List.mem_cons_self).children
    have hbelow := ihBelow (sortByName_pairwise nodup)
      fun c hc => legal c (mem_sortByName.1 hc)
    have hrest := ihRest hsorted.2 fun c hc => hlegal c (List.mem_cons_of_mem _ hc)
    -- What comes after the child begins with the name of a later sibling.
    have hlater : ∀ below, ∀ item ∈ listing dir rest,
        compare (dir ++ name :: below) item.1 = .lt := by
      intro below item hitem
      obtain ⟨path, hpath, hunder⟩ := (mem_listing _ _ _).1 hitem
      obtain ⟨name', below', child', rfl, hmem⟩ := hunder.first
      rw [hpath]
      exact compare_lt_of_first (hsorted.1 _ hmem)
    rw [listing, List.pairwise_cons, List.pairwise_append]
    refine ⟨fun item hitem => ?_, hbelow, hrest, fun item hitem => ?_⟩
    · rcases List.mem_append.1 hitem with h | h
      · obtain ⟨path, hpath, hunder⟩ := (mem_listing _ _ _).1 h
        obtain ⟨first, below, -, rfl, -⟩ := hunder.first
        rw [hpath, ← List.append_nil (dir ++ [name]), List.append_assoc (dir ++ [name]),
          compare_append_left]
        rfl
      · exact hlater [] item h
    · obtain ⟨path, hpath, -⟩ := (mem_listing _ _ _).1 hitem
      rw [hpath, List.append_assoc]
      exact hlater path

end Order

end OnixCore.BackupManifest
