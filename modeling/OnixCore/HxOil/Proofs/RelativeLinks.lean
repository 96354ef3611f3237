import OnixCore.HxOil.Proofs.BulkPlans

/-!
# Relative links

The text of a relative link goes up from the target directory to the last directory it shares with
the source, and down from there. Followed in the tree the plan was made in it leads to the source,
wherever the two places are; but it is empty where they are one place.
-/

namespace OnixCore.HxOil

open FileTree Text

section Paths

theorem sharedLength_le : ∀ path base : Path,
    sharedLength path base ≤ path.length ∧ sharedLength path base ≤ base.length
  | [], _ => ⟨Nat.zero_le _, Nat.zero_le _⟩
  | _ :: _, [] => ⟨Nat.zero_le _, Nat.zero_le _⟩
  | left :: path, right :: base => by
    obtain ⟨hpath, hbase⟩ := sharedLength_le path base
    unfold sharedLength
    split
    · exact ⟨Nat.succ_le_succ hpath, Nat.succ_le_succ hbase⟩
    · exact ⟨Nat.zero_le _, Nat.zero_le _⟩

theorem take_sharedLength : ∀ path base : Path,
    path.take (sharedLength path base) = base.take (sharedLength path base)
  | [], base => by simp [sharedLength]
  | left :: path, [] => by simp [sharedLength]
  | left :: path, right :: base => by
    unfold sharedLength
    split
    case isTrue h => rw [List.take_succ_cons, List.take_succ_cons, take_sharedLength path base, h]
    case isFalse => rfl

theorem sharedLength_self : ∀ path : Path, sharedLength path path = path.length
  | [] => rfl
  | name :: path => by rw [sharedLength, if_pos rfl, sharedLength_self path, List.length_cons]

/-- The way to a place is empty from the place itself only. -/
theorem relativePath_eq_nil {path base : Path} :
    (relativePath path base).components = [] ↔ path = base := by
  obtain ⟨hpath, hbase⟩ := sharedLength_le path base
  rw [relativePath, List.append_eq_nil_iff, List.replicate_eq_nil_iff, List.drop_eq_nil_iff]
  constructor
  · rintro ⟨hup, hdown⟩
    have htake := take_sharedLength path base
    rwa [List.take_of_length_le hdown, List.take_of_length_le (by omega)] at htake
  · rintro rfl
    simp [sharedLength_self]

end Paths

section Follow

variable {t : FileTree}

theorem walk_replicate_up {rest : Path} : ∀ (n : ℕ) {b : Place}, t.node b = some .dir →
    t.walk false b (List.replicate n ".." ++ rest) = t.walk false (b.drop n) rest
  | 0, _, _ => rfl
  | n + 1, b, hdir => by
    rw [List.replicate_succ, List.cons_append, walk_up hdir (by decide) rfl,
      walk_replicate_up n (dir_tail hdir), List.drop_tail]

/-- From a directory above it the names of a place lead down to it. -/
theorem walk_down : ∀ {names : Path} {c : Place} {x : Node},
    t.node (names.reverse ++ c) = some x → (∀ text, x ≠ .link text) →
      t.walk false c names = .ok (.arrived (names.reverse ++ c))
  | [], _, _, _, _ => rfl
  | n :: names, c, x, hx, hlink => by
    rw [List.reverse_cons, List.append_assoc, List.singleton_append] at hx ⊢
    have hsome : (t.node (names.reverse ++ n :: c)).isSome := by rw [hx]; rfl
    have hchild : (t.node (n :: c)).isSome := node_of_suffix hsome (List.suffix_append _ _)
    obtain ⟨hdot, hup⟩ := ordinary_of_legal (legal_of_node hchild)
    rw [walk_child (parent_of_node hchild) hdot hup]
    have hrest := walk_down hx hlink
    obtain ⟨y, hy⟩ := Option.isSome_iff_exists.1 hchild
    rw [hy]
    cases y with
    | file bytes => exact hrest
    | dir => exact hrest
    | link text =>
      -- a link has nothing beneath it, so it would be the place itself
      rcases names with _ | ⟨m, names⟩
      · exact absurd (Option.some.inj (hx.symm.trans hy)) (hlink text)
      · have hne : n :: c ≠ (m :: names).reverse ++ n :: c := by
          intro heq
          have hlength := congrArg List.length heq
          simp at hlength
          omega
        have hdir := dir_of_suffix hsome (List.suffix_append _ _) hne
        rw [hy] at hdir
        cases hdir

/-- The way from a directory to a place that is no link leads there. -/
theorem resolveFrom_relativePath {p b : Place} {x : Node} (hb : t.node b = some .dir)
    (hp : t.node p = some x) (hlink : ∀ text, x ≠ .link text) (links : ℕ) :
    t.resolveFrom false links b (relativePath p.reverse b.reverse).components = .ok p := by
  set n := sharedLength p.reverse b.reverse with hn
  have hsplit : p = (p.reverse.drop n).reverse ++ b.drop (b.length - n) := by
    have htake := take_sharedLength p.reverse b.reverse
    have hbase : b.drop (b.length - n) = (b.reverse.take n).reverse := by
      rw [List.take_reverse, List.reverse_reverse]
    rw [hbase, ← htake, ← List.reverse_append, List.take_append_drop, List.reverse_reverse]
  have hwalk : t.walk false b (relativePath p.reverse b.reverse).components
      = .ok (.arrived p) := by
    rw [relativePath, List.length_reverse, ← hn, walk_replicate_up _ hb]
    rw [hsplit] at hp
    rw [walk_down hp hlink, ← hsplit]
  rw [resolveFrom, hwalk]

end Follow

variable {t : FileTree} {session : Session} {document : ManifestDocument} {given : BulkTarget}
  {plan : BulkPlan} {item : BulkItem}

/-- The item's link has a relative text with something in it, which leads from the directory it is
made in to the source. -/
def BulkItem.LeadsToSource (t : FileTree) (item : BulkItem) : Prop :=
  ∃ text p b, item.linkText = some text ∧ text.absolute = false ∧ text.components ≠ []
    ∧ t.resolve item.source = .ok p ∧ t.resolve item.targetRoot = .ok b
    ∧ t.resolveFrom false maxLinks b text.components = .ok p

theorem BulkItem.leadsToSource_iff {p b : Place} (hp : t.resolve item.source = .ok p)
    (hb : t.openDir item.targetRoot = .ok b)
    (htext : item.linkText = some (relativePath p.reverse b.reverse)) :
    item.LeadsToSource t ↔ p ≠ b := by
  obtain ⟨hresolve, hdir⟩ := openDir_eq_ok.1 hb
  constructor
  · rintro ⟨text, -, -, htext', -, hne, -⟩ rfl
    obtain rfl := Option.some.inj (htext.symm.trans htext')
    exact hne (relativePath_eq_nil.2 rfl)
  · intro hne
    obtain ⟨x, hx, hlink⟩ := node_of_resolve hp
    refine ⟨_, p, b, htext, rfl, fun hnil => hne ?_, hp, hresolve,
      resolveFrom_relativePath hdir hx hlink _⟩
    exact List.reverse_injective (relativePath_eq_nil.1 hnil)

/-- The links of an accepted plan lead to their sources exactly when no source is the target
directory itself. -/
theorem relativeLinks_lead_iff
    (hplan : buildBulkPlan t session document .relativeSymlink given = .ok plan) :
    (∀ item ∈ plan.items, item.LeadsToSource t)
      ↔ ∀ item ∈ plan.items, t.resolve item.source ≠ t.resolve item.targetRoot := by
  obtain ⟨hkind, sourceRoot, haccepted⟩ := buildBulkPlan_inv hplan
  obtain ⟨b, hb⟩ := haccepted.target
  refine forall₂_congr fun item hitem => ?_
  have htext := haccepted.linkText item hitem
  rw [← (haccepted.roots item hitem).2] at hb htext
  rw [hkind, bulkLinkText, diffPaths, (openDir_eq_ok.1 hb).1] at htext
  rw [(openDir_eq_ok.1 hb).1]
  rcases hp : t.resolve item.source with e | p
  · simp [hp, Except.map] at htext
  · rw [hp] at htext
    rw [BulkItem.leadsToSource_iff hp hb (Except.ok.inj htext).symm]
    exact not_congr ⟨congrArg _, Except.ok.inj⟩

/-- The marked directory's link in the directory beside it goes up and down. -/
def linkAside : BulkItem := ⟨.directory, "a", [], ["b"], some ⟨false, ["..", "a"]⟩⟩

theorem linkAside_leads : linkAside.LeadsToSource twoDirectories := by
  have hplan : buildBulkPlan twoDirectories rootSession markedDirectory .relativeSymlink
      ⟨some "/b".toList, none, none, none⟩ = .ok ⟨.relativeSymlink, ["b"], [linkAside]⟩ := by rfl
  refine (relativeLinks_lead_iff hplan).2 (fun item hitem => ?_) linkAside List.mem_cons_self
  obtain rfl := List.mem_singleton.1 hitem
  decide

/-- A marked directory is the target itself: its link has an empty text. -/
def linkIntoItself : BulkPlan :=
  ⟨.relativeSymlink, ["a"], [⟨.directory, "a", [], ["a"], some ⟨false, []⟩⟩]⟩

theorem linkIntoItself_empty :
    buildBulkPlan oneDirectory rootSession markedDirectory .relativeSymlink
        ⟨some "/a".toList, none, none, none⟩ = .ok linkIntoItself
      ∧ ¬ ∀ item ∈ linkIntoItself.items, item.LeadsToSource oneDirectory := by
  refine ⟨by rfl, fun h => ?_⟩
  obtain ⟨text, -, -, htext, -, hne, -⟩ := h _ List.mem_cons_self
  obtain rfl := Option.some.inj htext
  exact hne rfl

end OnixCore.HxOil
