import Mathlib.Data.Finset.Lattice.Fold
import Mathlib.Data.List.AList
import OnixCore.Lib.Folder

/-!
# File trees

A whole file system as a finite map from places to what stands there: a file, a symbolic link or a
directory. Whatever has an entry beneath it is a directory, and every name is one the system takes.

`put` writes one entry and `move` takes a subtree to another place. Both leave the tree as it is
where the result would not be one.
-/

namespace OnixCore

/-- The text of a symbolic link: components, read from the root or from the link's directory. -/
structure LinkText where
  absolute : Bool
  components : List String
  deriving DecidableEq, Repr

/-- Where an entry stands: its name and the names of the directories around it, innermost first. -/
abbrev Place := List String

inductive Node where
  | file (bytes : List UInt8)
  | link (text : LinkText)
  | dir
  deriving DecidableEq, Repr

structure FileTree where
  entries : AList fun _ : Place => Node
  root_dir : entries.lookup [] = some .dir
  parent_dir : ∀ n p, (entries.lookup (n :: p)).isSome → entries.lookup p = some .dir
  legal : ∀ n p, (entries.lookup (n :: p)).isSome → legalComponent n = true

namespace FileTree

variable {t : FileTree} {n m : String} {p q s d : Place} {x : Node}

def node (t : FileTree) (p : Place) : Option Node := t.entries.lookup p

/-- The tree with nothing but its root. -/
def bare : FileTree where
  entries := AList.singleton [] .dir
  root_dir := rfl
  parent_dir := fun n p h => by simp [AList.lookup_isSome, AList.mem_keys] at h
  legal := fun n p h => by simp [AList.lookup_isSome, AList.mem_keys] at h

/-- The name of a place that is right beneath `p`. -/
def childName (p : Place) : Place → Option String
  | [] => none
  | n :: q => if q = p then some n else none

/-- The names in a directory, in the order the system lists them. -/
def names (t : FileTree) (p : Place) : List String := t.entries.keys.filterMap (childName p)

theorem childName_eq_some : childName p q = some n ↔ q = n :: p := by
  cases q with
  | nil => simp [childName]
  | cons m q => simp [childName, and_comm]

theorem mem_names : n ∈ t.names p ↔ (t.node (n :: p)).isSome := by
  simp only [names, List.mem_filterMap, childName_eq_some, exists_eq_right, node,
    AList.lookup_isSome]
  rfl

theorem nodup_names (t : FileTree) (p : Place) : (t.names p).Nodup := by
  refine List.Nodup.filterMap (fun a b n ha hb => ?_) t.entries.keys_nodup
  rw [childName_eq_some.1 ha, childName_eq_some.1 hb]

@[simp] theorem node_root (t : FileTree) : t.node [] = some .dir := t.root_dir

theorem parent_of_node (h : (t.node (n :: p)).isSome) : t.node p = some .dir := t.parent_dir n p h

theorem legal_of_node (h : (t.node (n :: p)).isSome) : legalComponent n = true := t.legal n p h

/-- What stands above an entry is there too, and it is a directory. -/
theorem dir_of_suffix : ∀ {q : Place}, (t.node q).isSome → p <:+ q → p ≠ q → t.node p = some .dir
  | [], _, hp, hne => absurd (List.suffix_nil.1 hp) hne
  | n :: q, hq, hp, hne => by
    rcases List.suffix_cons_iff.1 hp with heq | hp
    · exact absurd heq hne
    · have hdir := parent_of_node hq
      by_cases h : p = q
      · rw [h, hdir]
      · exact dir_of_suffix (by rw [hdir]; rfl) hp h

theorem node_of_suffix (hq : (t.node q).isSome) (hp : p <:+ q) : (t.node p).isSome := by
  by_cases h : p = q
  · rwa [h]
  · rw [dir_of_suffix hq hp h]
    rfl

/-- Nothing stands beneath what is missing. -/
theorem node_eq_none_of_suffix (hp : t.node p = none) (h : p <:+ q) : t.node q = none := by
  by_contra hq
  rw [← ne_eq, Option.ne_none_iff_isSome] at hq
  have hsome := node_of_suffix hq h
  rw [hp] at hsome
  exact absurd hsome (by decide)

/-- Nothing stands beneath a directory without names. -/
theorem node_eq_none_of_names (hp : t.names p = []) (h : p <:+ q) (hne : p ≠ q) :
    t.node q = none := by
  obtain ⟨r, rfl⟩ := h
  rcases List.eq_nil_or_concat r with rfl | ⟨r, n, rfl⟩
  · exact absurd rfl hne
  · have hn : t.node (n :: p) = none := by
      rw [← Option.not_isSome_iff_eq_none, ← mem_names, hp]
      exact List.not_mem_nil
    exact node_eq_none_of_suffix hn ⟨r, by simp⟩

section Put

/-- Writes an entry that is not a directory yet. -/
def put (t : FileTree) (n : String) (p : Place) (x : Node) : FileTree :=
  if h : t.node p = some .dir ∧ legalComponent n = true ∧ t.node (n :: p) ≠ some .dir then
    { entries := t.entries.insert (n :: p) x
      root_dir := by rw [AList.lookup_insert_ne (by simp)]; exact t.root_dir
      parent_dir := fun m q hsome => by
        have hq : t.node q = some .dir := by
          by_cases heq : m :: q = n :: p
          · rw [(List.cons.inj heq).2]
            exact h.1
          · rw [AList.lookup_insert_ne heq] at hsome
            exact t.parent_dir m q hsome
        have hne : q ≠ n :: p := by
          rintro rfl
          exact h.2.2 hq
        rw [AList.lookup_insert_ne hne]
        exact hq
      legal := fun m q hsome => by
        by_cases heq : m :: q = n :: p
        · rw [(List.cons.inj heq).1]
          exact h.2.1
        · rw [AList.lookup_insert_ne heq] at hsome
          exact t.legal m q hsome }
  else t

theorem node_put (hp : t.node p = some .dir) (hn : legalComponent n = true)
    (hdir : t.node (n :: p) ≠ some .dir) (x : Node) (q : Place) :
    (t.put n p x).node q = if q = n :: p then some x else t.node q := by
  rw [put, dif_pos ⟨hp, hn, hdir⟩, node]
  split_ifs with h
  · rw [h]
    exact AList.lookup_insert _
  · exact AList.lookup_insert_ne h

end Put

section Move

/-- Where what stood at `q` is after the subtree at `s` was taken to `d`. -/
def relocated (s d q : Place) : Place :=
  if s <:+ q then q.take (q.length - s.length) ++ d else q

theorem relocated_append (r : Place) : relocated s d (r ++ s) = r ++ d := by
  rw [relocated, if_pos (List.suffix_append r s), List.length_append, Nat.add_sub_cancel,
    List.take_left]

theorem relocated_other (h : ¬ s <:+ q) : relocated s d q = q := if_neg h

/-- Away from `d`, two places are never taken to one. -/
theorem relocated_inj {q' : Place} (hq : ¬ d <:+ q) (hq' : ¬ d <:+ q')
    (h : relocated s d q = relocated s d q') : q = q' := by
  by_cases hs : s <:+ q <;> by_cases hs' : s <:+ q'
  · obtain ⟨r, rfl⟩ := hs
    obtain ⟨r', rfl⟩ := hs'
    rw [relocated_append, relocated_append] at h
    rw [List.append_cancel_right h]
  · obtain ⟨r, rfl⟩ := hs
    rw [relocated_append, relocated_other hs'] at h
    exact absurd (h ▸ List.suffix_append r d) hq'
  · obtain ⟨r', rfl⟩ := hs'
    rw [relocated_append, relocated_other hs] at h
    exact absurd (h ▸ List.suffix_append r' d) hq
  · rwa [relocated_other hs, relocated_other hs'] at h

/-- What a move asks for: there is something to move, a directory to move it to that is not beneath
it, and nothing that would be left beneath the new place. -/
structure Movable (t : FileTree) (s : Place) (n : String) (p : Place) : Prop where
  source : (t.node s).isSome
  target : t.node p = some .dir
  legal : legalComponent n = true
  apart : ¬ s <:+ n :: p
  bare : t.names (n :: p) = []

instance : Decidable (Movable t s n p) :=
  decidable_of_iff ((t.node s).isSome ∧ t.node p = some .dir ∧ legalComponent n = true
      ∧ ¬ s <:+ n :: p ∧ t.names (n :: p) = [])
    ⟨fun h => ⟨h.1, h.2.1, h.2.2.1, h.2.2.2.1, h.2.2.2.2⟩,
      fun h => ⟨h.source, h.target, h.legal, h.apart, h.bare⟩⟩

/-- The entries after the subtree at `s` was taken to `d`, where what stood at `d` is gone. -/
def moved (t : FileTree) (s d : Place) : AList fun _ : Place => Node :=
  ((t.entries.erase d).entries.map fun e => ⟨relocated s d e.1, e.2⟩).toAList

theorem lookup_moved (h : Movable t s n p) (q : Place) (x : Node) :
    (t.moved s (n :: p)).lookup q = some x
      ↔ ∃ a, relocated s (n :: p) a = q ∧ a ≠ n :: p ∧ t.node a = some x := by
  have herased : ∀ a y, (⟨a, y⟩ : (_ : Place) × Node) ∈ (t.entries.erase (n :: p)).entries
      ↔ a ≠ n :: p ∧ t.node a = some y := by
    intro a y
    rw [← AList.mem_lookup_iff, Option.mem_def]
    by_cases ha : a = n :: p
    · rw [ha, AList.lookup_erase]
      simp
    · rw [AList.lookup_erase_ne ha]
      simp [ha, node]
  have haway : ∀ a y, (⟨a, y⟩ : (_ : Place) × Node) ∈ (t.entries.erase (n :: p)).entries →
      ¬ n :: p <:+ a := by
    intro a y ha hsuffix
    obtain ⟨hne, hnode⟩ := (herased a y).1 ha
    rw [node_eq_none_of_names h.bare hsuffix hne.symm] at hnode
    cases hnode
  have hnodup : (((t.entries.erase (n :: p)).entries.map fun e =>
      (⟨relocated s (n :: p) e.1, e.2⟩ : (_ : Place) × Node))).NodupKeys := by
    have hkeys := (t.entries.erase (n :: p)).nodupKeys
    rw [List.NodupKeys, List.keys, List.map_map]
    exact hkeys.nodup.map_on fun a ha b hb heq =>
      hkeys.eq_of_fst_eq ha hb (relocated_inj (haway _ _ ha) (haway _ _ hb) heq)
  rw [moved, AList.lookup_to_alist, ← Option.mem_def, List.mem_dlookup_iff hnodup, List.mem_map]
  constructor
  · rintro ⟨⟨a, y⟩, ha, heq⟩
    simp only [Sigma.mk.injEq, heq_eq_eq] at heq
    obtain ⟨hne, hnode⟩ := (herased a y).1 ha
    exact ⟨a, heq.1, hne, heq.2 ▸ hnode⟩
  · rintro ⟨a, rfl, hne, hnode⟩
    exact ⟨⟨a, x⟩, (herased a x).2 ⟨hne, hnode⟩, rfl⟩

/-- The moved subtree stands at its new place as it stood before. -/
theorem lookup_moved_target (h : Movable t s n p) (r : Place) :
    (t.moved s (n :: p)).lookup (r ++ n :: p) = t.node (r ++ s) := by
  refine Option.ext fun x => ?_
  rw [lookup_moved h]
  constructor
  · rintro ⟨a, heq, hne, ha⟩
    by_cases hs : s <:+ a
    · obtain ⟨r', rfl⟩ := hs
      rw [relocated_append] at heq
      rwa [← List.append_cancel_right heq]
    · rw [relocated_other hs] at heq
      rw [heq, node_eq_none_of_names h.bare (List.suffix_append r _) fun h' => hne (heq.trans h'.symm)]
        at ha
      cases ha
  · intro ha
    refine ⟨r ++ s, relocated_append r, fun heq => h.apart ?_, ha⟩
    rw [← heq]
    exact List.suffix_append r s

/-- Away from the new place the subtree is gone, and nothing else has changed. -/
theorem lookup_moved_other (h : Movable t s n p) (hq : ¬ n :: p <:+ q) :
    (t.moved s (n :: p)).lookup q = if s <:+ q then none else t.node q := by
  refine Option.ext fun x => ?_
  rw [lookup_moved h]
  split_ifs with hs
  · refine ⟨?_, nofun⟩
    rintro ⟨a, heq, -, -⟩
    by_cases ha : s <:+ a
    · obtain ⟨r, rfl⟩ := ha
      rw [relocated_append] at heq
      exact absurd (heq ▸ List.suffix_append r _) hq
    · rw [relocated_other ha] at heq
      exact absurd (heq ▸ hs) ha
  · constructor
    · rintro ⟨a, heq, -, ha⟩
      by_cases hsa : s <:+ a
      · obtain ⟨r, rfl⟩ := hsa
        rw [relocated_append] at heq
        exact absurd (heq ▸ List.suffix_append r _) hq
      · rw [relocated_other hsa] at heq
        rwa [← heq]
    · intro ha
      refine ⟨q, relocated_other hs, ?_, ha⟩
      rintro rfl
      exact hq (List.suffix_refl _)

/-- Takes the subtree at `s` to a place of its own. -/
def move (t : FileTree) (s : Place) (n : String) (p : Place) : FileTree :=
  if h : Movable t s n p then
    { entries := t.moved s (n :: p)
      root_dir := by
        rw [lookup_moved_other h (by simp), if_neg, node_root]
        intro hs
        exact h.apart (List.suffix_nil.1 hs ▸ List.nil_suffix)
      parent_dir := fun m q hsome => by
        by_cases hd : n :: p <:+ m :: q
        · obtain ⟨r, hr⟩ := hd
          cases r with
          | nil =>
            rw [← (List.cons.inj hr).2, lookup_moved_other h fun hle => ?_, if_neg, h.target]
            · exact fun hs => h.apart (hs.trans (List.suffix_cons n p))
            · have hlength := hle.length_le
              rw [List.length_cons] at hlength
              omega
          | cons m' r =>
            obtain ⟨rfl, rfl⟩ := List.cons.inj hr
            have hchild := lookup_moved_target h (m' :: r)
            rw [List.append_eq, lookup_moved_target h]
            exact parent_of_node (hchild ▸ hsome)
        · rw [lookup_moved_other h hd] at hsome
          split_ifs at hsome with hs
          · cases hsome
          · rw [lookup_moved_other h fun hq => hd (hq.trans (List.suffix_cons m q)), if_neg fun hq =>
              hs (hq.trans (List.suffix_cons m q))]
            exact parent_of_node hsome
      legal := fun m q hsome => by
        by_cases hd : n :: p <:+ m :: q
        · obtain ⟨r, hr⟩ := hd
          cases r with
          | nil =>
            rw [← (List.cons.inj hr).1]
            exact h.legal
          | cons m' r =>
            obtain ⟨rfl, rfl⟩ := List.cons.inj hr
            have hchild := lookup_moved_target h (m' :: r)
            exact legal_of_node (hchild ▸ hsome)
        · rw [lookup_moved_other h hd] at hsome
          split_ifs at hsome with hs
          · cases hsome
          · exact legal_of_node hsome }
  else t

theorem node_move_target (h : Movable t s n p) (r : Place) :
    (t.move s n p).node (r ++ n :: p) = t.node (r ++ s) := by
  rw [move, dif_pos h]
  exact lookup_moved_target h r

theorem node_move_other (h : Movable t s n p) (hq : ¬ n :: p <:+ q) :
    (t.move s n p).node q = if s <:+ q then none else t.node q := by
  rw [move, dif_pos h]
  exact lookup_moved_other h hq

end Move

end FileTree

end OnixCore
