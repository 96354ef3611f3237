import OnixCore.BackupManifest.Walk

/-!
# The order of relative paths

`compare_relative_path_bytes` orders paths as lists of components, each as a string of bytes
(`compareRelativePathBytes_eq`). Splitting a path loses nothing, so this is a strict total order on
byte strings (`comparePath_total`, `comparePath_trans`).
-/

namespace OnixCore.BackupManifest

section Compare

theorem compareComponents_eq : ∀ left right : List Bytes,
    compareComponents left right = compare left right
  | [], [] => rfl
  | [], _ :: _ => rfl
  | _ :: _, [] => rfl
  | left :: lefts, right :: rights => by
    rw [compareComponents, List.compare_cons_cons, compareComponents_eq lefts rights]
    rcases compare left right <;> rfl

theorem compareRelativePathBytes_eq (left right : Bytes) :
    compareRelativePathBytes left right = compare (left.splitOn slash) (right.splitOn slash) :=
  compareComponents_eq _ _

theorem splitOn_inj {left right : Bytes} (h : left.splitOn slash = right.splitOn slash) :
    left = right := by
  have hleft : [slash].intercalate (left.splitOn slash) = left := List.intercalate_splitOn slash
  rw [← hleft, h, List.intercalate_splitOn]

theorem comparePath_eq_iff {left right : Bytes} :
    compareRelativePathBytes left right = .eq ↔ left = right := by
  rw [compareRelativePathBytes_eq, Std.LawfulEqOrd.compare_eq_iff_eq]
  exact ⟨splitOn_inj, congrArg _⟩

theorem comparePath_gt_iff {left right : Bytes} :
    compareRelativePathBytes left right = .gt ↔ compareRelativePathBytes right left = .lt := by
  rw [compareRelativePathBytes_eq, compareRelativePathBytes_eq]
  exact Std.OrientedCmp.gt_iff_lt

theorem comparePath_trans {a b c : Bytes} (hab : compareRelativePathBytes a b = .lt)
    (hbc : compareRelativePathBytes b c = .lt) : compareRelativePathBytes a c = .lt := by
  rw [compareRelativePathBytes_eq] at hab hbc ⊢
  exact Std.TransCmp.lt_trans hab hbc

theorem comparePath_irrefl (a : Bytes) : compareRelativePathBytes a a ≠ .lt := by
  rw [comparePath_eq_iff.2 rfl]
  decide

theorem comparePath_asymm {a b : Bytes} (h : compareRelativePathBytes a b = .lt) :
    compareRelativePathBytes b a ≠ .lt := fun h' =>
  comparePath_irrefl a (comparePath_trans h h')

/-- Different paths are ordered one way. -/
theorem comparePath_total {left right : Bytes} (h : left ≠ right) :
    compareRelativePathBytes left right = .lt ∨ compareRelativePathBytes right left = .lt := by
  rcases hc : compareRelativePathBytes left right
  case lt => exact .inl rfl
  case eq => exact absurd (comparePath_eq_iff.1 hc) h
  case gt => exact .inr (comparePath_gt_iff.1 hc)

/-- What holds between neighbours holds between all. -/
theorem pairwise_of_isChain {paths : List Bytes}
    (h : paths.IsChain fun a b => compareRelativePathBytes a b = .lt) :
    paths.Pairwise fun a b => compareRelativePathBytes a b = .lt :=
  haveI : IsTrans Bytes fun a b => compareRelativePathBytes a b = .lt := ⟨fun _ _ _ => comparePath_trans⟩
  List.isChain_iff_pairwise.1 h

end Compare

section Names

instance : Std.Total nameLe := ⟨fun a b => by
  unfold nameLe
  rcases h : compare a.1 b.1
  case lt => exact .inl rfl
  case eq => exact .inl rfl
  case gt => exact .inr (by rw [Std.OrientedCmp.gt_iff_lt.1 h]; rfl)⟩

instance : IsTrans (Bytes × Entry) nameLe := ⟨fun _ _ _ => Std.TransCmp.isLE_trans⟩

theorem mem_sortByName {entries : List (Bytes × Entry)} {entry : Bytes × Entry} :
    entry ∈ sortByName entries ↔ entry ∈ entries := List.mem_insertionSort _

/-- Sorted, entries of different names are in strict order. -/
theorem sortByName_pairwise {entries : List (Bytes × Entry)}
    (h : (entries.map Prod.fst).Nodup) :
    (sortByName entries).Pairwise fun a b => compare a.1 b.1 = .lt := by
  have hnodup : ((sortByName entries).map Prod.fst).Nodup :=
    ((List.perm_insertionSort nameLe entries).map Prod.fst).nodup_iff.2 h
  have hle : (sortByName entries).Pairwise nameLe := List.pairwise_insertionSort nameLe entries
  rw [List.Nodup, List.pairwise_map] at hnodup
  refine hle.imp₂ (fun a b hab hne => ?_) hnodup
  rcases hc : compare a.1 b.1
  case lt => rfl
  case eq => exact absurd (Std.LawfulEqOrd.compare_eq_iff_eq.1 hc) hne
  case gt => rw [nameLe, hc] at hab; cases hab

theorem compare_append_left (dir : List Bytes) (a b : List Bytes) :
    compare (dir ++ a) (dir ++ b) = compare a b := by
  induction dir with
  | nil => rfl
  | cons name names ih =>
    rw [List.cons_append, List.cons_append, List.compare_cons_cons, Std.ReflOrd.compare_self, ih]
    rfl

end Names

end OnixCore.BackupManifest
