import OnixCore.PolicyReconciler.Reconcile

/-!
# What the reconciler reads in a listing

Of a listing `policySet` returns the repositories with an entry, whatever their policies and scopes
are (`policySet_eq_ok`), and it never returns an id that is not canonical. Every store has a
listing.
-/

namespace OnixCore.PolicyReconciler

theorem mem_ids {store : Store} {id : String} : id ∈ ids store ↔ ∃ h, (⟨id, h⟩ : Rid) ∈ store := by
  simp [ids, AList.mem_keys]

theorem canonical_ne_header {id : String} (h : isCanonicalRid id = true) : id ≠ policyHeader := by
  rintro rfl
  exact absurd h (by decide)

/-- The rows with the entries, once the one with the headings has been seen. -/
theorem policyRows_entries {lines rows : List Text} {order : List (Sigma fun _ : Rid => Entry)}
    {policies : Finset String} (hrows : tableRows lines = rows)
    (hentries : List.Forall₂ EntryRow order rows) : policyRows lines true policies
      = .ok (true, policies ∪ (order.map fun entry => entry.1.1).toFinset) := by
  induction lines generalizing rows order policies with
  | nil =>
    obtain rfl : rows = [] := hrows.symm
    obtain rfl := List.forall₂_nil_right_iff.1 hentries
    simp [policyRows]
  | cons line lines ih =>
    rw [tableRows, List.filterMap_cons] at hrows
    rcases hstrip : Text.stripPrefix ['│'] (Text.trimStart line) with _ | row
    · rw [hstrip] at hrows
      rw [policyRows, hstrip]
      exact ih hrows hentries
    · rw [hstrip] at hrows
      subst hrows
      obtain ⟨entry, others, ⟨name, hwords⟩, hothers, rfl⟩ := List.forall₂_cons_right_iff.1 hentries
      have hhead : (Text.words row).head? = some entry.1.1.toList := by simp [hwords]
      have hcanonical := entry.1.2
      rw [policyRows, hstrip]
      simp only [hhead, String.ofList_toList, if_neg (canonical_ne_header hcanonical), hcanonical,
        Bool.not_true, Bool.false_eq_true, if_false]
      rw [ih rfl hothers]
      simp

theorem policyRows_table {lines rows : List Text} {header : Text}
    {order : List (Sigma fun _ : Rid => Entry)} (hrows : tableRows lines = header :: rows)
    (hheader : (Text.words header).head? = some policyHeader.toList)
    (hentries : List.Forall₂ EntryRow order rows) :
    policyRows lines false ∅ = .ok (true, (order.map fun entry => entry.1.1).toFinset) := by
  induction lines with
  | nil => exact nomatch hrows
  | cons line lines ih =>
    rw [tableRows, List.filterMap_cons] at hrows
    rcases hstrip : Text.stripPrefix ['│'] (Text.trimStart line) with _ | row
    · rw [hstrip] at hrows
      rw [policyRows, hstrip]
      exact ih hrows
    · rw [hstrip] at hrows
      obtain ⟨rfl, hrest⟩ := List.cons.inj hrows
      rw [policyRows, hstrip]
      simp only [hheader, String.ofList_toList, if_true]
      rw [policyRows_entries hrest hentries, Finset.empty_union]

theorem policySet_eq_ok {store : Store} {text : String} (h : Lists store text) :
    policySet text = .ok (ids store) := by
  rcases h with ⟨hstore, line, hline, htrim⟩ | ⟨hstore, hlines, hrows, hheader, horder, hentries⟩
  · have hany : (Text.lines text.toList).any
        (fun line => Text.trim line == emptyPolicyMessage.toList) = true :=
      List.any_eq_true.2 ⟨line, hline, beq_iff_eq.2 htrim⟩
    simp [policySet, hany, ids, AList.keys, List.keys, hstore]
  · rename_i header rows order
    have hany : ¬ (Text.lines text.toList).any
        (fun line => Text.trim line == emptyPolicyMessage.toList) = true := by
      rw [List.any_eq_true]
      rintro ⟨line, hline, htrim⟩
      exact hlines line hline (beq_iff_eq.1 htrim)
    have hids : (order.map fun entry => entry.1.1).toFinset = ids store := by
      have hperm := horder.map fun entry => entry.1.1
      rw [List.toFinset_eq_of_perm _ _ hperm, ids, AList.keys, List.keys, List.map_map]
      rfl
    have hne : ids store ≠ ∅ := by
      obtain ⟨entry, entries, heq⟩ := List.exists_cons_of_ne_nil hstore
      simp [ids, AList.keys, List.keys, heq]
    have hhead : (Text.words header).head? = some policyHeader.toList := by
      rw [hheader]
      rfl
    simp only [policySet, if_neg hany, policyRows_table hrows hhead hentries, hids]
    simp [hne]

theorem policyRows_canonical {lines : List Text} {headerSeen seen : Bool}
    {policies result : Finset String} (hpolicies : ∀ id ∈ policies, isCanonicalRid id = true)
    (h : policyRows lines headerSeen policies = .ok (seen, result)) :
    ∀ id ∈ result, isCanonicalRid id = true := by
  induction lines generalizing headerSeen policies with
  | nil =>
    obtain ⟨-, rfl⟩ := Prod.mk.inj (Except.ok.inj h)
    exact hpolicies
  | cons line lines ih =>
    rw [policyRows] at h
    split at h
    · exact ih hpolicies h
    split at h
    · exact ih hpolicies h
    rename_i word _
    simp only [] at h
    split_ifs at h with hheader hseen hrid
    · exact ih hpolicies h
    · refine ih (fun id hid => ?_) h
      rcases Finset.mem_insert.1 hid with rfl | hid
      · simpa using hrid
      · exact hpolicies id hid

theorem policySet_canonical {text : String} {policies : Finset String}
    (h : policySet text = .ok policies) : ∀ id ∈ policies, isCanonicalRid id = true := by
  unfold policySet at h
  simp only [] at h
  split_ifs at h with hempty
  · obtain rfl := Except.ok.inj h
    simp
  · rcases hrows : policyRows (Text.lines text.toList) false ∅ with error | ⟨seen, result⟩
    · rw [hrows] at h
      cases h
    · rw [hrows] at h
      simp only [] at h
      split_ifs at h with hnone
      obtain rfl := Except.ok.inj h
      exact policyRows_canonical (by simp) hrows

theorem desiredFrom_canonical : ∀ {arguments : List String} {seen desired : Finset String},
    desiredFrom arguments seen = .ok desired → (∀ id ∈ seen, isCanonicalRid id = true) →
      ∀ id ∈ desired, isCanonicalRid id = true
  | [], _, _, h, hseen => Except.ok.inj h ▸ hseen
  | rid :: arguments, seen, desired, h, hseen => by
    rw [desiredFrom] at h
    split_ifs at h with hrid hmem
    refine desiredFrom_canonical h fun id hid => ?_
    rcases Finset.mem_insert.1 hid with rfl | hid
    · simpa using hrid
    · exact hseen id hid

/-- The repositories that the arguments ask for are all canonical. -/
theorem desiredSet_canonical {arguments : List String} {desired : Finset String}
    (h : desiredSet arguments = .ok desired) : ∀ id ∈ desired, isCanonicalRid id = true :=
  desiredFrom_canonical h (by simp)

section Table

/-- A row of a table, with its borders. -/
def bordered (cells : List Text) : Text :=
  ('│' :: cells.flatMap (' ' :: ·)) ++ [' ', '│']

def headings : List Text :=
  ["Repository".toList, "Name".toList, "Policy".toList, "Scope".toList]

def cells (entry : Sigma fun _ : Rid => Entry) : List Text :=
  [entry.1.1.toList, "repository".toList, entry.2.policy.text, entry.2.scope.text]

/-- A cell that is one word. -/
def Cell (cell : Text) : Prop := cell ≠ [] ∧ ∀ c ∈ cell, Text.isWhitespace c = false

theorem cell_of_all {cell : Text} (hne : cell ≠ [])
    (h : cell.all (fun c => !Text.isWhitespace c) = true) : Cell cell :=
  ⟨hne, fun c hc => by simpa using List.all_eq_true.1 h c hc⟩

theorem words_bordered {row : List Text} (h : ∀ cell ∈ row, Cell cell) :
    Text.words (row.flatMap (' ' :: ·) ++ [' ', '│']) = row ++ [['│']] := by
  induction row with
  | nil => decide
  | cons cell row ih =>
    obtain ⟨⟨hne, hcell⟩, hrow⟩ := List.forall_mem_cons.1 h
    obtain ⟨rest, hrest⟩ : ∃ rest, row.flatMap (' ' :: ·) ++ [' ', '│'] = ' ' :: rest := by
      rcases row with _ | ⟨next, row⟩ <;> exact ⟨_, rfl⟩
    have hspace : Text.isWhitespace ' ' = true := by decide
    have hskip : ∀ t, Text.words (' ' :: t) = Text.words t :=
      fun t => Text.words_append hspace [] t
    rw [List.flatMap_cons, List.append_assoc, hrest, List.cons_append, hskip,
      Text.words_append hspace, Text.words_word hne hcell, List.singleton_append, List.cons_append,
      ← ih hrow, hrest, hskip]

theorem base58_notWhitespace {c : Char} (h : isBase58Character c = true) :
    Text.isWhitespace c = false := by
  simp only [isBase58Character, Bool.or_eq_true, Bool.and_eq_true, decide_eq_true_eq, Char.le_def,
    UInt32.le_iff_toNat_le] at h
  simp only [Text.isWhitespace, decide_eq_false_iff_not, ← Char.toNat_val]
  simp only [Char.reduceVal, UInt32.reduceToNat] at h
  omega

theorem rid_cell (rid : Rid) : Cell rid.1.toList := by
  obtain ⟨id, h⟩ := rid
  unfold isCanonicalRid at h
  split at h
  case h_1 => cases h
  case h_2 payload hpayload =>
    rw [Text.stripPrefix_eq_some] at hpayload
    simp only [Bool.and_eq_true, List.all_eq_true] at h
    rw [← hpayload]
    refine ⟨by simp [radPrefix], fun c hc => ?_⟩
    rcases List.mem_append.1 hc with hc | hc
    · exact (cell_of_all (by decide) (by decide) : Cell radPrefix.toList).2 c hc
    · exact base58_notWhitespace (h.2 c hc)

theorem cells_headings : ∀ cell ∈ headings, Cell cell := by
  simp only [headings, List.mem_cons, List.not_mem_nil, or_false, forall_eq_or_imp, forall_eq]
  exact ⟨cell_of_all (by decide) (by decide), cell_of_all (by decide) (by decide),
    cell_of_all (by decide) (by decide), cell_of_all (by decide) (by decide)⟩

theorem cells_cell (entry : Sigma fun _ : Rid => Entry) : ∀ cell ∈ cells entry, Cell cell := by
  obtain ⟨rid, policy, scope⟩ := entry
  simp only [cells, List.mem_cons, List.not_mem_nil, or_false, forall_eq_or_imp, forall_eq]
  refine ⟨rid_cell rid, cell_of_all (by decide) (by decide), ?_, ?_⟩
  · cases policy <;> exact cell_of_all (by decide) (by decide)
  · cases scope <;> exact cell_of_all (by decide) (by decide)

theorem trim_bordered (row : List Text) : Text.trim (bordered row) = bordered row := by
  have hstart : Text.trimStart (bordered row) = bordered row :=
    List.dropWhile_cons_of_neg (by decide)
  rw [Text.trim, hstart, Text.trimEnd, List.rdropWhile_eq_self_iff]
  intro hne
  have hlast : (bordered row).getLast hne = '│' := by simp [bordered]
  rw [hlast]
  decide

theorem stripPrefix_bordered (row : List Text) :
    Text.stripPrefix ['│'] (Text.trimStart (bordered row))
      = some (row.flatMap (' ' :: ·) ++ [' ', '│']) := by
  rw [Text.trimStart, bordered, List.cons_append, List.dropWhile_cons_of_neg (by decide)]
  exact Text.stripPrefix_append ['│'] _

theorem tableRows_bordered (rows : List (List Text)) : tableRows (rows.map bordered)
    = rows.map fun row => row.flatMap (' ' :: ·) ++ [' ', '│'] := by
  rw [tableRows, List.filterMap_map]
  exact List.filterMap_eq_map' ▸ List.filterMap_congr fun row _ => stripPrefix_bordered row

theorem bordered_line {row : List Text} (h : ∀ cell ∈ row, Cell cell) :
    '\n' ∉ bordered row ∧ (bordered row).getLast? ≠ some '\r' := by
  constructor
  · intro hmem
    rcases List.mem_append.1 hmem with hmem | hmem
    · rcases List.mem_cons.1 hmem with heq | hmem
      · exact absurd heq (by decide)
      · obtain ⟨cell, hcell, hmem⟩ := List.mem_flatMap.1 hmem
        rcases List.mem_cons.1 hmem with heq | hmem
        · exact absurd heq (by decide)
        · exact absurd ((h cell hcell).2 _ hmem) (by decide)
    · exact absurd hmem (by decide)
  · rw [bordered, List.getLast?_append_of_ne_nil _ (by simp)]
    decide

theorem exists_lists (store : Store) : ∃ text, Lists store text := by
  by_cases hstore : store.entries = []
  · exact ⟨"No seeding policies to show.\n", .empty hstore ⟨_, List.mem_cons_self, by decide⟩⟩
  · have hcells : ∀ row ∈ headings :: store.entries.map cells, ∀ cell ∈ row, Cell cell := by
      intro row hrow
      rcases List.mem_cons.1 hrow with rfl | hrow
      · exact cells_headings
      · obtain ⟨entry, -, rfl⟩ := List.mem_map.1 hrow
        exact cells_cell entry
    let lines := (headings :: store.entries.map cells).map bordered
    have hlines : Text.lines (String.ofList (lines.flatMap (· ++ ['\n']))).toList = lines := by
      rw [String.toList_ofList]
      refine Text.lines_flatMap fun line hline => ?_
      obtain ⟨row, hrow, rfl⟩ := List.mem_map.1 hline
      exact bordered_line (hcells row hrow)
    let header := headings.flatMap (' ' :: ·) ++ [' ', '│']
    let rows := store.entries.map fun entry => (cells entry).flatMap (' ' :: ·) ++ [' ', '│']
    refine ⟨String.ofList (lines.flatMap (· ++ ['\n'])), @Lists.table _ _ header rows
      _ hstore ?_ ?_ ?_ (.refl _) ?_⟩
    · rw [hlines]
      intro line hline
      obtain ⟨row, hrow, rfl⟩ := List.mem_map.1 hline
      rw [trim_bordered]
      exact fun h => absurd (List.cons.inj h).1 (by decide)
    · rw [hlines, tableRows_bordered, List.map_cons, List.map_map]
      rfl
    · rw [words_bordered (hcells headings List.mem_cons_self)]
      rfl
    · rw [List.forall₂_map_right_iff, List.forall₂_same]
      intro entry hentry
      rw [EntryRow, words_bordered (cells_cell entry)]
      exact ⟨["repository".toList], rfl⟩

end Table

end OnixCore.PolicyReconciler
