import OnixCore.HxOil.Proofs.BulkPlans

/-!
# What bulk operations replace

The planner follows a link to ask whether a destination exists, so a dangling link passes. Each call
then does what the system does with such a link: `symlink` and `create_dir` refuse it, `rename`
replaces it, and `fs::copy` makes the file it leads to. `bulk_adds_iff`: a run only adds entries
exactly when none of its items comes upon such a link with a call the system accepts.
-/

namespace OnixCore.HxOil

open FileTree Text

variable {t t' now next : FileTree} {session : Session} {document : ManifestDocument}
  {kind : BulkKind} {given : BulkTarget} {plan : BulkPlan} {item : BulkItem} {p : Place}

section Steps

/-- All that changes is beneath the destination, where nothing had that name, or was taken away from
the source by a move. -/
def BulkItem.AddsOnly (kind : BulkKind) (item : BulkItem) (t t' : FileTree) : Prop :=
  ∀ q, t'.node q = t.node q
    ∨ (∃ p, t.openDir item.targetRoot = .ok p ∧ t.node (item.name :: p) = none
      ∧ item.name :: p <:+ q)
    ∨ kind = .move ∧ t'.node q = none ∧ ∃ s p, t.openDir item.sourceRoot = .ok s
      ∧ t.openDir item.targetRoot = .ok p ∧ item.name :: s <:+ q ∧ ¬ item.name :: s <:+ p

/-- The item makes its destination a new entry of the target directory, and replaces nothing. -/
def BulkItem.MakesNew (kind : BulkKind) (item : BulkItem) (t : FileTree)
    (result : FileTree × Except Stop Unit) : Prop :=
  item.AddsOnly kind t result.1
    ∧ (result.2 = .ok () →
      ∃ p, t.openDir item.targetRoot = .ok p ∧ t.node (item.name :: p) = none)

/-- Nothing has the name of the destination, or the call comes to nothing: a link is always refused,
a move finds nothing to move or a directory, a copy finds a directory, nothing it can read, or
nowhere it can write. -/
def BulkItem.Unobstructed (kind : BulkKind) (item : BulkItem) (t : FileTree) : Prop :=
  ∀ p, t.openDir item.targetRoot = .ok p → t.node (item.name :: p) = none ∨
    match kind with
    | .symlink => True
    | .relativeSymlink => True
    | .move => ∀ x, t.symlinkMetadata item.sourceRoot item.name = .ok x → x = .dir
    | .copy => (∀ x, t.symlinkMetadata item.sourceRoot item.name = .ok x → x = .dir)
      ∨ (∀ read, t.readFile item.source ≠ .ok read)
      ∨ ∀ n q, t.resolveNew item.destination = .ok (n :: q) →
        t.node (n :: q) = some .dir ∨ legalComponent n = false

theorem BulkItem.MakesNew.unchanged {stop : Stop} : item.MakesNew kind t (t, .error stop) :=
  ⟨fun _ => .inl rfl, nofun⟩

theorem BulkItem.MakesNew.called {message : String} {r : Except PathError FileTree}
    (h : ∀ t', r = .ok t' → item.AddsOnly kind t t'
      ∧ ∃ p, t.openDir item.targetRoot = .ok p ∧ t.node (item.name :: p) = none) :
    item.MakesNew kind t (called t message r) := by
  rcases r with e | t'
  · exact .unchanged
  · exact ⟨(h t' rfl).1, fun _ => (h t' rfl).2⟩

theorem ok_of_called {message : String} {r : Except PathError FileTree}
    (h : (called t message r).2 = .ok ()) : ∃ t', r = .ok t' := by
  rcases r with e | t'
  · cases h
  · exact ⟨t', rfl⟩

/-- What is changed at and beneath a free destination only is added. -/
theorem BulkItem.addsOnly_of_outside (hp : t.openDir item.targetRoot = .ok p)
    (hfree : t.node (item.name :: p) = none)
    (h : ∀ q, ¬ item.name :: p <:+ q → t'.node q = t.node q) : item.AddsOnly kind t t' := by
  intro q
  by_cases hq : item.name :: p <:+ q
  · exact .inr (.inl ⟨p, hp, hfree, hq⟩)
  · exact .inl (h q hq)

theorem BulkItem.makesNew_link {fuel : ℕ} (hkind : kind = .symlink ∨ kind = .relativeSymlink) :
    item.MakesNew kind t (executeBulkItem fuel kind item t) := by
  have hlink : item.MakesNew kind t (executeBulkItem.linkItem t item) := by
    unfold executeBulkItem.linkItem
    rcases item.linkText with _ | text
    · exact .unchanged
    · refine .called fun t' ht' => ?_
      unfold symlink at ht'
      split_ifs at ht'
      obtain ⟨p, hp, hfree, -, hwrites⟩ := writes_create ht'
      exact ⟨addsOnly_of_outside hp hfree fun q hq =>
        hwrites.node_other fun heq => hq (heq ▸ List.suffix_refl _), p, hp, hfree⟩
  rcases hkind with rfl | rfl <;> exact hlink

/-- What stands at the destination at most, as far as the planner sees. -/
def BulkItem.FreeOrLink (item : BulkItem) (t : FileTree) : Prop :=
  ∀ p, t.openDir item.targetRoot = .ok p →
    t.node (item.name :: p) = none ∨ ∃ text, t.node (item.name :: p) = some (.link text)

theorem BulkItem.makesNew_move {fuel : ℕ} (hlink : item.FreeOrLink t)
    (h : item.Unobstructed .move t) :
    item.MakesNew .move t (executeBulkItem fuel .move item t) := by
  refine .called fun t' ht' => ?_
  obtain ⟨s, p, x, hs, hp, hx, hmove⟩ := rename_eq_ok.1 ht'
  have hmeta := symlinkMetadata_eq_ok.2 ⟨s, hs, hx⟩
  have hfree : t.node (item.name :: p) = none := by
    rcases hlink p hp with hnone | ⟨text, htext⟩
    · exact hnone
    · refine (h p hp).resolve_right fun hdir => ?_
      cases hdir x hmeta
      rcases hmove with ⟨heq, -⟩ | ⟨-, -, hreplaces, -⟩
      · rw [← heq, hx] at htext
        cases htext
      · simp [replaces, htext] at hreplaces
  rcases hmove with ⟨heq, -⟩ | ⟨happart, hlegal, hreplaces, rfl⟩
  · rw [← heq, hx] at hfree
    cases hfree
  · have hmovable := movable_of_rename (openDir_eq_ok.1 hp).2 hx happart hlegal hreplaces
    refine ⟨fun q => ?_, p, hp, hfree⟩
    by_cases hq : item.name :: p <:+ q
    · exact .inr (.inl ⟨p, hp, hfree, hq⟩)
    · by_cases hsq : item.name :: s <:+ q
      · refine .inr (.inr ⟨rfl, ?_, s, p, hs, hp, hsq, fun hsp => ?_⟩)
        · rw [node_move_other hmovable hq, if_pos hsq]
        · exact happart (hsp.trans (List.suffix_cons _ _))
      · rw [node_move_other hmovable hq, if_neg hsq]
        exact .inl rfl

theorem BulkItem.makesNew_copy {fuel : ℕ} (hname : Ordinary item.name)
    (h : item.Unobstructed .copy t) :
    item.MakesNew .copy t (executeBulkItem fuel .copy item t) := by
  by_cases hfree : ∃ p, t.openDir item.targetRoot = .ok p ∧ t.node (item.name :: p) = none
  · obtain ⟨p, hp, hnone⟩ := hfree
    exact ⟨addsOnly_of_outside hp hnone (copyPath_outside hp hnone hname), fun _ => ⟨p, hp, hnone⟩⟩
  · have hmake : ∀ t', t.createDir item.targetRoot item.name ≠ .ok t' := by
      intro t' hmade
      obtain ⟨p, hp, hnone, -⟩ := writes_create hmade
      exact hfree ⟨p, hp, hnone⟩
    have hcopy : ∀ x t', t.symlinkMetadata item.sourceRoot item.name = .ok x → x ≠ .dir →
        t.copyFile item.source item.destination ≠ .ok t' := by
      intro x t' hmeta hdir hcopied
      obtain ⟨s, bytes, n, q, hread, hnew, hnode, hlegal, -⟩ := copyFile_eq_ok.1 hcopied
      obtain ⟨p, hp⟩ := openDir_of_append hnew
      rcases (h p hp).resolve_left fun hnone => hfree ⟨p, hp, hnone⟩ with hsource | hread' | hnew'
      · exact hdir (hsource x hmeta)
      · exact hread' _ hread
      · rcases hnew' n q hnew with hnode' | hlegal'
        · exact hnode hnode'
        · rw [hlegal] at hlegal'
          cases hlegal'
    obtain ⟨stop, hstop⟩ := copyPath_refused hmake hcopy
    have hresult : executeBulkItem fuel .copy item t = (t, .error stop) := hstop
    rw [hresult]
    exact .unchanged

theorem BulkItem.unobstructed_move {fuel : ℕ} (hlink : item.FreeOrLink t)
    (h : item.MakesNew .move t (executeBulkItem fuel .move item t)) :
    item.Unobstructed .move t := by
  intro p hp
  rcases hlink p hp with hnone | ⟨text, htext⟩
  · exact .inl hnone
  · refine .inr fun x hmeta => ?_
    obtain ⟨s, hs, hx⟩ := symlinkMetadata_eq_ok.1 hmeta
    by_contra hdir
    have hmoves : ∃ t', t.rename item.sourceRoot item.name item.targetRoot item.name = .ok t' := by
      by_cases heq : item.name :: s = item.name :: p
      · exact ⟨t, rename_eq_ok.2 ⟨s, p, x, hs, hp, hx, .inl ⟨heq, rfl⟩⟩⟩
      · have happart : ¬ item.name :: s <:+ item.name :: p := by
          intro hsuffix
          have hdir' := dir_of_suffix (by rw [htext]; rfl) hsuffix heq
          rw [hx, Option.some.injEq] at hdir'
          exact hdir hdir'
        refine ⟨_, rename_eq_ok.2 ⟨s, p, x, hs, hp, hx, .inr ⟨happart, ?_, ?_, rfl⟩⟩⟩
        · exact legal_of_node (by rw [htext]; rfl)
        · cases x with
          | file bytes => simp [replaces, htext]
          | link text' => simp [replaces, htext]
          | dir => exact absurd rfl hdir
    obtain ⟨t', ht'⟩ := hmoves
    obtain ⟨p', hp', hfree⟩ := h.2 (by simp only [executeBulkItem, ht', called])
    obtain rfl := Except.ok.inj (hp.symm.trans hp')
    rw [htext] at hfree
    cases hfree

theorem BulkItem.unobstructed_copy {fuel : ℕ}
    (h : item.MakesNew .copy t (executeBulkItem (fuel + 1) .copy item t)) :
    item.Unobstructed .copy t := by
  intro p hp
  by_contra hno
  simp only [not_or, not_forall, not_not, exists_prop] at hno
  obtain ⟨hsome, ⟨x, hmeta, hdir⟩, ⟨read, hread⟩, n, q, hnew, hnode, hlegal⟩ := hno
  have hcopy : t.copyFile item.source item.destination
      = .ok (t.put n q (.file (if read.1 = n :: q then [] else read.2))) :=
    copyFile_eq_ok.2 ⟨read.1, read.2, n, q, hread, hnew, hnode, by simpa using hlegal, rfl⟩
  have hok : executeBulkItem (fuel + 1) .copy item t = (_, .ok ()) :=
    copyPath_file_ok hmeta hdir hcopy
  obtain ⟨p', hp', hfree⟩ := h.2 (congrArg Prod.snd hok)
  obtain rfl := Except.ok.inj (hp.symm.trans hp')
  exact hsome hfree

theorem BulkItem.makesNew_of_unobstructed {fuel : ℕ} (hname : Ordinary item.name)
    (hlink : item.FreeOrLink t) (h : item.Unobstructed kind t) :
    item.MakesNew kind t (executeBulkItem fuel kind item t) := by
  cases kind with
  | copy => exact makesNew_copy hname h
  | move => exact makesNew_move hlink h
  | symlink => exact makesNew_link (.inl rfl)
  | relativeSymlink => exact makesNew_link (.inr rfl)

theorem BulkItem.unobstructed_of_makesNew {fuel : ℕ} (hlink : item.FreeOrLink t)
    (h : item.MakesNew kind t (executeBulkItem (fuel + 1) kind item t)) :
    item.Unobstructed kind t := by
  cases kind with
  | copy => exact unobstructed_copy h
  | move => exact unobstructed_move hlink h
  | symlink => exact fun p hp => .inr trivial
  | relativeSymlink => exact fun p hp => .inr trivial

end Steps

section Runs

/-- After the items in `done`, all that changed since `t` is beneath their destinations, where
nothing had those names, or was taken away from their sources by moves. -/
def Added (kind : BulkKind) (p : Place) (done : List BulkItem) (t now : FileTree) : Prop :=
  ∀ q, now.node q = t.node q
    ∨ (∃ item ∈ done, t.node (item.name :: p) = none ∧ item.name :: p <:+ q)
    ∨ kind = .move ∧ now.node q = none
      ∧ ∃ item ∈ done, ∃ s, item.name :: s <:+ q ∧ ¬ item.name :: s <:+ p

theorem Added.mono {done more : List BulkItem} (h : Added kind p done t now) (hmore : done <+: more) :
    Added kind p more t now := by
  intro q
  rcases h q with hsame | ⟨item, hitem, hfree⟩ | ⟨hkind, hgone, item, hitem, hs⟩
  · exact .inl hsame
  · exact .inr (.inl ⟨item, hmore.subset hitem, hfree⟩)
  · exact .inr (.inr ⟨hkind, hgone, item, hmore.subset hitem, hs⟩)

theorem Added.keeps {done : List BulkItem} (h : Added kind p done t now) : Keeps t now := by
  intro q x hq
  rcases h q with hsame | ⟨item, -, hfree, hsuffix⟩ | ⟨-, hgone, -⟩
  · exact .inr ⟨x, hsame.trans hq, .refl x⟩
  · rw [node_eq_none_of_suffix hfree hsuffix] at hq
    cases hq
  · exact .inl hgone

/-- What an item is to find at its destination is as it was: no item before it has its name. -/
theorem Added.destination {done : List BulkItem} {n : String} (h : Added kind p done t now)
    (hnew : ∀ item ∈ done, item.name ≠ n) : now.node (n :: p) = t.node (n :: p) := by
  rcases h (n :: p) with hsame | ⟨item, hitem, -, hsuffix⟩ | ⟨-, -, item, hitem, s, hsuffix, happart⟩
  · exact hsame
  · rcases List.suffix_cons_iff.1 hsuffix with heq | hp
    · exact absurd (List.cons.inj heq).1 (hnew item hitem)
    · exact absurd hp cons_not_suffix
  · rcases List.suffix_cons_iff.1 hsuffix with heq | hp
    · exact absurd (List.cons.inj heq).1 (hnew item hitem)
    · exact absurd hp happart

theorem Added.openDir {done : List BulkItem} {path : Path} {p' : Place}
    (h : Added kind p done t now) (hp : t.openDir path = .ok p) (hp' : now.openDir path = .ok p') :
    p' = p := by
  rcases openDir_stable h.keeps hp with hstable | ⟨e, herror⟩
  · exact Except.ok.inj (hp'.symm.trans hstable)
  · rw [hp'] at herror
    cases herror

theorem Added.step {done : List BulkItem} (h : Added kind p done t now)
    (hp : t.openDir item.targetRoot = .ok p) (hnew : ∀ i ∈ done, i.name ≠ item.name)
    (hadds : item.AddsOnly kind now next) : Added kind p (done ++ [item]) t next := by
  intro q
  rcases hadds q with hsame | ⟨p', hp', hfree, hsuffix⟩ | ⟨hkind, hgone, s, p', -, hp', hsq, hsp⟩
  · rw [hsame]
    exact h.mono (List.prefix_append _ _) q
  · obtain rfl := h.openDir hp hp'
    rw [h.destination hnew] at hfree
    exact .inr (.inl ⟨item, by simp, hfree, hsuffix⟩)
  · obtain rfl := h.openDir hp hp'
    exact .inr (.inr ⟨hkind, hgone, item, by simp, s, hsq, hsp⟩)

/-- The names a document gives its entries are ordinary ones. -/
theorem ordinary_of_validate {name : String} {entryKind : EntryKind} {lineNumber : ℕ}
    (h : validateEntryName name entryKind lineNumber = .ok ()) : Ordinary name := by
  simp only [validateEntryName, bind_eq_ok, ensure_eq_ok] at h
  obtain ⟨-, hempty, -, -, -, -, -, ⟨hdot, hup⟩, -⟩ := h
  exact ⟨not_or.2 ⟨hempty, hdot⟩, hup⟩

/-- The items of an accepted plan have ordinary names, and at most a link at their destination. -/
theorem BulkPlan.Accepted.of_mem {sourceRoot : Path}
    (haccepted : plan.Accepted t sourceRoot ((markedIn document).map (·.relativePath)))
    (hentries : validateDocumentEntries document = .ok ()) (hitem : item ∈ plan.items) :
    Ordinary item.name ∧ item.FreeOrLink t := by
  have hname : Ordinary item.name := by
    have hmem := List.mem_map_of_mem (f := fun i : BulkItem => i.name) hitem
    rw [haccepted.names] at hmem
    obtain ⟨e, he, heq⟩ := List.mem_map.1 hmem
    have hvalid := (names_of_validate hentries).1 e (List.mem_of_mem_filter he)
    rw [heq] at hvalid
    exact ordinary_of_validate hvalid
  refine ⟨hname, fun p hp => ?_⟩
  obtain ⟨hresolve, hdir⟩ := openDir_eq_ok.1 hp
  rcases hx : t.node (item.name :: p) with _ | x
  · exact .inl rfl
  · have hmissing := haccepted.missing item hitem (item.name :: p)
    cases x with
    | link text => exact .inr ⟨text, rfl⟩
    | file bytes => exact absurd ((resolve_child hresolve hdir hname).1 _ hx nofun) hmissing
    | dir => exact absurd ((resolve_child hresolve hdir hname).1 _ hx nofun) hmissing

/-- The state an item of a plan is executed in. -/
def BulkPlan.Reaches (plan : BulkPlan) (t : FileTree) (fuel : ℕ) (before : List BulkItem)
    (item : BulkItem) (now : FileTree) : Prop :=
  (∃ after, plan.items = before ++ item :: after)
    ∧ runEach (executeBulkItem fuel plan.kind) before t = (now, .ok ())

/-- A run only adds entries: each item does, and so do all together. -/
def BulkPlan.OnlyAdds (plan : BulkPlan) (t : FileTree) : Prop :=
  (∀ fuel before item now, plan.Reaches t fuel before item now →
      item.MakesNew plan.kind now (executeBulkItem fuel plan.kind item now))
    ∧ ∀ p, t.openDir plan.targetRoot = .ok p →
      ∀ fuel, Added plan.kind p plan.items t (executeBulkPlan fuel plan t).1

theorem BulkPlan.Reaches.done {fuel : ℕ} {before : List BulkItem}
    (h : plan.Reaches t fuel before item now) : before <+: plan.items := by
  obtain ⟨⟨after, hitems⟩, -⟩ := h
  exact ⟨_, hitems.symm⟩

theorem BulkPlan.Reaches.mem {fuel : ℕ} {before : List BulkItem}
    (h : plan.Reaches t fuel before item now) : item ∈ plan.items := by
  obtain ⟨⟨after, hitems⟩, -⟩ := h
  rw [hitems]
  simp

theorem BulkPlan.Reaches.succ {fuel : ℕ} {before : List BulkItem}
    (h : plan.Reaches t fuel before item now) : plan.Reaches t (fuel + 1) before item now := by
  refine ⟨h.1, runEach_congr_ok (fun i _ s s' hstep => ?_) h.2⟩
  rcases hkind : plan.kind with _ | _ | _ | _ <;> rw [hkind] at hstep
  · exact copyPath_succ hstep
  · exact hstep
  · exact hstep
  · exact hstep

section Accepted

variable {sourceRoot : Path} {written : List String} {fuel : ℕ}

/-- No item before another one has its name. -/
theorem BulkPlan.Accepted.fresh {before after : List BulkItem}
    (haccepted : plan.Accepted t sourceRoot written)
    (hitems : plan.items = before ++ item :: after) : ∀ i ∈ before, i.name ≠ item.name := by
  have hnodup := haccepted.nodup
  rw [← haccepted.names, hitems, List.map_append, List.map_cons] at hnodup
  intro i hi heq
  exact not_mem_of_nodup hnodup (heq ▸ List.mem_map_of_mem hi)

/-- What each item adds, the run adds, as far as it comes. -/
theorem BulkPlan.Accepted.added (haccepted : plan.Accepted t sourceRoot written)
    (hp : t.openDir plan.targetRoot = .ok p)
    (hstep : ∀ before item now, plan.Reaches t fuel before item now →
      Added plan.kind p before t now →
      item.AddsOnly plan.kind now (executeBulkItem fuel plan.kind item now).1)
    {items : List BulkItem} (hitems : items <+: plan.items) :
    Added plan.kind p items t (runEach (executeBulkItem fuel plan.kind) items t).1 := by
  obtain ⟨rest, hrest⟩ := hitems
  have hnext : ∀ before item after now, items = before ++ item :: after →
      runEach (executeBulkItem fuel plan.kind) before t = (now, .ok ()) →
      Added plan.kind p before t now →
      Added plan.kind p (before ++ [item]) t (executeBulkItem fuel plan.kind item now).1 := by
    intro before item after now heq hrun hadded
    have hplan : plan.items = before ++ item :: (after ++ rest) := by
      rw [← hrest, heq]
      simp
    have hroot := (haccepted.roots item (by rw [hplan]; simp)).2
    refine hadded.step (hroot ▸ hp) (haccepted.fresh hplan) ?_
    exact hstep before item now ⟨⟨_, hplan⟩, hrun⟩ hadded
  obtain ⟨done, hdone, hadded⟩ := runEach_upto hnext fun q => .inl rfl
  exact hadded.mono hdone

/-- Before each item there is at its destination what there was at the start. -/
theorem BulkPlan.Accepted.freeOrLink {before : List BulkItem}
    (haccepted : plan.Accepted t sourceRoot written) (hp : t.openDir plan.targetRoot = .ok p)
    (hlink : item.FreeOrLink t) (hreach : plan.Reaches t fuel before item now)
    (hadded : Added plan.kind p before t now) : item.FreeOrLink now := by
  have hroot := (haccepted.roots item hreach.mem).2
  obtain ⟨⟨after, hitems⟩, -⟩ := hreach
  intro p' hp'
  rw [← hroot] at hp
  obtain rfl := hadded.openDir hp hp'
  rw [hadded.destination (haccepted.fresh hitems)]
  exact hlink p' hp

end Accepted

/-- An accepted operation only adds entries exactly where nothing stands in the way of its items
when their turns come. -/
theorem bulk_adds_iff (hentries : validateDocumentEntries document = .ok ())
    (hplan : buildBulkPlan t session document kind given = .ok plan) :
    plan.OnlyAdds t ↔ ∀ fuel before item now, plan.Reaches t fuel before item now →
      item.Unobstructed plan.kind now := by
  obtain ⟨-, sourceRoot, haccepted⟩ := buildBulkPlan_inv hplan
  obtain ⟨p, hp⟩ := haccepted.target
  have hitem : ∀ {fuel before item now}, plan.Reaches t fuel before item now →
      Ordinary item.name ∧ item.FreeOrLink t :=
    fun hreach => haccepted.of_mem hentries hreach.mem
  constructor
  · intro h fuel before item now hreach
    have hadded := haccepted.added hp (fun before item now hreach _ => (h.1 fuel _ _ _ hreach).1)
      hreach.done
    rw [hreach.2] at hadded
    exact BulkItem.unobstructed_of_makesNew
      (haccepted.freeOrLink hp (hitem hreach).2 hreach hadded) (h.1 _ _ _ _ hreach.succ)
  · intro h
    have hmakes : ∀ fuel before item now, plan.Reaches t fuel before item now →
        Added plan.kind p before t now →
        item.MakesNew plan.kind now (executeBulkItem fuel plan.kind item now) :=
      fun fuel before item now hreach hadded => BulkItem.makesNew_of_unobstructed (hitem hreach).1
        (haccepted.freeOrLink hp (hitem hreach).2 hreach hadded) (h _ _ _ _ hreach)
    have hadded : ∀ fuel {items : List BulkItem}, items <+: plan.items →
        Added plan.kind p items t (runEach (executeBulkItem fuel plan.kind) items t).1 :=
      fun fuel items hitems => haccepted.added hp
        (fun before item now hreach hadded => (hmakes fuel _ _ _ hreach hadded).1) hitems
    refine ⟨fun fuel before item now hreach => hmakes fuel before item now hreach ?_, ?_⟩
    · have hbefore := hadded fuel hreach.done
      rwa [hreach.2] at hbefore
    · intro p' hp' fuel
      obtain rfl := Except.ok.inj (hp.symm.trans hp')
      exact hadded fuel (List.prefix_refl _)

theorem copyAside_adds : copyAside.OnlyAdds twoDirectories := by
  have hplan : buildBulkPlan twoDirectories rootSession markedDirectory .copy
      ⟨some "/b".toList, none, none, none⟩ = .ok copyAside := by rfl
  refine (bulk_adds_iff (by rfl) hplan).2 ?_
  rintro fuel before item now ⟨⟨after, hitems⟩, hrun⟩ p hp
  rcases before with _ | ⟨i, before⟩
  · obtain ⟨rfl, -⟩ := List.cons.inj hitems
    cases hrun
    cases hp
    exact .inl (by rfl)
  · simp [copyAside] at hitems

/-- A link in the target directory leads to nothing, and has the name of a marked file. -/
def danglingLink : FileTree :=
  (((bare.put "src" [] .dir).put "n" ["src"] (.file [1])).put "dst" [] .dir).put "n" ["dst"]
    (.link ⟨false, ["..", "victim"]⟩)

def sourceSession : Session :=
  ⟨⟨sidecarVersion, "/src".toList, 0, 2, [⟨1, 0, "n", .file, 0, 1⟩], []⟩, []⟩

def markedFile : ManifestDocument := ⟨"/src".toList, [.entry ⟨"n", .file, 4, .marked, .root⟩]⟩

def overLink (kind : BulkKind) : BulkPlan := ⟨kind, ["dst"], [⟨.file, "n", ["src"], ["dst"], none⟩]⟩

theorem danglingLink_overwritten :
    (buildBulkPlan danglingLink sourceSession markedFile .copy ⟨some "/dst".toList, none, none, none⟩
        = .ok (overLink .copy)
      ∧ danglingLink.node ["victim"] = none
      ∧ (executeBulkPlan 1 (overLink .copy) danglingLink).1.node ["victim"] = some (.file [1])
      ∧ ¬ (overLink .copy).OnlyAdds danglingLink)
    ∧ buildBulkPlan danglingLink sourceSession markedFile .move ⟨some "/dst".toList, none, none, none⟩
        = .ok (overLink .move)
      ∧ (executeBulkPlan 0 (overLink .move) danglingLink).1.node ["n", "dst"] = some (.file [1])
      ∧ ¬ (overLink .move).OnlyAdds danglingLink := by
  have hlink : danglingLink.openDir ["dst"] = .ok ["dst"]
      ∧ danglingLink.node ["n", "dst"] = some (.link ⟨false, ["..", "victim"]⟩) := ⟨by rfl, by rfl⟩
  have hno : ∀ kind, (executeBulkPlan 1 (overLink kind) danglingLink).2 = .ok () →
      ¬ (overLink kind).OnlyAdds danglingLink := by
    intro kind hok h
    obtain ⟨now, hitem, -⟩ := runEach_cons_inv (Prod.ext rfl hok)
    obtain ⟨p, hp, hfree⟩ := (h.1 1 [] _ danglingLink ⟨⟨[], rfl⟩, rfl⟩).2 (congrArg Prod.snd hitem)
    obtain rfl := Except.ok.inj (hlink.1.symm.trans hp)
    rw [hlink.2] at hfree
    cases hfree
  exact ⟨⟨by rfl, by rfl, by rfl, hno _ (by rfl)⟩, by rfl, by rfl, hno _ (by rfl)⟩

end Runs

end OnixCore.HxOil
