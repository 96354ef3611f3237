import OnixCore.PolicyReconciler.Proofs.Listing

/-!
# The commands of a plan

One run of `rad` is followed through, then the listing, then a list of commands. What commands make
of the policies is a fold (`requestedAll`); for those of a plan it is known for each repository
(`lookup_planned`).
-/

namespace OnixCore.PolicyReconciler

open Prog

/-- The commands of a plan, in the order `apply` runs them. -/
def commands (plan : Plan) : List (List String) :=
  plan.remove.map unseedCommand ++ plan.add.map seedCommand

def issued {σ : Type} (log : List (Event (List String) (fun _ => Reply) σ)) : List (List String) :=
  log.map Event.action

variable {rad : String} {store final : Store} {desired : Finset String}
  {log : List (Event (List String) (fun _ => Reply) Store)}

theorem issued_append {σ : Type} (log log' : List (Event (List String) (fun _ => Reply) σ)) :
    issued (log ++ log') = issued log ++ issued log' := List.map_append

theorem works_responds {arguments : List String} {reply : Reply}
    (h : Works store arguments reply final) : Responds store arguments reply final := h.1

theorem run_issued {effect : Store → List String → Reply → Store → Prop} {arguments : List String}
    {q : Rad Output} (h : Executes effect (run rad arguments) store log q final) :
    issued log <+: [arguments] := by
  rcases h with _ | ⟨first, rest⟩
  · exact List.nil_prefix
  · rename_i reply _ _
    rcases reply with error | ⟨_ | _, stdout, stderr⟩
    · obtain ⟨rfl, -, -⟩ := rest.of_fail
      exact List.prefix_refl _
    · obtain ⟨rfl, -, -⟩ := rest.of_fail
      exact List.prefix_refl _
    · obtain ⟨rfl, -, -⟩ := rest.of_done
      exact List.prefix_refl _

theorem run_done_issued {effect : Store → List String → Reply → Store → Prop}
    {arguments : List String} {output : Output}
    (h : Executes effect (run rad arguments) store log (.done output) final) :
    issued log = [arguments] := by
  rcases h with _ | ⟨first, rest⟩
  rename_i reply _ _
  rcases reply with error | ⟨_ | _, stdout, stderr⟩
  · exact nomatch rest.of_fail.2.1
  · exact nomatch rest.of_fail.2.1
  · obtain ⟨rfl, -, -⟩ := rest.of_done
    rfl

theorem run_done {arguments : List String} {output : Output}
    (h : Executes Responds (run rad arguments) store log (.done output) final) :
    issued log = [arguments] ∧ requested arguments store = some final
      ∧ (arguments = ["seed"] → ∀ text, output.stdout = .ok text → Lists store text) := by
  rcases h with _ | ⟨first, rest⟩
  rename_i reply _ _
  rcases reply with error | ⟨_ | _, stdout, stderr⟩
  · exact nomatch rest.of_fail.2.1
  · exact nomatch rest.of_fail.2.1
  · obtain ⟨rfl, heq, rfl⟩ := rest.of_done
    obtain rfl := Prog.done.inj heq
    exact ⟨rfl, first⟩

/-- Where `rad` works a command is not stopped by an error. -/
theorem run_works {arguments : List String} {q : Rad Output}
    (h : Executes Works (run rad arguments) store log q final) (hq : q.ended) :
    ∃ text, q = .done ⟨true, .ok text, ""⟩ := by
  rcases h with _ | ⟨first, rest⟩
  · exact absurd hq id
  · obtain ⟨-, text, rfl⟩ := first
    exact ⟨text, rest.of_done.2.1⟩

theorem exists_run (rad : String) {arguments : List String} {text : String}
    (hrequested : requested arguments store = some final)
    (hlists : arguments = ["seed"] → Lists store text) :
    ∃ log, Executes Works (run rad arguments) store log (.done ⟨true, .ok text, ""⟩) final := by
  have hworks : Works store arguments (.ok ⟨true, .ok text, ""⟩) final :=
    ⟨⟨hrequested, fun h _ heq => Except.ok.inj heq ▸ hlists h⟩, text, rfl⟩
  exact ⟨_, .act hworks (.stop _ _)⟩

theorem list_issued {effect : Store → List String → Reply → Store → Prop}
    {q : Rad (Finset String)} (h : Executes effect (list rad) store log q final) :
    issued log <+: [["seed"]] := by
  rcases h.bind_inv with ⟨_, hrun, -⟩ | ⟨output, log₁, log₂, mid, rfl, hrun, hrest⟩
  · exact run_issued hrun
  · have hnil : log₂ = [] := by
      split_ifs at hrest
      · exact hrest.of_fail.1
      · rcases hstdout : output.stdout with error | stdout <;> rw [hstdout] at hrest
        · exact hrest.of_fail.1
        · rcases hset : policySet stdout with error | policies <;> simp only [hset] at hrest
          · exact hrest.of_fail.1
          · exact hrest.of_done.1
    rw [hnil, List.append_nil]
    exact run_issued hrun

theorem list_done {current : Finset String}
    (h : Executes Responds (list rad) store log (.done current) final) :
    issued log = [["seed"]] ∧ final = store ∧ current = ids store := by
  obtain ⟨output, log₁, log₂, mid, rfl, hrun, hrest⟩ := h.bind_done
  obtain ⟨hissued, hrequested, hlists⟩ := run_done hrun
  obtain rfl : store = mid := Option.some.inj hrequested
  split_ifs at hrest
  · exact nomatch hrest.of_fail.2.1
  · rcases hstdout : output.stdout with error | stdout <;> rw [hstdout] at hrest
    · exact nomatch hrest.of_fail.2.1
    · simp only [policySet_eq_ok (hlists rfl stdout hstdout), ofExcept_ok] at hrest
      obtain ⟨rfl, heq, rfl⟩ := hrest.of_done
      exact ⟨by rw [issued_append, hissued]; rfl, rfl, Prog.done.inj heq⟩

theorem list_eq_of_silent {output : Output} {text : String} (hstderr : output.stderr = "")
    (hstdout : output.stdout = .ok text) (hlists : Lists store text) :
    (if trimmed output.stderr ≠ "" then
        fail ("rad seed emitted diagnostics: " ++ trimmed output.stderr)
      else
        match output.stdout with
        | .error error => fail ("rad seed output was not UTF-8: " ++ error)
        | .ok stdout => ofExcept (policySet stdout) : Rad (Finset String)) = .done (ids store) := by
  rw [hstderr, if_neg (by decide), hstdout]
  simp only [policySet_eq_ok hlists, ofExcept_ok]

theorem list_works {q : Rad (Finset String)}
    (h : Executes Works (list rad) store log q final) (hq : q.ended) : q = .done (ids store) := by
  rcases h.bind_ended hq with ⟨e, hrun, rfl⟩ | ⟨output, log₁, log₂, mid, rfl, hrun, hrest⟩
  · obtain ⟨text, heq⟩ := run_works hrun trivial
    exact nomatch heq
  · obtain ⟨text, heq⟩ := run_works hrun trivial
    obtain rfl := Prog.done.inj heq
    obtain ⟨-, -, hlists⟩ := run_done (hrun.mono fun _ _ _ _ => works_responds)
    rw [list_eq_of_silent rfl rfl (hlists rfl text rfl)] at hrest
    exact hrest.of_done.2.1

theorem exists_list (rad : String) (store : Store) :
    ∃ log, Executes Works (list rad) store log (.done (ids store)) store := by
  obtain ⟨text, htext⟩ := exists_lists store
  obtain ⟨log, hlog⟩ := exists_run rad rfl fun _ : ["seed"] = ["seed"] => htext
  refine ⟨log ++ [], hlog.bind ?_⟩
  rw [list_eq_of_silent rfl rfl htext]
  exact .stop _ _

/-- Runs the commands one after the other. -/
def runAll (rad : String) (arguments : List (List String)) : Rad Unit :=
  arguments.forM fun command => do
    let _ ← run rad command

theorem runAll_cons {command : List String} {rest : List (List String)} :
    runAll rad (command :: rest)
      = (run rad command >>= fun _ => pure ()) >>= fun _ => runAll rad rest := rfl

theorem runAll_append : ∀ (cs cs' : List (List String)),
    runAll rad (cs ++ cs') = runAll rad cs >>= fun _ => runAll rad cs'
  | [], _ => rfl
  | command :: rest, cs' => by
    rw [List.cons_append, runAll_cons, runAll_cons, runAll_append rest, bind_assoc,
      bind_assoc, bind_assoc]

theorem forM_eq_runAll {command : String → List String} : ∀ {rids : List String},
    (rids.forM fun rid => do
      let _ ← run rad (command rid)) = runAll rad (rids.map command)
  | [] => rfl
  | rid :: rids => by
    rw [List.map_cons, runAll_cons, ← forM_eq_runAll]
    rfl

theorem apply_eq {plan : Plan} : apply rad plan = runAll rad (commands plan) := by
  rw [apply, forM_eq_runAll, forM_eq_runAll, commands, runAll_append]

theorem runAll_issued {effect : Store → List String → Reply → Store → Prop} {q : Rad Unit} :
    ∀ {cs : List (List String)} {store : Store} {log : List (Event (List String) (fun _ => Reply) Store)},
      Executes effect (runAll rad cs) store log q final → issued log <+: cs
  | [], _, _, h => by
    rw [h.of_done.1]
    exact List.nil_prefix
  | command :: rest, _, _, h => by
    rw [runAll_cons, bind_assoc] at h
    rcases h.bind_inv with ⟨_, hrun, -⟩ | ⟨_, log₁, log₂, mid, rfl, hrun, hrest⟩
    · exact (run_issued hrun).trans (List.prefix_append [command] rest)
    · rw [issued_append, run_done_issued hrun, List.singleton_append]
      exact (List.prefix_cons_inj command).2 (runAll_issued hrest)

/-- What the commands make of the policies, one after the other. -/
def requestedAll (cs : List (List String)) (store : Store) : Option Store :=
  cs.foldlM (fun store command => requested command store) store

theorem requestedAll_cons {command : List String} {rest : List (List String)} :
    requestedAll (command :: rest) store = some final
      ↔ ∃ mid, requested command store = some mid ∧ requestedAll rest mid = some final := by
  rw [requestedAll, List.foldlM_cons]
  exact Option.bind_eq_some_iff

theorem requestedAll_append {cs cs' : List (List String)} :
    requestedAll (cs ++ cs') store = some final
      ↔ ∃ mid, requestedAll cs store = some mid ∧ requestedAll cs' mid = some final := by
  rw [requestedAll, List.foldlM_append]
  exact Option.bind_eq_some_iff

theorem runAll_done : ∀ {cs : List (List String)} {store : Store}
    {log : List (Event (List String) (fun _ => Reply) Store)},
    Executes Responds (runAll rad cs) store log (.done ()) final →
      issued log = cs ∧ requestedAll cs store = some final
  | [], _, _, h => by
    obtain ⟨rfl, -, rfl⟩ := h.of_done
    exact ⟨rfl, rfl⟩
  | command :: rest, _, _, h => by
    rw [runAll_cons, bind_assoc] at h
    obtain ⟨_, log₁, log₂, mid, rfl, hrun, hrest⟩ := h.bind_done
    obtain ⟨hissued, hrequested, -⟩ := run_done hrun
    obtain ⟨hissued', hfold⟩ := runAll_done hrest
    rw [issued_append, hissued, hissued']
    exact ⟨rfl, requestedAll_cons.2 ⟨mid, hrequested, hfold⟩⟩

theorem runAll_works {q : Rad Unit} (hq : q.ended) : ∀ {cs : List (List String)} {store : Store}
    {log : List (Event (List String) (fun _ => Reply) Store)},
    Executes Works (runAll rad cs) store log q final → q = .done ()
  | [], _, _, h => h.of_done.2.1
  | command :: rest, _, _, h => by
    rw [runAll_cons, bind_assoc] at h
    rcases h.bind_ended hq with ⟨e, hrun, rfl⟩ | ⟨_, log₁, log₂, mid, rfl, -, hrest⟩
    · obtain ⟨text, heq⟩ := run_works hrun trivial
      exact nomatch heq
    · exact runAll_works hq hrest

theorem exists_runAll (rad : String) : ∀ {cs : List (List String)} {store : Store}, (∀ c ∈ cs, c ≠ ["seed"]) →
    requestedAll cs store = some final →
      ∃ log, Executes Works (runAll rad cs) store log (.done ()) final
  | [], store, _, h => by
    obtain rfl := Option.some.inj h
    exact ⟨[], .stop _ _⟩
  | command :: rest, store, hne, h => by
    obtain ⟨mid, hmid, hrest⟩ := requestedAll_cons.1 h
    obtain ⟨log₁, h₁⟩ := @exists_run _ _ rad _ "" hmid fun heq =>
      absurd heq (hne command List.mem_cons_self)
    obtain ⟨log₂, h₂⟩ := exists_runAll rad (fun c hc => hne c (List.mem_cons_of_mem _ hc)) hrest
    exact ⟨log₁ ++ log₂, by rw [runAll_cons, bind_assoc]; exact h₁.bind h₂⟩

theorem requested_unseed {id : String} : requested (unseedCommand id) store = some final
    ↔ ∃ h, final = store.erase ⟨id, h⟩ := by
  simp only [requested, unseedCommand]
  split_ifs with h <;> simp [h, eq_comm]

theorem requested_seed {id : String} : requested (seedCommand id) store = some final
    ↔ ∃ h, final = store.insert ⟨id, h⟩ ⟨.allow, .all⟩ := by
  simp only [requested, seedCommand, scope]
  split_ifs with h <;> simp [h, eq_comm]

theorem lookup_unseeded {rid : Rid} : ∀ {rids : List String} {store : Store},
    requestedAll (rids.map unseedCommand) store = some final →
      final.lookup rid = if rid.1 ∈ rids then none else store.lookup rid
  | [], _, h => by
    obtain rfl := Option.some.inj h
    simp
  | id :: rids, store, h => by
    obtain ⟨mid, hmid, hrest⟩ := requestedAll_cons.1 h
    obtain ⟨hid, rfl⟩ := requested_unseed.1 hmid
    rw [lookup_unseeded hrest]
    by_cases hrid : rid.1 = id
    · obtain rfl : rid = ⟨id, hid⟩ := Subtype.ext hrid
      simp
    · have hne : rid ≠ ⟨id, hid⟩ := fun h => hrid (congrArg Subtype.val h)
      simp [hrid, AList.lookup_erase_ne hne]

theorem lookup_seeded {rid : Rid} : ∀ {rids : List String} {store : Store},
    requestedAll (rids.map seedCommand) store = some final →
      final.lookup rid = if rid.1 ∈ rids then some ⟨.allow, .all⟩ else store.lookup rid
  | [], _, h => by
    obtain rfl := Option.some.inj h
    simp
  | id :: rids, store, h => by
    obtain ⟨mid, hmid, hrest⟩ := requestedAll_cons.1 h
    obtain ⟨hid, rfl⟩ := requested_seed.1 hmid
    rw [lookup_seeded hrest]
    by_cases hrid : rid.1 = id
    · obtain rfl : rid = ⟨id, hid⟩ := Subtype.ext hrid
      simp
    · have hne : rid ≠ ⟨id, hid⟩ := fun h => hrid (congrArg Subtype.val h)
      simp [hrid, AList.lookup_insert_ne hne]

theorem mem_ids_iff_lookup (rid : Rid) : rid.1 ∈ ids store ↔ (store.lookup rid).isSome := by
  rw [mem_ids, AList.lookup_isSome]
  exact ⟨fun ⟨_, h⟩ => h, fun h => ⟨rid.2, h⟩⟩

/-- What a plan makes of the policies: a desired repository keeps its entry, or gets a new one. -/
theorem lookup_planned {rid : Rid}
    (h : requestedAll (commands (reconcilePlan (ids store) desired)) store = some final) :
    final.lookup rid
      = if rid.1 ∈ desired then some ((store.lookup rid).getD ⟨.allow, .all⟩) else none := by
  obtain ⟨mid, hremove, hadd⟩ := requestedAll_append.1 h
  rw [lookup_seeded hadd, lookup_unseeded hremove]
  simp only [reconcilePlan, Finset.mem_sort, Finset.mem_sdiff, mem_ids_iff_lookup]
  rcases store.lookup rid with _ | entry <;> by_cases hrid : rid.1 ∈ desired <;> simp [hrid]

theorem canonical_of_seeded : ∀ {rids : List String} {store : Store},
    requestedAll (rids.map seedCommand) store = some final →
      ∀ id ∈ rids, isCanonicalRid id = true
  | [], _, _ => List.forall_mem_nil _
  | id :: rids, store, h => by
    obtain ⟨mid, hmid, hrest⟩ := requestedAll_cons.1 h
    exact List.forall_mem_cons.2 ⟨(requested_seed.1 hmid).1, canonical_of_seeded hrest⟩

theorem ids_planned
    (h : requestedAll (commands (reconcilePlan (ids store) desired)) store = some final) :
    ids final = desired := by
  have hcanonical : ∀ id ∈ desired, isCanonicalRid id = true := by
    intro id hid
    by_cases hknown : id ∈ ids store
    · exact (mem_ids.1 hknown).1
    · obtain ⟨mid, -, hadd⟩ := requestedAll_append.1 h
      exact canonical_of_seeded hadd id (by simp [reconcilePlan, hid, hknown])
  ext id
  by_cases hid : isCanonicalRid id = true
  · rw [mem_ids_iff_lookup ⟨id, hid⟩, lookup_planned h]
    by_cases hdesired : id ∈ desired <;> simp [hdesired]
  · exact iff_of_false (fun h => hid (mem_ids.1 h).1) fun h => hid (hcanonical id h)

theorem exists_unseeded : ∀ (rids : List String) (store : Store),
    (∀ id ∈ rids, isCanonicalRid id = true) →
      ∃ final, requestedAll (rids.map unseedCommand) store = some final
  | [], store, _ => ⟨store, rfl⟩
  | id :: rids, store, h => by
    obtain ⟨hid, hrids⟩ := List.forall_mem_cons.1 h
    obtain ⟨final, hfinal⟩ := exists_unseeded rids (store.erase ⟨id, hid⟩) hrids
    exact ⟨final, requestedAll_cons.2 ⟨_, requested_unseed.2 ⟨hid, rfl⟩, hfinal⟩⟩

theorem exists_seeded : ∀ (rids : List String) (store : Store),
    (∀ id ∈ rids, isCanonicalRid id = true) →
      ∃ final, requestedAll (rids.map seedCommand) store = some final
  | [], store, _ => ⟨store, rfl⟩
  | id :: rids, store, h => by
    obtain ⟨hid, hrids⟩ := List.forall_mem_cons.1 h
    obtain ⟨final, hfinal⟩ := exists_seeded rids (store.insert ⟨id, hid⟩ ⟨.allow, .all⟩) hrids
    exact ⟨final, requestedAll_cons.2 ⟨_, requested_seed.2 ⟨hid, rfl⟩, hfinal⟩⟩

theorem exists_planned (store : Store) (hdesired : ∀ id ∈ desired, isCanonicalRid id = true) :
    ∃ final, requestedAll (commands (reconcilePlan (ids store) desired)) store = some final := by
  obtain ⟨mid, hmid⟩ := exists_unseeded (reconcilePlan (ids store) desired).remove store
    fun id hid => by
      simp only [reconcilePlan, Finset.mem_sort, Finset.mem_sdiff] at hid
      exact (mem_ids.1 hid.1).1
  obtain ⟨final, hfinal⟩ := exists_seeded (reconcilePlan (ids store) desired).add mid
    fun id hid => by
      simp only [reconcilePlan, Finset.mem_sort, Finset.mem_sdiff] at hid
      exact hdesired id hid.1
  exact ⟨final, requestedAll_append.2 ⟨mid, hmid, hfinal⟩⟩

section Plan

variable {current : Finset String}

theorem commands_nodup : (commands (reconcilePlan current desired)).Nodup := by
  have hunseed : Function.Injective unseedCommand := fun _ _ h => by simpa [unseedCommand] using h
  have hseed : Function.Injective seedCommand := fun _ _ h => by simpa [seedCommand] using h
  rw [commands, List.nodup_append]
  refine ⟨(Finset.sort_nodup _ _).map hunseed, (Finset.sort_nodup _ _).map hseed, ?_⟩
  intro command hremove command' hadd heq
  obtain ⟨id, -, rfl⟩ := List.mem_map.1 hremove
  obtain ⟨id', -, rfl⟩ := List.mem_map.1 hadd
  exact absurd (congrArg List.length heq) (by simp [unseedCommand, seedCommand])

theorem length_commands :
    (commands (reconcilePlan current desired)).length = (symmDiff current desired).card := by
  have hdisjoint : Disjoint (current \ desired) (desired \ current) :=
    disjoint_sdiff_sdiff
  rw [commands, List.length_append, List.length_map, List.length_map, reconcilePlan,
    Finset.length_sort, Finset.length_sort, symmDiff_def, Finset.sup_eq_union,
    Finset.card_union_of_disjoint hdisjoint]

theorem ne_unseedCommand {command : List String}
    (h : command ∈ commands (reconcilePlan current desired)) :
    ∀ id ∈ desired, command ≠ unseedCommand id := by
  rintro id hid rfl
  rcases List.mem_append.1 h with h | h <;> obtain ⟨other, hother, heq⟩ := List.mem_map.1 h
  · obtain rfl : other = id := by simpa [unseedCommand] using heq
    simp [reconcilePlan, hid] at hother
  · exact absurd (congrArg List.length heq) (by simp [unseedCommand, seedCommand])

end Plan

end OnixCore.PolicyReconciler
