import OnixCore.RadicleCi.Exchange

/-!
# Files in the queues

What the helpers of the commands do to the queues when nothing else touches them. A file is
written under a name of its own first, so `writeFile` needs that name to be free. A program that
`Asks` changes nothing.
-/

namespace OnixCore.RadicleCi

theorem temporaryName_ne (pid : ℕ) (name : String) : temporaryName pid name ≠ name := by
  intro h
  have hlength := congrArg String.length h
  simp only [temporaryName, String.length_append] at hlength
  have htmp : ".tmp-".length = 5 := by decide
  omega

/-- Changes only the queues. -/
def Exchange.withQueues (w : Exchange) (queues : Spool Queue) : Exchange := { w with queues }

/-! One equation for each action, so that a step of a program is one rewriting. -/

section Perform

variable {w : Exchange} {q : Queue} {p source target : ExchangePath} {bytes : Bytes}
  {name oid file revisionId message rid searchPath : String}

theorem exchangePerform_pathExists (told) : exchangePerform w (.pathExists p) told
    = ((w.queues.find p).isSome, w) := rfl

theorem exchangePerform_isDir (told) : exchangePerform w (.isDir p) told
    = ((w.queues.find p).any Entry.isDir, w) := rfl

theorem exchangePerform_createDir (told) : exchangePerform w (.createDir q name) told
    = w.change (w.queues.createDir q name) := rfl

theorem exchangePerform_createNew (told) : exchangePerform w (.createNew p) told
    = w.change (w.queues.createNew p) := rfl

theorem exchangePerform_write (told) : exchangePerform w (.write p bytes) told
    = w.change (w.queues.write p bytes) := rfl

theorem exchangePerform_rename (told) : exchangePerform w (.rename source target) told
    = w.change (w.queues.rename source target) := rfl

theorem exchangePerform_openDir (told) : exchangePerform w (.openDir q name) told
    = (w.queues.openDir q name, w) := rfl

theorem exchangePerform_unlink (told) : exchangePerform w (.unlink p) told
    = w.change (w.queues.unlink p) := rfl

theorem exchangePerform_removeDir (told) : exchangePerform w (.removeDir q name) told
    = w.change (w.queues.removeDir q name) := rfl

theorem exchangePerform_parseRid (told) : exchangePerform w .parseRid told = (told, w) := rfl

theorem exchangePerform_openRepository (told) : exchangePerform w .openRepository told = (told, w) := rfl

theorem exchangePerform_delegates (told) : exchangePerform w .delegates told = (told, w) := rfl

theorem exchangePerform_head (told) : exchangePerform w .head told = (told, w) := rfl

theorem exchangePerform_openPatches (told) : exchangePerform w .openPatches told = (told, w) := rfl

theorem exchangePerform_proposed (told) : exchangePerform w .proposed told = (told, w) := rfl

theorem exchangePerform_gitCatFile (told) : exchangePerform w (.gitCatFile oid) told = (told, w) := rfl

theorem exchangePerform_gitShow (told) : exchangePerform w (.gitShow oid file) told = (told, w) := rfl

theorem exchangePerform_radComment (told) :
    exchangePerform w (.radComment revisionId message rid searchPath) told
      = (told, if told.2 || succeeded told.1 then
        { w with comments := (revisionId, message) :: w.comments } else w) := rfl

end Perform

section Runs

variable {host : ExchangeHost} {w : Exchange} {q : Queue} {n f : String} {files : Names Bytes}
  {pid : ℕ} {bytes : Bytes} {α β : Type}

@[simp] theorem withQueues_queues (w : Exchange) (s : Spool Queue) :
    (w.withQueues s).queues = s := rfl

@[simp] theorem withQueues_withQueues (w : Exchange) (s t : Spool Queue) :
    (w.withQueues s).withQueues t = w.withQueues t := rfl

@[simp] theorem change_ok (w : Exchange) (s : Spool Queue) :
    w.change (.ok s) = (.ok (), w.withQueues s) := rfl

@[simp] theorem change_error (w : Exchange) (e : IoError) :
    w.change (.error e) = (.error e, w) := rfl

@[simp] theorem runAlone_done (a : α) : runAlone host (.done a) w = (w, .ok a) := rfl

@[simp] theorem runAlone_fail (e : String) :
    runAlone host (.fail e : ExchangeProg α) w = (w, .error e) := rfl

theorem runAlone_act_bind (i : ExchangeAction) (k : ExchangeAnswer i → ExchangeProg α) :
    runAlone host (ExchangeProg.act i >>= k) w
      = runAlone host (k (exchangePerform w i (host i)).1) (exchangePerform w i (host i)).2 := rfl

@[simp] theorem shellIo_ok (context : String) (a : α) : shellIo context (.ok a) = .done a := rfl

@[simp] theorem shellText_ok (context : String) (a : α) : shellText context (.ok a) = .done a := rfl

theorem runAlone_bind_ok {p : ExchangeProg α} {k : α → ExchangeProg β} {a : α} {w' : Exchange}
    (h : runAlone host p w = (w', .ok a)) :
    runAlone host (p >>= k) w = runAlone host (k a) w' :=
  Prog.eval_bind_ok h

theorem runAlone_bind_error {p : ExchangeProg α} {k : α → ExchangeProg β} {e : String}
    {w' : Exchange} (h : runAlone host p w = (w', .error e)) :
    runAlone host (p >>= k) w = (w', .error e) :=
  Prog.eval_bind_error h

theorem runAlone_createDirectory_there (hdir : w.queues.get q n = some (.dir files)) :
    runAlone host (createDirectory q n) w = (w, .ok ()) := by
  unfold createDirectory
  rw [runAlone_act_bind]
  simp only [exchangePerform_pathExists, Spool.find_entry, hdir, Option.isSome_some, if_true]
  rw [runAlone_act_bind]
  simp [exchangePerform_isDir, hdir, Entry.isDir]

theorem runAlone_createDirectory_new (hnew : w.queues.get q n = none) :
    runAlone host (createDirectory q n) w
      = (w.withQueues (w.queues.put q n (some (.dir ∅))), .ok ()) := by
  have hcreate : w.queues.createDir q n = .ok (w.queues.put q n (some (.dir ∅))) := by
    simp only [Spool.createDir, hnew]
  unfold createDirectory
  rw [runAlone_act_bind]
  simp only [exchangePerform_pathExists, Spool.find_entry, hnew, Option.isSome_none]
  rw [if_neg (by simp), runAlone_act_bind]
  simp [exchangePerform_createDir, hcreate]

theorem runAlone_writeFile_inside (hdir : w.queues.get q n = some (.dir files))
    (hnew : files.lookup (temporaryName pid f) = none) :
    runAlone host (writeFile pid (.inside q n f) bytes) w
      = (w.withQueues (w.queues.put q n (some (.dir (files.assign f (some bytes))))), .ok ()) := by
  have hcreate := Spool.createNew_inside hdir hnew
  unfold writeFile
  simp only [createParent, temporaryPath]
  generalize htmp : temporaryName pid f = t at *
  have hne : t ≠ f := htmp ▸ temporaryName_ne pid f
  have hget : ∀ files', (w.queues.put q n (some (.dir files'))).get q n = some (.dir files') := by
    simp
  rw [runAlone_bind_ok (runAlone_createDirectory_there hdir), runAlone_act_bind]
  simp only [exchangePerform_createNew, hcreate, change_ok, shellIo_ok, Prog.done_bind]
  rw [runAlone_act_bind]
  simp only [exchangePerform_write, withQueues_queues, Spool.write_inside (hget _)
    (Names.lookup_assign_self _ _ _), change_ok, shellIo_ok, Prog.done_bind]
  rw [runAlone_act_bind]
  simp only [exchangePerform_rename, withQueues_queues, Spool.put_put, Names.assign_assign,
    Spool.rename_inside (hget _) (Names.lookup_assign_self _ _ _) hne, change_ok, shellIo_ok,
    withQueues_withQueues, Names.assign_none hnew, runAlone_done]

theorem runAlone_writeFile_entry (hnew : w.queues.get q (temporaryName pid n) = none)
    (hfree : w.queues.get q n = none) :
    runAlone host (writeFile pid (.entry q n) bytes) w
      = (w.withQueues (w.queues.put q n (some (.file bytes))), .ok ()) := by
  have hcreate := Spool.createNew_entry hnew
  unfold writeFile
  simp only [createParent, temporaryPath, Prog.done_bind]
  generalize htmp : temporaryName pid n = t at *
  have hne : t ≠ n := htmp ▸ temporaryName_ne pid n
  have hget : ∀ b, (w.queues.put q t (some (.file b))).get q t = some (.file b) := by simp
  have htarget : (w.queues.put q t (some (.file bytes))).get q n = none := by simp [hne.symm, hfree]
  rw [runAlone_act_bind]
  simp only [exchangePerform_createNew, hcreate, change_ok, shellIo_ok, Prog.done_bind]
  rw [runAlone_act_bind]
  simp only [exchangePerform_write, withQueues_queues, Spool.write_entry (hget _), Spool.put_put,
    change_ok, shellIo_ok, Prog.done_bind]
  rw [runAlone_act_bind]
  simp only [exchangePerform_rename, withQueues_queues,
    Spool.rename_entry _ _ (hget bytes) (fun h => hne h.2) (by rw [htarget]; rfl), Spool.put_put,
    Spool.put_none hnew, change_ok, shellIo_ok, withQueues_withQueues, runAlone_done]

variable (host bytes) in
/-- A file that another writer left under the temporary name stops the next one. -/
theorem runAlone_writeFile_taken {e : Entry}
    (htaken : w.queues.get q (temporaryName pid n) = some e) :
    ∃ text, runAlone host (writeFile pid (.entry q n) bytes) w = (w, .error text) := by
  unfold writeFile
  simp only [createParent, temporaryPath, Prog.done_bind]
  rw [runAlone_act_bind]
  simp only [exchangePerform_createNew, Spool.createNew_taken htaken, change_error]
  exact ⟨_, rfl⟩

/-- Unlinks each file of a directory and then removes it. -/
theorem runAlone_unlinkAll : ∀ (l : List String) {files : Names Bytes} {w : Exchange},
    w.queues.get q n = some (.dir files) → files.keys = l →
    runAlone host (unlinkAll q n l) w = (w.withQueues (w.queues.put q n none), .ok (.ok ()))
  | [], files, w, hdir, hkeys => by
    have hempty : files.entries = [] := List.map_eq_nil_iff.1 hkeys
    have hremove : w.queues.removeDir q n = .ok (w.queues.put q n none) := by
      simp only [Spool.removeDir, hdir, hempty, if_true]
    unfold unlinkAll
    rw [runAlone_act_bind]
    simp only [exchangePerform_removeDir, hremove, change_ok]
    rfl
  | f :: l, files, w, hdir, hkeys => by
    obtain ⟨bytes, hfile⟩ := Names.mem_keys_iff.1 (hkeys ▸ List.mem_cons_self : f ∈ files.keys)
    have hrest : (files.assign f none).keys = l := by
      rw [Names.assign, AList.keys_erase, hkeys, List.erase_cons_head]
    unfold unlinkAll
    rw [runAlone_act_bind]
    simp only [exchangePerform_unlink, Spool.unlink_inside hdir hfile, change_ok]
    rw [runAlone_unlinkAll l (by simp) hrest]
    simp only [withQueues_queues, withQueues_withQueues, Spool.put_put]

theorem runAlone_removeDirAll (hdir : w.queues.get q n = some (.dir files)) :
    runAlone host (removeDirAll q n) w
      = (w.withQueues (w.queues.put q n none), .ok (.ok ())) := by
  have hopen : w.queues.openDir q n = .ok files.keys := by simp only [Spool.openDir, hdir]
  unfold removeDirAll
  rw [runAlone_act_bind]
  simp only [exchangePerform_openDir, hopen]
  exact runAlone_unlinkAll _ hdir rfl

variable (host) in
theorem runAlone_clearDirectory_file (context : String)
    (hfile : w.queues.get q n = some (.file bytes)) :
    ∃ text, runAlone host (clearDirectory q n context) w = (w, .error text) := by
  have hopen : w.queues.openDir q n = .error .notADirectory := by simp only [Spool.openDir, hfile]
  have hremove : runAlone host (removeDirAll q n) w = (w, .ok (.error .notADirectory)) := by
    unfold removeDirAll
    rw [runAlone_act_bind]
    simp only [exchangePerform_openDir, hopen]
    rfl
  unfold clearDirectory
  rw [runAlone_act_bind]
  simp only [exchangePerform_pathExists, Spool.find_entry, hfile, Option.isSome_some, if_true]
  rw [runAlone_bind_ok hremove]
  exact ⟨_, rfl⟩

/-- What is not a file is cleared away. -/
theorem runAlone_clearDirectory {context : String}
    (hfile : ∀ bytes, w.queues.get q n ≠ some (.file bytes)) :
    runAlone host (clearDirectory q n context) w
      = (w.withQueues (w.queues.put q n none), .ok ()) := by
  unfold clearDirectory
  rw [runAlone_act_bind]
  rcases hget : w.queues.get q n with _ | bytes | files
  · simp only [exchangePerform_pathExists, Spool.find_entry, hget, Option.isSome_none, Spool.put_none hget]
    rfl
  · exact absurd hget (hfile bytes)
  · simp only [exchangePerform_pathExists, Spool.find_entry, hget, Option.isSome_some, if_true]
    rw [runAlone_bind_ok (runAlone_removeDirAll hget)]
    rfl

end Runs

section Asks

variable {host : ExchangeHost} {w : Exchange} {α β : Type}

/-- Alone, the program changes nothing, and returns what `P` holds of. -/
def Asks (host : ExchangeHost) (w : Exchange) (p : ExchangeProg α) (P : α → Prop) : Prop :=
  ∃ r, runAlone host p w = (w, r) ∧ ∀ a, r = .ok a ↔ P a

theorem Asks.bind {p : ExchangeProg α} {k : α → ExchangeProg β} {P : α → Prop}
    {Q : α → β → Prop} (hp : Asks host w p P) (hk : ∀ a, P a → Asks host w (k a) (Q a)) :
    Asks host w (p >>= k) fun b => ∃ a, P a ∧ Q a b := by
  obtain ⟨e | a, hrun, hr⟩ := hp
  · refine ⟨.error e, runAlone_bind_error hrun, fun b => ⟨nofun, ?_⟩⟩
    rintro ⟨a, ha, -⟩
    exact nomatch (hr a).2 ha
  · obtain ⟨r', hrun', hr'⟩ := hk a ((hr a).1 rfl)
    refine ⟨r', (runAlone_bind_ok hrun).trans hrun', fun b => (hr' b).trans ⟨?_, ?_⟩⟩
    · exact fun h => ⟨a, (hr a).1 rfl, h⟩
    · rintro ⟨a', ha', h⟩
      cases (hr a').2 ha'
      exact h

theorem Asks.mono {p : ExchangeProg α} {P Q : α → Prop} (h : Asks host w p P)
    (hPQ : ∀ a, P a ↔ Q a) : Asks host w p Q := by
  obtain ⟨r, hrun, hr⟩ := h
  exact ⟨r, hrun, fun a => (hr a).trans (hPQ a)⟩

/-- A program that only asks fails where nothing has `P`, and else hands on what it returns. -/
theorem Asks.then_run {p : ExchangeProg α} {P : α → Prop} (h : Asks host w p P)
    (k : α → ExchangeProg β) :
    (∃ e, runAlone host (p >>= k) w = (w, .error e) ∧ ∀ a, ¬ P a)
      ∨ ∃ a, P a ∧ runAlone host (p >>= k) w = runAlone host (k a) w := by
  obtain ⟨e | a, hrun, hr⟩ := h
  · exact .inl ⟨e, runAlone_bind_error hrun, fun a ha => nomatch (hr a).2 ha⟩
  · exact .inr ⟨a, (hr a).1 rfl, runAlone_bind_ok hrun⟩

theorem asks_done (a : α) : Asks host w (.done a) (· = a) :=
  ⟨.ok a, rfl, fun b => by rw [Except.ok.injEq, eq_comm]⟩

theorem asks_check {c : Prop} [Decidable c] {e : String} :
    Asks host w (Prog.check c e) fun _ => c := by
  by_cases h : c
  · rw [Prog.check_pos h]
    exact ⟨.ok (), rfl, fun _ => ⟨fun _ => h, fun _ => rfl⟩⟩
  · rw [Prog.check_neg h]
    exact ⟨.error e, rfl, fun _ => ⟨nofun, fun hc => absurd hc h⟩⟩

theorem asks_runBounded (r : Except String ExecutionOutput) :
    Asks host w (runBounded r) (r = .ok ·) := by
  cases r with
  | ok output => exact (asks_done output).mono fun a => by rw [Except.ok.injEq, eq_comm]
  | error e => exact ⟨.error _, rfl, fun _ => ⟨nofun, nofun⟩⟩

theorem asks_read (p : ExchangePath) :
    Asks host w (ExchangeProg.act (.read p)) (· = w.queues.read p) :=
  ⟨.ok (w.queues.read p), rfl, fun b => by rw [Except.ok.injEq, eq_comm]⟩

theorem asks_shellIo (context : String) (r : Except IoError α) :
    Asks host w (shellIo context r) (r = .ok ·) := by
  cases r with
  | ok a => exact (asks_done a).mono fun a => by rw [Except.ok.injEq, eq_comm]
  | error e => exact ⟨.error _, rfl, fun _ => ⟨nofun, nofun⟩⟩

theorem asks_ofExcept (x : Except String α) : Asks host w (Prog.ofExcept x) (x = .ok ·) := by
  cases x with
  | ok a => exact (asks_done a).mono fun a => by rw [Except.ok.injEq, eq_comm]
  | error e => exact ⟨.error _, rfl, fun _ => ⟨nofun, nofun⟩⟩

end Asks

end OnixCore.RadicleCi
