import OnixCore.BackupJob.Proofs.Track

/-!
# Runs of the backup job

Two things are shown of the job: the states of a fair run keep track of the units, and a cleanup that
comes to its end has tried to start every marked unit exactly when no command failed on the way to it
(`backup_keeps_track`). A run that is killed while a unit is down is not followed by a fair one
(`backup_loses_track`).
-/

namespace OnixCore.BackupJob

open Prog

section Cleanup

/-- The commands of `cleanupBackup` after its tests. -/
def cleanupCommands (was : Service → Bool) : List Command :=
  [.run ("rm -rf " ++ stagingRoot ++ " " ++ manifestRoot)]
    ++ (if was .node then [.start .node] else [])
    ++ (if was .httpd then [.startReconcile, .start .httpd] else [])
    ++ (if was .policyTimer then [.start .policyTimer] else []) ++ [.removeRuntimeState]

/-- The commands that `cleanupBackup` has to get past before it starts the unit. -/
def Before (service : Service) : Command → Prop
  | .testMarker other => other = service
  | .run _ => True
  | .start .node => service ≠ .node
  | .startReconcile => service ≠ .node
  | .start .httpd => service = .policyTimer
  | _ => False

variable {host host' : Host} {log : List (Event Command (fun _ => Answer) Host)}

theorem uses_forM_sh {P : Command → Prop} : ∀ {cs : List Command}, (∀ command ∈ cs, P command) →
    (cs.forM sh).Uses P
  | [], _ => trivial
  | command :: cs, h => by
    obtain ⟨hcommand, hcs⟩ := List.forall_mem_cons.1 h
    refine uses_bind (uses_bind (uses_act.2 hcommand) fun answer => ?_) fun _ => uses_forM_sh hcs
    split <;> trivial

/-- A command of a script is run exactly when none of those in front of it fails. -/
theorem forM_sh_runs {command : Command} {later : List Command} {q : Script Unit} (hq : q.ended) :
    ∀ {earlier : List Command} {host : Host} {log : List (Event Command (fun _ => Answer) Host)},
      (earlier ++ command :: later).Nodup →
      Executes effect ((earlier ++ command :: later).forM sh) host log q host' →
        ((∃ event ∈ log, event.action = command)
          ↔ ∀ event ∈ log, event.answer.status = false → event.action ∉ earlier)
  | [], host, log, hnodup, h => by
    rcases h with _ | ⟨first, rest⟩
    · exact absurd hq id
    · exact iff_of_true ⟨_, List.mem_cons_self, rfl⟩ fun _ _ _ => List.not_mem_nil
  | other :: earlier, host, log, hnodup, h => by
    rcases h with _ | ⟨first, rest⟩
    · exact absurd hq id
    · rename_i answer host₁ log
      have hne : other ∉ earlier ++ command :: later := (List.nodup_cons.1 hnodup).1
      have hcommand : other ≠ command := fun h => hne (by simp [h])
      rcases answer with ⟨_ | _, stdout⟩
      · obtain ⟨rfl, -, -⟩ := rest.of_fail
        simp [hcommand]
      · have hactions := rest.uses (P := (· ∈ earlier ++ command :: later))
          (uses_forM_sh fun _ h => h)
        simp only [List.mem_cons, exists_eq_or_imp, hcommand, false_or, forall_eq_or_imp,
          Bool.true_eq_false, false_implies, true_and]
        rw [forM_sh_runs hq (List.nodup_cons.1 hnodup).2 rest]
        refine forall₂_congr fun event hevent => imp_congr_right fun _ => ?_
        have hother : event.action ≠ other := fun h => hne (h ▸ hactions event hevent)
        simp [hother]

theorem cleanupBackup_eq : cleanupBackup = act (.testMarker .node) >>= fun node =>
    act (.testMarker .httpd) >>= fun httpd => act (.testMarker .policyTimer) >>= fun timer =>
      (cleanupCommands (wasActive node httpd timer)).forM sh := by
  refine congrArg (_ >>= ·) (funext fun node => congrArg (_ >>= ·) (funext fun httpd =>
    congrArg (_ >>= ·) (funext fun timer => ?_)))
  rw [← bind_done (sh .removeRuntimeState)]
  rcases node with ⟨_ | _, _⟩ <;> rcases httpd with ⟨_ | _, _⟩ <;> rcases timer with ⟨_ | _, _⟩
  all_goals first | rfl | (simp only [ifThen, if_true, bind_assoc]; rfl)

theorem nodup_cleanupCommands (was : Service → Bool) : (cleanupCommands was).Nodup := by
  unfold cleanupCommands
  cases was .node <;> cases was .httpd <;> cases was .policyTimer <;> simp

/-- A unit that was seen is started, after just the commands that stand before it. -/
theorem exists_start {was : Service → Bool} {service : Service} (hwas : was service = true) :
    ∃ earlier later, cleanupCommands was = earlier ++ .start service :: later
      ∧ ∀ command ∈ cleanupCommands was, Before service command ↔ command ∈ earlier := by
  let staged : Command := .run ("rm -rf " ++ stagingRoot ++ " " ++ manifestRoot)
  let node : List Command := if was .node then [.start .node] else []
  let httpd : List Command := if was .httpd then [.startReconcile, .start .httpd] else []
  let timer : List Command := if was .policyTimer then [.start .policyTimer] else []
  cases service with
  | node =>
    refine ⟨[staged], httpd ++ timer ++ [.removeRuntimeState], ?_, ?_⟩
    · simp [cleanupCommands, hwas, staged, httpd, timer]
    · cases h : was .httpd <;> cases h' : was .policyTimer <;>
        simp [cleanupCommands, hwas, h, h', Before, staged]
  | httpd =>
    refine ⟨[staged] ++ node ++ [.startReconcile], timer ++ [.removeRuntimeState], ?_, ?_⟩
    · simp [cleanupCommands, hwas, staged, node, timer]
    · cases h : was .node <;> cases h' : was .policyTimer <;>
        simp [cleanupCommands, hwas, h, h', Before, staged, node]
  | policyTimer =>
    refine ⟨[staged] ++ node ++ httpd, [.removeRuntimeState], ?_, ?_⟩
    · simp [cleanupCommands, hwas, staged, node, httpd]
    · cases h : was .node <;> cases h' : was .httpd <;>
        simp [cleanupCommands, hwas, h, h', Before, staged, node, httpd]

theorem start_notMem {was : Service → Bool} {service : Service} (hwas : was service = false) :
    .start service ∉ cleanupCommands was := by
  cases service <;> simp [cleanupCommands, hwas]

theorem cleanup_start_iff {q : Script Unit}
    (h : Executes effect cleanupBackup host log q host') (hq : q.ended) (service : Service) :
    (∃ event ∈ log, event.action = .start service)
      ↔ ∀ event ∈ log, event.answer.status = false → ¬ Before service event.action := by
  rw [cleanupBackup_eq] at h
  rcases h with _ | ⟨first, h⟩
  · exact absurd hq id
  rename_i node _ _
  rcases h with _ | ⟨second, h⟩
  · exact absurd hq id
  rename_i httpd _ _
  rcases h with _ | ⟨third, h⟩
  · exact absurd hq id
  rename_i timer host₃ log
  simp only [List.mem_cons, exists_eq_or_imp, forall_eq_or_imp, reduceCtorEq, false_or]
  have hruns : Executes effect ((cleanupCommands (wasActive node httpd timer)).forM sh) host₃ log q
    host' := h
  have hlog := hruns.uses (P := (· ∈ cleanupCommands (wasActive node httpd timer)))
    (uses_forM_sh fun _ h => h)
  have hseen : wasActive node httpd timer service = false ↔ ¬ ((node.status = false → ¬ Before service (.testMarker .node))
      ∧ (httpd.status = false → ¬ Before service (.testMarker .httpd))
      ∧ (timer.status = false → ¬ Before service (.testMarker .policyTimer))) := by
    cases service <;> simp [Before, wasActive]
  rcases hservice : wasActive node httpd timer service with _ | _
  · refine iff_of_false ?_ fun hall => hseen.1 hservice ⟨hall.1, hall.2.1, hall.2.2.1⟩
    rintro ⟨event, hevent, hstart⟩
    exact start_notMem hservice (hstart ▸ hlog event hevent)
  · obtain ⟨earlier, later, hcommands, hbefore⟩ := exists_start hservice
    have hnodup := nodup_cleanupCommands (wasActive node httpd timer)
    rw [hcommands] at hruns hnodup
    have htests := not_not.1 fun hn => absurd (hseen.2 hn) (by simp [hservice])
    rw [forM_sh_runs hq hnodup hruns]
    have hiff : (∀ event ∈ log, event.answer.status = false → event.action ∉ earlier)
        ↔ ∀ event ∈ log, event.answer.status = false → ¬ Before service event.action :=
      forall₂_congr fun event hevent => by rw [hbefore _ (hlog event hevent)]
    rw [hiff]
    exact ⟨fun h => ⟨htests.1, htests.2.1, htests.2.2, h⟩, fun h => h.2.2.2⟩

/-- A cleanup that came to its end tried to start every marked unit exactly when no command failed
that it has to get past before. -/
theorem cleanup_tries_iff {q : Script Unit}
    (h : Executes effect cleanupBackup host log q host') (hq : q.ended) :
    (∀ service, host.marker service = true → ∃ event ∈ log, event.action = .start service)
      ↔ ∀ event ∈ log, event.answer.status = false →
        ∀ service, host.marker service = true → ¬ Before service event.action := by
  simp only [cleanup_start_iff h hq]
  exact ⟨fun h event hevent hfailed service hs => h service hs event hevent hfailed,
    fun h service hs event hevent hfailed => h event hevent hfailed service hs⟩

end Cleanup

theorem backup_keeps_track {archive : Script Unit} (harchive : archive.Uses Plain)
    (privateKey publicKey nodeConfig : String) (start : Host) :
    (∀ steps, Run (JobStep (job privateKey publicKey nodeConfig archive)) ⟨start, none⟩ steps →
        Guarded (Fair start) ⟨start, none⟩ steps →
          ∀ state ∈ visited ⟨start, none⟩ steps, KeepsTrack start state.host)
      ∧ ∀ host log q host', Executes effect cleanupBackup host log q host' → q.ended →
        ((∀ service, host.marker service = true → ∃ event ∈ log, event.action = .start service)
          ↔ ∀ event ∈ log, event.answer.status = false →
            ∀ service, host.marker service = true → ¬ Before service event.action) := by
  refine ⟨fun steps hrun hfair state hstate => ?_, fun _ _ _ _ h hq => cleanup_tries_iff h hq⟩
  have hstart : Safe start ⟨start, none⟩ := ⟨fun _ hs => .inl hs, nofun⟩
  exact (hrun.guarded_invariant (I := Safe start)
    (fun _ _ _ h hfair hstep => safe_step harchive h hfair hstep) hfair hstart state hstate).1

def borgCreate : Script Unit := sh (.run "borg create")

/-- Only the node is up, and no run has left a marker. -/
def nodeUp : Host := ⟨fun service => service == .node, fun _ => false⟩

theorem backup_keeps_track_borg : borgCreate.Uses Plain ∧
    ∀ steps, Run (JobStep (job "key" "key.pub" "config.json" borgCreate)) ⟨nodeUp, none⟩ steps →
      Guarded (Fair nodeUp) ⟨nodeUp, none⟩ steps →
        ∀ state ∈ visited ⟨nodeUp, none⟩ steps, KeepsTrack nodeUp state.host :=
  ⟨uses_sh, (@backup_keeps_track borgCreate uses_sh "key" "key.pub" "config.json" nodeUp).1⟩

section Lost

def nodeMarked : Host := ⟨fun service => service == .node, fun service => service == .node⟩

/-- The node is down, with its marker. -/
def nodeStopped : Host := ⟨fun _ => false, fun service => service == .node⟩

def nodeLost : Host := ⟨fun _ => false, fun _ => false⟩

def yes : Answer := ⟨true, ""⟩

def no : Answer := ⟨false, ""⟩

theorem run_loses_track : ∃ steps script,
    Run (JobStep (job "key" "key.pub" "config.json" borgCreate)) ⟨nodeUp, none⟩ steps
      ∧ ⟨nodeLost, script⟩ ∈ visited ⟨nodeUp, none⟩ steps := by
  have hready : effect nodeUp .installRuntimeState yes nodeUp := rfl
  have hcleared : effect nodeUp .clearRuntimeState yes nodeUp :=
    ⟨rfl, fun _ h => h, fun _ _ => rfl⟩
  have hnode : effect nodeUp (.isActive .node) yes nodeUp := ⟨rfl, by decide⟩
  have hdown : ∀ service, effect nodeMarked (.isActive service) no nodeMarked :=
    fun _ => ⟨rfl, nofun⟩
  have hstill : ∀ service, service ≠ .node → effect nodeMarked (.stop service) yes nodeMarked :=
    fun _ hne => ⟨rfl, fun _ h => h, fun _ => beq_eq_false_iff_ne.2 hne⟩
  have hagain : effect nodeStopped .installRuntimeState yes nodeStopped := rfl
  have hmark : effect nodeUp (.touchMarker .node) yes nodeMarked :=
    ⟨rfl, by rintro (_ | _ | _) <;> decide, by decide⟩
  have hstop : effect nodeMarked (.stop .node) yes nodeStopped :=
    ⟨rfl, by rintro (_ | _ | _) <;> decide, by decide⟩
  have hclear : effect nodeStopped .clearRuntimeState yes nodeLost :=
    ⟨rfl, by rintro (_ | _ | _) <;> decide, fun _ => by rintro (_ | _ | _) <;> decide⟩
  have hrun : Run (JobStep (job "key" "key.pub" "config.json" borgCreate)) ⟨nodeUp, none⟩ _ :=
    .cons .start <| .cons (.act hready) <| .cons (.act hcleared) <| .cons (.act hnode) <|
    .cons (.act hmark) <| .cons (.act (hdown .httpd)) <| .cons (.act (hdown .policyTimer)) <|
    .cons (.act (hstill .policyTimer (by decide))) <| .cons (.act (hstill .httpd (by decide))) <|
    .cons (.act hstop) <| .cons .stop <| .cons .start <|
    .cons (.act hagain) <| .cons (.act hclear) <| .nil _
  exact ⟨_, _, hrun, List.mem_cons_of_mem _ (List.mem_map_of_mem (f := Prod.snd)
    (List.getLast_mem (List.cons_ne_nil _ _)))⟩

/-- A run that is killed with the node down, and the next one clears its marker. -/
theorem backup_loses_track : ∃ steps,
    Run (JobStep (job "key" "key.pub" "config.json" borgCreate)) ⟨nodeUp, none⟩ steps
      ∧ ∃ state ∈ visited ⟨nodeUp, none⟩ steps, ¬ KeepsTrack nodeUp state.host := by
  obtain ⟨steps, script, hrun, hmem⟩ := run_loses_track
  refine ⟨steps, hrun, _, hmem, fun h => ?_⟩
  simpa [nodeLost] using h .node rfl

end Lost

end OnixCore.BackupJob
