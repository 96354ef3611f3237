import OnixCore.BackupJob.Runs

/-!
# The job keeps track of the units

Where no unit of the start is down when the markers are cleared, and no check fails on what is
there, each command of the job keeps every unit of the start active or marked: `prepareBackup` marks
them all before it stops the first, and `cleanupBackup` gets to the removal of the markers only when
every marked unit is active again.
-/

namespace OnixCore.BackupJob

open Prog

/-- A command that touches neither units nor markers. -/
def Plain : Command → Prop
  | .run _ => True
  | _ => False

/-- No unit that was active at the start is down when `prepareBackup` clears the markers, and no
check says no of what is there. -/
def FairCommand (start host : Host) (command : Command) (answer : Answer) : Prop :=
  match command with
  | .clearRuntimeState => ∀ service, start.active service = true → host.active service = true
  | .isActive service => host.active service = true → answer.status = true
  | .testMarker service => host.marker service = true → answer.status = true
  | _ => True

def Fair (start : Host) (state : JobState) : Move → Prop
  | .act command answer => FairCommand start state.host command answer
  | _ => True

section Track

variable {start host host' : Host}

def FairEffect (start host : Host) (command : Command) (answer : Answer) (host' : Host) : Prop :=
  effect host command answer host' ∧ FairCommand start host command answer

/-- The script keeps track from here on; `after` holds when it has come to its end. -/
def Keeps {α : Type} (start : Host) (script : Script α) (host : Host) (after : α → Host → Prop) :
    Prop :=
  Maintains (FairEffect start) (KeepsTrack start) script host after fun _ => KeepsTrack start

theorem Keeps.bind {α β : Type} {first : Script α} {rest : α → Script β} {mid : α → Host → Prop}
    {after : β → Host → Prop} (hfirst : Keeps start first host mid)
    (hrest : ∀ a host', mid a host' → Keeps start (rest a) host' after) :
    Keeps start (first >>= rest) host after :=
  Maintains.bind (Maintains.conseq hrest (fun _ _ h => h) hfirst)

theorem keeps_sh {command : Command} {after : Host → Prop}
    (h : ∀ answer host', FairEffect start host command answer host' →
      KeepsTrack start host' ∧ (answer.status = true → after host')) :
    Keeps start (sh command) host fun _ => after := by
  intro answer host' heffect
  obtain ⟨hkeeps, hafter⟩ := h answer host' heffect
  refine ⟨hkeeps, ?_⟩
  rcases answer with ⟨_ | _, stdout⟩
  · exact hkeeps
  · exact hafter rfl

theorem plain_effect {command : Command} {answer : Answer} (h : Plain command)
    (heffect : effect host command answer host') : host' = host := by
  cases command <;> first | exact heffect | exact h.elim

theorem keeps_plain {α : Type} {script : Script α} {J : Host → Prop} (hplain : script.Uses Plain)
    (hJ : ∀ host, J host → KeepsTrack start host) (h : J host) :
    Keeps start script host fun _ => J :=
  (Maintains.of_uses (fun _ _ _ _ hp hs heffect => (plain_effect hp heffect.1).symm ▸ hs) hJ hplain
    h).conseq (fun _ _ h => h) fun _ _ h => hJ _ h

/-- Every unit that was active at the start is active, and those of the list have their marker. -/
def Recorded (start : Host) (services : List Service) (host : Host) : Prop :=
  ∀ service, start.active service = true →
    host.active service = true ∧ (service ∈ services → host.marker service = true)

theorem Recorded.keepsTrack {services : List Service} (h : Recorded start services host) :
    KeepsTrack start host := fun service hs => .inl (h service hs).1

theorem keeps_recordActiveUnit {service : Service} {services : List Service}
    (h : Recorded start services host) : Keeps start (recordActiveUnit service) host
      fun _ => Recorded start (service :: services) := by
  refine Maintains.bind (Maintains.act ?_)
  rintro active host' ⟨⟨rfl, -⟩, hfair⟩
  refine ⟨h.keepsTrack, ?_⟩
  rcases active with ⟨_ | _, stdout⟩
  · intro other hother
    refine ⟨(h other hother).1, fun hmem => ?_⟩
    rcases List.mem_cons.1 hmem with rfl | hmem
    · exact absurd (hfair (h other hother).1) (by simp)
    · exact (h other hother).2 hmem
  · refine keeps_sh ?_
    rintro touched after ⟨⟨hactive, hothers, htouched⟩, -⟩
    refine ⟨fun other hother => .inl (hactive ▸ (h other hother).1), fun hstatus other hother => ?_⟩
    refine ⟨hactive ▸ (h other hother).1, fun hmem => ?_⟩
    by_cases heq : other = service
    · exact heq ▸ htouched (.inr hstatus)
    · rw [hothers other heq]
      exact (h other hother).2 ((List.mem_cons.1 hmem).resolve_left heq)

/-- Every unit that was active at the start has its marker. -/
def Marked (start host : Host) : Prop :=
  ∀ service, start.active service = true → host.marker service = true

theorem Marked.keepsTrack (h : Marked start host) : KeepsTrack start host :=
  fun service hs => .inr (h service hs)

theorem keeps_stop {service : Service} (h : Marked start host) :
    Keeps start (sh (.stop service)) host fun _ => Marked start := by
  refine keeps_sh ?_
  rintro answer host' ⟨⟨hmarker, -⟩, -⟩
  have hmarked : Marked start host' := fun service hs => hmarker ▸ h service hs
  exact ⟨hmarked.keepsTrack, fun _ => hmarked⟩

theorem uses_sh {line : String} : (sh (.run line)).Uses Plain :=
  uses_bind (uses_act.2 trivial) fun answer => by split <;> trivial

theorem uses_shOutput {line : String} : (shOutput (.run line)).Uses Plain :=
  uses_bind (uses_act.2 trivial) fun answer => by split <;> trivial

theorem uses_exitWith {message : String} : (exitWith message).Uses Plain :=
  uses_bind uses_sh fun _ => trivial

theorem uses_ifThen {condition : Bool} {script : Script Unit} (h : script.Uses Plain) :
    (ifThen condition script).Uses Plain := by
  cases condition
  · trivial
  · exact h

theorem stageKeys_plain {privateKey publicKey nodeConfig : String} :
    (stageKeys privateKey publicKey nodeConfig).Uses Plain :=
  uses_bind uses_sh fun _ => uses_bind uses_sh fun _ => uses_bind uses_sh fun _ =>
    uses_bind uses_sh fun _ => uses_bind uses_sh fun _ => uses_bind uses_sh fun _ =>
    uses_bind uses_sh fun _ => uses_bind (uses_act.2 trivial) fun _ =>
    uses_bind (uses_ifThen uses_exitWith) fun _ => uses_bind uses_shOutput fun _ =>
    uses_bind (uses_ifThen uses_exitWith) fun _ => uses_sh

theorem stageInputs_plain : stageInputs.Uses Plain :=
  uses_bind uses_sh fun _ => uses_bind uses_sh fun _ => uses_bind uses_sh fun _ => uses_sh

variable {privateKey publicKey nodeConfig : String}

theorem keeps_prepareBackup (h : KeepsTrack start host) :
    Keeps start (prepareBackup privateKey publicKey nodeConfig) host
      fun _ => KeepsTrack start := by
  have hinstall : Keeps start (sh .installRuntimeState) host fun _ => KeepsTrack start := by
    refine keeps_sh ?_
    rintro answer host' ⟨rfl, -⟩
    exact ⟨h, fun _ => h⟩
  have hclear : ∀ host, KeepsTrack start host →
      Keeps start (sh .clearRuntimeState) host fun _ => Recorded start [] := by
    intro host h
    refine keeps_sh ?_
    rintro answer host' ⟨⟨hactive, -⟩, hfair⟩
    have hrecorded : Recorded start [] host' := fun service hs =>
      ⟨hactive ▸ hfair service hs, fun hmem => absurd hmem List.not_mem_nil⟩
    exact ⟨hrecorded.keepsTrack, fun _ => hrecorded⟩
  refine hinstall.bind fun _ host h => (hclear host h).bind fun _ host h => ?_
  refine (keeps_recordActiveUnit h).bind fun _ host h => ?_
  refine (keeps_recordActiveUnit h).bind fun _ host h => ?_
  refine (keeps_recordActiveUnit h).bind fun _ host h => ?_
  have hmarked : Marked start host := fun service hs =>
    (h service hs).2 (by cases service <;> simp)
  refine (keeps_stop hmarked).bind fun _ host h => ?_
  refine (keeps_stop h).bind fun _ host h => (keeps_stop h).bind fun _ host h => ?_
  refine (keeps_plain stageKeys_plain (fun _ h => h) h.keepsTrack).bind fun _ host h => ?_
  exact keeps_plain stageInputs_plain (fun _ h => h) h

/-- Each marker was seen, and the units of the list that have one are active. -/
structure Resumed (start : Host) (was : Service → Bool) (services : List Service) (host : Host) :
    Prop where
  keeps : KeepsTrack start host
  seen : ∀ service, host.marker service = true → was service = true
  active : ∀ service ∈ services, host.marker service = true → host.active service = true

theorem Resumed.of_active {was : Service → Bool} {services : List Service}
    (h : Resumed start was services host) (hmarker : host'.marker = host.marker)
    (hactive : ∀ other, host.active other = true → host'.active other = true) :
    Resumed start was services host' where
  keeps service hs := (h.keeps service hs).imp (hactive service) (hmarker ▸ ·)
  seen service hs := h.seen service (hmarker ▸ hs)
  active service hmem hs := hactive service (h.active service hmem (hmarker ▸ hs))

theorem keeps_start {was : Service → Bool} {service : Service} {services : List Service}
    (h : Resumed start was services host) : Keeps start (sh (.start service)) host
      fun _ => Resumed start was (service :: services) := by
  refine keeps_sh ?_
  rintro answer host' ⟨⟨hmarker, hactive, hstarted⟩, -⟩
  have hresumed := h.of_active hmarker hactive
  refine ⟨hresumed.keeps, fun hstatus => { hresumed with active := fun other hmem hother => ?_ }⟩
  rcases List.mem_cons.1 hmem with rfl | hmem
  · exact hstarted hstatus
  · exact hresumed.active other hmem hother

/-- A unit that was not seen has no marker, and need not be started. -/
theorem Resumed.cons_of_not_was {was : Service → Bool} {service : Service}
    {services : List Service} (h : Resumed start was services host)
    (hwas : was service = false) : Resumed start was (service :: services) host where
  keeps := h.keeps
  seen := h.seen
  active other hmem hother := by
    rcases List.mem_cons.1 hmem with rfl | hmem
    · exact absurd (h.seen other hother) (by simp [hwas])
    · exact h.active other hmem hother

theorem keeps_ifThen {condition : Bool} {script : Script Unit} {J : Host → Prop}
    (hscript : condition = true → Keeps start script host fun _ => J)
    (hskip : condition = false → J host) : Keeps start (ifThen condition script) host fun _ => J := by
  cases condition
  · exact hskip rfl
  · exact hscript rfl

theorem keeps_startReconcile {was : Service → Bool} {services : List Service}
    (h : Resumed start was services host) :
    Keeps start (sh .startReconcile) host fun _ => Resumed start was services := by
  refine keeps_sh ?_
  rintro answer host' ⟨⟨hmarker, hactive⟩, -⟩
  have hresumed := h.of_active hmarker hactive
  exact ⟨hresumed.keeps, fun _ => hresumed⟩

/-- What the three tests of `cleanupBackup` said. -/
def wasActive (node httpd timer : Answer) : Service → Bool
  | .node => node.status
  | .httpd => httpd.status
  | .policyTimer => timer.status

theorem keeps_cleanupBackup (h : KeepsTrack start host) :
    Keeps start cleanupBackup host fun _ => KeepsTrack start := by
  refine Maintains.bind (Maintains.act ?_)
  rintro node host' ⟨⟨rfl, -⟩, hnode⟩
  refine ⟨h, Maintains.bind (Maintains.act ?_)⟩
  rintro httpd host' ⟨⟨rfl, -⟩, hhttpd⟩
  refine ⟨h, Maintains.bind (Maintains.act ?_)⟩
  rintro timer host' ⟨⟨rfl, -⟩, htimer⟩
  refine ⟨h, ?_⟩
  have hresumed : Resumed start (wasActive node httpd timer) [] host' :=
    { keeps := h
      seen := by rintro (_ | _ | _) hs; exacts [hnode hs, hhttpd hs, htimer hs]
      active := fun _ hmem => absurd hmem List.not_mem_nil }
  rw [show node.status = wasActive node httpd timer .node from rfl,
    show httpd.status = wasActive node httpd timer .httpd from rfl,
    show timer.status = wasActive node httpd timer .policyTimer from rfl]
  refine (keeps_plain uses_sh (fun _ h => h.keeps) hresumed).bind fun _ host h => ?_
  refine (keeps_ifThen (fun _ => keeps_start h) fun hwas => h.cons_of_not_was hwas).bind
    fun _ host h => ?_
  refine (keeps_ifThen (fun _ => (keeps_startReconcile h).bind fun _ host h => keeps_start h)
    fun hwas => h.cons_of_not_was hwas).bind fun _ host h => ?_
  refine (keeps_ifThen (fun _ => keeps_start h) fun hwas => h.cons_of_not_was hwas).bind
    fun _ host h => keeps_sh ?_
  rintro answer host' ⟨⟨hactive, hmarker, -⟩, -⟩
  have hkeeps : KeepsTrack start host' := by
    intro service hs
    refine .inl (hactive ▸ ?_)
    rcases h.keeps service hs with hs | hs
    · exact hs
    · exact h.active service (by cases service <;> simp) hs
  exact ⟨hkeeps, fun _ => hkeeps⟩

theorem keeps_job {archive : Script Unit} (harchive : archive.Uses Plain)
    (h : KeepsTrack start host) : Keeps start (job privateKey publicKey nodeConfig archive) host
      fun _ => KeepsTrack start := by
  have hbody : Keeps start (prepareBackup privateKey publicKey nodeConfig >>= fun _ => archive) host
      fun _ => KeepsTrack start :=
    (keeps_prepareBackup h).bind fun _ host h => keeps_plain harchive (fun _ h => h) h
  exact Maintains.bind (Maintains.attempt (Maintains.conseq
    (fun _ _ h => keeps_cleanupBackup h) (fun _ _ h => keeps_cleanupBackup h) hbody))

/-- The host keeps track, and what is left of the job will. -/
def Safe (start : Host) (state : JobState) : Prop :=
  KeepsTrack start state.host ∧ ∀ script, state.script = some script →
    Keeps start script state.host fun _ => KeepsTrack start

theorem safe_step {archive : Script Unit} (harchive : archive.Uses Plain) {state state' : JobState}
    {move : Move} (h : Safe start state) (hfair : Fair start state move)
    (hstep : JobStep (job privateKey publicKey nodeConfig archive) state move state') :
    Safe start state' := by
  obtain ⟨hkeeps, hrest⟩ := h
  cases hstep with
  | start => exact ⟨hkeeps, fun script heq => Option.some.inj heq ▸ keeps_job harchive hkeeps⟩
  | act done =>
    obtain ⟨hkeeps', hrest'⟩ := hrest _ rfl _ _ ⟨done, hfair⟩
    exact ⟨hkeeps', fun script heq => Option.some.inj heq ▸ hrest'⟩
  | stop => exact ⟨hkeeps, nofun⟩

end Track

end OnixCore.BackupJob
