import OnixCore.BackupJob.Scripts
import OnixCore.Lib.Runs

/-!
# Runs of the backup job

The job is started again and again, and may be stopped between any two of its commands. A command
that fails may have done all, some or none of what it is for.
-/

namespace OnixCore.BackupJob

structure Host where
  active : Service → Bool
  marker : Service → Bool

/-- What a command does to the units and the markers. A check that says yes is right; one that says
no may have failed. -/
def effect (host : Host) (command : Command) (answer : Answer) (host' : Host) : Prop :=
  match command with
  | .installRuntimeState => host' = host
  | .run _ => host' = host
  | .isActive service => host' = host ∧ (answer.status = true → host.active service = true)
  | .testMarker service => host' = host ∧ (answer.status = true → host.marker service = true)
  | .touchMarker service => host'.active = host.active
    ∧ (∀ other, other ≠ service → host'.marker other = host.marker other)
    ∧ (host.marker service = true ∨ answer.status = true → host'.marker service = true)
  | .clearRuntimeState => host'.active = host.active
    ∧ (∀ service, host'.marker service = true → host.marker service = true)
    ∧ (answer.status = true → ∀ service, host'.marker service = false)
  | .removeRuntimeState => host'.active = host.active
    ∧ (∀ service, host'.marker service = true → host.marker service = true)
    ∧ (answer.status = true → ∀ service, host'.marker service = false)
  | .stop service => host'.marker = host.marker
    ∧ (∀ other, host'.active other = true → host.active other = true)
    ∧ (answer.status = true → host'.active service = false)
  | .start service => host'.marker = host.marker
    ∧ (∀ other, host.active other = true → host'.active other = true)
    ∧ (answer.status = true → host'.active service = true)
  | .startReconcile => host'.marker = host.marker
    ∧ ∀ other, host.active other = true → host'.active other = true

/-- The host, and what is left of the job while it is running. -/
structure JobState where
  host : Host
  script : Option (Script Unit)

inductive Move where
  | start
  | act (command : Command) (answer : Answer)
  /-- The job has ended, or is killed. -/
  | stop

inductive JobStep (jobScript : Script Unit) : JobState → Move → JobState → Prop
  | start {host : Host} : JobStep jobScript ⟨host, none⟩ .start ⟨host, some jobScript⟩
  | act {host host' : Host} {command : Command} {answer : Answer} {rest : Answer → Script Unit}
      (done : effect host command answer host') :
      JobStep jobScript ⟨host, some (.call command rest)⟩ (.act command answer)
        ⟨host', some (rest answer)⟩
  | stop {host : Host} {script : Script Unit} :
      JobStep jobScript ⟨host, some script⟩ .stop ⟨host, none⟩

/-- Each unit that was active at the start is active, or has its marker. -/
def KeepsTrack (start host : Host) : Prop :=
  ∀ service, start.active service = true →
    host.active service = true ∨ host.marker service = true

end OnixCore.BackupJob
