import OnixCore.BackupJob.Proofs.Cleanup
import OnixCore.BackupManifest.Proofs.Canonical
import OnixCore.BackupManifest.Proofs.Verify
import OnixCore.BuildbotPrCheck.Api
import OnixCore.BuildbotPrCheck.Check
import OnixCore.BuildbotPrCheck.Proofs.Answers
import OnixCore.BuildbotPrCheck.Proofs.ExitZero
import OnixCore.ClaudeMd.Proofs.Atomic
import OnixCore.Dgx.Proofs.Disks
import OnixCore.DgxMachine.Proofs.Build
import OnixCore.HerdrPueue.Proofs.Accepted
import OnixCore.HerdrPueue.Proofs.Intent
import OnixCore.HerdrPueue.Proofs.Visible
import OnixCore.HxOil.Proofs.BulkAdds
import OnixCore.HxOil.Proofs.Collapse
import OnixCore.HxOil.Proofs.Confined
import OnixCore.HxOil.Proofs.Marks
import OnixCore.HxOil.Proofs.Refresh
import OnixCore.HxOil.Proofs.RelativeLinks
import OnixCore.HxOil.Proofs.Retention
import OnixCore.HxOil.Proofs.Transforms
import OnixCore.Inventory.Proofs.Builders
import OnixCore.Inventory.Proofs.References
import OnixCore.MergeWhenGreen.Proofs.Unseen
import OnixCore.ModuleSchema.Proofs.Agreement
import OnixCore.ModuleSchema.Proofs.Settings
import OnixCore.NixEvalWarnings.Proofs.ExitCode
import OnixCore.PolicyReconciler.Proofs.Reconcile
import OnixCore.RadicleCi.Proofs.GuardFlags
import OnixCore.RadicleCi.Proofs.GuardSwap
import OnixCore.RadicleCi.Proofs.NoJobLost
import OnixCore.RadicleCi.Proofs.Outcomes
import OnixCore.RadicleCi.Proofs.Publisher
import OnixCore.RbwPinentry.Proofs.Delivery
import OnixCore.TailscaleTraefik.Proofs.Routes
