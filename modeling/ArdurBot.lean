import ArdurBot.Core.StreamingRedactor
import ArdurBot.Evidence.Binding
import ArdurBot.Goals.DispatchRun
import ArdurBot.Goals.ReviewHolds
import ArdurBot.Groups.AskRun
import ArdurBot.Threads.CompactionRun
import ArdurBot.Migrations.LastRun
import ArdurBot.Restart.DrainRun
import ArdurBot.Locations.PolicyRun
import ArdurBot.Messaging.OutboxCap
import ArdurBot.Homes.StoreRun
import ArdurBot.Memory.VaultPages
import ArdurBot.Messaging.IdentityRun
import ArdurBot.Broker.Relay
import ArdurBot.Briefs.Watermarks
import ArdurBot.GoalBoard.DeliveryRun
import ArdurBot.Completions.Agree
import ArdurBot.Computers.ControlRun
import ArdurBot.Runs.OneOwner
import ArdurBot.Routines.WakeEnds
import ArdurBot.Computers.MaintenanceRun
import ArdurBot.Usage.Orders
import ArdurBot.Network.FetchOk
import ArdurBot.Groups.CancelRun
import ArdurBot.Hosts.HubRun
import ArdurBot.Threads.LiveBlocksRun
import ArdurBot.Updater.EnvFileLaws
import ArdurBot.Evidence.JcsEqual
import ArdurBot.Core.SanitizeJson
import ArdurBot.Chief.Choice
import ArdurBot.Devices.PairingThrottle
import ArdurBot.Recall.IndexRun
import ArdurBot.Memory.SaveRun
import ArdurBot.Approvals.Replay
import ArdurBot.Steering.InputOk
import ArdurBot.Updater.ExecuteEnds
import ArdurBot.Context.AssembleOk
import ArdurBot.Bundles.PluginDigest
import ArdurBot.Groups.Mentions
import ArdurBot.Commands.AdoptOk
import ArdurBot.Broker.AdmittedOk
import ArdurBot.Runs.Reconciler
