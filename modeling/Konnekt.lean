import Konnekt.Correctness.Arithmetic
import Konnekt.Correctness.BackupMeta
import Konnekt.Correctness.BootIsolation
import Konnekt.Correctness.CycleCheck
import Konnekt.Correctness.DataWires
import Konnekt.Correctness.Isolation
import Konnekt.Correctness.NodeCap
import Konnekt.Correctness.PowerGate
import Konnekt.Correctness.Prediction
import Konnekt.Correctness.PreviewAgreement
import Konnekt.Correctness.PullAgreement
import Konnekt.Correctness.RestoreDown
import Konnekt.Correctness.Routing
import Konnekt.Correctness.SavePause
import Konnekt.Correctness.Substitution
import Konnekt.Correctness.WorldSwap
import Konnekt.Correctness.WorldOperations
import Konnekt.Correctness.BackupRoundTrip
import Konnekt.Correctness.PasswordChange
import Konnekt.Correctness.RefreshRotation
import Konnekt.Correctness.TwoFactor
import Konnekt.Correctness.InformedConsent
import Konnekt.Correctness.SignInBackoff
import Konnekt.Correctness.EventMirror
import Konnekt.Correctness.RevokedSockets
import Konnekt.Correctness.DesktopApprovals
import Konnekt.Correctness.LevelDat
import Konnekt.Correctness.ModInstall
import Konnekt.ConfigEditor.Listing
import Konnekt.Correctness.ConfigListing
import Konnekt.Correctness.LocalRecord
import Konnekt.Correctness.ServerConfigs
import Konnekt.Correctness.LoaderUpdate
import Konnekt.Correctness.PreviewEffects
import Konnekt.Correctness.LaunchReaders
import Konnekt.Correctness.LoaderRollback
import Konnekt.Correctness.TunnelHosts
import Konnekt.Correctness.TunnelBound
import Konnekt.Go.JsonValue
import Konnekt.Mcp.Results
import Konnekt.Mcp.Parts
import Konnekt.Mcp.Tools
import Konnekt.Correctness.ToolText
import Konnekt.Correctness.CronSuccessor
import Konnekt.Go.Scanner
import Konnekt.Server.LogLine
import Konnekt.Correctness.ConsoleScan
import Konnekt.Correctness.Roster
import Konnekt.Correctness.AttributeCycles
import Konnekt.Correctness.Grammar
import Konnekt.Commands.Links
import Konnekt.Correctness.OptimisticStores
import Konnekt.Commands.Kommands
import Konnekt.Commands.Polling
import Konnekt.Correctness.LinkedButtons
import Konnekt.Correctness.ModRescan
import Konnekt.Go.FloatText
import Konnekt.Correctness.WiredWrite
import Konnekt.Correctness.GrantLifetime
import Konnekt.Correctness.ExitRecord
import Konnekt.Backup.Unzip
import Konnekt.Correctness.ArchiveLayout
import Konnekt.Backup.ServerWorlds
import Konnekt.Correctness.ServerWorlds
import Konnekt.Backup.Root
import Konnekt.Correctness.BackupNames
import Konnekt.Correctness.Staging
import Konnekt.Correctness.RangeCopies
import Konnekt.Correctness.LeftUploads
import Konnekt.Correctness.CanonicalQuery
import Konnekt.Correctness.LatestPointer
import Konnekt.Correctness.NbtRoundTrip
import Konnekt.Correctness.PropertyWrites
import Konnekt.Correctness.VersionOrder
import Konnekt.Editor.GraphHistory
import Konnekt.Server.Rcon
import Konnekt.Editor.GraphSignature
import Konnekt.Mods.Enabling
import Konnekt.ConfigEditor.Backups
import Konnekt.Snapshots.Prune
import Konnekt.Correctness.ConditionLaws
import Konnekt.Correctness.JvmArgs
import Konnekt.Server.ActiveServer
import Konnekt.Loader.Builds
import Konnekt.Correctness.LinkReturns
import Konnekt.Stores.Scheduler
import Konnekt.ConfigEditor.PropertiesForm
import Konnekt.Run.FirstVisit
import Konnekt.Mods.Dependencies
import Konnekt.Correctness.FirstMod
import Konnekt.Mcp.Secrets
import Konnekt.Snapshots.Destination
import Konnekt.Correctness.LinkPrefix
import Konnekt.Codes.ShiftRegister
import Konnekt.Qr.ReedSolomon
import Konnekt.Codes.BinaryField
import Konnekt.Correctness.ReedSolomon
import Konnekt.Correctness.DataPulls
import Konnekt.Correctness.PastedSelection
import Konnekt.Correctness.QrReading
import Konnekt.Correctness.StagingRuns
