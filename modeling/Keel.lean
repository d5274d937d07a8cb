import Keel.Doc.DeltaRoundTrip
import Keel.Doc.RegistryWrites
import Keel.Sync.RegistryConvergence
import Keel.Sync.ChatCursor
import Keel.Doc.RebuildFidelity
import Keel.Doc.SplitParts
import Keel.Engine.CommandLedger
import Keel.Engine.Supersession
import Keel.Engine.CheckpointFetch
import Keel.Engine.SteerLedger
import Keel.Engine.Auth
import Keel.Engine.Dispatch
import Keel.Engine.WorkflowReplay
import Keel.Engine.RoutingSafety
import Keel.Engine.QuiesceRun
import Keel.Engine.QuestionRun
import Keel.Engine.RecoveryReach
import Keel.Engine.Subscription
import Keel.Engine.CheckoutSync
import Keel.Dsh.SessionRepair
import Keel.Dsh.SessionCaches
import Keel.Dsh.AbortStability
import Keel.Dsh.InboxReplay
import Keel.Dsh.ArtifactRecovery
import Keel.Dsh.WriteDurability
import Keel.Ui.IncrementalParser
import Keel.Dsh.CordisActivation
import Keel.Dsh.CordisRefusals
import Keel.Dsh.Sse
import Keel.Sync.RoomSynced
import Keel.Rpc.Transparency
import Keel.Rpc.LinkRevocation
import Keel.Ui.PatchAgreement
import Keel.Ui.GraphLayout
import Keel.Dsh.ToolSafety
import Keel.Harness.AcpStranding
import Keel.Doc.HlcOrder
import Keel.Doc.RegistrySeed
import Keel.Sync.QuotaDrain
import Keel.Engine.ImportRecovery
import Keel.Dsh.ReadBeforeOverwrite
import Keel.Dsh.RuntimeContext
import Keel.Dsh.ToolVisibility
import Keel.Dsh.SchemaAuthor
import Keel.Dsh.StreamAssembly
import Keel.Harness.AcpQuiet
import Keel.Rpc.ConnectionEnd
import Keel.Harness.JsonRpc
import Keel.Rpc.WireFrames
import Keel.Sync.RoomGaps
import Keel.Sync.Fragments
import Keel.Engine.Profile
import Keel.Dsh.EditFidelity
import Keel.Dsh.PagedReading
import Keel.Dsh.BridgeOutcome
import Keel.Harness.ModelRows
import Keel.Harness.StderrTail
import Keel.Dsh.PathSegment
import Keel.Engine.Repos
import Keel.Engine.TerminalReplay
import Keel.Harness.CursorLabel
