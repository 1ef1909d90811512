import MatterJs.MessageCounter.Restart
import MatterJs.Tlv.SchemaRoundTrip
import MatterJs.Interaction.ReportStream
import MatterJs.Btp.Link
import MatterJs.Exchange.Transmissions
import MatterJs.Exchange.Routing
import MatterJs.Events.Iterations
import MatterJs.Util.SlotAccounting
import MatterJs.Util.Workers
import MatterJs.Transaction.WaitGraph
import MatterJs.Transaction.PreCommit
import MatterJs.State.Mirror
import MatterJs.Subscription.NoLostChange
import MatterJs.Interaction.ListIntegrity
import MatterJs.Client.BatchOrder
import MatterJs.Commissioning.FailsafeOutcome
import MatterJs.Credentials.FabricIdentity
import MatterJs.Pase.Admission
import MatterJs.Groups.ReplayProtection
import MatterJs.Groups.GroupStateMirror
import MatterJs.Tcp.TcpChannel
import MatterJs.Icd.CheckInReplay
import MatterJs.Coap.Correlation
import MatterJs.Client.CacheBuffer
import MatterJs.Dtls.AntiReplayWindow
import MatterJs.Action.AccessControl
import MatterJs.Interaction.TagCompression
import MatterJs.Interaction.ChunkedArray
import MatterJs.Session.SessionIds
import MatterJs.Schema.BitmapSchema
import MatterJs.Events.Cull
import MatterJs.Onboarding.QrCode
import MatterJs.Onboarding.Verhoeff
import MatterJs.Math.ReedSolomon
import MatterJs.Util.HeapOperations
import MatterJs.Util.DataReadQueue
import MatterJs.Util.DeepEqual
import MatterJs.Interaction.InvokeChunks
import MatterJs.Action.CommandInvokeResponse
import MatterJs.Subscription.Intervals
import MatterJs.Action.ReadScope
import MatterJs.Bdx.InboundFlow
