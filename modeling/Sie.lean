import Sie.Sidecar.BatchFormer.Budget
import Sie.Sidecar.BusyLane
import Sie.Sidecar.Propagation
import Sie.Gateway.Provenance
import Sie.Gateway.Fallback
import Sie.Gateway.Accounting
import Sie.RoundTrip
import Sie.Gateway.SseStream
import Sie.Gateway.Messages.Agreement
import Sie.Gateway.Grammar.Expansion
import Sie.Gateway.InboxFastPath
import Sie.Gateway.LaneAdmission
import Sie.Server.NoSilentDrop
import Sie.Server.Thinking.Suppression
import Sie.Server.ToolCallParser.Stream
import Sie.Server.WorkClassScheduler.Slots
import Sie.IpcResponse
import Sie.Sidecar.IpcMux.Calls
import Sie.Sidecar.ConfigApply.InSync
import Sie.Sidecar.AdapterPool
import Sie.Server.ModelWorker.Answered
import Sie.Server.ExecutionLease
import Sie.Config.Idempotency
import Sie.Sidecar.GatherBound
import Sie.Sidecar.BatchFormer.Caps
import Sie.Sidecar.BatchFormer.Completion
import Sie.Wire.Subject
import Sie.Gateway.Hrw
import Sie.Sidecar.BatchedF16Multivector
