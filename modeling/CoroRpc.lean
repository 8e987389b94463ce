import CoroRpc.Client.Breaker
import CoroRpc.Client.BreakerBackoff
import CoroRpc.Client.BreakerProbes
import CoroRpc.Client.BreakerRecovery
import CoroRpc.Client.BreakerTrip
import CoroRpc.Client.BreakerWiring
import CoroRpc.Client.CallCompletion
import CoroRpc.Client.CallMatching
import CoroRpc.Client.Connection
import CoroRpc.Client.ConnectionInvariant
import CoroRpc.Client.ConnectionSteps
import CoroRpc.Client.Drain
import CoroRpc.Client.OutboundStream
import CoroRpc.Client.Publishing
import CoroRpc.Client.RequestFrame
import CoroRpc.Client.Shard
import CoroRpc.Client.Submit
import CoroRpc.Client.SubmitSafety
import CoroRpc.Client.Traffic
import CoroRpc.Discovery.ProviderFormat
import CoroRpc.Discovery.WatchPaths
import CoroRpc.Lib.BigEndian
import CoroRpc.Lib.ByteAccount
import CoroRpc.Lib.Chain
import CoroRpc.Lib.Decimal
import CoroRpc.Lib.IndexedHeap
import CoroRpc.Lib.PartialWrite
import CoroRpc.Lib.Placement
import CoroRpc.Lib.PrefixCode
import CoroRpc.Lib.Refinement
import CoroRpc.Lib.Run
import CoroRpc.Lib.Table
import CoroRpc.Lib.Window
import CoroRpc.Memory.HazardPointers
import CoroRpc.Memory.TaskOwnership
import CoroRpc.Memory.TaskPlaces
import CoroRpc.Memory.TaskPool
import CoroRpc.Protocol.BufferSafety
import CoroRpc.Protocol.Decoder
import CoroRpc.Protocol.DecoderSpec
import CoroRpc.Protocol.Frame
import CoroRpc.Protocol.Grammar
import CoroRpc.Protocol.Metadata
import CoroRpc.Protocol.MetadataCodec
import CoroRpc.Protocol.ReaderLoop
import CoroRpc.Runtime.AsyncSocket
import CoroRpc.Runtime.Control
import CoroRpc.Runtime.CoroResult
import CoroRpc.Runtime.Coroutine
import CoroRpc.Runtime.CoroutineInvariant
import CoroRpc.Runtime.CoroutineSteps
import CoroRpc.Runtime.IoWait
import CoroRpc.Runtime.MpscQueue
import CoroRpc.Runtime.PollProgress
import CoroRpc.Runtime.RoutineLife
import CoroRpc.Runtime.Scheduler
import CoroRpc.Runtime.SharedStack
import CoroRpc.Runtime.StackIntegrity
import CoroRpc.Runtime.TimerExpiry
import CoroRpc.Runtime.TimerWheel
import CoroRpc.Runtime.WaitTable
import CoroRpc.Server.Accounting
import CoroRpc.Server.Attendance
import CoroRpc.Server.CacheBound
import CoroRpc.Server.ConnectionLife
import CoroRpc.Server.Dispatcher
import CoroRpc.Server.DrainCompletion
import CoroRpc.Server.Effects
import CoroRpc.Server.EvictionQueue
import CoroRpc.Server.Idempotency
import CoroRpc.Server.Ledger
import CoroRpc.Server.ManagedDispatch
import CoroRpc.Server.Moves
import CoroRpc.Server.Requests
import CoroRpc.Server.ResponseMatching
import CoroRpc.Server.Shutdown
import CoroRpc.Server.ShutdownTurns
import CoroRpc.Server.SingleExecution
import CoroRpc.Server.StartConnections
import CoroRpc.Server.Writer
import CoroRpc.Task.CoScope
import CoroRpc.Task.JoinSafety
import CoroRpc.Task.SemaphoreTokens
import CoroRpc.Transport.OutboundBytes
import CoroRpc.Transport.OutboundStreams
