import Hqsb.Runtime.LeaseSafety
import Hqsb.Runtime.RequestLog
import Hqsb.Runtime.SerialReference
import Hqsb.Backends.PoolSufficiency
import Hqsb.Backends.KvRefinement
import Hqsb.Runtime.BlockInvariant
import Hqsb.Runtime.BlockHolders
import Hqsb.Runtime.PrefixLookup
import Hqsb.Runtime.PrefixEviction
import Hqsb.Runtime.SimulatorService
import Hqsb.Runtime.SimulatorReservation
import Hqsb.Runtime.SpeculativeSampling
import Hqsb.Quant.KernelVariant
import Hqsb.Quant.ErrorBound
import Hqsb.Quant.Golden
import Hqsb.Serving.BreakerRules
import Hqsb.Serving.FairJoining
import Hqsb.Serving.GatewayCancel
import Hqsb.Serving.GatewayVerdicts
import Hqsb.Quant.ArtifactKept
import Hqsb.Console.CampaignRuns
import Hqsb.Console.Epochs
import Hqsb.Console.TraceReads
import Hqsb.Compiler.CacheKey
import Hqsb.Compiler.IrHash
import Hqsb.Compiler.FusionMeaning
import Hqsb.Compiler.FixedPoint
import Hqsb.Compiler.EntryReads
import Hqsb.Compiler.EntryRecovery
import Hqsb.Compiler.LoweringSelection
import Hqsb.Compiler.Eviction
import Hqsb.Compiler.TuningSplit
import Hqsb.Compiler.Variants
import Hqsb.Runtime.PlanContract
import Hqsb.Distributed.Watchdog
import Hqsb.Distributed.Communicator
import Hqsb.Distributed.DispatchCombine
import Hqsb.Distributed.Ledger
import Hqsb.Distributed.ShardMatmul
import Hqsb.Distributed.SupportedDegrees
import Hqsb.Distributed.ShardRoundTrip
import Hqsb.Distributed.SequenceNumbers
import Hqsb.Distributed.Overlap
import Hqsb.Ascend.TilingSound
import Hqsb.Integration.RewriteWiring
import Hqsb.Core.MigrateResult
import Hqsb.Runtime.Recompute
import Hqsb.Backends.BlockKvRuns
import Hqsb.Backends.Proposals
import Hqsb.Backends.ConstrainedDecoding
import Hqsb.Backends.PrefixStore
import Hqsb.Runtime.CapacityBoundary
import Hqsb.Serving.BoundedQueue
import Hqsb.Serving.PressureMachine
import Hqsb.Serving.RetryBudget
import Hqsb.Serving.PrefixMatcher
import Hqsb.Core.Versioning
import Hqsb.Distributed.Collectives
