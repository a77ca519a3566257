import Netsim.Foundation.WhileLoop
import Netsim.Foundation.LabelSetting
import Netsim.Network.Router
import Netsim.Network.EffectiveGraph
import Netsim.Network.Relaxation
import Netsim.Network.SettledRounds
import Netsim.Network.RouteTable
import Netsim.Network.ShortestRoutes
import Netsim.Network.PhantomRoutes
import Netsim.Network.ArithmeticWrap
import Netsim.Network.Failover
import Netsim.Network.Forwarding
import Netsim.Foundation.ChunkedMachine
import Netsim.Foundation.Decimal
import Netsim.Protocols.HttpSim
import Netsim.Protocols.HttpRoundTrip
import Netsim.Core.Connection
import Netsim.Daemon.CoreEngine
import Netsim.Daemon.AcceptRuns
import Netsim.Daemon.RequestStream
import Netsim.Foundation.RingCounter
import Netsim.System.SpscRingBuffer
import Netsim.Network.GcraRateLimiter
import Netsim.Foundation.LruCache
import Netsim.Network.ArpCache
import Netsim.Network.BreakerTrace
import Netsim.Protocols.HttpGrammar
import Netsim.Daemon.ClientOutcomes
import Netsim.Network.LookupOrder
import Netsim.Foundation.Binary64
import Netsim.System.TelemetryMonitor
import Netsim.AiService.Predictor
import Netsim.AiService.Service
import Netsim.Foundation.KeyedMachine
import Netsim.AiService.LinkIsolation
import Netsim.Protocols.ContentLength
import Netsim.Protocols.HttpAcceptance
import Netsim.Protocols.BodyInvariant
import Netsim.Foundation.LeakyBucket
import Netsim.Network.GcraLeakyBucket
import Netsim.Network.BreakerTimeout
import Netsim.Core.Packet
import Netsim.Foundation.PrefixBlock
import Netsim.Network.DottedQuad
import Netsim.Network.LongestPrefix
import Netsim.Network.ArpInvariant
import Netsim.Network.MaskConstruction
import Netsim.AiService.LinearTrend
import Netsim.Network.Backoff
import Netsim.Core.MemoryArena
import Netsim.Foundation.GuardedRun
import Netsim.System.Registrations
import Netsim.System.TelemetryHttpClient
import Netsim.System.PartialSends
import Netsim.Foundation.JsonString
import Netsim.System.JsonText
import Netsim.System.EndpointUrl
import Netsim.System.ReplyVerdict
import Netsim.Core.SocketOwnership
import Netsim.System.QueueSize
import Netsim.Foundation.Linearizability
import Netsim.Network.GcraLinearizable
import Netsim.Foundation.Binary64Truncate
import Netsim.Network.Node
import Netsim.System.SpscLinearizable
import Netsim.Daemon.PacketPath
import Netsim.System.TelemetryPipeline
import Netsim.Daemon.EndToEnd
import Netsim.Daemon.MainLoop
import Netsim.Foundation.LazyTimer
import Netsim.Network.ControlLoop
import Netsim.Foundation.Detour
import Netsim.Network.LocalFailover
import Netsim.Network.RelaxWork
import Netsim.AiService.ServiceRuns
import Netsim.System.PostedRequest
import Netsim.AiService.Decisions
import Netsim.AiService.FadingMemory
import Netsim.AiService.FailedRequests
