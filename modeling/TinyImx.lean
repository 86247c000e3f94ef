import TinyImx.Lib.Kv
import TinyImx.Lib.Wal
import TinyImx.Lib.Act
import TinyImx.Lib.Ranges
import TinyImx.Lib.Run
import TinyImx.Lib.Pool
import TinyImx.Lib.Custody
import TinyImx.Lib.Cyclic
import TinyImx.Lib.Framing
import TinyImx.Lib.BoundedRing
import TinyImx.Local.Types
import TinyImx.Local.EventIds
import TinyImx.Local.Impl
import TinyImx.Local.Persist
import TinyImx.Local.Confirm
import TinyImx.Local.Events
import TinyImx.Local.Queries
import TinyImx.Local.Records
import TinyImx.Local.Sound
import TinyImx.Local.Advance
import TinyImx.Local.Changes
import TinyImx.Local.Primitives
import TinyImx.Local.PersistSpec
import TinyImx.Local.GroupSpec
import TinyImx.Local.ConfirmSpec
import TinyImx.Local.ReadSpec
import TinyImx.Local.EventsSpec
import TinyImx.Local.System
import TinyImx.Local.Counters
import TinyImx.Local.Identity
import TinyImx.Local.Sequential
import TinyImx.Local.Delivery
import TinyImx.Local.Pending
import TinyImx.Local.PendingExact
import TinyImx.Local.Relay
import TinyImx.Local.RelayOwnership
import TinyImx.Gateway.ExecutorOrder
import TinyImx.Gateway.ExecutorCustody
import TinyImx.Gateway.Session
import TinyImx.Gateway.SessionGenerations
import TinyImx.Gateway.StatusAccounting
import TinyImx.Gateway.StatusTerminals
import TinyImx.Gateway.StatusMaintenance
import TinyImx.Gateway.ReceiverRetry
import TinyImx.Gateway.ReceiverRetryRuns
import TinyImx.Gateway.OfflineReplay
import TinyImx.Gateway.OfflineReplayRuns
import TinyImx.Gateway.ReplayAdmission
import TinyImx.Gateway.ReplayFairness
import TinyImx.Gateway.ReplayObligations
import TinyImx.Gateway.Recovery
import TinyImx.Gateway.RecoveryScheduling
import TinyImx.Gateway.DeliveryTracker
import TinyImx.Gateway.DeliveryAccounting
import TinyImx.Gateway.DeliveryDedup
import TinyImx.Gateway.DeliveryHistory
import TinyImx.Net.Buffer
import TinyImx.Protocol.Codec
import TinyImx.Protocol.RoundTrip
import TinyImx.Protocol.Segmentation
import TinyImx.Protocol.Stream
import TinyImx.Runtime.KeyedBatch
import TinyImx.Runtime.KeyedBatchOrder
import TinyImx.Runtime.WriteGroup
import TinyImx.Runtime.WriteGroupOnce
import TinyImx.Net.TimerQueue
import TinyImx.Net.TimerQueueRuns
import TinyImx.Outbox.Store
import TinyImx.Outbox.Relay
import TinyImx.Outbox.Fencing
import TinyImx.Outbox.Accounting
import TinyImx.Concurrency.ThreadPool
import TinyImx.Concurrency.ThreadPoolTasks
import TinyImx.Group.Rows
import TinyImx.Group.Commands
import TinyImx.Group.Changes
import TinyImx.Group.Calls
import TinyImx.Group.Locks
import TinyImx.Group.Structure
import TinyImx.Group.Authority
import TinyImx.Group.Fingerprint
import TinyImx.Group.Idempotency
import TinyImx.Gateway.CoroutineRuns
import TinyImx.Common.ConnectionPool
import TinyImx.Common.ConnectionPoolRuns
import TinyImx.Social.FriendRequests
import TinyImx.Social.FriendCalls
import TinyImx.Social.FriendGraph
import TinyImx.Registry.GatewayRegistry
import TinyImx.Registry.LeaseOwnership
import TinyImx.Registry.GatewayIndex
import TinyImx.Registry.ZooKeeperClient
import TinyImx.Registry.Registrar
import TinyImx.Registry.RegistrarRuns
import TinyImx.Registry.Discovery
import TinyImx.Registry.DiscoveryRuns
import TinyImx.Social.FriendRuns
import TinyImx.Message.GroupPersist
import TinyImx.Message.GroupCalls
import TinyImx.Message.GroupRuns
import TinyImx.Message.GroupDelivery
import TinyImx.Message.GroupDeliveryBatch
import TinyImx.Message.ReceiverConfirmBatch
import TinyImx.Net.EventLoopThread
import TinyImx.Net.TcpServerRuns
import TinyImx.Gateway.RouteResolver
import TinyImx.Local.Resolve
import TinyImx.Local.ConfirmOrder
import TinyImx.Local.Contents
import TinyImx.Local.Keys
import TinyImx.Local.Listing
import TinyImx.Local.EventIndex
import TinyImx.Local.IndexRuns
import TinyImx.Local.EventPages
import TinyImx.Local.EngineFailures
import TinyImx.Local.Atomicity
import TinyImx.Local.RelayCursor
import TinyImx.Message.Pages
import TinyImx.Net.TcpConnection
import TinyImx.Gateway.PeerControl
import TinyImx.Gateway.PeerLedger
import TinyImx.Gateway.PeerManager
import TinyImx.Gateway.PeerMoves
import TinyImx.Gateway.PeerReads
import TinyImx.Gateway.PeerRequests
import TinyImx.Gateway.PeerTransport
import TinyImx.Gateway.GroupFanout
import TinyImx.Lib.Json
import TinyImx.File.Finalize
import TinyImx.Intelligence.HttpCodec
import TinyImx.Intelligence.HttpSegmentation
import TinyImx.Eventing.ReceiptPolicy
import TinyImx.Intelligence.McpServer
import TinyImx.Intelligence.AgentOrchestrator
import TinyImx.Local.LegacyIdentity
import TinyImx.Message.PersistRpc
import TinyImx.Runtime.ReadyBatchOnce
import TinyImx.Message.ReferenceBatchRuns
import TinyImx.Outbox.Timing
import TinyImx.Concurrency.MpmcBlockingQueue
import TinyImx.Concurrency.ThreadPoolSize
import TinyImx.Concurrency.ThreadPoolLocks
import TinyImx.Net.Storage
