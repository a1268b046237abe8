import Traft.Semantics.Run
import Traft.Semantics.Origin
import Traft.Semantics.Program
import Traft.Semantics.Threads
import Traft.Semantics.Simulation
import Traft.Semantics.Reservations
import Traft.Semantics.Records
import Traft.Semantics.Batching
import Traft.Semantics.Linked
import Traft.Semantics.Circular
import Traft.Semantics.Placement
import Traft.Quorum.Majority
import Traft.Quorum.Roster
import Traft.Memory.Reserved
import Traft.Utils.Define
import Traft.ConcurrentQueue.Queue
import Traft.ConcurrentQueue.Wrapper
import Traft.ConcurrentQueue.Delivery
import Traft.ConcurrentQueue.Budget
import Traft.ConcurrentQueue.LightweightSemaphore
import Traft.ConcurrentQueue.SemaphoreLedger
import Traft.ConcurrentQueue.SemaphoreRun
import Traft.ConcurrentQueue.SemaphoreProgress
import Traft.ConcurrentQueue.BlockingConcurrentQueue
import Traft.ConcurrentQueue.BlockingRun
import Traft.ConcurrentQueue.QuiescentQueue
import Traft.ConcurrentQueue.BlockingRefinement
import Traft.ConcurrentQueue.WrappedQueue
import Traft.ConcurrentQueue.SubQueue
import Traft.ConcurrentQueue.SubQueueClaims
import Traft.ConcurrentQueue.SubQueueElements
import Traft.ConcurrentQueue.SubQueueBlocks
import Traft.ConcurrentQueue.SubQueueProgress
import Traft.ConcurrentQueue.SubQueueAlone
import Traft.ConcurrentQueue.SubQueueFamily
import Traft.ConcurrentQueue.AssembledQueue
import Traft.ConcurrentQueue.FreeList
import Traft.ConcurrentQueue.FreeListLedger
import Traft.ConcurrentQueue.FreeListRun
import Traft.ConcurrentQueue.FreeListProgress
import Traft.ConcurrentQueue.BlockIndex
import Traft.ConcurrentQueue.BlockIndexSlots
import Traft.ConcurrentQueue.BlockIndexRun
import Traft.ConcurrentQueue.BlockIndexFound
import Traft.ConcurrentQueue.ImplicitProducer
import Traft.ConcurrentQueue.ImplicitProducerBlocks
import Traft.ConcurrentQueue.ImplicitProducerCells
import Traft.ConcurrentQueue.ImplicitProducerRun
import Traft.Storage.Segment
import Traft.Raft.Identity
import Traft.Raft.Configuration
import Traft.Raft.Membership
import Traft.Raft.Ballot
import Traft.Raft.Tally
import Traft.Raft.QuorumIntersection
import Traft.Raft.BallotBox
import Traft.Raft.BallotTransfer
import Traft.Raft.CommitRange
import Traft.Raft.Completion
import Traft.Raft.BoxRun
import Traft.Raft.CommitIndex
import Traft.Raft.History
import Traft.Raft.CommitSoundness
import Traft.Raft.CommitCompleteness
import Traft.Raft.CommitContract
import Traft.Raft.Builds
import Traft.Raft.Alignment
import Traft.Raft.PositionHint
import Traft.Raft.FreshGrant
import Traft.Raft.CachedPosition
import Traft.Raft.StalePosition
import Traft.Raft.VoteCredit
import Traft.Raft.Leadership
import Traft.Raft.LogEntry
import Traft.Raft.ConfigurationManager
import Traft.Raft.Node
import Traft.Raft.ApplyBatches
import Traft.Raft.ApplyOnce
