import CodeC.Library.Run
import CodeC.Library.Count
import CodeC.Library.LockWord
import CodeC.Library.LockLedger
import CodeC.Library.Ring
import CodeC.Library.Monitor
import CodeC.Library.MonitorWakeups
import CodeC.Library.BoundedFifo
import CodeC.Library.RingFifo
import CodeC.Library.Multicast
import CodeC.Library.Traces
import CodeC.Spmc10
import CodeC.Spmc8
import CodeC.Spmc12
import CodeC.ShmState
import CodeC.BoundedQueue
import CodeC.BoundedBlockingQueue
import CodeC.Discovery
import CodeC.ServiceDiscover
import CodeC.Proofs.ShmStateExclusion
import CodeC.Proofs.ShmStateLedger
import CodeC.Proofs.BoundedQueueFifo
import CodeC.Proofs.BoundedQueueWakeups
import CodeC.Proofs.BoundedBlockingQueueIndices
import CodeC.Proofs.DiscoveryMoves
import CodeC.Proofs.DiscoveryComplete
import CodeC.Proofs.DiscoveryCounts
import CodeC.Proofs.Spmc10Exclusion
import CodeC.Proofs.Spmc10History
import CodeC.Proofs.Spmc10Startup
import CodeC.Proofs.Spmc10Reads
import CodeC.Proofs.Spmc10Scan
import CodeC.Proofs.ServiceDiscoverWire
import CodeC.Proofs.Spmc12Exclusion
import CodeC.Proofs.Spmc8Refinement
import CodeC.TopicRegistry
import CodeC.Proofs.TopicRegistryAgreement
import CodeC.ShmPubSub
import CodeC.Proofs.ShmPubSubSegments
import CodeC.Proofs.ShmPubSubCalls
import CodeC.Library.Slot
import CodeC.SubscriberThreads
import CodeC.Proofs.SubscriberThreadsDelivery
import CodeC.AsyncSubscribers
import CodeC.Proofs.AsyncSubscribersDelivery
import CodeC.Library.SetIteration
import CodeC.AsyncPublisher
import CodeC.Proofs.AsyncPublisherDelivery
import CodeC.SubscriberShutdown
import CodeC.Proofs.SubscriberShutdownSweep
import CodeC.ShmBlock4
import CodeC.Proofs.ShmBlock4RefCount
import CodeC.EpollEcho
import CodeC.Proofs.EpollEchoIsolation
import CodeC.Library.Delimited
import CodeC.Httpd
import CodeC.Proofs.HttpdWrites
import CodeC.Proofs.HttpdFraming
import CodeC.Spmc6
import CodeC.Proofs.Spmc6Startup
import CodeC.Library.Wildcard
import CodeC.Leetcode44
import CodeC.Proofs.Leetcode44Search
import CodeC.Proofs.Leetcode44Match
import CodeC.Library.Palindrome
import CodeC.Leetcode214
import CodeC.Proofs.Leetcode214Palindrome
import CodeC.Library.Loop
import CodeC.Library.Vector
import CodeC.Library.Digits
import CodeC.Library.Backtrack
import CodeC.Leetcode51
import CodeC.Proofs.Leetcode51Queens
import CodeC.Proofs.Leetcode51Board
import CodeC.Leetcode37
import CodeC.Proofs.Leetcode37Blanks
import CodeC.Proofs.Leetcode37Sudoku
import CodeC.Library.Brackets
import CodeC.Leetcode32
import CodeC.Proofs.Leetcode32Blocks
import CodeC.Leetcode30
import CodeC.Proofs.Leetcode30Entries
import CodeC.Proofs.Leetcode30Windows
import CodeC.Library.RunRemoval
import CodeC.Leetcode546
import CodeC.Proofs.Leetcode546Optimum
import CodeC.Leetcode42
import CodeC.Proofs.Leetcode42Water
import CodeC.Library.LinkedList
import CodeC.Leetcode23
import CodeC.Proofs.Leetcode23Merge
import CodeC.Leetcode388
import CodeC.Proofs.Leetcode388Paths
import CodeC.Library.LexPermutations
import CodeC.Leetcode60
import CodeC.Proofs.Leetcode60Rank
import CodeC.Library.Occurrence
import CodeC.Leetcode41
import CodeC.Proofs.Leetcode41History
import CodeC.Proofs.Leetcode30History
import CodeC.Hex
import CodeC.Proofs.HexRoundTrip
import CodeC.StringUtil
import CodeC.Proofs.StringUtilSplit
import CodeC.Proofs.StringUtilReplace
import CodeC.OpensslAes
import CodeC.Proofs.OpensslAesPadding
import CodeC.Proofs.ServiceDiscoverStale
import CodeC.ShmOpen
import CodeC.Proofs.ShmOpenFailures
import CodeC.Readline
import CodeC.Proofs.ReadlineLines
import CodeC.Proofs.HexEncodeBounds
import CodeC.Proofs.BoundedQueueInit
import CodeC.Proofs.Spmc10Layout
import CodeC.PerfStats
import CodeC.Proofs.PerfStatsSteps
import CodeC.Proofs.PerfStatsAccounting
import CodeC.Library.CountedRing
import CodeC.ThreadPool
import CodeC.Proofs.ThreadPoolSteps
import CodeC.Proofs.ThreadPoolInvariant
import CodeC.Proofs.ThreadPoolTasks
import CodeC.Proofs.ThreadPoolShutdown
import CodeC.CanFrame
import CodeC.Proofs.CanFrameBounds
import CodeC.Proofs.CanFrameRoundTrip
import CodeC.Proofs.CanFrameAccepted
import CodeC.Proofs.CanFrameHexData
import CodeC.Library.Bits
import CodeC.AeLoop
import CodeC.Proofs.AeLoopTable
import CodeC.Proofs.AeLoopHandlers
import CodeC.HttpdThread
import CodeC.Proofs.HttpdThreadInvariant
import CodeC.Proofs.HttpdThreadRefinement
import CodeC.Zmalloc
import CodeC.Proofs.ZmallocAccounting
import CodeC.Library.StoreBuffer
import CodeC.MemoryReordering
import CodeC.Proofs.MemoryReorderingSteps
import CodeC.Proofs.MemoryReorderingRounds
import CodeC.Proofs.MemoryReorderingOrder
import CodeC.Library.BlockRecurrence
import CodeC.MersenneTwister
import CodeC.Proofs.MersenneTwisterRecurrence
import CodeC.PingPong
import CodeC.Proofs.PingPongTurns
import CodeC.Proofs.PingPongAtomic
import CodeC.Proofs.PingPongMutex
import CodeC.Proofs.PingPongWakeups
import CodeC.Library.CBuffer
import CodeC.CanFrameLong
import CodeC.Proofs.CanFrameLongText
import CodeC.Proofs.CanFrameErrorText
