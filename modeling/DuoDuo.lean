import DuoDuo.Library.Machine
import DuoDuo.Library.Search
import DuoDuo.Library.Service
import DuoDuo.Library.Ladder
import DuoDuo.Library.Tiling
import DuoDuo.Library.Throws
import DuoDuo.Library.LinkedList
import DuoDuo.Library.GapQueue
import DuoDuo.Library.BlockMemory
import DuoDuo.Library.Rounding
import DuoDuo.Library.Locks
import DuoDuo.Library.Tally
import DuoDuo.Library.Words
import DuoDuo.Library.Tables
import DuoDuo.Base.Linearizability
import DuoDuo.Net.TcpConnection
import DuoDuo.Net.OutputIntegrity
import DuoDuo.Net.DispatchSafety
import DuoDuo.Net.Wakeup
import DuoDuo.Net.ShutdownOrder
import DuoDuo.Net.CloseOnce
import DuoDuo.Net.EpollPoller
import DuoDuo.Net.Connector
import DuoDuo.Http.HttpContext
import DuoDuo.Http.HttpServer
import DuoDuo.Http.Incremental
import DuoDuo.Http.RequestLine
import DuoDuo.Http.Pipelining
import DuoDuo.Http.HeaderEnd
import DuoDuo.Http.ParserCalls
import DuoDuo.Timers.ExactlyOnce
import DuoDuo.Timers.EarlyFiring
import DuoDuo.Timers.Coverage
import DuoDuo.Timers.Depth
import DuoDuo.Timers.Insertion
import DuoDuo.Timers.Draining
import DuoDuo.Net.DelayedRetry
import DuoDuo.Buffer.RunAllocator
import DuoDuo.Buffer.SizeClassLookup
import DuoDuo.Buffer.Ownership
import DuoDuo.Buffer.ListPlacement
import DuoDuo.Buffer.SubpageRelease
import DuoDuo.Buffer.ArenaChoice
import DuoDuo.Buffer.SubpageLocks
import DuoDuo.Buffer.LongAddrSum
import DuoDuo.Buffer.RunChoice
import DuoDuo.Buffer.SubpageLife
import DuoDuo.Buffer.Capacity
import DuoDuo.Buffer.ThreadCaches
import DuoDuo.Buffer.Pruning
import DuoDuo.Buffer.WritableBytes
import DuoDuo.Buffer.ByteQueue
import DuoDuo.Buffer.HandleInt
import DuoDuo.Buffer.GrowthTarget
import DuoDuo.Buffer.PageClass
import DuoDuo.Buffer.RunSizing
import DuoDuo.Buffer.CacheBound
import DuoDuo.Buffer.SlotLoad
import DuoDuo.Buffer.BufferCalls
import DuoDuo.Buffer.FailedGrowth
import DuoDuo.Buffer.ReadFd
import DuoDuo.Buffer.Recycler
import DuoDuo.Http.PooledRefinement
import DuoDuo.Http.Delivery
import DuoDuo.Timers.ClockAlignment
import DuoDuo.Timers.Tickers
import DuoDuo.Timers.TickerPool
import DuoDuo.Net.Lifetime
import DuoDuo.Timers.DelayQueue
import DuoDuo.Library.SpinLock
