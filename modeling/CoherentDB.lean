import CoherentDB.Debug.Asserts
import CoherentDB.Lib.OrderedTable
import CoherentDB.Lib.ArenaLayout
import CoherentDB.Lib.MachineInt
import CoherentDB.Lib.ListRange
import CoherentDB.Lib.SortedSet
import CoherentDB.Lib.ByteOrder
import CoherentDB.Lib.Runs
import CoherentDB.Lib.CharPattern
import CoherentDB.Lib.FlagCount
import CoherentDB.Lib.SearchTree
import CoherentDB.Lib.CInteger
import CoherentDB.Lib.Token
import CoherentDB.Lib.WriteLog
import CoherentDB.Lib.FirstProblem
import CoherentDB.MemoryManager.Kernel
import CoherentDB.MemoryManager.Manager
import CoherentDB.MemoryManager.Admission
import CoherentDB.MemoryManager.WakeUps
import CoherentDB.MemoryManager.SubSession
import CoherentDB.MemoryManager.SubSessionLayout
import CoherentDB.MemoryManager.LiveBlocks
import CoherentDB.MemoryManager.RegionEffects
import CoherentDB.MemoryManager.SubSessionRuns
import CoherentDB.MemoryManager.SmallBlocks
import CoherentDB.MemoryManager.BestFit
import CoherentDB.MemoryManager.Session
import CoherentDB.MemoryManager.SessionLifetime
import CoherentDB.MemoryManager.Reservation
import CoherentDB.MemoryManager.Construction
import CoherentDB.MemoryManager.Ownership
import CoherentDB.MemoryManager.AllocatorSizes
import CoherentDB.MemoryManager.Accounting
import CoherentDB.MemoryManager.NoLeak
import CoherentDB.MemoryManager.FreezeCalls
import CoherentDB.MemoryManager.FrozenSession
import CoherentDB.MemoryManager.RegionMap
import CoherentDB.MemoryManager.SubSessionSet
import CoherentDB.Util.Misc
import CoherentDB.Util.Text
import CoherentDB.Util.Alignment
import CoherentDB.Util.MultiBuffer
import CoherentDB.Util.MultiBufferValues
import CoherentDB.Util.EntryChecks
import CoherentDB.Util.AsyncFile
import CoherentDB.Util.AioWorker
import CoherentDB.Util.Completion
import CoherentDB.Util.SyncCalls
import CoherentDB.Util.SyncHistories
import CoherentDB.Util.File
import CoherentDB.Util.ReadBuffers
import CoherentDB.Util.FileStore
import CoherentDB.Util.SyncFile
import CoherentDB.Util.FileWrite
import CoherentDB.Util.WorkerPool
import CoherentDB.Util.PoolReuse
import CoherentDB.Util.SpinLock
import CoherentDB.Util.SpinLockTest
import CoherentDB.Config.IniConfig
import CoherentDB.Config.LineFormat
import CoherentDB.Config.Grammar
import CoherentDB.Config.Blanks
import CoherentDB.Config.Sections
import CoherentDB.Journal.Journal
import CoherentDB.Journal.InMemJournal
import CoherentDB.Journal.Linearizable
import CoherentDB.Journal.Shutdown
import CoherentDB.Journal.Callbacks
import CoherentDB.Journal.InsertRecords
import CoherentDB.NetServer.WriteQueue
import CoherentDB.NetServer.MessageOrder
import CoherentDB.NetServer.SingleSend
import CoherentDB.NetServer.Answers
import CoherentDB.NetServer.Unconfirmed
import CoherentDB.NetServer.ThreadPool
import CoherentDB.NetServer.Echo
import CoherentDB.Serialization.Encoders
import CoherentDB.Serialization.FileEncoder
import CoherentDB.Serialization.Buffering
import CoherentDB.Serialization.FileDecoder
import CoherentDB.Serialization.DecoderCalls
import CoherentDB.Serialization.Codecs
import CoherentDB.Serialization.Integers
import CoherentDB.Serialization.RoundTrip
import CoherentDB.Serialization.Truncation
import CoherentDB.Serialization.FileRoundTrip
import CoherentDB.Serialization.Interchange
import CoherentDB.Serialization.Versions
import CoherentDB.Log.PrettyFunction
import CoherentDB.Misc.TypeTree
import CoherentDB.Misc.VirtualClass
import CoherentDB.Misc.GeneratedTree
import CoherentDB.BufferCache.BufferCache
import CoherentDB.BufferCache.Eviction
import CoherentDB.BufferCache.FrameStates
