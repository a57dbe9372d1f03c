import Sylar.Foundation.Run
import Sylar.Foundation.Doorbell
import Sylar.Foundation.Custody
import Sylar.Foundation.Size
import Sylar.Foundation.Bytes
import Sylar.Foundation.Bits
import Sylar.Foundation.Ones
import Sylar.Foundation.Slice
import Sylar.Foundation.Cursor
import Sylar.Foundation.Digits
import Sylar.Foundation.Leb128
import Sylar.Foundation.Zigzag
import Sylar.Foundation.OrderedSet
import Sylar.Foundation.Table
import Sylar.Foundation.SharedMutex
import Sylar.Foundation.LockOrder
import Sylar.Foundation.Watched
import Sylar.ByteArray.Defs
import Sylar.ByteArray.WellFormed
import Sylar.ByteArray.RoundTrip
import Sylar.ByteArray.Overwrite
import Sylar.ByteArray.Refinement
import Sylar.ByteArray.Append
import Sylar.ByteArray.Endian
import Sylar.ByteArray.Fixed
import Sylar.ByteArray.Wire
import Sylar.ByteArray.Strings
import Sylar.ByteArray.Buffers
import Sylar.ByteArray.Varint
import Sylar.ByteArray.Zigzag
import Sylar.ByteArray.ReadBuffers
import Sylar.ByteArray.ReadAt
import Sylar.ByteArray.File
import Sylar.ByteArray.Incomplete
import Sylar.ByteArray.Float
import Sylar.Address.Grammar
import Sylar.Address.Defs
import Sylar.Address.RoundTrip
import Sylar.Address.Prefix
import Sylar.Address.Network
import Sylar.Address.Broadcast
import Sylar.Address.Order
import Sylar.Address.Interfaces
import Sylar.Timer.Defs
import Sylar.Timer.WellFormed
import Sylar.Timer.OneShot
import Sylar.Timer.Delivery
import Sylar.Timer.Lock
import Sylar.Timer.Reschedule
import Sylar.Timer.Deadline
import Sylar.Timer.Rate
import Sylar.Fiber.Defs
import Sylar.EventPoller.Defs
import Sylar.EventPoller.WellFormed
import Sylar.EventPoller.Registration
import Sylar.EventPoller.Dispatch
import Sylar.EventPoller.Waiting
import Sylar.EventPoller.Wakeup
import Sylar.Scheduler.Defs
import Sylar.Scheduler.Ledger
import Sylar.Scheduler.Steps
import Sylar.Scheduler.Conservation
import Sylar.Scheduler.Frame
import Sylar.Scheduler.Handover
import Sylar.Scheduler.Exclusive
import Sylar.Scheduler.Lifecycle
import Sylar.Scheduler.Stop
import Sylar.Scheduler.QueueLock
import Sylar.Scheduler.Switch
import Sylar.Scheduler.Tickle
import Sylar.Scheduler.Load
import Sylar.Scheduler.Fairness
import Sylar.EventPoller.StopCondition
import Sylar.EventPoller.Awake
import Sylar.EventPoller.FullPipe
import Sylar.EventPoller.Shutdown
import Sylar.EventPoller.TimerTasks
import Sylar.EventPoller.EventTasks
import Sylar.EventPoller.Idle
import Sylar.EventPoller.Table
import Sylar.FdManager.Defs
import Sylar.FdManager.Get
import Sylar.FdManager.Signed
import Sylar.EventPoller.ReadLock
import Sylar.Hook.Defs
import Sylar.Hook.Flags
import Sylar.Hook.Nonblock
import Sylar.Hook.Close
import Sylar.Hook.Waits
import Sylar.Hook.DoIo
import Sylar.Hook.Connect
import Sylar.Hook.Timeout
import Sylar.Hook.Deadline
import Sylar.Hook.Delays
import Sylar.Log.Defs
import Sylar.Log.Scan
import Sylar.Log.Grammar
import Sylar.Log.Escape
import Sylar.Log.Reset
import Sylar.Log.Inherit
import Sylar.Log.Threads
import Sylar.Config.Defs
import Sylar.Config.Cast
import Sylar.Config.Load
import Sylar.Config.Listeners
import Sylar.Config.Names
import Sylar.Env.Defs
import Sylar.Env.Grammar
import Sylar.FSUtil.Defs
import Sylar.FSUtil.Rm
import Sylar.FSUtil.ListAllFile
import Sylar.Config.ConfDir
import Sylar.ConcurrentVector.Defs
import Sylar.ConcurrentVector.Sequential
import Sylar.ConcurrentVector.Stripes
import Sylar.ConcurrentVector.Threads
import Sylar.Socket.Defs
import Sylar.Socket.Cache
import Sylar.Socket.Descriptors
import Sylar.Socket.Ownership
import Sylar.TcpServer.Bind
import Sylar.TcpServer.Lifecycle
import Sylar.TcpServer.Stop
