import TinyRpc.AsyncLogger
import TinyRpc.BufferLocks
import TinyRpc.ByteQueue
import TinyRpc.Capacity
import TinyRpc.ChannelCalls
import TinyRpc.CurrentEventloop
import TinyRpc.DispatchStages
import TinyRpc.EncodeBlock
import TinyRpc.Endpoint
import TinyRpc.EpollCalls
import TinyRpc.Excute
import TinyRpc.FdEvent
import TinyRpc.FdEventGroup
import TinyRpc.FdReuse
import TinyRpc.Fragments
import TinyRpc.HandlerFailure
import TinyRpc.IOThreadGroup
import TinyRpc.IOThreadStart
import TinyRpc.IPv4NetAddr
import TinyRpc.ListenFds
import TinyRpc.LogPipeline
import TinyRpc.Logger
import TinyRpc.LoopTasks
import TinyRpc.MalformedFrames
import TinyRpc.MoveIndices
import TinyRpc.MsgIdUtils
import TinyRpc.OnTimer
import TinyRpc.PersistentErrors
import TinyRpc.ReadDones
import TinyRpc.Readiness
import TinyRpc.Reencode
import TinyRpc.RemoteCall
import TinyRpc.RemoteCalls
import TinyRpc.Resends
import TinyRpc.RoundTrip
import TinyRpc.RpcDispatcher
import TinyRpc.ScopeMutex
import TinyRpc.ServerClients
import TinyRpc.Session
import TinyRpc.SessionCalls
import TinyRpc.StringCoder
import TinyRpc.TcpClient
import TinyRpc.TcpServer
import TinyRpc.TimerDelete
import TinyRpc.TimerEntries
import TinyRpc.TimerThreads
import TinyRpc.WireFormat
import TinyRpc.WriteDones
