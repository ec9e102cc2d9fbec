import Corpc.Rpc.Stranded
import Corpc.Rpc.Success
import Corpc.Rpc.Wakeup
import Corpc.Io.KcpShutdown
import Corpc.Rpc.Release
import Corpc.Pool.Initialised
import Corpc.Pool.Proxy
import Corpc.Lock.WakeUp
import Corpc.Lock.RWMutexInvariant
import Corpc.Io.Heartbeat
import Corpc.Message.Reconnect
import Corpc.Udp.Tolerance
import Corpc.Kcp.Agreement
import Corpc.Rpc.Isolation
import Corpc.Queue.Blocking
import Corpc.Lock.ConditionWakeups
import Corpc.Io.Assertions
import Corpc.Message.Serials
import Corpc.Message.SerialAgreement
import Corpc.Rpc.Reuse
import Corpc.Kcp.Limits
import Corpc.Pipeline.CachedSize
import Corpc.Message.LifeCycle
import Corpc.Io.Write
import Corpc.Pipeline.DatagramBounds
import Corpc.Udp.Disposal
import Corpc.Message.ScrapSerial
import Corpc.Message.ScrapOrder
import Corpc.Message.Survivors
import Corpc.Message.LinkedBuffer
import Corpc.Co.EventLoop
import Corpc.Co.StaleBits
import Corpc.Message.BurstErrors
import Corpc.Timeout.Refinement
import Corpc.Pubsub.Service
