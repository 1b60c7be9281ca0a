import TcpDuplex.Lib.Runs
import TcpDuplex.Lib.Ownership
import TcpDuplex.Lib.Bytes
import TcpDuplex.Lib.Interleave
import TcpDuplex.Lib.Store
import TcpDuplex.Lib.BufferedFile
import TcpDuplex.Lib.StreamProg
import TcpDuplex.Lib.Duplex
import TcpDuplex.Lib.Retry
import TcpDuplex.Lib.Ranking
import TcpDuplex.Lib.Placement
import TcpDuplex.Errors
import TcpDuplex.Config
import TcpDuplex.Protocol
import TcpDuplex.Socket
import TcpDuplex.Errno
import TcpDuplex.Address
import TcpDuplex.Descriptors
import TcpDuplex.Session
import TcpDuplex.ByteStream
import TcpDuplex.Handshake
import TcpDuplex.HandshakeInput
import TcpDuplex.Agreement
import TcpDuplex.Dial
import TcpDuplex.Conn.State
import TcpDuplex.Conn.Step
import TcpDuplex.Conn.Trans
import TcpDuplex.Conn.Locks
import TcpDuplex.Conn.Flags
import TcpDuplex.Conn.Limits
import TcpDuplex.Conn.Backpressure
import TcpDuplex.Conn.WriterExit
import TcpDuplex.Conn.Shutdown
import TcpDuplex.Conn.Callback
import TcpDuplex.Conn.Outgoing
import TcpDuplex.Conn.Incoming
import TcpDuplex.Conn.Delivery
import TcpDuplex.Conn.SendMonitor
import TcpDuplex.Conn.Tamper
import TcpDuplex.Conn.Authentic
import TcpDuplex.Conn.WrongKey
import TcpDuplex.Conn.Echo
import TcpDuplex.Conn.Users
import TcpDuplex.Conn.Rest
import TcpDuplex.Conn.Destroy
import TcpDuplex.Server.State
import TcpDuplex.Server.Workers
import TcpDuplex.Server.Sockets
import TcpDuplex.Server.Stop
import TcpDuplex.Transfer.Codec
import TcpDuplex.Transfer.Options
import TcpDuplex.Transfer.ReceiveOnce
import TcpDuplex.Transfer.SendOnce
import TcpDuplex.Transfer.Verified
import TcpDuplex.Transfer.Peers
import TcpDuplex.Transfer.FlowControl
import TcpDuplex.Transfer.Deadlock
import TcpDuplex.Transfer.Calls
import TcpDuplex.Transfer.Mirror
import TcpDuplex.Transfer.Reconnect
import TcpDuplex.Transfer.Resume
import TcpDuplex.Transfer.Frames
import TcpDuplex.Transfer.IdText
import TcpDuplex.Transfer.Window
import TcpDuplex.Transfer.Sink
import TcpDuplex.Transfer.WriteOnly
import TcpDuplex.Transfer.HonestPeers
import TcpDuplex.Transfer.Retries
import TcpDuplex.Transfer.Range
import TcpDuplex.Transfer.ReceiveFile
import TcpDuplex.Transfer.Completion
import TcpDuplex.Transfer.FrameSizes
import TcpDuplex.Transfer.OverConn
import TcpDuplex.Transfer.SendFile
import TcpDuplex.Transfer.FileCopy
import TcpDuplex.Transfer.Overflow
