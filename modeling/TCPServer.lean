import TCPServer.Lib.Runs
import TCPServer.Lib.Simulation
import TCPServer.Lib.ListFamily
import TCPServer.Lib.ExchangeSort
import TCPServer.Lib.Ledger
import TCPServer.Lib.Locks
import TCPServer.Lib.Handles
import TCPServer.Lib.Census
import TCPServer.Lib.Drawing
import TCPServer.Lib.Calls
import TCPServer.Cpp
import TCPServer.Common
import TCPServer.ReceiveTask
import TCPServer.Server
import TCPServer.Sorting
import TCPServer.Machine
import TCPServer.Sockets
import TCPServer.Delivery
import TCPServer.Subscribers
import TCPServer.Framing
import TCPServer.Numbers
import TCPServer.Parity
import TCPServer.Requests
import TCPServer.Draws
import TCPServer.Allocator
import TCPServer.Routing
import TCPServer.Threads.Starvation
import TCPServer.Threads.Stalled
import TCPServer.Threads.Files
import TCPServer.Sending
import TCPServer.Recipients
import TCPServer.Sweep
import TCPServer.Service.Deadlock
import TCPServer.Service.Events
import TCPServer.Service.Senders
import TCPServer.Service.Failures
import TCPServer.Service.Containment
import TCPServer.Service.Accepting
import TCPServer.Service.Counting
import TCPServer.TcpClient
import TCPServer.Connect
import TCPServer.Teardown
import TCPServer.Lifecycle
import TCPServer.Restart
import TCPServer.Descriptors
import TCPServer.EvenServer
import TCPServer.HalfClosed
import TCPServer.FdSets
import TCPServer.Waiting
import TCPServer.Display
import TCPServer.Terminal
import TCPServer.Session
