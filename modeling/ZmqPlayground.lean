import ZmqPlayground.Library.Runs
import ZmqPlayground.Library.Draining
import ZmqPlayground.Library.Reads
import ZmqPlayground.Library.Lookups
import ZmqPlayground.Library.Lines
import ZmqPlayground.Library.Console
import ZmqPlayground.Library.Tally
import ZmqPlayground.Library.Table
import ZmqPlayground.Library.Scan
import ZmqPlayground.Library.Worklist
import ZmqPlayground.Library.Walks
import ZmqPlayground.Library.Monitor
import ZmqPlayground.Library.Locks
import ZmqPlayground.Library.Sessions
import ZmqPlayground.Library.Ledger
import ZmqPlayground.Library.Streams
import ZmqPlayground.Library.Chain
import ZmqPlayground.Library.Framing
import ZmqPlayground.Library.Numerals
import ZmqPlayground.Common.Message
import ZmqPlayground.Common.Util
import ZmqPlayground.Common.Subscriber
import ZmqPlayground.Common.ZmqStack
import ZmqPlayground.Common.Publisher
import ZmqPlayground.Common.Sender
import ZmqPlayground.Common.Instances
import ZmqPlayground.Common.Health
import ZmqPlayground.Common.SocketCore
import ZmqPlayground.Common.ClientTable
import ZmqPlayground.Common.TcpServer
import ZmqPlayground.Common.ServerTask
import ZmqPlayground.Common.WatchSet
import ZmqPlayground.Common.Pass
import ZmqPlayground.Common.Sessions
import ZmqPlayground.Common.Probes
import ZmqPlayground.Common.TcpClient
import ZmqPlayground.Common.Receptions
import ZmqPlayground.Common.Descriptors
import ZmqPlayground.Common.Finishing
import ZmqPlayground.Common.FdSet
import ZmqPlayground.Common.Restart
import ZmqPlayground.Common.Failures
import ZmqPlayground.Common.Senders
import ZmqPlayground.Common.SendStreams
import ZmqPlayground.Common.Broadcasts
import ZmqPlayground.Common.Guarded
import ZmqPlayground.Common.Removals
import ZmqPlayground.ConvStack.ConvStack
import ZmqPlayground.ConvStack.Relay
import ZmqPlayground.ConvStack.Copies
import ZmqPlayground.ConvStack.Replicas
import ZmqPlayground.ConvStack.Conversions
import ZmqPlayground.ConvStack.Throwing
import ZmqPlayground.ConvStack.Nesting
import ZmqPlayground.ConvStack.Sources
import ZmqPlayground.ConvStack.Pushes
import ZmqPlayground.ConvStack.Changing
import ZmqPlayground.ConvStack.ConvStackMain
import ZmqPlayground.NetStack.NetStack
import ZmqPlayground.NetStack.Clients
import ZmqPlayground.NetStack.Publishing
import ZmqPlayground.Delivery
import ZmqPlayground.Filtering
import ZmqPlayground.Listening
import ZmqPlayground.Shutdown
import ZmqPlayground.Stopping
import ZmqPlayground.ZmqProxy.Statistics
import ZmqPlayground.ZmqProxy.Control
import ZmqPlayground.ZmqProxy.Steering
import ZmqPlayground.InprocStack.InprocStack
import ZmqPlayground.InprocStack.Flow
import ZmqPlayground.InprocStack.Arrival
import ZmqPlayground.InprocStack.Tunnel
import ZmqPlayground.Prompts
import ZmqPlayground.Typing
import ZmqPlayground.InprocStack.Quitting
import ZmqPlayground.Services
