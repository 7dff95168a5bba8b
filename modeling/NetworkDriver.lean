import NetworkDriver.Net.StreamTransport.Queue
import NetworkDriver.Net.StreamTransport.Outgoing
import NetworkDriver.Net.StreamTransport.Incoming
import NetworkDriver.Library.Codec
import NetworkDriver.Util.Types
import NetworkDriver.Util.Serializer
import NetworkDriver.Util.Deserializer
import NetworkDriver.Library.Keyed
import NetworkDriver.Net.Multiplexer.Base
import NetworkDriver.Net.Multiplexer.Timeouts.Model
import NetworkDriver.Net.Multiplexer.Timeouts.Delivery
import NetworkDriver.Net.Multiplexer.Timeouts.Owners
import NetworkDriver.Net.Multiplexer.Epoll.Model
import NetworkDriver.Net.Multiplexer.Epoll.Dispatch
import NetworkDriver.Net.Multiplexer.Shutdown
import NetworkDriver.Net.Multiplexer.Epoll.Shutdown
import NetworkDriver.Net.Multiplexer.Uring.Model
import NetworkDriver.Net.Multiplexer.Uring.Shutdown
import NetworkDriver.Net.Multiplexer.GracefulShutdown
import NetworkDriver.Net.Multiplexer.Uring.Managers
import NetworkDriver.Net.Multiplexer.Uring.Ports
import NetworkDriver.Net.Multiplexer.Uring.Arming
import NetworkDriver.Net.Multiplexer.Epoll.Mirror
import NetworkDriver.Net.Multiplexer.Epoll.Hangup
import NetworkDriver.Net.Multiplexer.Epoll.Reentry
import NetworkDriver.Library.Slots
import NetworkDriver.Net.Datagrams.Model
import NetworkDriver.Net.Datagrams.Callbacks
import NetworkDriver.Net.Datagrams.Outgoing
import NetworkDriver.Net.Datagrams.Pointers
import NetworkDriver.Net.Datagrams.Attribution
import NetworkDriver.Net.Datagrams.Backends
import NetworkDriver.Library.Outbox
import NetworkDriver.Net.Datagrams.Accounting
import NetworkDriver.Library.Scripts
import NetworkDriver.Net.Dispatcher.Model
import NetworkDriver.Net.Dispatcher.Isolation
import NetworkDriver.Net.Multiplexer.Epoll.Membership
import NetworkDriver.Net.Multiplexer.Epoll.Objects
import NetworkDriver.Net.Multiplexer.Epoll.AppErrors
import NetworkDriver.Net.Multiplexer.Timeouts.Earliest
import NetworkDriver.Net.Multiplexer.Timeouts.Sleep
import NetworkDriver.Net.Multiplexer.Timeouts.Punctual
import NetworkDriver.Net.Multiplexer.Uring.Errno
import NetworkDriver.Net.StreamTransport.Policies
import NetworkDriver.Net.StreamTransport.Draining
import NetworkDriver.Net.StreamTransport.Peers
import NetworkDriver.Net.StreamTransport.Uring.Bare
import NetworkDriver.Net.StreamTransport.Uring.Single
import NetworkDriver.Util.Untrusted
import NetworkDriver.Util.Canonical
import NetworkDriver.Util.Batching
import NetworkDriver.Library.RedBlack
import NetworkDriver.Util.CliParser.Model
import NetworkDriver.Util.CliParser.Registration
import NetworkDriver.Library.Bounded
import NetworkDriver.Net.Multiplexer.Epoll.Failures
import NetworkDriver.Net.Multiplexer.Epoll.Termination
import NetworkDriver.Net.Multiplexer.ControlPipe.Model
import NetworkDriver.Net.Multiplexer.ControlPipe.Ownership
import NetworkDriver.Net.Multiplexer.ControlPipe.Wire
import NetworkDriver.Util.CliParser.Parsing
import NetworkDriver.Util.CliParser.LongOptions
import NetworkDriver.Util.CliParser.ShortOptions
import NetworkDriver.Net.Dispatcher.Applications
import NetworkDriver.Net.Dispatcher.FailedInit
import NetworkDriver.Net.Dispatcher.TimeoutTable
import NetworkDriver.Net.Dispatcher.Production
import NetworkDriver.Net.Dispatcher.Fetching
import NetworkDriver.Net.Dispatcher.Routing
import NetworkDriver.Util.Configuration.Model
import NetworkDriver.Util.Configuration.Scopes
import NetworkDriver.Util.Configuration.Malformed
import NetworkDriver.Util.Configuration.Values
import NetworkDriver.Library.Tally
import NetworkDriver.Util.IntrusivePtr.Model
import NetworkDriver.Util.IntrusivePtr.Counting
import NetworkDriver.Library.Separators
import NetworkDriver.Util.Splitting
import NetworkDriver.Util.Formatting.Model
import NetworkDriver.Util.Formatting.Simultaneous
import NetworkDriver.Net.Ip.Model
import NetworkDriver.Net.Ip.Text
import NetworkDriver.Net.Socket.Model
import NetworkDriver.Net.Socket.ByteOrder
import NetworkDriver.Net.UriParsing
import NetworkDriver.Net.Socket.Guard
import NetworkDriver.Library.Allocation
import NetworkDriver.Net.Multiplexer.Uring.Records
import NetworkDriver.Net.Multiplexer.Uring.Release
import NetworkDriver.Net.Multiplexer.Kqueue.Filters
import NetworkDriver.Net.Multiplexer.Kqueue.Events
import NetworkDriver.Net.Multiplexer.Readiness
import NetworkDriver.Net.Multiplexer.Epoll.Init
import NetworkDriver.Util.CliParser.Accesses
import NetworkDriver.Util.CliParser.Bounds
import NetworkDriver.Util.CliParser.RoundTrip
import NetworkDriver.Library.Pool
import NetworkDriver.Net.StreamTransport.Cache
import NetworkDriver.Net.Datagrams.Cache
import NetworkDriver.Net.BufferCache
import NetworkDriver.Net.StreamTransport.Uring.Callbacks
import NetworkDriver.Net.StreamTransport.Uring.Incoming
import NetworkDriver.Net.StreamTransport.Uring.Outgoing
import NetworkDriver.Net.StreamTransport.Uring.Peers
import NetworkDriver.Net.StreamTransport.Uring.Messages
import NetworkDriver.Net.StreamTransport.Uring.Pulling
