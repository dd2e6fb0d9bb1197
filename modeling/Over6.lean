import Over6.Server.Halting
import Over6.Server.Refusal
import Over6.Server.Delivery
import Over6.Server.Reaping
import Over6.Server.ClosedPeer
import Over6.Server.Accounts
import Over6.Server.Programs
import Over6.Client.PollLoop
import Over6.Boundaries
import Over6.Heartbeats
import Over6.IpReply
import Over6.Service.Lifecycle
import Over6.Service.Counters
import Over6.Threaded.Asserts
import Over6.Threaded.Bounds
import Over6.Threaded.Deeds
import Over6.Threaded.Departure
import Over6.Threaded.Pacing
import Over6.Threaded.Usable
import Over6.Threaded.QueueProgress
import Over6.Droid.Disconnect
import Over6.Droid.Parser
import Over6.Droid.Resume
import Over6.Droid.Upstream
import Over6.Deliveries
import Over6.Lib.SharedObject
import Over6.Threaded.MsgQueue
import Over6.Threaded.QueueLocks
