import CppNetEngine.Lib.Calendar
import CppNetEngine.Timer.Wheel
import CppNetEngine.Timer.Proof.WheelInv
import CppNetEngine.Timer.Proof.Exact
import CppNetEngine.Receive.Buffer
import CppNetEngine.Receive.Framing
import CppNetEngine.Receive.Receiver
import CppNetEngine.Receive.Proof.Framing
import CppNetEngine.Receive.Proof.Segmentation
import CppNetEngine.Lib.Ring
import CppNetEngine.Receive.Proof.Queue
import CppNetEngine.Receive.Proof.Scatter
import CppNetEngine.Receive.Proof.Resumable
import CppNetEngine.Receive.Proof.Capacity
import CppNetEngine.Receive.Proof.Reading
import CppNetEngine.Session.Activity
import CppNetEngine.Session.Proof.Idle
import CppNetEngine.Session.Reaper
import CppNetEngine.Session.Proof.Dismantled
import CppNetEngine.Send.Buffer
import CppNetEngine.Send.Packet
import CppNetEngine.Lib.Machine
import CppNetEngine.Lib.Program
import CppNetEngine.Service.Service
import CppNetEngine.Service.Proof.Accounting
import CppNetEngine.Service.Proof.Waiting
import CppNetEngine.Service.Proof.Slots
import CppNetEngine.Send.Sender
import CppNetEngine.Send.Proof.Sending
import CppNetEngine.Actor.Scheduler
import CppNetEngine.Actor.Proof.Wakeup
import CppNetEngine.Lib.Locks
import CppNetEngine.Actor.Proof.Exclusion
import CppNetEngine.Session.Session
import CppNetEngine.Session.Proof.Owners
import CppNetEngine.Actor.Proof.Order
import CppNetEngine.Actor.Proof.Lifetime
import CppNetEngine.Actor.Proof.Stranded
import CppNetEngine.Accept.Listener
import CppNetEngine.Accept.Proof.Accepting
import CppNetEngine.Timer.Clock
import CppNetEngine.Timer.Proof.NeverEarly
import CppNetEngine.Send.Proof.Pending
import CppNetEngine.Lib.Totals
import CppNetEngine.Session.Proof.Disconnection
import CppNetEngine.Session.Membership
import CppNetEngine.Session.Proof.Released
import CppNetEngine.Lib.Linked
import CppNetEngine.Memory.Allocator
import CppNetEngine.Memory.Proof.Ownership
import CppNetEngine.Memory.Proof.Taking
import CppNetEngine.Memory.Proof.Blocks
import CppNetEngine.Memory.Proof.Recycling
import CppNetEngine.Memory.Proof.Disjoint
import CppNetEngine.Queue.LockFreeQueue
import CppNetEngine.Queue.Proof.Nodes
import CppNetEngine.Queue.Proof.Steps
import CppNetEngine.Queue.Proof.Tail
import CppNetEngine.Queue.Proof.Head
import CppNetEngine.Queue.Proof.Calls
import CppNetEngine.Queue.Proof.Fifo
import CppNetEngine.Queue.Proof.Reuse
import CppNetEngine.Session.Proof.Admission
import CppNetEngine.Session.Proof.Refused
import CppNetEngine.Session.Client
import CppNetEngine.Session.Proof.Established
import CppNetEngine.Socket.Proof.Leaks
import CppNetEngine.Receive.Handling
import CppNetEngine.Receive.Proof.Kicked
import CppNetEngine.Send.Proof.ErrorPaths
import CppNetEngine.Service.Proof.Unadmitted
import CppNetEngine.Timer.Proof.Drift
import CppNetEngine.Queue.Proof.Continue
import CppNetEngine.Queue.Proof.Bound
import CppNetEngine.Lib.Tagged
import CppNetEngine.Stack.TopNode
import CppNetEngine.Stack.Proof.TopNode
import CppNetEngine.Stack.LockFreeStack
import CppNetEngine.Stack.Proof.Bound
import CppNetEngine.Memory.ObjectPool
import CppNetEngine.Memory.Proof.FreeList
import CppNetEngine.Queue.Content
import CppNetEngine.Queue.Proof.Honest
import CppNetEngine.Queue.Alone
import CppNetEngine.Queue.Proof.Alone
import CppNetEngine.Queue.Proof.Retained
import CppNetEngine.Queue.Proof.Cleared
import CppNetEngine.Send.Proof.Exposed
import CppNetEngine.Service.Proof.Tickets
import CppNetEngine.Actor.Proof.Scoped
import CppNetEngine.Generator.Descriptors
import CppNetEngine.Generator.Proof.Unrouted
import CppNetEngine.Lib.Assignments
import CppNetEngine.Generator.Generate
import CppNetEngine.Generator.Proof.Routes
import CppNetEngine.Generator.Proof.Reachable
import CppNetEngine.Stack.Proof.Progress
import CppNetEngine.Queue.Proof.Linear
import CppNetEngine.Session.Proof.Delivery
import CppNetEngine.Timer.Handles
import CppNetEngine.Timer.Proof.Handles
import CppNetEngine.Timer.Proof.Cancel
import CppNetEngine.Memory.Proof.Accounts
import CppNetEngine.Memory.Proof.Progress
import CppNetEngine.Session.Proof.Overdue
import CppNetEngine.Lib.Parts
import CppNetEngine.Actor.Delayed
import CppNetEngine.Actor.Proof.Delayed
import CppNetEngine.Memory.TlsObjectPool
import CppNetEngine.Memory.Proof.Objects
import CppNetEngine.Memory.Pooled
import CppNetEngine.Memory.Proof.Pooled
import CppNetEngine.Stack.Proof.Pooled
import CppNetEngine.Queue.Proof.Pooled
