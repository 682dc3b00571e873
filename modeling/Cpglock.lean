import Cpglock.Group.Proof.Oldest
import Cpglock.Daemon.Proof.Behind
import Cpglock.Daemon.Proof.Frame
import Cpglock.Group.Proof.Steps
import Cpglock.Group.Proof.Sound
import Cpglock.Group.OldestHost
import Cpglock.Daemon.Cell
import Cpglock.Daemon.Proof.Cell
import Cpglock.Daemon.Proof.Requests
import Cpglock.Group.Proof.Rule
import Cpglock.Daemon.Proof.Owner
import Cpglock.Group.Proof.Plain
import Cpglock.Group.Proof.Authority
import Cpglock.Group.SingleAuthority
import Cpglock.Client.Io
import Cpglock.Client.Proof.Io
import Cpglock.Client.Framing
import Cpglock.Daemon.Proof.Marked
import Cpglock.Group.Proof.Marked
import Cpglock.Daemon.Proof.Queue
import Cpglock.Lib.Missing
import Cpglock.Group.FixedGroup
import Cpglock.Group.Replica
import Cpglock.Daemon.Proof.Sent
import Cpglock.Group.Proof.Follows
import Cpglock.Group.Proof.Synced
import Cpglock.Group.Proof.FixedRun
import Cpglock.Group.ReplicaAgreement
import Cpglock.Group.Proof.Awake
import Cpglock.Group.NoLostWakeup
import Cpglock.Group.MemberSet
import Cpglock.Group.OldestLookup
import Cpglock.Daemon.Proof.Replies
import Cpglock.Group.LockIds
import Cpglock.Group.OwnUnlock
import Cpglock.Client.Threads
import Cpglock.Client.Dispatch
import Cpglock.Group.Proof.Running
import Cpglock.Group.Proof.Ranked
import Cpglock.Group.Successor
import Cpglock.Daemon.Proof.Claims
import Cpglock.Group.Proof.Connections
import Cpglock.Group.Proof.Owed
import Cpglock.Group.ReplyRouting
import Cpglock.Group.Proof.Held
import Cpglock.Group.Proof.Recovery
import Cpglock.Group.ConnectionRecovery
import Cpglock.Group.Proof.Purges
import Cpglock.Group.DepartedRequests
import Cpglock.Group.Proof.Departure
import Cpglock.Group.Proof.DepartureRun
import Cpglock.Group.Proof.Survivors
import Cpglock.Group.DelNodeBranches
import Cpglock.Daemon.Proof.Calm
import Cpglock.Group.Proof.Asked
import Cpglock.Group.Proof.Tried
import Cpglock.Daemon.History
import Cpglock.Daemon.Wire
import Cpglock.Group.MarkedRequests
import Cpglock.Client.Calls
import Cpglock.Client.Transfer
import Cpglock.Client.TimeBudget
import Cpglock.Group.TryLock
import Cpglock.Group.FifoMutex
import Cpglock.Lib.FifoLock
import Cpglock.Group.GrantSequence
import Cpglock.Group.MutualExclusion
import Cpglock.Group.Refinement
import Cpglock.Client.Process
import Cpglock.Client.Proof.Process
import Cpglock.Cluster.World
import Cpglock.Cluster.Proof.Writes
import Cpglock.Cluster.Proof.Conversation
import Cpglock.Cluster.CriticalSection
import Cpglock.Client.Proof.Waiting
import Cpglock.Cluster.Proof.Answers
import Cpglock.Cluster.Progress
import Cpglock.Lib.Descriptors
import Cpglock.Daemon.MainLoop
import Cpglock.Daemon.Descriptors
import Cpglock.Group.Teardown
import Cpglock.Group.MainLoops
import Cpglock.Client.Connect
import Cpglock.Client.Library
