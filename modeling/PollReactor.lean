import PollReactor.Bytes
import PollReactor.Connection
import PollReactor.Connection.Channel
import PollReactor.Connection.Config
import PollReactor.Connection.Draft
import PollReactor.Connection.Transfer
import PollReactor.Error
import PollReactor.Failure
import PollReactor.Kernel
import PollReactor.Net.Address
import PollReactor.Net.Address.Parser
import PollReactor.Net.SockName
import PollReactor.Policy
import PollReactor.PollSet
import PollReactor.Pool
import PollReactor.Proofs.Accord
import PollReactor.Proofs.Activity
import PollReactor.Proofs.Admission
import PollReactor.Proofs.Agreement
import PollReactor.Proofs.Announce
import PollReactor.Proofs.Appends
import PollReactor.Proofs.Attendance
import PollReactor.Proofs.Attention
import PollReactor.Proofs.Batch
import PollReactor.Proofs.Broadcast
import PollReactor.Proofs.Calls
import PollReactor.Proofs.Capacity
import PollReactor.Proofs.Change
import PollReactor.Proofs.Closing
import PollReactor.Proofs.Consumption
import PollReactor.Proofs.Custody
import PollReactor.Proofs.Deed
import PollReactor.Proofs.Digits
import PollReactor.Proofs.Discretion
import PollReactor.Proofs.Estate
import PollReactor.Proofs.Estate.Order
import PollReactor.Proofs.Eviction
import PollReactor.Proofs.Exactness
import PollReactor.Proofs.Exactness.Turn
import PollReactor.Proofs.Farewell
import PollReactor.Proofs.Forfeit
import PollReactor.Proofs.Framing
import PollReactor.Proofs.Framing.Emptying
import PollReactor.Proofs.Framing.Terminators
import PollReactor.Proofs.Holding
import PollReactor.Proofs.Hysteresis
import PollReactor.Proofs.Input
import PollReactor.Proofs.Interruption
import PollReactor.Proofs.Isolation
import PollReactor.Proofs.Journal
import PollReactor.Proofs.Latch
import PollReactor.Proofs.Licit
import PollReactor.Proofs.Marks
import PollReactor.Proofs.Moment
import PollReactor.Proofs.Moment.Faithful
import PollReactor.Proofs.Output
import PollReactor.Proofs.Parity
import PollReactor.Proofs.Parting
import PollReactor.Proofs.Pass
import PollReactor.Proofs.Pool
import PollReactor.Proofs.Pool.Depot
import PollReactor.Proofs.Race
import PollReactor.Proofs.Race.Lives
import PollReactor.Proofs.Reception
import PollReactor.Proofs.Relay
import PollReactor.Proofs.Report
import PollReactor.Proofs.Ring
import PollReactor.Proofs.Ring.Account
import PollReactor.Proofs.Ring.Queue
import PollReactor.Proofs.Rousing
import PollReactor.Proofs.Routing
import PollReactor.Proofs.Routing.Turn
import PollReactor.Proofs.Running
import PollReactor.Proofs.Service
import PollReactor.Proofs.Settings
import PollReactor.Proofs.Setup
import PollReactor.Proofs.Setup.Atomic
import PollReactor.Proofs.SockName
import PollReactor.Proofs.Sockets
import PollReactor.Proofs.Still
import PollReactor.Proofs.Tenancy
import PollReactor.Proofs.Thrift
import PollReactor.Proofs.Transfer
import PollReactor.Proofs.Transfer.Accord
import PollReactor.Proofs.Transfer.Failure
import PollReactor.Proofs.Transfer.Outcome
import PollReactor.Proofs.Turnover
import PollReactor.Proofs.Urgent
import PollReactor.Proofs.Waking
import PollReactor.Proofs.Watching
import PollReactor.Reactor
import PollReactor.Reactor.Builder
import PollReactor.Reactor.Run
import PollReactor.Reactor.Setup
import PollReactor.Reactor.Turn
import PollReactor.Readiness
import PollReactor.Ring
import PollReactor.Ring.Transfer
import PollReactor.Settings
import PollReactor.Settings.Decimal
import PollReactor.Settings.Path
import PollReactor.Settings.Tree
import PollReactor.Settings.Value
import PollReactor.Simulation.Act
import PollReactor.Simulation.Fault
import PollReactor.Simulation.Kernel
import PollReactor.Simulation.Letters
import PollReactor.Simulation.Peers
import PollReactor.Simulation.Playbook
import PollReactor.Simulation.Readiness
import PollReactor.Simulation.Scenario
import PollReactor.Simulation.Session
import PollReactor.Simulation.Trace
import PollReactor.Simulation.WinWorld
import PollReactor.Simulation.World
import PollReactor.Sockets
import PollReactor.Text.Extending
import PollReactor.Text.Ignorable
import PollReactor.Text.Quoted
import PollReactor.Text.Unprintable
import PollReactor.Text.Utf8
import PollReactor.Trial.Draft
import PollReactor.Trial.Listener
import PollReactor.Trial.Pool
import PollReactor.Trial.Ring
import PollReactor.Trial.Windows
import PollReactor.Waker
import PollReactor.WinSock
import PollReactor.WinSock.Multiplexer
import PollReactor.WinSock.Sockets
import PollReactor.Word
