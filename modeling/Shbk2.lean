import Shbk2.Framing
import Shbk2.Connection
import Shbk2.Lib.Transition
import Shbk2.Sequential
import Shbk2.WireFormat
import Shbk2.Reassembly
import Shbk2.Unpack
import Shbk2.Trace
import Shbk2.LengthField
import Shbk2.Deletion
import Shbk2.LoginSoundness
import Shbk2.Withholding
import Shbk2.Segmentation
import Shbk2.InvalidBody
import Shbk2.Lib.Slots
import Shbk2.World
import Shbk2.Projection
import Shbk2.Dangling
import Shbk2.Representation
import Shbk2.Correspondence
import Shbk2.Protocol
import Shbk2.ConnPool
import Shbk2.PoolAccounting
import Shbk2.PoolExhaustion
import Shbk2.PoolConnections
import Shbk2.UserTable
import Shbk2.Lib.SqlText
import Shbk2.Statements
import Shbk2.Execute
import Shbk2.LoginResponse
import Shbk2.Lib.Simulation
import Shbk2.Lib.WorkQueue
import Shbk2.Lib.Tally
import Shbk2.Lib.Monitor
import Shbk2.ThreadPool
import Shbk2.Wakeups
import Shbk2.Shutdown
import Shbk2.Draining
import Shbk2.Destructor
import Shbk2.Server
import Shbk2.ServerRefinement
import Shbk2.ServerProgress
import Shbk2.Answers
import Shbk2.Capacity
import Shbk2.ClientSimulator
import Shbk2.Dialogue
import Shbk2.DialogueProgress
import Shbk2.PoolCalls
import Shbk2.PoolService
import Shbk2.PoolWaiting
import Shbk2.Messages
import Shbk2.WireRuntime
import Shbk2.Network
import Shbk2.NetworkProgress
