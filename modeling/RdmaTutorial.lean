import RdmaTutorial.Lib.Run
import RdmaTutorial.Lib.CString
import RdmaTutorial.Lib.Verbs
import RdmaTutorial.Common
import RdmaTutorial.Peer
import RdmaTutorial.Client
import RdmaTutorial.Echo.Link
import RdmaTutorial.Echo.Receives
import RdmaTutorial.ClientFlow
import RdmaTutorial.ClientOrder
import RdmaTutorial.Echo.LockStep
import RdmaTutorial.Echo.Delivery
import RdmaTutorial.Echo.Credit
import RdmaTutorial.Echo.Exposure
import RdmaTutorial.EchoLoop
import RdmaTutorial.Rdmacm05.Server
import RdmaTutorial.Rdmacm05.Projection
import RdmaTutorial.Rdmacm05.Echoes
import RdmaTutorial.Rdmacm05.Delivery
import RdmaTutorial.Rdmacm05.Notify
import RdmaTutorial.Rdmacm05.Isolation
import RdmaTutorial.Directories
import RdmaTutorial.Rdmacm05.Capacity
import RdmaTutorial.Lib.Objects
import RdmaTutorial.Lib.Ownership
import RdmaTutorial.Rdmacm04.Exclusive
import RdmaTutorial.Rdmacm05.CmEvents
import RdmaTutorial.Rdmacm05.EpollLoop
import RdmaTutorial.Rdmacm04.Established
import RdmaTutorial.Rdmacm04.Semaphores
import RdmaTutorial.Rdmacm04.Departure
import RdmaTutorial.Shutdown
import RdmaTutorial.Teardown
import RdmaTutorial.Rdmacm05.Release
import RdmaTutorial.Example03.Exchange
import RdmaTutorial.Example03.Ready
import RdmaTutorial.Example03.InStep
import RdmaTutorial.Rdmacm05.Calls
import RdmaTutorial.Rdmacm05.Record
import RdmaTutorial.Rdmacm05.Accesses
import RdmaTutorial.Accounts
import RdmaTutorial.Rdmacm04.Cleanup
import RdmaTutorial.Example03.Segments
import RdmaTutorial.Copies
import RdmaTutorial.EchoService
import RdmaTutorial.Session
import RdmaTutorial.Rdmacm05.Sessions
import RdmaTutorial.Rdmacm05.Joint
import RdmaTutorial.Rdmacm05.Service
import RdmaTutorial.Establish.Progress
import RdmaTutorial.Establish.Setup
import RdmaTutorial.Devices.Build
import RdmaTutorial.Devices.Guid
import RdmaTutorial.Devices.Report
import RdmaTutorial.Rdmacm05.Main
