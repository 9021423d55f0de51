import BoardProxy.CallbackCases
import BoardProxy.Tenancy
import BoardProxy.TenancyRefinement
import BoardProxy.Ownership
import BoardProxy.ResourcePool
import BoardProxy.WaitingLine
import BoardProxy.Tenure
import BoardProxy.WaitQueue
import BoardProxy.Routing
import BoardProxy.Forwarding
import BoardProxy.Reservation
import BoardProxy.ConnectGrammar
import BoardProxy.WrSafety
import BoardProxy.ConnectionHistory
import BoardProxy.StreamSplitter
import BoardProxy.WrFraming
import BoardProxy.WrRelay
import BoardProxy.CommandSwitch
import BoardProxy.TcpRelay
import BoardProxy.EveryRun
import BoardProxy.ProxyCreation
import BoardProxy.ProxyFaults
import BoardProxy.SessionEnd
import BoardProxy.IdleExit
import BoardProxy.TurnedAway
import BoardProxy.Ledger
import BoardProxy.Descriptors
import BoardProxy.ClientStream
import BoardProxy.ConnectCommand
import BoardProxy.WhileLoop
import BoardProxy.SetupIsolation
import BoardProxy.ProcessStart
import BoardProxy.BoardSelection
import BoardProxy.Config
import BoardProxy.FirstError
import BoardProxy.ProcessDiscipline
import BoardProxy.ConfigLoading
import BoardProxy.Installation
import BoardProxy.ClientStages
import BoardProxy.ClientSessions
import BoardProxy.ClientService
import BoardProxy.Exceptions
import BoardProxy.Drain
import BoardProxy.EndToEnd
import BoardProxy.Rendezvous
import BoardProxy.WaitingTime
import BoardProxy.CallbackParts
import BoardProxy.FdTable
import BoardProxy.ChildDescriptors
import BoardProxy.Dialogue
import BoardProxy.StatusTable
import BoardProxy.Shutdown
import BoardProxy.Invocation
