import LocalServer.Lib.Ring
import LocalServer.ShmQueue
import LocalServer.ShmQueueTokens
import LocalServer.ShmQueueSafety
import LocalServer.ShmQueueLeak
import LocalServer.CList
import LocalServer.ClientList
import LocalServer.Handler
import LocalServer.AtMostOnce
import LocalServer.OneResponse
import LocalServer.Lib.Fifo
import LocalServer.ResponsePipe
import LocalServer.ResponseFraming
import LocalServer.Sessions
import LocalServer.Outcomes
import LocalServer.Commands
import LocalServer.RequestPipe
import LocalServer.ClientSession
import LocalServer.Lockstep
import LocalServer.Lib.Regex
import LocalServer.YmlPatterns
import LocalServer.YmlHashMap
import LocalServer.YmlParser
import LocalServer.Configuration
import LocalServer.ListSequence
import LocalServer.ListFailures
import LocalServer.ExecCommand
import LocalServer.ResponseBody
import LocalServer.ClientInput
import LocalServer.SendOutcomes
import LocalServer.CommandOutput
import LocalServer.CommandTube
import LocalServer.Shutdown
import LocalServer.ShmQueueInterrupts
import LocalServer.SpareReader
import LocalServer.SigDisconnect
import LocalServer.Ccp
import LocalServer.CcpArguments
import LocalServer.CcpFrame
import LocalServer.CcpCopy
import LocalServer.Strmode
import LocalServer.YmlChains
import LocalServer.YmlInit
import LocalServer.Lib.Scan
import LocalServer.Lib.Matches
import LocalServer.YmlReadings
import LocalServer.YmlMatches
import LocalServer.YmlMutex
import LocalServer.YmlComments
import LocalServer.YmlHeads
import LocalServer.YmlIntegers
import LocalServer.Lib.Simulation
import LocalServer.Lib.Admission
import LocalServer.Acceptance
import LocalServer.Lib.Exclusive
import LocalServer.ShmLifecycle
import LocalServer.UsualCommand
import LocalServer.ShmMapping
import LocalServer.ListWalk
import LocalServer.SessionLedger
import LocalServer.ClientPipes
import LocalServer.Lib.Chains
import LocalServer.YmlRelease
import LocalServer.Lib.Raw
import LocalServer.Info
import LocalServer.Listing
import LocalServer.Lib.Descriptors
import LocalServer.Daemon
import LocalServer.CustomCommand
import LocalServer.CustomOutput
import LocalServer.SessionProgress
