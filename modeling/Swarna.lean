import Swarna.Xor
import Swarna.Traversal
import Swarna.Tree
import Swarna.Machine
import Swarna.Network
import Swarna.Utility
import Swarna.ChildList
import Swarna.Relay
import Swarna.RelaySpec
import Swarna.RelayHistory
import Swarna.Attestation
import Swarna.Rounds
import Swarna.Phases
import Swarna.Client
import Swarna.Deployment
import Swarna.TopologyPath
import Swarna.TopologyTree
import Swarna.AttestationTree
import Swarna.CString
import Swarna.Verifier
import Swarna.VerifierSpec
import Swarna.VerifierRounds
import Swarna.RequestFile
import Swarna.VerifierTrace
import Swarna.TopologyPackets
import Swarna.Connections
import Swarna.Rc4
import Swarna.AttestationLib
import Swarna.Broadcasts
import Swarna.SecondRound
import Swarna.Independence
import Swarna.Datagrams
import Swarna.LeafRelays
import Swarna.Timeouts
import Swarna.Ledger
import Swarna.Accounting
import Swarna.PathSplit
import Swarna.DistinctPaths
import Swarna.TimeoutRange
import Swarna.StandardRc4
import Swarna.Waiting
import Swarna.Pipe
import Swarna.BorderRouter
import Swarna.RunTimes
import Swarna.ChildTable
import Swarna.Rc4Sums
import Swarna.StackBytes
import Swarna.LeafClient
import Swarna.MapFile
import Swarna.AddressText
import Swarna.LineRuns
import Swarna.Overruns
import Swarna.Destinations
import Swarna.Digits
import Swarna.Ipaddr
import Swarna.Erasure
import Swarna.Slip
import Swarna.SecondTestbed
import Swarna.Testbed
import Swarna.RoundLog
import Swarna.Campaign
import Swarna.SerialLine
import Swarna.SlipBridge
import Swarna.HostLog
import Swarna.HostRounds
import Swarna.Audit
import Swarna.RoutesPage
