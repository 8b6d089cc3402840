import Epyx.Actor.Deadlock
import Epyx.Actor.Guarantees
import Epyx.Actor.Locks
import Epyx.Actor.Manager
import Epyx.Actor.Objects
import Epyx.Actor.TimeoutLauncher
import Epyx.Core.BlockingQueue
import Epyx.Core.Byte
import Epyx.Core.Exception
import Epyx.Core.QueueOrder
import Epyx.Core.Text
import Epyx.Core.Timeout
import Epyx.Core.WorkerPool
import Epyx.DHT.Actors
import Epyx.DHT.Answers
import Epyx.DHT.Asking
import Epyx.DHT.Availability
import Epyx.DHT.Callbacks
import Epyx.DHT.Carriable
import Epyx.DHT.ConnectionIds
import Epyx.DHT.Distance
import Epyx.DHT.Echo
import Epyx.DHT.Ending
import Epyx.DHT.FindCount
import Epyx.DHT.FirstActiveBit
import Epyx.DHT.Genuine
import Epyx.DHT.Handlers
import Epyx.DHT.Id
import Epyx.DHT.Informed
import Epyx.DHT.InternalNode
import Epyx.DHT.KBucket
import Epyx.DHT.Kept
import Epyx.DHT.Keys
import Epyx.DHT.Lookup
import Epyx.DHT.Mail
import Epyx.DHT.Metric
import Epyx.DHT.Modest
import Epyx.DHT.Module
import Epyx.DHT.Nearest
import Epyx.DHT.Network
import Epyx.DHT.Operations
import Epyx.DHT.Packet
import Epyx.DHT.Pointers
import Epyx.DHT.Publish
import Epyx.DHT.Queries
import Epyx.DHT.Registered
import Epyx.DHT.Replica
import Epyx.DHT.Replication
import Epyx.DHT.Requests
import Epyx.DHT.Retention
import Epyx.DHT.Search
import Epyx.DHT.SetResult
import Epyx.DHT.Settled
import Epyx.DHT.Stack
import Epyx.DHT.Steps
import Epyx.DHT.Storing
import Epyx.DHT.Sync
import Epyx.DHT.Table
import Epyx.DHT.Turns
import Epyx.DHT.Wire
import Epyx.Lib.Custody
import Epyx.Lib.Decimal
import Epyx.Lib.Forest
import Epyx.Lib.Heap
import Epyx.Lib.Least
import Epyx.Lib.Ledger
import Epyx.Lib.Machine
import Epyx.Lib.PriorityQueue
import Epyx.Lib.Registry
import Epyx.Lib.ThreeWay
import Epyx.Lib.Transducer
import Epyx.Lib.TreeMap
import Epyx.Lib.Xor
import Epyx.N2NP.Acknowledged
import Epyx.N2NP.Attachment
import Epyx.N2NP.Compare
import Epyx.N2NP.Delivery
import Epyx.N2NP.DirectConnectionIds
import Epyx.N2NP.Exchange
import Epyx.N2NP.Faults
import Epyx.N2NP.Handling
import Epyx.N2NP.Node
import Epyx.N2NP.NodeId
import Epyx.N2NP.NodeIdText
import Epyx.N2NP.Packet
import Epyx.N2NP.Relay
import Epyx.N2NP.RelayNames
import Epyx.N2NP.RelayServer
import Epyx.N2NP.Replies
import Epyx.NatPunching.Attempts
import Epyx.NatPunching.Command
import Epyx.NatPunching.DirectSockets
import Epyx.NatPunching.Faults
import Epyx.NatPunching.IGD
import Epyx.NatPunching.Natpunch
import Epyx.NatPunching.OpenConnection
import Epyx.NatPunching.RootDesc
import Epyx.Net.IpAddress
import Epyx.Net.NetSelect
import Epyx.Net.NetSelectSocket
import Epyx.Net.Receive
import Epyx.Net.SockAddress
import Epyx.Net.Socket
import Epyx.Net.Stream
import Epyx.Net.URI
import Epyx.Parser.AfterError
import Epyx.Parser.Body
import Epyx.Parser.Chunks
import Epyx.Parser.ContentLength
import Epyx.Parser.Framing
import Epyx.Parser.GTTPacket
import Epyx.Parser.GTTParser
import Epyx.Parser.HTTPParser
import Epyx.Parser.HeaderCase
import Epyx.Parser.LineParser
import Epyx.Parser.Lines
import Epyx.Parser.Rounds
import Epyx.Parser.Section
