import Fix42.Lib.Trans
import Fix42.Lib.SortedMap
import Fix42.Lib.TicketLock
import Fix42.Lib.QueueLock
import Fix42.Core.Types
import Fix42.Core.Message
import Fix42.Book.Calls
import Fix42.Book.OrderBook
import Fix42.Book.Worker
import Fix42.Book.Reference
import Fix42.Book.Ledger
import Fix42.Book.Accesses
import Fix42.Book.Proof.Fill
import Fix42.Book.Proof.Rep
import Fix42.Book.Proof.Handles
import Fix42.Book.Proof.Refine
import Fix42.Book.Proof.Accesses
import Fix42.Book.Proof.Midway
import Fix42.Book.Proof.Exit
import Fix42.Book.Proof.Reports
import Fix42.Book.Quantity
import Fix42.Book.Crossing
import Fix42.Book.Proof.Quantity
import Fix42.Book.Proof.Crossing
import Fix42.Market.QueueMutex
import Fix42.Market.Units
import Fix42.Market.Model
import Fix42.Market.Tickets
import Fix42.Market.Reports
import Fix42.Market.CancelUnit
import Fix42.Market.Serial
import Fix42.Market.Exchange
import Fix42.Market.ReadLock
import Fix42.Market.Approval
import Fix42.Market.Proof.Step
import Fix42.Market.Proof.Base
import Fix42.Market.Proof.Ownership
import Fix42.Market.Proof.Tickets
import Fix42.Market.Proof.Life
import Fix42.Market.Proof.Causal
import Fix42.Market.Proof.CancelUnit
import Fix42.Market.Proof.Serial
import Fix42.Market.Proof.Spin
import Fix42.Market.Proof.Exchange
import Fix42.Market.Proof.ReadLock
import Fix42.Market.Proof.Status
import Fix42.Market.Proof.Approval
import Fix42.Session.Party
import Fix42.Session.Model
import Fix42.Session.Connection
import Fix42.Session.Proof.Units
import Fix42.Session.Proof.Numbers
import Fix42.Session.Proof.Authenticated
import Fix42.Session.Proof.Outgoing
import Fix42.Session.Reading
import Fix42.Session.Proof.Reading
import Fix42.Client.Execution
import Fix42.Client.Proof.Decodable
import Fix42.Lib.Calendar
import Fix42.Lib.Split
import Fix42.Wire.Message
import Fix42.Wire.Input
import Fix42.Wire.Output
import Fix42.Wire.Proof.Parse
import Fix42.Wire.Proof.Framing
import Fix42.Wire.Grammar
import Fix42.Wire.Timestamp
import Fix42.Wire.Proof.Timestamp
import Fix42.Wire.Proof.RoundTrip
import Fix42.Wire.Proof.Grammar
import Fix42.Wire.Proof.Corruption
import Fix42.Net.Selector
import Fix42.Net.Server
import Fix42.Net.Proof.Selector
import Fix42.Net.Proof.Server
import Fix42.Lib.Tally
import Fix42.Lib.Reader
import Fix42.Net.ClientStore
import Fix42.Net.Proof.ClientStore
import Fix42.Book.Conservation
import Fix42.Book.Proof.Conservation
import Fix42.Book.Tape
import Fix42.Book.Proof.Tape
import Fix42.Book.EmptyLevels
import Fix42.Book.Proof.EmptyLevels
import Fix42.Session.HeartBeat
import Fix42.Session.Proof.HeartBeat
import Fix42.Session.Rejects
import Fix42.Session.Proof.Rejects
import Fix42.Session.Proof.Lone
import Fix42.Session.Proof.Crossing
import Fix42.Session.KeepAlive
import Fix42.Session.Proof.KeepAlive
import Fix42.Thread.Pool
import Fix42.Thread.Proof.Pool
import Fix42.Ipc.Buffer
import Fix42.Ipc.Message
import Fix42.Ipc.Receive
import Fix42.Ipc.Proof.RoundTrip
import Fix42.Ipc.Proof.Receive
import Fix42.Client.FrontManager
import Fix42.Client.Initiator
import Fix42.Client.Proof.FrontManager
import Fix42.Client.Proof.Initiator
import Fix42.Client.Proof.Flags
import Fix42.Client.Proof.Backends
import Fix42.Client.Proof.Tokens
import Fix42.Ipc.Stream
import Fix42.Ipc.Proof.Stream
import Fix42.Ipc.Proof.Reuse
import Fix42.Client.FixBuilder
import Fix42.Client.Proof.FixBuilder
import Fix42.Client.OrderHistoric
import Fix42.Client.Proof.OrderHistoric
import Fix42.Lib.Utf8
import Fix42.Lib.Utf16
import Fix42.Lib.Dependency
import Fix42.Guardian.Text
import Fix42.Guardian.Proof.Text
import Fix42.Guardian.FixHelper
import Fix42.Guardian.Messages
import Fix42.Guardian.Proof.FixHelper
import Fix42.Guardian.Header
import Fix42.Guardian.Proof.Header
import Fix42.Guardian.Client
import Fix42.Guardian.Proof.Client
import Fix42.Guardian.CheckSum
import Fix42.Guardian.Proof.CheckSum
import Fix42.Guardian.TestTree
import Fix42.Guardian.Proof.TestNode
import Fix42.Guardian.Proof.TestLoop
import Fix42.Guardian.Proof.TestTree
import Fix42.Lib.Shift
import Fix42.Log.File
import Fix42.Log.Proof.File
import Fix42.Lib.Segments
import Fix42.Utils.Split
import Fix42.Utils.Proof.Split
import Fix42.Lib.Allotment
import Fix42.Book.Priority
import Fix42.Book.Serve
import Fix42.Book.Proof.Serve
import Fix42.Book.Proof.Priority
import Fix42.Market.Served
import Fix42.Market.Proof.Served
import Fix42.Lib.Progress
import Fix42.Thread.ProcessUnit
import Fix42.Thread.Proof.ProcessUnit
import Fix42.Thread.Core
import Fix42.Thread.Proof.Core
import Fix42.Wire.Convert
import Fix42.Wire.Proof.Convert
import Fix42.Thread.UnitTree
import Fix42.Thread.Proof.UnitTree
import Fix42.Wire.Talk
import Fix42.Wire.Proof.Talk
import Fix42.Sql.ConnectionPool
import Fix42.Sql.Proof.ConnectionPool
import Fix42.Client.Removal
import Fix42.Client.Proof.Removal
