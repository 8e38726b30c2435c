import Iac.Library.Text
import Iac.Library.Buffer
import Iac.Library.Sql
import Iac.Library.Single
import Iac.Database
import Iac.Digits
import Iac.Library.Depot
import Iac.Order
import Iac.DatabaseServer
import Iac.InsertQueries
import Iac.Placement
import Iac.PlacementProperties
import Iac.StockLedger
import Iac.Library.Program
import Iac.Library.SharedPipe
import Iac.Library.Conversation
import Iac.Library.Exchange
import Iac.Product
import Iac.DatabaseMain
import Iac.ForkedServer
import Iac.PipeProtocol
import Iac.SharedConnection
import Iac.Library.Observer
import Iac.MutexDiscipline
import Iac.Library.Layout
import Iac.OrderCodec
import Iac.ProductCodec
import Iac.Library.Ere
import Iac.SocketAddress
import Iac.Config
import Iac.Library.Blocks
import Iac.ConfigGrammar
import Iac.ConfigFile
import Iac.Library.Inevitable
import Iac.Transport
import Iac.Library.Runs
import Iac.Session
import Iac.Client
import Iac.Submission
import Iac.LargestOrder
import Iac.Catalogue
import Iac.Purchases
import Iac.CommandFrames
import Iac.Library.Plays
import Iac.OrderHandover
import Iac.OrderHistory
import Iac.UnknownProducts
import Iac.StatementTexts
import Iac.Snapshot
import Iac.Closing
import Iac.Library.Output
import Iac.Interruption
import Iac.SessionEnd
import Iac.FifoConnection
import Iac.RequestOrder
import Iac.Handshake
import Iac.Cart
import Iac.EnsureLoops
import Iac.Disconnection
import Iac.ConfigEnding
import Iac.ReadLine
import Iac.ConfigBlocks
import Iac.ClientInput
import Iac.FifoLeftovers
import Iac.Logging
import Iac.Library.Printing
import Iac.Startup
import Iac.ConcurrentOrders
import Iac.Library.Release
import Iac.MutexReturned
import Iac.ClientMenu
import Iac.KeyboardOrder
import Iac.Library.Processes
import Iac.MainServer
import Iac.ProcessFamily
import Iac.CommandLine
import Iac.LogService
import Iac.Receipt
import Iac.Archive
import Iac.Deployment
import Iac.Haggling
