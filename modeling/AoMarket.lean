import AoMarket.Coroutine
import AoMarket.Interleaving
import AoMarket.CheckThenAct
import AoMarket.Relational
import AoMarket.Models
import AoMarket.Database
import AoMarket.PyNumber
import AoMarket.Rounding
import AoMarket.PyText
import AoMarket.Regex
import AoMarket.Matches
import AoMarket.OrderBook
import AoMarket.Fingerprints
import AoMarket.Environment
import AoMarket.MarketRepo
import AoMarket.SettingsRepo
import AoMarket.AuthService
import AoMarket.AodbBackoffRepo
import AoMarket.Parsing
import AoMarket.CreditText
import AoMarket.RangeSpecs
import AoMarket.Rendering
import AoMarket.MarketService
import AoMarket.Polling
import AoMarket.AutoTrack
import AoMarket.GmiClient
import AoMarket.HttpRoutes
import AoMarket.Packet
import AoMarket.Framing
import AoMarket.Connection
import AoMarket.WireFormat
import AoMarket.ChatClient
import AoMarket.ReadLoop
import AoMarket.TextCodec
import AoMarket.NameLookup
import AoMarket.BlockCipher
import AoMarket.HexText
import AoMarket.Crypto
import AoMarket.CipherBlocks
import AoMarket.Commands
import AoMarket.AdminCommands
import AoMarket.Runner
import AoMarket.BotSession
import AoMarket.RetryBackoff
import AoMarket.Writes
import AoMarket.ServiceWrites
import AoMarket.ChatWrites
import AoMarket.ChatIsolation
import AoMarket.HttpAccess
import AoMarket.Outcomes
import AoMarket.FilterUpdate
import AoMarket.FilterRanges
import AoMarket.PlayerOperations
import AoMarket.AlertDelivery
import AoMarket.HttpWrites
import AoMarket.SettingTypes
import AoMarket.KeyHistory
import AoMarket.PollTurn
import AoMarket.NewOrders
import AoMarket.PollRuns
import AoMarket.FirstPoll
import AoMarket.AlertOnce
import AoMarket.PollProgress
import AoMarket.PollFairness
import AoMarket.WatchExpiry
import AoMarket.ResyncResult
import AoMarket.SubscriptionLimit
import AoMarket.Separation
import AoMarket.InboundArgs
import AoMarket.Sections
import AoMarket.CycleSections
import AoMarket.OverlappingCycles
import AoMarket.ResyncFailure
import AoMarket.StorableText
import AoMarket.AlertFanOut
import AoMarket.SettingLimits
import AoMarket.ServiceCalls
import AoMarket.CommandReplies
import AoMarket.SettingRepair
import AoMarket.Unregistration
import AoMarket.AdminSecrecy
import AoMarket.DestructiveCommands
import AoMarket.BulkUnwatch
import AoMarket.CommandRouting
import AoMarket.LoginProtocol
import AoMarket.LoginAgreement
import AoMarket.Survival
import AoMarket.Scheduler
import AoMarket.SchedulerRuns
import AoMarket.Reliance
import AoMarket.ChatSession
import AoMarket.SessionTraffic
import AoMarket.BotThread
import AoMarket.Publication
import AoMarket.Obliviousness
import AoMarket.ReplySecrecy
import AoMarket.Concurrency
import AoMarket.Ledger
import AoMarket.RetrySpacing
import AoMarket.Recording
import AoMarket.Tracing
import AoMarket.Provenance
import AoMarket.Authority
import AoMarket.WatchOrigin
import AoMarket.SettingsOrigin
import AoMarket.SubscriptionOrigin
