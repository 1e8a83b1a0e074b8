import MaxOne.Library.Runs
import MaxOne.Library.Interleaving
import MaxOne.Library.Table
import MaxOne.Library.LockedBlocks
import MaxOne.Library.LockOrder
import MaxOne.Library.DecimalRounding
import MaxOne.Library.PostingBook
import MaxOne.Rates
import MaxOne.Schema
import MaxOne.Accounts
import MaxOne.WalletsService
import MaxOne.WalletsMachine
import MaxOne.Ledger
import MaxOne.MoneyRuns
import MaxOne.LedgerChain
import MaxOne.LedgerAmounts
import MaxOne.TransferPairs
import MaxOne.AuditTrail
import MaxOne.Settlements
import MaxOne.Idempotency
import MaxOne.AuthService
import MaxOne.AuthMachine
import MaxOne.AuthRuns
import MaxOne.RevokedFamilies
import MaxOne.Suspensions
import MaxOne.RoleChanges
import MaxOne.SecondFactor
import MaxOne.TokenPurposes
import MaxOne.RecoveryCodes
import MaxOne.TwoFactorWrites
import MaxOne.RowLocks
import MaxOne.Events
import MaxOne.NotificationConsumer
import MaxOne.ConsumerChannels
import MaxOne.PushDeliveries
import MaxOne.Outbox
import MaxOne.PriceAlerts
import MaxOne.RatesService
import MaxOne.FailClosed
import MaxOne.Reservations
import MaxOne.PasskeyCounters
import MaxOne.UserHistory
import MaxOne.ConcurrentRefreshes
import MaxOne.OutboxBookkeeping
import MaxOne.BrokerLink
import MaxOne.ExactConversion
import MaxOne.StaffLists
import MaxOne.Library.TwoRuns
import MaxOne.TransferPrivacy
import MaxOne.Library.Edges
import MaxOne.OpsWatch
import MaxOne.Kraken
import MaxOne.Markets
import MaxOne.Library.Utf16
import MaxOne.SanitizeNumber
import MaxOne.Library.NumberText
import MaxOne.MoneyAmounts
import MaxOne.TableLinks
import MaxOne.TablePages
import MaxOne.AuditDates
import MaxOne.Library.Totals
import MaxOne.Conservation
import MaxOne.EarnedAnswers
import MaxOne.LogicalSends
import MaxOne.EdgeSessions
import MaxOne.EdgeTokens
import MaxOne.EdgeVisits
import MaxOne.EdgeSurvival
import MaxOne.Library.JsonText
import MaxOne.HttpErrors
import MaxOne.AuditDiff
import MaxOne.EventWire
import MaxOne.LiveEvents
import MaxOne.PayByHandle
import MaxOne.CacheAside
