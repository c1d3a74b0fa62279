import AstraTrader.Numeric.Int128
import AstraTrader.Numeric.Decimal
import AstraTrader.Numeric.Lot
import AstraTrader.Numeric.Rounding
import AstraTrader.Numeric.Binary64
import AstraTrader.Numeric.Calendar
import AstraTrader.Text.Digits
import AstraTrader.Text.Padded
import AstraTrader.Text.Csv
import AstraTrader.Text.Decimal
import AstraTrader.Text.Json
import AstraTrader.Text.JsonText
import AstraTrader.Text.JsonDocument
import AstraTrader.Text.Breaks
import AstraTrader.Process.Run
import AstraTrader.Process.Sweep
import AstraTrader.Process.Trace
import AstraTrader.Process.Extremes
import AstraTrader.Process.Fallible
import AstraTrader.Process.Grouping
import AstraTrader.Process.Dictionary
import AstraTrader.Process.Options
import AstraTrader.Process.Log
import AstraTrader.Types
import AstraTrader.Ledger.Model
import AstraTrader.Ledger.Unbounded
import AstraTrader.Ledger.Refinement
import AstraTrader.Ledger.Accounting
import AstraTrader.Ledger.Conservation
import AstraTrader.Ledger.Symmetry
import AstraTrader.Ledger.Valuation
import AstraTrader.Ledger.Splitting
import AstraTrader.Ledger.PartialClose
import AstraTrader.Exchange.Model
import AstraTrader.Exchange.Steps
import AstraTrader.Exchange.Reconciliation
import AstraTrader.Exchange.Protection
import AstraTrader.Exchange.Exposure
import AstraTrader.Exchange.History
import AstraTrader.Exchange.LifeCycle
import AstraTrader.Exchange.Acknowledgement
import AstraTrader.Exchange.MarketOrders
import AstraTrader.Exchange.Redelivery
import AstraTrader.Exchange.ReduceOnly
import AstraTrader.Exchange.Cancellation
import AstraTrader.Exchange.InFlight
import AstraTrader.Exchange.Matching
import AstraTrader.Exchange.TradePrint
import AstraTrader.Exchange.QueuePosition
import AstraTrader.Exchange.Notional
import AstraTrader.Exchange.NotionalGate
import AstraTrader.Exchange.Normalization
import AstraTrader.Exchange.Journal
import AstraTrader.Exchange.Halt
import AstraTrader.Exchange.WholeSteps
import AstraTrader.Risk
import AstraTrader.Decision
import AstraTrader.Features
import AstraTrader.FeatureWindow
import AstraTrader.Replay.Model
import AstraTrader.Replay.Runs
import AstraTrader.Replay.Waiting
import AstraTrader.Replay.Target
import AstraTrader.Replay.Metrics
import AstraTrader.Replay.Cadence
import AstraTrader.Replay.Tape
import AstraTrader.Replay.Fields
import AstraTrader.Replay.TapeFormat
import AstraTrader.Replay.StreamFormat
import AstraTrader.Replay.StreamFeatures
import AstraTrader.Replay.ArchivePaths
import AstraTrader.Replay.Archives
import AstraTrader.Replay.DetailLog
import AstraTrader.Replay.CommandLine
import AstraTrader.Replay.Output
import AstraTrader.Replay.ReadBack
import AstraTrader.Replay.Program
import AstraTrader.Live.ModelWorker
import AstraTrader.Live.ExchangeClock
import AstraTrader.Live.ClockHistory
import AstraTrader.Live.Loop
import AstraTrader.Live.Gating
import AstraTrader.Live.Exposure
import AstraTrader.Live.AuditWriter
import AstraTrader.Live.FeedDecimal
import AstraTrader.Live.PublicFeed
import AstraTrader.Live.LayaGateway
import AstraTrader.Live.Conversation
import AstraTrader.Research.Report
import AstraTrader.Research.Holdout
import AstraTrader.Research.Precheck
import AstraTrader.Research.Bars
import AstraTrader.Research.Labels
import AstraTrader.Research.CppReport
import AstraTrader.Process.Simulation
import AstraTrader.Live.Status
import AstraTrader.Live.Service
import AstraTrader.Live.Interleaving
import AstraTrader.Live.Hearing
import AstraTrader.Live.Served
import AstraTrader.Live.Recorded
import AstraTrader.Research.PaperAudit
import AstraTrader.Research.DetailAudit
