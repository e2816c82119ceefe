import FreqTrading.Lib.Run
import FreqTrading.Lib.Program
import FreqTrading.Lib.Traverse
import FreqTrading.Lib.Repr
import FreqTrading.Lib.Rounding
import FreqTrading.Lib.Memory
import FreqTrading.Lib.Lines
import FreqTrading.Lib.Json
import FreqTrading.Lib.Python
import FreqTrading.Lib.Fields
import FreqTrading.Lib.FloatText
import FreqTrading.Lib.JsonLoad
import FreqTrading.Lib.JsonDump
import FreqTrading.Lib.Calendar
import FreqTrading.Lib.Outbox
import FreqTrading.Lib.Cursor
import FreqTrading.Lib.Stamped
import FreqTrading.Lib.Quota
import FreqTrading.Lib.Recount
import FreqTrading.Lib.Latch
import FreqTrading.Lib.Views
import FreqTrading.Lib.Buckets
import FreqTrading.Lib.Extremum
import FreqTrading.Lib.Drawdown
import FreqTrading.Lib.Groups
import FreqTrading.Models
import FreqTrading.Session
import FreqTrading.SessionOrder
import FreqTrading.Indicators
import FreqTrading.Timeframes
import FreqTrading.Trueopen
import FreqTrading.Quarters
import FreqTrading.Riskguard
import FreqTrading.Execguard
import FreqTrading.Sizing
import FreqTrading.Engine.Basic
import FreqTrading.Engine.TradeCycle
import FreqTrading.Engine.Steps
import FreqTrading.Engine.Invariant
import FreqTrading.Engine.Runs
import FreqTrading.Engine.OneTrade
import FreqTrading.Engine.StopDiscipline
import FreqTrading.Engine.EntryLevels
import FreqTrading.Engine.OpeningRange
import FreqTrading.Engine.Survival
import FreqTrading.Broker.Retcodes
import FreqTrading.Broker.Terminal
import FreqTrading.Broker.Mt5
import FreqTrading.Broker.Rules
import FreqTrading.Broker.Retry
import FreqTrading.Broker.PartialTp
import FreqTrading.Broker.Steps
import FreqTrading.Broker.Own
import FreqTrading.Broker.SendTrace
import FreqTrading.Broker.VolumeLadder
import FreqTrading.Broker.NoMoney
import FreqTrading.Broker.RetryBound
import FreqTrading.Broker.EntryGeometry
import FreqTrading.Broker.Outcomes
import FreqTrading.Broker.Asked
import FreqTrading.Broker.Ledger
import FreqTrading.Exits.Babysitter
import FreqTrading.Exits.Ladder
import FreqTrading.Exits.RiskUnit
import FreqTrading.Exits.StopStages
import FreqTrading.Exits.LadderVolume
import FreqTrading.Exits.Runner
import FreqTrading.Exits.SitterStops
import FreqTrading.Exits.Tickets
import FreqTrading.Svp.Profile
import FreqTrading.Svp.ValueArea
import FreqTrading.Svp.Nodes
import FreqTrading.Svp.Config
import FreqTrading.Svp.Strategy
import FreqTrading.Svp.Steps
import FreqTrading.Svp.Protection
import FreqTrading.Killzones
import FreqTrading.Smc.Structure
import FreqTrading.Smc.OrderBlocks
import FreqTrading.Smc.Config
import FreqTrading.Smc.Strategy
import FreqTrading.Smc.Contract
import FreqTrading.Smc.Clock
import FreqTrading.Smc.BlockUse
import FreqTrading.Smc.BlockHistory
import FreqTrading.Smc.Equilibrium
import FreqTrading.Smc.Offline
import FreqTrading.Engine.Cycles
import FreqTrading.Mql5.Structure
import FreqTrading.Mql5.OrderBlocks
import FreqTrading.Mql5.Partials
import FreqTrading.Mql5.Stops
import FreqTrading.Mql5.Confluence
import FreqTrading.Mql5.Entry
import FreqTrading.Mql5.Ticks
import FreqTrading.Mql5.TickRuns
import FreqTrading.Brokerstate
import FreqTrading.Macroguard.State
import FreqTrading.Macroguard.Guard
import FreqTrading.Macro.State
import FreqTrading.Macro.Events
import FreqTrading.Macro.Scorer
import FreqTrading.Macro.Sentiment
import FreqTrading.Macro.Layers
import FreqTrading.Macro.Build
import FreqTrading.Macro.WellFormed
import FreqTrading.Macro.Vetoes
import FreqTrading.Macro.Daemon
import FreqTrading.Macro.Cooldown
import FreqTrading.Macro.StateText
import FreqTrading.Macro.Sidecar
import FreqTrading.Macro.SidecarRuns
import FreqTrading.Macro.Backtest
import FreqTrading.Live.Basic
import FreqTrading.Live.Steps
import FreqTrading.Live.Agreement
import FreqTrading.Live.OnePosition
import FreqTrading.Live.StopSync
import FreqTrading.Live.Flatten
import FreqTrading.Live.Strategies
import FreqTrading.Live.Warmup
import FreqTrading.Live.LossGuard
import FreqTrading.Live.Budget
import FreqTrading.Live.Halt
import FreqTrading.Stream
import FreqTrading.Feeds.Mt5Feed
import FreqTrading.Feeds.Batches
import FreqTrading.Backtest.Aggregate
import FreqTrading.Backtest.HigherTf
import FreqTrading.Backtest.Sim
import FreqTrading.Backtest.Limit
import FreqTrading.Backtest.Sweep
import FreqTrading.Backtest.SweepRuns
import FreqTrading.Backtest.Smc
import FreqTrading.Analytics
import FreqTrading.Backtest.Accounting
import FreqTrading.LiveReport
import FreqTrading.Copytrade.Store
import FreqTrading.Copytrade.Broadcast
import FreqTrading.Copytrade.Delivery
import FreqTrading.Copytrade.SpoolCrash
import FreqTrading.Copytrade.Server
import FreqTrading.Copytrade.Latest
import FreqTrading.Copytrade.Overflow
import FreqTrading.Copytrade.Follower
import FreqTrading.Symbols
import FreqTrading.Tradeevents
import FreqTrading.Broker.Events
