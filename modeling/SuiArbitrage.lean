import SuiArbitrage.Lib.MachineWord
import SuiArbitrage.Lib.Fallible
import SuiArbitrage.Lib.KeyedStore
import SuiArbitrage.Lib.FirstMax
import SuiArbitrage.Lib.ConstantProduct
import SuiArbitrage.Lib.ConcentratedLiquidity
import SuiArbitrage.Move.Core
import SuiArbitrage.Move.Executor
import SuiArbitrage.Move.PoolRuns
import SuiArbitrage.Move.VaultRuns
import SuiArbitrage.Move.Market
import SuiArbitrage.Move.Transaction
import SuiArbitrage.Move.Sessions
import SuiArbitrage.Rust.Amm
import SuiArbitrage.Rust.ClmmPanics
import SuiArbitrage.Rust.Balanced
import SuiArbitrage.Rust.Honest
import SuiArbitrage.Rust.Predicts
import SuiArbitrage.Rust.Ptb
import SuiArbitrage.Move.FlashRoute
import SuiArbitrage.Rust.FlashArb
import SuiArbitrage.Rust.Config
import SuiArbitrage.Rust.Executor
import SuiArbitrage.Rust.ProfitGate
import SuiArbitrage.Rust.ScanComplete
import SuiArbitrage.Lib.SortedWindow
import SuiArbitrage.Rust.Objects
import SuiArbitrage.Rust.Ticks
import SuiArbitrage.Rust.Windowed
import SuiArbitrage.Rust.Ws
import SuiArbitrage.Rust.Indexer
import SuiArbitrage.Rust.Refresh
import SuiArbitrage.Rust.ActiveSet
import SuiArbitrage.Rust.TickRule
import SuiArbitrage.Rust.StaleTicks
import SuiArbitrage.Lib.ReserveRange
import SuiArbitrage.Rust.SingleRange
import SuiArbitrage.Lib.HighWater
import SuiArbitrage.Rust.Ingest
import SuiArbitrage.Lib.Stateful
import SuiArbitrage.Rust.Live
import SuiArbitrage.Rust.Gates
import SuiArbitrage.Rust.LiveRules
import SuiArbitrage.Rust.LossCap
import SuiArbitrage.Rust.Blacklist
import SuiArbitrage.Rust.Enumeration
import SuiArbitrage.Rust.Gaps
import SuiArbitrage.Rust.TickSides
import SuiArbitrage.Rust.TrackedPools
import SuiArbitrage.Rust.ClmmRounds
import SuiArbitrage.Rust.ClmmMonotone
import SuiArbitrage.Lib.PiecewiseCurve
import SuiArbitrage.Rust.ClmmCurve
import SuiArbitrage.Lib.LinearContext
import SuiArbitrage.Move.Typing
import SuiArbitrage.Rust.PtbTyping
import SuiArbitrage.Rust.LiquidationTyping
import SuiArbitrage.Lib.TernarySearch
import SuiArbitrage.Rust.BestSize
import SuiArbitrage.Rust.TickAtPrice
import SuiArbitrage.Lib.OneRange
import SuiArbitrage.Lib.Thresholds
import SuiArbitrage.Rust.Builds
import SuiArbitrage.Rust.PeakSearch
import SuiArbitrage.Rust.Feasible
import SuiArbitrage.Rust.BestPool
import SuiArbitrage.Rust.Shortlist
import SuiArbitrage.Rust.CoinTypes
import SuiArbitrage.Rust.OwnedSweep
import SuiArbitrage.Lib.TextSlices
import SuiArbitrage.Rust.Hex
import SuiArbitrage.Lib.Brackets
import SuiArbitrage.Rust.PoolTypes
import SuiArbitrage.Lib.GreedyCover
import SuiArbitrage.Rust.GasCoins
import SuiArbitrage.Rust.Conservation
import SuiArbitrage.Move.FlashLands
import SuiArbitrage.Move.Venues
import SuiArbitrage.Rust.Lands
import SuiArbitrage.Move.MixedRoutes
import SuiArbitrage.Rust.MixedBlocks
import SuiArbitrage.Rust.LiveSafety
import SuiArbitrage.Move.Exposure
import SuiArbitrage.Move.Financed
import SuiArbitrage.Rust.MarketLoans
import SuiArbitrage.Rust.Environment
import SuiArbitrage.Move.Encapsulation
import SuiArbitrage.Move.Crowd
import SuiArbitrage.Rust.AmongOthers
import SuiArbitrage.Rust.Delivers
import SuiArbitrage.Lib.LatestRead
import SuiArbitrage.Rust.IndexRuns
