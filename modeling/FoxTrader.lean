import FoxTrader.Lib.Run
import FoxTrader.Lib.Fifo
import FoxTrader.Lib.Flagged
import FoxTrader.Lib.Codec
import FoxTrader.Lib.Lanes
import FoxTrader.Money
import FoxTrader.SPSCRing
import FoxTrader.ParameterSlot
import FoxTrader.ParameterCache
import FoxTrader.GateParameters
import FoxTrader.MoneyDouble
import FoxTrader.ExecutionCore
import FoxTrader.LegAlternation
import FoxTrader.OrderEventLog
import FoxTrader.OrderEventLogRestart
import FoxTrader.OrderEventLogAsync
import FoxTrader.Portfolio
import FoxTrader.Order
import FoxTrader.Composer
import FoxTrader.FillHandlers
import FoxTrader.ComposerTotals
import FoxTrader.OrderManager
import FoxTrader.OrderOutcomes
import FoxTrader.OrderTable
import FoxTrader.OrderLegs
import FoxTrader.OrderRemainder
import FoxTrader.LedgerReconciliation
import FoxTrader.OrderEventFold
import FoxTrader.LedgerReplay
import FoxTrader.SPSCRingSteps
import FoxTrader.ParameterRead
import FoxTrader.FillRings
import FoxTrader.ScheduleIndependence
import FoxTrader.PhasedDrain
import FoxTrader.SlotTallies
import FoxTrader.PhaseOrder
import FoxTrader.FillReports
import FoxTrader.Holdings
import FoxTrader.ExitProducers
import FoxTrader.ExitsKept
import FoxTrader.HotPathWatch
import FoxTrader.ClientOrderId
import FoxTrader.MissedFills
import FoxTrader.KillRequests
import FoxTrader.ShardedSnapshot
import FoxTrader.OpenNotional
import FoxTrader.PartnerPairing
import FoxTrader.OrderEventIds
import FoxTrader.FlattenRecovery
import FoxTrader.TreeWalker
import FoxTrader.TreeMargins
import FoxTrader.TrainingLabels
import FoxTrader.DepthReplay
import FoxTrader.TickTape
import FoxTrader.MoneyExact
import FoxTrader.ExpectedCash
import FoxTrader.NodeRowWalk
import FoxTrader.NodeRowReplay
import FoxTrader.LabelFunctions
import FoxTrader.PurgeGap
import FoxTrader.TestBlindLabels
import FoxTrader.LegRounding
import FoxTrader.RefusedFills
import FoxTrader.OverfilledLegs
import FoxTrader.SlotQuantities
import FoxTrader.RollingStats
import FoxTrader.RollingExtremes
import FoxTrader.RollingWindow
import FoxTrader.RollingRegression
import FoxTrader.Lib.KeyValueLines
import FoxTrader.StampRegistry
import FoxTrader.StampText
import FoxTrader.ModelStamp
import FoxTrader.StampReading
import FoxTrader.StampRoundTrip
import FoxTrader.StampAuthenticity
import FoxTrader.Lib.WordProduct
import FoxTrader.MoneyWords
import FoxTrader.Lib.Base64
import FoxTrader.WebSocketKey
import FoxTrader.Lib.WebSocketFrame
import FoxTrader.WebSocketUtil
import FoxTrader.PrivateFrames
import FoxTrader.ClockSync
import FoxTrader.KillResets
import FoxTrader.Lib.FlagWord
import FoxTrader.HotPathMasks
import FoxTrader.ReplayedTargets
import FoxTrader.RatchetWrites
import FoxTrader.FeeFloor
import FoxTrader.Lib.LongDivision
import FoxTrader.WideDivision
import FoxTrader.MoneyDivide
import FoxTrader.FixedPointWords
import FoxTrader.Lib.NewtonSqrt
import FoxTrader.FixedPointSqrt
import FoxTrader.Lib.Decimal
import FoxTrader.MoneyText
import FoxTrader.MoneyCasts
import FoxTrader.Lib.DirectMapped
import FoxTrader.BucketRing
import FoxTrader.Lib.ChunkedLines
import FoxTrader.ConfigLines
import FoxTrader.DoubleText
import FoxTrader.CfgFieldDispatch
import FoxTrader.BuddyRuns
import FoxTrader.StrategyBuild
import FoxTrader.RegimeDetector
import FoxTrader.BookImbalance
import FoxTrader.FracDiffBars
import FoxTrader.ParseFast
import FoxTrader.FauxFIX
import FoxTrader.BinanceDepth
import FoxTrader.BinanceCrypto
import FoxTrader.TreeTermination
import FoxTrader.Lib.AppendOnly
import FoxTrader.ShardedTradeLog
import FoxTrader.Lib.TruncatedSeries
import FoxTrader.Lib.DecayingAverage
import FoxTrader.FixedPointExp
import FoxTrader.FlowFeatures
import FoxTrader.Lib.Extended
import FoxTrader.BanditLearning
import FoxTrader.EnsembleModelZoo
import FoxTrader.DriftWatchdog
import FoxTrader.RewardRing
import FoxTrader.Lib.TriangularSolve
import FoxTrader.CholeskySolve
import FoxTrader.RidgeCorrelation
import FoxTrader.RidgeCycle
import FoxTrader.Lib.WeightedMean
import FoxTrader.EnsembleBlend
import FoxTrader.RegimeAdjust
import FoxTrader.StampThreshold
import FoxTrader.BanditSave
import FoxTrader.Lib.RingCursor
import FoxTrader.ConfidenceScore
import FoxTrader.FeatureStandardizer
import FoxTrader.ScalerParity
import FoxTrader.SlowPathCycle
import FoxTrader.SlowPathRun
import FoxTrader.RatchetsHeld
import FoxTrader.ExitsArmed
import FoxTrader.EntriesBlocked
import FoxTrader.RatchetsOwned
import FoxTrader.Lib.CountedRing
import FoxTrader.Lib.Throughput
import FoxTrader.NotifyQueue
import FoxTrader.Lib.ShellQuoting
import FoxTrader.NotifyCommand
import FoxTrader.Lib.RecordReader
import FoxTrader.SnapshotFile
import FoxTrader.SnapshotRoundTrip
import FoxTrader.SnapshotStore
import FoxTrader.Lib.FlooredDecay
import FoxTrader.RegressionFeeder
import FoxTrader.StrategyAdapt
import FoxTrader.AdaptationRuns
import FoxTrader.EntriesShrink
import FoxTrader.EntrySides
import FoxTrader.PnlBlind
import FoxTrader.Lib.LockTable
import FoxTrader.StateDirLock
import FoxTrader.HotSwap
