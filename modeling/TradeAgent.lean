import TradeAgent.PaperBroker
import TradeAgent.CausalGridSchedule
import TradeAgent.EvidenceJournal
import TradeAgent.EvidenceIntegrity
import TradeAgent.CaptureSeal
import TradeAgent.CaptureSealed
import TradeAgent.ScalpOrderConvergence
import TradeAgent.ScalpRefresh
import TradeAgent.ScalpSubmission
import TradeAgent.ScalpOversell
import TradeAgent.EventStore
import TradeAgent.EntryBudget
import TradeAgent.EntryAccounting
import TradeAgent.ScheduledPaper
import TradeAgent.ScheduledReadiness
import TradeAgent.EventEngine
import TradeAgent.NotificationSent
import TradeAgent.PaperRecovery
import TradeAgent.RiskExecution
import TradeAgent.PortfolioRun
import TradeAgent.DurableOrder
import TradeAgent.ShadowConservation
import TradeAgent.ShadowManifest
import TradeAgent.FeatureFeed
import TradeAgent.FeedOverflow
import TradeAgent.ScalpStrategy
import TradeAgent.ScalpReplay
import TradeAgent.ReplayMoves
import TradeAgent.ReplayCash
import TradeAgent.ScalpBackoff
import TradeAgent.OrderStateMachine
import TradeAgent.ScalpOrderProgress
import TradeAgent.ScalpExperiment
import TradeAgent.ScalpForeignDebits
import TradeAgent.ScalpOwnershipChain
import TradeAgent.ScalpRefreshAgain
import TradeAgent.ReplayFills
import TradeAgent.ActivityCoverage
import TradeAgent.EventEligibility
import TradeAgent.PaperRejection
import TradeAgent.RiskRate
import TradeAgent.OrderReconciliation
import TradeAgent.KrakenClocks
import TradeAgent.KrakenMirror
import TradeAgent.FeatureSession
import TradeAgent.EventConvergence
import TradeAgent.ReferenceLedger
import TradeAgent.ReferenceFees
import TradeAgent.ShadowIndependence
import TradeAgent.WorkerLease
import TradeAgent.MinuteBars
import TradeAgent.ShadowSimulation
import TradeAgent.ShadowParticipation
import TradeAgent.ShadowRecovery
import TradeAgent.EventPerformance
import TradeAgent.AccountHistory
import TradeAgent.PaperBaseline
import TradeAgent.EventAccountRisk
import TradeAgent.ScalpCaps
import TradeAgent.LiveShadowRun
import TradeAgent.OrderStreamHealth
import TradeAgent.IntradayBreakout
import TradeAgent.PaperWorker
import TradeAgent.PaperWorkerGuards
