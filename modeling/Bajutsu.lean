import Bajutsu.Lib.PyValue
import Bajutsu.Config.Merge
import Bajutsu.Devices.Assignment
import Bajutsu.Devices.AssignmentSound
import Bajutsu.Devices.VersionGrammar
import Bajutsu.Drivers.Selector
import Bajutsu.Evidence.CredentialShapes
import Bajutsu.Evidence.LineMasker
import Bajutsu.Evidence.LineMaskerPositions
import Bajutsu.Evidence.Redaction
import Bajutsu.Evidence.RedactionIndependence
import Bajutsu.Evidence.RedactionLeak
import Bajutsu.Jobs.Cancel
import Bajutsu.Jobs.Handoff
import Bajutsu.Jobs.Stale
import Bajutsu.Lib.FileSystem
import Bajutsu.Serve.FileObjectKeys
import Bajutsu.Serve.FileObjectRefinement
import Bajutsu.Serve.OidcExchange
import Bajutsu.Serve.OidcReplay
import Bajutsu.Serve.Orgs
import Bajutsu.Serve.Seeding
import Bajutsu.Evidence.ControlChannel
import Bajutsu.Evidence.ControlChannelRequests
import Bajutsu.Runner.Pool
import Bajutsu.Runner.PoolConserved
import Bajutsu.Runner.PoolProgress
import Bajutsu.Serve.LogBus
import Bajutsu.Serve.LogBusStreams
import Bajutsu.Lib.Fuelled
import Bajutsu.Scenarios.Expand
import Bajutsu.Scenarios.ExpandComponents
import Bajutsu.Scenarios.ExpandHalts
import Bajutsu.Crawl.Action
import Bajutsu.Crawl.Bootstrap
import Bajutsu.Crawl.CoordinatorSafe
import Bajutsu.Crawl.CrawlComplete
import Bajutsu.Crawl.Repro
import Bajutsu.Lib.LockOrder
import Bajutsu.Runner.LeaseTargets
import Bajutsu.Runner.LeaseTargetsOrder
import Bajutsu.Runner.LeaseTargetsSafe
import Bajutsu.Lib.UrlSplit
import Bajutsu.Serve.Gate
import Bajutsu.Serve.Routes
import Bajutsu.Serve.SecurityGate
import Bajutsu.Analysis.ChangedFiles
import Bajutsu.Analysis.Impact
import Bajutsu.Drivers.IdIndex
import Bajutsu.Jobs.CloudRuns
import Bajutsu.Jobs.CloudRunsSafe
import Bajutsu.Serve.RedisLogBus
import Bajutsu.Serve.RedisLogBusStreams
import Bajutsu.Cloud.DeviceFarm
import Bajutsu.Cloud.DeviceFarmVerdict
import Bajutsu.Serve.JobCancel
import Bajutsu.Serve.JobCancelKills
import Bajutsu.Serve.Materialize
import Bajutsu.Lib.PathPattern
import Bajutsu.Lib.PercentDecoding
import Bajutsu.Serve.Dispatch
import Bajutsu.Serve.DispatchAlike
import Bajutsu.Assertions.AssignRequests
import Bajutsu.Assertions.EvaluateRequests
import Bajutsu.Devices.FirstRun
import Bajutsu.Drivers.PositionPath
import Bajutsu.Evidence.RedactionValues
import Bajutsu.Lib.ByteStream
import Bajutsu.OnDevice.HTTPConnection
import Bajutsu.OnDevice.InterruptionPolicy
import Bajutsu.OnDevice.InterruptionShowing
import Bajutsu.OnDevice.InterruptionStoreSafe
import Bajutsu.Orchestrator.RosterSafe
import Bajutsu.Orchestrator.Eval
import Bajutsu.Orchestrator.EvalSecrets
import Bajutsu.Config.Templates
import Bajutsu.Config.TemplatesFold
import Bajutsu.Crawl.Pruning
import Bajutsu.Lib.Recency
import Bajutsu.Orchestrator.Cleanup
import Bajutsu.Orchestrator.ExtractSettle
import Bajutsu.Serve.LiveLineBudget
import Bajutsu.Serve.QueueLogBus
import Bajutsu.Crawl.Serialize
import Bajutsu.Crawl.SerializeRoundTrip
import Bajutsu.Crawl.Identity
import Bajutsu.Lib.TurnLoop
import Bajutsu.Orchestrator.Waits
import Bajutsu.Orchestrator.WaitsJudge
import Bajutsu.Runner.CrashRecovery
import Bajutsu.Runner.CrashRecoveryHonest
import Bajutsu.Scenarios.ExpandTargets
import Bajutsu.Scenarios.ScenarioTargets
import Bajutsu.Evidence.Golden
import Bajutsu.Evidence.GoldenOrder
import Bajutsu.Evidence.Visual
import Bajutsu.Lib.RegexLanguage
import Bajutsu.Lib.Streak
import Bajutsu.Orchestrator.EmailWait
import Bajutsu.Orchestrator.InterruptGuard
import Bajutsu.Scenarios.RowNames
import Bajutsu.Serve.BodyCap
import Bajutsu.Analysis.Audit
import Bajutsu.Scenarios.EvalRaises
import Bajutsu.Orchestrator.EvalTotal
import Bajutsu.Assertions.EvaluateKinds
import Bajutsu.Assertions.EvaluateRaises
import Bajutsu.Assertions.EvaluateTotal
import Bajutsu.Lib.Effect
import Bajutsu.Orchestrator.AppCrash
import Bajutsu.Orchestrator.AppCrashClassified
import Bajutsu.Orchestrator.AppCrashRun
import Bajutsu.Cloud.LaunchEnv
import Bajutsu.Devices.AssignmentComplete
import Bajutsu.Devices.ListedRuns
import Bajutsu.Lib.EventStream
import Bajutsu.Lib.RoseTree
import Bajutsu.OnDevice.FlattenSnapshot
import Bajutsu.Serve.EventFrames
import Bajutsu.Serve.JobRunId
import Bajutsu.Serve.JobRegistry
import Bajutsu.Serve.JwksCache
import Bajutsu.Serve.ByteRange
import Bajutsu.Serve.OauthPlacement
import Bajutsu.Analysis.Flakiness
import Bajutsu.Orchestrator.HttpPath
import Bajutsu.Orchestrator.HttpStep
import Bajutsu.Orchestrator.Scroll
import Bajutsu.Orchestrator.ScrollHonest
