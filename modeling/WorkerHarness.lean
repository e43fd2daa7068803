import WorkerHarness.Coroutines
import WorkerHarness.CoroutinePools
import WorkerHarness.RelyGuarantee
import WorkerHarness.CoroutineEffects
import WorkerHarness.SharedTransactions
import WorkerHarness.SortedLists
import WorkerHarness.Models
import WorkerHarness.DatabaseTables
import WorkerHarness.DatabaseJobs
import WorkerHarness.DatabaseSessions
import WorkerHarness.JobQueues
import WorkerHarness.AtomicMethods
import WorkerHarness.QueueRefinement
import WorkerHarness.AtomicSessions
import WorkerHarness.CommandMailbox
import WorkerHarness.SessionRows
import WorkerHarness.SessionStatements
import WorkerHarness.TaskQuestions
import WorkerHarness.SessionTokens
import WorkerHarness.LiveSessions
import WorkerHarness.NumberedLogs
import WorkerHarness.EventLog
import WorkerHarness.SessionIsolation
import WorkerHarness.LostWrites
import WorkerHarness.JobRows
import WorkerHarness.JobManager
import WorkerHarness.RecoveryOrder
import WorkerHarness.FleetEffects
import WorkerHarness.Orchestrator
import WorkerHarness.FleetRoutes
import WorkerHarness.ManagerRows
import WorkerHarness.OrchestratorCalls
import WorkerHarness.ManagerLocks
import WorkerHarness.LaunchedSessions
import WorkerHarness.ManagerLaunches
import WorkerHarness.LiveManagers
import WorkerHarness.AdoptedTasks
import WorkerHarness.WorktreeRemovals
import WorkerHarness.WriteConfinement
import WorkerHarness.ConfinedRequests
import WorkerHarness.AgentTokens
import WorkerHarness.Base64
import WorkerHarness.BashStrings
import WorkerHarness.RemoteShim
import WorkerHarness.HerdrHost
import WorkerHarness.ShimConfinement
import WorkerHarness.KeyedLists
import WorkerHarness.Lanes
import WorkerHarness.ProcessGroups
import WorkerHarness.SshCalls
import WorkerHarness.TunnelAgreement
import WorkerHarness.SchemaMigration
import WorkerHarness.WorkerReports
import WorkerHarness.DispatchOrder
import WorkerHarness.GpuAssignments
import WorkerHarness.DrainingWorkers
import WorkerHarness.AtomicDeployment
import WorkerHarness.JobScripts
import WorkerHarness.LogFollowing
import WorkerHarness.FileDownloads
import WorkerHarness.CacheFreshness
import WorkerHarness.GatewayAdmission
import WorkerHarness.DataCopyCleanup
import WorkerHarness.RateLimits
import WorkerHarness.ImageUpdates
import WorkerHarness.PullRequests
import WorkerHarness.PullRequestRetries
import WorkerHarness.AdvertisedPaths
import WorkerHarness.HostRuntimes
import WorkerHarness.TunnelPorts
import WorkerHarness.GpuWorkloads
import WorkerHarness.TerminalFrames
import WorkerHarness.RuntimeManifests
import WorkerHarness.GroupFiles
import WorkerHarness.TerminalClient
import WorkerHarness.SlurmChains
import WorkerHarness.Transcripts
import WorkerHarness.SessionPages
import WorkerHarness.SessionLogs
import WorkerHarness.FleetViews
import WorkerHarness.BridgeReplays
import WorkerHarness.ResumePaths
import WorkerHarness.CleanupRetries
import WorkerHarness.JobContracts
import WorkerHarness.JobThreads
import WorkerHarness.JobLifecycles
import WorkerHarness.ExitMarkers
import WorkerHarness.JobVerdicts
import WorkerHarness.UpheldFacts
import WorkerHarness.OrchestratorWalks
import WorkerHarness.WorktreeRecords
import WorkerHarness.TrackedWorktrees
import WorkerHarness.PaneSequences
import WorkerHarness.ShellWords
import WorkerHarness.EnvCommand
import WorkerHarness.LaunchLines
import WorkerHarness.DelimitedLists
import WorkerHarness.WorkerBinds
import WorkerHarness.DataDiscovery
