import Workbench.Catalog.Confinement
import Workbench.Catalog.Convergence
import Workbench.Catalog.CredentialCell
import Workbench.Catalog.CredentialChanges
import Workbench.Catalog.CredentialMirror
import Workbench.Catalog.CredentialPush
import Workbench.Catalog.Credentials
import Workbench.Catalog.Delivery
import Workbench.Catalog.Edits
import Workbench.Catalog.ModelSources
import Workbench.Catalog.Producers
import Workbench.Catalog.RoutingOrder
import Workbench.Catalog.RunningAgent
import Workbench.Catalog.SourceRegistry
import Workbench.Catalog.SourceRotation
import Workbench.Catalog.Tables
import Workbench.Catalog.Tenants
import Workbench.Catalog.VisibleOfferings
import Workbench.DeferredTools.Listing
import Workbench.DeferredTools.Match
import Workbench.DeferredTools.NamePattern
import Workbench.DeferredTools.SearchLaws
import Workbench.DeferredTools.Selection
import Workbench.DeferredTools.ToolSearch
import Workbench.ErrorSink.AssignedSecrets
import Workbench.ErrorSink.AuthorizationHeader
import Workbench.ErrorSink.Idempotent
import Workbench.ErrorSink.Redact
import Workbench.ErrorSink.RedactExtra
import Workbench.ErrorSink.ReportError
import Workbench.ErrorSink.Survival
import Workbench.Hub.MailboxSend
import Workbench.Hub.StaticWeb
import Workbench.Lib.Ancestry
import Workbench.Lib.Bootstring
import Workbench.Lib.Client
import Workbench.Lib.Concurrent
import Workbench.Lib.DepthFirst
import Workbench.Lib.Double
import Workbench.Lib.Fallible
import Workbench.Lib.FirstFree
import Workbench.Lib.Grouping
import Workbench.Lib.Insertions
import Workbench.Lib.Json
import Workbench.Lib.JsonLiteral
import Workbench.Lib.LowerCase
import Workbench.Lib.Masking
import Workbench.Lib.Mirroring
import Workbench.Lib.NumberText
import Workbench.Lib.OrderedMap
import Workbench.Lib.OrderedSet
import Workbench.Lib.Path
import Workbench.Lib.Percent
import Workbench.Lib.Ranking
import Workbench.Lib.Reach
import Workbench.Lib.Regex
import Workbench.Lib.Replaced
import Workbench.Lib.Replay
import Workbench.Lib.Rows
import Workbench.Lib.Shadowing
import Workbench.Lib.StableSort
import Workbench.Lib.Stretch
import Workbench.Lib.Strip
import Workbench.Lib.Tally
import Workbench.Lib.Transition
import Workbench.Lib.TwoServers
import Workbench.Lib.Url
import Workbench.Lib.Utf16
import Workbench.Lib.Utf8
import Workbench.Lib.Words
import Workbench.Provisioner.AllocationDirs
import Workbench.Provisioner.Calls
import Workbench.Provisioner.Confirmed
import Workbench.Provisioner.CrashConsistency
import Workbench.Provisioner.Discovery
import Workbench.Provisioner.Effects
import Workbench.Provisioner.FailedInitialize
import Workbench.Provisioner.Generations
import Workbench.Provisioner.Isolation
import Workbench.Provisioner.Moves
import Workbench.Provisioner.MutualExclusion
import Workbench.Provisioner.Names
import Workbench.Provisioner.Orderly
import Workbench.Provisioner.Quiescence
import Workbench.Provisioner.Recovery
import Workbench.Provisioner.Requests
import Workbench.Provisioner.Signals
import Workbench.Provisioner.SpawnOnce
import Workbench.Provisioner.StateFile
import Workbench.Provisioner.StateStore
import Workbench.Provisioner.Steps
import Workbench.Provisioner.Store
import Workbench.Provisioner.System
import Workbench.Provisioner.World
import Workbench.Settings.GlobalRoute
import Workbench.Settings.MakeDefault
import Workbench.Settings.ReorderPatches
import Workbench.Settings.ResolutionOrder
import Workbench.Settings.SwapOffering
import Workbench.Web.AgentDeploy
import Workbench.Web.AgentPrincipal
import Workbench.Web.AgentRedeploy
import Workbench.Web.AgentSource
import Workbench.Web.AncestorChain
import Workbench.Web.AutoRedeploy
import Workbench.Web.BenchStatus
import Workbench.Web.CarriedEffects
import Workbench.Web.DeploySource
import Workbench.Web.DeployablePackage
import Workbench.Web.DisplayName
import Workbench.Web.FenceLabel
import Workbench.Web.ForkSubThread
import Workbench.Web.Hub
import Workbench.Web.HubCredential
import Workbench.Web.InsightsStats
import Workbench.Web.InstallPackage
import Workbench.Web.InstallRuns
import Workbench.Web.LoginNext
import Workbench.Web.McpEnsure
import Workbench.Web.McpPinning
import Workbench.Web.McpRemoval
import Workbench.Web.McpServerName
import Workbench.Web.McpServers
import Workbench.Web.MentionOrder
import Workbench.Web.MentionPicker
import Workbench.Web.Mentions
import Workbench.Web.PendingOpeningMessage
import Workbench.Web.PktLine
import Workbench.Web.PktProgress
import Workbench.Web.Punycode
import Workbench.Web.QueryCache
import Workbench.Web.RedeployCredential
import Workbench.Web.Roster
import Workbench.Web.ShadowOffering
import Workbench.Web.ShadowRollback
import Workbench.Web.SignOut
import Workbench.Web.SubjectPrefixes
import Workbench.Web.TenantConfig
import Workbench.Web.ThreadLists
import Workbench.Web.ThreadOrder
import Workbench.Web.ThreadPartition
import Workbench.Web.ThreadRoots
import Workbench.Web.Threads
import Workbench.Web.WorkbenchPath
import Workbench.Web.WorkerName
import Workbench.Worker.Definition
import Workbench.Worker.SourceTree
import Workbench.Workflow.ApplyEvent
import Workbench.Workflow.Children
import Workbench.Workflow.Definition
import Workbench.Workflow.Lifecycle
import Workbench.Workflow.Prune
import Workbench.Workflow.Routes
import Workbench.Workflow.RunState
import Workbench.Workflow.Schedule
import Workbench.Workflow.Signals
import Workbench.Workflow.StepIds
import Workbench.Workflow.Steps
import Workbench.Workflow.Takes
