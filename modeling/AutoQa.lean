import AutoQa.Base.Prog
import AutoQa.Base.Text
import AutoQa.Base.Json
import AutoQa.LlmAgents.Types
import AutoQa.LlmAgents.Adapters
import AutoQa.LlmAgents.Transcript
import AutoQa.LlmAgents.World
import AutoQa.LlmAgents.Providers
import AutoQa.LlmAgents.Structured
import AutoQa.LlmAgents.ResultAnalyzer
import AutoQa.LlmAgents.Guardrails
import AutoQa.LlmAgents.TestPlanner
import AutoQa.LlmAgents.FeatureAudit
import AutoQa.LlmAgents.Turn
import AutoQa.LlmAgents.Conversation
import AutoQa.Cli.Init
import AutoQa.LlmAgents.Cost
import AutoQa.LlmAgents.Accounting
import AutoQa.Db.Schema
import AutoQa.Cli.Audit
import AutoQa.Cli.AuditIteration
import AutoQa.Cli.AuditOutcome
import AutoQa.Cli.AuditBudget
import AutoQa.Base.Proc
import AutoQa.TestExecutor.Execute
import AutoQa.Orchestrator.Runner
import AutoQa.Orchestrator.RunnerRecords
import AutoQa.Orchestrator.RunnerUsage
import AutoQa.Orchestrator.Evidence
import AutoQa.Base.System
import AutoQa.LlmAgents.DiffAnalyzer
import AutoQa.Orchestrator.Watcher
import AutoQa.Orchestrator.WatcherChanges
import AutoQa.Orchestrator.Dashboard
import AutoQa.Orchestrator.DashboardConverges
import AutoQa.Base.Bfs
import AutoQa.Base.Pool
import AutoQa.Db.Projects
import AutoQa.Orchestrator.OneProject
import AutoQa.Orchestrator.SmokeVerdict
import AutoQa.TestExecutor.CrawlOrder
import AutoQa.TestExecutor.Origin
import AutoQa.Base.Keyed
import AutoQa.LlmAgents.FeatureClassifier
import AutoQa.LlmAgents.StructuredFallback
import AutoQa.LlmAgents.SingletonChain
import AutoQa.Cli.Discovery
import AutoQa.Cli.Commands
import AutoQa.Cli.Isolation
import AutoQa.Cli.Lifecycle
import AutoQa.Db.Writes
import AutoQa.Cli.AuditProc
import AutoQa.Cli.WritesFit
import AutoQa.LlmAgents.ClaudeEntries
import AutoQa.LlmAgents.ClaudeCalls
import AutoQa.LlmAgents.Moves
import AutoQa.LlmAgents.GuardedAudit
import AutoQa.LlmAgents.FinalStep
import AutoQa.LlmAgents.Escalation
import AutoQa.LlmAgents.EmptyMessages
import AutoQa.Base.Group
import AutoQa.LlmAgents.UsageTable
import AutoQa.TestExecutor.CrawlFaults
import AutoQa.Base.JsonText
import AutoQa.Base.Pattern
import AutoQa.Base.FirstSeen
import AutoQa.Base.Css
import AutoQa.LlmAgents.RoleConfig
import AutoQa.LlmAgents.Fences
import AutoQa.LlmAgents.ClaudeOutput
import AutoQa.Orchestrator.AnalyzerCharges
import AutoQa.Orchestrator.IgnoredPaths
import AutoQa.Orchestrator.DiffCoverage
import AutoQa.Orchestrator.Debounce
import AutoQa.TestExecutor.Released
import AutoQa.TestExecutor.McpServer
import AutoQa.TestExecutor.NetworkInventory
import AutoQa.TestExecutor.Selectors
import AutoQa.Base.Rely
import AutoQa.Cli.Deployment
import AutoQa.Cli.Ledger
import AutoQa.Cli.Owners
import AutoQa.Cli.OwnedRuns
import AutoQa.Cli.OwnedAudits
import AutoQa.Cli.Consistency
import AutoQa.Base.Credit
import AutoQa.Cli.Charges
import AutoQa.Base.Relay
import AutoQa.Orchestrator.App
import AutoQa.Cli.Screens
import AutoQa.LlmAgents.Canary
import AutoQa.Cli.Config
import AutoQa.Cli.Gate
import AutoQa.LlmAgents.Dialogue
import AutoQa.Cli.Tested
