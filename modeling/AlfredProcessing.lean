import AlfredProcessing.Agents.Attribution
import AlfredProcessing.Agents.BuilderPrompt
import AlfredProcessing.Agents.Condenser
import AlfredProcessing.Agents.ContextCache
import AlfredProcessing.Agents.ModuleSpecialist
import AlfredProcessing.Agents.NoteMerging
import AlfredProcessing.Agents.Reflection
import AlfredProcessing.Agents.RunCrew
import AlfredProcessing.Api.AdminClient
import AlfredProcessing.Api.Lifecycle
import AlfredProcessing.Api.Polling
import AlfredProcessing.Api.RestRunner
import AlfredProcessing.Api.RestSlots
import AlfredProcessing.Api.Routes
import AlfredProcessing.Api.UsageReports
import AlfredProcessing.Defense.Sanitizer
import AlfredProcessing.Extract.BalancedClose
import AlfredProcessing.Extract.Changes
import AlfredProcessing.Extract.Cleaning
import AlfredProcessing.Extract.DriftGuard
import AlfredProcessing.Extract.Leakage
import AlfredProcessing.Extract.Parse
import AlfredProcessing.Extract.RoundTrip
import AlfredProcessing.Extract.Totality
import AlfredProcessing.Extract.Truncation
import AlfredProcessing.Handlers.CandidateSoundness
import AlfredProcessing.Handlers.GroupByResolution
import AlfredProcessing.Handlers.InsightsCandidate
import AlfredProcessing.Handlers.Plan
import AlfredProcessing.Handlers.PresetRange
import AlfredProcessing.Knowledge.HybridSearch
import AlfredProcessing.Knowledge.Loader
import AlfredProcessing.Knowledge.Search
import AlfredProcessing.Lib.Brackets
import AlfredProcessing.Lib.Calendar
import AlfredProcessing.Lib.Cells
import AlfredProcessing.Lib.Cursor
import AlfredProcessing.Lib.Effects
import AlfredProcessing.Lib.Expiring
import AlfredProcessing.Lib.Fallible
import AlfredProcessing.Lib.Fill
import AlfredProcessing.Lib.Ip
import AlfredProcessing.Lib.Joined
import AlfredProcessing.Lib.Json
import AlfredProcessing.Lib.JsonCompact
import AlfredProcessing.Lib.JsonDecode
import AlfredProcessing.Lib.JsonDump
import AlfredProcessing.Lib.JsonScan
import AlfredProcessing.Lib.JsonText
import AlfredProcessing.Lib.Keyed
import AlfredProcessing.Lib.Lines
import AlfredProcessing.Lib.Nesting
import AlfredProcessing.Lib.Objects
import AlfredProcessing.Lib.Occurrence
import AlfredProcessing.Lib.Phrases
import AlfredProcessing.Lib.Placing
import AlfredProcessing.Lib.PyRepr
import AlfredProcessing.Lib.Ranking
import AlfredProcessing.Lib.Reach
import AlfredProcessing.Lib.Regex
import AlfredProcessing.Lib.Shadow
import AlfredProcessing.Lib.SqlLexer
import AlfredProcessing.Lib.Stamped
import AlfredProcessing.Lib.StrFormat
import AlfredProcessing.Lib.Substitute
import AlfredProcessing.Lib.Transition
import AlfredProcessing.Lib.Url
import AlfredProcessing.Llm.Client
import AlfredProcessing.Llm.Tiers
import AlfredProcessing.Middleware.Charges
import AlfredProcessing.Middleware.RateLimit
import AlfredProcessing.Middleware.TenantKeys
import AlfredProcessing.Obs.LogRedaction
import AlfredProcessing.Obs.Tracing
import AlfredProcessing.Orchestrator.Classify
import AlfredProcessing.Pipeline.Context
import AlfredProcessing.Pipeline.DryRun
import AlfredProcessing.Pipeline.DryRunTotality
import AlfredProcessing.Pipeline.DryRunVerdict
import AlfredProcessing.Pipeline.Entry
import AlfredProcessing.Pipeline.Frames
import AlfredProcessing.Pipeline.Guarantees
import AlfredProcessing.Pipeline.HandoffQuery
import AlfredProcessing.Pipeline.HandoffSafety
import AlfredProcessing.Pipeline.MarkerRoundTrip
import AlfredProcessing.Pipeline.MemoryFeedback
import AlfredProcessing.Pipeline.ModuleNotes
import AlfredProcessing.Pipeline.NoteIndices
import AlfredProcessing.Pipeline.Outcomes
import AlfredProcessing.Pipeline.Phases
import AlfredProcessing.Pipeline.PlanHandoff
import AlfredProcessing.Pipeline.PlanLifecycle
import AlfredProcessing.Pipeline.Runner
import AlfredProcessing.Pipeline.Shipped
import AlfredProcessing.Pipeline.SiteState
import AlfredProcessing.Pipeline.Terminal
import AlfredProcessing.Pipeline.Warmup
import AlfredProcessing.PostBuild.Backfill
import AlfredProcessing.PostBuild.BackfillLabels
import AlfredProcessing.PostBuild.BackfillStable
import AlfredProcessing.PostBuild.BackfillTyped
import AlfredProcessing.PostBuild.Provenance
import AlfredProcessing.PostBuild.Reflection
import AlfredProcessing.PostBuild.ReportHandoff
import AlfredProcessing.Registry.Detection
import AlfredProcessing.Scripts.RotateKey
import AlfredProcessing.Security.SqlAcceptance
import AlfredProcessing.Security.SqlPasses
import AlfredProcessing.Security.SqlSafety
import AlfredProcessing.Security.SqlSoundness
import AlfredProcessing.Security.UrlAllowlist
import AlfredProcessing.State.ConversationMemory
import AlfredProcessing.State.Isolation
import AlfredProcessing.State.MemoryRendering
import AlfredProcessing.State.Recording
import AlfredProcessing.State.Store
import AlfredProcessing.Tools.ChangesetOrder
import AlfredProcessing.Tools.CodeValidation
import AlfredProcessing.Tools.JsSyntax
import AlfredProcessing.Tools.McpClient
import AlfredProcessing.Tools.McpTools
import AlfredProcessing.Tools.McpTotality
import AlfredProcessing.Tools.Objects
import AlfredProcessing.Tools.WorkflowCheck
import AlfredProcessing.Websocket.Clarify
import AlfredProcessing.Websocket.Endpoint
import AlfredProcessing.Websocket.Frames
import AlfredProcessing.Websocket.PromptEffects
import AlfredProcessing.Websocket.Questions
import AlfredProcessing.Websocket.Registry
import AlfredProcessing.Websocket.Replay
import AlfredProcessing.Websocket.Tenants
