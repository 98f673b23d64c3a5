import Solarcido.Lib.Search
import Solarcido.Lib.ChunkedDecoder
import Solarcido.Lib.InsertionMap
import Solarcido.Lib.ThrowingProgram
import Solarcido.Lib.Traces
import Solarcido.Lib.LeaderGroups
import Solarcido.Js.Text
import Solarcido.Js.LowerCase
import Solarcido.Js.Utf8
import Solarcido.Js.Number
import Solarcido.Js.Value
import Solarcido.Js.RegExp
import Solarcido.Js.NodePath
import Solarcido.Js.Date
import Solarcido.Framing.Protocol
import Solarcido.Framing.Readers
import Solarcido.Tools.FileSystem
import Solarcido.Tools.World
import Solarcido.Tools.Permissions
import Solarcido.Tools.FileOps
import Solarcido.Tools.Specs
import Solarcido.Tools.Executor
import Solarcido.Tools.Registry
import Solarcido.Tools.Calls
import Solarcido.Tools.ReadOnly
import Solarcido.Tools.PlanMode
import Solarcido.Mcp.Naming
import Solarcido.Mcp.Manager
import Solarcido.Mcp.Routing
import Solarcido.Api.Errors
import Solarcido.Api.Chat
import Solarcido.Conversation.Machine
import Solarcido.Conversation.Summaries
import Solarcido.Conversation.Hooks
import Solarcido.Conversation.Runtime
import Solarcido.Conversation.Steps
import Solarcido.Conversation.Course
import Solarcido.Conversation.HookGate
import Solarcido.Conversation.Pairing
import Solarcido.Conversation.FinishGuard
import Solarcido.Lib.Serial
import Solarcido.Workers.Screen
import Solarcido.Workers.Boot
import Solarcido.Workers.Registry
import Solarcido.Workers.Invariants
import Solarcido.Workers.Finished
import Solarcido.Workers.TrustGate
import Solarcido.Tasks.Registry
import Solarcido.Tasks.Runner
import Solarcido.Tasks.Terminal
import Solarcido.Mcp.Lifecycle
import Solarcido.Lib.Requests
import Solarcido.Rpc.Message
import Solarcido.Rpc.Clients
import Solarcido.Rpc.Settlement
import Solarcido.Rpc.Connection
import Solarcido.Mcp.Server
import Solarcido.Mcp.Replies
import Solarcido.Mcp.Startup
import Solarcido.Lib.SortedMap
import Solarcido.Crates.Messages
import Solarcido.Lib.Emitter
import Solarcido.Lib.Brackets
import Solarcido.Crates.StreamState
import Solarcido.Crates.Blocks
import Solarcido.Crates.StreamEvents
import Solarcido.Crates.Sse
import Solarcido.Crates.SseFrames
import Solarcido.Crates.Permissions
import Solarcido.Crates.Runtime
import Solarcido.Crates.TurnTraces
import Solarcido.Crates.ToolPairing
import Solarcido.Crates.ToolGate
import Solarcido.Crates.Responses
import Solarcido.Crates.Completions
import Solarcido.Crates.Assembly
import Solarcido.Crates.Gathering
import Solarcido.Crates.Splits
import Solarcido.Crates.Replies
import Solarcido.Lib.LinkedTree
import Solarcido.Crates.Paths
import Solarcido.Crates.Places
import Solarcido.Crates.Workspace
import Solarcido.Crates.WriteFile
import Solarcido.Crates.GlobSearch
import Solarcido.Lib.Changes
import Solarcido.Sessions.Store
import Solarcido.Sessions.Partition
import Solarcido.Cron.Expression
import Solarcido.Cron.Daemon
import Solarcido.Cron.Firing
import Solarcido.Api.Caching
import Solarcido.Conversation.Shedding
import Solarcido.Crates.EditFile
import Solarcido.Hashes.Fingerprints
import Solarcido.Tools.Clamping
import Solarcido.Tools.Edits
import Solarcido.Tools.InsideRoot
import Solarcido.Tools.LineWindows
import Solarcido.Cli.Deliveries
import Solarcido.Conversation.Accounting
import Solarcido.Lib.Succession
import Solarcido.Lanes.Events
import Solarcido.Lanes.Reconcile
import Solarcido.Lib.FirstFit
import Solarcido.Conversation.Transcripts
import Solarcido.Lib.Selection
import Solarcido.Js.CodePoints
import Solarcido.Conversation.SummaryLines
import Solarcido.Conversation.Compression
import Solarcido.Js.Replacement
import Solarcido.Conversation.Splices
import Solarcido.Lib.Tags
import Solarcido.Cron.Denotation
import Solarcido.Cron.Schedules
import Solarcido.Mcp.Pagination
import Solarcido.Conversation.Window
import Solarcido.Lib.StableOrder
import Solarcido.Lib.Glob
import Solarcido.Policies.Engine
import Solarcido.Lanes.Commits
import Solarcido.Lanes.Duplicates
import Solarcido.Lanes.BranchLock
import Solarcido.Workers.GateErrors
import Solarcido.Trust.Patterns
import Solarcido.Trust.Paths
import Solarcido.Trust.Resolver
import Solarcido.Bash.Validation
import Solarcido.Tasks.Batch
import Solarcido.Tasks.Pace
import Solarcido.Tasks.Team
import Solarcido.Pdf.Text
import Solarcido.Lib.Escaping
import Solarcido.Lib.EditDistance
import Solarcido.Lib.Collector
import Solarcido.Js.Uri
import Solarcido.Config.Suggestions
import Solarcido.Config.Loader
import Solarcido.Config.Diagnostics
import Solarcido.Plugins.Manifest
import Solarcido.Plugins.NormalForm
import Solarcido.Plugins.Dropped
import Solarcido.Sessions.References
import Solarcido.Lsp.Documents
import Solarcido.Lib.Documents
import Solarcido.Lib.MemberOrder
import Solarcido.Lib.Holes
import Solarcido.Lib.KeyedUpdates
import Solarcido.Js.JsonText
import Solarcido.Js.JsonNumber
import Solarcido.Js.JsonTree
import Solarcido.Js.KeyOrder
import Solarcido.Js.JsonParse
import Solarcido.Js.JsonUtf8
import Solarcido.Rendering.Compact
import Solarcido.Api.RequestKeys
import Solarcido.Config.Saved
import Solarcido.Crates.Members
import Solarcido.Crates.McpConfig
import Solarcido.Crates.Config
import Solarcido.Crates.McpNames
import Solarcido.Crates.McpHashes
import Solarcido.Lib.Sifting
import Solarcido.Crates.Orphans
import Solarcido.Crates.ErrorMembers
import Solarcido.Lib.Counters
import Solarcido.Crates.TokenUsage
import Solarcido.Crates.ScriptedTurns
import Solarcido.Crates.ToolArguments
import Solarcido.Lib.SparseArray
import Solarcido.Api.OpenAICompatible
import Solarcido.Lib.Attempts
import Solarcido.Crates.Retries
import Solarcido.Crates.RetryPolicy
import Solarcido.Lib.Lines
import Solarcido.Lib.GrowingTree
import Solarcido.Crates.Directories
import Solarcido.Crates.SessionRecords
import Solarcido.Crates.SessionFiles
import Solarcido.Crates.SessionStore
import Solarcido.Crates.ReadFile
import Solarcido.Lsp.FileUris
import Solarcido.Mcp.Answers
import Solarcido.Mcp.Exchange
import Solarcido.Mcp.Link
import Solarcido.Plugins.Registry
import Solarcido.Conversation.Replay
import Solarcido.Crates.Growth
import Solarcido.Cli.Arguments
import Solarcido.Agents.Orchestration
import Solarcido.Agents.Course
