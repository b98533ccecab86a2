import RustyClaw.Acp.CancelGuard
import RustyClaw.Browser.Actions
import RustyClaw.CodeMode.Budget
import RustyClaw.CodeMode.Cancellation
import RustyClaw.CodeMode.Delivery
import RustyClaw.CodeMode.Driver
import RustyClaw.CodeMode.Isolation
import RustyClaw.CodeMode.TimerOrder
import RustyClaw.CodeMode.Window
import RustyClaw.Context.Budgeting
import RustyClaw.Context.Compression
import RustyClaw.Context.Decoding
import RustyClaw.Context.Ranking
import RustyClaw.Context.Restripping
import RustyClaw.Context.SummaryLimit
import RustyClaw.Context.Truncation
import RustyClaw.Library.JsonSize
import RustyClaw.Library.JsonCut
import RustyClaw.Context.Freshness
import RustyClaw.Context.ActiveEvidence
import RustyClaw.Context.Fidelity
import RustyClaw.Core.StickyCancel
import RustyClaw.Core.Stripping
import RustyClaw.Core.Tracing
import RustyClaw.Core.Turns
import RustyClaw.Core.TaskStore
import RustyClaw.Security.Verbatim
import RustyClaw.Session.Delegation
import RustyClaw.Session.Manager
import RustyClaw.Session.Ownership
import RustyClaw.Session.Registry
import RustyClaw.Session.Reset
import RustyClaw.Session.Storage
import RustyClaw.Skills.Arguments
import RustyClaw.Skills.Whitelist
import RustyClaw.Subagent.CallChain
import RustyClaw.Subagent.LifeCycle
import RustyClaw.Subagent.Notification
import RustyClaw.Subagent.Reconfiguration
import RustyClaw.Tools.AllowList
import RustyClaw.Tools.Confinement
import RustyClaw.Tools.Envelope
import RustyClaw.Tools.Network
import RustyClaw.Tools.PathAccess
import RustyClaw.Tools.TaskPlan
import RustyClaw.Discord.Output
import RustyClaw.Lsp.Client
import RustyClaw.Scheduler.Firing
import RustyClaw.Llm.OpenAiCompat
import RustyClaw.Telegram.Output
import RustyClaw.Trace.Query
import RustyClaw.Core.Autopilot
import RustyClaw.Library.ByteOffset
import RustyClaw.Shell.Reading
import RustyClaw.Shell.Stream
import RustyClaw.Shell.Tail
import RustyClaw.Skills.Parser
import RustyClaw.Tools.Cuts
import RustyClaw.Tools.Patching
import RustyClaw.Tools.Truncation
import RustyClaw.Library.Forest
import RustyClaw.Trace.Tree
import RustyClaw.Rag.Search
import RustyClaw.Browser.Listing
import RustyClaw.Scheduler.Delay
import RustyClaw.Lsp.Framing
import RustyClaw.Llm.ToolCallStream
import RustyClaw.Library.JsonGet
import RustyClaw.Llm.GeminiSchema
import RustyClaw.Llm.GeminiParameters
import RustyClaw.Llm.GeminiContext
import RustyClaw.Library.Cutting
import RustyClaw.Llm.Sse
import RustyClaw.Llm.SseBlocks
import RustyClaw.Library.Word
import RustyClaw.Library.JsonNesting
import RustyClaw.Library.LineLog
import RustyClaw.Core.Canary
import RustyClaw.Library.Savepoint
import RustyClaw.Library.TextFile
import RustyClaw.Trace.Summary
import RustyClaw.Library.Sexp
import RustyClaw.Library.Argv
import RustyClaw.Tools.SandboxText
import RustyClaw.Shell.Run
import RustyClaw.Session.EventLog
import RustyClaw.Rag.Sharing
