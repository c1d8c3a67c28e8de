import OpenClaw.Lib.Transition
import OpenClaw.Lib.JsNumber
import OpenClaw.Lib.JsText
import OpenClaw.Lib.SqlTable
import OpenClaw.Lib.TextScan
import OpenClaw.Lib.FenceScan
import OpenClaw.Lib.Occurrence
import OpenClaw.Lib.JsUnits
import OpenClaw.CommandQueue.State
import OpenClaw.CommandQueue.Machine
import OpenClaw.CommandQueue.Moves
import OpenClaw.CommandQueue.Steps
import OpenClaw.CommandQueue.Registry
import OpenClaw.CommandQueue.Capacity
import OpenClaw.CommandQueue.Settlement
import OpenClaw.CommandQueue.Wanting
import OpenClaw.CommandQueue.Dispatch
import OpenClaw.CommandQueue.Wakeup
import OpenClaw.CommandQueue.NoLostWakeup
import OpenClaw.CommandQueue.LaneRing
import OpenClaw.CommandQueue.LaneOrder
import OpenClaw.GatewayAdmission.State
import OpenClaw.GatewayAdmission.Machine
import OpenClaw.GatewayAdmission.Ledger
import OpenClaw.GatewayAdmission.Moves
import OpenClaw.GatewayAdmission.Admission
import OpenClaw.GatewayAdmission.Draining
import OpenClaw.GatewayAdmission.Contract
import OpenClaw.Followup.Run
import OpenClaw.Followup.State
import OpenClaw.Followup.Drain
import OpenClaw.Followup.Machine
import OpenClaw.Followup.Ledger
import OpenClaw.Followup.Custody
import OpenClaw.Followup.Moves
import OpenClaw.Followup.EnqueueMoves
import OpenClaw.Followup.InFlight
import OpenClaw.Followup.Consumption
import OpenClaw.Followup.Keys
import OpenClaw.Followup.OverflowMoves
import OpenClaw.Followup.Steps
import OpenClaw.Followup.DrainSteps
import OpenClaw.Followup.Delivered
import OpenClaw.Followup.Isolation
import OpenClaw.Followup.DropPolicy
import OpenClaw.Followup.Adoption
import OpenClaw.Followup.AdoptionRuns
import OpenClaw.CronReceipts.Machine
import OpenClaw.CronReceipts.Rows
import OpenClaw.CronReceipts.Fence
import OpenClaw.Outcomes.Record
import OpenClaw.Outcomes.Reducer
import OpenClaw.Outcomes.Operation
import OpenClaw.Outcomes.Moves
import OpenClaw.Outcomes.Steps
import OpenClaw.Outcomes.Validity
import OpenClaw.Outcomes.ReadModel
import OpenClaw.Outcomes.Store
import OpenClaw.Outcomes.Concurrency
import OpenClaw.Outcomes.Workboard
import OpenClaw.Outcomes.Observation
import OpenClaw.Outcomes.Candidate
import OpenClaw.Outcomes.Display
import OpenClaw.Outcomes.Committable
import OpenClaw.Lib.JsCollections
import OpenClaw.Outcomes.Contract
import OpenClaw.Outcomes.Unlinking
import OpenClaw.Outcomes.History
import OpenClaw.Outcomes.Closure
import OpenClaw.Outcomes.Guided
import OpenClaw.Lib.KeysetPaging
import OpenClaw.Lib.Base64Url
import OpenClaw.Lib.JsonText
import OpenClaw.Outcomes.Cursor
import OpenClaw.Outcomes.Paging
import OpenClaw.Compaction.Session
import OpenClaw.Compaction.Prepare
import OpenClaw.Compaction.Cut
import OpenClaw.Compaction.Pairs
import OpenClaw.Compaction.Summary
import OpenClaw.Compaction.SummaryBudget
import OpenClaw.ToolCallRepair.ProtectionPieces
import OpenClaw.ToolCallRepair.ProtectionVerdicts
import OpenClaw.ToolCallRepair.Grammar
import OpenClaw.ToolCallRepair.GrammarFinal
import OpenClaw.ToolCallRepair.PayloadFinal
import OpenClaw.ToolCallRepair.FinalVerdicts
import OpenClaw.ReasoningTags.Reducer
import OpenClaw.ReasoningTags.Nesting
import OpenClaw.ReasoningTags.Private
import OpenClaw.ReasoningTags.PrivateRuns
import OpenClaw.ReasoningTags.Partitioner
import OpenClaw.ReasoningTags.Stability
import OpenClaw.ReasoningTags.Reading
import OpenClaw.ReasoningTags.Streaming
import OpenClaw.ReasoningTags.Emission
import OpenClaw.ReasoningTags.Blocks
import OpenClaw.ReasoningTags.ChunkedRuns
import OpenClaw.Lib.Fallible
import OpenClaw.PluginState.Store
import OpenClaw.PluginState.Limits
import OpenClaw.PluginState.Writes
import OpenClaw.PluginState.Journal
import OpenClaw.PluginState.Transactions
import OpenClaw.PluginState.Runs
import OpenClaw.NetPolicy.Address
import OpenClaw.NetPolicy.Numeric
import OpenClaw.NetPolicy.Embedding
import OpenClaw.NetPolicy.Published
import OpenClaw.NetPolicy.Pinned
import OpenClaw.NetPolicy.Lookup
import OpenClaw.NetPolicy.Trusted
import OpenClaw.NetPolicy.Guarded
import OpenClaw.Routing.SessionKey
import OpenClaw.Lib.Precedence
import OpenClaw.Routing.Bindings
import OpenClaw.Routing.BindingIndex
import OpenClaw.Routing.Selection
import OpenClaw.Routing.GroupAudit
import OpenClaw.Routing.Isolation
import OpenClaw.NormalizationCore.Utf16Slice
import OpenClaw.OcPath.Segments
import OpenClaw.OcPath.Path
import OpenClaw.OcPath.Formatted
import OpenClaw.OcPath.Normal
import OpenClaw.OcPath.Written
import OpenClaw.OcPath.Reparse
import OpenClaw.OcPath.Spelled
import OpenClaw.OcPath.Addressed
import OpenClaw.OcPath.RoundTrips
import OpenClaw.CronSchedule.NextRun
import OpenClaw.CronSchedule.Slots
import OpenClaw.CronSchedule.Intervals
import OpenClaw.CronSchedule.Maintenance
import OpenClaw.CronSchedule.Kept
import OpenClaw.CronSchedule.Repeated
import OpenClaw.Shell.Argv
import OpenClaw.Shell.Authorized
import OpenClaw.Shell.Rewritten
import OpenClaw.Shell.ChangedSpans
import OpenClaw.Chunking.Pieces
import OpenClaw.Chunking.Ranges
import OpenClaw.Chunking.Windows
import OpenClaw.Chunking.Resolved
import OpenClaw.Lib.SpanTracking
import OpenClaw.MarkdownCore.Fences
import OpenClaw.MarkdownCore.CodeChunks
import OpenClaw.MarkdownCore.ChunkedIndex
import OpenClaw.Reef.Encoding
import OpenClaw.Reef.PaddedBase64
import OpenClaw.Lib.FixedDigits
import OpenClaw.Reef.Ulid
import OpenClaw.PluginState.ImportBatch
import OpenClaw.PluginState.Sequenced
import OpenClaw.PluginState.SequencedRuns
import OpenClaw.SerialQueue.Queue
import OpenClaw.SerialQueue.Stages
import OpenClaw.SerialQueue.Flushes
import OpenClaw.SerialQueue.Runs
import OpenClaw.SerialQueue.Contract
import OpenClaw.KeyedFifoLease.Registry
import OpenClaw.KeyedFifoLease.Calls
import OpenClaw.KeyedFifoLease.Runs
import OpenClaw.Lib.KeyedTails
import OpenClaw.FileMutationQueue.Queue
import OpenClaw.FileMutationQueue.Steps
import OpenClaw.FileMutationQueue.Runs
import OpenClaw.Lib.JsValue
import OpenClaw.MergePatch.Patch
import OpenClaw.MergePatch.Reconstruct
import OpenClaw.MergePatch.ById
import OpenClaw.MergePatch.Settled
import OpenClaw.MergePatch.Contract
import OpenClaw.AuthProfiles.UsageState
import OpenClaw.AuthProfiles.Usage
import OpenClaw.AuthProfiles.History
import OpenClaw.AuthProfiles.Runs
import OpenClaw.WorkerTaskPool.Pool
import OpenClaw.WorkerTaskPool.Sound
import OpenClaw.WorkerTaskPool.Steps
import OpenClaw.WorkerTaskPool.Replies
import OpenClaw.WorkerTaskPool.Runs
import OpenClaw.Lib.KeyedLists
import OpenClaw.ToolResultPairing.Classification
import OpenClaw.ToolResultPairing.Frames
import OpenClaw.ToolResultPairing.Displaced
import OpenClaw.ToolResultPairing.Ownership
import OpenClaw.ToolResultPairing.Contract
import OpenClaw.Lib.Fragments
import OpenClaw.NodeDuplex.Acceptance
import OpenClaw.NodeDuplex.Contract
