import OpenClaw.Lib.KeyedLists
import OpenClaw.Compaction.Session

/-!
The ownership of tool results in a transcript. An assistant message with tool calls opens a frame
that ends at the next one; a result belongs to the first open occurrence of its id in its frame,
and a displaced one to the only occurrence of an earlier frame that is still unresolved. A message
object is known by its place in the transcript.
-/

namespace OpenClaw.ToolResultPairing

open KeyedLists
open Compaction (normalizeOptionalString)

/-- What is read of a content block; a field that is no string is absent. -/
structure ContentBlock where
  type : Option String
  id : Option String := none
  name : Option String := none
  text : Option String := none
  deriving DecidableEq

structure AssistantMessage where
  /-- `none` is content that is no array, and an element `none` is no object. -/
  content : Option (List (Option ContentBlock))
  stopReason : Option String
  deriving DecidableEq

structure ToolResultMessage where
  toolCallId : Option String := none
  toolUseId : Option String := none
  tool_call_id : Option String := none
  tool_use_id : Option String := none
  callId : Option String := none
  call_id : Option String := none
  toolName : Option String := none
  isError : Bool := false
  /-- `details[SYNTHETIC_MISSING_TOOL_RESULT_DETAIL_KEY] === true`. -/
  missingDetail : Bool := false
  content : Option (List (Option ContentBlock)) := none
  deriving DecidableEq

/-- `AgentMessage` by its role; `invalid` is a value that is no object. -/
inductive Message where
  | user
  | assistant (message : AssistantMessage)
  | toolResult (message : ToolResultMessage)
  | other
  | invalid
  deriving DecidableEq

structure ToolCallLike where
  id : String
  name : Option String
  deriving DecidableEq

def TOOL_CALL_TYPES : List String := ["toolCall", "toolUse", "functionCall"]

def DEFAULT_MISSING_TOOL_RESULT_TEXT : String :=
  "[openclaw] missing tool result in session history; inserted synthetic error result for transcript repair."

def extractToolCallsFromAssistant (message : AssistantMessage) : List ToolCallLike :=
  match message.content with
  | none => []
  | some blocks =>
      blocks.filterMap fun block => block.bind fun record =>
        match record.type, record.id with
        | some type, some id =>
            if type ∈ TOOL_CALL_TYPES ∧ id ≠ "" then some ⟨id, record.name⟩ else none
        | _, _ => none

def Message.toolCalls : Message → List ToolCallLike
  | .assistant message => extractToolCallsFromAssistant message
  | _ => []

def Message.isToolResult : Message → Bool
  | .toolResult _ => true
  | _ => false

namespace ToolResultMessage

def extractToolResultIds (message : ToolResultMessage) : List String :=
  [message.toolCallId, message.toolUseId, message.tool_call_id, message.tool_use_id,
    message.callId, message.call_id].foldl (fun ids value =>
      match value.map JsText.trim with
      | some id => if id ≠ "" ∧ id ∉ ids then ids ++ [id] else ids
      | none => ids) []

def extractToolResultId (message : ToolResultMessage) : Option String :=
  message.extractToolResultIds.head?

def isSyntheticMissingToolResult (message : ToolResultMessage) : Bool :=
  message.isError && (message.missingDetail || (message.content.getD []).any fun block =>
    block.any fun record => record.type = some "text" &&
      record.text = some DEFAULT_MISSING_TOOL_RESULT_TEXT)

def normalizeToolResultName (message : ToolResultMessage) (fallbackName : Option String) :
    ToolResultMessage :=
  match normalizeOptionalString message.toolName with
  | some normalizedToolName =>
      if message.toolName = some normalizedToolName then message
      else { message with toolName := some normalizedToolName }
  | none =>
      match normalizeOptionalString fallbackName with
      | some normalizedFallback => { message with toolName := some normalizedFallback }
      | none => if message.toolName.isSome then { message with toolName := some "unknown" } else message

def normalizeLegacyToolResultId (message : ToolResultMessage) (toolCalls : List ToolCallLike) :
    ToolResultMessage :=
  match message.extractToolResultId, toolCalls with
  | none, [toolCall] =>
      match normalizeOptionalString message.toolName, normalizeOptionalString toolCall.name with
      | some resultName, some callName =>
          if resultName ≠ callName then message
          else { message with toolCallId := some toolCall.id, isError := true }
      | _, _ => { message with toolCallId := some toolCall.id, isError := true }
  | _, _ => message

/-- The name of a result does not make it a placeholder. -/
@[simp] theorem isSynthetic_normalizeToolResultName (message : ToolResultMessage)
    (fallbackName : Option String) :
    (message.normalizeToolResultName fallbackName).isSyntheticMissingToolResult =
      message.isSyntheticMissingToolResult := by
  unfold normalizeToolResultName
  repeat' split
  all_goals rfl

end ToolResultMessage

/-- `createToolCallOccurrenceQueue`: the open occurrences of every id, by their places. -/
structure ToolCallOccurrenceQueue where
  pendingById : JsMap String (List Nat)
  pendingCount : Nat

namespace ToolCallOccurrenceQueue

def create : ToolCallOccurrenceQueue := ⟨.empty, 0⟩

def add (queue : ToolCallOccurrenceQueue) (id : String) (occurrence : Nat) :
    ToolCallOccurrenceQueue :=
  ⟨pushAt queue.pendingById id occurrence, queue.pendingCount + 1⟩

/-- The first occurrence that waits for the id; the list that it leaves empty is deleted. -/
def claim (queue : ToolCallOccurrenceQueue) (id : String) :
    Option (Nat × ToolCallOccurrenceQueue) :=
  match shiftAt queue.pendingById id with
  | none => none
  | some (occurrence, pendingById) =>
      some (occurrence,
        ⟨if itemsAt pendingById id = [] then pendingById.delete id else pendingById,
          queue.pendingCount - 1⟩)

end ToolCallOccurrenceQueue

structure ToolCallOccurrence where
  id : String
  name : Option String
  result : Option ToolResultMessage := none
  sourceResult : Option ToolResultMessage := none
  sourceResultIndex : Option Nat := none
  deriving DecidableEq

structure ToolResultRecord where
  result : ToolResultMessage
  sourceResult : ToolResultMessage
  index : Nat
  id : Option String
  deriving DecidableEq

structure DroppedResult where
  message : ToolResultMessage
  index : Nat
  deriving DecidableEq

/-- `ToolUsePairingFrame` with its unclaimed results; a remaining message keeps its place. -/
structure ToolUsePairingFrame where
  startIndex : Nat
  endIndex : Nat
  assistant : AssistantMessage
  remainder : List (Nat × Message)
  unclaimedResults : List ToolResultRecord
  occurrences : List ToolCallOccurrence
  failed : Bool
  deriving DecidableEq

/-- The variables of the loop over the messages of a frame. -/
structure FrameScan where
  occurrences : List ToolCallOccurrence
  pending : ToolCallOccurrenceQueue
  syntheticById : JsMap String (List Nat) := .empty
  remainder : List (Nat × Message) := []
  unclaimedResults : List ToolResultRecord := []
  droppedDuplicateCount : Nat := 0
  droppedResults : List DroppedResult := []

def ToolCallOccurrence.own (result source : ToolResultMessage) (index : Nat)
    (occurrence : ToolCallOccurrence) : ToolCallOccurrence :=
  { occurrence with
    result := some (result.normalizeToolResultName occurrence.name)
    sourceResult := some source
    sourceResultIndex := some index }

/-- The occurrence holds a placeholder. -/
def ToolCallOccurrence.holdsSynthetic (occurrence : ToolCallOccurrence) : Bool :=
  occurrence.result.any ToolResultMessage.isSyntheticMissingToolResult

/-- The results that are dropped when an occurrence gives up its source result. -/
def ToolCallOccurrence.discarded (occurrence : ToolCallOccurrence) (index : Nat) :
    List DroppedResult :=
  match occurrence.sourceResult with
  | some discardedSource => [⟨discardedSource, occurrence.sourceResultIndex.getD index⟩]
  | none => []

/-- The occurrences of the calls of a frame, all of them open. -/
def startScan (toolCalls : List ToolCallLike) : FrameScan :=
  let occurrences := toolCalls.map fun toolCall => { id := toolCall.id, name := toolCall.name }
  { occurrences
    pending := occurrences.zipIdx.foldl (fun pending entry => pending.add entry.1.id entry.2) .create }

namespace FrameScan

/-- `claim` has answered with the open occurrence at a place. -/
def claimed (scan : FrameScan) (place : Nat) (pending : ToolCallOccurrenceQueue)
    (normalized source : ToolResultMessage) (index : Nat) : FrameScan :=
  let occurrences := scan.occurrences.modify place (.own normalized source index)
  match occurrences[place]? with
  | some occurrence =>
      { scan with
        occurrences
        pending
        syntheticById := if occurrence.holdsSynthetic then pushAt scan.syntheticById occurrence.id place
          else scan.syntheticById }
  | none => scan

/-- A result whose id has no open occurrence in its frame, though it has a claimed one. -/
def duplicate (scan : FrameScan) (id : String) (normalized source : ToolResultMessage)
    (index : Nat) : FrameScan :=
  let counted := { scan with droppedDuplicateCount := scan.droppedDuplicateCount + 1 }
  let dropped := { counted with droppedResults := scan.droppedResults ++ [⟨source, index⟩] }
  if normalized.isSyntheticMissingToolResult then dropped
  else
    match shiftAt scan.syntheticById id with
    | none => dropped
    | some (place, syntheticById) =>
        match scan.occurrences[place]? with
        | none => dropped
        | some replaceable =>
            { counted with
              syntheticById
              droppedResults := scan.droppedResults ++ replaceable.discarded index
              occurrences := scan.occurrences.modify place (.own normalized source index) }

def toolResult (preserveUnframed : Bool) (toolCalls : List ToolCallLike) (scan : FrameScan)
    (source : ToolResultMessage) (index : Nat) : FrameScan :=
  let normalized := source.normalizeLegacyToolResultId toolCalls
  let id := normalized.extractToolResultId
  match id.bind scan.pending.claim with
  | some (place, pending) => scan.claimed place pending normalized source index
  | none =>
      let unclaimed :=
        { scan with
          unclaimedResults := scan.unclaimedResults ++ [⟨normalized, source, index, id⟩]
          remainder := if preserveUnframed then scan.remainder ++ [(index, .toolResult normalized)]
            else scan.remainder }
      match id with
      | none => unclaimed
      | some id =>
          if scan.occurrences.any fun candidate => candidate.id = id then
            scan.duplicate id normalized source index
          else unclaimed

/-- One turn of the loop over the messages of a frame. -/
def message (preserveUnframed : Bool) (toolCalls : List ToolCallLike) (scan : FrameScan)
    (entry : Message × Nat) : FrameScan :=
  match entry.1 with
  | .invalid => scan
  | .toolResult source => scan.toolResult preserveUnframed toolCalls source entry.2
  | remaining => { scan with remainder := scan.remainder ++ [(entry.2, remaining)] }

end FrameScan

def frameStartIndexes (messages : List Message) : List Nat :=
  (messages.zipIdx.filter fun entry => entry.1.toolCalls ≠ []).map Prod.snd

/-- The frames with their ends: each reaches to the next start. -/
def frameBounds (end_ : Nat) : List Nat → List (Nat × Nat)
  | [] => []
  | [startIndex] => [(startIndex, end_)]
  | startIndex :: next :: rest => (startIndex, next) :: frameBounds end_ (next :: rest)

/-- The messages between two places, each with its own place. -/
def messagesBetween (messages : List Message) (startIndex endIndex : Nat) : List (Message × Nat) :=
  (List.range' (startIndex + 1) (endIndex - (startIndex + 1))).filterMap fun index =>
    messages[index]?.map fun message => (message, index)

def scanFrame (preserveUnframed : Bool) (messages : List Message) (toolCalls : List ToolCallLike)
    (bounds : Nat × Nat) : FrameScan :=
  (messagesBetween messages bounds.1 bounds.2).foldl (.message preserveUnframed toolCalls)
    (startScan toolCalls)

/-- The frame after the loop over its messages, with what the loop dropped. -/
def frameRecord (preserveUnframed : Bool) (messages : List Message) (bounds : Nat × Nat) :
    Option (ToolUsePairingFrame × FrameScan) :=
  match messages[bounds.1]? with
  | some (.assistant assistant) =>
      let scan := scanFrame preserveUnframed messages (extractToolCallsFromAssistant assistant) bounds
      some ({ startIndex := bounds.1
              endIndex := bounds.2
              assistant
              remainder := scan.remainder
              unclaimedResults := scan.unclaimedResults
              occurrences := scan.occurrences
              failed := assistant.stopReason = some "error" ∨ assistant.stopReason = some "aborted" },
        scan)
  | _ => none

def frameRecords (preserveUnframed : Bool) (messages : List Message) :
    List (ToolUsePairingFrame × FrameScan) :=
  (frameBounds messages.length (frameStartIndexes messages)).filterMap
    (frameRecord preserveUnframed messages)

/-- The variables of the loop that gives displaced results to earlier frames. -/
structure Resolution where
  frames : List ToolUsePairingFrame
  unresolvedById : JsMap String (List (Nat × Nat)) := .empty
  droppedDuplicateCount : Nat
  droppedOrphanCount : Nat := 0
  droppedResults : List DroppedResult

namespace Resolution

/-- An occurrence by the places of its frame and of itself in it. -/
def occurrenceAt (state : Resolution) (place : Nat × Nat) : Option ToolCallOccurrence :=
  state.frames[place.1]?.bind fun frame => frame.occurrences[place.2]?

def modifyFrame (state : Resolution) (frame : Nat) (f : ToolUsePairingFrame → ToolUsePairingFrame) :
    Resolution :=
  { state with frames := state.frames.modify frame f }

/-- The occurrences of a frame that are unresolved when its turn comes. -/
def register (state : Resolution) (frame : Nat) (occurrences : List ToolCallOccurrence) : Resolution :=
  { state with
    unresolvedById := occurrences.zipIdx.foldl (fun unresolvedById entry =>
      if entry.1.result.isNone || entry.1.holdsSynthetic then
        pushAt unresolvedById entry.1.id (frame, entry.2)
      else unresolvedById) state.unresolvedById }

/-- The occurrence may take the result of the record. -/
def accepts (record : ToolResultRecord) (candidate : ToolCallOccurrence) : Bool :=
  candidate.result.isNone ||
    (candidate.holdsSynthetic && !record.result.isSyntheticMissingToolResult)

def candidates (state : Resolution) (record : ToolResultRecord) : List (Nat × Nat) :=
  match record.id with
  | none => []
  | some id => (itemsAt state.unresolvedById id).filter fun place =>
      (state.occurrenceAt place).any (accepts record)

def orphan (preserveUnframed : Bool) (state : Resolution) (record : ToolResultRecord) : Resolution :=
  if preserveUnframed then state
  else
    { state with
      droppedOrphanCount := state.droppedOrphanCount + 1
      droppedResults := state.droppedResults ++ [⟨record.sourceResult, record.index⟩] }

/-- The displaced result goes to the candidate at a place. -/
def adopt (preserveUnframed : Bool) (frame : Nat) (state : Resolution) (record : ToolResultRecord)
    (place : Nat × Nat) (candidate : ToolCallOccurrence) : Resolution :=
  let given := { state with
    droppedDuplicateCount := state.droppedDuplicateCount + if candidate.result.isSome then 1 else 0
    droppedResults := state.droppedResults ++
      if candidate.holdsSynthetic then candidate.discarded record.index else [] }
  let owned := given.modifyFrame place.1 fun owner =>
    { owner with
      occurrences := owner.occurrences.modify place.2 (.own record.result record.sourceResult record.index) }
  if preserveUnframed then
    owned.modifyFrame frame fun own =>
      { own with remainder := own.remainder.filter fun entry => entry.1 ≠ record.index }
  else owned

def resolve (preserveUnframed : Bool) (frame : Nat) (state : Resolution) (record : ToolResultRecord) :
    Resolution :=
  match state.candidates record with
  | [place] =>
      match state.occurrenceAt place with
      | some candidate => state.adopt preserveUnframed frame record place candidate
      | none => state
  | _ => state.orphan preserveUnframed record

/-- The turn of one frame. -/
def frameTurn (preserveUnframed : Bool) (state : Resolution) (frame : Nat) : Resolution :=
  match state.frames[frame]? with
  | none => state
  | some record =>
      record.unclaimedResults.foldl (resolve preserveUnframed frame)
        (state.register frame record.occurrences)

end Resolution

/-- `classifyToolUseResultPairing`. -/
def classifyToolUseResultPairing (preserveUnframed : Bool) (messages : List Message) : Resolution :=
  let records := frameRecords preserveUnframed messages
  (List.range records.length).foldl (Resolution.frameTurn preserveUnframed)
    { frames := records.map Prod.fst
      droppedDuplicateCount := (records.map fun record => record.2.droppedDuplicateCount).sum
      droppedResults := records.flatMap fun record => record.2.droppedResults }

end OpenClaw.ToolResultPairing
