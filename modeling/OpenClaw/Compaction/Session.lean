import Mathlib
import OpenClaw.Lib.JsText

/-!
The entries of a session path and the messages that the model is shown of them. A
message carries what replay, pairing and compaction read of it; the text of its
blocks is one string. Entries that never become a message are metadata.
-/

namespace Compaction

structure ToolCall where
  id : String
  name : Option String := none
  deriving DecidableEq

/-- A message by its role. -/
inductive Body where
  | user (content : String)
  | assistant (content : String) (toolCalls : List ToolCall) (replayCheckpoint : Bool)
  | toolResult (ids : List String) (toolName : Option String) (isError missingMark : Bool)
      (content : String)
  | bashExecution (command output : String)
  | custom (content : String)
  | branchSummary (summary : String)
  | compactionSummary (summary : String)
  deriving DecidableEq

structure AgentMessage where
  body : Body
  excludeFromContext : Bool := false
  historyPrelude : Bool := false
  deriving DecidableEq

inductive MetadataType where
  | thinkingLevelChange
  | modelChange
  | custom
  | label
  | sessionInfo
  | leaf
  deriving DecidableEq

inductive EntryBody where
  | message (message : AgentMessage)
  | customMessage (content : String)
  | branchSummary (summary : String)
  | compaction (summary firstKeptEntryId : String) (fromHook : Bool)
  | reset (firstKeptEntryId : Option String)
  | metadata (type : MetadataType)
  deriving DecidableEq

/-- `SessionTreeEntry`. -/
structure Entry where
  id : String
  body : EntryBody
  deriving DecidableEq

namespace Entry

def isBoundary (entry : Entry) : Bool :=
  match entry.body with
  | .compaction .. | .reset _ => true
  | _ => false

/-- The optional `firstKeptEntryId` of an entry. -/
def firstKeptEntryId (entry : Entry) : Option String :=
  match entry.body with
  | .compaction _ firstKeptEntryId _ => some firstKeptEntryId
  | .reset firstKeptEntryId => firstKeptEntryId
  | _ => none

/-- `projectSessionEntryMessage`. -/
def projectSessionEntryMessage (entry : Entry) : Option AgentMessage :=
  match entry.body with
  | .message message => if message.excludeFromContext then none else some message
  | .customMessage content => some { body := .custom content }
  | .branchSummary summary => some { body := .branchSummary summary }
  | .compaction summary _ _ => some { body := .compactionSummary summary }
  | .reset _ | .metadata _ => none

end Entry

/-- A path of the session tree: the ids are set, and no entry is on it twice. -/
structure SessionPath where
  entries : List Entry
  ids : (entries.map Entry.id).Nodup
  named : ∀ entry ∈ entries, entry.id ≠ ""

/-- `findLastIndex`. -/
def findLastIndex {α : Type*} (p : α → Bool) : List α → Option Nat
  | [] => none
  | x :: xs =>
      match findLastIndex p xs with
      | some index => some (index + 1)
      | none => if p x then some 0 else none

/-- The index of the entry that a boundary names. -/
def firstKeptIndex (entries : List Entry) (boundary : Entry) : Option Nat :=
  boundary.firstKeptEntryId.bind fun id => entries.findIdx? fun entry => entry.id = id

def AgentMessage.stripCompactionReplayCheckpoint (message : AgentMessage) : AgentMessage :=
  match message.body with
  | .assistant content toolCalls _ => { message with body := .assistant content toolCalls false }
  | _ => message

/-- A message of the history before a reset. -/
def AgentMessage.asHistoryPrelude (message : AgentMessage) : AgentMessage :=
  match message.body with
  | .user _ | .assistant .. => { message with historyPrelude := true }
  | _ => message

/-- The message of an entry after the boundary. -/
def currentMessage (entry : Entry) : Option AgentMessage :=
  match entry.body with
  | .message _ | .customMessage _ => entry.projectSessionEntryMessage
  | .branchSummary summary => if summary = "" then none else entry.projectSessionEntryMessage
  | .compaction .. | .reset _ | .metadata _ => none

/-- The message of an entry that a compaction retained. -/
def retainedMessage (entry : Entry) : Option AgentMessage :=
  (currentMessage entry).map AgentMessage.stripCompactionReplayCheckpoint

/-- The message of an entry that a reset retained, excluded or not. -/
def resetRetainedMessage (entry : Entry) : Option AgentMessage :=
  match entry.body with
  | .message message => some message.stripCompactionReplayCheckpoint.asHistoryPrelude
  | _ => none

end Compaction

/-!
The pairing of tool calls and results that decides which results a reset retains. An
assistant message with calls opens a frame that reaches to the next one; a result is
claimed by the first open occurrence of its id in its frame, and a displaced one by
the only unresolved occurrence of an earlier frame. A message is known by its index.
-/

namespace Compaction

/-- `normalizeOptionalString`. -/
def normalizeOptionalString (value : Option String) : Option String :=
  value.bind fun text => if JsText.trim text = "" then none else some (JsText.trim text)

/-- What pairing reads of a tool result. -/
structure ToolResult where
  ids : List String
  toolName : Option String
  isError : Bool
  missingMark : Bool
  deriving DecidableEq

def Body.toolResult? : Body → Option ToolResult
  | .toolResult ids toolName isError missingMark _ => some ⟨ids, toolName, isError, missingMark⟩
  | _ => none

def Body.toolCalls : Body → List ToolCall
  | .assistant _ toolCalls _ => toolCalls
  | _ => []

namespace ToolResult

def extractToolResultId (result : ToolResult) : Option String :=
  (result.ids.map JsText.trim).find? fun id => id ≠ ""

def isSyntheticMissingToolResult (result : ToolResult) : Bool := result.isError && result.missingMark

def normalizeLegacyToolResultId (result : ToolResult) (toolCalls : List ToolCall) : ToolResult :=
  match result.extractToolResultId, toolCalls with
  | none, [toolCall] =>
      match normalizeOptionalString result.toolName, normalizeOptionalString toolCall.name with
      | some resultName, some callName =>
          if resultName ≠ callName then result
          else { result with ids := [toolCall.id], isError := true }
      | _, _ => { result with ids := [toolCall.id], isError := true }
  | _, _ => result

end ToolResult

/-- A tool call of a frame and the result that it owns. -/
structure ToolCallOccurrence where
  id : String
  sourceResult : Option Nat := none
  synthetic : Bool := false
  deriving DecidableEq

structure ToolResultRecord where
  index : Nat
  id : Option String
  synthetic : Bool
  deriving DecidableEq

structure ToolUsePairingFrame where
  occurrences : List ToolCallOccurrence
  unclaimedResults : List ToolResultRecord := []
  deriving DecidableEq

/-- Replace the first element that satisfies `p`. -/
def updateFirst {α : Type*} (p : α → Bool) (f : α → α) : List α → List α
  | [] => []
  | x :: xs => if p x then f x :: xs else x :: updateFirst p f xs

/-- One result of a frame: it is claimed, unclaimed, or a duplicate. -/
def ToolUsePairingFrame.claim (toolCalls : List ToolCall) (frame : ToolUsePairingFrame)
    (index : Nat) (source : ToolResult) : ToolUsePairingFrame :=
  let normalized := source.normalizeLegacyToolResultId toolCalls
  let synthetic := normalized.isSyntheticMissingToolResult
  let own := fun occurrence : ToolCallOccurrence =>
    { occurrence with sourceResult := some index, synthetic }
  let pending := fun occurrence : ToolCallOccurrence =>
    some occurrence.id = normalized.extractToolResultId && occurrence.sourceResult = none
  let replaceable := fun occurrence : ToolCallOccurrence =>
    some occurrence.id = normalized.extractToolResultId && occurrence.synthetic
  if frame.occurrences.any pending then
    { frame with occurrences := updateFirst pending own frame.occurrences }
  else if !frame.occurrences.any fun occurrence =>
      some occurrence.id = normalized.extractToolResultId then
    { frame with unclaimedResults := frame.unclaimedResults ++
        [⟨index, normalized.extractToolResultId, synthetic⟩] }
  else if synthetic then frame
  else { frame with occurrences := updateFirst replaceable own frame.occurrences }

def ToolUsePairingFrame.start (toolCalls : List ToolCall) : ToolUsePairingFrame where
  occurrences := toolCalls.map fun toolCall => { id := toolCall.id }

/-- The frames of the messages from an index on; `current` is the open frame. -/
def collectFrames (current : Option (List ToolCall × ToolUsePairingFrame)) :
    List (AgentMessage × Nat) → List ToolUsePairingFrame
  | [] => current.toList.map Prod.snd
  | (message, index) :: rest =>
      if message.body.toolCalls ≠ [] then
        current.toList.map Prod.snd ++
          collectFrames (some (message.body.toolCalls, .start message.body.toolCalls)) rest
      else
        match message.body.toolResult?, current with
        | some result, some (toolCalls, frame) =>
            collectFrames (some (toolCalls, frame.claim toolCalls index result)) rest
        | _, _ => collectFrames current rest

/-- An occurrence that a displaced result may still be given to. -/
def ToolCallOccurrence.unresolved (occurrence : ToolCallOccurrence) : Bool :=
  occurrence.sourceResult = none || occurrence.synthetic

def ToolCallOccurrence.takes (record : ToolResultRecord) (occurrence : ToolCallOccurrence) : Bool :=
  some occurrence.id = record.id &&
    (occurrence.sourceResult = none || (occurrence.synthetic && !record.synthetic))

/-- A displaced result goes to the only unresolved occurrence that may take it. -/
def adopt (unresolved : List ToolCallOccurrence) (record : ToolResultRecord) :
    List ToolCallOccurrence :=
  if (unresolved.filter (ToolCallOccurrence.takes record)).length = 1 then
    updateFirst (ToolCallOccurrence.takes record)
      (fun occurrence =>
        { occurrence with sourceResult := some record.index, synthetic := record.synthetic })
      unresolved
  else unresolved

/-- The unresolved occurrences after the displaced results of every frame, in order. -/
def adoptDisplaced (unresolved : List ToolCallOccurrence) :
    List ToolUsePairingFrame → List ToolCallOccurrence
  | [] => unresolved
  | frame :: frames =>
      adoptDisplaced (frame.unclaimedResults.foldl adopt
        (unresolved ++ frame.occurrences.filter ToolCallOccurrence.unresolved)) frames

/-- The indexes of the messages that are the result of an occurrence. -/
def pairedResults (messages : List AgentMessage) : List Nat :=
  let frames := collectFrames none messages.zipIdx
  let resolved := frames.flatMap fun frame =>
    frame.occurrences.filter fun occurrence => !occurrence.unresolved
  (resolved ++ adoptDisplaced [] frames).filterMap ToolCallOccurrence.sourceResult

def Entry.message? (entry : Entry) : Option AgentMessage :=
  match entry.body with
  | .message message => some message
  | _ => none

/-- Keep the message entries of a list whose roles and pairing a reset retains; `index` counts
the message entries before it. -/
def keepPaired (paired : List Nat) : Nat → List Entry → List Entry
  | _, [] => []
  | index, entry :: rest =>
      match entry.message? with
      | none => keepPaired paired index rest
      | some message =>
          let kept := match message.body with
            | .user _ | .assistant .. => true
            | .toolResult .. => decide (index ∈ paired)
            | _ => false
          if kept then entry :: keepPaired paired (index + 1) rest
          else keepPaired paired (index + 1) rest

def selectResetKeptEntries (entries : List Entry) : List Entry :=
  keepPaired (pairedResults (entries.filterMap Entry.message?)) 0 entries

end Compaction
