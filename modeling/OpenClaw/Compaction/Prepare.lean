import OpenClaw.Compaction.Session

/-!
The model context of a path and the preparation of a compaction. The cut is chosen in
a window of the path by walking back over the tokens of its messages; indices of the
cut count from the start of the window. Token estimates and the usage that a provider
reported are given by an estimator; numbers are exact.
-/

namespace Compaction

/-- The messages of a path as the model is shown them. -/
def contextMessages (entries : List Entry) : List AgentMessage :=
  match findLastIndex Entry.isBoundary entries with
  | none => entries.filterMap currentMessage
  | some boundaryIndex =>
      match entries[boundaryIndex]? with
      | none => []
      | some boundary =>
          let kept := match firstKeptIndex entries boundary with
            | some index => if index < boundaryIndex then index else boundaryIndex
            | none => boundaryIndex
          let retained := (entries.take boundaryIndex).drop kept
          let current := (entries.drop (boundaryIndex + 1)).filterMap currentMessage
          match boundary.body with
          | .reset _ =>
              (selectResetKeptEntries retained).filterMap resetRetainedMessage ++ current
          | _ => boundary.projectSessionEntryMessage.toList ++ retained.filterMap retainedMessage ++
              current

structure Estimator where
  estimateTokens : AgentMessage → Nat
  /-- `estimateContextTokens(messages).usageTokens`, if finite. -/
  usageTokens : List AgentMessage → Option ℚ

def maxSafeInteger : ℚ := 9007199254740991

/-- `getMessageFromEntryForCompaction`. -/
def compactionMessage (entry : Entry) : Option AgentMessage :=
  match entry.body with
  | .compaction .. => none
  | _ => entry.projectSessionEntryMessage

def Body.isCutPoint : Body → Bool
  | .toolResult .. => false
  | _ => true

def Body.isTurnStart : Body → Bool
  | .assistant .. | .toolResult .. => false
  | _ => true

def isCutPointEntry (entry : Entry) : Bool :=
  (compactionMessage entry).any fun message => message.body.isCutPoint

def isTurnStartEntry (entry : Entry) : Bool :=
  (compactionMessage entry).any fun message => message.body.isTurnStart

def findValidCutPoints (window : List Entry) : List Nat :=
  (List.range window.length).filter fun index => (window[index]?).any isCutPointEntry

/-- The last turn start at or before an index. -/
def findTurnStartIndex (window : List Entry) (index : Nat) : Option Nat :=
  findLastIndex isTurnStartEntry (window.take (index + 1))

/-- The walk from the last entry: where the tokens reach the budget, and the tokens so far. -/
def walkBack (E : Estimator) (budget : ℚ) : List Entry → Option Nat × Nat
  | [] => (none, 0)
  | entry :: later =>
      match walkBack E budget later with
      | (some stop, tokens) => (some (stop + 1), tokens)
      | (none, tokens) =>
          match compactionMessage entry with
          | none => (none, tokens)
          | some message =>
              let tokens := tokens + E.estimateTokens message
              (if budget ≤ tokens then some 0 else none, tokens)

/-- The cut point for a stop of the walk. -/
def cutPointFrom (cutPoints : List Nat) (stop : Nat) : Option Nat :=
  (cutPoints.find? fun cutPoint => stop ≤ cutPoint) <|> cutPoints.getLast?

/-- An entry that the cut is moved before. -/
def isMetadataBeforeCut (entry : Entry) : Bool :=
  match entry.body with
  | .compaction .. | .reset _ | .message _ => false
  | _ => (compactionMessage entry).isNone

def moveBackOverMetadata (window : List Entry) : Nat → Nat
  | 0 => 0
  | cutIndex + 1 =>
      if (window[cutIndex]?).any isMetadataBeforeCut then moveBackOverMetadata window cutIndex
      else cutIndex + 1

structure CutPointResult where
  firstKeptEntryIndex : Nat
  turnStartIndex : Option Nat := none
  isSplitTurn : Bool := false
  deriving DecidableEq

/-- The history to summarize ends at the turn that the cut splits, or at the cut. -/
def CutPointResult.historyEnd (cutPoint : CutPointResult) : Nat :=
  match cutPoint.isSplitTurn, cutPoint.turnStartIndex with
  | true, some turnStartIndex => turnStartIndex
  | _, _ => cutPoint.firstKeptEntryIndex

def findCutPoint (E : Estimator) (window : List Entry) (keepRecentTokens : ℚ) : CutPointResult :=
  let cutPoints := findValidCutPoints window
  match cutPoints.head? with
  | none => { firstKeptEntryIndex := 0 }
  | some firstCutIndex =>
      let selected := match (walkBack E keepRecentTokens window).1 with
        | none => firstCutIndex
        | some stop => (cutPointFrom cutPoints stop).getD firstCutIndex
      let cutIndex := moveBackOverMetadata window selected
      let startsTurn := (window[cutIndex]?).any isTurnStartEntry
      let turnStartIndex := if startsTurn then none else findTurnStartIndex window cutIndex
      { firstKeptEntryIndex := cutIndex
        turnStartIndex
        isSplitTurn := !startsTurn && turnStartIndex.isSome }

structure CompactionSettings where
  keepRecentTokens : ℚ
  deriving DecidableEq

structure CompactionPreparation where
  firstKeptEntryId : String
  messagesToSummarize : List AgentMessage
  turnPrefixMessages : List AgentMessage
  isSplitTurn : Bool
  previousSummary : Option String
  deriving DecidableEq

/-- The path does not end where a compaction must not follow. -/
def isCompactable (entries : List Entry) : Bool :=
  match entries.getLast? with
  | none => false
  | some entry =>
      match entry.body with
      | .reset _ => false
      | .compaction _ _ fromHook => !fromHook
      | _ => true

/-- The part of a path that the cut is looked for in, and what is summarized before it. -/
structure CompactionWindow where
  window : List Entry
  resetPreludeMessages : List AgentMessage := []
  previousSummary : Option String := none
  deriving DecidableEq

def compactionWindow (entries : List Entry) : CompactionWindow :=
  match findLastIndex Entry.isBoundary entries with
  | none => { window := entries }
  | some prevBoundaryIndex =>
      match entries[prevBoundaryIndex]? with
      | none => { window := entries }
      | some prevBoundary =>
          let firstKept := firstKeptIndex entries prevBoundary
          match prevBoundary.body with
          | .reset _ =>
              let keptEntries := match firstKept with
                | some index =>
                    selectResetKeptEntries ((entries.take prevBoundaryIndex).drop index)
                | none => []
              { window := entries.drop (prevBoundaryIndex + 1)
                resetPreludeMessages := keptEntries.filterMap compactionMessage }
          | .compaction summary _ _ =>
              { window := entries.drop (firstKept.getD (prevBoundaryIndex + 1))
                previousSummary := some summary }
          | _ => { window := entries }

def totalTokens (E : Estimator) (messages : List AgentMessage) : Nat :=
  (messages.map E.estimateTokens).sum

/-- The unit of the budget against the units of the estimator. -/
def triggerUnitScale (E : Estimator) (settings : CompactionSettings)
    (messages : List AgentMessage) : ℚ :=
  match E.usageTokens messages with
  | some usageTokens =>
      if 0 < totalTokens E messages then
        min (max 1 settings.keepRecentTokens) (max 1 (usageTokens / totalTokens E messages))
      else 1
  | none => 1

def keepRecentTokens (E : Estimator) (settings : CompactionSettings) (entries : List Entry) : ℚ :=
  min maxSafeInteger
    (settings.keepRecentTokens / triggerUnitScale E settings (contextMessages entries) +
      totalTokens E (compactionWindow entries).resetPreludeMessages)

inductive CompactionError where
  | invalidSession
  deriving DecidableEq

/-- The preparation of a compaction, if there is something to summarize. -/
def prepareCompaction (E : Estimator) (entries : List Entry) (settings : CompactionSettings) :
    Except CompactionError (Option CompactionPreparation) :=
  if isCompactable entries then
    let part := compactionWindow entries
    let cutPoint := findCutPoint E part.window (keepRecentTokens E settings entries)
    match part.window[cutPoint.firstKeptEntryIndex]? with
    | none => .error .invalidSession
    | some firstKeptEntry =>
        if firstKeptEntry.id = "" then .error .invalidSession
        else
          let messagesToSummarize := part.resetPreludeMessages ++
            (part.window.take cutPoint.historyEnd).filterMap compactionMessage
          let turnPrefixMessages :=
            ((part.window.take cutPoint.firstKeptEntryIndex).drop
              cutPoint.historyEnd).filterMap compactionMessage
          if messagesToSummarize = [] ∧ turnPrefixMessages = [] then .ok none
          else .ok (some
            { firstKeptEntryId := firstKeptEntry.id
              messagesToSummarize
              turnPrefixMessages
              isSplitTurn := cutPoint.isSplitTurn
              previousSummary := part.previousSummary })
  else .ok none

end Compaction
