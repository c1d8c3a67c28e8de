import OpenClaw.Lib.JsUnits
import OpenClaw.NormalizationCore.Utf16Slice

/-!
The text of a compaction summary: the section of the unresolved request, the history
summary, the turn context of a split turn and the lists of file operations, cut to a
budget of UTF-16 code units. What the model answers to the two summarization prompts is
given by a summarizer.
-/

namespace Compaction

open JsUnits NormalizationCore

def MAX_COMPACTION_SUMMARY_CHARS : Nat := 16000

def SUMMARY_TRUNCATED_MARKER : Text := lit "\n\n[Compaction summary truncated to fit budget]"

def capCompactionSummary (summary : Text) (maxChars : Int) (preservedSuffix : Text) : Text :=
  if maxChars ≤ 0 ∨ summary.length ≤ maxChars then summary
  else
    let suffix := if preservedSuffix <:+ summary then preservedSuffix else []
    if maxChars < SUMMARY_TRUNCATED_MARKER.length + suffix.length then
      truncateUtf16Safe summary maxChars
    else
      let budget := maxChars - SUMMARY_TRUNCATED_MARKER.length - suffix.length
      let head := summary.take (summary.length - suffix.length)
      truncateUtf16Safe head budget ++ SUMMARY_TRUNCATED_MARKER ++ suffix

/-- `FileOperations`: three sets of paths, each in the order of insertion. -/
structure FileOperations where
  read : List Text := []
  written : List Text := []
  edited : List Text := []

/-- The order of strings by code units. -/
def textLe : Text → Text → Bool
  | [], _ => true
  | _ :: _, [] => false
  | u :: us, v :: vs => u < v || (u == v && textLe us vs)

/-- `[...new Set(files)]`. -/
def distinct (files : List Text) : List Text := files.reverse.dedup.reverse

def computeFileLists (fileOps : FileOperations) : List Text × List Text :=
  let modified := distinct (fileOps.edited ++ fileOps.written)
  let readOnly := (distinct fileOps.read).filter fun file => file ∉ modified
  (readOnly.mergeSort textLe, modified.mergeSort textLe)

def MAX_FILE_OPS_SECTION_CHARS : Nat := 2000
def MAX_FILE_OPS_LIST_CHARS : Nat := 900

/-- `...and ${count} more\n`. -/
def overflowLine (count : Nat) : Text := lit "...and " ++ lit (toString count) ++ lit " more\n"

/-- The lines of a bounded list, after `usedChars` characters. -/
def boundedLines (maxChars : Nat) : Nat → List Text → List Text
  | _, [] => []
  | usedChars, file :: rest =>
      let line := file ++ lit "\n"
      let overflow := if rest.length > 0 then overflowLine rest.length else []
      if usedChars + line.length + overflow.length > maxChars then
        let overflow := overflowLine (rest.length + 1)
        if usedChars + overflow.length ≤ maxChars then [overflow] else []
      else line :: boundedLines maxChars (usedChars + line.length) rest

def trimEnd (text : Text) : Text := text.rdropWhile isWhitespace

def formatBoundedFileList (tag : Text) (files : List Text) (maxChars : Nat) : Text :=
  if files.length = 0 ∨ maxChars = 0 then []
  else
    let openTag := lit "<" ++ tag ++ lit ">\n"
    let closeTag := lit "\n</" ++ tag ++ lit ">"
    let lines := boundedLines maxChars (openTag.length + closeTag.length) files
    if lines.length > 0 then openTag ++ trimEnd lines.flatten ++ closeTag else []

def formatFileOperations (readFiles modifiedFiles : List Text) : Text :=
  let sections :=
    [formatBoundedFileList (lit "read-files") readFiles MAX_FILE_OPS_LIST_CHARS,
      formatBoundedFileList (lit "modified-files") modifiedFiles MAX_FILE_OPS_LIST_CHARS].filter
      (· ≠ [])
  if sections.length = 0 then []
  else
    let joined := lit "\n\n" ++ (lit "\n\n").intercalate sections
    if joined.length > MAX_FILE_OPS_SECTION_CHARS then joined.take MAX_FILE_OPS_SECTION_CHARS
    else joined

inductive CompactionErrorCode where
  | aborted
  | invalidSession
  | summarizationFailed
  deriving DecidableEq

/-- `CompactionError`. -/
structure CompactionFailure where
  code : CompactionErrorCode
  message : Text

structure SummaryDetails where
  readFiles : List Text
  modifiedFiles : List Text
  latestUnresolvedUserRequest : Option Text := none

/-- `CompactionPreparation`; the settings are the summarizer's. -/
structure SummaryPreparation (Message : Type*) where
  firstKeptEntryId : Text
  messagesToSummarize : List Message
  turnPrefixMessages : List Message
  isSplitTurn : Bool
  latestUnresolvedUserRequest : Option Text
  tokensBefore : Nat
  previousSummary : Option Text
  previousSummaryDetails : Option SummaryDetails
  fileOps : FileOperations

/-- What the model returns for messages, the history beside an earlier summary. -/
structure Summarizer (Message : Type*) where
  generateSummary : List Message → Option Text → Except CompactionFailure Text
  summarizeTurnPrefix : List Message → Except CompactionFailure Text

structure CompactionResult where
  summary : Text
  firstKeptEntryId : Text
  tokensBefore : Nat
  details : SummaryDetails

def turnContextHeading : Text := lit "\n\n---\n\n**Turn Context (split turn):**\n\n"

def requestHeading : Text := lit "## Latest unresolved user request\n"

/-- The section of the request, without the empty line that ends it. -/
def requestSection (request : Text) : Text := requestHeading ++ stringify request

namespace SummaryPreparation

variable {Message : Type*} (summarizer : Summarizer Message)
  (preparation : SummaryPreparation Message)

def splitsTurn : Bool :=
  preparation.isSplitTurn && !preparation.turnPrefixMessages.isEmpty

/-- The previous summary without the file lists that were appended to it. -/
def preservedPreviousSummary : Option Text :=
  let previousFileOperations := match preparation.previousSummaryDetails with
    | some details => formatFileOperations details.readFiles details.modifiedFiles
    | none => []
  preparation.previousSummary.map fun previous =>
    if previousFileOperations ≠ [] ∧ previousFileOperations <:+ previous then
      previous.take (previous.length - previousFileOperations.length)
    else previous

def historySummary : Except CompactionFailure Text :=
  if preparation.messagesToSummarize.length > 0 ∨ !preparation.splitsTurn then
    summarizer.generateSummary preparation.messagesToSummarize preparation.previousSummary
  else .ok (preparation.preservedPreviousSummary.getD (lit "No prior history."))

def turnContext : Except CompactionFailure Text :=
  if preparation.splitsTurn then do
    let summary ← summarizer.summarizeTurnPrefix preparation.turnPrefixMessages
    return turnContextHeading ++ summary
  else .ok []

/-- The section of the unresolved request; an empty request counts as none. -/
def unresolvedRequestContext : Text :=
  match preparation.latestUnresolvedUserRequest with
  | none | some [] => []
  | some request => requestSection request ++ lit "\n\n"

def fileOperations : Text :=
  formatFileOperations (computeFileLists preparation.fileOps).1
    (computeFileLists preparation.fileOps).2

def compact : Except CompactionFailure CompactionResult := do
  if preparation.firstKeptEntryId = [] then
    throw ⟨.invalidSession,
      lit "First kept entry has no UUID - session may need migration"⟩
  let history ← preparation.historySummary summarizer
  let latestContext ← preparation.turnContext summarizer
  let (readFiles, modifiedFiles) := computeFileLists preparation.fileOps
  let fileOperations := formatFileOperations readFiles modifiedFiles
  let preservedHistoryChars := min history.length (MAX_COMPACTION_SUMMARY_CHARS / 2)
  let latestContextBudget : Int := (MAX_COMPACTION_SUMMARY_CHARS : Int) -
    SUMMARY_TRUNCATED_MARKER.length - fileOperations.length - preservedHistoryChars
  let latestContext := capCompactionSummary latestContext latestContextBudget [] ++ fileOperations
  let summary := capCompactionSummary
    (preparation.unresolvedRequestContext ++ history ++ latestContext)
    MAX_COMPACTION_SUMMARY_CHARS latestContext
  return {
    summary
    firstKeptEntryId := preparation.firstKeptEntryId
    tokensBefore := preparation.tokensBefore
    details := {
      readFiles, modifiedFiles
      latestUnresolvedUserRequest := preparation.latestUnresolvedUserRequest.filter (· ≠ []) } }

end SummaryPreparation

end Compaction
