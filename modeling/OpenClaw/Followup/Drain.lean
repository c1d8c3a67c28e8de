import OpenClaw.Followup.State

/-!
The parts of a drain between two awaits: which sources a synthetic run is built from,
what a delivery protects, how its sources are consumed or kept for a retry, and what
the drain of an elision entry does once its delivery is over.
-/

namespace Followup

/-- An overflow summary that was handed to `runFollowup`. -/
structure Delivery where
  prompt : List String
  droppedCount : Nat
  sources : List RunId
  protectedSources : List RunId
  /-- The protected sources that a deferred delivery already kept active. -/
  inheritedActiveSources : List RunId
  /-- The elision entry and the sources it held, when the delivery drains one. -/
  elided : Option (ElisionId × List RunId)
  deriving DecidableEq

/-- The lines of `previewQueueSummaryPrompt`. -/
def previewQueueSummaryPrompt (droppedCount : Nat) (summaryLines : List String) :
    Option (List String) :=
  if droppedCount = 0 then none
  else
    let plural := if droppedCount = 1 then "" else "s"
    let title := s!"[Queue overflow] Dropped {droppedCount} message{plural} due to cap."
    some (title :: if summaryLines = [] then [] else "Summary:" :: summaryLines.map ("- " ++ ·))

/-- `lines.slice(-cap)`. -/
def sliceLast (cap : Count) (lines : List String) : List String :=
  match cap with
  | .fin (n + 1) => lines.drop (lines.length - (n + 1))
  | _ => lines

/-- The lines of the kept sources. -/
def keepLines (keep : RunId → Bool) : List RunId → List String → List String
  | source :: sources, line :: lines =>
      if keep source then line :: keepLines keep sources lines else keepLines keep sources lines
  | _, lines => lines

/-- `findIndex` and removal of a source in the elision entries: the first entry that holds
the source or a reference to its compact copy. -/
def consumeElided (source : RunId) : List Elision → Option (RunId × List Elision)
  | [] => none
  | entry :: entries =>
      if source ∈ entry.sources || (entry.reference source).isSome then
        let elided := (entry.reference source).getD source
        let consumed :=
          if elided ∈ entry.sources then { entry with
            sources := entry.sources.eraseIdx (entry.sources.idxOf elided)
            summaryLines := entry.summaryLines.eraseIdx (entry.sources.idxOf elided) }
          else entry
        let counted := { consumed with count := consumed.sources.length }
        some (elided, if counted.sources = [] then entries else counted :: entries)
      else (consumeElided source entries).map fun found => (found.1, entry :: found.2)

namespace State

def resolveQueueSummaryLines (s : State) (sources : List RunId) : List String :=
  sources.map fun source => s.summaryLines.getD (s.summarySources.idxOf source) ""

/-- One source of `consumeQueueSummaryDelivery`, with the number it consumed. -/
def consumeSource (settlement : Settlement) (consumed : Nat × State) (source : RunId) :
    Nat × State :=
  let (count, s) := consumed
  if source ∈ s.summarySources then
    let index := s.summarySources.idxOf source
    (count + 1, { s with
      summarySources := s.summarySources.eraseIdx index
      summaryLines := s.summaryLines.eraseIdx index }.settle source settlement)
  else
    match consumeElided source s.summaryElisions with
    | some (elided, entries) =>
        (count + 1, { s with summaryElisions := entries }.settle elided settlement)
    | none => (count, s)

def consumeQueueSummaryDelivery (s : State) (droppedCount : Nat) (sources : List RunId)
    (settlement : Settlement) : State :=
  let start := if sources = [] then droppedCount else 0
  let (consumed, s) := sources.foldl (consumeSource settlement) (start, s)
  { s with droppedCount := s.droppedCount - consumed }

/-- Replace a source that is still retained by a fresh copy. -/
def releaseForRetry (s : State) (source : RunId) : State :=
  if source ∈ s.summarySources then
    let index := s.summarySources.idxOf source
    let (copy, s) := s.copySource source
    { s with summarySources := s.summarySources.set index copy }
  else s

def releaseQueueSummaryDeliveryForRetry (s : State) (sources : List RunId) : State :=
  sources.foldl releaseForRetry s

/-- The number of dropped sources and the state without them. -/
def dropAbortedQueueSummarySources (s : State) : Nat × State :=
  let aborted := s.summarySources.filter s.isFollowupRunAborted
  let keep := fun source => !s.isFollowupRunAborted source
  (aborted.length, { s.settleAll aborted .aborted with
    summarySources := s.summarySources.filter keep
    summaryLines := keepLines keep s.summarySources s.summaryLines
    droppedCount := s.droppedCount - aborted.length })

/-- `resolveOverflowSummarySourceGroup`. -/
def resolveOverflowSummarySourceGroup (norm : Normalizers) (s : State) : List RunId :=
  match s.summarySources with
  | [] => []
  | source :: sources =>
      source :: sources.takeWhile fun candidate =>
        s.contextKey norm candidate = s.contextKey norm source

/-- The lifecycles that isolate their admission. -/
def admissionOwners (s : State) (sources : List RunId) : List TurnAdoptionLifecycle :=
  (sources.filterMap fun source => (s.runs source).turnAdoptionLifecycle).filter (·.exclusive)

/-- `assertSingleAdmissionOwner` passes. -/
def singleAdmissionOwner (s : State) (sources : List RunId) : Bool :=
  ((s.admissionOwners sources).map (·.id)).dedup.length ≤ 1

def needsAdmission (s : State) (sources : List RunId) : Bool :=
  1 < sources.length || s.admissionOwners sources ≠ []

/-- Hand a synthetic run to `runFollowup`. -/
def recordBuilt (norm : Normalizers) (s : State) (sources : List RunId) : State :=
  { s with history := { s.history with
    built := s.history.built ++ [sources.map fun source => (source, s.contextKey norm source)] } }

def recordPrompted (s : State) (sources : List RunId) : State :=
  { s with history := { s.history with prompted := s.history.prompted ++ [sources] } }

/-- `runQueueSummaryDelivery` up to the call of `run`. -/
def protectSources (s : State) (sources : List RunId) : State :=
  { s with
    activeSummarySources := s.activeSummarySources ∪ sources.toFinset
    inFlight := s.inFlight ∪ sources.toFinset }

/-- The aggregate is admitted: it consumes every protected source. -/
def admitDelivery (s : State) (delivery : Delivery) : State :=
  (s.recordPrompted delivery.protectedSources).consumeQueueSummaryDelivery delivery.droppedCount
    delivery.protectedSources .delivered

def releaseActive (s : State) (source : RunId) : State :=
  let references := s.summaryElisions.filterMap (·.reference source)
  { s with
    activeSummarySources := s.activeSummarySources \ (source :: references).toFinset }

/-- The `finally` block of `runQueueSummaryDelivery`. -/
def finishDelivery (s : State) (delivery : Delivery) (deferredBeforeAdmission : Bool) : State :=
  let carryover :=
    if deferredBeforeAdmission && delivery.inheritedActiveSources = [] then
      delivery.protectedSources
    else delivery.inheritedActiveSources
  let released := delivery.protectedSources.filter fun source =>
    !(deferredBeforeAdmission && source ∈ carryover)
  (released.foldl releaseActive
    { s with inFlight := s.inFlight \ delivery.protectedSources.toFinset }).trimSummaryElisionsToCap

/-- The run returned. The first component tells whether the summary counts as delivered. -/
def returnDelivery (s : State) (delivery : Delivery) (admitted : Bool) : Bool × State :=
  if admitted then (true, s.finishDelivery delivery false)
  else
    let canceled := delivery.protectedSources.filter s.isFollowupRunAborted
    if canceled ≠ [] then
      (false, (s.consumeQueueSummaryDelivery delivery.droppedCount canceled
        .aborted).finishDelivery delivery false)
    else
      let consumed := (s.recordPrompted delivery.protectedSources).consumeQueueSummaryDelivery
        delivery.droppedCount delivery.sources .delivered
      (true, consumed.finishDelivery delivery false)

/-- The run threw. -/
def failDelivery (s : State) (delivery : Delivery) (admitted deferred : Bool) : State :=
  if admitted then s.finishDelivery delivery false
  else if deferred then s.finishDelivery delivery true
  else (s.releaseQueueSummaryDeliveryForRetry delivery.sources).finishDelivery delivery false

/-- `drainElidedOverflowSummary` after a delivery that succeeded. -/
def settleElided (s : State) (id : ElisionId) (elidedCount : Nat) : State :=
  match s.summaryElisions.find? (·.id = id) with
  | none => s
  | some entry =>
      let consumedCount := min elidedCount entry.sources.length
      let sources := entry.sources.drop consumedCount
      let settled := { entry with
        sources := sources
        summaryLines := entry.summaryLines.drop consumedCount
        count := sources.length }
      let entries := if sources = [] then s.summaryElisions.filter (·.id ≠ id)
        else s.summaryElisions.map fun other => if other.id = id then settled else other
      { s.settleAll (entry.sources.take consumedCount) .delivered with
        summaryElisions := entries
        droppedCount := s.droppedCount - consumedCount }

/-- What a synchronous part of the drain leads to. -/
inductive Outcome where
  /-- Nothing was done: the drain goes on with the items. -/
  | skipped
  | handled
  | started (delivery : Delivery)
  /-- An assertion threw. -/
  | threw

/-- Start the delivery of an elision entry. -/
def startElided (norm : Normalizers) (s : State) (entry : Elision) (retainedSources : List RunId) :
    Outcome × State :=
  let protectedSources := entry.sources ++ retainedSources
  let summaryLines := sliceLast s.cap
    (entry.summaryLines ++ s.resolveQueueSummaryLines retainedSources)
  match previewQueueSummaryPrompt protectedSources.length summaryLines with
  | none => (.skipped, s)
  | some prompt =>
      if !s.singleAdmissionOwner protectedSources then (.threw, s)
      else
        (.started {
          prompt := prompt
          droppedCount := retainedSources.length
          sources := retainedSources
          protectedSources := protectedSources
          inheritedActiveSources := protectedSources.filter (· ∈ s.activeSummarySources)
          elided := some (entry.id, entry.sources) },
          (s.recordBuilt norm protectedSources).protectSources protectedSources)

/-- The retained sources that join the delivery of the only elision entry. -/
def retainedFor (norm : Normalizers) (s : State) (entry : Elision) : List RunId :=
  if s.summaryElisions.length = 1 then
    (s.resolveOverflowSummarySourceGroup norm).filter
      fun source => s.contextKey norm source = entry.contextKey
  else []

def drainElidedOverflowSummary (norm : Normalizers) (s : State) : Outcome × State :=
  match s.summaryElisions with
  | [] => (.skipped, s)
  | entry :: entries =>
      let retainedSources := s.retainedFor norm entry
      let aborted := entry.sources.filter s.isFollowupRunAborted
      let keep := fun source => !s.isFollowupRunAborted source
      let kept := { entry with
        sources := entry.sources.filter keep
        summaryLines := keepLines keep entry.sources entry.summaryLines
        count := entry.count - aborted.length }
      let s := { s.settleAll aborted .aborted with
        droppedCount := s.droppedCount - aborted.length }
      if kept.sources = [] then (.handled, { s with summaryElisions := entries })
      else { s with summaryElisions := kept :: entries }.startElided norm kept retainedSources

/-- Start the delivery of the first group of retained sources. -/
def drainRetained (norm : Normalizers) (s : State) : Outcome × State :=
  let sources := s.resolveOverflowSummarySourceGroup norm
  match previewQueueSummaryPrompt sources.length (s.resolveQueueSummaryLines sources) with
  | none => (.skipped, s)
  | some prompt =>
      if !s.singleAdmissionOwner sources then (.threw, s)
      else
        (.started {
          prompt := prompt
          droppedCount := sources.length
          sources := sources
          protectedSources := sources
          inheritedActiveSources := sources.filter (· ∈ s.activeSummarySources)
          elided := none },
          (s.recordBuilt norm sources).protectSources sources)

def drainOverflowSummaryGroup (norm : Normalizers) (s : State) : Outcome × State :=
  let (dropped, s) := s.dropAbortedQueueSummarySources
  if 0 < dropped && s.droppedCount = 0 then (.handled, s)
  else if 0 < s.evictedSummaryCount then
    (.handled, { s.reportEvicted with
      evictedSummaryCount := 0
      droppedCount := s.droppedCount - s.evictedSummaryCount })
  else
    match s.drainElidedOverflowSummary norm with
    | (.skipped, s) => s.drainRetained norm
    | result => result

/-- Consecutive items of one delivery context. -/
def splitCollectItemsByDeliveryContext (norm : Normalizers) (s : State) (items : List RunId) :
    List (List RunId) :=
  items.splitBy fun left right => s.contextKey norm left = s.contextKey norm right

end State
end Followup
