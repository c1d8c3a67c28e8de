import OpenClaw.Followup.Run

/-!
The state of one follow-up queue and the operations on it that are not part of a
drain. The queue object outlives its registration: after a clear only a drain that
was under way still holds it. `History` is not part of the program: it records what
the statements about whole runs talk about.
-/

namespace Followup

abbrev ElisionId := Nat

inductive QueueMode where
  | steer | followup | collect | interrupt
  deriving DecidableEq

inductive QueueDropPolicy where
  | old | new | summarize
  deriving DecidableEq

structure QueueSettings where
  mode : QueueMode := .followup
  cap : Option JsNumber := none
  dropPolicy : Option QueueDropPolicy := none
  deriving DecidableEq

/-- An entry of `summaryElisions`. The newest reference of a source comes first. -/
structure Elision where
  id : ElisionId
  contextKey : List KeyPart
  count : Nat
  sources : List RunId
  summaryLines : List String
  sourceRefs : List (RunId × RunId)

/-- How a summarized source leaves the queue. -/
inductive Settlement where
  | delivered
  | aborted
  | evicted
  | cleared
  deriving DecidableEq

structure History where
  /-- The summary line captured when a run was dropped; copies inherit it. -/
  captured : RunId → Option String := fun _ => none
  /-- The dropped run a compact or retry copy stands for. -/
  origin : RunId → RunId := fun id => id
  summarized : List RunId := []
  settled : List (RunId × Settlement) := []
  /-- Evicted sources whose number was reported or cleared. -/
  reported : Nat := 0
  /-- The sources of each synthetic summary run that was admitted or succeeded. -/
  prompted : List (List RunId) := []
  /-- The sources of each synthetic run, with their keys when it was built. -/
  built : List (List (RunId × List KeyPart)) := []

structure State where
  runs : RunId → FollowupRun := fun _ => {}
  executions : ExecutionId → Execution := fun _ => {}
  nextRun : Nat := 0
  nextExecution : Nat := 0
  nextElision : Nat := 0
  abortedSignals : List Signal := []
  registered : Bool := true
  items : List RunId := []
  inFlight : Finset RunId := ∅
  mode : QueueMode := .followup
  cap : Count := .fin 20
  dropPolicy : QueueDropPolicy := .summarize
  droppedCount : Nat := 0
  summaryLines : List String := []
  summarySources : List RunId := []
  activeSummarySources : Finset RunId := ∅
  summaryElisions : List Elision := []
  evictedSummaryCount : Nat := 0
  lastRun : Option ExecutionId := none
  history : History := {}

def summaryLineLimit : Nat := 160

/-- `truncateUtf16Safe`: whole characters within a number of UTF-16 code units. -/
def truncateUtf16Safe : Nat → List Char → List Char
  | _, [] => []
  | limit, c :: cs =>
      let width := (JsText.codeUnits c).length
      if width ≤ limit then c :: truncateUtf16Safe (limit - width) cs else []

def trimEndChars (cs : List Char) : List Char :=
  (cs.reverse.dropWhile JsText.isWhitespace).reverse

def buildQueueSummaryLine (text : String) : String :=
  let cleaned := JsText.trimChars (JsText.collapseChars text.toList)
  if (cleaned.flatMap JsText.codeUnits).length ≤ summaryLineLimit then String.ofList cleaned
  else String.ofList (trimEndChars (truncateUtf16Safe (summaryLineLimit - 1) cleaned) ++ ['…'])

/-- The text of a dropped item: the approved body if there is one. -/
def summarize (item : FollowupRun) : String :=
  match item.pendingInputMessage with
  | some approved => approved
  | none => (normalizeOptionalString item.summaryLine).getD (JsText.trim item.prompt)

/-- `typeof cap === "number" && cap > 0 ? Math.floor(cap) : kept`. -/
def resolveCap (cap : Option JsNumber) (kept : Count) : Count :=
  match cap with
  | some .posInf => .inf
  | some (.real q) => if 0 < q then .fin ⌊q⌋.toNat else kept
  | _ => kept

namespace Elision

/-- `sourceRefs.get(source)`. -/
def reference (entry : Elision) (source : RunId) : Option RunId := entry.sourceRefs.lookup source

/-- Append the compact copy of an item. -/
def append (entry : Elision) (item compact : RunId) (line : String) : Elision :=
  { entry with
    count := entry.count + 1
    sources := entry.sources ++ [compact]
    summaryLines := entry.summaryLines ++ [line]
    sourceRefs := (item, compact) :: entry.sourceRefs }

end Elision

namespace State

def execution (s : State) (id : RunId) : Execution := s.executions (s.runs id).run

def contextKey (norm : Normalizers) (s : State) (id : RunId) : List KeyPart :=
  resolveFollowupDeliveryContextKey norm (s.runs id) (s.execution id)

def isFollowupRunAborted (s : State) (id : RunId) : Bool :=
  (s.runs id).abortSignal.any (· ∈ s.abortedSignals) ||
    (s.runs id).queueAbortSignal.any (· ∈ s.abortedSignals)

def setRun (s : State) (id : RunId) (run : FollowupRun) : State :=
  { s with runs := Function.update s.runs id run }

/-- A new run object. -/
def allocate (s : State) (run : FollowupRun) : RunId × State :=
  (s.nextRun, { s with
    runs := Function.update s.runs s.nextRun run
    nextRun := s.nextRun + 1 })

/-- A new compact copy; it stands for what its source stands for. -/
def copySource (s : State) (source : RunId) : RunId × State :=
  let (copy, s) := s.allocate (createOverflowSummaryRetrySource (s.runs source))
  (copy, { s with history := { s.history with
    captured := Function.update s.history.captured copy (s.history.captured source)
    origin := Function.update s.history.origin copy (s.history.origin source) } })

def settle (s : State) (source : RunId) (settlement : Settlement) : State :=
  { s with history := { s.history with
    settled := s.history.settled ++ [(source, settlement)] } }

def settleAll (s : State) (sources : List RunId) (settlement : Settlement) : State :=
  { s with history := { s.history with
    settled := s.history.settled ++ sources.map (·, settlement) } }

def reportEvicted (s : State) : State :=
  { s with history := { s.history with
    reported := s.history.reported + s.evictedSummaryCount } }

def countPendingQueueItems (s : State) : Nat := s.items.countP (· ∉ s.inFlight)

/-- Take the first inactive source out of the first entry that has one. -/
def evictOne (active : Finset RunId) : List Elision → Option (RunId × List Elision)
  | [] => none
  | entry :: entries =>
      match entry.sources.findIdx? (· ∉ active) with
      | none => (evictOne active entries).map fun found => (found.1, entry :: found.2)
      | some index =>
          let sources := entry.sources.eraseIdx index
          let evicted := { entry with
            sources := sources
            summaryLines := entry.summaryLines.eraseIdx index
            count := sources.length }
          some (entry.sources.getD index 0, if sources = [] then entries else evicted :: entries)

def evict (s : State) : Nat → State
  | 0 => s
  | n + 1 =>
      match evictOne s.activeSummarySources s.summaryElisions with
      | none => s
      | some (source, entries) =>
          ({ s with
            summaryElisions := entries
            evictedSummaryCount := s.evictedSummaryCount + 1 }.settle source .evicted).evict n

def inactiveElided (s : State) : Nat :=
  (s.summaryElisions.map fun entry => entry.sources.countP (· ∉ s.activeSummarySources)).sum

/-- Evict the oldest inactive elided sources above the cap. -/
def trimSummaryElisionsToCap (s : State) : State :=
  match s.cap with
  | .fin cap => s.evict (s.inactiveElided - cap)
  | _ => s

def applyQueueRuntimeSettings (s : State) (settings : QueueSettings) : State :=
  { s with
    mode := settings.mode
    cap := resolveCap settings.cap s.cap
    dropPolicy := settings.dropPolicy.getD s.dropPolicy }

/-- `getFollowupQueue` on the registered queue. -/
def getFollowupQueue (s : State) (settings : QueueSettings) : State :=
  (s.applyQueueRuntimeSettings settings).trimSummaryElisionsToCap

/-- `getFollowupQueue` when no queue is registered. -/
def create (settings : QueueSettings) : State :=
  ({ mode := settings.mode } : State).applyQueueRuntimeSettings settings

def clearFollowupQueue (s : State) : State :=
  let cleared := s.summarySources ++ s.summaryElisions.flatMap (·.sources)
  { (s.settleAll cleared .cleared).reportEvicted with
    abortedSignals := .queue :: s.abortedSignals
    items := []
    inFlight := ∅
    droppedCount := 0
    summaryLines := []
    summarySources := []
    summaryElisions := []
    evictedSummaryCount := 0
    lastRun := none
    registered := false }

structure SessionRefresh where
  previousSessionId : Option String := none
  nextSessionId : Option String := none
  nextSessionFile : Option String := none
  nextProvider : Option String := none
  nextModel : Option String := none
  deriving DecidableEq

/-- A JavaScript string that is present and not empty. -/
def truthy (value : Option String) : Option String := value.filter (· ≠ "")

/-- `rewriteRun`, as far as the modelled fields go. -/
def rewriteRun (refresh : SessionRefresh) (execution : Execution) : Execution :=
  let rewritten :=
    match truthy refresh.previousSessionId, truthy refresh.nextSessionId with
    | some previous, some next =>
        if previous ≠ next && execution.sessionId = previous then
          { execution with
            sessionId := next
            sessionFile := (normalizeOptionalString refresh.nextSessionFile).getD
              execution.sessionFile }
        else execution
    | _, _ => execution
  { rewritten with
    provider := refresh.nextProvider.getD rewritten.provider
    model := refresh.nextModel.getD rewritten.model }

/-- The executions a refresh rewrites in place. -/
def refreshed (s : State) : List ExecutionId :=
  s.lastRun.toList ++
    (s.items ++ s.summarySources ++ s.summaryElisions.flatMap (·.sources)).map fun id =>
      (s.runs id).run

def refreshQueuedFollowupSession (s : State) (refresh : SessionRefresh) : State :=
  { s with executions := fun id =>
      if id ∈ s.refreshed then rewriteRun refresh (s.executions id) else s.executions id }

end State
end Followup

/-!
Enqueueing follow-up runs: deduplication, steer candidates, the drop policy with its
overflow summary, the elision of summary sources above the cap, and the steer
reservations that defer the overflow policy.
-/

namespace Followup

inductive QueueDedupeMode where
  | messageId | prompt | none
  deriving DecidableEq

structure EnqueueOptions where
  settings : QueueSettings := {}
  dedupeMode : QueueDedupeMode := .messageId
  /-- `peekRecentQueueMessageId` knows the message. -/
  recentMessage : Bool := false
  /-- `markFollowupRunEnqueued`: the lifecycle accepts the deferral. -/
  accepted : Bool := true
  front : Bool := false
  steerCandidate : Bool := false
  deriving DecidableEq

namespace State

/-- Split off the first victims. -/
def takeVictims (isVictim : RunId → Bool) : Nat → List RunId → List RunId × List RunId
  | 0, items => ([], items)
  | _, [] => ([], [])
  | n + 1, item :: items =>
      if isVictim item then
        let (dropped, kept) := takeVictims isVictim n items
        (item :: dropped, kept)
      else
        let (dropped, kept) := takeVictims isVictim (n + 1) items
        (dropped, item :: kept)

def isProtected (s : State) (id : RunId) : Bool :=
  (s.runs id).protectFromQueueOverflow || (s.runs id).steerAnchor

/-- The drop policy takes waiting items that nothing protects. -/
def isVictim (s : State) (id : RunId) : Bool := id ∉ s.inFlight && !s.isProtected id

/-- Move dropped items to the overflow summary. -/
def summarizeDropped (s : State) (dropped : List RunId) : State :=
  let line := fun id => buildQueueSummaryLine (summarize (s.runs id))
  { s with
    summarySources := s.summarySources ++ dropped
    summaryLines := s.summaryLines ++ dropped.map line
    droppedCount := s.droppedCount + dropped.length
    history := { s.history with
      captured := fun id => if id ∈ dropped then some (line id) else s.history.captured id
      summarized := s.history.summarized ++ dropped } }

/-- The summary lines above the limit, and the state without them. -/
def elideLines (s : State) : List String × State :=
  match s.cap with
  | .fin limit =>
      let overflow := s.summaryLines.length - limit
      (s.summaryLines.take overflow, { s with summaryLines := s.summaryLines.drop overflow })
  | _ => ([], s)

/-- `applyQueueDropPolicy`: whether there is room now, the lines that were elided, and
the state. -/
def applyQueueDropPolicy (s : State) : Bool × List String × State :=
  match s.cap with
  | .fin cap =>
      let pendingCount := s.countPendingQueueItems
      if cap = 0 || pendingCount < cap then (true, [], s)
      else if s.dropPolicy = .new then (false, [], s)
      else
        let dropCount := pendingCount - cap + 1
        let (dropped, kept) := takeVictims s.isVictim dropCount s.items
        if dropped.length < dropCount then (false, [], s)
        else
          let s := { s with items := kept }
          if s.dropPolicy = .summarize then
            let (lines, s) := (s.summarizeDropped dropped).elideLines
            (true, lines, s)
          else (true, [], s)
  | _ => (true, [], s)

def markActiveLike (s : State) (copy source : RunId) : State :=
  if source ∈ s.activeSummarySources then
    { s with activeSummarySources := insert copy s.activeSummarySources }
  else s

def newElision (s : State) (contextKey : List KeyPart) (item compact : RunId) (line : String) :
    Elision where
  id := s.nextElision
  contextKey := contextKey
  count := 1
  sources := [compact]
  summaryLines := [line]
  sourceRefs := [(item, compact)]

/-- Append a compact copy of an item to the last elision entry if that has the same
delivery context, else open a new entry. -/
def appendElision (norm : Normalizers) (s : State) (item : RunId) (line : String) : State :=
  let contextKey := s.contextKey norm item
  let (compact, s) := s.copySource item
  let opened := { s with
    summaryElisions := s.summaryElisions ++ [s.newElision contextKey item compact line]
    nextElision := s.nextElision + 1 }
  let s :=
    match s.summaryElisions.getLast? with
    | some entry =>
        if entry.contextKey = contextKey then
          { s with
            summaryElisions := s.summaryElisions.dropLast ++ [entry.append item compact line] }
        else opened
    | none => opened
  s.markActiveLike compact item

def elideSource (norm : Normalizers) (s : State) (item : RunId) (line : String) : State :=
  (s.appendElision norm item line).trimSummaryElisionsToCap

/-- Elide the oldest summary sources that lost their line. -/
def elideSources (norm : Normalizers) (s : State) (lines : List String) : State :=
  let overflow := s.summarySources.length - s.summaryLines.length
  let removed := s.summarySources.take overflow
  (removed.zip lines).foldl (fun s pair => s.elideSource norm pair.1 pair.2)
    { s with summarySources := s.summarySources.drop overflow }

def appendQueueItem (s : State) (id : RunId) (front : Bool) : State :=
  let s := s.setRun id { s.runs id with queueAbortSignal := some .queue }
  { s with
    lastRun := some (s.runs id).run
    items := if front then id :: s.items else s.items ++ [id] }

/-- `drop:new` rejects the run without touching the queue. -/
def rejectsNew (s : State) : Bool :=
  s.dropPolicy = .new && s.cap ≠ .fin 0 && s.cap.isReachedBy s.countPendingQueueItems

def isDuplicate (norm : Normalizers) (s : State) (id : RunId) : QueueDedupeMode → Bool
  | .none => false
  | .messageId => isRunAlreadyQueued norm (s.runs id) (s.items.map s.runs) false
  | .prompt => isRunAlreadyQueued norm (s.runs id) (s.items.map s.runs) true

def enqueueFollowupRun (norm : Normalizers) (s : State) (id : RunId) (options : EnqueueOptions) :
    Bool × State :=
  if s.isFollowupRunAborted id then (false, s)
  else
    let run := s.runs id
    let s := s.setRun id { run with
      protectFromQueueOverflow := run.protectFromQueueOverflow || options.front
      steerAnchor := run.steerAnchor || options.steerCandidate }
    if options.dedupeMode ≠ .none && (normalizeOptionalString run.messageId).isSome &&
        options.recentMessage then
      (false, s)
    else
      let s := s.getFollowupQueue options.settings
      if s.isDuplicate norm id options.dedupeMode then (false, s)
      else if options.steerCandidate then
        if !options.accepted then (false, s)
        else
          let s := s.setRun id { s.runs id with steerPending := true }
          (true, s.appendQueueItem id options.front)
      else if s.items.any fun item => (s.runs item).steerPending then
        if !options.accepted then (false, s) else (true, s.appendQueueItem id false)
      else if s.rejectsNew then (false, s)
      else if !options.accepted then (false, s)
      else
        let (shouldEnqueue, lines, s) := s.applyQueueDropPolicy
        let s := if s.dropPolicy = .summarize then s.elideSources norm lines else s
        if shouldEnqueue then (true, s.appendQueueItem id options.front) else (false, s)

/-- The overflow policy for the items behind the last steer anchor, once no steer is
pending. -/
def reapplyDeferredOverflow (norm : Normalizers) (s : State) : State :=
  if s.items.any fun item => (s.runs item).steerPending then s
  else
    let anchored := (s.items.reverse.dropWhile fun item => !(s.runs item).steerAnchor).length
    let suffix := s.items.drop anchored
    if suffix = [] then s
    else
      let originalCap := s.cap
      let cap : Option JsNumber := match originalCap with
        | .fin cap => some (.real (cap + anchored))
        | .inf => some .posInf
        | .nan => some .nan
      let settings := { mode := s.mode, cap := cap, dropPolicy := some s.dropPolicy }
      let options := { settings := settings, dedupeMode := .none }
      let s := suffix.foldl (fun s item => (s.enqueueFollowupRun norm item options).2)
        { s with items := s.items.take anchored }
      { s with cap := originalCap }

/-- `settleParkedSteerAcceptance`; acceptance keeps the run parked. -/
def settleParkedSteerAcceptance (norm : Normalizers) (s : State) (id : RunId) (accepted : Bool) :
    State :=
  if id ∉ s.items || !(s.runs id).steerPending || accepted then s
  else (s.setRun id { s.runs id with steerPending := false }).reapplyDeferredOverflow norm

/-- Remove a committed steer. -/
def consumeParkedFollowupRun (norm : Normalizers) (s : State) (id : RunId) : State :=
  if id ∉ s.items then s
  else
    let s := { s with items := s.items.erase id }
    (s.setRun id { s.runs id with
      steerPending := false
      protectFromQueueOverflow := false
      steerAnchor := false }).reapplyDeferredOverflow norm

end State
end Followup
