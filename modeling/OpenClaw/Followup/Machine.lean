import OpenClaw.Followup.Drain
import OpenClaw.Lib.Transition

/-!
One follow-up queue as a machine. A drain is in one of a few states, each of them an
await of the source; between two of its steps any other operation on the queue may
run. Each enqueue brings a new run object, whose execution record is new or shared
with an earlier run.
-/

namespace Followup

inductive SingleKind where
  /-- `dropAbortedFollowups`. -/
  | aborted
  /-- `drainProtectedPriorityFollowup`. -/
  | priority
  /-- `drainNextQueueItem`. -/
  | next
  deriving DecidableEq

inductive Drain where
  | idle
  | looping
  /-- The overflow summary had nothing to deliver. -/
  | skipping
  | single (kind : SingleKind) (item : RunId)
  | summary (delivery : Delivery) (admitted : Bool)
  /-- The delivery of an elision entry succeeded and its sources are released. -/
  | settling (entry : ElisionId) (elidedSources : List RunId)
  | collecting (groups : List (List RunId))
  | group (items : List RunId) (admitted : Bool) (groups : List (List RunId))
  /-- An error ended the loop. -/
  | failed
  deriving DecidableEq

structure Machine where
  state : State
  drain : Drain := .idle

inductive ExecutionSource where
  | new (execution : Execution)
  | shared (id : ExecutionId)
  deriving DecidableEq

inductive Label where
  | enqueue (run : FollowupRun) (execution : ExecutionSource) (options : EnqueueOptions)
  | settleSteer (item : RunId) (accepted : Bool)
  | consumeSteer (item : RunId)
  | refresh (refresh : State.SessionRefresh)
  | abort (source : Nat)
  | clear
  | startDrain
  | stopDrain
  /-- The drain ends after an error. -/
  | finishDrain
  | deliverAborted (item : RunId)
  | deliverPriority
  | deliverNext
  | singleReturns
  | singleThrows
  | summarizeOverflow
  /-- The synthetic summary run is admitted. -/
  | adopt
  | summaryReturns
  | summaryThrows (deferred : Bool)
  | settle
  | collect
  | nextGroup
  | adoptGroup
  | groupReturns
  | groupThrows
  deriving DecidableEq

namespace State

def receive (s : State) (run : FollowupRun) : ExecutionSource → RunId × State
  | .new execution =>
      ({ s with
        executions := Function.update s.executions s.nextExecution execution
        nextExecution := s.nextExecution + 1 }).allocate { run with run := s.nextExecution }
  | .shared id => s.allocate { run with run := id }

/-- The queue is still registered and was not aborted. -/
def owned (s : State) : Bool := s.registered && .queue ∉ s.abortedSignals

def steerPending (s : State) : Bool := s.items.any fun item => (s.runs item).steerPending

def hasAnchor (s : State) : Bool := s.items.any fun item => (s.runs item).steerAnchor

def priority? (s : State) : Option RunId :=
  s.items.find? fun item => (s.runs item).protectFromQueueOverflow

/-- `removeQueuedItemsByRef`. -/
def removeQueuedItemsByRef (s : State) (processed : List RunId) : State :=
  { s with items := processed.foldl List.erase s.items }

def unreserve (s : State) (items : List RunId) : State :=
  { s with inFlight := s.inFlight \ items.toFinset }

def restoreGroupItems (s : State) (items : List RunId) : State :=
  { s with items := items.filter (· ∉ s.items) ++ s.items }

/-- Collect batches need no individual drain and no pending steer. -/
def canDrainItems (s : State) : Bool := !s.steerPending && s.priority?.isNone

end State

namespace Machine

def create (settings : QueueSettings) : Machine := { state := .create settings }

def withState (m : Machine) (s : State) : Machine := { m with state := s }

/-- The `finally` block of a drain: an empty queue is forgotten. -/
def finishDrain (s : State) : Machine :=
  { state := { s with registered := s.registered && !(s.items = [] && s.droppedCount = 0) } }

def fail (s : State) : Machine := { state := s, drain := .failed }

def ofOutcome : State.Outcome × State → Machine
  | (.skipped, s) => { state := s, drain := .skipping }
  | (.handled, s) => { state := s, drain := .looping }
  | (.started delivery, s) => { state := s, drain := .summary delivery false }
  | (.threw, s) => fail s

/-- A single run starts. -/
def startSingle (m : Machine) (kind : SingleKind) (item : RunId) : Machine :=
  { state := { m.state with inFlight := insert item m.state.inFlight }, drain := .single kind item }

def throwSingle (s : State) (kind : SingleKind) (item : RunId) : Machine :=
  let s := if kind = .next && !s.owned then s.removeQueuedItemsByRef [item] else s
  fail (s.unreserve [item])

/-- After a successful summary run. -/
def summaryReturned (delivery : Delivery) (delivered : Bool) (s : State) : Machine :=
  match delivery.elided with
  | some (entry, elidedSources) =>
      if delivered then { state := s, drain := .settling entry elidedSources }
      else { state := s, drain := .looping }
  | none => { state := s, drain := .looping }

/-- Deliver the next collect group, without the items that left the queue or were aborted. -/
def startGroup (norm : Normalizers) (s : State) (group : List RunId) (groups : List (List RunId)) :
    Machine :=
  let current := group.filter (· ∈ s.items)
  let aborted := current.filter s.isFollowupRunAborted
  let active := current.filter fun item => !s.isFollowupRunAborted item
  let s := s.removeQueuedItemsByRef aborted
  if active = [] then { state := s, drain := .collecting groups }
  else if !s.singleAdmissionOwner active then fail s
  else
    let s := s.recordBuilt norm active
    { state := { s with inFlight := s.inFlight ∪ active.toFinset }
      drain := .group active false groups }

def returnGroup (s : State) (items : List RunId) (admitted : Bool) (groups : List (List RunId)) :
    Machine :=
  let s := s.unreserve items
  let canceled := items.filter s.isFollowupRunAborted
  if !admitted && canceled ≠ [] then
    let s := s.removeQueuedItemsByRef canceled
    let survivors := items.filter fun item => item ∉ canceled
    if s.owned then
      if survivors = [] then { state := s, drain := .collecting groups }
      else { state := s.restoreGroupItems survivors, drain := .looping }
    else { state := s, drain := .collecting groups }
  else { state := s.removeQueuedItemsByRef items, drain := .collecting groups }

def throwGroup (s : State) (items : List RunId) (admitted : Bool) : Machine :=
  let s :=
    if admitted then s.removeQueuedItemsByRef items
    else if s.owned then s.restoreGroupItems items
    else s
  fail (s.unreserve items)

def step (norm : Normalizers) (m : Machine) : Label → Option Machine
  | .enqueue run execution options =>
      if m.state.registered && (match execution with
          | .new _ => true
          | .shared id => decide (id < m.state.nextExecution)) then
        let (id, s) := m.state.receive run execution
        some (m.withState (s.enqueueFollowupRun norm id options).2)
      else none
  | .settleSteer item accepted =>
      if m.state.registered then
        some (m.withState (m.state.settleParkedSteerAcceptance norm item accepted))
      else none
  | .consumeSteer item =>
      if m.state.registered then
        let s := m.state.consumeParkedFollowupRun norm item
        let forgotten := m.drain = .idle && s.items = [] && s.inFlight = ∅ && s.droppedCount = 0 &&
          item ∈ m.state.items
        some (m.withState { s with registered := s.registered && !forgotten })
      else none
  | .refresh refresh =>
      if m.state.registered then
        some (m.withState (m.state.refreshQueuedFollowupSession refresh))
      else none
  | .abort source =>
      some (m.withState { m.state with
        abortedSignals := .source source :: m.state.abortedSignals })
  | .clear =>
      if m.state.registered then some (m.withState m.state.clearFollowupQueue) else none
  | .startDrain =>
      if m.state.registered && m.drain = .idle then some { m with drain := .looping } else none
  | .stopDrain =>
      if m.drain = .looping && (m.state.steerPending ||
            (m.state.items = [] && m.state.droppedCount = 0)) ||
          m.drain = .skipping && m.state.items = [] then
        some (finishDrain m.state)
      else none
  | .finishDrain => if m.drain = .failed then some (finishDrain m.state) else none
  | .deliverAborted item =>
      if m.drain = .looping && item ∈ m.state.items && m.state.isFollowupRunAborted item then
        some (m.startSingle .aborted item)
      else none
  | .deliverPriority =>
      match m.drain, m.state.steerPending, m.state.priority? with
      | .looping, false, some item => some (m.startSingle .priority item)
      | _, _, _ => none
  | .deliverNext =>
      let overflowFirst := m.drain = .looping && 0 < m.state.droppedCount && !m.state.hasAnchor
      if (m.drain = .looping || m.drain = .skipping) && m.state.canDrainItems &&
          !overflowFirst then
        match m.state.items with
        | item :: _ => some (m.startSingle .next item)
        | [] => none
      else none
  | .singleReturns =>
      match m.drain with
      | .single _ item => some {
          state := (m.state.removeQueuedItemsByRef [item]).unreserve [item]
          drain := .looping }
      | _ => none
  | .singleThrows =>
      match m.drain with
      | .single kind item => some (throwSingle m.state kind item)
      | _ => none
  | .summarizeOverflow =>
      if m.drain = .looping && m.state.canDrainItems && 0 < m.state.droppedCount &&
          !m.state.hasAnchor then
        some (ofOutcome (m.state.drainOverflowSummaryGroup norm))
      else none
  | .adopt =>
      match m.drain with
      | .summary delivery false =>
          if m.state.needsAdmission delivery.protectedSources then some {
            state := m.state.admitDelivery delivery
            drain := .summary delivery true }
          else none
      | _ => none
  | .summaryReturns =>
      match m.drain with
      | .summary delivery admitted =>
          let (delivered, s) := m.state.returnDelivery delivery admitted
          some (summaryReturned delivery delivered s)
      | _ => none
  | .summaryThrows deferred =>
      match m.drain with
      | .summary delivery admitted =>
          some (fail (m.state.failDelivery delivery admitted deferred))
      | _ => none
  | .settle =>
      match m.drain with
      | .settling entry elidedSources => some {
          state := m.state.settleElided entry elidedSources.length
          drain := .looping }
      | _ => none
  | .collect =>
      let overflowFirst := m.drain = .looping && 0 < m.state.droppedCount
      if (m.drain = .looping || m.drain = .skipping) && m.state.canDrainItems &&
          !overflowFirst && m.state.mode = .collect && m.state.items ≠ [] then
        some { m with
          drain := .collecting (m.state.splitCollectItemsByDeliveryContext norm m.state.items) }
      else none
  | .nextGroup =>
      match m.drain with
      | .collecting (group :: groups) => some (startGroup norm m.state group groups)
      | .collecting [] => some { m with drain := .looping }
      | _ => none
  | .adoptGroup =>
      match m.drain with
      | .group items false groups =>
          if m.state.needsAdmission items then some {
            state := m.state.removeQueuedItemsByRef items
            drain := .group items true groups }
          else none
      | _ => none
  | .groupReturns =>
      match m.drain with
      | .group items admitted groups => some (returnGroup m.state items admitted groups)
      | _ => none
  | .groupThrows =>
      match m.drain with
      | .group items admitted _ => some (throwGroup m.state items admitted)
      | _ => none

end Machine
end Followup
