import OpenClaw.CommandQueue.State

/-!
The queue operations as a machine with an explicit control stack. A stack frame is
the continuation of a running operation; a `callback` frame hands control to user
code, which may start further operations before it returns. Completions are
microtasks and only run on an empty stack.
-/

namespace CommandQueue

inductive CallbackKind where
  | onWait (waitedMs : Int) (queuedAhead : Nat)
  | onQueued
  deriving DecidableEq

inductive Frame where
  /-- The admission loop of `drainLane`; `maxStarts = none` is the infinite bound. -/
  | drainLane (state : LaneId) (lane : String) (maxStarts : Option Nat) (started : Nat)
  /-- The arbitration loop of `drainCommandLaneGroup`. -/
  | drainGroup (group : String) (identity : GroupIdentity)
  /-- The commit pass of a publication, or the pass over the lanes of a full reset. -/
  | drainLanes (lanes : List String) (guarded : Bool)
  | callback (kind : CallbackKind)
  /-- The end of an enqueue: `onQueued` is reported if the entry is still queued. -/
  | enqueued (entry : EntryId) (hasOnQueued : Bool)
  /-- The end of a completion: the entry's promise is settled. -/
  | settle (entry : EntryId) (succeeded : Bool)
  deriving DecidableEq

structure EnqueueOptions where
  aborted : Bool := false
  admissionClosed : Bool := false
  priority : QueuePriority := .normal
  warnAfterMs : JsNumber := .real 2000
  hasOnWait : Bool := false
  hasOnQueued : Bool := false

structure LaneConfiguration where
  lanes : List (String × JsNumber) := []
  groups : List (String × CommandLaneGroupSpec) := []
  clearGroups : List String := []

inductive Operation where
  | enqueueCommandInLane (lane : String) (opts : EnqueueOptions)
  /-- The promise of a started task settles: completion, failure or timeout. -/
  | complete (task : TaskRun) (succeeded : Bool)
  /-- The abort signal of an accepted entry fires. -/
  | abort (entry : EntryId)
  | clearCommandLane (lane : String)
  | resetCommandLane (lane : String)
  | resetAllLanes
  | setCommandLaneConcurrency (lane : String) (maxConcurrent : JsNumber)
  | publishLaneConfiguration (config : LaneConfiguration)

structure Machine where
  queue : QueueState := {}
  stack : List Frame := []

namespace QueueState

/-- `completeTask`: the slot is released unless the lane has been reset since. -/
def completeTask (q : QueueState) (task : TaskRun) : Bool × QueueState :=
  let q := { q with running := q.running.filter (· ≠ task) }
  if task.generation ≠ (q.states task.state).generation then (false, q)
  else (true, (q.updateState task.state fun state =>
    { state with activeTaskIds := state.activeTaskIds.filter (· ≠ task.taskId) }).record
      (.released task.taskId))

/-- Allocate an entry and append it to the queue of a lane state. -/
def pushEntry (q : QueueState) (id : LaneId) (now : Int) (opts : EnqueueOptions) :
    EntryId × QueueState :=
  let entry := q.nextEntryId
  let queuedAhead := (q.states id).queue.queuedAhead opts.priority
  let q := { q with
    nextEntryId := entry + 1
    nextQueueSequence := q.nextQueueSequence + 1
    entries := Function.update q.entries entry {
      queued := true
      state := id
      priority := opts.priority
      sequence := q.nextQueueSequence
      enqueuedAt := now
      warnAfterMs := opts.warnAfterMs
      queuedAheadAtEnqueue := queuedAhead
      hasOnWait := opts.hasOnWait } }
  (entry, (q.updateState id fun state =>
    { state with queue := state.queue.enqueueLaneQueue entry opts.priority }).record
      (.accepted entry))

/-- `removeLaneQueueEntry` on a queued entry, followed by its rejection. -/
def unlinkEntry (q : QueueState) (entry : EntryId) : QueueState :=
  let info := q.entries entry
  ((q.updateState info.state fun state =>
    { state with queue := state.queue.removeLaneQueueEntry entry info.priority }).updateEntry
      entry fun e => { e with queued := false }).record (.rejected entry .aborted)

/-- The abort listener of an entry: a queued entry is unlinked and rejected. -/
def abortEntry (q : QueueState) (entry : EntryId) : QueueState :=
  if (q.entries entry).queued then
    (q.unlinkEntry entry).retireIdleScopedCommandLane (q.entries entry).state
  else q

/-- Take the head entry off the queue of a lane state. -/
def takeEntry (q : QueueState) (id : LaneId) (entry : EntryId) (rest : LaneQueue) : QueueState :=
  (q.updateState id fun state => { state with queue := rest }).updateEntry entry
    fun e => { e with queued := false }

/-- The rejection loop of `clearCommandLane`, bounded by the queue's length. -/
def clearQueue (id : LaneId) : Nat → QueueState → QueueState
  | 0, q => q
  | n + 1, q =>
      match (q.states id).queue.dequeueLaneQueue with
      | some (entry, rest) =>
          clearQueue id n ((q.takeEntry id entry rest).record (.rejected entry .cleared))
      | none => q

def clearCommandLane (q : QueueState) (lane : String) : QueueState :=
  match q.lookupLane (normalizeLane lane) with
  | some id => clearQueue id (q.states id).queue.length q
  | none => q

/-- Bump the generation of a lane state and forget its active tasks. -/
def resetState (q : QueueState) (id : LaneId) : QueueState :=
  (q.updateState id fun state =>
    { state with generation := state.generation + 1, activeTaskIds := [], draining := false }).record
      (.laneReset id)

def resetStates (q : QueueState) : QueueState :=
  (q.lanes.map (·.2)).foldl resetState q

/-- The lanes a full reset has to pump. -/
def lanesToDrain (q : QueueState) : List String :=
  (q.lanes.filter fun lane => 0 < (q.states lane.2).queue.length).map (·.1)

def setMaxConcurrent (q : QueueState) (lane : String) (maxConcurrent : JsNumber) : QueueState :=
  let (id, q) := q.getLaneState lane
  let minConcurrent := if isQuietProbeLane lane then 1 else 0
  q.updateState id fun state => { state with maxConcurrent := maxConcurrent.floorAtLeast minConcurrent }

/-- Admit the head entry of a lane state: the slot is committed before any
callback runs. -/
def commitAdmission (q : QueueState) (id : LaneId) (lane : String) (entry : EntryId) (rest : LaneQueue) :
    QueueState :=
  let taskId := q.nextTaskId
  let generation := (q.states id).generation
  let q := q.takeEntry id entry rest
  let q := q.updateState id fun state =>
    { state with activeTaskIds := state.activeTaskIds ++ [taskId] }
  { q with
    nextTaskId := taskId + 1
    running := q.running ++ [⟨taskId, entry, lane, id, generation⟩]
    history := q.history ++ [.started entry id ⟨lane, taskId, generation⟩] }

/-- The loop condition of `drainLane`. -/
def canStart (q : QueueState) (id : LaneId) (lane : String) (maxStarts : Option Nat) (started : Nat) :
    Bool :=
  (maxStarts.all fun bound => started < bound) &&
    (q.states id).maxConcurrent.isAbove (q.states id).activeTaskIds.length &&
    0 < (q.states id).queue.length && q.canAdmitInGroup lane

def touch (touched : List String) (lane : String) : List String :=
  if lane ∈ touched then touched else touched ++ [lane]

/-- Phase one of a publication, lane widths. -/
def publishLane (acc : QueueState × List String) (entry : String × JsNumber) :
    QueueState × List String :=
  let lane := normalizeLane entry.1
  (acc.1.setMaxConcurrent lane entry.2, touch acc.2 lane)

/-- Phase one of a publication, removed groups. -/
def publishClear (acc : QueueState × List String) (group : String) : QueueState × List String :=
  match acc.1.groups group with
  | some existing => (acc.1.clearGroup group, existing.members.foldl touch acc.2)
  | none => acc

/-- Phase one of a publication, installed groups: the members of the replaced
group, the siblings a member leaves behind and the new members are all touched. -/
def publishGroup (acc : QueueState × List String) (next : LaneGroupState) :
    QueueState × List String :=
  let touched := (acc.1.groupMembers next.group).foldl touch acc.2
  let touched := next.members.foldl (fun touched member =>
    (acc.1.groupMembers ((acc.1.groupByLane member).getD "")).foldl touch touched) touched
  (acc.1.installCommandLaneGroup next, next.members.foldl touch touched)

/-- Phase one as a whole: the new state and the touched lanes. -/
def installConfiguration (q : QueueState) (config : LaneConfiguration)
    (validated : List LaneGroupState) : QueueState × List String :=
  validated.foldl publishGroup
    (config.clearGroups.foldl publishClear (config.lanes.foldl publishLane (q, [])))

end QueueState

namespace Machine

/-- Leave the arbitration loop. -/
def exitGroup (m : Machine) (identity : GroupIdentity) (rest : List Frame) : Machine :=
  { queue := { m.queue with drainingGroups := m.queue.drainingGroups.filter (· ≠ identity) }
    stack := rest }

/-- `drainLane` returns to its caller. Only the arbitration loop looks at the
number of starts. -/
def returnStarted (m : Machine) (started : Nat) : Machine :=
  match m.stack with
  | .drainGroup _ identity :: rest => if started = 0 then m.exitGroup identity rest else m
  | _ => m

/-- Call `drainLane` on a lane state. -/
def enterState (m : Machine) (id : LaneId) (lane : String) (maxStarts : Option Nat) : Machine :=
  if (m.queue.states id).draining then m.returnStarted 0
  else
    { queue := m.queue.updateState id fun state => { state with draining := true }
      stack := .drainLane id lane maxStarts 0 :: m.stack }

/-- Call `drainLane`; without a captured lane state the registered one is used. -/
def callDrainLane (m : Machine) (lane : String) (maxStarts : Option Nat)
    (captured : Option LaneId) : Machine :=
  match captured with
  | some id => m.enterState id lane maxStarts
  | none =>
      { m with queue := (m.queue.getLaneState lane).2 }.enterState (m.queue.getLaneState lane).1
        lane maxStarts

/-- `drainReadyCommandLane`. -/
def drainReady (m : Machine) (lane : String) (captured : Option LaneId) : Machine :=
  match m.queue.getLaneGroup lane with
  | some group =>
      if group.identity ∈ m.queue.drainingGroups then m
      else
        { queue := { m.queue with drainingGroups := m.queue.drainingGroups ++ [group.identity] }
          stack := .drainGroup group.group group.identity :: m.stack }
  | none => m.callDrainLane lane none captured

def push (m : Machine) (frame : Frame) : Machine := { m with stack := frame :: m.stack }

/-- The end of `drainLane`: the guard is released and an idle scoped lane retired. -/
def leaveDrain (m : Machine) (id : LaneId) (started : Nat) (rest : List Frame) : Machine :=
  { queue := (m.queue.updateState id fun state =>
      { state with draining := false }).retireIdleScopedCommandLane id
    stack := rest : Machine }.returnStarted started

/-- One iteration of the admission loop. -/
def runDrainLane (m : Machine) (now : Int) (id : LaneId) (lane : String) (maxStarts : Option Nat)
    (started : Nat) (rest : List Frame) : Machine :=
  if m.queue.canStart id lane maxStarts started then
    match (m.queue.states id).queue.dequeueLaneQueue with
    | some (entry, queue) =>
        let info := m.queue.entries entry
        let next : Machine :=
          { queue := m.queue.commitAdmission id lane entry queue
            stack := .drainLane id lane maxStarts (started + 1) :: rest }
        if info.warnAfterMs.leInt (now - info.enqueuedAt) && info.hasOnWait then
          next.push (.callback (.onWait (now - info.enqueuedAt) info.queuedAheadAtEnqueue))
        else next
    | none => m.leaveDrain id started rest
  else m.leaveDrain id started rest

/-- One iteration of the arbitration loop. -/
def runDrainGroup (m : Machine) (group : String) (identity : GroupIdentity) (rest : List Frame) :
    Machine :=
  match m.queue.groups group with
  | some current =>
      if current.identity = identity then
        match m.queue.resolveNextGroupLane current with
        | some lane => m.callDrainLane lane (some 1) none
        | none => m.exitGroup identity rest
      else m.exitGroup identity rest
  | none => m.exitGroup identity rest

/-- Whether the commit pass of a publication drains a touched lane. -/
def wantsCommitDrain (q : QueueState) (lane : String) : Bool :=
  match q.lookupLane lane with
  | some id => (q.states id).maxConcurrent.isAbove 0 && 0 < (q.states id).queue.length &&
      !(q.states id).draining
  | none => false

def runDrainLanes (m : Machine) (lanes : List String) (guarded : Bool) (rest : List Frame) :
    Machine :=
  match lanes with
  | [] => { m with stack := rest }
  | lane :: others =>
      let m := { m with stack := .drainLanes others guarded :: rest }
      if guarded && !wantsCommitDrain m.queue lane then m else m.drainReady lane none

/-- Phase zero of a publication: every spec is validated before anything changes. -/
def validateGroups (identity : GroupIdentity) :
    List (String × CommandLaneGroupSpec) → EStateM LaneGroupError Machine (List LaneGroupState)
  | [] => pure []
  | (group, spec) :: rest => do
      let next ← MonadExcept.ofExcept (validateCommandLaneGroupSpec identity group spec)
      let others ← validateGroups (identity + 1) rest
      pure (next :: others)

/-- Phase one of a publication, and the call of its commit pass. -/
def commitConfiguration (m : Machine) (config : LaneConfiguration)
    (validated : List LaneGroupState) : Machine :=
  let (q, touched) := m.queue.installConfiguration config validated
  { queue := { q with nextGroupIdentity := q.nextGroupIdentity + validated.length }
    stack := .drainLanes touched true :: m.stack }

def publishLaneConfiguration (config : LaneConfiguration) : EStateM LaneGroupError Machine Unit := do
  let m ← get
  let validated ← validateGroups m.queue.nextGroupIdentity config.groups
  modify fun m => m.commitConfiguration config validated

/-- Start an operation: its synchronous part up to the first drain. -/
def begin (m : Machine) (now : Int) : Operation → Machine
  | .enqueueCommandInLane lane opts =>
      if opts.aborted || opts.admissionClosed then m
      else
        let cleaned := normalizeLane lane
        let (id, q) := m.queue.getLaneState cleaned
        let (entry, q) := q.pushEntry id now opts
        { queue := q, stack := .enqueued entry opts.hasOnQueued :: m.stack : Machine }.drainReady
          cleaned none
  | .complete task succeeded =>
      let (current, q) := m.queue.completeTask task
      let m : Machine := { queue := q, stack := .settle task.entry succeeded :: m.stack }
      if current then m.drainReady task.lane (some task.state) else m
  | .abort entry => { m with queue := m.queue.abortEntry entry }
  | .clearCommandLane lane => { m with queue := m.queue.clearCommandLane lane }
  | .resetCommandLane lane =>
      let cleaned := normalizeLane lane
      match m.queue.lookupLane cleaned with
      | some id => { m with queue := m.queue.resetState id }.drainReady cleaned none
      | none => m
  | .resetAllLanes =>
      let lanes := m.queue.lanesToDrain
      { queue := m.queue.resetStates, stack := .drainLanes lanes false :: m.stack }
  | .setCommandLaneConcurrency lane maxConcurrent =>
      let cleaned := normalizeLane lane
      let m := { m with queue := m.queue.setMaxConcurrent cleaned maxConcurrent }
      if (m.queue.states (m.queue.getLaneState cleaned).1).maxConcurrent.isAbove 0 then
        m.drainReady cleaned none
      else m
  | .publishLaneConfiguration config =>
      -- The caller of the publication sees its error; the queue sees only the state.
      match (publishLaneConfiguration config).run m with
      | .ok _ m => m
      | .error _ m => m

/-- Operations of the environment: anything synchronous at the top level or from
a callback, completions only at the top level and only once per started task. -/
def admits (m : Machine) : Operation → Bool
  | .complete task _ => m.stack.isEmpty && task ∈ m.queue.running
  | .abort entry => (entry < m.queue.nextEntryId) && (m.stack.isEmpty || m.stack.head?.any isCallback)
  | _ => m.stack.isEmpty || m.stack.head?.any isCallback
where
  isCallback : Frame → Bool
    | .callback _ => true
    | _ => false

inductive Label where
  | call (now : Int) (operation : Operation)
  /-- The running callback returns. -/
  | ret
  /-- The machine runs one iteration of the topmost frame. -/
  | run (now : Int)

def step (m : Machine) : Label → Option Machine
  | .call now operation => if m.admits operation then some (m.begin now operation) else none
  | .ret =>
      match m.stack with
      | .callback _ :: rest => some { m with stack := rest }
      | _ => none
  | .run now =>
      match m.stack with
      | .drainLane id lane maxStarts started :: rest =>
          some (m.runDrainLane now id lane maxStarts started rest)
      | .drainGroup group identity :: rest => some (m.runDrainGroup group identity rest)
      | .drainLanes lanes guarded :: rest => some (m.runDrainLanes lanes guarded rest)
      | .enqueued entry hasOnQueued :: rest =>
          if (m.queue.entries entry).queued && hasOnQueued then
            some { m with stack := .callback .onQueued :: rest }
          else some { m with stack := rest }
      | .settle entry succeeded :: rest =>
          some { queue := m.queue.record (.settled entry succeeded), stack := rest }
      | .callback _ :: _ => none
      | [] => none

end Machine
end CommandQueue
