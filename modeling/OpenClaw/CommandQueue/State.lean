import Mathlib.Logic.Function.Basic
import OpenClaw.Lib.JsNumber
import OpenClaw.Lib.JsText
import Mathlib.Data.List.Dedup

/-!
Runtime state of the command queue: lanes, queue entries, capacity groups and the
asynchronous tasks still running. Lane states and entries are heap objects with
an identity, because listeners and completions keep referring to the object they
captured after the registry has dropped it. `history` records what happened and
is read by no operation.
-/

namespace CommandQueue

abbrev LaneId := Nat
abbrev EntryId := Nat
abbrev TaskId := Nat
abbrev GroupIdentity := Nat

structure CommandLaneTaskMarker where
  lane : String
  taskId : TaskId
  generation : Nat
  deriving DecidableEq

inductive QueuePriority where
  | background
  | normal
  | foreground
  deriving DecidableEq

/-- The numeric priorities `-1`, `0` and `1`. -/
def QueuePriority.value : QueuePriority → Int
  | background => -1
  | normal => 0
  | foreground => 1

/-- `state` is the lane state captured by the entry's abort listener. -/
structure QueueEntry where
  queued : Bool := false
  state : LaneId := 0
  priority : QueuePriority := .normal
  sequence : Nat := 0
  enqueuedAt : Int := 0
  warnAfterMs : JsNumber := .real 2000
  queuedAheadAtEnqueue : Nat := 0
  hasOnWait : Bool := false
  deriving DecidableEq

/-- Three fixed FIFO rings, one for each supported priority. -/
structure LaneQueue where
  background : List EntryId := []
  normal : List EntryId := []
  foreground : List EntryId := []
  deriving DecidableEq

namespace LaneQueue

def length (queue : LaneQueue) : Nat :=
  queue.background.length + queue.normal.length + queue.foreground.length

def getPriorityRing (queue : LaneQueue) : QueuePriority → List EntryId
  | .foreground => queue.foreground
  | .background => queue.background
  | .normal => queue.normal

def setPriorityRing (queue : LaneQueue) (ring : List EntryId) : QueuePriority → LaneQueue
  | .foreground => { queue with foreground := ring }
  | .background => { queue with background := ring }
  | .normal => { queue with normal := ring }

/-- The queued work ahead of a new entry of the given priority. -/
def queuedAhead (queue : LaneQueue) (priority : QueuePriority) : Nat :=
  (queue.getPriorityRing priority).length +
    (if priority.value ≤ 0 then queue.foreground.length else 0) +
    (if priority.value < 0 then queue.normal.length else 0)

def enqueueLaneQueue (queue : LaneQueue) (entry : EntryId) (priority : QueuePriority) : LaneQueue :=
  queue.setPriorityRing (queue.getPriorityRing priority ++ [entry]) priority

def peekLaneQueue (queue : LaneQueue) : Option EntryId :=
  (queue.foreground.head?.or queue.normal.head?).or queue.background.head?

def dequeueLaneQueue (queue : LaneQueue) : Option (EntryId × LaneQueue) :=
  match queue.foreground, queue.normal, queue.background with
  | entry :: rest, _, _ => some (entry, { queue with foreground := rest })
  | [], entry :: rest, _ => some (entry, { queue with normal := rest })
  | [], [], entry :: rest => some (entry, { queue with background := rest })
  | [], [], [] => none

def removeLaneQueueEntry (queue : LaneQueue) (entry : EntryId) (priority : QueuePriority) :
    LaneQueue :=
  queue.setPriorityRing ((queue.getPriorityRing priority).filter (· ≠ entry)) priority

end LaneQueue

structure LaneState where
  lane : String := ""
  queue : LaneQueue := {}
  activeTaskIds : List TaskId := []
  maxConcurrent : Count := .fin 1
  draining : Bool := false
  generation : Nat := 0
  deriving DecidableEq

/-- A capacity group. `identity` stands for the object's identity; membership is
a set. -/
structure LaneGroupState where
  identity : GroupIdentity
  group : String
  budget : Count
  members : List String
  reservations : String → Option Count
  nodup : members.Nodup

/-- A started task whose asynchronous continuation has not run yet. -/
structure TaskRun where
  taskId : TaskId
  entry : EntryId
  lane : String
  state : LaneId
  generation : Nat
  deriving DecidableEq

inductive RejectCause where
  | aborted
  | cleared
  deriving DecidableEq

inductive QueueEvent where
  | accepted (entry : EntryId)
  | started (entry : EntryId) (state : LaneId) (marker : CommandLaneTaskMarker)
  | rejected (entry : EntryId) (cause : RejectCause)
  | released (taskId : TaskId)
  | laneReset (state : LaneId)
  | settled (entry : EntryId) (succeeded : Bool)
  deriving DecidableEq

structure QueueState where
  lanes : List (String × LaneId) := []
  states : LaneId → LaneState := fun _ => {}
  entries : EntryId → QueueEntry := fun _ => {}
  groups : String → Option LaneGroupState := fun _ => none
  groupByLane : String → Option String := fun _ => none
  drainingGroups : List GroupIdentity := []
  running : List TaskRun := []
  nextLaneId : Nat := 0
  nextEntryId : Nat := 0
  nextTaskId : Nat := 1
  nextQueueSequence : Nat := 1
  nextGroupIdentity : Nat := 0
  history : List QueueEvent := []

def mainLane : String := "main"

def normalizeLane (lane : String) : String :=
  if JsText.trim lane = "" then mainLane else JsText.trim lane

def isQuietProbeLane (lane : String) : Bool :=
  JsText.startsWith lane "auth-probe:" || JsText.startsWith lane "session:probe-" ||
    JsText.startsWith lane "session:temp:setup-inference:probe-setup-inference-"

/-- Prefixes of the per-session lanes that are retired when idle. -/
def scopedPrefixes : List String := ["session:", "nested:", "context-engine-turn-maintenance:"]

def isScopedLane (lane : String) : Bool := scopedPrefixes.any (JsText.startsWith lane)

namespace QueueState

def lookupLane (q : QueueState) (lane : String) : Option LaneId := q.lanes.lookup lane

def updateState (q : QueueState) (id : LaneId) (f : LaneState → LaneState) : QueueState :=
  { q with states := Function.update q.states id (f (q.states id)) }

def updateEntry (q : QueueState) (id : EntryId) (f : QueueEntry → QueueEntry) : QueueState :=
  { q with entries := Function.update q.entries id (f (q.entries id)) }

def record (q : QueueState) (event : QueueEvent) : QueueState :=
  { q with history := q.history ++ [event] }

/-- Register a fresh lane state under a name that has none. -/
def createLane (q : QueueState) (lane : String) : QueueState :=
  { q with
    lanes := q.lanes ++ [(lane, q.nextLaneId)]
    states := Function.update q.states q.nextLaneId { lane := lane }
    nextLaneId := q.nextLaneId + 1 }

def getLaneState (q : QueueState) (lane : String) : LaneId × QueueState :=
  match q.lookupLane lane with
  | some id => (id, q)
  | none => (q.nextLaneId, q.createLane lane)

/-- Drop an idle scoped lane, unless the registry already holds another state
under its name. -/
def retireIdleScopedCommandLane (q : QueueState) (id : LaneId) : QueueState :=
  let state := q.states id
  if state.draining || 0 < state.activeTaskIds.length || 0 < state.queue.length ||
      state.maxConcurrent ≠ .fin 1 || !isScopedLane state.lane then q
  else if q.lookupLane state.lane = some id then
    { q with lanes := q.lanes.filter (·.1 ≠ state.lane) }
  else q

/-- The registry's view of how many tasks of a lane are active, without creating
the lane. -/
def getMemberActiveCount (q : QueueState) (lane : String) : Nat :=
  match q.lookupLane lane with
  | some id => (q.states id).activeTaskIds.length
  | none => 0

def isCommandLaneTaskMarkerCurrent (q : QueueState) (marker : CommandLaneTaskMarker) : Bool :=
  match q.lookupLane (normalizeLane marker.lane) with
  | some id => (q.states id).generation == marker.generation &&
      (q.states id).activeTaskIds.contains marker.taskId
  | none => false

end QueueState
end CommandQueue

/-!
Capacity groups: a shared, hard aggregate budget across several lanes with
reservations for single members. Capacity is derived from the members' active
task ids each time it is needed. The registry stores membership twice, by group
and by lane.
-/

namespace CommandQueue

inductive CommandLaneBlockReason where
  | lane
  | groupBudget
  | siblingReservation
  deriving DecidableEq

structure CommandLaneGroupSpec where
  budget : JsNumber
  members : List String
  reservations : List (String × JsNumber) := []

inductive LaneGroupError where
  | ineligibleLane (lane : String)
  | ineligiblePrefix (lane pre : String)
  | nonMember (group lane : String)
  | overReserved (group : String) (reserved budget : Count)
  deriving DecidableEq

def LaneGroupError.message : LaneGroupError → String
  | ineligibleLane lane => "command lane \"" ++ lane ++ "\" cannot join a capacity group: " ++
      "it can be synchronously awaited by another lane"
  | ineligiblePrefix lane pre => "command lane \"" ++ lane ++ "\" cannot join a capacity group: \"" ++
      pre ++ "*\" lanes can be synchronously awaited"
  | nonMember group lane => "command lane group \"" ++ group ++
      "\" reserves for non-member lane \"" ++ lane ++ "\""
  | overReserved group reserved budget => "command lane group \"" ++ group ++ "\" reserves " ++
      reserved.text ++ " slots but its budget is " ++ budget.text

def groupIneligibleLanes : List String := ["cron", "main", "subagent", "nested"]

def groupIneligiblePrefixes : List String :=
  ["session:", "nested:", "context-engine-turn-maintenance:"]

def assertGroupEligibleLane (lane : String) : Except LaneGroupError Unit :=
  if lane ∈ groupIneligibleLanes then .error (.ineligibleLane lane)
  else match groupIneligiblePrefixes.find? (JsText.startsWith lane) with
    | some pre => .error (.ineligiblePrefix lane pre)
    | none => .ok ()

/-- One iteration of the reservation loop: the map keeps the last value written
for a member, the total counts every entry. -/
def reserveMember (group : String) (members : List String)
    (acc : (String → Option Count) × Count) (entry : String × JsNumber) :
    Except LaneGroupError ((String → Option Count) × Count) :=
  let member := normalizeLane entry.1
  if member ∈ members then
    let reserved := entry.2.floorAtLeast 0
    .ok (Function.update acc.1 member (some reserved), acc.2 + reserved)
  else .error (.nonMember group member)

def validateCommandLaneGroupSpec (identity : GroupIdentity) (group : String)
    (spec : CommandLaneGroupSpec) : Except LaneGroupError LaneGroupState := do
  let members := spec.members.map normalizeLane
  members.forM assertGroupEligibleLane
  let (reservations, reservedTotal) ←
    spec.reservations.foldlM (reserveMember group members) (fun _ => none, .fin 0)
  let budget := spec.budget.floorAtLeast 0
  if budget.lt reservedTotal then throw (.overReserved group reservedTotal budget)
  return {
    identity, group, budget, reservations
    members := members.dedup
    nodup := members.nodup_dedup }

namespace LaneGroupState

def reservation (group : LaneGroupState) (lane : String) : Count :=
  (group.reservations lane).getD (.fin 0)

/-- `members.delete(lane)`. -/
def deleteMember (group : LaneGroupState) (lane : String) : LaneGroupState :=
  { group with
    members := group.members.filter (· ≠ lane)
    nodup := group.nodup.filter _ }

end LaneGroupState

structure GroupCapacity where
  active : Nat
  reserved : Count

structure GroupCandidate where
  lane : String
  priority : Int
  sequence : Nat

namespace QueueState

/-- The empty group id is falsy, so a lane recorded under it has no group here. -/
def getLaneGroup (q : QueueState) (lane : String) : Option LaneGroupState :=
  match q.groupByLane lane with
  | some groupId => if groupId = "" then none else q.groups groupId
  | none => none

def readGroupCapacity (q : QueueState) (group : LaneGroupState) : GroupCapacity :=
  group.members.foldl (fun capacity member =>
    let memberActive := q.getMemberActiveCount member
    { active := capacity.active + memberActive
      reserved := capacity.reserved + (group.reservation member).shortfall memberActive })
    ⟨0, .fin 0⟩

def resolveGroupBlockReason (q : QueueState) (group : LaneGroupState) (lane : String)
    (capacity : GroupCapacity) : Option CommandLaneBlockReason :=
  if group.budget.isReachedBy capacity.active then some .groupBudget
  else if (group.reservation lane).isAbove (q.getMemberActiveCount lane) then none
  -- The lane's own reservation is filled, so every unused one is a sibling's.
  else if (Count.fin capacity.active + capacity.reserved).lt group.budget then none
  else some .siblingReservation

/-- The `blockedBy` field of a lane snapshot. -/
def blockedBy (q : QueueState) (lane : String) : Option CommandLaneBlockReason :=
  let state := ((q.lookupLane lane).map q.states).getD { lane := lane }
  if state.maxConcurrent.isReachedBy state.activeTaskIds.length then some .lane
  else match q.getLaneGroup state.lane with
    | some group => q.resolveGroupBlockReason group state.lane (q.readGroupCapacity group)
    | none => none

def canAdmitInGroup (q : QueueState) (lane : String) : Bool :=
  match q.getLaneGroup lane with
  | some group => q.resolveGroupBlockReason group lane (q.readGroupCapacity group) = none
  | none => true

/-- Install a validated group, detaching its members from any previous owner.
The truthiness test on the owner skips the group whose id is empty. -/
def detachMember (next : LaneGroupState) (groupByLane : String → Option String)
    (groups : String → Option LaneGroupState) (member : String) :
    String → Option LaneGroupState :=
  match groupByLane member with
  | some owner =>
      if owner ≠ "" ∧ owner ≠ next.group then
        Function.update groups owner ((groups owner).map (·.deleteMember member))
      else groups
  | none => groups

/-- `groupByLane.delete(member)` for every member. -/
def forgetMembers (members : List String) (groupByLane : String → Option String) :
    String → Option String :=
  fun lane => if lane ∈ members then none else groupByLane lane

def groupMembers (q : QueueState) (group : String) : List String :=
  ((q.groups group).map (·.members)).getD []

def installCommandLaneGroup (q : QueueState) (next : LaneGroupState) : QueueState :=
  let groupByLane := forgetMembers (q.groupMembers next.group) q.groupByLane
  { q with
    groups := Function.update (next.members.foldl (detachMember next groupByLane) q.groups)
      next.group (some next)
    groupByLane := fun lane => if lane ∈ next.members then some next.group else groupByLane lane }

/-- Remove a group and the membership of its lanes. -/
def clearGroup (q : QueueState) (group : String) : QueueState :=
  { q with
    groups := Function.update q.groups group none
    groupByLane := forgetMembers (q.groupMembers group) q.groupByLane }

def supersedes (candidate : GroupCandidate) : Option GroupCandidate → Bool
  | none => true
  | some selected => selected.priority < candidate.priority ||
      (candidate.priority == selected.priority &&
        (candidate.sequence < selected.sequence ||
          (candidate.sequence == selected.sequence && JsText.lt candidate.lane selected.lane)))

/-- One member of the selection loop. -/
def considerMember (q : QueueState) (group : LaneGroupState) (selected : Option GroupCandidate)
    (lane : String) : Option GroupCandidate :=
  match q.lookupLane lane with
  | none => selected
  | some id =>
      match (q.states id).queue.peekLaneQueue with
      | none => selected
      | some head =>
          if (q.states id).draining ||
              (q.states id).maxConcurrent.isReachedBy (q.states id).activeTaskIds.length then
            selected
          else if (q.resolveGroupBlockReason group lane (q.readGroupCapacity group)).isSome then
            selected
          else
            let candidate := ⟨lane, (q.entries head).priority.value, (q.entries head).sequence⟩
            if supersedes candidate selected then some candidate else selected

/-- The highest-priority, oldest currently admissible member head. -/
def resolveNextGroupLane (q : QueueState) (group : LaneGroupState) : Option String :=
  (group.members.foldl (q.considerMember group) none).map (·.lane)

end QueueState
end CommandQueue
