import Mathlib
import OpenClaw.Lib.Transition

/-!
A queue that runs one task at a time, with the microtasks its promises schedule. Between two
microtasks, and while a task executes, the program may call the queue; a task throws while it
executes, or returns and is awaited. What a flush requires of its tasks is read from a flag
of the whole queue.
-/

namespace OpenClaw.SerialQueue

variable {ε α : Type}

structure Options where
  maxPendingCount : Nat
  maxPendingWeight : ℚ
  nonneg : 0 ≤ maxPendingWeight

/-- A task is known by its place among the accepted ones. -/
structure Task where
  id : Nat
  weight : Nat
  deriving DecidableEq, Repr

inductive Phase
  | executing
  | awaiting
  | continuing
  deriving DecidableEq, Repr

/-- How much a task that has started has still to do. -/
def Phase.left : Phase → Nat
  | .executing => 4
  | .awaiting => 3
  | .continuing => 2

structure Running where
  id : Nat
  phase : Phase
  deriving DecidableEq, Repr

inductive Job (ε α : Type)
  | startTask (task : Task)
  /-- `runTask` goes on behind its `await`. -/
  | continueTask (id : Nat) (outcome : Except ε α)
  /-- The handlers of a completion, whose promise is a settled prefix. -/
  | settlePrefix (id : Nat)
  /-- The handler of a flush that requires success. -/
  | checkFailed (flush : Nat)

def Job.isTask : Job ε α → Bool
  | startTask _ | continueTask .. => true
  | settlePrefix _ | checkFailed _ => false

/-- A call of `flush`: the prefix it was given, and how many tasks had been accepted. -/
structure Flush (ε : Type) where
  requireSuccess : Bool
  awaited : Option Nat
  accepted : Nat
  outcome : Option (Except (Option ε) Unit)

structure Queue (ε α : Type) where
  pending : List Task
  pendingWeight : Nat
  active : Bool
  isSealed : Bool
  overflowed : Bool
  failed : Bool
  firstFailure : Option ε
  /-- The prefix of the last accepted task; none is a promise that was resolved at once. -/
  settledPrefix : Option Nat
  microtasks : List (Job ε α)
  running : List Running
  /-- Settled prefixes whose promises are fulfilled, and the flushes that wait for others. -/
  fulfilled : List Nat
  waiting : List (Nat × Nat)
  accepted : Nat
  started : List Nat
  /-- What the runs of the tasks have come to, and how their completions were settled. -/
  results : List (Nat × Except ε α)
  completions : List (Nat × Except ε α)
  flushes : List (Flush ε)

def Queue.create : Queue ε α where
  pending := []
  pendingWeight := 0
  active := false
  isSealed := false
  overflowed := false
  failed := false
  firstFailure := none
  settledPrefix := none
  microtasks := []
  running := []
  fulfilled := []
  waiting := []
  accepted := 0
  started := []
  results := []
  completions := []
  flushes := []

inductive Admission
  | accepted
  | capacity
  | overflow
  | sealed
  deriving DecidableEq, Repr

inductive Step (ε α : Type)
  | enqueue (weight : Nat) (sealOnOverflow : Bool)
  | sealAdmission
  | flush (requireSuccess : Bool)
  /-- The run of a task throws, or returns what is then awaited. -/
  | throws (id : Nat) (error : ε)
  | returns (id : Nat)
  /-- What is awaited has settled. -/
  | settles (id : Nat) (outcome : Except ε α)
  | microtask

/-- A step that the queue's client does not make. -/
def Step.isInternal : Step ε α → Bool
  | .enqueue .. | .sealAdmission | .flush _ => false
  | .throws .. | .returns _ | .settles .. | .microtask => true

namespace Queue

def startTask (queue : Queue ε α) (task : Task) : Queue ε α :=
  { queue with
    running := queue.running ++ [⟨task.id, .executing⟩]
    started := queue.started ++ [task.id] }

def enqueue (options : Options) (queue : Queue ε α) (weight : Nat) (sealOnOverflow : Bool) :
    Queue ε α × Admission :=
  if queue.isSealed then (queue, .sealed)
  else if queue.active ∧ (options.maxPendingCount ≤ queue.pending.length ∨
      options.maxPendingWeight < (queue.pendingWeight + weight : Nat)) then
    if sealOnOverflow then ({ queue with isSealed := true, overflowed := true }, .overflow)
    else (queue, .capacity)
  else
    let task : Task := { id := queue.accepted, weight }
    let admitted :=
      { queue with accepted := queue.accepted + 1, settledPrefix := some task.id }
    if queue.active then
      ({ admitted with
        pending := queue.pending ++ [task], pendingWeight := queue.pendingWeight + weight }, .accepted)
    else ({ admitted with active := true }.startTask task, .accepted)

/-- The promise of a settled prefix is fulfilled. -/
def isFulfilled (queue : Queue ε α) (awaited : Option Nat) : Bool :=
  awaited.all fun id => queue.fulfilled.contains id

def flush (queue : Queue ε α) (requireSuccess : Bool) : Queue ε α :=
  let call : Flush ε :=
    { requireSuccess, awaited := queue.settledPrefix, accepted := queue.accepted, outcome := none }
  let called := { queue with flushes := queue.flushes ++ [call] }
  if !requireSuccess then called
  else
    match queue.settledPrefix with
    | none => { called with microtasks := queue.microtasks ++ [.checkFailed queue.flushes.length] }
    | some id =>
        if queue.fulfilled.contains id then
          { called with microtasks := queue.microtasks ++ [.checkFailed queue.flushes.length] }
        else { called with waiting := queue.waiting ++ [(id, queue.flushes.length)] }

/-- `task.resolve` or the `catch` block, which notes the first failure. -/
def settle (queue : Queue ε α) (id : Nat) (outcome : Except ε α) : Queue ε α :=
  { queue with
    failed :=
      match outcome with
      | .ok _ => queue.failed
      | .error _ => true
    firstFailure :=
      match outcome with
      | .ok _ => queue.firstFailure
      | .error error => if queue.failed then queue.firstFailure else some error
    completions := queue.completions ++ [(id, outcome)]
    microtasks := queue.microtasks ++ [.settlePrefix id]
    running := queue.running.filter fun task => task.id ≠ id }

/-- The `finally` block. -/
def handOver (queue : Queue ε α) : Queue ε α :=
  match queue.pending with
  | next :: rest =>
      { queue with
        pending := rest
        pendingWeight := queue.pendingWeight - next.weight
        microtasks := queue.microtasks ++ [.startTask next] }
  | [] => { queue with active := false }

def perform (queue : Queue ε α) : Job ε α → Queue ε α
  | .startTask task => queue.startTask task
  | .continueTask id outcome => (queue.settle id outcome).handOver
  | .settlePrefix id =>
      { queue with
        fulfilled := queue.fulfilled ++ [id]
        microtasks := queue.microtasks ++
          (queue.waiting.filter fun wait => wait.1 = id).map fun wait => .checkFailed wait.2
        waiting := queue.waiting.filter fun wait => wait.1 ≠ id }
  | .checkFailed flush =>
      { queue with
        flushes := queue.flushes.modify flush fun call =>
          -- a promise is settled once
          { call with
            outcome := call.outcome.or
              (some (if queue.failed then .error queue.firstFailure else .ok ())) } }

/-- The task that fails in a step. -/
def failing (queue : Queue ε α) : Step ε α → Option Nat
  | .throws id _ => some id
  | .microtask =>
      match queue.microtasks with
      | .continueTask id (.error _) :: _ => some id
      | _ => none
  | _ => none

def setPhase (queue : Queue ε α) (id : Nat) (phase : Phase) : Queue ε α :=
  { queue with running := queue.running.map fun task => if task.id = id then ⟨id, phase⟩ else task }

end Queue

/-- Microtasks run in order, and only when no task executes. -/
def Queue.step (options : Options) (queue : Queue ε α) : Step ε α → Option (Queue ε α)
  | .enqueue weight sealOnOverflow => some (queue.enqueue options weight sealOnOverflow).1
  | .sealAdmission => some { queue with isSealed := true }
  | .flush requireSuccess => some (queue.flush requireSuccess)
  | .throws id error =>
      if ⟨id, .executing⟩ ∈ queue.running then
        let thrown := { queue with results := queue.results ++ [(id, Except.error error)] }
        some (thrown.settle id (.error error)).handOver
      else none
  | .returns id =>
      if ⟨id, .executing⟩ ∈ queue.running then some (queue.setPhase id .awaiting) else none
  | .settles id outcome =>
      if ⟨id, .awaiting⟩ ∈ queue.running then
        let continued := queue.setPhase id .continuing
        some { continued with
          results := queue.results ++ [(id, outcome)]
          microtasks := queue.microtasks ++ [.continueTask id outcome] }
      else none
  | .microtask =>
      if queue.running.any fun task => task.phase = .executing then none
      else
        match queue.microtasks with
        | [] => none
        | job :: rest => some ({ queue with microtasks := rest }.perform job)

namespace Queue

def hasSettled (queue : Queue ε α) (id : Nat) : Prop := ∃ outcome, (id, outcome) ∈ queue.completions

def hasFailed (queue : Queue ε α) (id : Nat) : Prop := ∃ error, (id, Except.error error) ∈ queue.completions

/-- What is left for the tasks and the promises to do, not counting what is not yet accepted. -/
def work (queue : Queue ε α) : Nat :=
  5 * (queue.accepted - queue.started.length) + (queue.running.map fun task => task.phase.left).sum +
    (queue.microtasks.countP fun job => !job.isTask) + queue.waiting.length

/-- What is expected of a queue in every state. -/
structure Contract (options : Options) (queue : Queue ε α) : Prop where
  startOrder : queue.started = List.range queue.started.length
  oneRuns : queue.running.length ≤ 1 ∧
    ∀ id, id ∈ queue.started ↔ queue.hasSettled id ∨ id ∈ queue.running.map Running.id
  ownResult : (∀ entry ∈ queue.completions, entry ∈ queue.results) ∧
    (queue.completions.map Prod.fst).Nodup ∧ (queue.results.map Prod.fst).Nodup
  bounds : queue.pending.length ≤ options.maxPendingCount ∧
    queue.pendingWeight = (queue.pending.map Task.weight).sum ∧
      queue.pendingWeight ≤ options.maxPendingWeight
  sealing : queue.overflowed = true → queue.isSealed = true
  /-- Nothing is left to do only when every accepted task has started and settled. -/
  progress : queue.microtasks = [] → (∀ task ∈ queue.running, task.phase ≠ .continuing) ∧
    (queue.running = [] → queue.started = List.range queue.accepted ∧
      ∀ id < queue.accepted, queue.hasSettled id)
  flushed : ∀ call ∈ queue.flushes,
    (queue.isFulfilled call.awaited = true → ∀ id < call.accepted, queue.hasSettled id) ∧
      (queue.microtasks = [] → (∀ id < call.accepted, queue.hasSettled id) →
        queue.isFulfilled call.awaited = true)
  required : ∀ call ∈ queue.flushes, call.requireSuccess = true →
    (∀ error, call.outcome = some (.error error) → ∃ id < call.accepted, queue.hasFailed id) ∧
      (call.outcome = some (.ok ()) → ∀ id < call.accepted, queue.hasSettled id ∧ ¬queue.hasFailed id) ∧
        (queue.microtasks = [] → (∀ id < call.accepted, queue.hasSettled id) →
          call.outcome.isSome = true)

end Queue

end OpenClaw.SerialQueue
