import Mathlib.Logic.Function.Basic
import Mathlib.Data.List.Nodup
import OpenClaw.Lib.Transition

/-!
The worker task pool as a transition system. Tasks and slots are numbered as they are
made; the pool's set of slots lists those that exist. A call ends where the code hands
control to a callback or to the event loop, and what it does afterwards is a step of its
own, so that callbacks may call the pool again: a loop of `dispatch` is a number of
iterations still owed, a result under validation is a pending entry.
-/

namespace OpenClaw.WorkerTaskPool

inductive Code where
  | unavailable | timeout | failed
  deriving DecidableEq, Repr

/-- A `WorkerTaskError`, or what `toErrorObject` makes of a thrown value. -/
inductive PoolError where
  | worker (message : String) (code : Code)
  | object (thrown fallback : String)
  deriving DecidableEq, Repr

inductive Settlement (Output : Type) where
  | resolved (value : Output)
  | rejected (error : PoolError)
  deriving DecidableEq, Repr

/-- What a worker posts: a reply, or a message that is none. -/
inductive WorkerReply (Output : Type) where
  | ok (value : Output)
  | failed (error : String)
  | malformed
  deriving DecidableEq, Repr

/-- How far `start` has come with a task. -/
inductive Phase where
  | queued | preparing | transferring | returned | posted
  deriving DecidableEq, Repr

structure Task where
  slot : Option Nat := none
  done : Bool := false
  phase : Phase := .queued
  deriving DecidableEq, Repr

/-- `unanswered` are the tasks whose input the worker has and has not replied to. -/
structure Slot where
  worker : Bool := false
  task : Option Nat := none
  idleTimer : Bool := false
  retiring : Bool := false
  unanswered : List Nat := []
  deriving DecidableEq, Repr

structure Options where
  maxWorkers : Nat
  idleTimeoutMs : Nat := 60000
  restartOnError : Bool := true

/-- `deferred` are the settlements that wait for a slot to retire; `replies` and
`accepted` record, by slot and input, what workers replied and what passed validation. -/
structure Pool (Output : Type) where
  slots : List Nat := []
  queue : List Nat := []
  closedError : Option PoolError := none
  taskAt : Nat → Task := fun _ => {}
  taskCount : Nat := 0
  slotAt : Nat → Slot := fun _ => {}
  slotCount : Nat := 0
  dispatching : Nat := 0
  validating : List (Nat × Nat × Output) := []
  deferred : List (Nat × Settlement Output) := []
  settled : List (Nat × Settlement Output) := []
  replies : List (Nat × Nat × WorkerReply Output) := []
  accepted : List (Nat × Nat × Output) := []

namespace Pool

variable {Output : Type}

def setTask (pool : Pool Output) (t : Nat) (task : Task) : Pool Output :=
  { pool with taskAt := Function.update pool.taskAt t task }

def setSlot (pool : Pool Output) (s : Nat) (slot : Slot) : Pool Output :=
  { pool with slotAt := Function.update pool.slotAt s slot }

/-! ### Retirement and settlement -/

def retire (pool : Pool Output) (s : Nat) : Pool Output :=
  pool.setSlot s { pool.slotAt s with idleTimer := false, retiring := true }

def idle (options : Options) (pool : Pool Output) (s : Nat) : Pool Output :=
  pool.setSlot s
    { pool.slotAt s with
      idleTimer := (pool.slotAt s).idleTimer || decide (0 < options.idleTimeoutMs) }

def dispatch (pool : Pool Output) : Pool Output :=
  { pool with dispatching := pool.dispatching + 1 }

def complete (pool : Pool Output) (t : Nat) (outcome : Settlement Output) : Pool Output :=
  { pool with settled := pool.settled ++ [(t, outcome)] }

/-- A retired slot settles its task when it has stopped. -/
def finish (options : Options) (pool : Pool Output) (t : Nat) (outcome : Settlement Output)
    (retires : Bool) : Pool Output :=
  if (pool.taskAt t).done then pool
  else
    let pool := pool.setTask t { pool.taskAt t with done := true }
    let pool := { pool with queue := pool.queue.erase t }
    match (pool.taskAt t).slot with
    | some s =>
        let pool := pool.setSlot s { pool.slotAt s with task := none }
        if retires then
          { pool.retire s with deferred := pool.deferred ++ [(t, outcome)] }
        else ((pool.idle options s).complete t outcome).dispatch
    | none => (pool.complete t outcome).dispatch

/-- The task of a slot is finished with the error that closes the pool. -/
def closeSlot (options : Options) (closedError : PoolError) (pool : Pool Output) (s : Nat) :
    Pool Output :=
  match (pool.slotAt s).task with
  | some t => pool.finish options t (.rejected closedError) true
  | none => pool

def close (options : Options) (pool : Pool Output) (error : PoolError) : Pool Output :=
  let closedError := pool.closedError.getD error
  let queue := pool.queue
  let pool := { pool with closedError := some closedError, queue := [] }
  let pool := queue.foldl (fun pool t => pool.finish options t (.rejected closedError) false) pool
  let pool := pool.slots.foldl (closeSlot options closedError) pool
  pool.slots.foldl retire pool

def fail (options : Options) (pool : Pool Output) (s : Nat) (error : PoolError) : Pool Output :=
  if (pool.slotAt s).retiring then pool
  else if options.restartOnError = false then pool.close options error
  else
    match (pool.slotAt s).task with
    | some t => pool.finish options t (.rejected error) true
    | none => pool.retire s

def cancel (options : Options) (pool : Pool Output) (t : Nat) (error : PoolError) : Pool Output :=
  if (pool.taskAt t).done then pool
  else
    match (pool.taskAt t).slot with
    | some s => pool.fail options s error
    | none => pool.finish options t (.rejected error) false

/-! ### Calls and callbacks -/

def abortError (reason : String) : PoolError := .object reason "worker task aborted"

def timeoutError : PoolError := .worker "worker task timed out" .timeout

def closeError : PoolError := .worker "worker task pool closed" .unavailable

/-- `aborted` is the reason of a signal that was aborted before the call. -/
def run (options : Options) (pool : Pool Output) (aborted : Option String) : Pool Output :=
  let t := pool.taskCount
  match pool.closedError with
  | some error =>
      ({ pool with taskCount := t + 1 }.setTask t { done := true }).complete t (.rejected error)
  | none =>
      let pool := { pool with taskCount := t + 1, queue := pool.queue ++ [t] }
      match aborted with
      | some reason => pool.cancel options t (abortError reason)
      | none => pool.dispatch

/-- The task at the head of the queue goes to the slot and `start` is called on it. -/
def assign (pool : Pool Output) (s t : Nat) (rest : List Nat) : Pool Output :=
  let pool := { pool with queue := rest }
  let pool := pool.setSlot s { pool.slotAt s with idleTimer := false, task := some t }
  pool.setTask t { pool.taskAt t with slot := some s, phase := .preparing }

def isFree (pool : Pool Output) (s : Nat) : Bool :=
  (pool.slotAt s).task.isNone && !(pool.slotAt s).retiring

/-- One turn of the loop of `dispatch`, or its end. -/
def iterate (options : Options) (pool : Pool Output) : Pool Output :=
  let leave := { pool with dispatching := pool.dispatching - 1 }
  match pool.queue with
  | [] => leave
  | t :: rest =>
      if pool.closedError.isSome then leave
      else
        match pool.slots.find? pool.isFree with
        | some s => pool.assign s t rest
        | none =>
            if options.maxWorkers ≤ pool.slots.length then leave
            else
              let s := pool.slotCount
              { pool with slots := pool.slots ++ [s], slotCount := s + 1 }.assign s t rest

/-- What became of the input: it could not be prepared, or it is ready and the slot's
worker, if it has yet to be made, throws or does not. -/
inductive Preparation where
  | failed (thrown : String)
  | ready (noWorker : Option String)
  deriving DecidableEq

def unavailable (thrown : String) : PoolError := .worker thrown .unavailable

/-- `start` after the input was awaited, up to the call of `transferList`. -/
def prepared (options : Options) (pool : Pool Output) (t s : Nat) (outcome : Preparation) :
    Pool Output :=
  let task := pool.taskAt t
  let back := pool.setTask t { task with phase := .returned }
  let onward := (pool.setTask t { task with phase := .transferring }).setSlot s
    { pool.slotAt s with worker := true }
  match outcome with
  | .failed thrown => back.fail options s (.object thrown "worker task preparation failed")
  | .ready noWorker =>
      if task.done then back
      else if (pool.slotAt s).worker then onward
      else
        match noWorker with
        | some thrown => back.fail options s (unavailable thrown)
        | none => onward

/-- `start` after `transferList` returned, or after it or `postMessage` threw. -/
def transferred (options : Options) (pool : Pool Output) (t s : Nat) (thrown : Option String) :
    Pool Output :=
  let task := pool.taskAt t
  let back := pool.setTask t { task with phase := .returned }
  match thrown with
  | some thrown => back.fail options s (unavailable thrown)
  | none =>
      if task.done then back
      else
        (pool.setTask t { task with phase := .posted }).setSlot s
          { pool.slotAt s with unanswered := (pool.slotAt s).unanswered ++ [t] }

def invalidResponse : PoolError := .worker "invalid worker task response" .unavailable

/-- The worker has nothing of `t` to answer any more. -/
def replied (pool : Pool Output) (s t : Nat) (reply : WorkerReply Output) : Pool Output :=
  let pool := pool.setSlot s
    { pool.slotAt s with unanswered := (pool.slotAt s).unanswered.erase t }
  { pool with replies := pool.replies ++ [(s, t, reply)] }

/-- The worker's reply to the input of `t`; a value goes to `validateResult` first. -/
def receive (options : Options) (pool : Pool Output) (s t : Nat) (reply : WorkerReply Output) :
    Pool Output :=
  let pool := pool.replied s t reply
  if (pool.slotAt s).retiring then pool
  else
    match (pool.slotAt s).task with
    | none => pool.fail options s invalidResponse
    | some task =>
        match reply with
        | .malformed => pool.fail options s invalidResponse
        | .failed error => pool.finish options task (.rejected (.worker error .failed)) false
        | .ok value => { pool with validating := pool.validating ++ [(s, task, value)] }

def validated [DecidableEq Output] (options : Options) (pool : Pool Output)
    (entry : Nat × Nat × Output) (thrown : Option String) : Pool Output :=
  let pool := { pool with validating := pool.validating.erase entry }
  match thrown with
  | some thrown => pool.fail options entry.1 (.object thrown "worker result validation failed")
  | none =>
      { pool with accepted := pool.accepted ++ [entry] }.finish options entry.2.1
        (.resolved entry.2.2) false

/-- The retirement of a slot ends: its worker has stopped. -/
def terminated (pool : Pool Output) (s : Nat) : Pool Output :=
  let pool := pool.setSlot s { pool.slotAt s with unanswered := [] }
  { pool with slots := pool.slots.erase s }.dispatch

def settle [DecidableEq Output] (pool : Pool Output) (entry : Nat × Settlement Output) :
    Pool Output :=
  { pool with deferred := pool.deferred.erase entry }.complete entry.1 entry.2

end Pool

/-! ### Runs -/

inductive Event (Output : Type) where
  | run (aborted : Option String)
  | iterate
  | prepared (t s : Nat) (outcome : Pool.Preparation)
  | transferred (t s : Nat) (thrown : Option String)
  | receive (s t : Nat) (reply : WorkerReply Output)
  | validated (entry : Nat × Nat × Output) (thrown : Option String)
  | workerFails (s : Nat) (thrown : String)
  | timeout (t : Nat)
  | abort (t : Nat) (reason : String)
  | idleExpires (s : Nat)
  | terminated (s : Nat)
  | settle (entry : Nat × Settlement Output)
  | close (error : PoolError)
  deriving DecidableEq

namespace Pool

variable {Output : Type} [DecidableEq Output]

/-- When the event can happen: a worker replies once to each input it has, a stopped
worker is silent, and a timer that was cleared does not fire. -/
def Enabled (pool : Pool Output) : Event Output → Prop
  | .run _ => True
  | .iterate => 0 < pool.dispatching
  | .prepared t s _ => (pool.taskAt t).phase = .preparing ∧ (pool.taskAt t).slot = some s
  | .transferred t s _ => (pool.taskAt t).phase = .transferring ∧ (pool.taskAt t).slot = some s
  | .receive s t _ => t ∈ (pool.slotAt s).unanswered
  | .validated entry _ => entry ∈ pool.validating
  | .workerFails s _ => s ∈ pool.slots ∧ (pool.slotAt s).worker = true
  | .timeout t => t < pool.taskCount
  | .abort t _ => t < pool.taskCount
  | .idleExpires s => (pool.slotAt s).idleTimer = true
  | .terminated s => s ∈ pool.slots ∧ (pool.slotAt s).retiring = true
  | .settle entry =>
      entry ∈ pool.deferred ∧ ∀ s ∈ pool.slots, (pool.taskAt entry.1).slot ≠ some s
  | .close _ => True

instance (pool : Pool Output) (e : Event Output) : Decidable (pool.Enabled e) := by
  cases e <;> unfold Enabled <;> infer_instance

def apply (options : Options) (pool : Pool Output) : Event Output → Pool Output
  | .run aborted => pool.run options aborted
  | .iterate => pool.iterate options
  | .prepared t s outcome => pool.prepared options t s outcome
  | .transferred t s thrown => pool.transferred options t s thrown
  | .receive s t reply => pool.receive options s t reply
  | .validated entry thrown => pool.validated options entry thrown
  | .workerFails s thrown => pool.fail options s (unavailable thrown)
  | .timeout t => pool.cancel options t timeoutError
  | .abort t reason => pool.cancel options t (abortError reason)
  | .idleExpires s => pool.retire s
  | .terminated s => pool.terminated s
  | .settle entry => pool.settle entry
  | .close error => pool.close options error

def step (options : Options) (pool : Pool Output) (e : Event Output) : Option (Pool Output) :=
  if pool.Enabled e then some (pool.apply options e) else none

theorem step_eq_some {options : Options} {pool next : Pool Output} {e : Event Output} :
    step options pool e = some next ↔ pool.Enabled e ∧ next = pool.apply options e := by
  unfold step
  split <;> simp_all [eq_comm]

end Pool

end OpenClaw.WorkerTaskPool
