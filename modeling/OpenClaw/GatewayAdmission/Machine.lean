import OpenClaw.GatewayAdmission.State
import OpenClaw.Lib.Transition

/-!
The admission operations as a machine. Abort listeners, the owner of an invalidated
suspension and the suspension observers are user code that runs inside an operation
and may call further operations; a frame holds the rest of the operation they
interrupt. Resolved waiters continue on an empty stack.
-/

namespace GatewayAdmission

inductive CallbackKind where
  | abortListeners
  | invalidated
  | observers
  deriving DecidableEq

inductive Frame where
  | callback (kind : CallbackKind)
  /-- `markGatewayRestartDraining` after the abort listeners. -/
  | markAborted
  /-- `invalidateSuspendAdmission` after the owner was called. -/
  | invalidated (wasClosed : Bool)
  /-- `resetGatewayWorkAdmission` after the abort listeners. -/
  | resetAborted
  /-- `resetGatewayWorkAdmission` after the suspension was invalidated. -/
  | resetInvalidated
  /-- `tryBeginGatewaySuspendAdmission` after the observers: the lease is returned. -/
  | suspendBegun (generation : Nat)
  deriving DecidableEq

inductive Operation where
  | tryBeginGatewayRootWorkAdmission (current : Option AdmissionId) (origin : String)
  | tryBeginGatewayRestartStartupRootWorkAdmission
  | tryBeginGatewayPreparedRestartRootWorkAdmission
  | beginGatewayRootWorkAdmissionWhenOpen (current : Option AdmissionId) (origin : String)
  | runWithGatewayIndependentRootWorkAdmission (origin : String)
  | runWithGatewayRootWorkReadmission (current : Option AdmissionId)
  | runWithGatewayIndependentRootWorkContinuation (current : Option AdmissionId) (origin : String)
  | waitForGatewayRestartFenceSettlement
  | releaseHandle (handle : HandleId)
  | createContinuationScope (current : Option AdmissionId) (retainRoot : Bool)
  | releaseScope (scope : ScopeId)
  | runScope (scope : ScopeId)
  | tryBeginGatewaySuspendAdmission
  | suspendDrain (generation : Nat)
  | suspendCommit (generation : Nat)
  | suspendRollback (generation : Nat)
  | suspendRelease (generation : Nat)
  | beginGatewayRestartSignalAdmission
  | rollbackRestartSignal (generation : Nat)
  | rollbackGatewayRestartSignalFence
  | markGatewayRestartDraining
  | resetGatewayWorkAdmission
  deriving DecidableEq

structure Machine where
  state : State := {}
  stack : List Frame := []

namespace Machine

def push (m : Machine) (frame : Frame) : Machine := { m with stack := frame :: m.stack }

def pushIf (m : Machine) (condition : Bool) (frame : Frame) : Machine :=
  if condition then m.push frame else m

/-- Fire the abort event of the drain controller unless it has fired. -/
def abortDrain (m : Machine) : Machine :=
  { m with state := { m.state with restartDrainAborted := true } }.pushIf
    (!m.state.restartDrainAborted) (.callback .abortListeners)

/-- Call `invalidateSuspendAdmission`. -/
def invalidate (m : Machine) : Machine :=
  ({ m with state := m.state.invalidateSuspendAdmission }.push
    (.invalidated (decide (m.state.suspendPhase ≠ SuspendPhase.accepting)))).pushIf m.state.suspendInvalidated
      (.callback .invalidated)

def markGatewayRestartDraining (m : Machine) : Machine :=
  if m.state.restartDraining then m
  else
    ({ m with state := { m.state with
        restartSignalPending := false
        restartSignalGeneration := m.state.restartSignalGeneration + 1
        restartDraining := true } }.push .markAborted).abortDrain

/-- `markGatewayRestartDraining` after the abort listeners. -/
def runMarkAborted (m : Machine) : Machine :=
  let m := { m with state := m.state.resolveSuspendOpenWaiters }
  if m.state.suspendPhase ≠ .accepting then m.invalidate else m

def resetGatewayWorkAdmission (m : Machine) : Machine := (m.push .resetAborted).abortDrain

/-- `resetGatewayWorkAdmission` after the abort listeners, with a new controller. -/
def runResetAborted (m : Machine) : Machine :=
  let s := m.state.retireRootWork
  let s := { s with
    restartDraining := false
    restartDrainAborted := false
    restartSignalPending := false
    restartSignalGeneration := s.restartSignalGeneration + 1 }
  if s.suspendPhase ≠ .accepting then
    ({ m with state := s }.push .resetInvalidated).invalidate
  else
    { m with state := { s with
        suspendGeneration := s.suspendGeneration + 1
        suspendInvalidated := false }.resolveSuspendOpenWaiters }

def tryBeginGatewaySuspendAdmission (m : Machine) : Machine :=
  if m.state.restartDraining || m.state.restartSignalPending ||
      m.state.suspendPhase ≠ .accepting then m
  else
    let generation := m.state.suspendGeneration + 1
    ({ m with state := { m.state with
        suspendPhase := .preparing
        suspendGeneration := generation
        suspendInvalidated := true } }.push (.suspendBegun generation)).push (.callback .observers)

/-- A transition of a suspend lease, with the notification of observers. -/
def transition (m : Machine) (generation : Nat) (expected next : SuspendPhase) : Bool × Machine :=
  let (changed, s) := m.state.transition generation expected next
  (changed, { m with state := s }.pushIf changed (.callback .observers))

def suspendDrain (m : Machine) (generation : Nat) : Bool × Machine :=
  m.transition generation .preparing .draining

def suspendCommit (m : Machine) (generation : Nat) : Bool × Machine :=
  let (changed, next) := m.transition generation .preparing .prepared
  if changed then (true, next) else next.transition generation .draining .prepared

def suspendRollback (m : Machine) (generation : Nat) : Bool × Machine :=
  m.transition generation .preparing .accepting

def suspendRelease (m : Machine) (generation : Nat) : Bool × Machine :=
  let (changed, next) := m.transition generation .draining .accepting
  if changed then (true, next) else next.transition generation .prepared .accepting

/-- A restart-signal lease only touches the state. -/
def rollbackRestartSignal (m : Machine) (generation : Nat) : Bool × Machine :=
  let (changed, s) := m.state.rollbackRestartSignal generation
  (changed, { m with state := s })

def withState (m : Machine) (s : State) : Machine := { m with state := s }

/-- Call an operation. -/
def begin (m : Machine) : Operation → Machine
  | .tryBeginGatewayRootWorkAdmission current origin =>
      m.withState (m.state.tryBeginGatewayRootWorkAdmission current origin).2
  | .tryBeginGatewayRestartStartupRootWorkAdmission =>
      m.withState m.state.tryBeginGatewayRestartStartupRootWorkAdmission.2
  | .tryBeginGatewayPreparedRestartRootWorkAdmission =>
      m.withState m.state.tryBeginGatewayPreparedRestartRootWorkAdmission.2
  | .beginGatewayRootWorkAdmissionWhenOpen current origin =>
      m.withState (m.state.beginGatewayRootWorkAdmissionWhenOpen current origin)
  | .runWithGatewayIndependentRootWorkAdmission origin =>
      m.withState (m.state.runWithGatewayIndependentRootWorkAdmission origin)
  | .runWithGatewayRootWorkReadmission current =>
      m.withState (m.state.runWithGatewayRootWorkReadmission current)
  | .runWithGatewayIndependentRootWorkContinuation current origin =>
      m.withState (m.state.runWithGatewayIndependentRootWorkContinuation current origin)
  | .waitForGatewayRestartFenceSettlement =>
      m.withState m.state.waitForGatewayRestartFenceSettlement
  | .releaseHandle handle => m.withState (m.state.releaseHandle handle)
  | .createContinuationScope current retainRoot =>
      m.withState (m.state.createGatewayRootWorkAdmissionContinuationScope current retainRoot).2
  | .releaseScope scope => m.withState (m.state.releaseScope scope)
  | .runScope scope => m.withState (m.state.runScope scope).2
  | .tryBeginGatewaySuspendAdmission => m.tryBeginGatewaySuspendAdmission
  | .suspendDrain generation => (m.suspendDrain generation).2
  | .suspendCommit generation => (m.suspendCommit generation).2
  | .suspendRollback generation => (m.suspendRollback generation).2
  | .suspendRelease generation => (m.suspendRelease generation).2
  | .beginGatewayRestartSignalAdmission => m.withState m.state.beginGatewayRestartSignalAdmission.2
  | .rollbackRestartSignal generation => (m.rollbackRestartSignal generation).2
  | .rollbackGatewayRestartSignalFence => m.withState m.state.clearRestartSignalFence.2
  | .markGatewayRestartDraining => m.markGatewayRestartDraining
  | .resetGatewayWorkAdmission => m.resetGatewayWorkAdmission

/-- The objects an operation names exist: roots of async contexts, handles, scopes and
leases that were handed out. -/
def knows (s : State) : Operation → Bool
  | .tryBeginGatewayRootWorkAdmission current _ | .beginGatewayRootWorkAdmissionWhenOpen current _
  | .runWithGatewayRootWorkReadmission current
  | .runWithGatewayIndependentRootWorkContinuation current _
  | .createContinuationScope current _ => current.all fun id => id < s.nextAdmission
  | .releaseHandle handle => handle < s.nextHandle
  | .releaseScope scope | .runScope scope => scope < s.nextScope
  | .suspendDrain generation | .suspendCommit generation | .suspendRollback generation
  | .suspendRelease generation => generation ∈ s.suspendLeases
  | .rollbackRestartSignal generation => generation ∈ s.restartSignalLeases
  | _ => true

inductive Label where
  | call (operation : Operation)
  /-- A resolved waiter continues. -/
  | resume (waiter : Waiter)
  /-- The running callback returns. -/
  | ret
  /-- The owner of an invalidated suspension throws: the interrupted operations unwind
  to the callback that called them. -/
  | throw
  /-- The machine continues the topmost operation. -/
  | run
  deriving DecidableEq

def isCallback : Frame → Bool
  | .callback _ => true
  | _ => false

def step (m : Machine) : Label → Option Machine
  | .call operation =>
      if (m.stack.isEmpty || m.stack.head?.any isCallback) && knows m.state operation then
        some (m.begin operation)
      else none
  | .resume waiter =>
      if m.stack.isEmpty && waiter ∈ m.state.resolvedWaiters then
        let resumed := { m.state with
          resolvedWaiters := m.state.resolvedWaiters.filter (· ≠ waiter) }
        some (m.withState (resumed.resumeWaiter waiter.kind))
      else none
  | .ret =>
      match m.stack with
      | .callback _ :: rest => some { m with stack := rest }
      | _ => none
  | .throw =>
      match m.stack with
      | .callback .invalidated :: rest => some { m with stack := rest.dropWhile (!isCallback ·) }
      | _ => none
  | .run =>
      match m.stack with
      | .markAborted :: rest => some (runMarkAborted { m with stack := rest })
      | .invalidated wasClosed :: rest =>
          some (pushIf { m with stack := rest } wasClosed (.callback .observers))
      | .resetAborted :: rest => some (runResetAborted { m with stack := rest })
      | .resetInvalidated :: rest =>
          some { state := m.state.resolveSuspendOpenWaiters, stack := rest }
      | .suspendBegun generation :: rest =>
          let s := { m.state with suspendLeases := m.state.suspendLeases ++ [generation] }
          some { state := s, stack := rest }
      | .callback _ :: _ => none
      | [] => none

end Machine
end GatewayAdmission
