import Mathlib
import OpenClaw.Lib.JsText

/-!
Process-wide root work admission of the gateway: the shared state and the state
changes of its operations. Admissions, release handles and continuation scopes are
heap objects with an identity. A waiter stands for the resolve function of a pending
promise together with what its asynchronous caller does once it is resolved.
-/

namespace GatewayAdmission

abbrev AdmissionId := Nat
abbrev HandleId := Nat
abbrev ScopeId := Nat
abbrev WaiterId := Nat

inductive SuspendPhase where
  | accepting
  | preparing
  | draining
  | prepared
  deriving DecidableEq

/-- The origin is a sequence of UTF-16 code units. -/
structure RootWorkAdmission where
  origin : List Nat := []
  references : Int := 0
  released : Bool := false
  retiredByReset : Bool := false
  deriving DecidableEq

/-- The closure made by `createGatewayRootWorkRelease`. -/
structure ReleaseHandle where
  admission : AdmissionId := 0
  leaseReleased : Bool := false
  deriving DecidableEq

structure ContinuationScope where
  current : AdmissionId := 0
  releaseAdmission : Option HandleId := none
  released : Bool := false
  deriving DecidableEq

/-- What waits for admission to open: an asynchronous admission with the root of its
async context, a detached run, or the settlement of the restart fence. -/
inductive WaiterKind where
  | rootWork (current : Option AdmissionId) (origin : String)
  | independent (origin : String)
  | restartFence
  deriving DecidableEq

structure Waiter where
  id : WaiterId
  kind : WaiterKind
  deriving DecidableEq

/-- What a root admission call hands back. -/
inductive RootWorkLease where
  /-- Nested work of a live root: releasing it does nothing. -/
  | nested
  | root (admission : AdmissionId) (release : HandleId)
  deriving DecidableEq

structure State where
  restartDraining : Bool := false
  restartDrainAborted : Bool := false
  restartSignalPending : Bool := false
  restartSignalGeneration : Nat := 0
  suspendPhase : SuspendPhase := .accepting
  suspendGeneration : Nat := 0
  suspendInvalidated : Bool := false
  activeRootWork : List AdmissionId := []
  suspendOpenWaiters : List Waiter := []
  resolvedWaiters : List Waiter := []
  admissions : AdmissionId → RootWorkAdmission := fun _ => {}
  handles : HandleId → ReleaseHandle := fun _ => {}
  scopes : ScopeId → ContinuationScope := fun _ => {}
  suspendLeases : List Nat := []
  restartSignalLeases : List Nat := []
  nextAdmission : Nat := 0
  nextHandle : Nat := 0
  nextScope : Nat := 0
  nextWaiter : Nat := 0

def originMaxChars : Nat := 80

/-- Trimmed, with white space collapsed, cut to a bounded length, never empty. -/
def normalizeOrigin (origin : String) : List Nat :=
  let units := ((JsText.collapseChars (JsText.trimChars origin.toList)).flatMap
    JsText.codeUnits).take originMaxChars
  if units = [] then "gateway".toList.flatMap JsText.codeUnits else units

namespace State

/-- The live root of an async context, if it has one. -/
def liveRoot (s : State) (current : Option AdmissionId) : Option AdmissionId :=
  current.filter fun id => !(s.admissions id).released

def isGatewayWorkAdmissionClosed (s : State) : Bool :=
  s.restartDraining || s.restartSignalPending || s.suspendPhase ≠ .accepting

/-- Existing roots may still spawn subordinate work while suspension is closed. -/
def isGatewaySubordinateWorkAdmissionClosed (s : State) (current : Option AdmissionId) : Bool :=
  if s.restartDraining || s.restartSignalPending then true
  else match current with
    | some id => (s.admissions id).released
    | none => s.suspendPhase ≠ .accepting

def createGatewayRootWorkRelease (s : State) (admission : AdmissionId) : HandleId × State :=
  (s.nextHandle, { s with
    handles := Function.update s.handles s.nextHandle { admission := admission }
    nextHandle := s.nextHandle + 1 })

def createGatewayRootWorkAdmission (s : State) (origin : String) : RootWorkLease × State :=
  let admission := s.nextAdmission
  let s := { s with
    admissions := Function.update s.admissions admission
      { origin := normalizeOrigin origin, references := 1 }
    activeRootWork := s.activeRootWork ++ [admission]
    nextAdmission := admission + 1 }
  let (release, s) := s.createGatewayRootWorkRelease admission
  (.root admission release, s)

/-- Calling a release handle. -/
def releaseHandle (s : State) (handle : HandleId) : State :=
  let id := (s.handles handle).admission
  if (s.handles handle).leaseReleased || (s.admissions id).released then s
  else
    let s := { s with
      handles := Function.update s.handles handle { s.handles handle with leaseReleased := true }
      admissions := Function.update s.admissions id
        { s.admissions id with references := (s.admissions id).references - 1 } }
    if 0 < (s.admissions id).references then s
    else { s with
      admissions := Function.update s.admissions id { s.admissions id with released := true }
      activeRootWork := s.activeRootWork.filter (· ≠ id) }

def resolveSuspendOpenWaiters (s : State) : State :=
  { s with
    suspendOpenWaiters := []
    resolvedWaiters := s.resolvedWaiters ++ s.suspendOpenWaiters }

def addWaiter (s : State) (kind : WaiterKind) : State :=
  { s with
    suspendOpenWaiters := s.suspendOpenWaiters ++ [⟨s.nextWaiter, kind⟩]
    nextWaiter := s.nextWaiter + 1 }

/-- The part of `invalidateSuspendAdmission` before it calls out. -/
def invalidateSuspendAdmission (s : State) : State :=
  { s with
    suspendInvalidated := false
    suspendPhase := .accepting
    suspendGeneration := s.suspendGeneration + 1 }.resolveSuspendOpenWaiters

def clearRestartSignalFence (s : State) : Bool × State :=
  if s.restartDraining || !s.restartSignalPending then (false, s)
  else (true, { s with
    restartSignalPending := false
    restartSignalGeneration := s.restartSignalGeneration + 1 }.resolveSuspendOpenWaiters)

/-- `rollback` of a restart-signal lease. -/
def rollbackRestartSignal (s : State) (generation : Nat) : Bool × State :=
  if !s.restartSignalPending || s.restartSignalGeneration ≠ generation then (false, s)
  else s.clearRestartSignalFence

def beginGatewayRestartSignalAdmission (s : State) : Option Nat × State :=
  if s.restartDraining || s.restartSignalPending then (none, s)
  else
    let generation := s.restartSignalGeneration + 1
    (some generation, { s with
      restartSignalPending := true
      restartSignalGeneration := generation
      restartSignalLeases := s.restartSignalLeases ++ [generation] })

def tryBeginGatewayRootWorkAdmission (s : State) (current : Option AdmissionId) (origin : String) :
    Option RootWorkLease × State :=
  if (s.liveRoot current).isSome then (some .nested, s)
  else if s.restartDraining || s.restartSignalPending || s.suspendPhase ≠ .accepting then (none, s)
  else
    let (lease, s) := s.createGatewayRootWorkAdmission origin
    (some lease, s)

def tryBeginGatewayRestartStartupRootWorkAdmission (s : State) : Option RootWorkLease × State :=
  if (!s.restartDraining && !s.restartSignalPending) || s.suspendPhase ≠ .accepting then (none, s)
  else
    let (lease, s) := s.createGatewayRootWorkAdmission "restart-startup"
    (some lease, s)

def tryBeginGatewayPreparedRestartRootWorkAdmission (s : State) : Option RootWorkLease × State :=
  if s.restartDraining || s.restartSignalPending || s.suspendPhase ≠ .prepared ||
      0 < s.activeRootWork.length then (none, s)
  else
    let (lease, s) := s.createGatewayRootWorkAdmission "restart-prepared"
    (some lease, s)

def tryBeginGatewayIndependentRootWorkAdmission (s : State) (origin : String) :
    Option RootWorkLease × State :=
  if s.restartDraining || s.restartSignalPending || s.suspendPhase ≠ .accepting then (none, s)
  else
    let (lease, s) := s.createGatewayRootWorkAdmission origin
    (some lease, s)

/-- One iteration of the loop of `beginGatewayRootWorkAdmissionWhenOpen`; draining throws. -/
def beginGatewayRootWorkAdmissionWhenOpen (s : State) (current : Option AdmissionId)
    (origin : String) : State :=
  if s.restartDraining then s
  else match s.tryBeginGatewayRootWorkAdmission current origin with
    | (some _, s) => s
    | (none, s) => s.addWaiter (.rootWork current origin)

/-- One iteration of the loop of `runWithGatewayIndependentRootWorkAdmission`. -/
def runWithGatewayIndependentRootWorkAdmission (s : State) (origin : String) : State :=
  if s.restartDraining then s
  else match s.tryBeginGatewayIndependentRootWorkAdmission origin with
    | (some _, s) => s
    | (none, s) => s.addWaiter (.independent origin)

def runWithGatewayRootWorkReadmission (s : State) (current : Option AdmissionId) : State :=
  match current with
  | some id =>
      if (s.admissions id).retiredByReset then
        s.runWithGatewayIndependentRootWorkAdmission "runtime:readmission"
      else s
  | none => s

/-- A live parent reserves a root of its own even while admission is closed. -/
def runWithGatewayIndependentRootWorkContinuation (s : State) (current : Option AdmissionId)
    (origin : String) : State :=
  match s.liveRoot current with
  | some _ => (s.createGatewayRootWorkAdmission origin).2
  | none => s.runWithGatewayIndependentRootWorkAdmission origin

def waitForGatewayRestartFenceSettlement (s : State) : State :=
  if s.restartSignalPending then s.addWaiter .restartFence else s

/-- The continuation of a resolved waiter. -/
def resumeWaiter (s : State) : WaiterKind → State
  | .rootWork current origin => s.beginGatewayRootWorkAdmissionWhenOpen current origin
  | .independent origin => s.runWithGatewayIndependentRootWorkAdmission origin
  | .restartFence => s.waitForGatewayRestartFenceSettlement

def retainReference (s : State) (id : AdmissionId) : HandleId × State :=
  { s with
    admissions := Function.update s.admissions id
      { s.admissions id with references := (s.admissions id).references + 1 }
  }.createGatewayRootWorkRelease id

def createGatewayRootWorkAdmissionContinuationScope (s : State) (current : Option AdmissionId)
    (retainRoot : Bool) : Option ScopeId × State :=
  match s.liveRoot current with
  | none => (none, s)
  | some id =>
      if id ∉ s.activeRootWork then (none, s)
      else
        let (releaseAdmission, s) :=
          if retainRoot then
            let (handle, s) := s.retainReference id
            (some handle, s)
          else (none, s)
        (some s.nextScope, { s with
          scopes := Function.update s.scopes s.nextScope
            { current := id, releaseAdmission := releaseAdmission }
          nextScope := s.nextScope + 1 })

/-- `release` of a continuation scope. -/
def releaseScope (s : State) (scope : ScopeId) : State :=
  if (s.scopes scope).released then s
  else
    let released := { s with
      scopes := Function.update s.scopes scope { s.scopes scope with released := true } }
    match (s.scopes scope).releaseAdmission with
    | some handle => released.releaseHandle handle
    | none => released

/-- `run` of a continuation scope holds a reference for the time of the run; the
returned handle is released when the run ends. -/
def runScope (s : State) (scope : ScopeId) : Option HandleId × State :=
  let id := (s.scopes scope).current
  if (s.scopes scope).released || (s.admissions id).released || id ∉ s.activeRootWork then (none, s)
  else
    let (handle, s) := s.retainReference id
    (some handle, s)

/-- The transition of a suspend lease, up to the notification of observers. -/
def transition (s : State) (generation : Nat) (expected next : SuspendPhase) : Bool × State :=
  if s.suspendGeneration ≠ generation || s.suspendPhase ≠ expected then (false, s)
  else
    let s := { s with suspendPhase := next }
    if next = .accepting then
      (true, { s with suspendInvalidated := false }.resolveSuspendOpenWaiters)
    else (true, s)

/-- Retire every admitted root. -/
def retireRootWork (s : State) : State :=
  { s with
    admissions := fun id =>
      if id ∈ s.activeRootWork then
        { s.admissions id with references := 0, retiredByReset := true, released := true }
      else s.admissions id
    activeRootWork := [] }

end State
end GatewayAdmission
