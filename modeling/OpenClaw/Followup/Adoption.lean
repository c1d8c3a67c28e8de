import Mathlib.Data.Finset.Insert
import Mathlib.Logic.Function.Basic
import OpenClaw.Followup.Run
import OpenClaw.Lib.Transition

/-!
The turn adoption lifecycles that queued runs and their copies share: the weak sets that
record what happened to a lifecycle, the promise of an admission under way with the reactions
registered on it, and the recent message ids with their owners. A step is one synchronous
stretch of the program: a call of the module, or one microtask of an admission promise. The
callbacks of a lifecycle are events of the log, and what they call in turn are later steps.
-/

namespace Followup.Adoption

open Transition

abbrev LifecycleId := Nat
abbrev AdmissionId := Nat
abbrev OwnerToken := Nat

structure FollowupLifecycleRun where
  run : RunId
  turnAdoptionLifecycle : Option LifecycleId
  deriving DecidableEq

/-- A copy for a retry keeps the lifecycle reference. -/
def createOverflowSummaryRetrySource (source : FollowupLifecycleRun) (copy : RunId) :
    FollowupLifecycleRun :=
  { source with run := copy }

/-- The admission promise: its first microtask has not run, `onAdopted` is under way, the
async function has returned, the promise is settled. -/
inductive Phase
  | queued
  | adopting
  | returned (ok : Bool)
  | settled (ok : Bool)
  deriving DecidableEq

/-- What waits on an admission promise: the call that opened it, another call, a completion. -/
inductive Reaction
  | release
  | waiter
  | finish
  deriving DecidableEq

structure Admission where
  lifecycle : LifecycleId := 0
  phase : Phase := .queued
  reactions : List Reaction := []
  deriving DecidableEq

inductive Event
  | admissionOpened (lifecycle : LifecycleId)
  | adoptionStarted (lifecycle : LifecycleId)
  | adopted (lifecycle : LifecycleId)
  | completeCalled (lifecycle : LifecycleId)
  | abandoned (lifecycle : LifecycleId)
  | settled (lifecycle : LifecycleId)
  deriving DecidableEq

/-- `turnAdoptionLifecycle ?? run`. -/
abbrev DedupeIdentity := LifecycleId ⊕ RunId

def resolveDedupeIdentity (run : FollowupLifecycleRun) : DedupeIdentity :=
  match run.turnAdoptionLifecycle with
  | some lifecycle => .inl lifecycle
  | none => .inr run.run

structure State where
  enqueued : Finset LifecycleId := ∅
  admitted : Finset LifecycleId := ∅
  admitting : LifecycleId → Option AdmissionId := fun _ => none
  retiredCancellation : Finset LifecycleId := ∅
  completed : Finset LifecycleId := ∅
  completedCallbacks : Finset LifecycleId := ∅
  admissions : AdmissionId → Admission := fun _ => {}
  nextAdmission : Nat := 0
  recentMessageIds : String → Option OwnerToken := fun _ => none
  ownerships : DedupeIdentity → Option (String × OwnerToken) := fun _ => none
  nextToken : Nat := 0
  log : List Event := []

namespace State

def record (s : State) (event : Event) : State := { s with log := s.log ++ [event] }

def setAdmission (s : State) (id : AdmissionId) (admission : Admission) : State :=
  { s with admissions := Function.update s.admissions id admission }

/-- `accepts` is what `onDeferred` answers. -/
def markFollowupRunEnqueued (s : State) (run : FollowupLifecycleRun) (accepts : Bool) :
    Bool × State :=
  match run.turnAdoptionLifecycle with
  | none => (true, s)
  | some lifecycle =>
      if lifecycle ∈ s.enqueued then (true, s)
      else if accepts then (true, { s with enqueued := insert lifecycle s.enqueued })
      else (false, s)

def retireFollowupRunCancellation (s : State) (run : FollowupLifecycleRun) : State :=
  match run.turnAdoptionLifecycle with
  | none => s
  | some lifecycle => { s with retiredCancellation := insert lifecycle s.retiredCancellation }

/-- The synchronous part of an admission: it returns or throws at once, waits for the admission
under way, or opens one. -/
def admitFollowupRunLifecycle (s : State) (run : FollowupLifecycleRun) : State :=
  match run.turnAdoptionLifecycle with
  | none => s
  | some lifecycle =>
      if lifecycle ∈ s.admitted then s
      else
        match s.admitting lifecycle with
        | some existing =>
            let admission := s.admissions existing
            s.setAdmission existing { admission with reactions := admission.reactions ++ [.waiter] }
        | none =>
            if lifecycle ∈ s.completed then s
            else
              ({ s with
                admitting := Function.update s.admitting lifecycle (some s.nextAdmission)
                admissions := Function.update s.admissions s.nextAdmission
                  { lifecycle, reactions := [.release] }
                nextAdmission := s.nextAdmission + 1 }).record (.admissionOpened lifecycle)

/-- Only the token that installed the current entry may delete it. -/
def releaseRecentQueueMessageId (s : State) (identity : DedupeIdentity) : State :=
  match s.ownerships identity with
  | none => s
  | some (key, ownerToken) =>
      { s with
        ownerships := Function.update s.ownerships identity none
        recentMessageIds := if s.recentMessageIds key = some ownerToken then
          Function.update s.recentMessageIds key none else s.recentMessageIds }

/-- The completion callbacks of a lifecycle, once. -/
def finish (s : State) (lifecycle : LifecycleId) : State :=
  if lifecycle ∈ s.completedCallbacks then s
  else
    let s := { s with completedCallbacks := insert lifecycle s.completedCallbacks }
    let s := if lifecycle ∉ s.admitted then
      (s.releaseRecentQueueMessageId (.inl lifecycle)).record (.abandoned lifecycle) else s
    s.record (.settled lifecycle)

def completeFollowupRunLifecycle (s : State) (run : FollowupLifecycleRun) : State :=
  match run.turnAdoptionLifecycle with
  | none => s
  | some lifecycle =>
      let s := ({ s with completed := insert lifecycle s.completed }).record (.completeCalled lifecycle)
      match s.admitting lifecycle with
      | none => s.finish lifecycle
      | some pending =>
          let admission := s.admissions pending
          s.setAdmission pending { admission with reactions := admission.reactions ++ [.finish] }

/-- The first microtask of an admission. -/
def startAdoption (s : State) (id : AdmissionId) : Option State :=
  let admission := s.admissions id
  if id < s.nextAdmission ∧ admission.phase = .queued then
    if admission.lifecycle ∈ s.admitted then
      some (s.setAdmission id { admission with phase := .returned true })
    else
      some ((s.setAdmission id { admission with phase := .adopting }).record
        (.adoptionStarted admission.lifecycle))
  else none

/-- `onAdopted` succeeds or fails. -/
def endAdoption (s : State) (id : AdmissionId) (ok : Bool) : Option State :=
  let admission := s.admissions id
  if id < s.nextAdmission ∧ admission.phase = .adopting then
    let s := s.setAdmission id { admission with phase := .returned ok }
    some (if ok then
      ({ s with admitted := insert admission.lifecycle s.admitted }).record
        (.adopted admission.lifecycle)
      else s)
  else none

def settleAdmission (s : State) (id : AdmissionId) : Option State :=
  let admission := s.admissions id
  match admission.phase with
  | .returned ok =>
      if id < s.nextAdmission then some (s.setAdmission id { admission with phase := .settled ok })
      else none
  | _ => none

/-- The next reaction of a settled admission, in the order they were registered. -/
def react (s : State) (id : AdmissionId) : Option State :=
  let admission := s.admissions id
  match admission.phase, admission.reactions with
  | .settled _, reaction :: reactions =>
      if id < s.nextAdmission then
        let s := s.setAdmission id { admission with reactions }
        some (match reaction with
          | .release => { s with admitting := Function.update s.admitting admission.lifecycle none }
          | .waiter => s
          | .finish => s.finish admission.lifecycle)
      else none
  | _, _ => none

def recordRecentQueueMessageId (s : State) (run : FollowupLifecycleRun) (key : String) : State :=
  { s with
    ownerships := Function.update s.ownerships (resolveDedupeIdentity run) (some (key, s.nextToken))
    recentMessageIds := Function.update s.recentMessageIds key (some s.nextToken)
    nextToken := s.nextToken + 1 }

end State

/-- `expire`: the cache drops an entry that is too old or one too many, or is cleared. -/
inductive Label
  | markEnqueued (run : FollowupLifecycleRun) (accepts : Bool)
  | retireCancellation (run : FollowupLifecycleRun)
  | admission (run : FollowupLifecycleRun)
  | complete (run : FollowupLifecycleRun)
  | startAdoption (id : AdmissionId)
  | endAdoption (id : AdmissionId) (ok : Bool)
  | settleAdmission (id : AdmissionId)
  | react (id : AdmissionId)
  | recordMessageId (run : FollowupLifecycleRun) (key : String)
  | expire (key : String)

def step (s : State) : Label → Option State
  | .markEnqueued run accepts => some (s.markFollowupRunEnqueued run accepts).2
  | .retireCancellation run => some (s.retireFollowupRunCancellation run)
  | .admission run => some (s.admitFollowupRunLifecycle run)
  | .complete run => some (s.completeFollowupRunLifecycle run)
  | .startAdoption id => s.startAdoption id
  | .endAdoption id ok => s.endAdoption id ok
  | .settleAdmission id => s.settleAdmission id
  | .react id => s.react id
  | .recordMessageId run key => some (s.recordRecentQueueMessageId run key)
  | .expire key =>
      some { s with recentMessageIds := Function.update s.recentMessageIds key none }

end Followup.Adoption
