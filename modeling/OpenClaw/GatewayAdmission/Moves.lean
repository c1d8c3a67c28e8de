import OpenClaw.GatewayAdmission.Ledger

/-!
The kinds of change the admission operations are made of. Ledger changes come one by
one; a change of the fences keeps the ledger, never lowers a generation and either
wakes every waiter or opens nothing. Every step of the machine is a chain of these
moves, so an invariant has to be checked against the moves only.
-/

namespace GatewayAdmission
namespace State

inductive Move (s : State) : State → Prop
  | create (origin : String) : Move s (s.createGatewayRootWorkAdmission origin).2
  | retain (id : AdmissionId) (known : id < s.nextAdmission)
      (live : (s.admissions id).released = false) : Move s (s.retainReference id).2
  | releaseHandle (handle : HandleId) (known : handle < s.nextHandle) :
      Move s (s.releaseHandle handle)
  | retire : Move s s.retireRootWork
  | addScope (scope : ContinuationScope) (current : scope.current < s.nextAdmission)
      (handle : ∀ handle ∈ scope.releaseAdmission, handle < s.nextHandle) :
      Move s { s with
        scopes := Function.update s.scopes s.nextScope scope
        nextScope := s.nextScope + 1 }
  | closeScope (scope : ScopeId) :
      Move s { s with
        scopes := Function.update s.scopes scope { s.scopes scope with released := true } }
  | wait (kind : WaiterKind) (closed : s.isGatewayWorkAdmissionClosed = true) :
      Move s (s.addWaiter kind)
  | fence {t : State} (ledger : t.ledger = s.ledger)
      (waiters : t.suspendOpenWaiters = [] ∨ t.suspendOpenWaiters = s.suspendOpenWaiters ∧
        (t.isGatewayWorkAdmissionClosed = false → s.isGatewayWorkAdmissionClosed = false))
      (suspend : s.suspendGeneration ≤ t.suspendGeneration)
      (restart : s.restartSignalGeneration ≤ t.restartSignalGeneration) : Move s t

abbrev Moves : State → State → Prop := Relation.ReflTransGen Move

/-- No waiter is left while admission is open. -/
def Served (s : State) : Prop :=
  s.isGatewayWorkAdmissionClosed = false → s.suspendOpenWaiters = []

theorem Counted.move {s t : State} (counted : s.Counted) (move : Move s t) : t.Counted := by
  cases move with
  | create origin => exact counted.create origin
  | retain id known live => exact counted.retain known live
  | releaseHandle handle known => exact counted.releaseHandle known
  | retire => exact counted.retireRootWork
  | addScope scope current handle => exact counted.addScope current handle
  | closeScope scope => exact counted.closeScope scope
  | wait kind closed => exact counted.of_ledger rfl
  | fence ledger waiters suspend restart => exact counted.of_ledger ledger

/-- The fields a release touches are those of the ledger. -/
theorem releaseHandle_fences (s : State) (handle : HandleId) :
    (s.releaseHandle handle).isGatewayWorkAdmissionClosed = s.isGatewayWorkAdmissionClosed ∧
      (s.releaseHandle handle).suspendOpenWaiters = s.suspendOpenWaiters ∧
      (s.releaseHandle handle).suspendGeneration = s.suspendGeneration ∧
      (s.releaseHandle handle).restartSignalGeneration = s.restartSignalGeneration := by
  by_cases ended : (s.handles handle).leaseReleased = true ∨
      (s.admissions (s.handles handle).admission).released = true
  · rw [releaseHandle_of_ended ended]
    exact ⟨rfl, rfl, rfl, rfl⟩
  · obtain ⟨uncalled, live⟩ := not_or.mp ended
    rw [releaseHandle_of_live (by simpa using uncalled) (by simpa using live)]
    exact ⟨rfl, rfl, rfl, rfl⟩

theorem Served.move {s t : State} (served : s.Served) (move : Move s t) : t.Served := by
  cases move with
  | create origin => exact served
  | retain id known live => exact served
  | releaseHandle handle known =>
      obtain ⟨closed, waiters, -, -⟩ := releaseHandle_fences s handle
      rw [Served, closed, waiters]
      exact served
  | retire => exact served
  | addScope scope current handle => exact served
  | closeScope scope => exact served
  | wait kind closed =>
      intro opened
      rw [show (s.addWaiter kind).isGatewayWorkAdmissionClosed = s.isGatewayWorkAdmissionClosed
        from rfl, closed] at opened
      cases opened
  | fence ledger waiters suspend restart =>
      intro opened
      cases waiters with
      | inl woken => exact woken
      | inr kept => rw [kept.1, served (kept.2 opened)]

theorem suspendGeneration_le_of_move {s t : State} (move : Move s t) :
    s.suspendGeneration ≤ t.suspendGeneration := by
  cases move with
  | releaseHandle handle known => exact (releaseHandle_fences s handle).2.2.1.ge
  | fence ledger waiters suspend restart => exact suspend
  | _ => exact Nat.le_refl _

theorem restartSignalGeneration_le_of_move {s t : State} (move : Move s t) :
    s.restartSignalGeneration ≤ t.restartSignalGeneration := by
  cases move with
  | releaseHandle handle known => exact (releaseHandle_fences s handle).2.2.2.ge
  | fence ledger waiters suspend restart => exact restart
  | _ => exact Nat.le_refl _

namespace Moves

variable {s t : State}

theorem counted (moves : Moves s t) (start : s.Counted) : t.Counted := by
  induction moves with
  | refl => exact start
  | tail _ move ih => exact ih.move move

theorem served (moves : Moves s t) (start : s.Served) : t.Served := by
  induction moves with
  | refl => exact start
  | tail _ move ih => exact ih.move move

theorem suspendGeneration_le (moves : Moves s t) : s.suspendGeneration ≤ t.suspendGeneration := by
  induction moves with
  | refl => exact Nat.le_refl _
  | tail _ move ih => exact Nat.le_trans ih (suspendGeneration_le_of_move move)

theorem restartSignalGeneration_le (moves : Moves s t) :
    s.restartSignalGeneration ≤ t.restartSignalGeneration := by
  induction moves with
  | refl => exact Nat.le_refl _
  | tail _ move ih => exact Nat.le_trans ih (restartSignalGeneration_le_of_move move)

theorem tryBegin_rootWork (current : Option AdmissionId) (origin : String) :
    Moves s (s.tryBeginGatewayRootWorkAdmission current origin).2 := by
  simp only [tryBeginGatewayRootWorkAdmission]
  split
  · exact .refl
  split
  · exact .refl
  · exact .single (.create origin)

theorem tryBegin_independent (origin : String) :
    Moves s (s.tryBeginGatewayIndependentRootWorkAdmission origin).2 := by
  simp only [tryBeginGatewayIndependentRootWorkAdmission]
  split
  · exact .refl
  · exact .single (.create origin)

theorem tryBegin_startup : Moves s s.tryBeginGatewayRestartStartupRootWorkAdmission.2 := by
  simp only [tryBeginGatewayRestartStartupRootWorkAdmission]
  split
  · exact .refl
  · exact .single (.create _)

theorem tryBegin_prepared : Moves s s.tryBeginGatewayPreparedRestartRootWorkAdmission.2 := by
  simp only [tryBeginGatewayPreparedRestartRootWorkAdmission]
  split
  · exact .refl
  · exact .single (.create _)

/-- A refused admission found admission closed and leaves the state alone. -/
theorem rootWork_refused {t : State} {current : Option AdmissionId} {origin : String}
    (refused : s.tryBeginGatewayRootWorkAdmission current origin = (none, t)) :
    t = s ∧ s.isGatewayWorkAdmissionClosed = true := by
  simp only [tryBeginGatewayRootWorkAdmission] at refused
  split at refused
  · cases refused
  split at refused
  case isTrue closed =>
    cases refused
    exact ⟨rfl, closed⟩
  case isFalse => cases refused

theorem independent_refused {t : State} {origin : String}
    (refused : s.tryBeginGatewayIndependentRootWorkAdmission origin = (none, t)) :
    t = s ∧ s.isGatewayWorkAdmissionClosed = true := by
  simp only [tryBeginGatewayIndependentRootWorkAdmission] at refused
  split at refused
  case isTrue closed =>
    cases refused
    exact ⟨rfl, closed⟩
  case isFalse => cases refused

theorem whenOpen (current : Option AdmissionId) (origin : String) :
    Moves s (s.beginGatewayRootWorkAdmissionWhenOpen current origin) := by
  rw [beginGatewayRootWorkAdmissionWhenOpen]
  split
  · exact .refl
  split
  case h_1 lease t result =>
    have moves := tryBegin_rootWork (s := s) current origin
    rwa [result] at moves
  case h_2 t result =>
    obtain ⟨rfl, closed⟩ := rootWork_refused result
    exact .single (.wait _ closed)

theorem runIndependent (origin : String) :
    Moves s (s.runWithGatewayIndependentRootWorkAdmission origin) := by
  rw [runWithGatewayIndependentRootWorkAdmission]
  split
  · exact .refl
  split
  case h_1 lease t result =>
    have moves := tryBegin_independent (s := s) origin
    rwa [result] at moves
  case h_2 t result =>
    obtain ⟨rfl, closed⟩ := independent_refused result
    exact .single (.wait _ closed)

theorem runReadmission (current : Option AdmissionId) :
    Moves s (s.runWithGatewayRootWorkReadmission current) := by
  cases current with
  | none => exact .refl
  | some id =>
      simp only [runWithGatewayRootWorkReadmission]
      split
      · exact runIndependent _
      · exact .refl

theorem runContinuation (current : Option AdmissionId) (origin : String) :
    Moves s (s.runWithGatewayIndependentRootWorkContinuation current origin) := by
  rw [runWithGatewayIndependentRootWorkContinuation]
  split
  · exact .single (.create origin)
  · exact runIndependent origin

theorem waitForFence : Moves s s.waitForGatewayRestartFenceSettlement := by
  rw [waitForGatewayRestartFenceSettlement]
  split
  case isTrue pending =>
    exact .single (.wait _ (by simp [isGatewayWorkAdmissionClosed, pending]))
  case isFalse => exact .refl

theorem resumeWaiter (kind : WaiterKind) : Moves s (s.resumeWaiter kind) := by
  cases kind with
  | rootWork current origin => exact whenOpen current origin
  | independent origin => exact runIndependent origin
  | restartFence => exact waitForFence

theorem createScope (start : s.Counted) (current : Option AdmissionId) (retainRoot : Bool) :
    Moves s (s.createGatewayRootWorkAdmissionContinuationScope current retainRoot).2 := by
  rw [createGatewayRootWorkAdmissionContinuationScope]
  split
  · exact .refl
  split
  · exact .refl
  case h_2.isFalse id _ active =>
    obtain ⟨known, live⟩ := (start.active id).mp (not_not.mp active)
    cases retainRoot with
    | false =>
        exact .single (.addScope { current := id } known (by simp))
    | true =>
        refine .tail (.single (.retain id known live))
          (.addScope { current := id, releaseAdmission := some s.nextHandle } known ?_)
        intro handle same
        rw [← Option.mem_some.mp same]
        exact Nat.lt_succ_self _

theorem releaseScope (start : s.Counted) {scope : ScopeId} (known : scope < s.nextScope) :
    Moves s (s.releaseScope scope) := by
  simp only [State.releaseScope]
  split
  · exact .refl
  split
  case h_1 handle held =>
    exact .tail (.single (.closeScope scope))
      (.releaseHandle handle ((start.scopes scope known).2 handle held))
  case h_2 => exact .single (.closeScope scope)

theorem runScope (start : s.Counted) (scope : ScopeId) : Moves s (s.runScope scope).2 := by
  simp only [State.runScope]
  split
  case isTrue => exact .refl
  case isFalse guards =>
    have active : (s.scopes scope).current ∈ s.activeRootWork := by
      by_contra inactive
      exact guards (by simp [inactive])
    obtain ⟨known, live⟩ := (start.active _).mp active
    exact .single (.retain _ known live)

end Moves
end State
end GatewayAdmission
