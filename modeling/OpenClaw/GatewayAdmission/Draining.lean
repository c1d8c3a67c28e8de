import OpenClaw.GatewayAdmission.Admission

/-!
The one-way restart drain. While it lasts every admission is refused except the
restart-startup handshake and the continuation of a live parent; nothing but the body
of a reset ends it.
-/

namespace GatewayAdmission
namespace State

variable {s t u : State}

/-- The drain flag and the admissions made so far are the same. -/
structure Kept (s t : State) : Prop where
  draining : t.restartDraining = s.restartDraining
  admissions : t.nextAdmission = s.nextAdmission

namespace Kept

theorem refl : Kept s s := ⟨rfl, rfl⟩

theorem trans (first : Kept s t) (second : Kept t u) : Kept s u :=
  ⟨second.draining.trans first.draining, second.admissions.trans first.admissions⟩

theorem releaseHandle (handle : HandleId) : Kept s (s.releaseHandle handle) := by
  by_cases ended : (s.handles handle).leaseReleased = true ∨
      (s.admissions (s.handles handle).admission).released = true
  · rw [releaseHandle_of_ended ended]
    exact refl
  · obtain ⟨uncalled, live⟩ := not_or.mp ended
    rw [releaseHandle_of_live (by simpa using uncalled) (by simpa using live)]
    exact ⟨rfl, rfl⟩

theorem releaseScope (scope : ScopeId) : Kept s (s.releaseScope scope) := by
  simp only [State.releaseScope]
  split
  · exact refl
  have closed : Kept s { s with
      scopes := Function.update s.scopes scope { s.scopes scope with released := true } } :=
    ⟨rfl, rfl⟩
  split
  · exact closed.trans (releaseHandle _)
  · exact closed

theorem runScope (scope : ScopeId) : Kept s (s.runScope scope).2 := by
  simp only [State.runScope]
  split
  · exact refl
  · exact ⟨rfl, rfl⟩

theorem createScope (current : Option AdmissionId) (retainRoot : Bool) :
    Kept s (s.createGatewayRootWorkAdmissionContinuationScope current retainRoot).2 := by
  rw [createGatewayRootWorkAdmissionContinuationScope]
  split
  · exact refl
  split
  · exact refl
  · cases retainRoot <;> exact ⟨rfl, rfl⟩

theorem transition (generation : Nat) (expected next : SuspendPhase) :
    Kept s (s.transition generation expected next).2 := by
  simp only [State.transition]
  split
  · exact refl
  split <;> exact ⟨rfl, rfl⟩

theorem waitForFence : Kept s s.waitForGatewayRestartFenceSettlement := by
  rw [waitForGatewayRestartFenceSettlement]
  split <;> exact ⟨rfl, rfl⟩

end Kept

section Draining

variable (draining : s.restartDraining = true)
include draining

theorem tryBegin_rootWork_draining (current : Option AdmissionId) (origin : String) :
    (s.tryBeginGatewayRootWorkAdmission current origin).2 = s := by
  simp only [tryBeginGatewayRootWorkAdmission, draining, Bool.true_or, if_true]
  split <;> rfl

theorem tryBegin_prepared_draining :
    s.tryBeginGatewayPreparedRestartRootWorkAdmission.2 = s := by
  simp only [tryBeginGatewayPreparedRestartRootWorkAdmission, draining, Bool.true_or, if_true]

theorem whenOpen_draining (current : Option AdmissionId) (origin : String) :
    s.beginGatewayRootWorkAdmissionWhenOpen current origin = s := by
  rw [beginGatewayRootWorkAdmissionWhenOpen, if_pos draining]

theorem runIndependent_draining (origin : String) :
    s.runWithGatewayIndependentRootWorkAdmission origin = s := by
  rw [runWithGatewayIndependentRootWorkAdmission, if_pos draining]

theorem runReadmission_draining (current : Option AdmissionId) :
    s.runWithGatewayRootWorkReadmission current = s := by
  cases current with
  | none => rfl
  | some id =>
      simp only [runWithGatewayRootWorkReadmission, runIndependent_draining draining, ite_self]

theorem clearFence_draining : s.clearRestartSignalFence.2 = s := by
  rw [clearRestartSignalFence, if_pos (by simp [draining])]

theorem rollbackFence_draining (generation : Nat) :
    (s.rollbackRestartSignal generation).2 = s := by
  rw [rollbackRestartSignal]
  split
  · rfl
  · exact clearFence_draining draining

theorem beginFence_draining : s.beginGatewayRestartSignalAdmission.2 = s := by
  rw [beginGatewayRestartSignalAdmission, if_pos (by simp [draining])]

theorem resumeWaiter_draining (kind : WaiterKind) : Kept s (s.resumeWaiter kind) := by
  cases kind with
  | rootWork current origin =>
      rw [resumeWaiter, whenOpen_draining draining]
      exact Kept.refl
  | independent origin =>
      rw [resumeWaiter, runIndependent_draining draining]
      exact Kept.refl
  | restartFence => exact Kept.waitForFence

end Draining
end State

namespace Machine

open State (Kept)

variable {m n : Machine}

/-- The operations that may admit a root while the gateway drains. -/
def AdmitsWhileDraining (s : State) : Label → Prop
  | .call .tryBeginGatewayRestartStartupRootWorkAdmission => True
  | .call (.runWithGatewayIndependentRootWorkContinuation current _) =>
      (s.liveRoot current).isSome = true
  | _ => False

/-- The label runs the body of a reset. -/
def RunsReset (m : Machine) (label : Label) : Prop :=
  label = .run ∧ m.stack.head? = some .resetAborted

theorem startup_draining (draining : m.state.restartDraining = true) :
    m.state.tryBeginGatewayRestartStartupRootWorkAdmission.2.restartDraining = true := by
  rw [State.tryBeginGatewayRestartStartupRootWorkAdmission]
  split <;> exact draining

theorem continuation_draining (draining : m.state.restartDraining = true)
    (current : Option AdmissionId) (origin : String) :
    (m.state.runWithGatewayIndependentRootWorkContinuation current origin).restartDraining = true ∧
      ((m.state.liveRoot current).isSome = false →
        m.state.runWithGatewayIndependentRootWorkContinuation current origin = m.state) := by
  rw [State.runWithGatewayIndependentRootWorkContinuation]
  split
  case h_1 id live => exact ⟨draining, fun dead => by simp [live] at dead⟩
  case h_2 dead =>
    rw [State.runIndependent_draining draining]
    exact ⟨draining, fun _ => rfl⟩

theorem kept_commit (generation : Nat) : Kept m.state (m.suspendCommit generation).2.state := by
  have first := Kept.transition (s := m.state) generation .preparing .prepared
  simp only [suspendCommit]
  split
  · rw [transition_state]
    exact first
  · rw [transition_state, transition_state]
    exact first.trans (.transition _ _ _)

theorem kept_release (generation : Nat) : Kept m.state (m.suspendRelease generation).2.state := by
  have first := Kept.transition (s := m.state) generation .draining .accepting
  simp only [suspendRelease]
  split
  · rw [transition_state]
    exact first
  · rw [transition_state, transition_state]
    exact first.trans (.transition _ _ _)

theorem kept_begin (draining : m.state.restartDraining = true) (operation : Operation) :
    (m.begin operation).state.restartDraining = true ∧
      ((m.begin operation).state.nextAdmission = m.state.nextAdmission ∨
        AdmitsWhileDraining m.state (.call operation)) := by
  have of_kept : ∀ {t : State}, Kept m.state t → t.restartDraining = true ∧
      (t.nextAdmission = m.state.nextAdmission ∨
        AdmitsWhileDraining m.state (.call operation)) :=
    fun kept => ⟨kept.draining.trans draining, .inl kept.admissions⟩
  have of_same : ∀ {t : State}, t = m.state → t.restartDraining = true ∧
      (t.nextAdmission = m.state.nextAdmission ∨
        AdmitsWhileDraining m.state (.call operation)) :=
    fun same => of_kept (same ▸ Kept.refl)
  cases operation with
  | tryBeginGatewayRootWorkAdmission current origin =>
      exact of_same (State.tryBegin_rootWork_draining draining current origin)
  | tryBeginGatewayRestartStartupRootWorkAdmission =>
      exact ⟨startup_draining draining, .inr trivial⟩
  | tryBeginGatewayPreparedRestartRootWorkAdmission =>
      exact of_same (State.tryBegin_prepared_draining draining)
  | beginGatewayRootWorkAdmissionWhenOpen current origin =>
      exact of_same (State.whenOpen_draining draining current origin)
  | runWithGatewayIndependentRootWorkAdmission origin =>
      exact of_same (State.runIndependent_draining draining origin)
  | runWithGatewayRootWorkReadmission current =>
      exact of_same (State.runReadmission_draining draining current)
  | runWithGatewayIndependentRootWorkContinuation current origin =>
      obtain ⟨still, dead⟩ := continuation_draining draining current origin
      refine ⟨still, ?_⟩
      cases live : (m.state.liveRoot current).isSome with
      | true => exact .inr live
      | false => exact (of_same (dead live)).2
  | waitForGatewayRestartFenceSettlement => exact of_kept .waitForFence
  | releaseHandle handle => exact of_kept (.releaseHandle handle)
  | createContinuationScope current retainRoot => exact of_kept (.createScope current retainRoot)
  | releaseScope scope => exact of_kept (.releaseScope scope)
  | runScope scope => exact of_kept (.runScope scope)
  | tryBeginGatewaySuspendAdmission =>
      refine of_same ?_
      simp only [begin, tryBeginGatewaySuspendAdmission, draining, Bool.true_or, if_true]
  | suspendDrain generation =>
      exact of_kept (transition_state generation _ _ ▸ Kept.transition generation _ _)
  | suspendCommit generation => exact of_kept (kept_commit generation)
  | suspendRollback generation =>
      exact of_kept (transition_state generation _ _ ▸ Kept.transition generation _ _)
  | suspendRelease generation => exact of_kept (kept_release generation)
  | beginGatewayRestartSignalAdmission => exact of_same (State.beginFence_draining draining)
  | rollbackRestartSignal generation =>
      exact of_same (State.rollbackFence_draining draining generation)
  | rollbackGatewayRestartSignalFence => exact of_same (State.clearFence_draining draining)
  | markGatewayRestartDraining =>
      refine of_same ?_
      simp only [begin, markGatewayRestartDraining, draining, if_true]
  | resetGatewayWorkAdmission =>
      refine of_kept ?_
      simp only [begin, resetGatewayWorkAdmission, abortDrain_state]
      exact ⟨rfl, rfl⟩

/-- A step of a draining gateway other than the body of a reset. -/
theorem draining_of_step (draining : m.state.restartDraining = true) {label : Label}
    (taken : step m label = some n) (before : ¬ RunsReset m label) :
    n.state.restartDraining = true ∧ (n.state.nextAdmission = m.state.nextAdmission ∨
      AdmitsWhileDraining m.state label) := by
  have of_kept : Kept m.state n.state → n.state.restartDraining = true ∧
      (n.state.nextAdmission = m.state.nextAdmission ∨ AdmitsWhileDraining m.state label) :=
    fun kept => ⟨kept.draining.trans draining, .inl kept.admissions⟩
  cases label with
  | call operation =>
      simp only [step] at taken
      split at taken
      case isTrue =>
        cases taken
        exact kept_begin draining operation
      case isFalse => cases taken
  | resume waiter =>
      simp only [step] at taken
      split at taken
      case isTrue =>
        cases taken
        have removed : Kept m.state { m.state with
            resolvedWaiters := m.state.resolvedWaiters.filter (· ≠ waiter) } := ⟨rfl, rfl⟩
        exact of_kept (removed.trans
          (State.resumeWaiter_draining (removed.draining.trans draining) waiter.kind))
      case isFalse => cases taken
  | ret =>
      simp only [step] at taken
      split at taken
      · cases taken
        exact of_kept .refl
      · cases taken
  | throw =>
      simp only [step] at taken
      split at taken
      · cases taken
        exact of_kept .refl
      · cases taken
  | run =>
      simp only [step] at taken
      split at taken
      case h_1 rest _ =>
        cases taken
        refine of_kept ?_
        rw [runMarkAborted]
        split
        · rw [invalidate_state]
          exact ⟨rfl, rfl⟩
        · exact ⟨rfl, rfl⟩
      case h_2 =>
        cases taken
        refine of_kept ?_
        rw [pushIf_state]
        exact .refl
      case h_3 rest top => exact absurd ⟨rfl, by rw [top]; rfl⟩ before
      case h_4 =>
        cases taken
        exact of_kept ⟨rfl, rfl⟩
      case h_5 =>
        cases taken
        exact of_kept ⟨rfl, rfl⟩
      case h_6 => cases taken
      case h_7 => cases taken

end Machine
end GatewayAdmission
