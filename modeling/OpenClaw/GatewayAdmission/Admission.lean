import OpenClaw.GatewayAdmission.Moves

/-!
Invariants of root work admission over whole runs: the ledger counts the uncalled
handles, leases of an older generation are inert for good, a restart drain only ends
by a reset and admits no new roots meanwhile, and no waiter misses a reopening.
-/

namespace GatewayAdmission
namespace State

variable {s : State}

namespace Moves

theorem resolveWaiters : Moves s s.resolveSuspendOpenWaiters :=
  .single (.fence rfl (.inl rfl) (Nat.le_refl _) (Nat.le_refl _))

theorem invalidateSuspend : Moves s s.invalidateSuspendAdmission :=
  .single (.fence rfl (.inl rfl) (Nat.le_succ _) (Nat.le_refl _))

theorem clearFence : Moves s s.clearRestartSignalFence.2 := by
  rw [clearRestartSignalFence]
  split
  · exact .refl
  · exact .single (.fence rfl (.inl rfl) (Nat.le_refl _) (Nat.le_succ _))

theorem rollbackFence (generation : Nat) : Moves s (s.rollbackRestartSignal generation).2 := by
  rw [rollbackRestartSignal]
  split
  · exact .refl
  · exact clearFence

/-- A change after which admission is closed wakes nobody. -/
theorem closing {t : State} (ledger : t.ledger = s.ledger)
    (waiters : t.suspendOpenWaiters = s.suspendOpenWaiters)
    (closed : t.isGatewayWorkAdmissionClosed = true)
    (suspend : s.suspendGeneration ≤ t.suspendGeneration)
    (restart : s.restartSignalGeneration ≤ t.restartSignalGeneration) : Moves s t :=
  .single (.fence ledger (.inr ⟨waiters, fun opened => by simp [closed] at opened⟩) suspend restart)

theorem beginFence : Moves s s.beginGatewayRestartSignalAdmission.2 := by
  rw [beginGatewayRestartSignalAdmission]
  split
  · exact .refl
  · exact closing rfl rfl (by simp [isGatewayWorkAdmissionClosed]) (Nat.le_refl _) (Nat.le_succ _)

theorem transition (generation : Nat) (expected next : SuspendPhase) :
    Moves s (s.transition generation expected next).2 := by
  simp only [State.transition]
  split
  · exact .refl
  split
  case isTrue => exact .single (.fence rfl (.inl rfl) (Nat.le_refl _) (Nat.le_refl _))
  case isFalse differs =>
    exact closing rfl rfl (by simp [isGatewayWorkAdmissionClosed, differs]) (Nat.le_refl _)
      (Nat.le_refl _)

/-- A change of data that neither the ledger nor the fences read. -/
theorem aside {t : State} (ledger : t.ledger = s.ledger)
    (waiters : t.suspendOpenWaiters = s.suspendOpenWaiters)
    (closed : t.isGatewayWorkAdmissionClosed = s.isGatewayWorkAdmissionClosed)
    (suspend : t.suspendGeneration = s.suspendGeneration)
    (restart : t.restartSignalGeneration = s.restartSignalGeneration) : Moves s t :=
  .single (.fence ledger (.inr ⟨waiters, fun opened => closed ▸ opened⟩) suspend.ge restart.ge)

end Moves
end State

namespace Machine

open State (Moves)

variable {m n : Machine}

@[simp] theorem push_state (frame : Frame) : (m.push frame).state = m.state := rfl

@[simp] theorem pushIf_state (condition : Bool) (frame : Frame) :
    (m.pushIf condition frame).state = m.state := by
  cases condition <;> rfl

@[simp] theorem withState_state (s : State) : (m.withState s).state = s := rfl

@[simp] theorem abortDrain_state :
    m.abortDrain.state = { m.state with restartDrainAborted := true } := by
  simp [abortDrain]

@[simp] theorem invalidate_state :
    m.invalidate.state = m.state.invalidateSuspendAdmission := by
  simp [invalidate]

@[simp] theorem transition_state (generation : Nat) (expected next : SuspendPhase) :
    (m.transition generation expected next).2.state =
      (m.state.transition generation expected next).2 := by
  simp [transition]

theorem moves_markDraining : Moves m.state m.markGatewayRestartDraining.state := by
  rw [markGatewayRestartDraining]
  split
  · exact .refl
  · rw [abortDrain_state]
    exact .closing rfl rfl rfl (Nat.le_refl _) (Nat.le_succ _)

theorem moves_runMarkAborted : Moves m.state m.runMarkAborted.state := by
  rw [runMarkAborted]
  split
  · rw [invalidate_state]
    exact Moves.resolveWaiters.trans Moves.invalidateSuspend
  · exact .resolveWaiters

theorem moves_reset : Moves m.state m.resetGatewayWorkAdmission.state := by
  rw [resetGatewayWorkAdmission, abortDrain_state]
  exact .aside rfl rfl rfl rfl rfl

theorem moves_runResetAborted : Moves m.state m.runResetAborted.state := by
  have retire : Moves m.state m.state.retireRootWork := .single .retire
  simp only [runResetAborted]
  split
  · rw [invalidate_state]
    refine retire.tail (.fence rfl (.inl rfl) (Nat.le_succ _) (Nat.le_succ _))
  · exact retire.tail (.fence rfl (.inl rfl) (Nat.le_succ _) (Nat.le_succ _))

theorem moves_suspendBegin : Moves m.state m.tryBeginGatewaySuspendAdmission.state := by
  rw [tryBeginGatewaySuspendAdmission]
  split
  · exact .refl
  · exact .closing rfl rfl (by simp [State.isGatewayWorkAdmissionClosed]) (Nat.le_succ _)
      (Nat.le_refl _)

/-- Two attempts at a transition, the second if the first fails. -/
theorem moves_suspendCommit (generation : Nat) :
    Moves m.state (m.suspendCommit generation).2.state := by
  have first := Moves.transition (s := m.state) generation .preparing .prepared
  simp only [suspendCommit]
  split
  · rw [transition_state]
    exact first
  · rw [transition_state, transition_state]
    exact first.trans (Moves.transition _ _ _)

theorem moves_suspendRelease (generation : Nat) :
    Moves m.state (m.suspendRelease generation).2.state := by
  have first := Moves.transition (s := m.state) generation .draining .accepting
  simp only [suspendRelease]
  split
  · rw [transition_state]
    exact first
  · rw [transition_state, transition_state]
    exact first.trans (Moves.transition _ _ _)

theorem moves_begin (counted : m.state.Counted) {operation : Operation}
    (known : knows m.state operation = true) : Moves m.state (m.begin operation).state := by
  cases operation with
  | tryBeginGatewayRootWorkAdmission current origin => exact .tryBegin_rootWork current origin
  | tryBeginGatewayRestartStartupRootWorkAdmission => exact .tryBegin_startup
  | tryBeginGatewayPreparedRestartRootWorkAdmission => exact .tryBegin_prepared
  | beginGatewayRootWorkAdmissionWhenOpen current origin => exact .whenOpen current origin
  | runWithGatewayIndependentRootWorkAdmission origin => exact .runIndependent origin
  | runWithGatewayRootWorkReadmission current => exact .runReadmission current
  | runWithGatewayIndependentRootWorkContinuation current origin =>
      exact .runContinuation current origin
  | waitForGatewayRestartFenceSettlement => exact .waitForFence
  | releaseHandle handle =>
      exact .single (.releaseHandle handle (by simpa [knows] using known))
  | createContinuationScope current retainRoot => exact .createScope counted current retainRoot
  | releaseScope scope => exact .releaseScope counted (by simpa [knows] using known)
  | runScope scope => exact .runScope counted scope
  | tryBeginGatewaySuspendAdmission => exact moves_suspendBegin
  | suspendDrain generation =>
      exact transition_state generation _ _ ▸ Moves.transition generation _ _
  | suspendCommit generation => exact moves_suspendCommit generation
  | suspendRollback generation =>
      exact transition_state generation _ _ ▸ Moves.transition generation _ _
  | suspendRelease generation => exact moves_suspendRelease generation
  | beginGatewayRestartSignalAdmission => exact .beginFence
  | rollbackRestartSignal generation => exact .rollbackFence generation
  | rollbackGatewayRestartSignalFence => exact .clearFence
  | markGatewayRestartDraining => exact moves_markDraining
  | resetGatewayWorkAdmission => exact moves_reset

/-- Every step is a chain of moves. -/
theorem moves_of_step (counted : m.state.Counted) {label : Label} (taken : step m label = some n) :
    Moves m.state n.state := by
  cases label with
  | call operation =>
      simp only [step] at taken
      split at taken
      case isTrue guards =>
        cases taken
        exact moves_begin counted (Bool.and_eq_true_iff.mp guards).2
      case isFalse => cases taken
  | resume waiter =>
      simp only [step] at taken
      split at taken
      case isTrue =>
        cases taken
        have removed : Moves m.state { m.state with
            resolvedWaiters := m.state.resolvedWaiters.filter (· ≠ waiter) } :=
          .aside rfl rfl rfl rfl rfl
        exact removed.trans (Moves.resumeWaiter waiter.kind)
      case isFalse => cases taken
  | ret =>
      simp only [step] at taken
      split at taken
      · cases taken
        exact .refl
      · cases taken
  | throw =>
      simp only [step] at taken
      split at taken
      · cases taken
        exact .refl
      · cases taken
  | run =>
      simp only [step] at taken
      split at taken
      case h_1 rest _ =>
        cases taken
        exact moves_runMarkAborted (m := ⟨m.state, rest⟩)
      case h_2 =>
        cases taken
        rw [pushIf_state]
      case h_3 rest _ =>
        cases taken
        exact moves_runResetAborted (m := ⟨m.state, rest⟩)
      case h_4 =>
        cases taken
        exact .resolveWaiters
      case h_5 =>
        cases taken
        exact .aside rfl rfl rfl rfl rfl
      case h_6 => cases taken
      case h_7 => cases taken

end Machine
end GatewayAdmission
