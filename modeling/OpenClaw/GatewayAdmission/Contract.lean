import OpenClaw.GatewayAdmission.Draining

/-!
The contract of root work admission, for every interleaving of its operations: the
ledger of roots, the inertness of spent handles and of outdated leases, the one-way
drain, and the waiters of a reopening.
-/

namespace GatewayAdmission
namespace State

variable {s t : State}

/-- The handle was called or its admission has ended. -/
def Spent (s : State) (handle : HandleId) : Prop :=
  handle < s.nextHandle ∧ ((s.handles handle).leaseReleased = true ∨
    (s.admissions (s.handles handle).admission).released = true)

theorem spent_of_ledger {handle : HandleId} (spent : s.Spent handle) (same : t.ledger = s.ledger) :
    t.Spent handle := by
  simp only [ledger, Ledger.mk.injEq] at same
  obtain ⟨-, admissions, handles, -, -, nextHandle, -⟩ := same
  rw [Spent, admissions, handles, nextHandle]
  exact spent

/-- Releasing a handle spends it. -/
theorem spent_releaseHandle {handle : HandleId} (known : handle < s.nextHandle) :
    (s.releaseHandle handle).Spent handle := by
  by_cases ended : (s.handles handle).leaseReleased = true ∨
      (s.admissions (s.handles handle).admission).released = true
  · rw [releaseHandle_of_ended ended]
    exact ⟨known, ended⟩
  · obtain ⟨uncalled, live⟩ := not_or.mp ended
    rw [releaseHandle_of_live (by simpa using uncalled) (by simpa using live)]
    exact ⟨known, .inl (by simp)⟩

/-- A spent handle stays spent. -/
theorem Spent.move {handle : HandleId} (spent : s.Spent handle) (counted : s.Counted)
    (move : Move s t) : t.Spent handle := by
  obtain ⟨known, done⟩ := spent
  have older : handle ≠ s.nextHandle := Nat.ne_of_lt known
  cases move with
  | create origin =>
      have owner : (s.handles handle).admission ≠ s.nextAdmission :=
        Nat.ne_of_lt (counted.handles handle known)
      refine ⟨Nat.lt_succ_of_lt known, ?_⟩
      simpa [createGatewayRootWorkAdmission, createGatewayRootWorkRelease, older, owner] using done
  | retain id _ live =>
      refine ⟨Nat.lt_succ_of_lt known, ?_⟩
      simp only [retainReference, createGatewayRootWorkRelease, Function.update_of_ne older]
      by_cases same : (s.handles handle).admission = id
      · simpa [same] using done
      · simpa [same] using done
  | releaseHandle other below =>
      by_cases ended : (s.handles other).leaseReleased = true ∨
          (s.admissions (s.handles other).admission).released = true
      · rw [releaseHandle_of_ended ended]
        exact ⟨known, done⟩
      · obtain ⟨uncalled, live⟩ := not_or.mp ended
        rw [releaseHandle_of_live (by simpa using uncalled) (by simpa using live)]
        refine ⟨known, ?_⟩
        by_cases same : handle = other
        · simp [same]
        · simp only [Function.update_of_ne same]
          by_cases shared : (s.handles handle).admission = (s.handles other).admission
          · rw [shared] at done
            exact .inl (done.resolve_right live)
          · simpa [shared] using done
  | retire =>
      refine ⟨known, done.imp_right fun released => ?_⟩
      simp only [retireRootWork]
      split
      · rfl
      · exact released
  | addScope scope current held => exact ⟨known, done⟩
  | closeScope scope => exact ⟨known, done⟩
  | wait kind closed => exact ⟨known, done⟩
  | fence ledger waiters suspend restart => exact spent_of_ledger ⟨known, done⟩ ledger

theorem Spent.moves {handle : HandleId} (spent : s.Spent handle) (counted : s.Counted)
    (moves : Moves s t) : t.Spent handle := by
  induction moves with
  | refl => exact spent
  | tail before move ih => exact ih.move (Moves.counted before counted) move

/-- A reset spends every handle there is. -/
theorem spent_retireRootWork (counted : s.Counted) {handle : HandleId}
    (known : handle < s.nextHandle) : s.retireRootWork.Spent handle := by
  have owner := counted.handles handle known
  refine ⟨known, .inr ?_⟩
  by_cases active : (s.handles handle).admission ∈ s.activeRootWork
  · simp [retireRootWork, active]
  · have ended := (counted.active _).not.mp active
    simpa [retireRootWork, active, owner] using ended

end State

namespace Machine

open State (Moves)

variable {m n : Machine}

theorem spent_of_reset (counted : m.state.Counted) (reset : RunsReset m .run)
    (taken : step m .run = some n) {handle : HandleId} (known : handle < m.state.nextHandle) :
    n.state.Spent handle := by
  have retired := State.spent_retireRootWork counted known
  simp only [step] at taken
  split at taken
  case h_3 rest _ =>
    cases taken
    simp only [runResetAborted]
    split
    · rw [invalidate_state]
      exact State.spent_of_ledger retired rfl
    · exact State.spent_of_ledger retired rfl
  all_goals simp_all [RunsReset]

/-- The operations of a suspend lease of another generation. -/
def SuspendInert (m : Machine) (generation : Nat) : Prop :=
  m.suspendDrain generation = (false, m) ∧ m.suspendCommit generation = (false, m) ∧
    m.suspendRollback generation = (false, m) ∧ m.suspendRelease generation = (false, m)

theorem transition_outdated {generation : Nat} (outdated : generation ≠ m.state.suspendGeneration)
    (expected next : SuspendPhase) : m.transition generation expected next = (false, m) := by
  simp [transition, State.transition, outdated.symm, pushIf]

theorem suspendInert_of_outdated {generation : Nat}
    (outdated : generation ≠ m.state.suspendGeneration) : m.SuspendInert generation := by
  have failed := fun expected next => transition_outdated outdated expected next
  refine ⟨failed _ _, ?_, failed _ _, ?_⟩
  · simp only [suspendCommit, failed, Bool.false_eq_true, if_false]
  · simp only [suspendRelease, failed, Bool.false_eq_true, if_false]

theorem rollback_outdated {generation : Nat}
    (outdated : generation ≠ m.state.restartSignalGeneration) :
    m.rollbackRestartSignal generation = (false, m) := by
  simp [rollbackRestartSignal, State.rollbackRestartSignal, outdated.symm]

/-- What callers of root work admission rely on. -/
structure Contract (m : Machine) : Prop where
  active_iff_live : ∀ id, id ∈ m.state.activeRootWork ↔
    id < m.state.nextAdmission ∧ (m.state.admissions id).released = false
  live_iff_referenced : ∀ id, id < m.state.nextAdmission →
    ((m.state.admissions id).released = false ↔ 0 < (m.state.admissions id).references)
  references_count : ∀ id, id < m.state.nextAdmission → (m.state.admissions id).references =
    if (m.state.admissions id).released then 0 else ((m.state.unreleased id).card : Int)
  /-- A handle that was released once does nothing any more. -/
  release_once : ∀ handle n, step m (.call (.releaseHandle handle)) = some n →
    ∀ r, Transition.Reaches step Transition.Any n r → r.state.releaseHandle handle = r.state
  /-- A handle that a reset leaves behind does nothing any more. -/
  release_after_reset : ∀ handle n, handle < m.state.nextHandle → RunsReset m .run →
    step m .run = some n →
    ∀ r, Transition.Reaches step Transition.Any n r → r.state.releaseHandle handle = r.state
  suspend_outdated : ∀ generation, generation ≠ m.state.suspendGeneration →
    m.SuspendInert generation
  suspend_outdated_forever : ∀ generation, generation < m.state.suspendGeneration →
    ∀ r, Transition.Reaches step Transition.Any m r → r.SuspendInert generation
  restart_outdated : ∀ generation, generation ≠ m.state.restartSignalGeneration →
    m.rollbackRestartSignal generation = (false, m)
  restart_outdated_forever : ∀ generation, generation < m.state.restartSignalGeneration →
    ∀ r, Transition.Reaches step Transition.Any m r →
      r.rollbackRestartSignal generation = (false, r)
  /-- Up to the body of a reset a drain stays on and admits no root of its own. -/
  drain_one_way : m.state.restartDraining = true →
    ∀ r, Transition.Reaches step (fun x label => ¬ RunsReset x label) m r →
      r.state.restartDraining = true ∧
      ∀ label n, step r label = some n → ¬ RunsReset r label →
        n.state.nextAdmission = r.state.nextAdmission ∨ AdmitsWhileDraining r.state label
  no_waiter_missed : m.state.restartDraining = false → m.state.restartSignalPending = false →
    m.state.suspendPhase = .accepting → m.state.suspendOpenWaiters = []

theorem counted_of_reaches {ok : Machine → Label → Prop}
    (run : Transition.Reaches step ok m n) (counted : m.state.Counted) : n.state.Counted :=
  run.invariant (P := fun x => x.state.Counted) counted fun _ _ _ known _ taken =>
    (moves_of_step known taken).counted known

theorem moves_of_reaches {ok : Machine → Label → Prop} (run : Transition.Reaches step ok m n)
    (counted : m.state.Counted) : Moves m.state n.state := by
  induction run with
  | refl => exact .refl
  | tail before _ taken ih =>
      exact ih.trans (moves_of_step (counted_of_reaches before counted) taken)

theorem counted_initial : ({} : Machine).state.Counted := by
  refine ⟨fun id => ?_, fun id known => ?_, fun id known => ?_, fun id known => ?_,
    fun handle known => ?_, fun scope known => ?_⟩
  · simp
  all_goals exact absurd known (Nat.not_lt_zero _)

theorem served_initial : ({} : Machine).state.Served := fun _ => rfl

theorem root_work_admission_contract {m : Machine}
    (run : Transition.Reaches step Transition.Any {} m) : Contract m := by
  have counted := counted_of_reaches run counted_initial
  have served : m.state.Served := (moves_of_reaches run counted_initial).served served_initial
  refine ⟨counted.active, counted.references, fun id known => ?_, ?_, ?_, ?_, ?_, ?_, ?_, ?_, ?_⟩
  · cases released : (m.state.admissions id).released with
    | true => simpa using counted.ended id known released
    | false => simpa using counted.counted id known released
  · intro handle n taken r later
    have next := (moves_of_step counted taken).counted counted
    have spent : n.state.Spent handle := by
      simp only [step] at taken
      split at taken
      case isTrue guards =>
        cases taken
        exact State.spent_releaseHandle (by simpa [knows] using (Bool.and_eq_true_iff.mp guards).2)
      case isFalse => cases taken
    exact State.releaseHandle_of_ended (spent.moves next (moves_of_reaches later next)).2
  · intro handle n known reset taken r later
    have next := (moves_of_step counted taken).counted counted
    have spent := spent_of_reset counted reset taken known
    exact State.releaseHandle_of_ended (spent.moves next (moves_of_reaches later next)).2
  · exact fun generation outdated => suspendInert_of_outdated outdated
  · intro generation older r later
    have grown := (moves_of_reaches later counted).suspendGeneration_le
    exact suspendInert_of_outdated (Nat.ne_of_lt (Nat.lt_of_lt_of_le older grown))
  · exact fun generation outdated => rollback_outdated outdated
  · intro generation older r later
    have grown := (moves_of_reaches later counted).restartSignalGeneration_le
    exact rollback_outdated (Nat.ne_of_lt (Nat.lt_of_lt_of_le older grown))
  · intro draining r later
    have still : r.state.restartDraining = true :=
      later.invariant (P := fun x => x.state.restartDraining = true) draining
        fun _ _ _ on before taken => (draining_of_step on taken before).1
    exact ⟨still, fun label n taken before => (draining_of_step still taken before).2⟩
  · intro draining pending phase
    exact served (by simp [State.isGatewayWorkAdmissionClosed, draining, pending, phase])

/-- A root is retained across the release of its request, a suspension is drained while
a caller waits, and a restart supersedes it. -/
theorem contract_of_superseded_suspension : ∃ m : Machine,
    Transition.Reaches step Transition.Any {} m ∧
      (m.state.restartDraining = true ∧ m.state.activeRootWork = [0] ∧
        (m.state.admissions 0).references = 1 ∧ m.state.suspendOpenWaiters = []) ∧
      Contract m := by
  obtain ⟨m, run, reached⟩ := Transition.Reaches.exists_of_exec step Transition.Any {}
    (P := fun m : Machine => m.state.restartDraining = true ∧ m.state.activeRootWork = [0] ∧
      (m.state.admissions 0).references = 1 ∧ m.state.suspendOpenWaiters = [])
    [.call (.tryBeginGatewayRootWorkAdmission none "rpc"),
      .call (.createContinuationScope (some 0) true), .call (.releaseHandle 0),
      .call .tryBeginGatewaySuspendAdmission, .ret, .run, .call (.suspendDrain 1), .ret,
      .call (.beginGatewayRootWorkAdmissionWhenOpen none "timer"),
      .call .markGatewayRestartDraining, .ret, .run, .ret, .run, .ret]
    (by decide) (by decide)
  exact ⟨m, run, reached, root_work_admission_contract run⟩

end Machine
end GatewayAdmission
