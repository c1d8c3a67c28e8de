import OpenClaw.GatewayAdmission.Machine

/-!
The ledger of root admissions: an admission is active exactly while it is not
released, which is exactly while it has references, and each reference is one
release handle that has not been called. A reset zeroes the references of every
active admission; the handles it leaves behind no longer do anything.
-/

namespace GatewayAdmission
namespace State

/-- The handles of an admission that have not been called. -/
def unreleased (s : State) (id : AdmissionId) : Finset HandleId :=
  (Finset.range s.nextHandle).filter fun handle =>
    (s.handles handle).admission = id ∧ (s.handles handle).leaseReleased = false

structure Counted (s : State) : Prop where
  active : ∀ id, id ∈ s.activeRootWork ↔
    id < s.nextAdmission ∧ (s.admissions id).released = false
  references : ∀ id, id < s.nextAdmission →
    ((s.admissions id).released = false ↔ 0 < (s.admissions id).references)
  counted : ∀ id, id < s.nextAdmission → (s.admissions id).released = false →
    (s.admissions id).references = (s.unreleased id).card
  ended : ∀ id, id < s.nextAdmission → (s.admissions id).released = true →
    (s.admissions id).references = 0
  handles : ∀ handle, handle < s.nextHandle → (s.handles handle).admission < s.nextAdmission
  scopes : ∀ scope, scope < s.nextScope → (s.scopes scope).current < s.nextAdmission ∧
    ∀ handle ∈ (s.scopes scope).releaseAdmission, handle < s.nextHandle

theorem mem_unreleased {s : State} {id : AdmissionId} {handle : HandleId} :
    handle ∈ s.unreleased id ↔ handle < s.nextHandle ∧ (s.handles handle).admission = id ∧
      (s.handles handle).leaseReleased = false := by
  simp [unreleased]

theorem unreleased_congr {s t : State} {id : AdmissionId} (next : t.nextHandle = s.nextHandle)
    (handles : t.handles = s.handles) : t.unreleased id = s.unreleased id := by
  simp only [unreleased, next, handles]

/-- The fields of the ledger. -/
structure Ledger where
  activeRootWork : List AdmissionId
  admissions : AdmissionId → RootWorkAdmission
  handles : HandleId → ReleaseHandle
  scopes : ScopeId → ContinuationScope
  nextAdmission : Nat
  nextHandle : Nat
  nextScope : Nat

def ledger (s : State) : Ledger where
  activeRootWork := s.activeRootWork
  admissions := s.admissions
  handles := s.handles
  scopes := s.scopes
  nextAdmission := s.nextAdmission
  nextHandle := s.nextHandle
  nextScope := s.nextScope

theorem Counted.of_ledger {s t : State} (counted : s.Counted) (same : t.ledger = s.ledger) :
    t.Counted := by
  simp only [ledger, Ledger.mk.injEq] at same
  obtain ⟨active, admissions, handles, scopes, nextAdmission, nextHandle, nextScope⟩ := same
  refine ⟨?_, ?_, fun id known live => ?_, ?_, ?_, ?_⟩
  · rw [active, admissions, nextAdmission]
    exact counted.active
  · rw [admissions, nextAdmission]
    exact counted.references
  · rw [unreleased_congr nextHandle handles, admissions]
    rw [admissions] at live
    exact counted.counted id (nextAdmission ▸ known) live
  · rw [admissions, nextAdmission]
    exact counted.ended
  · rw [handles, nextAdmission, nextHandle]
    exact counted.handles
  · rw [scopes, nextAdmission, nextHandle, nextScope]
    exact counted.scopes

/-- A new handle of an admission adds it to its unreleased handles. -/
theorem unreleased_createRelease {s : State} (admission id : AdmissionId) :
    (s.createGatewayRootWorkRelease admission).2.unreleased id =
      if id = admission then insert s.nextHandle (s.unreleased id) else s.unreleased id := by
  ext handle
  by_cases new : handle = s.nextHandle
  · subst new
    by_cases same : id = admission
    · simp [mem_unreleased, createGatewayRootWorkRelease, same]
    · simp [mem_unreleased, createGatewayRootWorkRelease, same, Ne.symm same]
  · have older : handle < s.nextHandle + 1 ↔ handle < s.nextHandle :=
      Nat.lt_succ_iff_lt_or_eq.trans (or_iff_left new)
    by_cases same : id = admission
    · simp [mem_unreleased, createGatewayRootWorkRelease, same, new, older]
    · simp [mem_unreleased, createGatewayRootWorkRelease, same, new, older]

theorem nextHandle_notMem_unreleased (s : State) (id : AdmissionId) :
    s.nextHandle ∉ s.unreleased id := by
  simp [mem_unreleased]

theorem Counted.create {s : State} (counted : s.Counted) (origin : String) :
    (s.createGatewayRootWorkAdmission origin).2.Counted := by
  have unreleased : ∀ id, (s.createGatewayRootWorkAdmission origin).2.unreleased id =
      if id = s.nextAdmission then insert s.nextHandle (s.unreleased id) else s.unreleased id :=
    fun id => unreleased_createRelease (s := { s with
      admissions := Function.update s.admissions s.nextAdmission
        { origin := normalizeOrigin origin, references := 1 }
      activeRootWork := s.activeRootWork ++ [s.nextAdmission]
      nextAdmission := s.nextAdmission + 1 }) s.nextAdmission id
  have fresh : s.unreleased s.nextAdmission = ∅ := by
    refine Finset.eq_empty_of_forall_notMem fun handle mem => ?_
    obtain ⟨known, owner, -⟩ := mem_unreleased.mp mem
    exact absurd (owner ▸ counted.handles handle known) (Nat.lt_irrefl _)
  have older : ∀ {id}, id < s.nextAdmission + 1 → id ≠ s.nextAdmission → id < s.nextAdmission :=
    fun below differs => Nat.lt_of_le_of_ne (Nat.le_of_lt_succ below) differs
  refine ⟨fun id => ?_, fun id known => ?_, fun id known live => ?_, fun id known ended => ?_,
    fun handle known => ?_, fun scope known => ?_⟩
  · simp only [createGatewayRootWorkAdmission, createGatewayRootWorkRelease, List.mem_append,
      List.mem_singleton, counted.active]
    by_cases new : id = s.nextAdmission
    · simp [new]
    · simp only [new, or_false, Function.update_of_ne new]
      exact and_congr_left fun _ => ⟨Nat.lt_succ_of_lt, fun below => older below new⟩
  · simp only [createGatewayRootWorkAdmission, createGatewayRootWorkRelease]
    by_cases new : id = s.nextAdmission
    · simp [new]
    · rw [Function.update_of_ne new]
      exact counted.references id (older known new)
  · rw [unreleased]
    simp only [createGatewayRootWorkAdmission, createGatewayRootWorkRelease] at live ⊢
    by_cases new : id = s.nextAdmission
    · simp [new, fresh]
    · rw [Function.update_of_ne new] at live ⊢
      rw [if_neg new]
      exact counted.counted id (older known new) live
  · simp only [createGatewayRootWorkAdmission, createGatewayRootWorkRelease] at ended ⊢
    by_cases new : id = s.nextAdmission
    · simp [new] at ended
    · rw [Function.update_of_ne new] at ended ⊢
      exact counted.ended id (older known new) ended
  · simp only [createGatewayRootWorkAdmission, createGatewayRootWorkRelease] at known ⊢
    by_cases new : handle = s.nextHandle
    · simp [new]
    · rw [Function.update_of_ne new]
      exact Nat.lt_succ_of_lt
        (counted.handles handle (Nat.lt_of_le_of_ne (Nat.le_of_lt_succ known) new))
  · obtain ⟨current, handle⟩ := counted.scopes scope known
    exact ⟨Nat.lt_succ_of_lt current, fun held mem => Nat.lt_succ_of_lt (handle held mem)⟩

/-- A live admission gains a reference together with a handle. -/
theorem Counted.retain {s : State} (counted : s.Counted) {id : AdmissionId}
    (known : id < s.nextAdmission) (live : (s.admissions id).released = false) :
    (s.retainReference id).2.Counted := by
  have unreleased : ∀ other, (s.retainReference id).2.unreleased other =
      if other = id then insert s.nextHandle (s.unreleased other) else s.unreleased other :=
    fun other => unreleased_createRelease (s := { s with
      admissions := Function.update s.admissions id
        { s.admissions id with references := (s.admissions id).references + 1 } }) id other
  have positive := (counted.references id known).mp live
  refine ⟨fun other => ?_, fun other below => ?_, fun other below still => ?_,
    fun other below ended => ?_, fun handle below => ?_, fun scope below => ?_⟩
  · simp only [retainReference, createGatewayRootWorkRelease, counted.active]
    by_cases same : other = id
    · simp [same]
    · simp [same]
  · simp only [retainReference, createGatewayRootWorkRelease]
    by_cases same : other = id
    · subst same
      simp only [Function.update_self, live, true_iff]
      omega
    · rw [Function.update_of_ne same]
      exact counted.references other below
  · rw [unreleased]
    simp only [retainReference, createGatewayRootWorkRelease] at still ⊢
    by_cases same : other = id
    · subst same
      rw [if_pos rfl, Finset.card_insert_of_notMem (nextHandle_notMem_unreleased s other)]
      simp [counted.counted other below live]
    · rw [Function.update_of_ne same] at still ⊢
      rw [if_neg same]
      exact counted.counted other below still
  · simp only [retainReference, createGatewayRootWorkRelease] at ended ⊢
    by_cases same : other = id
    · subst same
      simp [live] at ended
    · rw [Function.update_of_ne same] at ended ⊢
      exact counted.ended other below ended
  · simp only [retainReference, createGatewayRootWorkRelease] at below ⊢
    by_cases new : handle = s.nextHandle
    · simpa [new] using known
    · rw [Function.update_of_ne new]
      exact counted.handles handle (Nat.lt_of_le_of_ne (Nat.le_of_lt_succ below) new)
  · obtain ⟨current, handle⟩ := counted.scopes scope below
    exact ⟨current, fun held mem => Nat.lt_succ_of_lt (handle held mem)⟩

/-- A handle that was called, or whose admission has ended, changes nothing. -/
theorem releaseHandle_of_ended {s : State} {handle : HandleId}
    (ended : (s.handles handle).leaseReleased = true ∨
      (s.admissions (s.handles handle).admission).released = true) :
    s.releaseHandle handle = s := by
  simp only [releaseHandle]
  rcases ended with called | released
  · simp [called]
  · simp [released]

/-- An uncalled handle of a live admission takes its reference away; the last one ends
the admission. -/
theorem releaseHandle_of_live {s : State} {handle : HandleId}
    (uncalled : (s.handles handle).leaseReleased = false)
    (live : (s.admissions (s.handles handle).admission).released = false) :
    s.releaseHandle handle = { s with
      handles := Function.update s.handles handle { s.handles handle with leaseReleased := true }
      admissions := Function.update s.admissions (s.handles handle).admission
        { s.admissions (s.handles handle).admission with
          references := (s.admissions (s.handles handle).admission).references - 1
          released := decide ((s.admissions (s.handles handle).admission).references ≤ 1) }
      activeRootWork := if (s.admissions (s.handles handle).admission).references ≤ 1 then
        s.activeRootWork.filter (· ≠ (s.handles handle).admission) else s.activeRootWork } := by
  simp only [releaseHandle, uncalled, live, Bool.or_self, Bool.false_eq_true, if_false,
    Function.update_self]
  by_cases last : (s.admissions (s.handles handle).admission).references ≤ 1
  · rw [if_neg (by omega)]
    simp [last]
  · rw [if_pos (by omega)]
    simp [last]

theorem unreleased_releaseHandle {s : State} {handle : HandleId}
    (uncalled : (s.handles handle).leaseReleased = false)
    (live : (s.admissions (s.handles handle).admission).released = false) (id : AdmissionId) :
    (s.releaseHandle handle).unreleased id = (s.unreleased id).erase handle := by
  rw [releaseHandle_of_live uncalled live]
  ext other
  rw [Finset.mem_erase, mem_unreleased, mem_unreleased]
  by_cases same : other = handle
  · simp [same]
  · simp [same]

theorem Counted.releaseHandle {s : State} (counted : s.Counted) {handle : HandleId}
    (known : handle < s.nextHandle) : (s.releaseHandle handle).Counted := by
  by_cases ended : (s.handles handle).leaseReleased = true ∨
      (s.admissions (s.handles handle).admission).released = true
  · rw [releaseHandle_of_ended ended]
    exact counted
  obtain ⟨uncalled, live⟩ := not_or.mp ended
  rw [Bool.not_eq_true] at uncalled live
  have owner := counted.handles handle known
  have mine : handle ∈ s.unreleased (s.handles handle).admission :=
    mem_unreleased.mpr ⟨known, rfl, uncalled⟩
  have card := counted.counted _ owner live
  have rest := Finset.card_erase_add_one mine
  have erased := unreleased_releaseHandle uncalled live
  have elsewhere : ∀ id, id ≠ (s.handles handle).admission →
      (s.unreleased id).erase handle = s.unreleased id := fun id differs =>
    Finset.erase_eq_of_notMem fun mem => differs (mem_unreleased.mp mem).2.1.symm
  have result := releaseHandle_of_live uncalled live
  refine ⟨fun id => ?_, fun id below => ?_, fun id below still => ?_, fun id below ended => ?_,
    fun other below => ?_, fun scope below => ?_⟩
  · simp only [result]
    by_cases same : id = (s.handles handle).admission
    · subst same
      by_cases last : (s.admissions (s.handles handle).admission).references ≤ 1
      · simp [last]
      · simp [last, counted.active, live]
    · by_cases last : (s.admissions (s.handles handle).admission).references ≤ 1
      · simp [last, same, counted.active]
      · simp [last, same, counted.active]
  · simp only [result] at below ⊢
    by_cases same : id = (s.handles handle).admission
    · subst same
      simp
    · rw [Function.update_of_ne same]
      exact counted.references id below
  · rw [erased]
    simp only [result] at below still ⊢
    by_cases same : id = (s.handles handle).admission
    · subst same
      simp only [Function.update_self]
      omega
    · rw [Function.update_of_ne same] at still ⊢
      rw [elsewhere id same]
      exact counted.counted id below still
  · simp only [result] at below ended ⊢
    by_cases same : id = (s.handles handle).admission
    · subst same
      simp only [Function.update_self, decide_eq_true_eq] at ended ⊢
      omega
    · rw [Function.update_of_ne same] at ended ⊢
      exact counted.ended id below ended
  · simp only [result] at below ⊢
    by_cases same : other = handle
    · simpa [same] using owner
    · rw [Function.update_of_ne same]
      exact counted.handles other below
  · simp only [result] at below ⊢
    exact counted.scopes scope below

/-- After a reset no admission is active and none has references. -/
theorem Counted.retireRootWork {s : State} (counted : s.Counted) : s.retireRootWork.Counted := by
  have retired : ∀ id, id < s.nextAdmission →
      (s.retireRootWork.admissions id).released = true := by
    intro id known
    by_cases active : id ∈ s.activeRootWork
    · simp [State.retireRootWork, active]
    · have ended := (counted.active id).not.mp active
      simpa [State.retireRootWork, active, known] using ended
  refine ⟨fun id => ?_, fun id known => ?_, fun id known live => ?_, fun id known ended => ?_,
    counted.handles, counted.scopes⟩
  · simp only [State.retireRootWork, List.not_mem_nil, false_iff]
    rintro ⟨known, live⟩
    exact absurd (retired id known) (by simp [State.retireRootWork, live])
  · by_cases active : id ∈ s.activeRootWork
    · simp [State.retireRootWork, active]
    · simpa [State.retireRootWork, active] using counted.references id known
  · rw [retired id known] at live
    cases live
  · by_cases active : id ∈ s.activeRootWork
    · simp [State.retireRootWork, active]
    · simp only [State.retireRootWork, active, if_false] at ended ⊢
      exact counted.ended id known ended

/-- A scope of a known admission with a known handle. -/
theorem Counted.addScope {s : State} (counted : s.Counted) {scope : ContinuationScope}
    (current : scope.current < s.nextAdmission)
    (handle : ∀ handle ∈ scope.releaseAdmission, handle < s.nextHandle) :
    { s with
      scopes := Function.update s.scopes s.nextScope scope
      nextScope := s.nextScope + 1 : State }.Counted := by
  refine ⟨counted.active, counted.references, counted.counted, counted.ended, counted.handles,
    fun other below => ?_⟩
  by_cases new : other = s.nextScope
  · simpa [new] using ⟨current, handle⟩
  · simp only [Function.update_of_ne new]
    exact counted.scopes other (Nat.lt_of_le_of_ne (Nat.le_of_lt_succ below) new)

theorem Counted.closeScope {s : State} (counted : s.Counted) (scope : ScopeId) :
    { s with
      scopes := Function.update s.scopes scope
        { s.scopes scope with released := true } : State }.Counted := by
  refine ⟨counted.active, counted.references, counted.counted, counted.ended, counted.handles,
    fun other below => ?_⟩
  by_cases same : other = scope
  · subst same
    simpa using counted.scopes other below
  · simp only [Function.update_of_ne same]
    exact counted.scopes other below

end State
end GatewayAdmission
