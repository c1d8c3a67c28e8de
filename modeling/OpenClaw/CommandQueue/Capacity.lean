import OpenClaw.CommandQueue.Registry

/-!
The aggregate budget of a capacity group. A member occupies its active tasks
together with its unused reservation; a start within the reservation occupies
nothing new, a borrowing start is only admitted while the budget has room, and
every other move frees slots. The sum over the members therefore stays within the
budget, which in turn keeps a member below its reservation admissible.
-/

namespace CommandQueue
namespace QueueState

/-- What the members of a group occupy: active tasks and unused reservations. -/
def occupancy (q : QueueState) (group : LaneGroupState) : Count :=
  .fin (q.readGroupCapacity group).active + (q.readGroupCapacity group).reserved

theorem readGroupCapacity_eq (q : QueueState) (group : LaneGroupState) :
    q.readGroupCapacity group =
      ⟨(group.members.map q.getMemberActiveCount).sum,
        (group.members.map fun lane =>
          (group.reservation lane).shortfall (q.getMemberActiveCount lane)).sum⟩ := by
  have fold : ∀ (members : List String) (capacity : GroupCapacity),
      members.foldl (fun capacity member =>
        { active := capacity.active + q.getMemberActiveCount member
          reserved := capacity.reserved +
            (group.reservation member).shortfall (q.getMemberActiveCount member) : GroupCapacity })
        capacity =
      ⟨capacity.active + (members.map q.getMemberActiveCount).sum,
        capacity.reserved + (members.map fun lane =>
          (group.reservation lane).shortfall (q.getMemberActiveCount lane)).sum⟩ := by
    intro members
    induction members with
    | nil =>
        intro capacity
        simp only [List.foldl_nil, List.map_nil, List.sum_nil, add_zero]
    | cons member members ih =>
        intro capacity
        rw [List.foldl_cons, ih]
        simp only [List.map_cons, List.sum_cons, add_assoc]
  simp only [readGroupCapacity]
  rw [fold]
  simp only [← Count.zero_eq, zero_add]

theorem fin_sum_add (members : List String) (active : String → Nat) (reserved : String → Count) :
    Count.fin (members.map active).sum + (members.map reserved).sum =
      (members.map fun lane => Count.fin (active lane) + reserved lane).sum := by
  induction members with
  | nil => rfl
  | cons member members ih =>
      simp only [List.map_cons, List.sum_cons, ← ih, ← Count.fin_add_fin]
      exact add_add_add_comm _ _ _ _

theorem occupancy_eq (q : QueueState) (group : LaneGroupState) :
    q.occupancy group = (group.members.map fun lane =>
      Count.occupied (q.getMemberActiveCount lane) (group.reservation lane)).sum := by
  simp only [occupancy, readGroupCapacity_eq]
  exact fin_sum_add _ _ _

/-- The capacity clause: the group does not exceed its budget. -/
def WithinBudget (q : QueueState) (group : LaneGroupState) : Prop :=
  (q.occupancy group).le group.budget = true

instance (q : QueueState) (group : LaneGroupState) : Decidable (q.WithinBudget group) :=
  inferInstanceAs (Decidable (_ = true))

/-- Freeing slots, or starting tasks outside the group, keeps the budget. -/
theorem WithinBudget.ease {q r : QueueState} {group : LaneGroupState} (fits : q.WithinBudget group)
    (eases : ∀ lane ∈ group.members, r.getMemberActiveCount lane ≤ q.getMemberActiveCount lane) :
    r.WithinBudget group := by
  simp only [WithinBudget, occupancy_eq] at *
  have finite := Count.sum_ne_nan.mp (Count.ne_nan_of_le fits)
  exact Count.le_trans
    (Count.sum_le_sum fun lane mem => Count.occupied_mono (eases lane mem) (finite lane mem)) fits

/-- A start admitted by the group keeps the budget. -/
theorem WithinBudget.start {q r : QueueState} {group : LaneGroupState} {lane : String}
    (fits : q.WithinBudget group) (mem : lane ∈ group.members)
    (admissible : q.resolveGroupBlockReason group lane (q.readGroupCapacity group) = none)
    (starts : r.getMemberActiveCount lane = q.getMemberActiveCount lane + 1)
    (others : ∀ other, other ≠ lane → r.getMemberActiveCount other = q.getMemberActiveCount other) :
    r.WithinBudget group := by
  have room : (group.reservation lane).isAbove (q.getMemberActiveCount lane) = true ∨
      (q.occupancy group).lt group.budget = true := by
    simp only [resolveGroupBlockReason] at admissible
    split at admissible
    · cases admissible
    · split at admissible
      · exact .inl ‹_›
      · split at admissible
        · exact .inr ‹_›
        · cases admissible
  cases within : (group.reservation lane).isAbove (q.getMemberActiveCount lane) with
  | true =>
      have same : r.occupancy group = q.occupancy group := by
        simp only [occupancy_eq]
        refine congrArg List.sum (List.map_congr_left fun other _ => ?_)
        by_cases here : other = lane
        · rw [here, starts, Count.occupied_succ_of_isAbove within]
        · rw [others other here]
      simpa only [WithinBudget, same] using fits
  | false =>
      have below := room.resolve_left (by simp [within])
      have next : r.occupancy group = q.occupancy group + .fin 1 := by
        simp only [occupancy_eq]
        refine Count.sum_succ_of_mem group.nodup mem ?_ fun other differs => ?_
        · rw [starts, Count.occupied_succ_of_not_isAbove within]
        · rw [others other differs]
      simpa only [WithinBudget, next] using Count.succ_le_of_lt below

/-- While the budget holds, a member below its own reservation is not blocked. -/
theorem WithinBudget.not_blocked {q : QueueState} {group : LaneGroupState} {lane : String}
    (fits : q.WithinBudget group) (mem : lane ∈ group.members)
    (below : (group.reservation lane).isAbove (q.getMemberActiveCount lane) = true) :
    q.resolveGroupBlockReason group lane (q.readGroupCapacity group) = none := by
  have room : group.budget.isReachedBy (q.readGroupCapacity group).active = false := by
    simp only [WithinBudget, occupancy, readGroupCapacity_eq] at fits ⊢
    have unused : (Count.fin 1).le ((group.members.map fun lane =>
        (group.reservation lane).shortfall (q.getMemberActiveCount lane)).sum) = true := by
      have finite := Count.sum_ne_nan.mp (Count.add_ne_nan.mp (Count.ne_nan_of_le fits)).2
      exact Count.le_trans (Count.one_le_shortfall below)
        (Count.le_sum_of_mem (f := fun lane =>
          (group.reservation lane).shortfall (q.getMemberActiveCount lane)) mem finite)
    exact Count.not_isReachedBy_of_add_le unused fits
  simp [resolveGroupBlockReason, room, below]

/-- Replacing one lane state changes the count of its registered lane only. -/
theorem getMemberActiveCount_update {q r : QueueState} {id : LaneId} {state : LaneState}
    (lanes : r.lanes = q.lanes) (states : r.states = Function.update q.states id state)
    (lane : String) :
    r.getMemberActiveCount lane =
      if q.lookupLane lane = some id then state.activeTaskIds.length
      else q.getMemberActiveCount lane := by
  simp only [getMemberActiveCount, lookupLane, lanes, states]
  rcases Option.eq_none_or_eq_some (q.lanes.lookup lane) with found | ⟨other, found⟩
  · simp [found]
  · by_cases same : other = id <;> simp [found, same]

theorem getMemberActiveCount_createLane {q : QueueState} (wf : q.WellNamed) (lane other : String) :
    (q.createLane lane).getMemberActiveCount other = q.getMemberActiveCount other := by
  simp only [getMemberActiveCount, lookupLane_createLane]
  cases found : q.lookupLane other with
  | some id =>
      have known := (wf.named found).1
      simp [createLane, Nat.ne_of_lt known]
  | none =>
      by_cases here : other = lane
      · simp [here, createLane]
      · simp [here]

/-- The active counts a move can leave behind: no more than before, or one more in
a lane its group admits. -/
theorem Move.activeCounts {q r : QueueState} (move : Move q r) (wf : q.WellNamed) :
    (∀ lane, r.getMemberActiveCount lane ≤ q.getMemberActiveCount lane) ∨
    ∃ lane, q.canAdmitInGroup lane ∧
      r.getMemberActiveCount lane = q.getMemberActiveCount lane + 1 ∧
      ∀ other, other ≠ lane → r.getMemberActiveCount other = q.getMemberActiveCount other := by
  have same : ∀ {n : Nat} {lane : String} {id : LaneId}, q.lookupLane lane = some id →
      (q.states id).activeTaskIds.length = n → n = q.getMemberActiveCount lane := by
    intro n lane id found count
    simp [getMemberActiveCount, found, count]
  have eases : ∀ (r : QueueState) (id : LaneId) (state : LaneState), r.lanes = q.lanes →
      r.states = Function.update q.states id state →
      state.activeTaskIds.length ≤ (q.states id).activeTaskIds.length →
      ∀ lane, r.getMemberActiveCount lane ≤ q.getMemberActiveCount lane := by
    intro r id state lanes states fewer lane
    rw [getMemberActiveCount_update lanes states]
    split
    · rename_i found
      rw [← same found rfl]
      exact fewer
    · exact le_rfl
  cases move with
  | create lane absent => exact .inl fun other => (getMemberActiveCount_createLane wf lane other).le
  | guard id => exact .inl (eases _ id _ rfl rfl le_rfl)
  | arbitrate => exact .inl fun _ => le_rfl
  | retire id =>
      rcases retire_eq q id with unchanged | ⟨idle, -, -, -, dropped⟩
      · rw [unchanged]
        exact .inl fun _ => le_rfl
      · rw [dropped]
        refine .inl fun lane => ?_
        simp only [getMemberActiveCount, lookupLane, lookup_filter_ne]
        by_cases here : lane = (q.states id).lane
        · simp [here]
        · simp [here]
  | push _ id => exact .inl (eases _ id _ rfl rfl le_rfl)
  | unlink entry => exact .inl (eases _ (q.entries entry).state _ rfl rfl le_rfl)
  | clear id => exact .inl (eases _ id _ rfl rfl le_rfl)
  | reset id => exact .inl (eases _ id _ rfl rfl (Nat.zero_le _))
  | complete task =>
      simp only [completeTask]
      split
      · exact .inl fun _ => le_rfl
      · exact .inl (eases _ task.state _ rfl rfl (List.length_filter_le _ _))
  | width id => exact .inl (eases _ id _ rfl rfl le_rfl)
  | start id lane entry rest owner admissible head =>
      have counts : ∀ other, (q.commitAdmission id lane entry rest).getMemberActiveCount other =
          if q.lookupLane other = some id then (q.states id).activeTaskIds.length + 1
          else q.getMemberActiveCount other := by
        intro other
        have taken := getMemberActiveCount_update (q := q) (r := q.takeEntry id entry rest)
          rfl rfl other
        have admitted := getMemberActiveCount_update (q := q.takeEntry id entry rest)
          (r := q.commitAdmission id lane entry rest) rfl rfl other
        rw [admitted, taken]
        change (if q.lookupLane other = some id then _ else _) = _
        split
        · simp [takeEntry, updateState, updateEntry]
        · rfl
      by_cases registered : q.lookupLane lane = some id
      · refine .inr ⟨lane, admissible, ?_, fun other differs => ?_⟩
        · rw [counts lane, if_pos registered, same registered rfl]
        · rw [counts other, if_neg]
          intro found
          exact differs ((wf.named found).2.symm.trans owner.2)
      · refine .inl fun other => ?_
        rw [counts other, if_neg]
        intro found
        rw [(wf.named found).2.symm.trans owner.2] at found
        exact registered found
  | settle => exact .inl fun _ => le_rfl

theorem Consistent.getLaneGroup {q : QueueState} (consistent : q.Consistent) {group lane : String}
    {state : LaneGroupState} (found : q.groups group = some state) (named : group ≠ "")
    (mem : lane ∈ state.members) : q.getLaneGroup lane = some state := by
  have owned := (consistent.byLane lane group).mpr ⟨state, found, mem⟩
  simp [QueueState.getLaneGroup, owned, named, found]

/-- Moves keep a group within its budget. -/
theorem Moves.withinBudget {q r : QueueState} (moves : Moves q r) (wf : q.WellNamed)
    (consistent : q.Consistent) {group : String} {state : LaneGroupState}
    (found : q.groups group = some state) (named : group ≠ "") (fits : q.WithinBudget state) :
    r.WithinBudget state := by
  induction moves with
  | refl => exact fits
  | @tail r s moves move ih =>
      have same := Moves.registry moves
      have registered : r.groups group = some state := (Prod.mk.inj same).1 ▸ found
      have lookup : ∀ lane ∈ state.members, r.getLaneGroup lane = some state := fun lane mem =>
        (consistent.of_registry same).getLaneGroup registered named mem
      rcases move.activeCounts (Changes.wellNamed (Moves.changes moves) wf) with
        eases | ⟨lane, admissible, starts, others⟩
      · exact ih.ease fun lane _ => eases lane
      · by_cases mem : lane ∈ state.members
        · simp only [canAdmitInGroup, lookup lane mem, decide_eq_true_eq] at admissible
          exact ih.start mem admissible starts others
        · refine ih.ease fun other otherMem => (others other ?_).le
          rintro rfl
          exact mem otherMem

end QueueState

namespace Machine
open QueueState

/-- Labels of work under a fixed configuration. -/
def Working (_ : Machine) (label : Label) : Prop := label.isWork

instance (m : Machine) (label : Label) : Decidable (m.Working label) :=
  inferInstanceAs (Decidable (label.isWork = true))

theorem working_moves {m n : Machine} (sound : m.Sound)
    (run : Transition.Reaches step Working m n) : m.Extends n := by
  induction run with
  | refl => exact sound.refl
  | tail _ work taken ih => exact ih.trans (step_extends ih.sound work taken)

/-- A named group that fits its budget once it is published fits it in every state
reached by work, and never blocks a member below its own reservation. -/
theorem capacity_group_honours_reservations {m n : Machine} {group : String}
    {state : LaneGroupState} (published : Transition.Reaches step Named {} m)
    (found : m.queue.groups group = some state) (named : group ≠ "")
    (fits : m.queue.WithinBudget state) (work : Transition.Reaches step Working m n) :
    n.queue.WithinBudget state ∧
    ∀ lane ∈ state.members,
      (state.reservation lane).isAbove (n.queue.getMemberActiveCount lane) = true →
      n.queue.resolveGroupBlockReason state lane (n.queue.readGroupCapacity state) = none ∧
      n.queue.canAdmitInGroup lane ∧
      (n.queue.blockedBy lane = some .lane ∨ n.queue.blockedBy lane = none) := by
  have sound := reaches_sound published
  have consistent := reaches_consistent published
  have moves := (working_moves sound work).moves
  have kept : n.queue.WithinBudget state :=
    Moves.withinBudget moves sound.wellNamed consistent found named fits
  have same := Moves.registry moves
  have registered : n.queue.groups group = some state := (Prod.mk.inj same).1 ▸ found
  refine ⟨kept, fun lane mem below => ?_⟩
  have free := kept.not_blocked mem below
  have lookup := (consistent.of_registry same).getLaneGroup registered named mem
  have own : (((n.queue.lookupLane lane).map n.queue.states).getD { lane := lane }).lane = lane := by
    cases reg : n.queue.lookupLane lane with
    | none => rfl
    | some id => exact ((working_moves sound work).sound.wellNamed.named reg).2
  refine ⟨free, by simp [canAdmitInGroup, lookup, free], ?_⟩
  simp only [blockedBy, own, lookup, free]
  split
  · exact .inl rfl
  · exact .inr rfl

def reservingSpec : CommandLaneGroupSpec :=
  { budget := .real 2, members := ["a", "b"], reservations := [("b", .real 1)] }

def publishReserving (group : String) : Label :=
  .call 0 (.publishLaneConfiguration
    { lanes := [("a", .real 3)], groups := [(group, reservingSpec)] })

def enqueue (lane : String) : Label := .call 0 (.enqueueCommandInLane lane {})

/-- With one slot reserved for `b`, two enqueues on `a` leave that slot free. -/
theorem reserved_slot_stays_free : ∃ m n state, Transition.Reaches step Named {} m ∧
    m.queue.groups "g" = some state ∧ Transition.Reaches step Working m n ∧
    n.queue.getMemberActiveCount "a" = 1 ∧ n.queue.WithinBudget state ∧
    n.queue.resolveGroupBlockReason state "b" (n.queue.readGroupCapacity state) = none := by
  let work : List Label := [enqueue "a", .run 0, .run 0, .run 0, .run 0, .run 0,
    enqueue "a", .run 0, .run 0]
  obtain ⟨m, published, installed⟩ := Transition.Reaches.exists_of_exec step Named {} (P := fun m => Transition.Permits step Working work m ∧
      (m.queue.groups "g").any (fun state => m.queue.WithinBudget state ∧ "b" ∈ state.members ∧
        (Transition.exec step work m).any fun n => n.queue.getMemberActiveCount "a" = 1 ∧
          (state.reservation "b").isAbove (n.queue.getMemberActiveCount "b")))
    [publishReserving "g", .run 0, .run 0, .run 0] (by decide) (by decide)
  obtain ⟨permitted, installed⟩ := installed
  obtain ⟨state, found, checked⟩ := (Option.any_eq_true _ _).mp installed
  obtain ⟨fits, mem, executed⟩ := of_decide_eq_true checked
  obtain ⟨n, executed, counts⟩ := (Option.any_eq_true _ _).mp executed
  obtain ⟨active, below⟩ := of_decide_eq_true counts
  have run : Transition.Reaches step Working m n := .of_exec executed permitted
  obtain ⟨kept, honours⟩ :=
    capacity_group_honours_reservations published found (by decide) fits run
  exact ⟨m, n, state, published, found, run, active, kept, (honours "b" mem below).1⟩

/-- The group with the empty id does not bound its members: two slots are taken by
`a` and the one reserved for `b` is gone. -/
theorem unnamed_group_exceeds_budget : ∃ m n state, Transition.Reaches step Transition.Any {} m ∧
    m.queue.groups "" = some state ∧ m.queue.WithinBudget state ∧
    Transition.Reaches step Working m n ∧ ¬n.queue.WithinBudget state := by
  let work : List Label := [enqueue "a", .run 0, .run 0, .run 0, enqueue "a", .run 0, .run 0, .run 0]
  obtain ⟨m, published, installed⟩ := Transition.Reaches.exists_of_exec step Transition.Any {} (P := fun m => Transition.Permits step Working work m ∧
      (m.queue.groups "").any (fun state => m.queue.WithinBudget state ∧
        (Transition.exec step work m).any fun n => ¬n.queue.WithinBudget state))
    [publishReserving "", .run 0, .run 0, .run 0] (by decide) (by decide)
  obtain ⟨permitted, installed⟩ := installed
  obtain ⟨state, found, checked⟩ := (Option.any_eq_true _ _).mp installed
  obtain ⟨fits, executed⟩ := of_decide_eq_true checked
  obtain ⟨n, executed, exceeds⟩ := (Option.any_eq_true _ _).mp executed
  exact ⟨m, n, state, published, found, fits, .of_exec executed permitted,
    of_decide_eq_true exceeds⟩

end Machine
end CommandQueue
