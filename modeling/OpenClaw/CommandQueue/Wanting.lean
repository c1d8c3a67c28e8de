import Mathlib.Algebra.Order.BigOperators.Group.List
import OpenClaw.CommandQueue.Capacity

/-!
Lanes with startable work. A lane wants a drain when it has queued entries, a free
slot of its own, and a group (if any) that would admit it. Most changes never make
a lane want a drain that did not want one before; the exceptions name the lane or
the group that has to be drained.
-/

theorem Count.isReachedBy_mono {n m : Nat} {c : Count} (h : n ≤ m)
    (below : c.isReachedBy m = false) : c.isReachedBy n = false := by
  cases c <;> simp_all [isReachedBy]
  omega

theorem Count.isAbove_of_not_isReachedBy {n : Nat} {c : Count} (numeric : c ≠ .nan)
    (below : c.isReachedBy n = false) : c.isAbove n = true := by
  cases c <;> simp_all [isReachedBy, isAbove]

theorem Count.not_isReachedBy_of_isAbove {n : Nat} {c : Count} (above : c.isAbove n = true) :
    c.isReachedBy n = false := by
  cases c <;> simp_all [isReachedBy, isAbove]

namespace CommandQueue
namespace QueueState

/-- The lane has queued work that could start now. -/
def Wants (q : QueueState) (lane : String) : Prop :=
  ∃ id, q.lookupLane lane = some id ∧ 0 < (q.states id).queue.length ∧
    (q.states id).maxConcurrent.isAbove (q.states id).activeTaskIds.length = true ∧
    q.canAdmitInGroup lane = true

/-- The lanes served by draining `lane`: itself and the members of its group. -/
def Related (q : QueueState) (lane other : String) : Prop :=
  other = lane ∨ ∃ state, q.getLaneGroup lane = some state ∧ q.getLaneGroup other = some state

theorem resolveGroupBlockReason_eq_none {q : QueueState} {group : LaneGroupState} {lane : String} :
    q.resolveGroupBlockReason group lane (q.readGroupCapacity group) = none ↔
      group.budget.isReachedBy (group.members.map q.getMemberActiveCount).sum = false ∧
      ((group.reservation lane).isAbove (q.getMemberActiveCount lane) = true ∨
        (q.occupancy group).lt group.budget = true) := by
  have active : (q.readGroupCapacity group).active =
      (group.members.map q.getMemberActiveCount).sum := by rw [readGroupCapacity_eq]
  rw [← active]
  simp only [resolveGroupBlockReason, occupancy]
  cases group.budget.isReachedBy (q.readGroupCapacity group).active <;>
    cases (group.reservation lane).isAbove (q.getMemberActiveCount lane) <;>
    cases (Count.fin (q.readGroupCapacity group).active +
      (q.readGroupCapacity group).reserved).lt group.budget <;> simp

/-- With no fewer active tasks in the members, a group admits no more lanes. -/
theorem resolveGroupBlockReason_mono {q r : QueueState} {group : LaneGroupState} {lane : String}
    (own : q.getMemberActiveCount lane ≤ r.getMemberActiveCount lane)
    (counts : ∀ member ∈ group.members, q.getMemberActiveCount member ≤ r.getMemberActiveCount member)
    (open_ : r.resolveGroupBlockReason group lane (r.readGroupCapacity group) = none) :
    q.resolveGroupBlockReason group lane (q.readGroupCapacity group) = none := by
  rw [resolveGroupBlockReason_eq_none] at open_ ⊢
  refine ⟨Count.isReachedBy_mono (List.sum_le_sum counts) open_.1, open_.2.imp ?_ ?_⟩
  · exact Count.isAbove_of_le own
  · intro below
    simp only [occupancy_eq] at below ⊢
    have finite := Count.sum_ne_nan.mp (Count.ne_nan_of_le (Count.le_of_lt below))
    exact Count.lt_of_le_of_lt (Count.sum_le_sum fun member mem =>
      Count.occupied_mono (counts member mem) (finite member mem)) below

theorem getLaneGroup_registry {q r : QueueState} (same : r.registry = q.registry) (lane : String) :
    r.getLaneGroup lane = q.getLaneGroup lane := by
  obtain ⟨groups, groupByLane⟩ := Prod.mk.inj same
  simp only [getLaneGroup, groups, groupByLane]

theorem canAdmitInGroup_mono {q r : QueueState} {lane : String} (same : r.registry = q.registry)
    (own : q.getMemberActiveCount lane ≤ r.getMemberActiveCount lane)
    (counts : ∀ state, q.getLaneGroup lane = some state → ∀ member ∈ state.members,
      q.getMemberActiveCount member ≤ r.getMemberActiveCount member)
    (open_ : r.canAdmitInGroup lane = true) : q.canAdmitInGroup lane = true := by
  simp only [canAdmitInGroup, getLaneGroup_registry same] at open_ ⊢
  cases found : q.getLaneGroup lane with
  | none => rfl
  | some state =>
      simp only [found, decide_eq_true_eq] at open_ ⊢
      exact resolveGroupBlockReason_mono own (counts state found) open_

theorem getLaneGroup_eq_some {q : QueueState} {lane : String} {state : LaneGroupState} :
    q.getLaneGroup lane = some state ↔
      ∃ group, q.groupByLane lane = some group ∧ group ≠ "" ∧ q.groups group = some state := by
  simp only [getLaneGroup]
  cases q.groupByLane lane with
  | none => simp
  | some group => by_cases unnamed : group = "" <;> simp [unnamed]

/-- A member of a lane's group resolves to the same group. -/
theorem Consistent.sibling {q : QueueState} (consistent : q.Consistent) {lane other : String}
    {state : LaneGroupState} (found : q.getLaneGroup lane = some state) (mem : other ∈ state.members) :
    q.getLaneGroup other = some state := by
  obtain ⟨group, owned, named, registered⟩ := getLaneGroup_eq_some.mp found
  exact consistent.getLaneGroup registered named mem

theorem Consistent.mem_of_getLaneGroup {q : QueueState} (consistent : q.Consistent) {lane : String}
    {state : LaneGroupState} (found : q.getLaneGroup lane = some state) :
    lane ∈ state.members ∧ q.groups state.group = some state := by
  obtain ⟨group, owned, named, registered⟩ := getLaneGroup_eq_some.mp found
  obtain ⟨other, same, mem⟩ := (consistent.byLane lane group).mp owned
  cases registered.symm.trans same
  exact ⟨mem, (consistent.named group state registered).symm ▸ registered⟩

section Update

variable {q r : QueueState} {state : LaneState}

/-- Replacing a lane state by one with no more work and no fewer active tasks. -/
theorem Wants.of_update_le {lane : String} (wants : r.Wants lane) (id : LaneId)
    (lanes : r.lanes = q.lanes) (states : r.states = Function.update q.states id state)
    (same : r.registry = q.registry)
    (queue : 0 < state.queue.length → 0 < (q.states id).queue.length)
    (slots : state.maxConcurrent.isAbove state.activeTaskIds.length = true →
      (q.states id).maxConcurrent.isAbove (q.states id).activeTaskIds.length = true)
    (active : (q.states id).activeTaskIds.length ≤ state.activeTaskIds.length) : q.Wants lane := by
  have counts : ∀ lane, q.getMemberActiveCount lane ≤ r.getMemberActiveCount lane := by
    intro lane
    rw [getMemberActiveCount_update lanes states]
    split
    · rename_i found
      simpa [getMemberActiveCount, found] using active
    · exact le_rfl
  obtain ⟨other, found, queued, free, admissible⟩ := wants
  have found' : q.lookupLane lane = some other := by
    rw [lookupLane, ← lanes]
    exact found
  have admissible' := canAdmitInGroup_mono same (counts lane)
    (fun _ _ member _ => counts member) admissible
  rw [states] at queued free
  by_cases here : other = id
  · subst here
    rw [Function.update_self] at queued free
    exact ⟨other, found', queue queued, slots free, admissible'⟩
  · rw [Function.update_of_ne here] at queued free
    exact ⟨other, found', queued, free, admissible'⟩

/-- Replacing a lane state by one with as many active tasks concerns its lane only. -/
theorem Wants.of_update_eq {lane : String} (wants : r.Wants lane) (id : LaneId)
    (lanes : r.lanes = q.lanes) (states : r.states = Function.update q.states id state)
    (same : r.registry = q.registry)
    (active : state.activeTaskIds = (q.states id).activeTaskIds) :
    q.lookupLane lane = some id ∨ q.Wants lane := by
  have counts : ∀ lane, r.getMemberActiveCount lane = q.getMemberActiveCount lane := by
    intro lane
    rw [getMemberActiveCount_update lanes states]
    split
    · rename_i found
      simp [getMemberActiveCount, found, active]
    · rfl
  obtain ⟨other, found, queued, free, admissible⟩ := wants
  have found' : q.lookupLane lane = some other := by
    rw [lookupLane, ← lanes]
    exact found
  by_cases here : other = id
  · exact .inl (here ▸ found')
  · rw [states, Function.update_of_ne here] at queued free
    exact .inr ⟨other, found', queued, free, canAdmitInGroup_mono same (counts lane).ge
      (fun _ _ member _ => (counts member).ge) admissible⟩

/-- Any replacement of a lane state concerns its lane and the siblings in its group. -/
theorem Wants.of_update {lane : String} (wants : r.Wants lane) (id : LaneId) (wf : q.WellNamed)
    (consistent : q.Consistent) (lanes : r.lanes = q.lanes)
    (states : r.states = Function.update q.states id state) (same : r.registry = q.registry) :
    q.Wants lane ∨
      q.Related (q.states id).lane lane ∧ q.lookupLane (q.states id).lane = some id := by
  have counts : ∀ other, q.lookupLane other ≠ some id →
      r.getMemberActiveCount other = q.getMemberActiveCount other := by
    intro other elsewhere
    rw [getMemberActiveCount_update lanes states, if_neg elsewhere]
  obtain ⟨other, found, queued, free, admissible⟩ := wants
  have found' : q.lookupLane lane = some other := by
    rw [lookupLane, ← lanes]
    exact found
  by_cases here : other = id
  · subst here
    have own := (wf.named found').2
    exact .inr ⟨.inl own.symm, own ▸ found'⟩
  · rw [states, Function.update_of_ne here] at queued free
    have elsewhere : q.lookupLane lane ≠ some id := fun same => here (by simpa [found'] using same)
    by_cases sibling : ∃ group, q.getLaneGroup lane = some group ∧
        ∃ member ∈ group.members, q.lookupLane member = some id
    · obtain ⟨group, mine, member, mem, registered⟩ := sibling
      have own := (wf.named registered).2
      refine .inr ⟨.inr ⟨group, ?_, mine⟩, own ▸ registered⟩
      rw [own]
      exact consistent.sibling mine mem
    · refine .inl ⟨other, found', queued, free, canAdmitInGroup_mono same (counts lane elsewhere).ge
        (fun group mine member mem => (counts member fun registered => ?_).ge) admissible⟩
      exact sibling ⟨group, mine, member, mem, registered⟩

end Update

/-- A fresh lane wants nothing. -/
theorem Wants.of_createLane {q : QueueState} (wf : q.WellNamed) {lane other : String}
    (wants : (q.createLane lane).Wants other) : q.Wants other := by
  obtain ⟨id, found, queued, free, admissible⟩ := wants
  rw [lookupLane_createLane] at found
  cases known : q.lookupLane other with
  | some id' =>
      simp only [known, Option.some_or, Option.some.injEq] at found
      subst found
      have born := (wf.named known).1
      simp only [createLane, Function.update_of_ne (Nat.ne_of_lt born)] at queued free
      exact ⟨id', known, queued, free, canAdmitInGroup_mono (r := q.createLane lane) rfl
        (getMemberActiveCount_createLane wf lane other).ge
        (fun _ _ member _ => (getMemberActiveCount_createLane wf lane member).ge) admissible⟩
  | none =>
      simp only [known, Option.none_or] at found
      split at found
      · cases found
        simp [createLane, LaneQueue.length] at queued
      · cases found

theorem Wants.of_getLaneState {q : QueueState} (wf : q.WellNamed) {lane other : String}
    (wants : (q.getLaneState lane).2.Wants other) : q.Wants other := by
  simp only [getLaneState] at wants
  split at wants
  · exact wants
  · exact wants.of_createLane wf

theorem Wants.of_retire {q : QueueState} {id : LaneId} {lane : String}
    (wants : (q.retireIdleScopedCommandLane id).Wants lane) : q.Wants lane := by
  rcases retire_eq q id with same | ⟨idle, -, -, registered, dropped⟩
  · rwa [same] at wants
  · rw [dropped] at wants
    obtain ⟨other, found, queued, free, admissible⟩ := wants
    let r : QueueState := { q with lanes := q.lanes.filter (·.1 ≠ (q.states id).lane) }
    have counts : ∀ member, q.getMemberActiveCount member = r.getMemberActiveCount member := by
      intro member
      simp only [r, getMemberActiveCount, lookupLane, lookup_filter_ne]
      by_cases here : member = (q.states id).lane
      · rw [lookupLane] at registered
        simp [here, registered, idle]
      · simp [here]
    simp only [lookupLane, lookup_filter_ne] at found
    split at found
    · cases found
    · exact ⟨other, found, queued, free, canAdmitInGroup_mono (r := r) rfl (counts lane).le
        (fun _ _ member _ => (counts member).le) admissible⟩

end QueueState
end CommandQueue
