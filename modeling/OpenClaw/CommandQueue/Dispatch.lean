import OpenClaw.CommandQueue.Wanting

/-!
The control stack of a queue whose callbacks do not call back into it. Every lane
that wants a drain is covered by a frame that will serve it: a running drain of the
lane or of its group, or a pass that still has the lane on its list. The invariant
is established by calling a drain and preserved by each iteration of a frame.
-/

namespace CommandQueue

/-- The lanes a frame will still serve. -/
def Frame.Covers (q : QueueState) (lane : String) : Frame → Prop
  | .drainLane id name none _ => name = lane ∧ q.lookupLane lane = some id
  | .drainGroup group _ => ∃ state, q.getLaneGroup lane = some state ∧ state.group = group
  | .drainLanes lanes _ => lane ∈ lanes
  | .drainLane _ _ (some _) _ | .callback _ | .enqueued _ _ | .settle _ _ => False

def Frame.IsBase : Frame → Prop
  | .drainLanes _ _ | .enqueued _ _ | .settle _ _ => True
  | .drainLane _ _ _ _ | .drainGroup _ _ | .callback _ => False

/-- The part of the stack below the drains: at most one frame of an operation. -/
def IsBase (stack : List Frame) : Prop := stack = [] ∨ ∃ frame : Frame, stack = [frame] ∧ frame.IsBase

inductive Layout (q : QueueState) : List Frame → Prop
  | base {base : List Frame} (ok : IsBase base) : Layout q base
  | onQueued : Layout q [.callback .onQueued]
  | lane {base : List Frame} (id : LaneId) (name : String) (started : Nat) (ok : IsBase base) :
      Layout q (.drainLane id name none started :: base)
  | laneWait {base : List Frame} (kind : CallbackKind) (id : LaneId) (name : String) (started : Nat)
      (ok : IsBase base) : Layout q (.callback kind :: .drainLane id name none started :: base)
  | group {base : List Frame} (state : LaneGroupState) (registered : q.groups state.group = some state)
      (ok : IsBase base) : Layout q (.drainGroup state.group state.identity :: base)
  | member {base : List Frame} (id : LaneId) (name : String) (started : Nat) (state : LaneGroupState)
      (registered : q.groups state.group = some state)
      (ready : started = 0 → q.canStart id name (some 1) 0 = true) (ok : IsBase base) :
      Layout q (.drainLane id name (some 1) started :: .drainGroup state.group state.identity :: base)
  | memberWait {base : List Frame} (kind : CallbackKind) (id : LaneId) (name : String) (started : Nat)
      (state : LaneGroupState) (registered : q.groups state.group = some state) (ok : IsBase base) :
      Layout q (.callback kind :: .drainLane id name (some 1) (started + 1) ::
        .drainGroup state.group state.identity :: base)

namespace QueueState

theorem dequeueLaneQueue_none {queue : LaneQueue} (empty : queue.dequeueLaneQueue = none) :
    queue.length = 0 := by
  obtain ⟨background, normal, foreground⟩ := queue
  cases foreground <;> cases normal <;> cases background <;>
    simp_all [LaneQueue.dequeueLaneQueue, LaneQueue.length]

theorem peekLaneQueue_none {queue : LaneQueue} : queue.peekLaneQueue = none ↔ queue.length = 0 := by
  obtain ⟨background, normal, foreground⟩ := queue
  cases foreground <;> cases normal <;> cases background <;>
    simp [LaneQueue.peekLaneQueue, LaneQueue.length]

theorem dequeueLaneQueue_length {queue rest : LaneQueue} {entry : EntryId}
    (head : queue.dequeueLaneQueue = some (entry, rest)) : queue.length = rest.length + 1 := by
  obtain ⟨background, normal, foreground⟩ := queue
  cases foreground <;> cases normal <;> cases background <;>
    simp_all [LaneQueue.dequeueLaneQueue, LaneQueue.length] <;> obtain ⟨_, rfl⟩ := head <;>
    simp <;> omega

/-- The selection loop takes this member into account. -/
def Selectable (q : QueueState) (group : LaneGroupState) (lane : String) : Prop :=
  ∃ id, q.lookupLane lane = some id ∧ 0 < (q.states id).queue.length ∧
    (q.states id).draining = false ∧
    (q.states id).maxConcurrent.isReachedBy (q.states id).activeTaskIds.length = false ∧
    q.resolveGroupBlockReason group lane (q.readGroupCapacity group) = none

theorem considerMember_cases (q : QueueState) (group : LaneGroupState)
    (selected : Option GroupCandidate) (lane : String) :
    q.considerMember group selected lane = selected ∧
        (q.Selectable group lane → selected.isSome) ∨
      q.Selectable group lane ∧
        ∃ candidate, q.considerMember group selected lane = some candidate ∧ candidate.lane = lane := by
  simp only [considerMember]
  split
  · rename_i missing
    exact .inl ⟨rfl, fun ⟨id, found, _⟩ => by simp [missing] at found⟩
  · rename_i id found
    split
    · rename_i empty
      refine .inl ⟨rfl, fun ⟨other, found', queued, _⟩ => ?_⟩
      cases found.symm.trans found'
      exact absurd (peekLaneQueue_none.mp empty) (Nat.ne_of_gt queued)
    · rename_i head peeked
      have queued : 0 < (q.states id).queue.length := by
        refine Nat.pos_of_ne_zero fun empty => ?_
        simp [peekLaneQueue_none.mpr empty] at peeked
      split
      · rename_i busy
        refine .inl ⟨rfl, fun ⟨other, found', _, still, open_, _⟩ => ?_⟩
        cases found.symm.trans found'
        simp [still, open_] at busy
      · rename_i idle
        simp only [Bool.or_eq_true, not_or, Bool.not_eq_true] at idle
        split
        · rename_i blocked
          exact .inl ⟨rfl, fun ⟨_, _, _, _, _, unblocked⟩ => by simp [unblocked] at blocked⟩
        · rename_i admissible
          have selectable : q.Selectable group lane :=
            ⟨id, found, queued, idle.1, idle.2, by simpa using admissible⟩
          split
          · exact .inr ⟨selectable, _, rfl, rfl⟩
          · rename_i kept
            refine .inl ⟨rfl, fun _ => ?_⟩
            cases selected with
            | none => exact absurd rfl kept
            | some candidate => rfl

theorem foldl_considerMember (q : QueueState) (group : LaneGroupState) (members : List String)
    (selected : Option GroupCandidate) :
    (members.foldl (q.considerMember group) selected = none →
      selected = none ∧ ∀ lane ∈ members, ¬q.Selectable group lane) ∧
    ∀ candidate, members.foldl (q.considerMember group) selected = some candidate →
      selected = some candidate ∨ candidate.lane ∈ members ∧ q.Selectable group candidate.lane := by
  induction members generalizing selected with
  | nil => exact ⟨fun none => ⟨none, fun _ mem => absurd mem List.not_mem_nil⟩, fun _ => .inl⟩
  | cons lane members ih =>
      obtain ⟨none, some⟩ := ih (q.considerMember group selected lane)
      rcases considerMember_cases q group selected lane with ⟨same, skip⟩ | ⟨selectable, first, taken, named⟩
      · rw [same] at none some
        rw [List.foldl_cons, same]
        refine ⟨fun empty => ?_, fun candidate chosen => ?_⟩
        · obtain ⟨unselected, others⟩ := none empty
          refine ⟨unselected, List.forall_mem_cons.mpr ⟨fun selectable => ?_, others⟩⟩
          simpa [unselected] using skip selectable
        · exact (some candidate chosen).imp_right fun later => ⟨List.mem_cons_of_mem _ later.1, later.2⟩
      · rw [taken] at none some
        rw [List.foldl_cons, taken]
        refine ⟨fun empty => absurd (none empty).1 (by simp), fun candidate chosen => .inr ?_⟩
        rcases some candidate chosen with same | later
        · cases same
          rw [named]
          exact ⟨List.mem_cons_self, selectable⟩
        · exact ⟨List.mem_cons_of_mem _ later.1, later.2⟩

theorem resolveNextGroupLane_none {q : QueueState} {group : LaneGroupState}
    (none : q.resolveNextGroupLane group = none) : ∀ lane ∈ group.members, ¬q.Selectable group lane :=
  ((foldl_considerMember q group group.members .none).1 (Option.map_eq_none_iff.mp none)).2

theorem resolveNextGroupLane_some {q : QueueState} {group : LaneGroupState} {lane : String}
    (some : q.resolveNextGroupLane group = some lane) :
    lane ∈ group.members ∧ q.Selectable group lane := by
  obtain ⟨candidate, chosen, rfl⟩ := Option.map_eq_some_iff.mp some
  exact ((foldl_considerMember q group group.members .none).2 candidate chosen).resolve_left (by simp)

theorem canStart_iff {q : QueueState} {id : LaneId} {lane : String} {maxStarts : Option Nat}
    {started : Nat} : q.canStart id lane maxStarts started = true ↔
      (∀ bound ∈ maxStarts, started < bound) ∧
      (q.states id).maxConcurrent.isAbove (q.states id).activeTaskIds.length = true ∧
      0 < (q.states id).queue.length ∧ q.canAdmitInGroup lane = true := by
  cases maxStarts <;> simp [canStart, and_assoc]

/-- Admission makes no lane want a drain. -/
theorem Wants.of_commitAdmission {q : QueueState} {id : LaneId} {lane other : String} {entry : EntryId}
    {rest : LaneQueue} (head : (q.states id).queue.dequeueLaneQueue = some (entry, rest))
    (wants : (q.commitAdmission id lane entry rest).Wants other) : q.Wants other := by
  have length := dequeueLaneQueue_length head
  have taken : (q.takeEntry id entry rest).Wants other := by
    refine wants.of_update_le id rfl rfl rfl (fun queued => queued) (fun free => ?_) ?_
    · simp only [List.length_append, List.length_cons, List.length_nil, Nat.zero_add] at free
      exact Count.isAbove_of_le (Nat.le_succ _) free
    · simp
  exact taken.of_update_le id rfl rfl rfl (fun _ => length ▸ Nat.succ_pos _)
    (fun free => free) le_rfl

theorem Wants.of_guard {q : QueueState} {id : LaneId} {draining : Bool} {lane : String}
    (wants : (q.updateState id fun state => { state with draining := draining }).Wants lane) :
    q.Wants lane :=
  wants.of_update_le id rfl rfl rfl (fun queued => queued) (fun free => free) le_rfl

end QueueState

theorem Frame.Covers.of_base {q r : QueueState} {lane : String} {frame : Frame} (base : frame.IsBase)
    (covers : frame.Covers q lane) : frame.Covers r lane := by
  cases frame with
  | drainLanes | enqueued | settle => exact covers
  | drainLane | drainGroup | callback => exact base.elim

namespace Machine
open QueueState

/-- No drain is in progress. -/
structure Resting (m : Machine) : Prop where
  sound : m.Sound
  consistent : m.queue.Consistent
  numeric : ∀ id, (m.queue.states id).maxConcurrent ≠ .nan
  base : IsBase m.stack
  still : ∀ id, (m.queue.states id).draining = false
  free : m.queue.drainingGroups = []

/-- Every lane that wants a drain is covered by a frame of the stack. -/
structure Attentive (m : Machine) : Prop where
  sound : m.Sound
  consistent : m.queue.Consistent
  numeric : ∀ id, (m.queue.states id).maxConcurrent ≠ .nan
  layout : Layout m.queue m.stack
  guards : ∀ id, (m.queue.states id).draining = true →
    ∃ name maxStarts started, .drainLane id name maxStarts started ∈ m.stack
  arbiters : ∀ identity ∈ m.queue.drainingGroups, ∃ group, .drainGroup group identity ∈ m.stack
  covered : ∀ lane, m.queue.Wants lane → ∃ frame ∈ m.stack, frame.Covers m.queue lane

theorem Resting.attentive {m : Machine} (rest : m.Resting)
    (covered : ∀ lane, m.queue.Wants lane → ∃ frame ∈ m.stack, frame.Covers m.queue lane) :
    m.Attentive where
  sound := rest.sound
  consistent := rest.consistent
  numeric := rest.numeric
  layout := .base rest.base
  guards id draining := by simp [rest.still id] at draining
  arbiters identity mem := by simp [rest.free] at mem
  covered := covered

/-- A machine without drain frames is at rest. -/
theorem Attentive.resting {m : Machine} (att : m.Attentive) (base : IsBase m.stack) : m.Resting := by
  have drains : ∀ frame ∈ m.stack, frame.IsBase := by
    intro frame mem
    rcases base with empty | ⟨single, stack, isBase⟩
    · simp [empty] at mem
    · rw [stack, List.mem_singleton] at mem
      exact mem ▸ isBase
  refine ⟨att.sound, att.consistent, att.numeric, base, fun id => ?_, ?_⟩
  · by_contra draining
    obtain ⟨name, maxStarts, started, mem⟩ := att.guards id (by simpa using draining)
    exact drains _ mem
  · refine List.eq_nil_iff_forall_not_mem.mpr fun identity mem => ?_
    obtain ⟨group, mem⟩ := att.arbiters identity mem
    exact drains _ mem

theorem getLaneState_named {q : QueueState} (wf : q.WellNamed) (lane : String) :
    (q.getLaneState lane).2.Named (q.getLaneState lane).1 lane :=
  (Changes.wellNamed (Moves.changes (getLaneState_spec q lane).1) wf).named (getLaneState_spec q lane).2

theorem getLaneState_states (q : QueueState) (lane : String) (id : LaneId) :
    (q.getLaneState lane).2.states id = q.states id ∨
      (q.getLaneState lane).2.states id = { lane := lane } := by
  simp only [QueueState.getLaneState]
  split
  · exact .inl rfl
  · by_cases here : id = q.nextLaneId
    · exact .inr (by simp [createLane, here])
    · exact .inl (by simp [createLane, here])

/-- Fetching a lane state keeps a machine at rest. -/
theorem Resting.getLaneState {m : Machine} (rest : m.Resting) (lane : String) :
    Resting { m with queue := (m.queue.getLaneState lane).2 } := by
  have moves := (getLaneState_spec m.queue lane).1
  have fetched : m.Extends { m with queue := (m.queue.getLaneState lane).2 } :=
    rest.sound.extend moves fun frame mem => .inl mem
  refine ⟨fetched.sound, rest.consistent.of_registry (Moves.registry moves), fun id => ?_, rest.base, fun id => ?_, ?_⟩
  · rcases getLaneState_states m.queue lane id with same | fresh
    · exact same ▸ rest.numeric id
    · simp [fresh]
  · rcases getLaneState_states m.queue lane id with same | fresh
    · exact same ▸ rest.still id
    · simp [fresh]
  · simp only [QueueState.getLaneState]
    split <;> exact rest.free

/-- Entering the drain of a registered lane, or of a lane state nobody waits for. -/
theorem Resting.enterState {m : Machine} (rest : m.Resting) {id : LaneId} {lane : String}
    (named : m.queue.Named id lane)
    (needs : ∀ other, m.queue.Wants other → (∃ frame ∈ m.stack, frame.Covers m.queue other) ∨
      other = lane ∧ m.queue.lookupLane lane = some id) :
    (m.enterState id lane none).Attentive := by
  have entered := (enterState_extends rest.sound named none)
  simp only [Machine.enterState, rest.still id, Bool.false_eq_true, if_false] at entered ⊢
  refine ⟨entered.sound, rest.consistent.of_registry rfl, fun other => ?_, .lane id lane 0 rest.base,
    fun other draining => ?_, fun identity mem => ?_, fun other wants => ?_⟩
  · simp only [updateState]
    by_cases here : other = id
    · simpa [here] using rest.numeric id
    · simpa [here] using rest.numeric other
  · by_cases here : other = id
    · exact ⟨lane, none, 0, by simp [here]⟩
    · simp [updateState, here, rest.still other] at draining
  · simp [updateState, rest.free] at mem
  · rcases needs other wants.of_guard with ⟨frame, mem, covers⟩ | ⟨rfl, registered⟩
    · refine ⟨frame, List.mem_cons_of_mem _ mem, covers.of_base ?_⟩
      rcases rest.base with empty | ⟨single, stack, isBase⟩
      · simp [empty] at mem
      · rw [stack, List.mem_singleton] at mem
        exact mem ▸ isBase
    · exact ⟨_, List.mem_cons_self, rfl, registered⟩

/-- Draining a lane serves the lane and the siblings of its group. -/
theorem Resting.drainReady {m : Machine} (rest : m.Resting) {lane : String} {captured : Option LaneId}
    (named : ∀ id ∈ captured, m.queue.Named id lane)
    (needs : ∀ other, m.queue.Wants other → (∃ frame ∈ m.stack, frame.Covers m.queue other) ∨
      m.queue.Related lane other ∧ ∀ id ∈ captured, m.queue.lookupLane lane = some id) :
    (m.drainReady lane captured).Attentive := by
  have drained := drainReady_extends rest.sound lane captured named
  have isBase : ∀ frame ∈ m.stack, frame.IsBase := by
    intro frame mem
    rcases rest.base with empty | ⟨single, stack, isBase⟩
    · simp [empty] at mem
    · rw [stack, List.mem_singleton] at mem
      exact mem ▸ isBase
  cases found : m.queue.getLaneGroup lane with
  | some state =>
      have registered := (rest.consistent.mem_of_getLaneGroup found).2
      simp only [Machine.drainReady, found, rest.free, List.not_mem_nil, if_false] at drained ⊢
      refine ⟨drained.sound, rest.consistent.of_registry rfl, rest.numeric,
        .group state registered rest.base, fun id draining => ?_, fun identity mem => ?_,
        fun other wants => ?_⟩
      · simp [rest.still id] at draining
      · rw [List.nil_append, List.mem_singleton] at mem
        exact ⟨state.group, by simp [mem]⟩
      · rcases needs other wants with ⟨frame, mem, covers⟩ | ⟨related, -⟩
        · exact ⟨frame, List.mem_cons_of_mem _ mem, covers.of_base (isBase frame mem)⟩
        · refine ⟨_, List.mem_cons_self, state, ?_, rfl⟩
          rcases related with rfl | ⟨shared, own, theirs⟩
          · exact found
          · cases found.symm.trans own
            exact theirs
  | none =>
      have alone : ∀ other, m.queue.Related lane other → other = lane := by
        rintro other (same | ⟨state, own, -⟩)
        · exact same
        · simp [found] at own
      simp only [Machine.drainReady, found]
      cases captured with
      | some id =>
          refine rest.enterState (named id rfl) fun other wants => ?_
          exact (needs other wants).imp_right fun both => ⟨alone other both.1, both.2 id rfl⟩
      | none =>
          refine (rest.getLaneState lane).enterState
            (getLaneState_named rest.sound.wellNamed lane) fun other wants => ?_
          refine (needs other (wants.of_getLaneState rest.sound.wellNamed)).imp (fun served => ?_)
            fun both => ⟨alone other both.1, (getLaneState_spec m.queue lane).2⟩
          obtain ⟨frame, mem, covers⟩ := served
          exact ⟨frame, mem, covers.of_base (isBase frame mem)⟩

end Machine
end CommandQueue
