import OpenClaw.CommandQueue.Steps

/-!
Settlement of entries and ownership of slots. An accepted entry is at any time
either queued, started or rejected, and in exactly one of these ways: the history
of a run is a balanced account of the entries. A task owns a slot from its start
until it is released or its lane state is reset; the active task ids of a lane
state are exactly its owners.
-/

namespace CommandQueue

namespace QueueEvent

def starts (entry : EntryId) : QueueEvent → Bool
  | started other _ _ => other == entry
  | _ => false

def rejects (entry : EntryId) : QueueEvent → Bool
  | rejected other _ => other == entry
  | _ => false

end QueueEvent

/-- The owners of the slots of each lane state after a history. -/
def slotOwners (history : List QueueEvent) : LaneId → List TaskId :=
  history.foldl (fun owners event =>
    match event with
    | .started _ state marker =>
        Function.update owners state (owners state ++ [marker.taskId])
    | .released task => fun state => (owners state).filter (· ≠ task)
    | .laneReset state => Function.update owners state []
    | .accepted _ | .rejected _ _ | .settled _ _ => owners) fun _ => []

namespace LaneQueue

theorem getPriorityRing_setPriorityRing (queue : LaneQueue) (ring : List EntryId)
    (priority other : QueuePriority) :
    (queue.setPriorityRing ring priority).getPriorityRing other =
      if other = priority then ring else queue.getPriorityRing other := by
  cases priority <;> cases other <;> rfl

/-- Dequeuing removes the head of one ring. -/
theorem dequeueLaneQueue_ring {queue rest : LaneQueue} {entry : EntryId}
    (head : queue.dequeueLaneQueue = some (entry, rest)) :
    ∃ priority, queue.getPriorityRing priority = entry :: rest.getPriorityRing priority ∧
      ∀ other, other ≠ priority → rest.getPriorityRing other = queue.getPriorityRing other := by
  obtain ⟨background, normal, foreground⟩ := queue
  have keep : ∀ {priority : QueuePriority} {queue rest : LaneQueue},
      (∀ other, other = priority ∨ rest.getPriorityRing other = queue.getPriorityRing other) →
      ∀ other, other ≠ priority → rest.getPriorityRing other = queue.getPriorityRing other :=
    fun same other differs => (same other).resolve_left differs
  cases foreground with
  | cons first more =>
      cases head
      exact ⟨.foreground, rfl, keep fun other => by cases other <;> simp [getPriorityRing]⟩
  | nil =>
      cases normal with
      | cons first more =>
          cases head
          exact ⟨.normal, rfl, keep fun other => by cases other <;> simp [getPriorityRing]⟩
      | nil =>
          cases background with
          | cons first more =>
              cases head
              exact ⟨.background, rfl, keep fun other => by cases other <;> simp [getPriorityRing]⟩
          | nil => cases head

end LaneQueue

namespace QueueState

def startCount (q : QueueState) (entry : EntryId) : Nat := q.history.countP (QueueEvent.starts entry)

def rejectCount (q : QueueState) (entry : EntryId) : Nat :=
  q.history.countP (QueueEvent.rejects entry)

/-- Every accepted entry is accounted for once, and the rings hold exactly queued
entries of their lane state and priority. -/
structure Accounted (q : QueueState) : Prop where
  home : ∀ id priority, ∀ entry ∈ (q.states id).queue.getPriorityRing priority,
    (q.entries entry).queued = true ∧ (q.entries entry).state = id ∧
      (q.entries entry).priority = priority
  nodup : ∀ id priority, ((q.states id).queue.getPriorityRing priority).Nodup
  balance : ∀ entry, q.startCount entry + q.rejectCount entry +
    (if (q.entries entry).queued then 1 else 0) = if entry < q.nextEntryId then 1 else 0

/-- Changes outside the rings, the entries and the counted events. -/
theorem Accounted.frame {q r : QueueState} (acc : q.Accounted)
    (queues : ∀ id, (r.states id).queue = (q.states id).queue ∨ (r.states id).queue = {})
    (entries : r.entries = q.entries) (next : r.nextEntryId = q.nextEntryId)
    (events : ∀ entry, r.startCount entry = q.startCount entry ∧
      r.rejectCount entry = q.rejectCount entry) : r.Accounted := by
  refine ⟨fun id priority entry mem => ?_, fun id priority => ?_, fun entry => ?_⟩
  · rcases queues id with same | empty
    · rw [same] at mem
      rw [entries]
      exact acc.home id priority entry mem
    · rw [empty] at mem
      cases priority <;> cases mem
  · rcases queues id with same | empty
    · rw [same]
      exact acc.nodup id priority
    · rw [empty]
      cases priority <;> exact List.nodup_nil
  · rw [(events entry).1, (events entry).2, entries, next]
    exact acc.balance entry

/-- One queued entry leaves the queue of its lane state, in exchange for one
starting or rejecting event. -/
theorem Accounted.leave {q r : QueueState} (acc : q.Accounted) {entry : EntryId}
    (queued : (q.entries entry).queued = true)
    (rings : ∀ id priority, ∃ keep : EntryId → Bool, (r.states id).queue.getPriorityRing priority =
      ((q.states id).queue.getPriorityRing priority).filter keep)
    (gone : ∀ id priority, entry ∉ (r.states id).queue.getPriorityRing priority)
    (entries : r.entries =
      Function.update q.entries entry { q.entries entry with queued := false })
    (next : r.nextEntryId = q.nextEntryId)
    (event : r.startCount entry + r.rejectCount entry =
      q.startCount entry + q.rejectCount entry + 1)
    (others : ∀ other, other ≠ entry → r.startCount other = q.startCount other ∧
      r.rejectCount other = q.rejectCount other) : r.Accounted := by
  refine ⟨fun id priority other mem => ?_, fun id priority => ?_, fun other => ?_⟩
  · have differs : other ≠ entry := by
      rintro rfl
      exact gone id priority mem
    obtain ⟨keep, ring⟩ := rings id priority
    rw [ring] at mem
    rw [entries, Function.update_of_ne differs]
    exact acc.home id priority other (List.mem_of_mem_filter mem)
  · obtain ⟨keep, ring⟩ := rings id priority
    rw [ring]
    exact (acc.nodup id priority).filter keep
  · have balance := acc.balance other
    by_cases here : other = entry
    · subst here
      rw [entries, Function.update_self, next]
      simp only [queued, if_true, Bool.false_eq_true, if_false] at balance ⊢
      omega
    · rw [(others other here).1, (others other here).2, entries, Function.update_of_ne here, next]
      exact balance

/-- A dequeued entry was queued, and no ring holds it any more. -/
theorem Accounted.dequeued {q : QueueState} (acc : q.Accounted) {id : LaneId} {entry : EntryId}
    {rest : LaneQueue} (head : (q.states id).queue.dequeueLaneQueue = some (entry, rest)) :
    (q.entries entry).queued = true ∧
    (∀ other priority, ∃ keep : EntryId → Bool,
      ((q.takeEntry id entry rest).states other).queue.getPriorityRing priority =
        ((q.states other).queue.getPriorityRing priority).filter keep) ∧
    ∀ other priority, entry ∉ ((q.takeEntry id entry rest).states other).queue.getPriorityRing priority := by
  obtain ⟨taken, ring, kept⟩ := LaneQueue.dequeueLaneQueue_ring head
  have home := acc.home id taken entry (ring ▸ List.mem_cons_self)
  have unique := acc.nodup id taken
  rw [ring, List.nodup_cons] at unique
  have states : ∀ other, ((q.takeEntry id entry rest).states other).queue =
      if other = id then rest else (q.states other).queue := by
    intro other
    by_cases here : other = id
    · subst here
      simp [takeEntry, updateState, updateEntry]
    · simp [takeEntry, updateState, updateEntry, here]
  refine ⟨home.1, fun other priority => ?_, fun other priority mem => ?_⟩
  · rw [states]
    by_cases here : other = id ∧ priority = taken
    · obtain ⟨rfl, rfl⟩ := here
      refine ⟨(· ≠ entry), ?_⟩
      rw [if_pos rfl, ring, List.filter_cons_of_neg (by simp), List.filter_eq_self.mpr]
      intro kept mem
      simpa using fun same : kept = entry => unique.1 (same ▸ mem)
    · refine ⟨fun _ => true, ?_⟩
      rw [List.filter_eq_self.mpr fun _ _ => rfl]
      split
      · rename_i same
        subst same
        exact kept priority fun same => here ⟨rfl, same⟩
      · rfl
  · rw [states] at mem
    split at mem
    · rename_i same
      subst same
      by_cases here : priority = taken
      · exact unique.1 (here ▸ mem)
      · rw [kept priority here] at mem
        exact here ((acc.home other priority entry mem).2.2.symm.trans home.2.2)
    · rename_i differs
      exact differs ((acc.home other priority entry mem).2.1.symm.trans home.2.1)

theorem countP_snoc {α : Type} (p : α → Bool) (l : List α) (a : α) :
    (l ++ [a]).countP p = l.countP p + if p a then 1 else 0 := by
  simp [List.countP_append, List.countP_cons]

theorem Accounted.push {q : QueueState} (acc : q.Accounted) (id : LaneId) (now : Int)
    (opts : EnqueueOptions) : (q.pushEntry id now opts).2.Accounted := by
  have unborn : (q.entries q.nextEntryId).queued = false := by
    have balance := acc.balance q.nextEntryId
    rw [if_neg (Nat.lt_irrefl _)] at balance
    split at balance
    · omega
    · rename_i idle
      simpa using idle
  have absent : ∀ other priority, q.nextEntryId ∉ (q.states other).queue.getPriorityRing priority := by
    intro other priority mem
    simp [(acc.home other priority _ mem).1] at unborn
  have ring : ∀ other priority,
      ((q.pushEntry id now opts).2.states other).queue.getPriorityRing priority =
        if other = id ∧ priority = opts.priority then
          (q.states other).queue.getPriorityRing priority ++ [q.nextEntryId]
        else (q.states other).queue.getPriorityRing priority := by
    intro other priority
    by_cases here : other = id
    · subst here
      simp only [pushEntry, record, updateState, Function.update_self, LaneQueue.enqueueLaneQueue,
        LaneQueue.getPriorityRing_setPriorityRing, true_and]
      split
      · rename_i same
        rw [same]
      · rfl
    · simp [pushEntry, record, updateState, here]
  have entries : ∀ other, other ≠ q.nextEntryId →
      (q.pushEntry id now opts).2.entries other = q.entries other := by
    intro other differs
    simp [pushEntry, record, updateState, differs]
  have fresh : (q.pushEntry id now opts).2.entries q.nextEntryId = {
      queued := true, state := id, priority := opts.priority, sequence := q.nextQueueSequence,
      enqueuedAt := now, warnAfterMs := opts.warnAfterMs,
      queuedAheadAtEnqueue := (q.states id).queue.queuedAhead opts.priority,
      hasOnWait := opts.hasOnWait } := by
    simp [pushEntry, record, updateState]
  have counts : ∀ entry, (q.pushEntry id now opts).2.startCount entry = q.startCount entry ∧
      (q.pushEntry id now opts).2.rejectCount entry = q.rejectCount entry := by
    intro entry
    have history : (q.pushEntry id now opts).2.history =
        q.history ++ [.accepted q.nextEntryId] := rfl
    simp [startCount, rejectCount, history, QueueEvent.starts, QueueEvent.rejects]
  refine ⟨fun other priority entry mem => ?_, fun other priority => ?_, fun entry => ?_⟩
  · rw [ring] at mem
    by_cases new : entry = q.nextEntryId
    · subst new
      rw [fresh]
      split at mem
      · rename_i here
        exact ⟨rfl, here.1.symm, here.2.symm⟩
      · exact absurd mem (absent other priority)
    · rw [entries entry new]
      split at mem
      · rcases List.mem_append.mp mem with old | last
        · exact acc.home other priority entry old
        · exact absurd (List.mem_singleton.mp last) new
      · exact acc.home other priority entry mem
  · rw [ring]
    split
    · refine List.nodup_append.mpr ⟨acc.nodup other priority, List.nodup_singleton _, ?_⟩
      rintro entry mem last lastMem rfl
      rw [List.mem_singleton] at lastMem
      exact absent other priority (lastMem ▸ mem)
    · exact acc.nodup other priority
  · have balance := acc.balance entry
    rw [(counts entry).1, (counts entry).2]
    change _ = if entry < q.nextEntryId + 1 then 1 else 0
    by_cases new : entry = q.nextEntryId
    · subst new
      rw [fresh]
      simp only [unborn, Bool.false_eq_true, if_false, Nat.lt_irrefl, Nat.lt_succ_self,
        if_true] at balance ⊢
      omega
    · have same : entry < q.nextEntryId ↔ entry < q.nextEntryId + 1 :=
        ⟨Nat.lt_succ_of_lt, fun below => Nat.lt_of_le_of_ne (Nat.le_of_lt_succ below) new⟩
      rw [entries entry new, balance]
      simp only [same]

theorem Accounted.unlink {q : QueueState} (acc : q.Accounted) {entry : EntryId}
    (queued : (q.entries entry).queued = true) : (q.unlinkEntry entry).Accounted := by
  have ring : ∀ other priority,
      ((q.unlinkEntry entry).states other).queue.getPriorityRing priority =
        if other = (q.entries entry).state ∧ priority = (q.entries entry).priority then
          ((q.states other).queue.getPriorityRing priority).filter (· ≠ entry)
        else (q.states other).queue.getPriorityRing priority := by
    intro other priority
    by_cases here : other = (q.entries entry).state
    · subst here
      simp only [unlinkEntry, record, updateState, updateEntry, Function.update_self,
        LaneQueue.removeLaneQueueEntry, LaneQueue.getPriorityRing_setPriorityRing, true_and]
      split
      · rename_i same
        rw [same]
      · rfl
    · simp [unlinkEntry, record, updateState, updateEntry, here]
  have history : (q.unlinkEntry entry).history = q.history ++ [.rejected entry .aborted] := rfl
  refine acc.leave queued (fun other priority => ?_) (fun other priority mem => ?_) rfl rfl ?_
    fun other differs => ?_
  · rw [ring]
    split
    · exact ⟨_, rfl⟩
    · exact ⟨fun _ => true, (List.filter_eq_self.mpr fun _ _ => rfl).symm⟩
  · rw [ring] at mem
    split at mem
    · simp at mem
    · rename_i elsewhere
      obtain ⟨-, state, own⟩ := acc.home other priority entry mem
      exact elsewhere ⟨state.symm, own.symm⟩
  · simp only [startCount, rejectCount, history, countP_snoc, QueueEvent.starts,
      QueueEvent.rejects, beq_self_eq_true, if_true, Bool.false_eq_true, if_false]
    omega
  · simp [startCount, rejectCount, history, QueueEvent.starts, QueueEvent.rejects, Ne.symm differs]

theorem Move.accounted {q r : QueueState} (move : Move q r) (acc : q.Accounted) : r.Accounted := by
  -- A move that replaces one lane state keeping its queue, and records no counted event.
  have keeps : ∀ (r : QueueState) (id : LaneId) (state : LaneState),
      r.states = Function.update q.states id state → state.queue = (q.states id).queue →
      r.entries = q.entries → r.nextEntryId = q.nextEntryId →
      (∀ entry, r.startCount entry = q.startCount entry ∧ r.rejectCount entry = q.rejectCount entry) →
      r.Accounted := by
    intro r id state states queue entries next events
    refine acc.frame (fun other => .inl ?_) entries next events
    rw [states]
    by_cases here : other = id
    · rw [here, Function.update_self, queue]
    · rw [Function.update_of_ne here]
  have silent : ∀ {r : QueueState} {event : QueueEvent}, r.history = q.history ++ [event] →
      (∀ entry, event.starts entry = false ∧ event.rejects entry = false) →
      ∀ entry, r.startCount entry = q.startCount entry ∧ r.rejectCount entry = q.rejectCount entry := by
    intro r event history quiet entry
    simp [startCount, rejectCount, history, (quiet entry).1, (quiet entry).2]
  cases move with
  | create lane absent =>
      refine acc.frame (fun other => ?_) rfl rfl fun _ => ⟨rfl, rfl⟩
      by_cases here : other = q.nextLaneId
      · exact .inr (by simp [createLane, here])
      · exact .inl (by simp [createLane, here])
  | guard id => exact keeps _ id _ rfl rfl rfl rfl fun _ => ⟨rfl, rfl⟩
  | arbitrate => exact acc.frame (fun _ => .inl rfl) rfl rfl fun _ => ⟨rfl, rfl⟩
  | retire id =>
      rcases retire_eq q id with same | ⟨-, -, -, -, dropped⟩
      · rw [same]
        exact acc
      · rw [dropped]
        exact acc.frame (fun _ => .inl rfl) rfl rfl fun _ => ⟨rfl, rfl⟩
  | push lane id now opts registered => exact acc.push id now opts
  | unlink entry queued => exact acc.unlink queued
  | clear id entry rest head =>
      obtain ⟨queued, rings, gone⟩ := acc.dequeued head
      refine acc.leave queued rings gone rfl rfl ?_ fun other differs => ?_
      · simp [startCount, rejectCount, record, takeEntry, updateState, updateEntry,
          QueueEvent.starts, QueueEvent.rejects, Nat.add_assoc]
      · simp [startCount, rejectCount, record, takeEntry, updateState, updateEntry,
          QueueEvent.starts, QueueEvent.rejects, Ne.symm differs]
  | reset id => exact keeps _ id _ rfl rfl rfl rfl (silent rfl fun _ => ⟨rfl, rfl⟩)
  | complete task =>
      simp only [completeTask]
      split
      · exact acc.frame (fun _ => .inl rfl) rfl rfl fun _ => ⟨rfl, rfl⟩
      · exact keeps _ task.state _ rfl rfl rfl rfl (silent rfl fun _ => ⟨rfl, rfl⟩)
  | width id => exact keeps _ id _ rfl rfl rfl rfl fun _ => ⟨rfl, rfl⟩
  | start id lane entry rest owner admissible head =>
      obtain ⟨queued, rings, gone⟩ := acc.dequeued head
      have history : (q.commitAdmission id lane entry rest).history = q.history ++
          [.started entry id ⟨lane, q.nextTaskId, (q.states id).generation⟩] := rfl
      have states : ∀ other, ((q.commitAdmission id lane entry rest).states other).queue =
          ((q.takeEntry id entry rest).states other).queue := by
        intro other
        by_cases here : other = id
        · subst here
          simp [QueueState.commitAdmission, updateState]
        · simp [QueueState.commitAdmission, updateState, here]
      refine acc.leave queued ?_ ?_ rfl rfl ?_ fun other differs => ?_
      · simpa only [states] using rings
      · simpa only [states] using gone
      · simp only [startCount, rejectCount, history, countP_snoc, QueueEvent.starts,
          QueueEvent.rejects, beq_self_eq_true, if_true, Bool.false_eq_true, if_false]
        omega
      · simp [startCount, rejectCount, history, QueueEvent.starts, QueueEvent.rejects,
          Ne.symm differs]
  | settle => exact acc.frame (fun _ => .inl rfl) rfl rfl (silent rfl fun _ => ⟨rfl, rfl⟩)

theorem Accounted.changes {q r : QueueState} (acc : q.Accounted) (changes : Changes q r) :
    r.Accounted := by
  induction changes with
  | refl => exact acc
  | tail _ change ih =>
      cases change with
      | move move => exact move.accounted ih
      | install | clear | identify =>
          exact ih.frame (fun _ => .inl rfl) rfl rfl fun _ => ⟨rfl, rfl⟩

theorem accounted_init : Accounted {} where
  home id priority entry mem := by cases priority <;> cases mem
  nodup id priority := by cases priority <;> exact List.nodup_nil
  balance entry := by simp [startCount, rejectCount]

/-- The active task ids are the slot owners of the history, and task ids are unique. -/
structure Owned (q : QueueState) : Prop where
  owners : ∀ id, (q.states id).activeTaskIds = slotOwners q.history id
  unborn : ∀ id, q.nextLaneId ≤ id → (q.states id).activeTaskIds = []
  recorded : ∀ id, ∀ task ∈ (q.states id).activeTaskIds,
    ∃ entry marker, .started entry id marker ∈ q.history ∧ marker.taskId = task
  unique : ∀ {entry entry' id id' marker marker'}, .started entry id marker ∈ q.history →
    .started entry' id' marker' ∈ q.history → marker.taskId = marker'.taskId → id = id'
  fresh : ∀ {entry id marker}, .started entry id marker ∈ q.history → marker.taskId < q.nextTaskId
  running : ∀ task ∈ q.running,
    .started task.entry task.state ⟨task.lane, task.taskId, task.generation⟩ ∈ q.history

theorem slotOwners_snoc (history : List QueueEvent) (event : QueueEvent) :
    slotOwners (history ++ [event]) =
      match event with
      | .started _ state marker =>
          Function.update (slotOwners history) state (slotOwners history state ++ [marker.taskId])
      | .released task => fun state => (slotOwners history state).filter (· ≠ task)
      | .laneReset state => Function.update (slotOwners history) state []
      | .accepted _ | .rejected _ _ | .settled _ _ => slotOwners history := by
  simp only [slotOwners, List.foldl_append, List.foldl_cons, List.foldl_nil]

/-- A change of the slots that records no start. -/
theorem Owned.release {q r : QueueState} (own : q.Owned)
    (owners : ∀ id, (r.states id).activeTaskIds = slotOwners r.history id)
    (fewer : ∀ id, (r.states id).activeTaskIds ⊆ (q.states id).activeTaskIds)
    (lanes : q.nextLaneId ≤ r.nextLaneId) (tasks : r.nextTaskId = q.nextTaskId)
    (running : ∀ task ∈ r.running, task ∈ q.running)
    (events : ∀ entry id marker,
      .started entry id marker ∈ r.history ↔ .started entry id marker ∈ q.history) : r.Owned where
  owners := owners
  unborn id unborn := by
    have before := own.unborn id (lanes.trans unborn)
    exact List.eq_nil_iff_forall_not_mem.mpr fun task mem => by simpa [before] using fewer id mem
  recorded id task mem := by
    obtain ⟨entry, marker, started, same⟩ := own.recorded id task (fewer id mem)
    exact ⟨entry, marker, (events _ _ _).mpr started, same⟩
  unique started started' same := own.unique ((events _ _ _).mp started) ((events _ _ _).mp started') same
  fresh started := tasks ▸ own.fresh ((events _ _ _).mp started)
  running task mem := (events _ _ _).mpr (own.running task (running task mem))

theorem mem_snoc_of_ne {α : Type} {l : List α} {a b : α} (differs : b ≠ a) : b ∈ l ++ [a] ↔ b ∈ l := by
  simp [differs]

/-- A task of a lane state owns no slot of another one. -/
theorem Owned.foreign {q : QueueState} (own : q.Owned) {task : TaskRun} (running : task ∈ q.running)
    {id : LaneId} (other : id ≠ task.state) : task.taskId ∉ (q.states id).activeTaskIds := by
  intro mem
  obtain ⟨entry, marker, started, same⟩ := own.recorded id _ mem
  exact other (own.unique started (own.running task running) same)

theorem Owned.commitAdmission {q : QueueState} (own : q.Owned) {id : LaneId} (born : id < q.nextLaneId)
    (lane : String) (entry : EntryId) (rest : LaneQueue) : (q.commitAdmission id lane entry rest).Owned := by
  have history : (q.commitAdmission id lane entry rest).history = q.history ++
      [.started entry id ⟨lane, q.nextTaskId, (q.states id).generation⟩] := rfl
  have active : ∀ other, ((q.commitAdmission id lane entry rest).states other).activeTaskIds =
      if other = id then (q.states id).activeTaskIds ++ [q.nextTaskId]
      else (q.states other).activeTaskIds := by
    intro other
    by_cases here : other = id
    · subst here
      simp [QueueState.commitAdmission, takeEntry, updateState, updateEntry]
    · simp [QueueState.commitAdmission, takeEntry, updateState, updateEntry, here]
  refine ⟨fun other => ?_, fun other unborn => ?_, fun other task mem => ?_,
    fun {entry₁ entry₂ id₁ id₂ marker₁ marker₂} started₁ started₂ same => ?_,
    fun {_ _ marker} started => ?_, fun task mem => ?_⟩
  · rw [active, history, slotOwners_snoc]
    by_cases here : other = id
    · simp [here, own.owners]
    · simp [here, own.owners]
  · rw [active, if_neg]
    · exact own.unborn other unborn
    · rintro rfl
      exact absurd born (Nat.not_lt.mpr unborn)
  · rw [active] at mem
    have past : task ∈ (q.states other).activeTaskIds → ∃ entry' marker,
        .started entry' other marker ∈ (q.commitAdmission id lane entry rest).history ∧ marker.taskId = task := by
      intro mem
      obtain ⟨entry', marker, started, same⟩ := own.recorded other task mem
      exact ⟨entry', marker, history ▸ List.mem_append_left _ started, same⟩
    split at mem
    · rename_i here
      subst here
      rcases List.mem_append.mp mem with old | last
      · exact past old
      · rw [List.mem_singleton.mp last, history]
        exact ⟨entry, _, List.mem_append_right _ List.mem_cons_self, rfl⟩
    · exact past mem
  · rw [history, List.mem_append, List.mem_singleton] at started₁ started₂
    rcases started₁ with old₁ | new₁ <;> rcases started₂ with old₂ | new₂
    · exact own.unique old₁ old₂ same
    · cases new₂
      exact absurd same (Nat.ne_of_lt (own.fresh old₁))
    · cases new₁
      exact absurd same.symm (Nat.ne_of_lt (own.fresh old₂))
    · cases new₁
      cases new₂
      rfl
  · rw [history, List.mem_append, List.mem_singleton] at started
    rcases started with old | new
    · exact Nat.lt_succ_of_lt (own.fresh old)
    · cases new
      exact Nat.lt_succ_self _
  · rw [history]
    rcases List.mem_append.mp mem with old | last
    · exact List.mem_append_left _ (own.running task old)
    · rw [List.mem_singleton.mp last]
      exact List.mem_append_right _ List.mem_cons_self

theorem Move.owned {q r : QueueState} (move : Move q r) (own : q.Owned) : r.Owned := by
  -- A move that replaces one lane state keeping its active tasks.
  have keeps : ∀ (r : QueueState) (id : LaneId) (state : LaneState),
      r.states = Function.update q.states id state →
      state.activeTaskIds = (q.states id).activeTaskIds → r.nextLaneId = q.nextLaneId →
      r.nextTaskId = q.nextTaskId → r.running = q.running →
      slotOwners r.history = slotOwners q.history →
      (∀ entry id marker,
        .started entry id marker ∈ r.history ↔ .started entry id marker ∈ q.history) → r.Owned := by
    intro r id state states active lanes tasks running same events
    have active : ∀ other, (r.states other).activeTaskIds = (q.states other).activeTaskIds := by
      intro other
      rw [states]
      by_cases here : other = id
      · rw [here, Function.update_self, active]
      · rw [Function.update_of_ne here]
    refine own.release (fun other => ?_) (fun other => (active other ▸ List.Subset.refl _)) lanes.ge
      tasks (fun task mem => running ▸ mem) events
    rw [active, same, own.owners]
  cases move with
  | create lane absent =>
      have active : ∀ other, ((q.createLane lane).states other).activeTaskIds =
          (q.states other).activeTaskIds := by
        intro other
        by_cases here : other = q.nextLaneId
        · rw [here, own.unborn q.nextLaneId le_rfl]
          simp [createLane]
        · simp [createLane, here]
      refine own.release (fun other => ?_) (fun other => (active other ▸ List.Subset.refl _))
        (Nat.le_succ _) rfl (fun _ mem => mem) fun _ _ _ => .rfl
      rw [active, own.owners]
      rfl
  | guard id => exact keeps _ id _ rfl rfl rfl rfl rfl rfl fun _ _ _ => .rfl
  | arbitrate =>
      exact own.release own.owners (fun _ => List.Subset.refl _) le_rfl rfl (fun _ mem => mem)
        fun _ _ _ => .rfl
  | retire id =>
      rcases retire_eq q id with same | ⟨-, -, -, -, dropped⟩
      · rw [same]
        exact own
      · rw [dropped]
        exact own.release own.owners (fun _ => List.Subset.refl _) le_rfl rfl (fun _ mem => mem)
          fun _ _ _ => .rfl
  | push _ id =>
      exact keeps _ id _ rfl rfl rfl rfl rfl (slotOwners_snoc _ _) fun _ _ _ =>
        mem_snoc_of_ne (by simp)
  | unlink entry =>
      exact keeps _ (q.entries entry).state _ rfl rfl rfl rfl rfl (slotOwners_snoc _ _)
        fun _ _ _ => mem_snoc_of_ne (by simp)
  | clear id =>
      exact keeps _ id _ rfl rfl rfl rfl rfl (slotOwners_snoc _ _) fun _ _ _ =>
        mem_snoc_of_ne (by simp)
  | reset id =>
      have active : ∀ other, ((q.resetState id).states other).activeTaskIds =
          if other = id then [] else (q.states other).activeTaskIds := by
        intro other
        by_cases here : other = id
        · simp [resetState, record, updateState, here]
        · simp [resetState, record, updateState, here]
      refine own.release (fun other => ?_) (fun other => ?_) le_rfl rfl (fun _ mem => mem)
        fun _ _ _ => mem_snoc_of_ne (by simp)
      · have history : (q.resetState id).history = q.history ++ [.laneReset id] := rfl
        rw [active, history, slotOwners_snoc, own.owners]
        by_cases here : other = id <;> simp [here]
      · rw [active]
        split
        · exact List.nil_subset _
        · exact List.Subset.refl _
  | complete task running =>
      simp only [completeTask]
      split
      · exact own.release own.owners (fun _ => List.Subset.refl _) le_rfl rfl
          (fun _ mem => List.mem_of_mem_filter mem) fun _ _ _ => .rfl
      · have active : ∀ other, (Function.update q.states task.state
            { q.states task.state with
              activeTaskIds := (q.states task.state).activeTaskIds.filter (· ≠ task.taskId) }
            other).activeTaskIds = (q.states other).activeTaskIds.filter (· ≠ task.taskId) := by
          intro other
          by_cases here : other = task.state
          · simp [here]
          · rw [Function.update_of_ne here, List.filter_eq_self.mpr]
            intro kept mem
            simpa using fun same : kept = task.taskId => own.foreign running here (same ▸ mem)
        refine own.release (fun other => ?_) (fun other => ?_) le_rfl rfl
          (fun _ mem => List.mem_of_mem_filter mem) fun _ _ _ => mem_snoc_of_ne (by simp)
        · refine (active other).trans ?_
          simp only [record, updateState]
          rw [slotOwners_snoc, own.owners]
        · exact fun kept mem => List.mem_of_mem_filter (active other ▸ mem)
  | width id => exact keeps _ id _ rfl rfl rfl rfl rfl rfl fun _ _ _ => .rfl
  | start id lane entry rest owner admissible head => exact own.commitAdmission owner.1 lane entry rest
  | settle =>
      refine own.release (fun other => ?_) (fun _ => List.Subset.refl _) le_rfl rfl
        (fun _ mem => mem) fun _ _ _ => mem_snoc_of_ne (by simp)
      simp only [record]
      rw [slotOwners_snoc, own.owners]

theorem Owned.changes {q r : QueueState} (own : q.Owned) (changes : Changes q r) : r.Owned := by
  induction changes with
  | refl => exact own
  | tail _ change ih =>
      cases change with
      | move move => exact move.owned ih
      | install | clear | identify =>
          exact ih.release ih.owners (fun _ => List.Subset.refl _) le_rfl rfl (fun _ mem => mem)
            fun _ _ _ => .rfl

theorem owned_init : Owned {} where
  owners _ := rfl
  unborn _ _ := rfl
  recorded _ _ mem := absurd mem List.not_mem_nil
  unique started := absurd started List.not_mem_nil
  fresh started := absurd started List.not_mem_nil
  running _ mem := absurd mem List.not_mem_nil

/-- A current marker's task owns a slot of the lane state it was started in. -/
theorem Owned.owner_of_current {q : QueueState} (own : q.Owned) {entry : EntryId} {id : LaneId}
    {marker : CommandLaneTaskMarker} (started : .started entry id marker ∈ q.history)
    (current : q.isCommandLaneTaskMarkerCurrent marker) :
    marker.taskId ∈ slotOwners q.history id := by
  simp only [isCommandLaneTaskMarkerCurrent] at current
  split at current
  · rename_i other found
    simp only [Bool.and_eq_true, List.contains_iff_mem] at current
    obtain ⟨entry', marker', started', same⟩ := own.recorded other _ current.2
    have here := own.unique started' started same
    exact own.owners id ▸ here ▸ current.2
  · cases current

end QueueState

namespace Machine
open QueueState

theorem complete_stale {m n : Machine} {now : Int} {task : TaskRun} {succeeded : Bool}
    (taken : m.step (.call now (.complete task succeeded)) = some n)
    (stale : task.generation ≠ (m.queue.states task.state).generation) :
    n.queue.states = m.queue.states ∧ n.queue.lanes = m.queue.lanes := by
  simp only [step, Option.ite_none_right_eq_some, Option.some.injEq] at taken
  obtain ⟨-, rfl⟩ := taken
  simp only [begin, completeTask_stale stale, Bool.false_eq_true, if_false, and_self]

/-- In every reachable state: an entry was started at most once; a rejected entry was
never started; a completion of an older generation changes neither the active tasks nor
the currency of any marker; and a current marker's task owns a slot of the lane state it
was started in. -/
theorem entries_settle_once_slots_isolated {m : Machine}
    (run : Transition.Reaches step Transition.Any {} m) :
    (∀ entry, m.queue.startCount entry ≤ 1) ∧
    (∀ entry id marker cause, .started entry id marker ∈ m.queue.history →
      .rejected entry cause ∉ m.queue.history) ∧
    (∀ now task succeeded n, m.step (.call now (.complete task succeeded)) = some n →
      task.generation ≠ (m.queue.states task.state).generation →
      (∀ id, (n.queue.states id).activeTaskIds = (m.queue.states id).activeTaskIds) ∧
      ∀ marker, n.queue.isCommandLaneTaskMarkerCurrent marker =
        m.queue.isCommandLaneTaskMarkerCurrent marker) ∧
    ∀ entry id marker, .started entry id marker ∈ m.queue.history →
      m.queue.isCommandLaneTaskMarkerCurrent marker → marker.taskId ∈ slotOwners m.queue.history id := by
  have acc := accounted_init.changes (reaches_changes run)
  have own := owned_init.changes (reaches_changes run)
  have once : ∀ entry, m.queue.startCount entry + m.queue.rejectCount entry ≤ 1 := by
    intro entry
    have balance := acc.balance entry
    split at balance <;> split at balance <;> omega
  refine ⟨fun entry => ?_, fun entry id marker cause started rejected => ?_,
    fun now task succeeded n taken stale => ?_, fun entry id marker => own.owner_of_current⟩
  · have := once entry
    omega
  · have starts : 0 < m.queue.startCount entry :=
      List.countP_pos_iff.mpr ⟨_, started, by simp [QueueEvent.starts]⟩
    have rejects : 0 < m.queue.rejectCount entry :=
      List.countP_pos_iff.mpr ⟨_, rejected, by simp [QueueEvent.rejects]⟩
    have := once entry
    omega
  · obtain ⟨states, lanes⟩ := complete_stale taken stale
    refine ⟨fun id => by rw [states], fun marker => ?_⟩
    simp only [isCommandLaneTaskMarkerCurrent, lookupLane, states, lanes]

/-- A session lane is reset while its first task runs, retired, and created again under
the same name; the third entry is aborted while queued. The late completion of the first
task leaves the slot of the second one alone. -/
theorem stale_completion_of_recreated_lane : ∃ m n,
    Transition.Reaches step Transition.Any {} m ∧
    m.step (.call 0 (.complete ⟨1, 0, "session:x", 0, 0⟩ true)) = some n ∧
    (n.queue.states 1).activeTaskIds = [2] ∧
    n.queue.isCommandLaneTaskMarkerCurrent ⟨"session:x", 1, 0⟩ = false ∧
    m.queue.startCount 1 ≤ 1 ∧ ∀ id marker, .started 2 id marker ∉ m.queue.history := by
  let enqueue : Label := .call 0 (.enqueueCommandInLane "session:x" {})
  obtain ⟨m, run, recreated, generation, active, rejected, late⟩ :=
    Transition.Reaches.exists_of_exec step Transition.Any {}
    (P := fun m => m.queue.lookupLane "session:x" = some 1 ∧ (m.queue.states 0).generation = 1 ∧
      (m.queue.states 1).activeTaskIds = [2] ∧ .rejected 2 .aborted ∈ m.queue.history ∧
      m.admits (.complete ⟨1, 0, "session:x", 0, 0⟩ true))
    [enqueue, .run 0, .run 0, .run 0, .call 0 (.resetCommandLane "session:x"), .run 0,
      enqueue, .run 0, .run 0, .run 0, enqueue, .run 0, .run 0, .call 0 (.abort 2)]
    (by decide) (by decide)
  obtain ⟨once, exclusive, isolated, -⟩ := entries_settle_once_slots_isolated run
  obtain ⟨n, taken⟩ : ∃ n, m.step (.call 0 (.complete ⟨1, 0, "session:x", 0, 0⟩ true)) = some n :=
    ⟨_, if_pos late⟩
  have stale : (0 : Nat) ≠ (m.queue.states 0).generation := by rw [generation]; decide
  obtain ⟨same, markers⟩ := isolated _ _ _ _ taken stale
  refine ⟨m, n, run, taken, by rw [same, active], ?_, once 1, fun id marker started =>
    exclusive _ _ _ _ started rejected⟩
  rw [markers]
  have home : normalizeLane "session:x" = "session:x" := by decide
  simp [isCommandLaneTaskMarkerCurrent, home, recreated, active]

end Machine
end CommandQueue
