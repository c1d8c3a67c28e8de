import Mathlib
import OpenClaw.CommandQueue.Machine

/-!
What a machine step can do to the queue state. Every step decomposes into moves,
each of which changes one thing; invariants of the queue state are proved for a
single move and transferred to whole runs.
-/

namespace CommandQueue
namespace QueueState

/-- A change of lane states, entries and tasks under a fixed group registry. -/
inductive Move (q : QueueState) : QueueState → Prop
  | create (lane : String) (absent : q.lookupLane lane = none) : Move q (q.createLane lane)
  | guard (id : LaneId) (draining : Bool) :
      Move q (q.updateState id fun state => { state with draining := draining })
  | arbitrate (groups : List GroupIdentity) : Move q { q with drainingGroups := groups }
  | retire (id : LaneId) : Move q (q.retireIdleScopedCommandLane id)
  | push (lane : String) (id : LaneId) (now : Int) (opts : EnqueueOptions)
      (registered : q.lookupLane lane = some id) : Move q (q.pushEntry id now opts).2
  | unlink (entry : EntryId) (queued : (q.entries entry).queued) : Move q (q.unlinkEntry entry)
  | clear (id : LaneId) (entry : EntryId) (rest : LaneQueue)
      (head : (q.states id).queue.dequeueLaneQueue = some (entry, rest)) :
      Move q ((q.takeEntry id entry rest).record (.rejected entry .cleared))
  | reset (id : LaneId) : Move q (q.resetState id)
  | complete (task : TaskRun) (running : task ∈ q.running) : Move q (q.completeTask task).2
  | width (id : LaneId) (maxConcurrent : Count) :
      Move q (q.updateState id fun state => { state with maxConcurrent := maxConcurrent })
  | start (id : LaneId) (lane : String) (entry : EntryId) (rest : LaneQueue)
      (owner : id < q.nextLaneId ∧ (q.states id).lane = lane) (admissible : q.canAdmitInGroup lane)
      (head : (q.states id).queue.dequeueLaneQueue = some (entry, rest)) :
      Move q (q.commitAdmission id lane entry rest)
  | settle (entry : EntryId) (succeeded : Bool) : Move q (q.record (.settled entry succeeded))

/-- A move or a change of the group registry. -/
inductive Change (q : QueueState) : QueueState → Prop
  | move {next : QueueState} (move : Move q next) : Change q next
  | install (next : LaneGroupState) : Change q (q.installCommandLaneGroup next)
  | clear (group : String) : Change q (q.clearGroup group)
  | identify (next : GroupIdentity) : Change q { q with nextGroupIdentity := next }

abbrev Moves : QueueState → QueueState → Prop := Relation.ReflTransGen Move

abbrev Changes : QueueState → QueueState → Prop := Relation.ReflTransGen Change

theorem Moves.changes {q r : QueueState} (moves : Moves q r) : Changes q r := by
  induction moves with
  | refl => exact .refl
  | tail _ move ih => exact ih.tail (.move move)

/-- `Named q id lane`: the lane state exists and was created under this name. -/
def Named (q : QueueState) (id : LaneId) (lane : String) : Prop :=
  id < q.nextLaneId ∧ (q.states id).lane = lane

/-- The lane registry is a map onto states of its lanes, and running tasks belong
to the lane they were started in. -/
structure WellNamed (q : QueueState) : Prop where
  nodup : (q.lanes.map (·.1)).Nodup
  registered : ∀ p ∈ q.lanes, q.Named p.2 p.1
  running : ∀ task ∈ q.running, q.Named task.state task.lane

theorem lookupLane_mem {q : QueueState} {lane : String} {id : LaneId}
    (found : q.lookupLane lane = some id) : (lane, id) ∈ q.lanes := by
  obtain ⟨before, after, split, _⟩ := List.lookup_eq_some_iff.mp found
  simp [split]

theorem lookup_of_mem {α β : Type} [BEq α] [LawfulBEq α] {l : List (α × β)} {a : α} {b : β}
    (nodup : (l.map (·.1)).Nodup) (mem : (a, b) ∈ l) : l.lookup a = some b := by
  induction l with
  | nil => cases mem
  | cons head tail ih =>
      obtain ⟨notIn, nodup⟩ := List.nodup_cons.mp nodup
      rcases List.mem_cons.mp mem with rfl | mem
      · simp [List.lookup]
      · have differs : a ≠ head.1 := fun same =>
          notIn (List.mem_map.mpr ⟨(a, b), mem, same⟩)
        rw [show head = (head.1, head.2) from rfl, List.lookup_cons, beq_false_of_ne differs]
        exact ih nodup mem

theorem WellNamed.lookup_iff {q : QueueState} (wf : q.WellNamed) {lane : String} {id : LaneId} :
    q.lookupLane lane = some id ↔ (lane, id) ∈ q.lanes :=
  ⟨lookupLane_mem, lookup_of_mem wf.nodup⟩

theorem WellNamed.named {q : QueueState} (wf : q.WellNamed) {lane : String} {id : LaneId}
    (found : q.lookupLane lane = some id) : q.Named id lane :=
  wf.registered _ (lookupLane_mem found)

@[simp]
theorem lookup_filter_ne (l : List (String × LaneId)) (lane other : String) :
    (l.filter (·.1 ≠ lane)).lookup other = if other = lane then none else l.lookup other := by
  induction l with
  | nil => simp
  | cons head tail ih =>
      by_cases dropped : head.1 = lane
      · rw [List.filter_cons_of_neg (by simp [dropped]), ih]
        split
        · rfl
        · rename_i differs
          rw [show head = (head.1, head.2) from rfl, List.lookup_cons,
            beq_false_of_ne (dropped ▸ differs)]
      · rw [List.filter_cons_of_pos (by simp [dropped]), show head = (head.1, head.2) from rfl,
          List.lookup_cons, List.lookup_cons, ih]
        by_cases same : other = head.1
        · simp [same, dropped]
        · simp [beq_false_of_ne same]

theorem lookupLane_createLane (q : QueueState) (lane other : String) :
    (q.createLane lane).lookupLane other =
      (q.lookupLane other).or (if other = lane then some q.nextLaneId else none) := by
  simp only [lookupLane, createLane, List.lookup_append]
  by_cases same : other = lane
  · simp [List.lookup, same]
  · simp [List.lookup, same, beq_false_of_ne same]

/-- Retirement only drops a registry entry whose state is idle. -/
theorem retire_eq (q : QueueState) (id : LaneId) :
    q.retireIdleScopedCommandLane id = q ∨
      (q.states id).activeTaskIds = [] ∧ (q.states id).queue.length = 0 ∧
      isScopedLane (q.states id).lane ∧ q.lookupLane (q.states id).lane = some id ∧
      q.retireIdleScopedCommandLane id =
        { q with lanes := q.lanes.filter (·.1 ≠ (q.states id).lane) } := by
  simp only [retireIdleScopedCommandLane]
  split
  · exact .inl rfl
  · rename_i idle
    split
    · rename_i current
      simp only [Bool.or_eq_true, decide_eq_true_eq, Bool.not_eq_true', not_or,
        Bool.not_eq_false] at idle
      obtain ⟨⟨⟨⟨_, active⟩, queued⟩, _⟩, isScoped⟩ := idle
      refine .inr ⟨List.eq_nil_of_length_eq_zero (by omega), by omega, isScoped, current, rfl⟩
    · exact .inl rfl

/-- A completion of an older generation touches no lane state. -/
theorem completeTask_stale {q : QueueState} {task : TaskRun}
    (stale : task.generation ≠ (q.states task.state).generation) :
    q.completeTask task = (false, { q with running := q.running.filter (· ≠ task) }) := by
  simp [completeTask, stale]

theorem completeTask_current {q : QueueState} {task : TaskRun}
    (current : task.generation = (q.states task.state).generation) :
    q.completeTask task = (true, ({ q with running := q.running.filter (· ≠ task) }.updateState
      task.state fun state => { state with
        activeTaskIds := state.activeTaskIds.filter (· ≠ task.taskId) }).record
      (.released task.taskId)) := by
  simp [completeTask, current]

/-- A move keeps every existing lane state under its name. -/
theorem Move.named {q r : QueueState} (move : Move q r) {id : LaneId} {lane : String}
    (named : q.Named id lane) : r.Named id lane := by
  obtain ⟨known, name⟩ := named
  -- Replacing one lane state by a state of the same lane changes no name.
  have keeps : ∀ (states : LaneId → LaneState), (states id).lane = lane →
      ∀ (other : LaneId) (state : LaneState), state.lane = (states other).lane →
      (Function.update states other state id).lane = lane := by
    intro states base other state same
    by_cases here : id = other
    · subst here
      simpa [same] using base
    · simpa [here] using base
  cases move with
  | create =>
      refine ⟨Nat.lt_succ_of_lt known, ?_⟩
      simpa [createLane, Nat.ne_of_lt known] using name
  | guard other => exact ⟨known, keeps q.states name other _ rfl⟩
  | arbitrate => exact ⟨known, name⟩
  | retire other =>
      rcases retire_eq q other with same | ⟨-, -, -, -, dropped⟩
      · rw [same]
        exact ⟨known, name⟩
      · rw [dropped]
        exact ⟨known, name⟩
  | push _ other => exact ⟨known, keeps q.states name other _ rfl⟩
  | unlink entry => exact ⟨known, keeps q.states name (q.entries entry).state _ rfl⟩
  | clear other => exact ⟨known, keeps q.states name other _ rfl⟩
  | reset other => exact ⟨known, keeps q.states name other _ rfl⟩
  | complete task =>
      simp only [completeTask]
      split
      · exact ⟨known, name⟩
      · exact ⟨known, keeps q.states name task.state _ rfl⟩
  | width other => exact ⟨known, keeps q.states name other _ rfl⟩
  | start other =>
      refine ⟨known, keeps _ ?_ other _ rfl⟩
      exact keeps q.states name other _ rfl
  | settle => exact ⟨known, name⟩

theorem Change.named {q r : QueueState} (change : Change q r) {id : LaneId} {lane : String}
    (named : q.Named id lane) : r.Named id lane := by
  cases change with
  | move move => exact move.named named
  | install | clear | identify => exact named

theorem Changes.named {q r : QueueState} (changes : Changes q r) {id : LaneId} {lane : String}
    (named : q.Named id lane) : r.Named id lane := by
  induction changes with
  | refl => exact named
  | tail _ change ih => exact change.named ih

/-- The registry and the running tasks a move can leave behind. -/
theorem Move.wellNamed {q r : QueueState} (move : Move q r) (wf : q.WellNamed) : r.WellNamed := by
  have keep : r.lanes = q.lanes → (∀ task ∈ r.running, task ∈ q.running) → r.WellNamed := by
    intro lanes running
    refine ⟨lanes ▸ wf.nodup, fun p mem => ?_, fun task mem => ?_⟩
    · exact move.named (wf.registered p (lanes ▸ mem))
    · exact move.named (wf.running task (running task mem))
  cases move with
  | create lane absent =>
      have fresh : ∀ p ∈ q.lanes, p.1 ≠ lane := by
        intro p mem same
        have found := lookup_of_mem wf.nodup (show (p.1, p.2) ∈ q.lanes from mem)
        rw [same] at found
        simp [lookupLane, found] at absent
      refine ⟨?_, fun p mem => ?_, fun task mem => (Move.create lane absent).named (wf.running task mem)⟩
      · simpa [createLane, List.nodup_append, wf.nodup] using
          fun lane' id mem => fresh (lane', id) mem
      · rcases List.mem_append.mp mem with old | new
        · exact (Move.create lane absent).named (wf.registered p old)
        · rw [List.mem_singleton.mp new]
          exact ⟨Nat.lt_succ_self _, by simp [createLane]⟩
  | retire id =>
      rcases retire_eq q id with same | ⟨-, -, -, -, dropped⟩
      · rw [same]
        exact wf
      · rw [dropped]
        refine ⟨?_, fun p mem => wf.registered p (List.mem_of_mem_filter mem), wf.running⟩
        exact wf.nodup.sublist ((List.filter_sublist).map _)
  | complete task =>
      refine keep ?_ fun other mem => ?_
      · simp only [completeTask]
        split <;> rfl
      · simp only [completeTask] at mem
        split at mem <;> exact List.mem_of_mem_filter mem
  | start id lane entry rest owner admissible head =>
      have moved := Move.start id lane entry rest owner admissible head
      refine ⟨wf.nodup, fun p mem => moved.named (wf.registered p mem), fun task mem => ?_⟩
      rcases List.mem_append.mp mem with old | new
      · exact moved.named (wf.running task old)
      · rw [List.mem_singleton.mp new]
        exact moved.named owner
  | guard | arbitrate | push | unlink | clear | reset | width | settle =>
      exact keep rfl fun _ mem => mem

theorem Change.wellNamed {q r : QueueState} (change : Change q r) (wf : q.WellNamed) :
    r.WellNamed := by
  cases change with
  | move move => exact move.wellNamed wf
  | install | clear | identify => exact ⟨wf.nodup, wf.registered, wf.running⟩

theorem Changes.wellNamed {q r : QueueState} (changes : Changes q r) (wf : q.WellNamed) :
    r.WellNamed := by
  induction changes with
  | refl => exact wf
  | tail _ change ih => exact change.wellNamed ih

end QueueState
end CommandQueue
