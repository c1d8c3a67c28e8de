import OpenClaw.CommandQueue.Moves
import OpenClaw.Lib.Transition

/-!
The decomposition of machine steps into moves. It needs one fact about the control
stack: a drain frame runs on a lane state of the lane it was called for.
-/

namespace CommandQueue
open QueueState

/-- A drain frame runs on a lane state of its lane. -/
def Frame.Named (q : QueueState) : Frame → Prop
  | .drainLane id lane _ _ => q.Named id lane
  | _ => True

theorem Frame.Named.changes {q r : QueueState} {frame : Frame} (named : frame.Named q)
    (changes : Changes q r) : frame.Named r := by
  cases frame with
  | drainLane => exact Changes.named changes named
  | drainGroup | drainLanes | callback | enqueued | settle => trivial

namespace Machine

structure Sound (m : Machine) : Prop where
  wellNamed : m.queue.WellNamed
  frames : ∀ frame ∈ m.stack, frame.Named m.queue

/-- `Extends m n`: `n` is reached by moves, and its stack holds sound frames. -/
structure Extends (m n : Machine) : Prop where
  moves : Moves m.queue n.queue
  sound : n.Sound

theorem Sound.extend {m n : Machine} (sound : m.Sound) (moves : Moves m.queue n.queue)
    (frames : ∀ frame ∈ n.stack, frame ∈ m.stack ∨ frame.Named n.queue) : m.Extends n := by
  refine ⟨moves, Changes.wellNamed moves.changes sound.wellNamed, fun frame mem => ?_⟩
  rcases frames frame mem with old | named
  · exact (sound.frames frame old).changes moves.changes
  · exact named

theorem Extends.trans {m n k : Machine} (first : m.Extends n) (second : n.Extends k) :
    m.Extends k :=
  ⟨first.moves.trans second.moves, second.sound⟩

theorem Sound.refl {m : Machine} (sound : m.Sound) : m.Extends m := ⟨.refl, sound⟩

/-- Replacing the stack by a part of it. -/
theorem Sound.drop {m : Machine} (sound : m.Sound) (stack : List Frame)
    (part : ∀ frame ∈ stack, frame ∈ m.stack) : m.Extends { m with stack := stack } :=
  sound.extend .refl fun frame mem => .inl (part frame mem)

theorem exitGroup_extends {m : Machine} (sound : m.Sound) (identity : GroupIdentity)
    {rest : List Frame} (part : ∀ frame ∈ rest, frame ∈ m.stack) :
    m.Extends (m.exitGroup identity rest) :=
  sound.extend (.single (.arbitrate _)) fun frame mem => .inl (part frame mem)

theorem returnStarted_extends {m : Machine} (sound : m.Sound) (started : Nat) :
    m.Extends (m.returnStarted started) := by
  simp only [returnStarted]
  split
  · rename_i group identity rest stack
    split
    · refine exitGroup_extends sound identity fun frame mem => ?_
      simp [stack, mem]
    · exact sound.refl
  · exact sound.refl

theorem enterState_extends {m : Machine} (sound : m.Sound) {id : LaneId} {lane : String}
    (named : m.queue.Named id lane) (maxStarts : Option Nat) :
    m.Extends (m.enterState id lane maxStarts) := by
  simp only [enterState]
  split
  · exact returnStarted_extends sound 0
  · refine sound.extend (.single (.guard id true)) fun frame mem => ?_
    rcases List.mem_cons.mp mem with rfl | old
    · exact .inr ((Move.guard id true).named named)
    · exact .inl old

theorem getLaneState_spec (q : QueueState) (lane : String) :
    Moves q (q.getLaneState lane).2 ∧
      (q.getLaneState lane).2.lookupLane lane = some (q.getLaneState lane).1 := by
  simp only [getLaneState]
  cases found : q.lookupLane lane with
  | some id => exact ⟨.refl, found⟩
  | none =>
      refine ⟨.single (.create lane found), ?_⟩
      simp [lookupLane_createLane, found]

theorem callDrainLane_extends {m : Machine} (sound : m.Sound) (lane : String)
    (maxStarts : Option Nat) (captured : Option LaneId)
    (named : ∀ id ∈ captured, m.queue.Named id lane) :
    m.Extends (m.callDrainLane lane maxStarts captured) := by
  cases captured with
  | some id => exact enterState_extends sound (named id rfl) maxStarts
  | none =>
      obtain ⟨moves, found⟩ := getLaneState_spec m.queue lane
      have created : m.Extends { m with queue := (m.queue.getLaneState lane).2 } :=
        sound.extend moves fun frame mem => .inl mem
      exact created.trans
        (enterState_extends created.sound (created.sound.wellNamed.named found) maxStarts)

theorem drainReady_extends {m : Machine} (sound : m.Sound) (lane : String)
    (captured : Option LaneId) (named : ∀ id ∈ captured, m.queue.Named id lane) :
    m.Extends (m.drainReady lane captured) := by
  simp only [drainReady]
  split
  · split
    · exact sound.refl
    · refine sound.extend (.single (.arbitrate _)) fun frame mem => ?_
      rcases List.mem_cons.mp mem with rfl | old
      · exact .inr trivial
      · exact .inl old
  · exact callDrainLane_extends sound lane none captured named

theorem leaveDrain_extends {m : Machine} (sound : m.Sound) (id : LaneId) (started : Nat)
    (rest : List Frame) (part : ∀ frame ∈ rest, frame ∈ m.stack) :
    m.Extends (m.leaveDrain id started rest) := by
  simp only [leaveDrain]
  have left := sound.extend (n := ⟨(m.queue.updateState id fun state =>
      { state with draining := false }).retireIdleScopedCommandLane id, rest⟩)
    (.tail (.single (.guard id false)) (.retire id)) fun frame mem => .inl (part frame mem)
  exact left.trans (returnStarted_extends left.sound started)

theorem push_extends {m : Machine} (sound : m.Sound) {frame : Frame}
    (named : frame.Named m.queue) : m.Extends (m.push frame) := by
  refine sound.extend .refl fun other mem => ?_
  rcases List.mem_cons.mp mem with rfl | old
  · exact .inr named
  · exact .inl old

theorem runDrainLane_extends {m : Machine} (sound : m.Sound) (now : Int) {id : LaneId}
    {lane : String} {maxStarts : Option Nat} {started : Nat} {rest : List Frame}
    (stack : m.stack = .drainLane id lane maxStarts started :: rest) :
    m.Extends (m.runDrainLane now id lane maxStarts started rest) := by
  have part : ∀ frame ∈ rest, frame ∈ m.stack := by
    intro frame mem
    simp [stack, mem]
  have owner : m.queue.Named id lane := sound.frames (.drainLane id lane maxStarts started)
    (by simp [stack])
  simp only [runDrainLane]
  split
  · rename_i startable
    have admissible : m.queue.canAdmitInGroup lane := by
      simp only [canStart, Bool.and_eq_true] at startable
      exact startable.2
    split
    · rename_i entry queue head
      have move := Move.start id lane entry queue owner admissible head
      have admitted : m.Extends ⟨m.queue.commitAdmission id lane entry queue,
          .drainLane id lane maxStarts (started + 1) :: rest⟩ := by
        refine sound.extend (.single move) fun frame mem => ?_
        rcases List.mem_cons.mp mem with rfl | old
        · exact .inr (move.named owner)
        · exact .inl (part frame old)
      split
      · exact admitted.trans (push_extends admitted.sound trivial)
      · exact admitted
    · exact leaveDrain_extends sound id started rest part
  · exact leaveDrain_extends sound id started rest part

theorem runDrainGroup_extends {m : Machine} (sound : m.Sound) {group : String}
    {identity : GroupIdentity} {rest : List Frame}
    (stack : m.stack = .drainGroup group identity :: rest) :
    m.Extends (m.runDrainGroup group identity rest) := by
  have leave : m.Extends (m.exitGroup identity rest) :=
    exitGroup_extends sound identity fun frame mem => by simp [stack, mem]
  simp only [runDrainGroup]
  split
  · split
    · split
      · exact callDrainLane_extends sound _ _ none (by simp)
      · exact leave
    · exact leave
  · exact leave

theorem runDrainLanes_extends {m : Machine} (sound : m.Sound) {lanes : List String}
    {guarded : Bool} {rest : List Frame} (stack : m.stack = .drainLanes lanes guarded :: rest) :
    m.Extends (m.runDrainLanes lanes guarded rest) := by
  have part : ∀ frame ∈ rest, frame ∈ m.stack := by
    intro frame mem
    simp [stack, mem]
  cases lanes with
  | nil => exact sound.drop _ part
  | cons lane others =>
      have advanced : m.Extends { m with stack := .drainLanes others guarded :: rest } := by
        refine sound.extend .refl fun frame mem => ?_
        rcases List.mem_cons.mp mem with rfl | old
        · exact .inr trivial
        · exact .inl (part frame old)
      simp only [runDrainLanes]
      split
      · exact advanced
      · exact advanced.trans (drainReady_extends advanced.sound lane none (by simp))

theorem clearQueue_moves (id : LaneId) (n : Nat) (q : QueueState) :
    Moves q (QueueState.clearQueue id n q) := by
  induction n generalizing q with
  | zero => exact .refl
  | succ n ih =>
      simp only [QueueState.clearQueue]
      split
      · rename_i entry rest head
        exact .head (.clear id entry rest head) (ih _)
      · exact .refl

theorem foldl_resetState_moves (ids : List LaneId) (q : QueueState) :
    Moves q (ids.foldl QueueState.resetState q) := by
  induction ids generalizing q with
  | nil => exact .refl
  | cons id ids ih => exact .head (.reset id) (ih _)

theorem setMaxConcurrent_moves (q : QueueState) (lane : String) (maxConcurrent : JsNumber) :
    Moves q (q.setMaxConcurrent lane maxConcurrent) :=
  (getLaneState_spec q lane).1.tail (.width _ _)

theorem abortEntry_moves (q : QueueState) (entry : EntryId) : Moves q (q.abortEntry entry) := by
  simp only [QueueState.abortEntry]
  split
  · rename_i queued
    exact .tail (.single (.unlink entry queued)) (.retire _)
  · exact .refl

theorem enqueue_extends {m : Machine} (sound : m.Sound) (now : Int) (lane : String)
    (opts : EnqueueOptions) : m.Extends (m.begin now (.enqueueCommandInLane lane opts)) := by
  simp only [begin]
  split
  · exact sound.refl
  · obtain ⟨moves, found⟩ := getLaneState_spec m.queue (normalizeLane lane)
    have pushed : m.Extends
        ⟨((m.queue.getLaneState (normalizeLane lane)).2.pushEntry
          (m.queue.getLaneState (normalizeLane lane)).1 now opts).2,
          .enqueued ((m.queue.getLaneState (normalizeLane lane)).2.pushEntry
            (m.queue.getLaneState (normalizeLane lane)).1 now opts).1 opts.hasOnQueued :: m.stack⟩ := by
      refine sound.extend (moves.tail (.push _ _ now opts found)) fun frame mem => ?_
      rcases List.mem_cons.mp mem with rfl | old
      · exact .inr trivial
      · exact .inl old
    exact pushed.trans (drainReady_extends pushed.sound _ none (by simp))

theorem complete_extends {m : Machine} (sound : m.Sound) (now : Int) {task : TaskRun}
    (succeeded : Bool) (running : task ∈ m.queue.running) :
    m.Extends (m.begin now (.complete task succeeded)) := by
  have move := Move.complete task running
  have completed : m.Extends ⟨(m.queue.completeTask task).2, .settle task.entry succeeded :: m.stack⟩ := by
    refine sound.extend (.single move) fun frame mem => ?_
    rcases List.mem_cons.mp mem with rfl | old
    · exact .inr trivial
    · exact .inl old
  simp only [begin]
  split
  · refine completed.trans (drainReady_extends completed.sound _ _ fun id captured => ?_)
    cases captured
    exact move.named (sound.wellNamed.running task running)
  · exact completed

/-- An admitted operation other than a publication only makes moves. -/
theorem begin_extends {m : Machine} (sound : m.Sound) (now : Int) {operation : Operation}
    (admitted : m.admits operation)
    (work : ∀ config, operation ≠ .publishLaneConfiguration config) :
    m.Extends (m.begin now operation) := by
  cases operation with
  | enqueueCommandInLane lane opts => exact enqueue_extends sound now lane opts
  | complete task succeeded =>
      simp only [admits, Bool.and_eq_true, decide_eq_true_eq] at admitted
      exact complete_extends sound now succeeded admitted.2
  | abort entry => exact sound.extend (abortEntry_moves _ _) fun frame mem => .inl mem
  | clearCommandLane lane =>
      refine sound.extend (n := ⟨m.queue.clearCommandLane lane, m.stack⟩) ?_ fun frame mem => .inl mem
      simp only [QueueState.clearCommandLane]
      split
      · exact clearQueue_moves _ _ _
      · exact .refl
  | resetCommandLane lane =>
      simp only [begin]
      split
      · rename_i id found
        have reset : m.Extends { m with queue := m.queue.resetState id } :=
          sound.extend (.single (.reset id)) fun frame mem => .inl mem
        exact reset.trans (drainReady_extends reset.sound _ none (by simp))
      · exact sound.refl
  | resetAllLanes =>
      refine sound.extend (foldl_resetState_moves _ _) fun frame mem => ?_
      rcases List.mem_cons.mp mem with rfl | old
      · exact .inr trivial
      · exact .inl old
  | setCommandLaneConcurrency lane maxConcurrent =>
      have widened : m.Extends
          { m with queue := m.queue.setMaxConcurrent (normalizeLane lane) maxConcurrent } :=
        sound.extend (setMaxConcurrent_moves _ _ _) fun frame mem => .inl mem
      simp only [begin]
      split
      · exact widened.trans (drainReady_extends widened.sound _ none (by simp))
      · exact widened
  | publishLaneConfiguration config => exact absurd rfl (work config)

/-- Validation reads no state: it succeeds with one group per spec, or fails. -/
theorem validateGroups_run (groups : List (String × CommandLaneGroupSpec)) (identity : GroupIdentity)
    (m : Machine) :
    (∃ validated, (validateGroups identity groups).run m = .ok validated m ∧
      List.Forall₂ (fun entry next => ∃ identity,
        validateCommandLaneGroupSpec identity entry.1 entry.2 = .ok next) groups validated) ∨
    ∃ error, (validateGroups identity groups).run m = .error error m := by
  induction groups generalizing identity with
  | nil => exact .inl ⟨[], rfl, .nil⟩
  | cons entry rest ih =>
      obtain ⟨group, spec⟩ := entry
      cases checked : validateCommandLaneGroupSpec identity group spec with
      | error error =>
          refine .inr ⟨error, ?_⟩
          simp [validateGroups, checked, EStateM.run, bind, EStateM.bind, MonadExcept.ofExcept,
            throw, throwThe, MonadExceptOf.throw, EStateM.throw]
      | ok next =>
          rcases ih (identity + 1) with ⟨validated, succeeded, valid⟩ | ⟨error, failed⟩
          · refine .inl ⟨next :: validated, ?_, .cons ⟨identity, checked⟩ valid⟩
            simp only [EStateM.run] at succeeded
            simp [validateGroups, checked, EStateM.run, bind, EStateM.bind, MonadExcept.ofExcept,
              pure, EStateM.pure, succeeded]
          · refine .inr ⟨error, ?_⟩
            simp only [EStateM.run] at failed
            simp [validateGroups, checked, EStateM.run, bind, EStateM.bind, MonadExcept.ofExcept,
              pure, EStateM.pure, failed]

/-- A publication either fails with the machine it was called on, or commits one
validated group per spec. -/
theorem publish_run (m : Machine) (config : LaneConfiguration) :
    (∃ validated, (publishLaneConfiguration config).run m =
        .ok () (m.commitConfiguration config validated) ∧
      List.Forall₂ (fun entry next => ∃ identity,
        validateCommandLaneGroupSpec identity entry.1 entry.2 = .ok next) config.groups validated) ∨
    ∃ error, (publishLaneConfiguration config).run m = .error error m := by
  rcases validateGroups_run config.groups m.queue.nextGroupIdentity m with
    ⟨validated, succeeded, valid⟩ | ⟨error, failed⟩
  · refine .inl ⟨validated, ?_, valid⟩
    simp only [EStateM.run] at succeeded
    simp [publishLaneConfiguration, EStateM.run, bind, EStateM.bind, get, getThe, MonadStateOf.get,
      EStateM.get, modify, modifyGet, MonadStateOf.modifyGet, EStateM.modifyGet, succeeded]
  · refine .inr ⟨error, ?_⟩
    simp only [EStateM.run] at failed
    simp [publishLaneConfiguration, EStateM.run, bind, EStateM.bind, get, getThe, MonadStateOf.get,
      EStateM.get, failed]

theorem foldl_changes {α β : Type} (queue : β → QueueState) (f : β → α → β)
    (one : ∀ acc a, Changes (queue acc) (queue (f acc a))) (items : List α) (acc : β) :
    Changes (queue acc) (queue (items.foldl f acc)) := by
  induction items generalizing acc with
  | nil => exact .refl
  | cons a items ih => exact (one acc a).trans (ih (f acc a))

theorem installConfiguration_changes (q : QueueState) (config : LaneConfiguration)
    (validated : List LaneGroupState) :
    Changes q (q.installConfiguration config validated).1 := by
  have lanes := foldl_changes Prod.fst QueueState.publishLane
    (fun acc entry => (setMaxConcurrent_moves acc.1 _ entry.2).changes) config.lanes (q, [])
  refine (lanes.trans ?_).trans (foldl_changes Prod.fst QueueState.publishGroup
    (fun acc next => .single (.install next)) validated _)
  refine foldl_changes Prod.fst QueueState.publishClear (fun acc group => ?_) _ _
  simp only [QueueState.publishClear]
  split
  · exact .single (.clear group)
  · exact .refl

theorem Sound.change {m n : Machine} (sound : m.Sound) (changes : Changes m.queue n.queue)
    (frames : ∀ frame ∈ n.stack, frame ∈ m.stack ∨ frame.Named n.queue) : n.Sound := by
  refine ⟨Changes.wellNamed changes sound.wellNamed, fun frame mem => ?_⟩
  rcases frames frame mem with old | named
  · exact (sound.frames frame old).changes changes
  · exact named

theorem publish_changes {m : Machine} (sound : m.Sound) (now : Int) (config : LaneConfiguration) :
    Changes m.queue (m.begin now (.publishLaneConfiguration config)).queue ∧
      (m.begin now (.publishLaneConfiguration config)).Sound := by
  rcases publish_run m config with ⟨validated, committed, -⟩ | ⟨error, failed⟩
  · have changes : Changes m.queue (m.commitConfiguration config validated).queue :=
      (installConfiguration_changes m.queue config validated).tail (.identify _)
    simp only [begin, committed]
    refine ⟨changes, sound.change changes fun frame mem => ?_⟩
    rcases List.mem_cons.mp mem with rfl | old
    · exact .inr trivial
    · exact .inl old
  · simp only [begin, failed]
    exact ⟨.refl, sound⟩

/-- A label other than a publication. -/
def Label.isWork : Label → Bool
  | .call _ (.publishLaneConfiguration _) => false
  | _ => true

theorem Label.publishes_or_isWork (label : Label) :
    (∃ now config, label = .call now (.publishLaneConfiguration config)) ∨ label.isWork := by
  cases label with
  | call now operation =>
      cases operation with
      | publishLaneConfiguration config => exact .inl ⟨now, config, rfl⟩
      | enqueueCommandInLane | complete | abort | clearCommandLane | resetCommandLane
      | resetAllLanes | setCommandLaneConcurrency => exact .inr rfl
  | ret | run => exact .inr rfl

/-- Every step but a publication is a sequence of moves. -/
theorem step_extends {m n : Machine} {label : Label} (sound : m.Sound) (work : label.isWork)
    (taken : m.step label = some n) : m.Extends n := by
  cases label with
  | call now operation =>
      simp only [step, Option.ite_none_right_eq_some, Option.some.injEq] at taken
      obtain ⟨admitted, rfl⟩ := taken
      exact begin_extends sound now admitted fun config same => by
        rw [same] at work
        exact Bool.false_ne_true work
  | ret =>
      simp only [step] at taken
      split at taken
      · rename_i kind rest stack
        cases taken
        exact sound.drop _ fun frame mem => by simp [stack, mem]
      · cases taken
  | run now =>
      have part : ∀ {top : Frame} {rest : List Frame}, m.stack = top :: rest →
          ∀ frame ∈ rest, frame ∈ m.stack := fun stack frame mem => by simp [stack, mem]
      simp only [step] at taken
      split at taken
      · cases taken
        exact runDrainLane_extends sound now ‹_›
      · cases taken
        exact runDrainGroup_extends sound ‹_›
      · cases taken
        exact runDrainLanes_extends sound ‹_›
      · rename_i entry hasOnQueued rest stack
        split at taken
        · cases taken
          refine sound.extend .refl fun frame mem => ?_
          rcases List.mem_cons.mp mem with rfl | old
          · exact .inr trivial
          · exact .inl (part stack frame old)
        · cases taken
          exact sound.drop _ (part stack)
      · rename_i entry succeeded rest stack
        cases taken
        exact sound.extend (.single (.settle entry succeeded))
          fun frame mem => .inl (part stack frame mem)
      · cases taken
      · cases taken

/-- Every step is a sequence of changes. -/
theorem step_changes {m n : Machine} {label : Label} (sound : m.Sound)
    (taken : m.step label = some n) : Changes m.queue n.queue ∧ n.Sound := by
  rcases label.publishes_or_isWork with ⟨now, config, rfl⟩ | work
  · simp only [step, Option.ite_none_right_eq_some, Option.some.injEq] at taken
    obtain ⟨-, rfl⟩ := taken
    exact publish_changes sound now config
  · have extended := step_extends sound work taken
    exact ⟨Moves.changes extended.moves, extended.sound⟩

theorem sound_init : Sound {} where
  wellNamed := ⟨List.nodup_nil, fun _ mem => absurd mem List.not_mem_nil,
    fun _ mem => absurd mem List.not_mem_nil⟩
  frames _ mem := absurd mem List.not_mem_nil

theorem reaches_sound {ok : Machine → Label → Prop} {m : Machine}
    (run : Transition.Reaches step ok {} m) : m.Sound :=
  run.invariant sound_init fun _ _ _ sound _ taken => (step_changes sound taken).2

theorem reaches_changes {ok : Machine → Label → Prop} {m : Machine}
    (run : Transition.Reaches step ok {} m) : Changes {} m.queue := by
  induction run with
  | refl => exact .refl
  | tail run _ taken ih => exact ih.trans (step_changes (reaches_sound run) taken).1

end Machine
end CommandQueue
