import OpenClaw.CommandQueue.Dispatch

/-!
No lost wakeup. Operations started while nothing else runs establish the coverage
invariant, each frame iteration preserves it, and with an empty stack it says that
no lane wants a drain. The invariant needs numeric lane widths: a NaN width passes
the selection test of a group but not the loop test of its lane, so the group gives
up at a lane it cannot start.
-/

namespace CommandQueue
namespace QueueState

@[simp]
theorem retire_states (q : QueueState) (id : LaneId) :
    (q.retireIdleScopedCommandLane id).states = q.states := by
  rcases retire_eq q id with same | ⟨-, -, -, -, dropped⟩
  · rw [same]
  · rw [dropped]

@[simp]
theorem retire_drainingGroups (q : QueueState) (id : LaneId) :
    (q.retireIdleScopedCommandLane id).drainingGroups = q.drainingGroups := by
  rcases retire_eq q id with same | ⟨-, -, -, -, dropped⟩
  · rw [same]
  · rw [dropped]

theorem commitAdmission_width (q : QueueState) (id : LaneId) (lane : String) (entry : EntryId)
    (rest : LaneQueue) (other : LaneId) :
    ((q.commitAdmission id lane entry rest).states other).maxConcurrent = (q.states other).maxConcurrent ∧
      ((q.commitAdmission id lane entry rest).states other).draining = (q.states other).draining := by
  by_cases here : other = id
  · subst here
    simp [QueueState.commitAdmission, takeEntry, updateState, updateEntry]
  · simp [QueueState.commitAdmission, takeEntry, updateState, updateEntry, here]

theorem getMemberActiveCount_guard (q : QueueState) (id : LaneId) (draining : Bool) (lane : String) :
    (q.updateState id fun state => { state with draining := draining }).getMemberActiveCount lane =
      q.getMemberActiveCount lane := by
  have counts := getMemberActiveCount_update (q := q)
    (r := q.updateState id fun state => { state with draining := draining }) rfl rfl lane
  rw [counts]
  split
  · rename_i found
    simp [getMemberActiveCount, found]
  · rfl

end QueueState

/-- Every frame but a lane drain covers lanes through the group registry only. -/
theorem Frame.Covers.of_registry {q r : QueueState} {lane : String} {frame : Frame}
    (same : r.registry = q.registry) (other : ∀ id name, ∀ started, frame ≠ .drainLane id name none started)
    (covers : frame.Covers q lane) : frame.Covers r lane := by
  cases frame with
  | drainLane id name maxStarts started =>
      cases maxStarts with
      | none => exact absurd rfl (other id name started)
      | some bound => exact covers
  | drainGroup group identity =>
      obtain ⟨state, found, named⟩ := covers
      exact ⟨state, (QueueState.getLaneGroup_registry same lane).trans found, named⟩
  | drainLanes | callback | enqueued | settle => exact covers

namespace Machine
open QueueState

theorem isBase_frames {base : List Frame} (ok : IsBase base) : ∀ frame ∈ base, frame.IsBase := by
  intro frame mem
  rcases ok with empty | ⟨single, stack, isBase⟩
  · simp [empty] at mem
  · rw [stack, List.mem_singleton] at mem
    exact mem ▸ isBase

/-- The frames under a lane drain: an operation's frame, or the drain of its group. -/
def IsUnder (stack : List Frame) : Prop :=
  IsBase stack ∨ ∃ group identity base, stack = .drainGroup group identity :: base ∧ IsBase base

theorem isUnder_not_drainLane {rest : List Frame} (under : IsUnder rest) (id : LaneId) (name : String)
    (maxStarts : Option Nat) (started : Nat) : .drainLane id name maxStarts started ∉ rest := by
  intro mem
  rcases under with ok | ⟨group, identity, base, rfl, ok⟩
  · exact isBase_frames ok _ mem
  · rcases List.mem_cons.mp mem with same | mem
    · cases same
    · exact isBase_frames ok _ mem

section DrainLane

variable {m : Machine} {id : LaneId} {lane : String} {maxStarts : Option Nat} {started : Nat}
  {rest : List Frame}

theorem Attentive.leaveDrain (att : m.Attentive)
    (stack : m.stack = .drainLane id lane maxStarts started :: rest) (under : IsUnder rest)
    (returns : ∀ n : Machine, n.stack = rest → n.returnStarted started = n)
    (layout : ∀ r : QueueState, r.registry = m.queue.registry → Layout r rest)
    (done : ∀ other, m.queue.Wants other → ¬Frame.Covers m.queue other (.drainLane id lane maxStarts started)) :
    (m.leaveDrain id started rest).Attentive := by
  have left := leaveDrain_extends att.sound id started rest fun frame mem => by
    simp [stack, mem]
  have same := Moves.registry left.moves
  simp only [Machine.leaveDrain, returns] at left same ⊢
  refine ⟨left.sound, att.consistent.of_registry same, fun other => ?_, layout _ same,
    fun other draining => ?_, fun identity mem => ?_, fun other wants => ?_⟩
  · rw [retire_states]
    by_cases here : other = id
    · simpa [updateState, here] using att.numeric id
    · simpa [updateState, here] using att.numeric other
  · rw [retire_states] at draining
    by_cases here : other = id
    · simp [updateState, here] at draining
    · simp only [updateState, Function.update_of_ne here] at draining
      obtain ⟨name, bound, starts, mem⟩ := att.guards other draining
      rw [stack, List.mem_cons] at mem
      rcases mem with top | mem
      · cases top
        exact absurd rfl here
      · exact absurd mem (isUnder_not_drainLane under _ _ _ _)
  · rw [retire_drainingGroups] at mem
    obtain ⟨group, mem⟩ := att.arbiters identity mem
    rw [stack, List.mem_cons] at mem
    exact ⟨group, mem.resolve_left (by simp)⟩
  · have before := wants.of_retire.of_guard
    obtain ⟨frame, mem, covers⟩ := att.covered other before
    rw [stack, List.mem_cons] at mem
    rcases mem with rfl | mem
    · exact absurd covers (done other before)
    · refine ⟨frame, mem, covers.of_registry same fun id name starts top => ?_⟩
      exact isUnder_not_drainLane under _ _ _ _ (top ▸ mem)

/-- One iteration of a lane drain. -/
theorem Attentive.runDrainLane (att : m.Attentive) (now : Int)
    (stack : m.stack = .drainLane id lane maxStarts started :: rest) (under : IsUnder rest)
    (admitted : ∀ r : QueueState, r.registry = m.queue.registry →
      Layout r (.drainLane id lane maxStarts (started + 1) :: rest) ∧
      ∀ kind, Layout r (.callback kind :: .drainLane id lane maxStarts (started + 1) :: rest))
    (leaves : m.queue.canStart id lane maxStarts started = false →
      (m.leaveDrain id started rest).Attentive) :
    (m.runDrainLane now id lane maxStarts started rest).Attentive := by
  have ran := runDrainLane_extends att.sound now stack
  simp only [Machine.runDrainLane] at ran ⊢
  cases startable : m.queue.canStart id lane maxStarts started with
  | false => simpa using leaves startable
  | true =>
      rw [if_pos rfl]
      simp only [startable, if_true] at ran
      cases head : (m.queue.states id).queue.dequeueLaneQueue with
      | none =>
          have queued := (canStart_iff.mp startable).2.2.1
          exact absurd (dequeueLaneQueue_none head) (Nat.ne_of_gt queued)
      | some taken =>
          obtain ⟨entry, queue⟩ := taken
          simp only [head] at ran ⊢
          -- The admission and the optional wait callback keep the frames below.
          have next : ∀ n : Machine, n.queue = m.queue.commitAdmission id lane entry queue → n.Sound →
              Layout n.queue n.stack →
              (∀ frame ∈ .drainLane id lane maxStarts (started + 1) :: rest, frame ∈ n.stack) →
              n.Attentive := by
            intro n admits sound layout part
            have same : n.queue.registry = m.queue.registry := by rw [admits]; rfl
            refine ⟨sound, att.consistent.of_registry same, fun other => ?_, layout,
              fun other draining => ?_, fun identity mem => ?_, fun other wants => ?_⟩
            · rw [admits, (commitAdmission_width _ _ _ _ _ _).1]
              exact att.numeric other
            · rw [admits, (commitAdmission_width _ _ _ _ _ _).2] at draining
              obtain ⟨name, bound, starts, mem⟩ := att.guards other draining
              rw [stack, List.mem_cons] at mem
              rcases mem with top | mem
              · cases top
                exact ⟨_, _, _, part _ List.mem_cons_self⟩
              · exact ⟨_, _, _, part _ (List.mem_cons_of_mem _ mem)⟩
            · rw [admits] at mem
              obtain ⟨group, mem⟩ := att.arbiters identity mem
              rw [stack, List.mem_cons] at mem
              exact ⟨group, part _ (List.mem_cons_of_mem _ (mem.resolve_left (by simp)))⟩
            · rw [admits] at wants
              obtain ⟨frame, mem, covers⟩ := att.covered other (wants.of_commitAdmission head)
              rw [stack, List.mem_cons] at mem
              rcases mem with rfl | mem
              · refine ⟨_, part _ List.mem_cons_self, ?_⟩
                cases maxStarts with
                | none =>
                    rw [admits]
                    exact covers
                | some bound => exact covers.elim
              · refine ⟨frame, part _ (List.mem_cons_of_mem _ mem),
                  covers.of_registry same fun id name starts top => ?_⟩
                exact isUnder_not_drainLane under _ _ _ _ (top ▸ mem)
          split at ran
          · rename_i waited
            rw [if_pos waited]
            exact next _ rfl ran.sound
              ((admitted (m.queue.commitAdmission id lane entry queue) rfl).2 _) fun frame mem => List.mem_cons_of_mem _ mem
          · rename_i waited
            rw [if_neg waited]
            exact next _ rfl ran.sound (admitted (m.queue.commitAdmission id lane entry queue) rfl).1
              fun frame mem => mem

end DrainLane

theorem returnStarted_base {rest : List Frame} (ok : IsBase rest) (started : Nat) (n : Machine)
    (stack : n.stack = rest) : n.returnStarted started = n := by
  simp only [returnStarted]
  split
  · rename_i group identity below top
    rw [stack] at top
    exact (isBase_frames ok (.drainGroup group identity) (by simp [top])).elim
  · rfl

/-- One iteration of an unbounded lane drain. -/
theorem Attentive.runLane {m : Machine} (att : m.Attentive) (now : Int) {id : LaneId} {lane : String}
    {started : Nat} {base : List Frame} (stack : m.stack = .drainLane id lane none started :: base)
    (ok : IsBase base) : (m.runDrainLane now id lane none started base).Attentive := by
  refine att.runDrainLane now stack (.inl ok)
    (fun r _ => ⟨.lane id lane _ ok, fun kind => .laneWait kind id lane _ ok⟩) fun stopped => ?_
  refine att.leaveDrain stack (.inl ok) (returnStarted_base ok started) (fun _ _ => .base ok) ?_
  rintro other ⟨id', found, queued, free, admissible⟩ ⟨rfl, registered⟩
  cases found.symm.trans registered
  have startable : m.queue.canStart id lane none started = true :=
    canStart_iff.mpr ⟨by simp, free, queued, admissible⟩
  simp [startable] at stopped

/-- One iteration of the single-start drain of a group member. -/
theorem Attentive.runMember {m : Machine} (att : m.Attentive) (now : Int) {id : LaneId} {lane : String}
    {started : Nat} {state : LaneGroupState} {base : List Frame}
    (stack : m.stack = .drainLane id lane (some 1) started ::
      .drainGroup state.group state.identity :: base)
    (registered : m.queue.groups state.group = some state)
    (ready : started = 0 → m.queue.canStart id lane (some 1) 0 = true) (ok : IsBase base) :
    (m.runDrainLane now id lane (some 1) started
      (.drainGroup state.group state.identity :: base)).Attentive := by
  have under : IsUnder (.drainGroup state.group state.identity :: base) := .inr ⟨_, _, _, rfl, ok⟩
  have kept : ∀ r : QueueState, r.registry = m.queue.registry → r.groups state.group = some state :=
    fun r same => (Prod.mk.inj same).1 ▸ registered
  refine att.runDrainLane now stack under (fun r same => ⟨?_, fun kind => ?_⟩) fun stopped => ?_
  · exact .member id lane (started + 1) state (kept r same) (fun zero => by simp at zero) ok
  · exact .memberWait kind id lane started state (kept r same) ok
  · have some : started ≠ 0 := by
      rintro rfl
      simp [ready rfl] at stopped
    refine att.leaveDrain stack under (fun n top => ?_) (fun r same => .group state (kept r same) ok)
      fun other _ covers => covers
    simp [returnStarted, top, some]

/-- One iteration of the arbitration loop. -/
theorem Attentive.runGroup {m : Machine} (att : m.Attentive) {state : LaneGroupState}
    {base : List Frame} (stack : m.stack = .drainGroup state.group state.identity :: base)
    (registered : m.queue.groups state.group = some state) (ok : IsBase base) :
    (m.runDrainGroup state.group state.identity base).Attentive := by
  have ran := runDrainGroup_extends att.sound stack
  have still : ∀ id, (m.queue.states id).draining = false := by
    intro id
    by_contra draining
    obtain ⟨name, maxStarts, started, mem⟩ := att.guards id (by simpa using draining)
    rw [stack, List.mem_cons] at mem
    rcases mem with top | mem
    · cases top
    · exact isBase_frames ok _ mem
  simp only [runDrainGroup, registered, if_true] at ran ⊢
  cases chosen : m.queue.resolveNextGroupLane state with
  | some lane =>
      obtain ⟨mem, id, found, queued, -, open_, unblocked⟩ := resolveNextGroupLane_some chosen
      have free := Count.isAbove_of_not_isReachedBy (att.numeric id) open_
      have sibling : ∀ group, m.queue.getLaneGroup lane = some group → group = state := by
        intro group own
        obtain ⟨groupId, owned, named, reg⟩ := getLaneGroup_eq_some.mp own
        have theirs := (att.consistent.byLane lane state.group).mpr ⟨state, registered, mem⟩
        cases owned.symm.trans theirs
        exact Option.some.inj (reg.symm.trans registered)
      have admissible : m.queue.canAdmitInGroup lane = true := by
        simp only [canAdmitInGroup]
        cases own : m.queue.getLaneGroup lane with
        | none => rfl
        | some group => simp [sibling group own, unblocked]
      have startable : m.queue.canStart id lane (some 1) 0 = true :=
        canStart_iff.mpr ⟨by simp, free, queued, admissible⟩
      simp only [chosen, callDrainLane, QueueState.getLaneState, found, enterState, still id,
        Bool.false_eq_true, if_false] at ran ⊢
      rw [stack] at ran ⊢
      refine ⟨ran.sound, att.consistent.of_registry rfl, fun other => ?_,
        .member id lane 0 state registered (fun _ => ?_) ok, fun other draining => ?_,
        fun identity mem => ?_, fun other wants => ?_⟩
      · by_cases here : other = id
        · simpa [updateState, here] using att.numeric id
        · simpa [updateState, here] using att.numeric other
      · refine canStart_iff.mpr ⟨by simp, ?_, ?_, ?_⟩
        · simpa [updateState] using free
        · simpa [updateState] using queued
        · have counts := getMemberActiveCount_guard m.queue id true
          exact canAdmitInGroup_mono (r := m.queue) rfl (counts lane).le
            (fun _ _ member _ => (counts member).le) admissible
      · by_cases here : other = id
        · exact ⟨lane, some 1, 0, by simp [here]⟩
        · simp [updateState, here, still other] at draining
      · obtain ⟨group, mem⟩ := att.arbiters identity mem
        rw [stack] at mem
        exact ⟨group, List.mem_cons_of_mem _ mem⟩
      · obtain ⟨frame, mem, covers⟩ := att.covered other wants.of_guard
        rw [stack] at mem
        refine ⟨frame, List.mem_cons_of_mem _ mem, covers.of_registry rfl ?_⟩
        rintro id' name starts rfl
        exact isUnder_not_drainLane (.inr ⟨_, _, _, rfl, ok⟩) _ _ _ _ mem
  | none =>
      simp only [chosen] at ran ⊢
      refine ⟨ran.sound, att.consistent.of_registry rfl, att.numeric, .base ok,
        fun id draining => ?_, fun identity mem => ?_, fun other wants => ?_⟩
      · simp [exitGroup, still id] at draining
      · simp only [exitGroup, List.mem_filter, decide_eq_true_eq] at mem
        obtain ⟨group, inStack⟩ := att.arbiters identity mem.1
        rw [stack, List.mem_cons] at inStack
        rcases inStack with top | inStack
        · cases top
          exact absurd rfl mem.2
        · exact ⟨group, inStack⟩
      · have before : m.queue.Wants other := wants
        obtain ⟨frame, mem, covers⟩ := att.covered other before
        rw [stack, List.mem_cons] at mem
        rcases mem with rfl | mem
        · obtain ⟨group, found, named⟩ := covers
          obtain ⟨member, reg⟩ := att.consistent.mem_of_getLaneGroup found
          rw [named, registered] at reg
          cases reg
          obtain ⟨id, lookup, queued, free, admissible⟩ := before
          refine absurd ⟨id, lookup, queued, still id, Count.not_isReachedBy_of_isAbove free, ?_⟩
            (resolveNextGroupLane_none chosen other member)
          simpa [canAdmitInGroup, found] using admissible
        · exact ⟨frame, mem, covers.of_base (isBase_frames ok frame mem)⟩

/-- One step of a commit pass. -/
theorem Attentive.runLanes {m : Machine} (att : m.Attentive) {lanes : List String} {guarded : Bool}
    (stack : m.stack = [.drainLanes lanes guarded]) : (m.runDrainLanes lanes guarded []).Attentive := by
  have resting := att.resting (.inr ⟨_, stack, trivial⟩)
  have pass : ∀ other, m.queue.Wants other → other ∈ lanes := by
    intro other wants
    obtain ⟨frame, mem, covers⟩ := att.covered other wants
    rw [stack, List.mem_singleton] at mem
    exact (mem ▸ covers : Frame.Covers m.queue other (.drainLanes lanes guarded))
  have ran := runDrainLanes_extends att.sound stack
  cases lanes with
  | nil =>
      refine Resting.attentive ⟨ran.sound, att.consistent, att.numeric, .inl rfl, resting.still,
        resting.free⟩ fun other wants => ?_
      exact absurd (pass other wants) List.not_mem_nil
  | cons lane others =>
      have next : Resting { m with stack := [.drainLanes others guarded] } :=
        ⟨(att.sound.extend (n := ⟨m.queue, [.drainLanes others guarded]⟩) .refl fun frame mem => by
            rw [List.mem_singleton.mp mem]
            exact .inr trivial).sound, att.consistent, att.numeric,
          .inr ⟨_, rfl, trivial⟩, resting.still, resting.free⟩
      have split : ∀ other, m.queue.Wants other → other = lane ∨ other ∈ others := fun other wants =>
        List.mem_cons.mp (pass other wants)
      simp only [runDrainLanes]
      split
      · rename_i skipped
        refine next.attentive fun other wants => ?_
        rcases split other wants with rfl | later
        · obtain ⟨id, found, queued, free, -⟩ := wants
          have wide := Count.isAbove_of_le (Nat.zero_le _) free
          simp [wantsCommitDrain, found, queued, wide, resting.still id] at skipped
        · exact ⟨_, List.mem_cons_self, later⟩
      · refine next.drainReady (by simp) fun other wants => ?_
        rcases split other wants with rfl | later
        · exact .inr ⟨.inl rfl, by simp⟩
        · exact .inl ⟨_, List.mem_cons_self, later⟩

/-- Dropping a frame that covers nothing. -/
theorem Attentive.pop {m : Machine} (att : m.Attentive) {frame : Frame} (stack : m.stack = [frame])
    (idle : ∀ lane, ¬frame.Covers m.queue lane) (ok : frame.IsBase) {n : Machine}
    (extended : m.Extends n) (queue : ∃ history, n.queue = { m.queue with history := history })
    (below : IsBase n.stack ∨ n.stack = [.callback .onQueued]) : n.Attentive := by
  have resting := att.resting (.inr ⟨_, stack, ok⟩)
  obtain ⟨history, same⟩ := queue
  have none : ∀ lane, ¬n.queue.Wants lane := by
    intro lane wants
    rw [same] at wants
    obtain ⟨covering, mem, covers⟩ := att.covered lane wants
    rw [stack, List.mem_singleton] at mem
    exact idle lane (mem ▸ covers)
  refine ⟨extended.sound, ?_, ?_, ?_, fun id draining => ?_, fun identity mem => ?_,
    fun lane wants => absurd wants (none lane)⟩
  · exact att.consistent.of_registry (Moves.registry extended.moves)
  · rw [same]
    exact att.numeric
  · rcases below with base | waiting
    · exact .base base
    · exact waiting ▸ .onQueued
  · rw [same] at draining
    simp [resting.still id] at draining
  · rw [same] at mem
    simp [resting.free] at mem

/-- Returning from a callback. -/
theorem Attentive.ret {m : Machine} (att : m.Attentive) {kind : CallbackKind} {rest : List Frame}
    (stack : m.stack = .callback kind :: rest) (layout : Layout m.queue rest) :
    Attentive { m with stack := rest } := by
  have dropped := att.sound.drop rest fun frame mem => by simp [stack, mem]
  have below : ∀ frame : Frame, frame ∈ m.stack → (∀ kind, frame ≠ .callback kind) → frame ∈ rest := by
    intro frame mem other
    rw [stack, List.mem_cons] at mem
    exact mem.resolve_left (other kind)
  refine ⟨dropped.sound, att.consistent, att.numeric, layout, fun id draining => ?_,
    fun identity mem => ?_, fun lane wants => ?_⟩
  · obtain ⟨name, maxStarts, started, mem⟩ := att.guards id draining
    exact ⟨name, maxStarts, started, below _ mem (by simp)⟩
  · obtain ⟨group, mem⟩ := att.arbiters identity mem
    exact ⟨group, below _ mem (by simp)⟩
  · obtain ⟨frame, mem, covers⟩ := att.covered lane wants
    refine ⟨frame, below _ mem ?_, covers⟩
    rintro kind rfl
    exact covers

theorem internal_isWork {label : Label} (internal : ∀ now operation, label ≠ .call now operation) :
    label.isWork := by
  cases label with
  | call now operation => exact absurd rfl (internal now operation)
  | ret | run => rfl

/-- Every step that is not a call preserves the coverage invariant. -/
theorem Attentive.step {m n : Machine} (att : m.Attentive) {label : Label}
    (internal : ∀ now operation, label ≠ .call now operation) (taken : m.step label = some n) :
    n.Attentive := by
  have layout := att.layout
  generalize stack : m.stack = frames at layout
  cases layout with
  | base ok =>
      rcases ok with rfl | ⟨frame, rfl, isBase⟩
      · cases label with
        | call now operation => exact absurd rfl (internal now operation)
        | ret | run => simp [Machine.step, stack] at taken
      · cases frame with
        | drainLane | drainGroup | callback => exact isBase.elim
        | drainLanes lanes guarded =>
            cases label with
            | call now operation => exact absurd rfl (internal now operation)
            | ret => simp [Machine.step, stack] at taken
            | run now =>
                simp only [Machine.step, stack, Option.some.injEq] at taken
                exact taken ▸ att.runLanes stack
        | enqueued entry hasOnQueued =>
            have extended := step_extends att.sound (internal_isWork internal) taken
            cases label with
            | call now operation => exact absurd rfl (internal now operation)
            | ret => simp [Machine.step, stack] at taken
            | run now =>
                simp only [Machine.step, stack] at taken
                split at taken
                · cases taken
                  exact att.pop stack (fun _ covers => covers) isBase extended ⟨_, rfl⟩ (.inr rfl)
                · cases taken
                  exact att.pop stack (fun _ covers => covers) isBase extended ⟨_, rfl⟩ (.inl (.inl rfl))
        | settle entry succeeded =>
            have extended := step_extends att.sound (internal_isWork internal) taken
            cases label with
            | call now operation => exact absurd rfl (internal now operation)
            | ret => simp [Machine.step, stack] at taken
            | run now =>
                simp only [Machine.step, stack, Option.some.injEq] at taken
                subst taken
                exact att.pop stack (fun _ covers => covers) isBase extended ⟨_, rfl⟩ (.inl (.inl rfl))
  | onQueued =>
      cases label with
      | call now operation => exact absurd rfl (internal now operation)
      | run => simp [Machine.step, stack] at taken
      | ret =>
          simp only [Machine.step, stack, Option.some.injEq] at taken
          exact taken ▸ att.ret stack (.base (.inl rfl))
  | laneWait kind id name started ok =>
      cases label with
      | call now operation => exact absurd rfl (internal now operation)
      | run => simp [Machine.step, stack] at taken
      | ret =>
          simp only [Machine.step, stack, Option.some.injEq] at taken
          exact taken ▸ att.ret stack (.lane id name started ok)
  | memberWait kind id name started state registered ok =>
      cases label with
      | call now operation => exact absurd rfl (internal now operation)
      | run => simp [Machine.step, stack] at taken
      | ret =>
          simp only [Machine.step, stack, Option.some.injEq] at taken
          exact taken ▸ att.ret stack (.member id name _ state registered (fun zero => by simp at zero) ok)
  | lane id name started ok =>
      cases label with
      | call now operation => exact absurd rfl (internal now operation)
      | ret => simp [Machine.step, stack] at taken
      | run now =>
          simp only [Machine.step, stack, Option.some.injEq] at taken
          exact taken ▸ att.runLane now stack ok
  | group state registered ok =>
      cases label with
      | call now operation => exact absurd rfl (internal now operation)
      | ret => simp [Machine.step, stack] at taken
      | run now =>
          simp only [Machine.step, stack, Option.some.injEq] at taken
          exact taken ▸ att.runGroup stack registered ok
  | member id name started state registered ready ok =>
      cases label with
      | call now operation => exact absurd rfl (internal now operation)
      | ret => simp [Machine.step, stack] at taken
      | run now =>
          simp only [Machine.step, stack, Option.some.injEq] at taken
          exact taken ▸ att.runMember now stack registered ready ok

end Machine
end CommandQueue
