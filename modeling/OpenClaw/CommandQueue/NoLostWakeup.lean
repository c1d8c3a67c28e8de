import OpenClaw.CommandQueue.Wakeup

/-!
Operations called on an idle queue. Each of them drains exactly the lanes it may
have made startable: its own lane and the group of that lane, every queued lane
after a full reset, and every touched lane after a publication.
-/

namespace CommandQueue
namespace QueueState

theorem mem_touch {touched : List String} {lane other : String} :
    other ∈ touch touched lane ↔ other ∈ touched ∨ other = lane := by
  simp only [touch]
  split
  · rename_i mem
    exact ⟨.inl, fun either => either.elim (fun old => old) fun same => same ▸ mem⟩
  · simp

theorem mem_foldl_touch {lanes touched : List String} {other : String} :
    other ∈ lanes.foldl touch touched ↔ other ∈ touched ∨ other ∈ lanes := by
  induction lanes generalizing touched with
  | nil => simp
  | cons lane lanes ih => rw [List.foldl_cons, ih, mem_touch, List.mem_cons, or_assoc]

theorem mem_foldl_foldl_touch {α : Type} {items : List α} {f : α → List String}
    {touched : List String} {other : String} :
    other ∈ items.foldl (fun touched item => (f item).foldl touch touched) touched ↔
      other ∈ touched ∨ ∃ item ∈ items, other ∈ f item := by
  induction items generalizing touched with
  | nil => simp
  | cons item items ih => rw [List.foldl_cons, ih, mem_foldl_touch, List.exists_mem_cons_iff, or_assoc]

/-- Part of a publication leaves the lanes it does not touch as they were. -/
structure Undisturbed (before after : QueueState × List String) : Prop where
  touched : before.2 ⊆ after.2
  wants : ∀ lane, lane ∉ after.2 → after.1.Wants lane → before.1.Wants lane

theorem Undisturbed.refl (acc : QueueState × List String) : Undisturbed acc acc :=
  ⟨List.Subset.refl _, fun _ _ wants => wants⟩

theorem Undisturbed.trans {a b c : QueueState × List String} (first : Undisturbed a b)
    (second : Undisturbed b c) : Undisturbed a c :=
  ⟨List.Subset.trans first.touched second.touched, fun lane absent wants =>
    first.wants lane (fun mem => absent (second.touched mem)) (second.wants lane absent wants)⟩

theorem Wants.of_setMaxConcurrent {q : QueueState} (wf : q.WellNamed) {lane other : String}
    {maxConcurrent : JsNumber} (wants : (q.setMaxConcurrent lane maxConcurrent).Wants other) :
    other = lane ∨ q.Wants other := by
  have spec := Machine.getLaneState_spec q lane
  have wf' := Changes.wellNamed (Moves.changes spec.1) wf
  rcases wants.of_update_eq (q := (q.getLaneState lane).2) (q.getLaneState lane).1
    rfl rfl rfl rfl with registered | before
  · exact .inl ((wf'.named registered).2.symm.trans (wf'.named spec.2).2)
  · exact .inr (before.of_getLaneState wf)

theorem publishLane_undisturbed {acc : QueueState × List String} (wf : acc.1.WellNamed)
    (entry : String × JsNumber) : Undisturbed acc (publishLane acc entry) where
  touched := fun _ mem => mem_touch.mpr (.inl mem)
  wants lane absent wants := by
    refine (wants.of_setMaxConcurrent wf).resolve_left fun same => absent ?_
    exact mem_touch.mpr (.inr same)

/-- With the same lanes and group, a lane wants a drain as before. -/
theorem Wants.of_getLaneGroup {q r : QueueState} {lane : String} (wants : r.Wants lane)
    (lanes : r.lanes = q.lanes) (states : r.states = q.states)
    (group : r.getLaneGroup lane = q.getLaneGroup lane) : q.Wants lane := by
  obtain ⟨id, found, queued, free, admissible⟩ := wants
  rw [lookupLane, lanes] at found
  rw [states] at queued free
  refine ⟨id, found, queued, free, ?_⟩
  have counts : r.getMemberActiveCount = q.getMemberActiveCount := by
    funext member
    simp only [getMemberActiveCount, lookupLane, lanes, states]
  simp only [canAdmitInGroup, group] at admissible ⊢
  cases found : q.getLaneGroup lane with
  | none => rfl
  | some state =>
      simp only [found, decide_eq_true_eq] at admissible ⊢
      exact resolveGroupBlockReason_mono (congrFun counts lane).ge
        (fun member _ => (congrFun counts member).ge) admissible

theorem publishClear_undisturbed {acc : QueueState × List String} (consistent : acc.1.Consistent)
    (group : String) : Undisturbed acc (publishClear acc group) := by
  simp only [publishClear]
  split
  · rename_i existing found
    refine ⟨fun _ mem => mem_foldl_touch.mpr (.inl mem), fun lane absent wants => ?_⟩
    have outside : lane ∉ existing.members := fun mem => absent (mem_foldl_touch.mpr (.inr mem))
    refine wants.of_getLaneGroup rfl rfl ?_
    have listed : acc.1.groupMembers group = existing.members := by simp [groupMembers, found]
    simp only [getLaneGroup, clearGroup, forgetMembers, listed, outside, if_false]
    cases owned : acc.1.groupByLane lane with
    | none => rfl
    | some other =>
        have differs : other ≠ group := by
          rintro rfl
          obtain ⟨state, registered, mem⟩ := (consistent.byLane lane other).mp owned
          cases found.symm.trans registered
          exact outside mem
        simp [differs]
  · exact .refl acc

theorem foldl_detachMember_of_ne (next : LaneGroupState) {groupByLane : String → Option String}
    {group : String} {members : List String} (groups : String → Option LaneGroupState)
    (foreign : ∀ member ∈ members, groupByLane member ≠ some group) :
    members.foldl (detachMember next groupByLane) groups group = groups group := by
  induction members generalizing groups with
  | nil => rfl
  | cons member members ih =>
      obtain ⟨head, tail⟩ := List.forall_mem_cons.mp foreign
      rw [List.foldl_cons, ih _ tail]
      simp only [detachMember]
      cases owned : groupByLane member with
      | none => rfl
      | some owner =>
          have differs : group ≠ owner := fun same => head (same ▸ owned)
          simp only
          split
          · exact Function.update_of_ne differs _ _
          · rfl

theorem publishGroup_undisturbed {acc : QueueState × List String} (consistent : acc.1.Consistent)
    (next : LaneGroupState) : Undisturbed acc (publishGroup acc next) := by
  refine ⟨fun lane mem => ?_, fun lane absent wants => ?_⟩
  · exact mem_foldl_touch.mpr (.inl (mem_foldl_foldl_touch.mpr (.inl (mem_foldl_touch.mpr (.inl mem)))))
  · simp only [publishGroup, mem_foldl_touch, mem_foldl_foldl_touch, not_or, not_exists,
      not_and] at absent
    obtain ⟨⟨⟨-, previous⟩, siblings⟩, members⟩ := absent
    refine wants.of_getLaneGroup rfl rfl ?_
    simp only [publishGroup, installCommandLaneGroup, getLaneGroup, members, if_false,
      forgetMembers, previous]
    cases owned : acc.1.groupByLane lane with
    | none => rfl
    | some group =>
        have listed : lane ∈ acc.1.groupMembers group :=
          mem_groupMembers.mpr ((consistent.byLane lane group).mp owned)
        have differs : group ≠ next.group := by
          rintro rfl
          exact previous listed
        have foreign : ∀ member ∈ next.members,
            forgetMembers (acc.1.groupMembers next.group) acc.1.groupByLane member ≠ some group := by
          intro member mem owner
          have owner := (forgetMembers_eq_some.mp owner).2
          exact siblings member mem (by simpa [owner] using listed)
        have kept := foldl_detachMember_of_ne next acc.1.groups foreign
        simp only [Function.update_of_ne differs, kept]

theorem publishLanes_undisturbed (lanes : List (String × JsNumber)) {acc : QueueState × List String}
    (wf : acc.1.WellNamed) : Undisturbed acc (lanes.foldl publishLane acc) := by
  induction lanes generalizing acc with
  | nil => exact .refl acc
  | cons entry lanes ih =>
      refine (publishLane_undisturbed wf entry).trans (ih ?_)
      exact Changes.wellNamed (Moves.changes (Machine.setMaxConcurrent_moves acc.1 _ _)) wf

theorem publishClears_undisturbed (groups : List String) {acc : QueueState × List String}
    (consistent : acc.1.Consistent) : Undisturbed acc (groups.foldl publishClear acc) := by
  induction groups generalizing acc with
  | nil => exact .refl acc
  | cons group groups ih =>
      exact (publishClear_undisturbed consistent group).trans (ih (consistent.publishClear group).1)

theorem publishGroups_undisturbed {groups : List (String × CommandLaneGroupSpec)}
    {validated : List LaneGroupState}
    (valid : List.Forall₂ (fun entry next => ∃ identity,
      validateCommandLaneGroupSpec identity entry.1 entry.2 = .ok next) groups validated)
    {held : String → Prop} {acc : QueueState × List String} (consistent : acc.1.Consistent)
    (holds : ∀ lane, acc.1.groupByLane lane = some "" → held lane)
    (avoids : AvoidsUnnamed held groups) : Undisturbed acc (validated.foldl publishGroup acc) := by
  induction valid generalizing acc held with
  | nil => exact .refl acc
  | cons checked valid ih =>
      obtain ⟨identity, checked⟩ := checked
      obtain ⟨kept, held', holds', avoids'⟩ := consistent.publishGroup checked holds avoids
      exact (publishGroup_undisturbed consistent _).trans (ih kept holds' avoids')

/-- A publication makes startable only lanes it touches. -/
theorem installConfiguration_undisturbed {q : QueueState} (wf : q.WellNamed)
    (consistent : q.Consistent) {config : LaneConfiguration} {validated : List LaneGroupState}
    (valid : List.Forall₂ (fun entry next => ∃ identity,
      validateCommandLaneGroupSpec identity entry.1 entry.2 = .ok next) config.groups validated)
    (avoids : q.PublishesNamed config) :
    Undisturbed (q, []) (q.installConfiguration config validated) := by
  have widened := publishLanes_registry config.lanes (q, [])
  have kept := consistent.of_registry widened
  have cleared := kept.publishClears config.clearGroups
  refine ((publishLanes_undisturbed config.lanes wf).trans
    (publishClears_undisturbed config.clearGroups kept)).trans
    (publishGroups_undisturbed valid cleared.1 (fun lane owned => ?_) avoids)
  obtain ⟨before, absent⟩ := cleared.2 lane "" owned
  have same : (config.lanes.foldl publishLane (q, [])).1.groupByLane = q.groupByLane :=
    congrArg Prod.snd widened
  exact ⟨same ▸ before, absent⟩

theorem publishGroup_states (acc : QueueState × List String) (next : LaneGroupState) :
    (publishGroup acc next).1.states = acc.1.states ∧
      (publishGroup acc next).1.drainingGroups = acc.1.drainingGroups := ⟨rfl, rfl⟩

/-- A lane state outside any drain, with a numeric width. -/
def LaneState.Calm (state : LaneState) : Prop := state.maxConcurrent ≠ .nan ∧ state.draining = false

/-- No lane state is being drained, and every width is numeric. -/
def Calm (q : QueueState) : Prop :=
  (∀ id, LaneState.Calm (q.states id)) ∧ q.drainingGroups = []

theorem Calm.update {q r : QueueState} (calm : q.Calm) (id : LaneId) {state : LaneState}
    (states : r.states = Function.update q.states id state)
    (groups : r.drainingGroups = q.drainingGroups) (own : LaneState.Calm state) : r.Calm := by
  refine ⟨fun other => ?_, groups.trans calm.2⟩
  rw [states]
  by_cases here : other = id
  · simpa [here] using own
  · simpa [here] using calm.1 other

theorem Calm.getLaneState {q : QueueState} (calm : q.Calm) (lane : String) :
    (q.getLaneState lane).2.Calm := by
  simp only [QueueState.getLaneState]
  split
  · exact calm
  · exact calm.update (r := q.createLane lane) q.nextLaneId rfl rfl ⟨by simp, rfl⟩

theorem floorAtLeast_ne_nan {least : Nat} {x : JsNumber} (numeric : x ≠ .nan) :
    x.floorAtLeast least ≠ .nan := by
  cases x <;> simp_all [JsNumber.floorAtLeast]

theorem Calm.setMaxConcurrent {q : QueueState} (calm : q.Calm) (lane : String)
    {maxConcurrent : JsNumber} (numeric : maxConcurrent ≠ .nan) :
    (q.setMaxConcurrent lane maxConcurrent).Calm :=
  (calm.getLaneState lane).update (q.getLaneState lane).1 rfl rfl
    ⟨floorAtLeast_ne_nan numeric, ((calm.getLaneState lane).1 _).2⟩

theorem Calm.resetState {q : QueueState} (calm : q.Calm) (id : LaneId) : (q.resetState id).Calm :=
  calm.update id rfl rfl ⟨(calm.1 id).1, rfl⟩

theorem Calm.installConfiguration {q : QueueState} (calm : q.Calm) {config : LaneConfiguration}
    (numeric : ∀ entry ∈ config.lanes, entry.2 ≠ .nan) (validated : List LaneGroupState) :
    (q.installConfiguration config validated).1.Calm := by
  have lanes : ∀ (entries : List (String × JsNumber)) (acc : QueueState × List String),
      (∀ entry ∈ entries, entry.2 ≠ .nan) → acc.1.Calm → (entries.foldl publishLane acc).1.Calm := by
    intro entries
    induction entries with
    | nil => exact fun _ _ calm => calm
    | cons entry entries ih =>
        intro acc numeric calm
        obtain ⟨head, tail⟩ := List.forall_mem_cons.mp numeric
        exact ih _ tail (calm.setMaxConcurrent _ head)
  have clears : ∀ (groups : List String) (acc : QueueState × List String), acc.1.Calm →
      (groups.foldl publishClear acc).1.Calm := by
    intro groups
    induction groups with
    | nil => exact fun _ calm => calm
    | cons group groups ih =>
        intro acc calm
        refine ih _ ?_
        simp only [publishClear]
        split <;> exact calm
  have installs : ∀ (next : List LaneGroupState) (acc : QueueState × List String), acc.1.Calm →
      (next.foldl publishGroup acc).1.Calm := by
    intro next
    induction next with
    | nil => exact fun _ calm => calm
    | cons group next ih => exact fun acc calm => ih _ calm
  exact installs _ _ (clears _ _ (lanes _ _ numeric calm))

/-- The queue of a lane state survives resets, and only its active tasks go. -/
theorem foldl_resetState_queue (ids : List LaneId) (q : QueueState) (id : LaneId) :
    ((ids.foldl resetState q).states id).queue = (q.states id).queue ∧
      (ids.foldl resetState q).lanes = q.lanes := by
  induction ids generalizing q with
  | nil => exact ⟨rfl, rfl⟩
  | cons first ids ih =>
      rw [List.foldl_cons, (ih _).1, (ih _).2]
      refine ⟨?_, rfl⟩
      by_cases here : id = first
      · simp [resetState, record, updateState, here]
      · simp [resetState, record, updateState, here]

theorem foldl_resetState_calm (ids : List LaneId) {q : QueueState} (calm : q.Calm) :
    (ids.foldl resetState q).Calm := by
  induction ids generalizing q with
  | nil => exact calm
  | cons first ids ih => exact ih (calm.resetState first)

theorem Wants.of_takeEntry {q : QueueState} {id : LaneId} {entry : EntryId} {rest : LaneQueue}
    (head : (q.states id).queue.dequeueLaneQueue = some (entry, rest)) {event : QueueEvent}
    {lane : String} (wants : ((q.takeEntry id entry rest).record event).Wants lane) : q.Wants lane :=
  wants.of_update_le id rfl rfl rfl
    (fun _ => dequeueLaneQueue_length head ▸ Nat.succ_pos _) (fun free => free) le_rfl

theorem clearQueue_spec (id : LaneId) (n : Nat) {q : QueueState} (calm : q.Calm) :
    (clearQueue id n q).Calm ∧ ∀ lane, (clearQueue id n q).Wants lane → q.Wants lane := by
  induction n generalizing q with
  | zero => exact ⟨calm, fun _ wants => wants⟩
  | succ n ih =>
      simp only [clearQueue]
      split
      · rename_i entry rest head
        have taken : ((q.takeEntry id entry rest).record (.rejected entry .cleared)).Calm :=
          calm.update id rfl rfl (calm.1 id)
        obtain ⟨kept, wants⟩ := ih taken
        exact ⟨kept, fun lane later => (wants lane later).of_takeEntry head⟩
      · exact ⟨calm, fun _ wants => wants⟩

theorem setPriorityRing_length (queue : LaneQueue) (priority : QueuePriority) (ring : List EntryId)
    (shorter : ring.length ≤ (queue.getPriorityRing priority).length) :
    (queue.setPriorityRing ring priority).length ≤ queue.length := by
  cases priority <;> simp_all [LaneQueue.setPriorityRing, LaneQueue.getPriorityRing, LaneQueue.length]

theorem abortEntry_spec {q : QueueState} (calm : q.Calm) (entry : EntryId) :
    (q.abortEntry entry).Calm ∧ ∀ lane, (q.abortEntry entry).Wants lane → q.Wants lane := by
  simp only [abortEntry]
  split
  · have unlinked : (q.unlinkEntry entry).Calm :=
      calm.update (q.entries entry).state rfl rfl (calm.1 _)
    refine ⟨⟨fun id => by simpa using unlinked.1 id, by simpa using unlinked.2⟩, fun lane wants => ?_⟩
    refine wants.of_retire.of_update_le (q.entries entry).state rfl rfl rfl (fun queued => ?_)
      (fun free => free) le_rfl
    exact Nat.lt_of_lt_of_le queued
      (setPriorityRing_length _ _ _ (List.length_filter_le _ _))
  · exact ⟨calm, fun _ wants => wants⟩

end QueueState

/-- The operation sets no lane width to NaN. -/
def Operation.Numeric : Operation → Prop
  | .setCommandLaneConcurrency _ maxConcurrent => maxConcurrent ≠ .nan
  | .publishLaneConfiguration config => ∀ entry ∈ config.lanes, entry.2 ≠ .nan
  | _ => True

namespace Machine
open QueueState

theorem Resting.calm {m : Machine} (rest : m.Resting) : m.queue.Calm :=
  ⟨fun id => ⟨rest.numeric id, rest.still id⟩, rest.free⟩

theorem isBase_cons {stack : List Frame} (empty : stack = []) {frame : Frame} (ok : frame.IsBase) :
    IsBase (frame :: stack) := .inr ⟨frame, by rw [empty], ok⟩

/-- Moves between states outside any drain. -/
theorem Resting.moves {m : Machine} (rest : m.Resting) {r : QueueState} (stack : List Frame)
    (moves : Moves m.queue r) (calm : r.Calm) (ok : IsBase stack) : Resting ⟨r, stack⟩ := by
  have extended := rest.sound.extend (n := ⟨r, stack⟩) moves fun frame mem => by
    have isBase := isBase_frames ok frame mem
    cases frame with
    | drainLane => exact isBase.elim
    | drainGroup | drainLanes | callback | enqueued | settle => exact .inr trivial
  exact ⟨extended.sound, rest.consistent.of_registry (Moves.registry moves), fun id => (calm.1 id).1,
    ok, fun id => (calm.1 id).2, calm.2⟩

/-- Calling an operation on an idle machine. -/
theorem Attentive.begin {m : Machine} (att : m.Attentive) (empty : m.stack = []) (now : Int)
    {operation : Operation} (admitted : m.admits operation) (named : m.Named (.call now operation))
    (numeric : operation.Numeric) : (m.begin now operation).Attentive := by
  have rest := att.resting (.inl empty)
  have wf := rest.sound.wellNamed
  have idle : ∀ lane, ¬m.queue.Wants lane := by
    intro lane wants
    obtain ⟨frame, mem, -⟩ := att.covered lane wants
    simp [empty] at mem
  cases operation with
  | enqueueCommandInLane lane opts =>
      simp only [Machine.begin]
      split
      · exact att
      · obtain ⟨moves, found⟩ := getLaneState_spec m.queue (normalizeLane lane)
        have fetched := rest.calm.getLaneState (normalizeLane lane)
        have pushed := rest.moves (.enqueued
            (m.queue.getLaneState (normalizeLane lane)).2.nextEntryId opts.hasOnQueued :: m.stack)
          (moves.tail (.push _ _ now opts found))
          (fetched.update (m.queue.getLaneState (normalizeLane lane)).1 rfl rfl (fetched.1 _))
          (isBase_cons empty trivial)
        refine pushed.drainReady (by simp) fun other wants => .inr ⟨.inl ?_, by simp⟩
        have wf' := Changes.wellNamed (Moves.changes moves) wf
        rcases wants.of_update_eq (q := (m.queue.getLaneState (normalizeLane lane)).2)
          (m.queue.getLaneState (normalizeLane lane)).1 rfl rfl rfl rfl with registered | before
        · exact (wf'.named registered).2.symm.trans (wf'.named found).2
        · exact absurd (before.of_getLaneState wf) (idle other)
  | complete task succeeded =>
      simp only [admits, Bool.and_eq_true, decide_eq_true_eq] at admitted
      have move := Move.complete task admitted.2
      by_cases current : task.generation = (m.queue.states task.state).generation
      · have same := completeTask_current current
        rw [same] at move
        have completed := rest.moves (.settle task.entry succeeded :: m.stack)
          (.single move) (rest.calm.update task.state rfl rfl (rest.calm.1 task.state))
          (isBase_cons empty trivial)
        have owner := wf.running task admitted.2
        simp only [Machine.begin, same, if_true]
        refine completed.drainReady (fun id captured => ?_) fun other wants => .inr ?_
        · cases captured
          exact move.named owner
        · rcases wants.of_update task.state wf rest.consistent rfl rfl rfl with
            before | ⟨related, registered⟩
          · exact absurd before (idle other)
          · rw [owner.2] at related registered
            refine ⟨related, fun id captured => ?_⟩
            cases captured
            exact registered
      · have same := completeTask_stale current
        rw [same] at move
        have completed := rest.moves (.settle task.entry succeeded :: m.stack)
          (.single move) rest.calm (isBase_cons empty trivial)
        simp only [Machine.begin, same, Bool.false_eq_true, if_false]
        exact completed.attentive fun other wants => absurd wants (idle other)
  | abort entry =>
      obtain ⟨calm, wants⟩ := abortEntry_spec rest.calm entry
      exact (rest.moves m.stack (abortEntry_moves m.queue entry) calm (.inl empty)).attentive
        fun other later => absurd (wants other later) (idle other)
  | clearCommandLane lane =>
      simp only [Machine.begin, clearCommandLane]
      split
      · rename_i id found
        obtain ⟨calm, wants⟩ := clearQueue_spec id (m.queue.states id).queue.length rest.calm
        exact (rest.moves m.stack (clearQueue_moves id _ m.queue) calm (.inl empty)).attentive
          fun other later => absurd (wants other later) (idle other)
      · exact att
  | resetCommandLane lane =>
      simp only [Machine.begin]
      split
      · rename_i id found
        have reset := rest.moves m.stack (.single (.reset id)) (rest.calm.resetState id) (.inl empty)
        refine reset.drainReady (by simp) fun other wants => .inr ⟨?_, by simp⟩
        rcases wants.of_update id wf rest.consistent rfl rfl rfl with before | ⟨related, -⟩
        · exact absurd before (idle other)
        · rw [(wf.named found).2] at related
          exact related
      · exact att
  | resetAllLanes =>
      have reset := rest.moves (.drainLanes m.queue.lanesToDrain false :: m.stack)
        (foldl_resetState_moves (m.queue.lanes.map (·.2)) m.queue)
        (foldl_resetState_calm _ rest.calm) (isBase_cons empty trivial)
      refine reset.attentive fun other wants => ⟨_, List.mem_cons_self, ?_⟩
      obtain ⟨id, found, queued, -⟩ := wants
      have kept := foldl_resetState_queue (m.queue.lanes.map (·.2)) m.queue id
      rw [kept.1] at queued
      rw [lookupLane, kept.2] at found
      exact List.mem_map.mpr ⟨(other, id), List.mem_filter.mpr
        ⟨lookupLane_mem found, by simpa using queued⟩, rfl⟩
  | setCommandLaneConcurrency lane maxConcurrent =>
      have widened := rest.moves m.stack (setMaxConcurrent_moves m.queue (normalizeLane lane) maxConcurrent)
        (rest.calm.setMaxConcurrent _ numeric) (.inl empty)
      have only : ∀ other, (m.queue.setMaxConcurrent (normalizeLane lane) maxConcurrent).Wants other →
          other = normalizeLane lane := fun other wants =>
        (wants.of_setMaxConcurrent wf).resolve_right (idle other)
      simp only [Machine.begin]
      split
      · exact widened.drainReady (by simp) fun other wants => .inr ⟨.inl (only other wants), by simp⟩
      · rename_i closed
        refine widened.attentive fun other wants => absurd ?_ closed
        have here := only other wants
        subst here
        obtain ⟨id, found, -, free, -⟩ := wants
        simp only [QueueState.getLaneState, found]
        exact Count.isAbove_of_le (Nat.zero_le _) free
  | publishLaneConfiguration config =>
      have published := publish_changes rest.sound now config
      rcases publish_run m config with ⟨validated, committed, valid⟩ | ⟨error, failed⟩
      · have kept := rest.consistent.installConfiguration valid named
        have calm := rest.calm.installConfiguration numeric validated
        have undisturbed := installConfiguration_undisturbed wf rest.consistent valid named
        simp only [Machine.begin, committed] at published ⊢
        refine Resting.attentive ⟨published.2, kept.of_registry rfl, fun id => (calm.1 id).1,
          isBase_cons empty trivial, fun id => (calm.1 id).2, calm.2⟩ fun other wants => ?_
        refine ⟨_, List.mem_cons_self, ?_⟩
        by_contra untouched
        exact idle other (undisturbed.wants other untouched wants)
      · simp only [Machine.begin, failed]
        exact att

/-- Operations are called one after another: callbacks do not call back. -/
def Sequential (m : Machine) : Label → Prop
  | .call _ _ => m.stack = []
  | .ret | .run _ => True

/-- A sequential environment in which lane widths are numbers and publications avoid
the group with the empty id. -/
def Quiet (m : Machine) : Label → Prop
  | .call now operation => m.stack = [] ∧ m.Named (.call now operation) ∧ operation.Numeric
  | .ret | .run _ => True

instance (operation : Operation) : Decidable operation.Numeric := by
  cases operation <;> unfold Operation.Numeric <;> infer_instance

instance (m : Machine) (label : Label) : Decidable (m.Sequential label) := by
  cases label <;> unfold Sequential <;> infer_instance

instance (m : Machine) (label : Label) : Decidable (m.Quiet label) := by
  cases label <;> unfold Quiet <;> infer_instance

theorem attentive_init : Attentive {} :=
  Resting.attentive ⟨sound_init, consistent_init, fun _ => by simp, .inl rfl, fun _ => rfl, rfl⟩
    fun lane ⟨id, found, _⟩ => by simp [lookupLane] at found

/-- No lost wakeup: once an operation has returned, no lane has queued work that its
own width and its group would let start. -/
theorem no_lost_wakeup {m : Machine} (run : Transition.Reaches step Quiet {} m)
    (returned : m.stack = []) (lane : String) : ¬m.queue.Wants lane := by
  have att : m.Attentive := by
    refine run.invariant attentive_init fun m label n att quiet taken => ?_
    cases label with
    | call now operation =>
        obtain ⟨empty, named, numeric⟩ := quiet
        simp only [step, Option.ite_none_right_eq_some, Option.some.injEq] at taken
        obtain ⟨admitted, rfl⟩ := taken
        exact att.begin empty now admitted named numeric
    | ret | run => exact att.step (by simp) taken
  intro wants
  obtain ⟨frame, mem, -⟩ := att.covered lane wants
  simp [returned] at mem

def exclusiveSpec (members : List String) : CommandLaneGroupSpec :=
  { budget := .real 1, members := members }

/-- Two members of a group of budget one: when the first completes, the second starts. -/
theorem sibling_starts_on_completion : ∃ m, Transition.Reaches step Quiet {} m ∧
    m.stack = [] ∧ m.queue.getMemberActiveCount "b" = 1 ∧ ¬m.queue.Wants "b" := by
  obtain ⟨m, run, returned, active⟩ := Transition.Reaches.exists_of_exec step Quiet {} (P := fun m => m.stack = [] ∧ m.queue.getMemberActiveCount "b" = 1)
    [publishGroups [("g", exclusiveSpec ["a", "b"])], .run 0, .run 0, .run 0,
      enqueue "a", .run 0, .run 0, .run 0, .run 0, .run 0, enqueue "b", .run 0, .run 0,
      .call 0 (.complete ⟨1, 0, "a", 0, 0⟩ true), .run 0, .run 0, .run 0, .run 0, .run 0]
    (by decide) (by decide)
  exact ⟨m, run, returned, active, no_lost_wakeup run returned "b"⟩

/-- A lane taken from the group with the empty id leaves its new group when that group is
cleared, but is still counted there: its completion does not wake the sibling. -/
theorem stale_membership_loses_wakeup : ∃ m, Transition.Reaches step Sequential {} m ∧
    m.stack = [] ∧ m.queue.Wants "b" := by
  obtain ⟨m, run, returned, lookup, queued, free, admissible⟩ :=
    Transition.Reaches.exists_of_exec step Sequential {}
    (P := fun m => m.stack = [] ∧ m.queue.lookupLane "b" = some 1 ∧
      0 < (m.queue.states 1).queue.length ∧
      (m.queue.states 1).maxConcurrent.isAbove (m.queue.states 1).activeTaskIds.length = true ∧
      m.queue.canAdmitInGroup "b" = true)
    [publishGroups [("", exclusiveSpec ["a"])], .run 0, .run 0,
      publishGroups [("g", exclusiveSpec ["a", "b"])], .run 0, .run 0, .run 0,
      .call 0 (.publishLaneConfiguration { clearGroups := [""] }), .run 0, .run 0,
      enqueue "a", .run 0, .run 0, .run 0, enqueue "b", .run 0, .run 0,
      .call 0 (.complete ⟨1, 0, "a", 0, 0⟩ true), .run 0, .run 0]
    (by decide) (by decide)
  exact ⟨m, run, returned, 1, lookup, queued, free, admissible⟩

-- A NaN width in the older member makes the drain of the group give up before `b`.
example : (Transition.exec step
    [publishGroups [("g", exclusiveSpec ["a", "b"])], .run 0, .run 0, .run 0,
      .call 0 (.setCommandLaneConcurrency "a" .nan), enqueue "a", .run 0, .run 0, .run 0,
      enqueue "b", .run 0, .run 0, .run 0] {}).any (fun m => m.stack = [] ∧
        m.queue.lookupLane "b" = some 1 ∧ 0 < (m.queue.states 1).queue.length ∧
        (m.queue.states 1).maxConcurrent.isAbove (m.queue.states 1).activeTaskIds.length = true ∧
        m.queue.canAdmitInGroup "b" = true) = true := by decide

end Machine
end CommandQueue
