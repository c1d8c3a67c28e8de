import OpenClaw.CommandQueue.Steps

/-!
Consistency of the capacity-group registry and atomicity of a publication.
Membership is stored by group and by lane; the two views agree as long as no
publication takes a lane away from the group whose id is the empty string, which
the detaching test of `installCommandLaneGroup` treats as no owner at all.
-/

namespace CommandQueue
namespace QueueState

/-- `lane` is listed by the group registered under `group`. -/
def MemberOf (groups : String → Option LaneGroupState) (group lane : String) : Prop :=
  ∃ state, groups group = some state ∧ lane ∈ state.members

instance (groups : String → Option LaneGroupState) (group lane : String) :
    Decidable (MemberOf groups group lane) :=
  decidable_of_iff ((groups group).any fun state => decide (lane ∈ state.members))
    (by cases found : groups group <;> simp [MemberOf, found])

/-- Both views of the membership agree, and groups are registered under their id. -/
structure Consistent (q : QueueState) : Prop where
  byLane : ∀ lane group, q.groupByLane lane = some group ↔ MemberOf q.groups group lane
  named : ∀ group state, q.groups group = some state → state.group = group

theorem mem_groupMembers {q : QueueState} {group lane : String} :
    lane ∈ q.groupMembers group ↔ MemberOf q.groups group lane := by
  cases found : q.groups group <;> simp [groupMembers, MemberOf, found]

theorem forgetMembers_eq_some {members : List String} {groupByLane : String → Option String}
    {lane group : String} :
    forgetMembers members groupByLane lane = some group ↔
      lane ∉ members ∧ groupByLane lane = some group := by
  by_cases mem : lane ∈ members <;> simp [forgetMembers, mem]

theorem memberOf_detachMember (next : LaneGroupState) (groupByLane : String → Option String)
    (groups : String → Option LaneGroupState) (member group lane : String) :
    MemberOf (detachMember next groupByLane groups member) group lane ↔
      MemberOf groups group lane ∧
        ¬(lane = member ∧ groupByLane lane = some group ∧ group ≠ "" ∧ group ≠ next.group) := by
  simp only [detachMember]
  split
  · rename_i owner owned
    split
    · rename_i detached
      by_cases here : group = owner
      · subst here
        cases found : groups group with
        | none => simp [MemberOf, found]
        | some state =>
            simp only [MemberOf, Function.update_self, found, Option.map_some, Option.some.injEq,
              exists_eq_left', LaneGroupState.deleteMember, List.mem_filter, decide_eq_true_eq,
              ne_eq, and_congr_right_iff]
            intro _
            constructor
            · exact fun differs taken => differs taken.1
            · exact fun kept same => kept ⟨same, same ▸ owned, detached⟩
      · have elsewhere : ∀ same : lane = member, groupByLane lane ≠ some group := by
          rintro rfl same
          exact here (Option.some.inj (same.symm.trans owned))
        simp only [MemberOf, Function.update_of_ne here]
        exact ⟨fun mem => ⟨mem, fun taken => elsewhere taken.1 taken.2.1⟩, fun mem => mem.1⟩
    · rename_i kept
      refine ⟨fun mem => ⟨mem, ?_⟩, fun mem => mem.1⟩
      rintro ⟨rfl, same, named⟩
      exact kept (Option.some.inj (owned.symm.trans same) ▸ named)
  · rename_i unowned
    refine ⟨fun mem => ⟨mem, ?_⟩, fun mem => mem.1⟩
    rintro ⟨rfl, same, -⟩
    simp [unowned] at same

theorem memberOf_foldl_detachMember (next : LaneGroupState) (groupByLane : String → Option String)
    (members : List String) (groups : String → Option LaneGroupState) (group lane : String) :
    MemberOf (members.foldl (detachMember next groupByLane) groups) group lane ↔
      MemberOf groups group lane ∧
        ¬(lane ∈ members ∧ groupByLane lane = some group ∧ group ≠ "" ∧ group ≠ next.group) := by
  induction members generalizing groups with
  | nil => simp
  | cons member members ih =>
      rw [List.foldl_cons, ih, memberOf_detachMember, and_assoc, ← not_or, ← or_and_right,
        List.mem_cons]

theorem detachMember_eq (next : LaneGroupState) (groupByLane : String → Option String)
    (groups : String → Option LaneGroupState) (member : String) :
    detachMember next groupByLane groups member = groups ∨
      ∃ owner, detachMember next groupByLane groups member =
        Function.update groups owner ((groups owner).map (·.deleteMember member)) := by
  simp only [detachMember]
  split
  · rename_i owner _
    split
    · exact .inr ⟨owner, rfl⟩
    · exact .inl rfl
  · exact .inl rfl

theorem named_foldl_detachMember {next : LaneGroupState} {groupByLane : String → Option String}
    (members : List String) {groups : String → Option LaneGroupState}
    (named : ∀ group state, groups group = some state → state.group = group) :
    ∀ group state, members.foldl (detachMember next groupByLane) groups group = some state →
      state.group = group := by
  induction members generalizing groups with
  | nil => exact named
  | cons member members ih =>
      apply ih
      intro group state found
      rcases detachMember_eq next groupByLane groups member with same | ⟨owner, detached⟩
      · exact named group state (same ▸ found)
      · rw [detached] at found
        by_cases here : group = owner
        · subst here
          rw [Function.update_self] at found
          obtain ⟨previous, registered, rfl⟩ := Option.map_eq_some_iff.mp found
          exact named group previous registered
        · rw [Function.update_of_ne here] at found
          exact named group state found

/-- Installing a group keeps the registry consistent unless it takes a lane from the
group with the empty id. -/
theorem Consistent.install {q : QueueState} (consistent : q.Consistent) (next : LaneGroupState)
    (avoids : next.group = "" ∨ ∀ lane ∈ next.members, q.groupByLane lane ≠ some "") :
    (q.installCommandLaneGroup next).Consistent := by
  have owned := consistent.byLane
  refine ⟨fun lane group => ?_, fun group state found => ?_⟩
  · simp only [installCommandLaneGroup]
    by_cases here : group = next.group
    · subst here
      have previous : lane ∉ q.groupMembers next.group → q.groupByLane lane ≠ some next.group :=
        fun absent same => absent (mem_groupMembers.mpr ((owned _ _).mp same))
      have installed : MemberOf (Function.update
          (next.members.foldl (detachMember next
            (forgetMembers (q.groupMembers next.group) q.groupByLane)) q.groups)
          next.group (some next)) next.group lane ↔ lane ∈ next.members := by
        simp [MemberOf]
      rw [installed]
      by_cases mem : lane ∈ next.members
      · simp [mem]
      · simp only [mem, if_false, iff_false, forgetMembers_eq_some, not_and]
        exact previous
    · have other : MemberOf (Function.update
          (next.members.foldl (detachMember next
            (forgetMembers (q.groupMembers next.group) q.groupByLane)) q.groups)
          next.group (some next)) group lane ↔
          MemberOf (next.members.foldl (detachMember next
            (forgetMembers (q.groupMembers next.group) q.groupByLane)) q.groups) group lane := by
        simp [MemberOf, Function.update_of_ne here]
      -- A lane of another group is not a member of the group being replaced.
      have foreign : q.groupByLane lane = some group → lane ∉ q.groupMembers next.group := by
        intro mine mem
        have theirs := (owned lane next.group).mpr (mem_groupMembers.mp mem)
        exact here (Option.some.inj (mine.symm.trans theirs))
      rw [other, memberOf_foldl_detachMember, ← owned, forgetMembers_eq_some]
      by_cases mem : lane ∈ next.members
      · simp only [mem, if_true, Option.some.injEq, Ne.symm here, false_iff, true_and, not_and,
          not_not]
        intro mine spared
        refine here (spared ⟨foreign mine, mine⟩ ?_)
        rintro rfl
        rcases avoids with unnamed | avoids
        · exact here unnamed.symm
        · exact avoids lane mem mine
      · simp only [mem, if_false, false_and, not_false_eq_true, and_true, forgetMembers_eq_some]
        exact ⟨fun both => both.2, fun mine => ⟨foreign mine, mine⟩⟩
  · simp only [installCommandLaneGroup] at found
    by_cases here : group = next.group
    · subst here
      rw [Function.update_self] at found
      exact congrArg LaneGroupState.group (Option.some.inj found).symm
    · rw [Function.update_of_ne here] at found
      exact named_foldl_detachMember _ consistent.named group state found

theorem Consistent.clear {q : QueueState} (consistent : q.Consistent) (group : String) :
    (q.clearGroup group).Consistent := by
  refine ⟨fun lane other => ?_, fun other state found => ?_⟩
  · simp only [clearGroup, forgetMembers_eq_some]
    by_cases here : other = group
    · subst here
      simp only [MemberOf, Function.update_self, reduceCtorEq, false_and, exists_false, iff_false,
        not_and, consistent.byLane]
      exact fun absent mem => absent (mem_groupMembers.mpr mem)
    · simp only [MemberOf, Function.update_of_ne here, consistent.byLane]
      refine ⟨fun both => both.2, fun mem => ⟨fun listed => here ?_, mem⟩⟩
      have theirs := (consistent.byLane lane group).mpr (mem_groupMembers.mp listed)
      exact Option.some.inj (((consistent.byLane lane other).mpr mem).symm.trans theirs)
  · simp only [clearGroup] at found
    by_cases here : other = group
    · simp [here] at found
    · rw [Function.update_of_ne here] at found
      exact consistent.named other state found

/-- The registry fields, on which consistency depends. -/
def registry (q : QueueState) : (String → Option LaneGroupState) × (String → Option String) :=
  (q.groups, q.groupByLane)

theorem Consistent.of_registry {q r : QueueState} (consistent : q.Consistent)
    (same : r.registry = q.registry) : r.Consistent := by
  obtain ⟨groups, groupByLane⟩ := Prod.mk.inj same
  exact ⟨groups ▸ groupByLane ▸ consistent.byLane, groups ▸ consistent.named⟩

theorem Move.registry {q r : QueueState} (move : Move q r) : r.registry = q.registry := by
  cases move with
  | retire id =>
      rcases retire_eq q id with same | ⟨-, -, -, -, dropped⟩
      · rw [same]
      · rw [dropped]
        rfl
  | complete task =>
      simp only [completeTask]
      split <;> rfl
  | create | guard | arbitrate | push | unlink | clear | reset | width | start | settle => rfl

theorem Moves.registry {q r : QueueState} (moves : Moves q r) : r.registry = q.registry := by
  induction moves with
  | refl => rfl
  | tail _ move ih => exact move.registry.trans ih

/-- No spec of the list takes a lane held by the group with the empty id; `held` is
what that group holds before the list is installed. -/
def AvoidsUnnamed : (String → Prop) → List (String × CommandLaneGroupSpec) → Prop
  | _, [] => True
  | held, (group, spec) :: rest =>
      if group = "" then AvoidsUnnamed (· ∈ spec.members.map normalizeLane) rest
      else (∀ lane ∈ spec.members.map normalizeLane, ¬held lane) ∧ AvoidsUnnamed held rest

instance AvoidsUnnamed.decide : ∀ (held : String → Prop) [DecidablePred held]
    (groups : List (String × CommandLaneGroupSpec)), Decidable (AvoidsUnnamed held groups)
  | _, _, [] => isTrue trivial
  | held, _, (group, spec) :: rest =>
      have := AvoidsUnnamed.decide (· ∈ spec.members.map normalizeLane) rest
      have := AvoidsUnnamed.decide held rest
      inferInstanceAs (Decidable (if group = "" then
        AvoidsUnnamed (· ∈ spec.members.map normalizeLane) rest else
          (∀ lane ∈ spec.members.map normalizeLane, ¬held lane) ∧ AvoidsUnnamed held rest))

/-- The condition on a publication: lanes leave the group with the empty id only by
clearing or redefining that group. -/
def PublishesNamed (q : QueueState) (config : LaneConfiguration) : Prop :=
  AvoidsUnnamed (fun lane => q.groupByLane lane = some "" ∧ "" ∉ config.clearGroups) config.groups

instance (q : QueueState) (config : LaneConfiguration) : Decidable (q.PublishesNamed config) :=
  inferInstanceAs (Decidable (AvoidsUnnamed
    (fun lane => q.groupByLane lane = some "" ∧ "" ∉ config.clearGroups) config.groups))

theorem publishLanes_registry (lanes : List (String × JsNumber)) (acc : QueueState × List String) :
    (lanes.foldl publishLane acc).1.registry = acc.1.registry := by
  induction lanes generalizing acc with
  | nil => rfl
  | cons entry lanes ih =>
      rw [List.foldl_cons, ih]
      exact Moves.registry (Machine.setMaxConcurrent_moves acc.1 (normalizeLane entry.1) entry.2)

theorem Consistent.publishClear {acc : QueueState × List String} (consistent : acc.1.Consistent)
    (group : String) :
    (publishClear acc group).1.Consistent ∧
      ∀ lane other, (publishClear acc group).1.groupByLane lane = some other →
        acc.1.groupByLane lane = some other ∧ other ≠ group := by
  simp only [QueueState.publishClear]
  split
  · refine ⟨consistent.clear group, fun lane other owned => ?_⟩
    obtain ⟨absent, before⟩ := forgetMembers_eq_some.mp owned
    refine ⟨before, ?_⟩
    rintro rfl
    exact absent (mem_groupMembers.mpr ((consistent.byLane _ _).mp before))
  · rename_i missing
    refine ⟨consistent, fun lane other owned => ⟨owned, ?_⟩⟩
    rintro rfl
    obtain ⟨state, found, -⟩ := (consistent.byLane _ _).mp owned
    simp [missing] at found

/-- The clearing pass keeps consistency and frees the lanes of every cleared group. -/
theorem Consistent.publishClears (cleared : List String) {acc : QueueState × List String}
    (consistent : acc.1.Consistent) :
    (cleared.foldl QueueState.publishClear acc).1.Consistent ∧
      ∀ lane group, (cleared.foldl QueueState.publishClear acc).1.groupByLane lane = some group →
        acc.1.groupByLane lane = some group ∧ group ∉ cleared := by
  induction cleared generalizing acc with
  | nil => exact ⟨consistent, fun lane group owned => ⟨owned, List.not_mem_nil⟩⟩
  | cons group cleared ih =>
      obtain ⟨first, freed⟩ := consistent.publishClear group
      obtain ⟨kept, owners⟩ := ih first
      refine ⟨kept, fun lane other owned => ?_⟩
      obtain ⟨owned, absent⟩ := owners lane other owned
      obtain ⟨owned, differs⟩ := freed lane other owned
      exact ⟨owned, by simp [differs, absent]⟩

theorem validated_spec {identity : GroupIdentity} {group : String} {spec : CommandLaneGroupSpec}
    {next : LaneGroupState} (valid : validateCommandLaneGroupSpec identity group spec = .ok next) :
    next.group = group ∧ next.members = (spec.members.map normalizeLane).dedup := by
  simp only [validateCommandLaneGroupSpec] at valid
  cases eligible : (spec.members.map normalizeLane).forM assertGroupEligibleLane with
  | error error => simp [eligible, bind, Except.bind] at valid
  | ok =>
      cases reserved : spec.reservations.foldlM
          (reserveMember group (spec.members.map normalizeLane)) (fun _ => none, .fin 0) with
      | error error => simp [eligible, reserved, bind, Except.bind] at valid
      | ok totals =>
          simp only [eligible, reserved, bind, Except.bind] at valid
          split at valid
          · cases valid
          · cases valid
            exact ⟨rfl, rfl⟩

/-- One validated spec of the installing pass. -/
theorem Consistent.publishGroup {group : String} {spec : CommandLaneGroupSpec}
    {rest : List (String × CommandLaneGroupSpec)} {identity : GroupIdentity}
    {next : LaneGroupState} (checked : validateCommandLaneGroupSpec identity group spec = .ok next)
    {held : String → Prop} {acc : QueueState × List String} (consistent : acc.1.Consistent)
    (holds : ∀ lane, acc.1.groupByLane lane = some "" → held lane)
    (avoids : AvoidsUnnamed held ((group, spec) :: rest)) :
    (publishGroup acc next).1.Consistent ∧ ∃ held' : String → Prop,
      (∀ lane, (publishGroup acc next).1.groupByLane lane = some "" → held' lane) ∧
      AvoidsUnnamed held' rest := by
  obtain ⟨named, members⟩ := validated_spec checked
  have memIff : ∀ lane, lane ∈ next.members ↔ lane ∈ spec.members.map normalizeLane := by
    simp [members]
  simp only [AvoidsUnnamed] at avoids
  by_cases unnamed : group = ""
  · simp only [unnamed, if_true] at avoids
    refine ⟨consistent.install next (.inl (named.trans unnamed)), _, fun lane owned => ?_, avoids⟩
    simp only [QueueState.publishGroup, installCommandLaneGroup] at owned
    split at owned
    · exact (memIff lane).mp ‹_›
    · obtain ⟨absent, owned⟩ := forgetMembers_eq_some.mp owned
      rw [named, unnamed] at absent
      exact absurd (mem_groupMembers.mpr ((consistent.byLane _ _).mp owned)) absent
  · simp only [unnamed, if_false] at avoids
    have free : ∀ lane ∈ next.members, acc.1.groupByLane lane ≠ some "" :=
      fun lane mem owned => avoids.1 lane ((memIff lane).mp mem) (holds lane owned)
    refine ⟨consistent.install next (.inr free), held, fun lane owned => ?_, avoids.2⟩
    simp only [QueueState.publishGroup, installCommandLaneGroup] at owned
    split at owned
    · exact absurd (named.symm.trans (Option.some.inj owned)) unnamed
    · exact holds lane (forgetMembers_eq_some.mp owned).2

/-- The installing pass, along the list of specs. -/
theorem Consistent.publishGroups {groups : List (String × CommandLaneGroupSpec)}
    {validated : List LaneGroupState}
    (valid : List.Forall₂ (fun entry next => ∃ identity,
      validateCommandLaneGroupSpec identity entry.1 entry.2 = .ok next) groups validated)
    {held : String → Prop} {acc : QueueState × List String} (consistent : acc.1.Consistent)
    (holds : ∀ lane, acc.1.groupByLane lane = some "" → held lane)
    (avoids : AvoidsUnnamed held groups) :
    (validated.foldl QueueState.publishGroup acc).1.Consistent := by
  induction valid generalizing acc held with
  | nil => exact consistent
  | cons checked valid ih =>
      obtain ⟨identity, checked⟩ := checked
      obtain ⟨kept, held', holds', avoids'⟩ := consistent.publishGroup checked holds avoids
      exact ih kept holds' avoids'

theorem Consistent.installConfiguration {q : QueueState} (consistent : q.Consistent)
    {config : LaneConfiguration} {validated : List LaneGroupState}
    (valid : List.Forall₂ (fun entry next => ∃ identity,
      validateCommandLaneGroupSpec identity entry.1 entry.2 = .ok next) config.groups validated)
    (avoids : q.PublishesNamed config) : (q.installConfiguration config validated).1.Consistent := by
  have widened := publishLanes_registry config.lanes (q, [])
  have cleared := (consistent.of_registry widened).publishClears config.clearGroups
  refine Consistent.publishGroups valid cleared.1 (fun lane owned => ?_) avoids
  obtain ⟨before, absent⟩ := cleared.2 lane "" owned
  have same : (config.lanes.foldl publishLane (q, [])).1.groupByLane = q.groupByLane :=
    congrArg Prod.snd widened
  exact ⟨same ▸ before, absent⟩

theorem consistent_init : Consistent {} := by
  refine ⟨fun lane group => ?_, fun group state found => ?_⟩
  · simp [MemberOf]
  · simp at found

end QueueState

namespace Machine
open QueueState

/-- Publications avoid the group with the empty id; other labels are free. -/
def Named (m : Machine) : Label → Prop
  | .call _ (.publishLaneConfiguration config) => m.queue.PublishesNamed config
  | _ => True

instance (m : Machine) (label : Label) : Decidable (m.Named label) := by
  unfold Named
  split <;> infer_instance

theorem publish_consistent {m : Machine} (consistent : m.queue.Consistent) (now : Int)
    {config : LaneConfiguration} (avoids : m.queue.PublishesNamed config) :
    (m.begin now (.publishLaneConfiguration config)).queue.Consistent := by
  rcases publish_run m config with ⟨validated, committed, valid⟩ | ⟨error, failed⟩
  · simp only [begin, committed]
    exact (consistent.installConfiguration valid avoids).of_registry rfl
  · simp only [begin, failed]
    exact consistent

theorem step_consistent {m n : Machine} {label : Label} (sound : m.Sound)
    (consistent : m.queue.Consistent) (named : m.Named label) (taken : m.step label = some n) :
    n.queue.Consistent := by
  rcases label.publishes_or_isWork with ⟨now, config, rfl⟩ | work
  · simp only [step, Option.ite_none_right_eq_some, Option.some.injEq] at taken
    obtain ⟨-, rfl⟩ := taken
    exact publish_consistent consistent now named
  · exact consistent.of_registry (Moves.registry (step_extends sound work taken).moves)

theorem reaches_consistent {m : Machine} (run : Transition.Reaches step Named {} m) :
    m.queue.Consistent := by
  induction run with
  | refl => exact consistent_init
  | tail run named taken ih => exact step_consistent (reaches_sound run) ih named taken

theorem publish_error {m n : Machine} {config : LaneConfiguration} {error : LaneGroupError}
    (failed : (publishLaneConfiguration config).run m = .error error n) : n = m := by
  rcases publish_run m config with ⟨validated, committed, -⟩ | ⟨other, same⟩
  · rw [committed] at failed
    cases failed
  · rw [same] at failed
    cases failed
    rfl

/-- In a run whose publications avoid the group with the empty id, both views of the
membership agree, a lane has at most one group, and a publication that throws leaves
the machine as it found it. -/
theorem registry_consistent_publish_atomic {m : Machine}
    (run : Transition.Reaches step Named {} m) :
    (∀ lane group, m.queue.groupByLane lane = some group ↔ MemberOf m.queue.groups group lane) ∧
    (∀ lane group other, MemberOf m.queue.groups group lane → MemberOf m.queue.groups other lane →
      group = other) ∧
    ∀ config error n, (publishLaneConfiguration config).run m = .error error n → n = m := by
  have owned := (reaches_consistent run).byLane
  refine ⟨owned, fun lane group other mine theirs => ?_, fun _ _ _ failed => publish_error failed⟩
  exact Option.some.inj (((owned lane group).mpr mine).symm.trans ((owned lane other).mpr theirs))

def pairSpec (first second : String) : CommandLaneGroupSpec :=
  { budget := .real 2, members := [first, second], reservations := [(second, .real 1)] }

def publishGroups (groups : List (String × CommandLaneGroupSpec)) : Label :=
  .call 0 (.publishLaneConfiguration { groups := groups })

/-- A lane moves between two named groups. -/
theorem registry_consistent_after_move : ∃ m,
    Transition.Reaches step Named {} m ∧ m.queue.groupByLane "a" = some "h" ∧
    MemberOf m.queue.groups "h" "a" ∧ ¬MemberOf m.queue.groups "g" "a" := by
  obtain ⟨m, run, moved⟩ := Transition.Reaches.exists_of_exec step Named {}
    (P := fun m => m.queue.groupByLane "a" = some "h")
    [publishGroups [("g", pairSpec "a" "b")], .run 0, .run 0, .run 0,
      publishGroups [("h", pairSpec "c" "a")]] (by decide) (by decide)
  obtain ⟨agree, unique, -⟩ := registry_consistent_publish_atomic run
  have member := (agree "a" "h").mp moved
  exact ⟨m, run, moved, member, fun other => absurd (unique _ _ _ other member) (by decide)⟩

/-- The group with the empty id keeps a lane that another group has taken, so the two
views of the membership disagree. -/
theorem unnamed_group_keeps_taken_lane : ∃ m, Transition.Reaches step Transition.Any {} m ∧
    ¬∀ lane group, m.queue.groupByLane lane = some group ↔ MemberOf m.queue.groups group lane := by
  obtain ⟨m, run, taken, kept⟩ := Transition.Reaches.exists_of_exec step Transition.Any {}
    (P := fun m => m.queue.groupByLane "a" = some "g" ∧ MemberOf m.queue.groups "" "a")
    [publishGroups [("", pairSpec "a" "b")], .run 0, .run 0, .run 0,
      publishGroups [("g", pairSpec "a" "c")]] (by decide) (by decide)
  refine ⟨m, run, fun agree => ?_⟩
  have owner := (agree "a" "").mpr kept
  rw [taken] at owner
  exact absurd owner (by decide)

end Machine
end CommandQueue
