import OpenClaw.Followup.Steps

/-!
The steps of the drain itself as moves, and what the next await relies on. Items taken
out for a delivery are put back only while the queue is registered, when nothing else
can have dropped them.
-/

namespace Followup

namespace State

variable {norm : Normalizers} {allowed : Permission → Prop} {added : RunId → Prop} {s t : State}

theorem Moves.reserve (sound : s.Sound) {flight : Finset RunId} (grown : s.inFlight ⊆ flight) :
    Moves norm allowed added s { s with inFlight := flight } :=
  .single (.aside rfl sound.custody.items_nodup (fun _ mem => .inl mem) (.inl subset_rfl)
    (fun now => ⟨now, .inl grown⟩) ⟨fun _ => rfl, fun _ => rfl, rfl⟩)

theorem Moves.unreserve (releasing : allowed .release) (sound : s.Sound) (items : List RunId) :
    Moves norm allowed added s (s.unreserve items) :=
  .single (.aside rfl sound.custody.items_nodup (fun _ mem => .inl mem) (.inl subset_rfl)
    (fun now => ⟨now, .inr releasing⟩) ⟨fun _ => rfl, fun _ => rfl, rfl⟩)

theorem foldl_erase_sublist (processed items : List RunId) :
    (processed.foldl List.erase items).Sublist items := by
  induction processed generalizing items with
  | nil => exact List.Sublist.refl _
  | cons item processed ih => exact (ih _).trans List.erase_sublist

theorem Moves.removeQueued (sound : s.Sound) (processed : List RunId) :
    Moves norm allowed added s (s.removeQueuedItemsByRef processed) :=
  Moves.dropQuietly sound (foldl_erase_sublist processed s.items)

theorem Moves.unregister (sound : s.Sound) (empty : Bool) :
    Moves norm allowed added s { s with registered := s.registered && empty } :=
  .single (.aside rfl sound.custody.items_nodup (fun _ mem => .inl mem) (.inl subset_rfl)
    (fun now => ⟨(Bool.and_eq_true_iff.mp now).1, .inl subset_rfl⟩)
    ⟨fun _ => rfl, fun _ => rfl, rfl⟩)

/-- Undropped items go back to the head of the queue. -/
theorem Moves.restore (sound : s.Sound) {items : List RunId} (nodup : items.Nodup)
    (undropped : ∀ item ∈ items, s.Undropped item) :
    Moves norm allowed (fun _ => True) s (s.restoreGroupItems items) := by
  refine .single (.aside rfl ?_ (fun item mem => ?_) (.inl subset_rfl)
    (fun now => ⟨now, .inl subset_rfl⟩) ⟨fun _ => rfl, fun _ => rfl, rfl⟩)
  · refine List.nodup_append.mpr ⟨nodup.filter _, sound.custody.items_nodup, ?_⟩
    rintro item back _ here rfl
    exact absurd here (of_decide_eq_true (List.mem_filter.mp back).2)
  · exact (List.mem_append.mp mem).symm.imp_right fun back =>
      ⟨trivial, undropped item (List.mem_filter.mp back).1⟩

theorem Reserved.restorable {items : List RunId} (reserved : s.Reserved items)
    (owned : s.owned = true) : ∀ item ∈ items, s.Undropped item := fun item mem =>
  (reserved.inFlight (Bool.and_eq_true_iff.mp owned).1 item mem).2

end State

namespace Machine

open State (Moves)

variable {norm : Normalizers} {allowed : Permission → Prop} {m m' : Machine} {label : Label}
  {s : State}

/-- A chain of moves from a state to a machine that awaits what holds. -/
def LeadsTo (norm : Normalizers) (allowed : Permission → Prop) (s : State) (m : Machine) : Prop :=
  Moves norm allowed (fun _ => True) s m.state ∧ m.drain.Pending m.state

theorem LeadsTo.startSingle (sound : m.state.Sound) (kind : SingleKind) (item : RunId) :
    LeadsTo norm allowed m.state (m.startSingle kind item) :=
  ⟨Moves.reserve sound (Finset.subset_insert item m.state.inFlight), trivial⟩

theorem LeadsTo.finishDrain (sound : s.Sound) : LeadsTo norm allowed s (Machine.finishDrain s) :=
  ⟨Moves.unregister sound _, trivial⟩

theorem LeadsTo.singleReturns (sound : s.Sound) (releasing : allowed .release) (item : RunId) :
    LeadsTo norm allowed s {
      state := (s.removeQueuedItemsByRef [item]).unreserve [item]
      drain := .looping } := by
  have removed : Moves norm allowed (fun _ => True) s (s.removeQueuedItemsByRef [item]) :=
    Moves.removeQueued sound [item]
  exact ⟨removed.trans (Moves.unreserve releasing (sound.moves removed) [item]), trivial⟩

theorem LeadsTo.throwSingle (sound : s.Sound) (releasing : allowed .release) (kind : SingleKind)
    (item : RunId) : LeadsTo norm allowed s (Machine.throwSingle s kind item) := by
  rw [Machine.throwSingle]
  split
  · have removed : Moves norm allowed (fun _ => True) s (s.removeQueuedItemsByRef [item]) :=
      Moves.removeQueued sound [item]
    exact ⟨removed.trans (Moves.unreserve releasing (sound.moves removed) [item]), trivial⟩
  · exact ⟨Moves.unreserve releasing sound [item], trivial⟩

theorem LeadsTo.ofOutcome {result : State.Outcome × State}
    (moves : Moves norm allowed (fun _ => True) s result.2) (ready : result.1.Ready result.2) :
    LeadsTo norm allowed s (Machine.ofOutcome result) := by
  obtain ⟨outcome, t⟩ := result
  cases outcome with
  | skipped | handled | threw => exact ⟨moves, trivial⟩
  | started delivery => exact ⟨moves, ready⟩

/-- A delivery that was admitted, or that succeeded before. -/
theorem settleable_of_ready {delivery : Delivery} {t : State}
    (ready : (State.Outcome.started delivery).Ready s)
    (moves : Moves norm allowed (fun _ => True) s t)
    (shown : ∀ source ∈ delivery.protectedSources, t.Shown source) :
    ∀ id elided, delivery.elided = some (id, elided) → t.Settleable id elided := by
  intro id elided same
  obtain ⟨front, subset, nodup⟩ := ready.2.2 id elided same
  exact ⟨front.moves moves, nodup, fun source mem => shown source (subset mem)⟩

theorem LeadsTo.adopt (sound : s.Sound) (consuming : allowed .consume) {delivery : Delivery}
    (ready : (State.Outcome.started delivery).Ready s) :
    LeadsTo norm allowed s {
      state := s.admitDelivery delivery
      drain := .summary delivery true } := by
  have admitted : Moves norm allowed (fun _ => True) s (s.admitDelivery delivery) :=
    Moves.admitDelivery sound ready.1 consuming ready.2.1
  exact ⟨admitted, settleable_of_ready ready admitted
    (State.shown_admitDelivery norm sound ready.1 ready.2.1)⟩

theorem LeadsTo.summaryReturned {delivery : Delivery} {delivered : Bool} {t : State}
    (moves : Moves norm allowed (fun _ => True) s t)
    (settleable : delivered = true → ∀ id elided, delivery.elided = some (id, elided) →
      t.Settleable id elided) :
    LeadsTo norm allowed s (Machine.summaryReturned delivery delivered t) := by
  rw [Machine.summaryReturned]
  split
  case h_1 id elided same =>
    split
    case isTrue succeeded => exact ⟨moves, settleable succeeded id elided same⟩
    case isFalse => exact ⟨moves, trivial⟩
  case h_2 => exact ⟨moves, trivial⟩

theorem LeadsTo.summaryReturns (sound : s.Sound) (consuming : allowed .consume)
    (releasing : allowed .release) {delivery : Delivery} {admitted : Bool}
    (pending : (Drain.summary delivery admitted).Pending s) :
    LeadsTo norm allowed s (Machine.summaryReturned delivery (s.returnDelivery delivery admitted).1
      (s.returnDelivery delivery admitted).2) := by
  cases admitted with
  | true =>
      have finished : Moves norm allowed (fun _ => True) s (s.finishDelivery delivery false) :=
        Moves.finishDelivery releasing sound false
      exact LeadsTo.summaryReturned finished fun _ id elided same =>
        (pending id elided same).moves finished
  | false =>
      have returned : Moves norm allowed (fun _ => True) s (s.returnDelivery delivery false).2 :=
        Moves.returnUnadmitted sound pending.1 consuming releasing pending.2.1
      exact LeadsTo.summaryReturned returned fun delivered =>
        settleable_of_ready pending returned
          (State.shown_returnDelivery norm sound pending.1 pending.2.1 delivered)

theorem LeadsTo.startGroup (sound : s.Sound) {group : List RunId} {groups : List (List RunId)}
    (nodup : ∀ other ∈ group :: groups, other.Nodup)
    (alike : allowed .mix ∨ s.Alike norm (group.filter (· ∈ s.items))) :
    LeadsTo norm allowed s (Machine.startGroup norm s group groups) := by
  have groupsNodup : ∀ other ∈ groups, other.Nodup := fun other mem =>
    nodup other (List.mem_cons_of_mem _ mem)
  have removed : Moves norm allowed (fun _ => True) s (s.removeQueuedItemsByRef
      ((group.filter (· ∈ s.items)).filter s.isFollowupRunAborted)) := Moves.removeQueued sound _
  rw [Machine.startGroup]
  dsimp only
  split
  · exact ⟨removed, groupsNodup⟩
  · split
    · exact ⟨removed, trivial⟩
    · have active : ∀ item ∈ (group.filter (· ∈ s.items)).filter
          (fun item => !s.isFollowupRunAborted item), item ∈ group.filter (· ∈ s.items) :=
        fun item mem => (List.mem_filter.mp mem).1
      refine ⟨removed.tail (.build _ ?_) |>.trans (Moves.reserve ?_ Finset.subset_union_left),
        ⟨((nodup group List.mem_cons_self).filter _).filter _, fun _ item mem => ⟨?_, ?_⟩⟩,
        groupsNodup⟩
      · exact alike.symm.imp_left fun same left first right second =>
          same left (active left first) right (active right second)
      · exact (sound.moves removed).recordBuilt norm _
      · exact Finset.mem_union_right _ (List.mem_toFinset.mpr mem)
      · exact sound.custody.items item (by simpa using (List.mem_filter.mp (active item mem)).2)

section Group

variable {items : List RunId} {groups : List (List RunId)}

theorem LeadsTo.returnGroup (sound : s.Sound) (releasing : allowed .release) {admitted : Bool}
    (pending : (Drain.group items admitted groups).Pending s) :
    LeadsTo norm allowed s (Machine.returnGroup s items admitted groups) := by
  have groupsNodup : ∀ group ∈ groups, group.Nodup := by
    cases admitted with
    | true => exact pending
    | false => exact pending.2
  have released : Moves norm allowed (fun _ => True) s (s.unreserve items) :=
    Moves.unreserve releasing sound items
  have removed : ∀ processed, Moves norm allowed (fun _ => True) s
      ((s.unreserve items).removeQueuedItemsByRef processed) := fun processed =>
    released.trans (Moves.removeQueued (sound.moves released) processed)
  rw [Machine.returnGroup]
  dsimp only
  split
  case isTrue canceled =>
    split
    case isTrue owned =>
      split
      · exact ⟨removed _, groupsNodup⟩
      · have reserved : s.Reserved items := by
          cases admitted with
          | true => simp at canceled
          | false => exact pending.1
        refine ⟨(removed _).trans (Moves.restore (sound.moves (removed _)) (reserved.nodup.filter _)
          fun item mem => ?_), trivial⟩
        exact reserved.restorable owned item (List.mem_filter.mp mem).1
    case isFalse => exact ⟨removed _, groupsNodup⟩
  case isFalse => exact ⟨removed _, groupsNodup⟩

theorem LeadsTo.throwGroup (sound : s.Sound) (releasing : allowed .release) {admitted : Bool}
    (pending : (Drain.group items admitted groups).Pending s) :
    LeadsTo norm allowed s (Machine.throwGroup s items admitted) := by
  rw [Machine.throwGroup]
  split
  · have removed : Moves norm allowed (fun _ => True) s (s.removeQueuedItemsByRef items) :=
      Moves.removeQueued sound items
    exact ⟨removed.trans (Moves.unreserve releasing (sound.moves removed) items), trivial⟩
  case isFalse unadmitted =>
    split
    case isTrue owned =>
      have reserved : s.Reserved items := by
        cases admitted with
        | true => exact absurd rfl unadmitted
        | false => exact pending.1
      have restored : Moves norm allowed (fun _ => True) s (s.restoreGroupItems items) :=
        Moves.restore sound reserved.nodup (reserved.restorable owned)
      exact ⟨restored.trans (Moves.unreserve releasing (sound.moves restored) items), trivial⟩
    case isFalse => exact ⟨Moves.unreserve releasing sound items, trivial⟩

end Group

theorem drain_moves (sound : m.state.Sound) (pending : m.drain.Pending m.state)
    (internal : Label.external label = false) (permitted : m.Permitted norm allowed label)
    (taken : step norm m label = some m') : LeadsTo norm allowed m.state m' := by
  cases label with
  | startDrain =>
      obtain ⟨-, same⟩ := Option.ite_none_right_eq_some.mp taken
      obtain rfl := Option.some.inj same
      exact ⟨.refl, trivial⟩
  | stopDrain =>
      obtain ⟨-, same⟩ := Option.ite_none_right_eq_some.mp taken
      obtain rfl := Option.some.inj same
      exact .finishDrain sound
  | finishDrain =>
      obtain ⟨-, same⟩ := Option.ite_none_right_eq_some.mp taken
      obtain rfl := Option.some.inj same
      exact .finishDrain sound
  | deliverAborted item =>
      obtain ⟨-, same⟩ := Option.ite_none_right_eq_some.mp taken
      obtain rfl := Option.some.inj same
      exact .startSingle sound .aborted item
  | deliverPriority =>
      simp only [step] at taken
      split at taken
      case h_1 item _ _ _ =>
        obtain rfl := Option.some.inj taken
        exact .startSingle sound .priority item
      case h_2 => cases taken
  | deliverNext =>
      obtain ⟨-, same⟩ := Option.ite_none_right_eq_some.mp taken
      split at same
      case h_1 item rest _ =>
        obtain rfl := Option.some.inj same
        exact .startSingle sound .next item
      case h_2 => cases same
  | singleReturns =>
      simp only [step] at taken
      split at taken
      case h_1 kind item _ =>
        obtain rfl := Option.some.inj taken
        exact .singleReturns sound permitted.1 item
      case h_2 => cases taken
  | singleThrows =>
      simp only [step] at taken
      split at taken
      case h_1 kind item _ =>
        obtain rfl := Option.some.inj taken
        exact .throwSingle sound permitted.1 kind item
      case h_2 => cases taken
  | summarizeOverflow =>
      obtain ⟨-, same⟩ := Option.ite_none_right_eq_some.mp taken
      obtain rfl := Option.some.inj same
      obtain ⟨moves, ready⟩ : Moves norm allowed (fun _ => True) _ _ ∧ _ :=
        State.drainOverflowSummaryGroup_moves permitted.1 sound permitted.2
      exact .ofOutcome moves ready
  | adopt =>
      simp only [step] at taken
      split at taken
      case h_1 delivery drain =>
        rw [drain] at pending
        obtain ⟨-, same⟩ := Option.ite_none_right_eq_some.mp taken
        obtain rfl := Option.some.inj same
        exact .adopt sound permitted.2 pending
      case h_2 => cases taken
  | summaryReturns =>
      simp only [step] at taken
      split at taken
      case h_1 delivery admitted drain =>
        rw [drain] at pending
        obtain rfl := Option.some.inj taken
        exact .summaryReturns sound permitted.2 permitted.1 pending
      case h_2 => cases taken
  | summaryThrows deferred =>
      simp only [step] at taken
      split at taken
      case h_1 delivery admitted drain =>
        obtain rfl := Option.some.inj taken
        exact ⟨Moves.failDelivery sound permitted.2 permitted.1 admitted deferred, trivial⟩
      case h_2 => cases taken
  | settle =>
      simp only [step] at taken
      split at taken
      case h_1 id delivered drain =>
        rw [drain] at pending
        obtain rfl := Option.some.inj taken
        refine ⟨Moves.settleElided permitted.1 sound id delivered.length ?_, trivial⟩
        refine permitted.2.symm.imp_left fun own source mem => pending.shown source ?_
        exact State.settledSources_subset sound pending.front pending.nodup (own id delivered drain)
          mem
      case h_2 => cases taken
  | collect =>
      obtain ⟨-, same⟩ := Option.ite_none_right_eq_some.mp taken
      obtain rfl := Option.some.inj same
      refine ⟨.refl, fun group mem => ?_⟩
      refine (List.Sublist.nodup ?_ sound.custody.items_nodup)
      have joined := List.flatten_splitBy (fun left right => decide (m.state.contextKey norm left =
        m.state.contextKey norm right)) m.state.items
      exact joined ▸ List.sublist_flatten_of_mem mem
  | nextGroup =>
      simp only [step] at taken
      split at taken
      case h_1 group groups drain =>
        rw [drain] at pending
        obtain rfl := Option.some.inj taken
        exact .startGroup sound pending (permitted.2.imp_right fun same => same group groups drain)
      case h_2 =>
        obtain rfl := Option.some.inj taken
        exact ⟨.refl, trivial⟩
      case h_3 => cases taken
  | adoptGroup =>
      simp only [step] at taken
      split at taken
      case h_1 items groups drain =>
        rw [drain] at pending
        obtain ⟨-, same⟩ := Option.ite_none_right_eq_some.mp taken
        obtain rfl := Option.some.inj same
        exact ⟨Moves.removeQueued sound items, pending.2⟩
      case h_2 => cases taken
  | groupReturns =>
      simp only [step] at taken
      split at taken
      case h_1 items admitted groups drain =>
        rw [drain] at pending
        obtain rfl := Option.some.inj taken
        exact .returnGroup sound permitted.1 pending
      case h_2 => cases taken
  | groupThrows =>
      simp only [step] at taken
      split at taken
      case h_1 items admitted groups drain =>
        rw [drain] at pending
        obtain rfl := Option.some.inj taken
        exact .throwGroup sound permitted.1 pending
      case h_2 => cases taken
  | enqueue | settleSteer | consumeSteer | refresh | abort | clear => cases internal

/-- One step: a chain of moves, after which the drain can still rely on what it awaits. -/
theorem step_moves (sound : m.state.Sound) (pending : m.drain.Pending m.state)
    (permitted : m.Permitted norm allowed label) (taken : step norm m label = some m') :
    LeadsTo norm allowed m.state m' := by
  cases kind : Label.external label with
  | true =>
      obtain ⟨drain, moves⟩ := external_moves sound kind permitted taken
      exact ⟨moves.mono (fun _ undisturbing => undisturbing.2.2) fun _ _ => trivial,
        drain ▸ pending.moves moves⟩
  | false => exact drain_moves sound pending kind permitted taken

end Machine
end Followup
