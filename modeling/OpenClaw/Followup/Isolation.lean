import OpenClaw.Followup.Delivered

/-!
Delivery contexts over whole runs. Items are rewritten together, so a collect group keeps
one key until its run is built. An elision entry keeps the key of its copies unless a
refresh reroutes an elided source or retained sources with staged images join it.
-/

namespace Followup

/-- The key determines the authorization key. -/
theorem authorization_of_key {norm : Normalizers} {left right : FollowupRun}
    {leftExecution rightExecution : Execution}
    (same : resolveFollowupDeliveryContextKey norm left leftExecution =
      resolveFollowupDeliveryContextKey norm right rightExecution) :
    resolveFollowupAuthorizationKey leftExecution =
      resolveFollowupAuthorizationKey rightExecution := by
  have component := congrArg (·[7]?) same
  exact KeyPart.array.inj (Option.some.inj component)

namespace State

variable {norm : Normalizers} {allowed : Permission → Prop} {added : RunId → Prop} {s t : State}

theorem Move.items (move : Move norm allowed added s t) :
    ∀ item ∈ t.items, item ∈ s.items ∨ added item := by
  intro item mem
  cases move with
  | aside ledger nodup items active reserved keys => exact (items item mem).imp_right And.left
  | receive run execution _ => cases execution <;> exact .inl mem
  | drop dropped kept split unreserved => exact .inl (split.subset (List.mem_append_right _ mem))
  | elide source line sources lines head headLine =>
      rw [(elideHead_frame s norm source line sources lines).2.2.1] at mem
      exact .inl mem
  | retry source here consuming =>
      rw [releaseForRetry_of_mem here] at mem
      exact .inl mem
  | clear => cases mem
  | refresh | evict | discard | forget | build | prompt => exact .inl mem

theorem Moves.items (moves : Moves norm allowed added s t) :
    ∀ item ∈ t.items, item ∈ s.items ∨ added item := by
  induction moves with
  | refl => exact fun _ mem => .inl mem
  | tail _ move ih => exact fun item mem => (move.items item mem).elim (ih item) .inr

theorem Moves.nextRun (moves : Moves norm allowed added s t) : s.nextRun ≤ t.nextRun := by
  induction moves with
  | refl => exact le_rfl
  | tail _ move ih => exact ih.trans move.frame.nextRun

/-- Without a refresh the keys of all runs stay. -/
theorem Keyed.moves_keys (keyed : s.Keyed norm) (sound : s.Sound)
    (moves : Moves norm allowed added s t) (unrefreshed : ¬ allowed .refresh)
    (unrouted : ¬ allowed .reroute) {id : RunId} (known : id < s.nextRun) :
    t.contextKey norm id = s.contextKey norm id := by
  induction moves with
  | refl => rfl
  | tail before move ih =>
      have now := keyed.moves sound unrouted before
      rw [now.move_keys move unrefreshed (Nat.lt_of_lt_of_le known (Moves.nextRun before)), ih]

/-- The sources of every synthetic run had one key. -/
def BuiltAlike (s : State) : Prop :=
  ∀ built ∈ s.history.built, ∀ left ∈ built, ∀ right ∈ built, left.2 = right.2

theorem BuiltAlike.move (built : s.BuiltAlike) (move : Move norm allowed added s t)
    (separate : ¬ allowed .mix) : t.BuiltAlike := by
  cases move with
  | aside ledger nodup items active reserved keys =>
      have history : t.history = s.history := congrArg LedgerFields.history ledger
      rw [BuiltAlike, history]
      exact built
  | receive run execution _ => cases execution <;> exact built
  | elide item line sources lines head headLine =>
      rw [BuiltAlike, (elideHead_frame s norm item line sources lines).2.2.2.2.2.2]
      exact built
  | retry source mem consuming =>
      rw [releaseForRetry_of_mem mem]
      exact built
  | build sources alike =>
      intro record mem left first right second
      cases List.mem_append.mp mem with
      | inl before => exact built record before left first right second
      | inr new =>
          rw [List.mem_singleton.mp new] at first second
          obtain ⟨leftSource, leftMem, rfl⟩ := List.mem_map.mp first
          obtain ⟨rightSource, rightMem, rfl⟩ := List.mem_map.mp second
          exact alike.resolve_right separate leftSource leftMem rightSource rightMem
  | refresh | drop | evict | discard | forget | clear | prompt => exact built

theorem BuiltAlike.moves (built : s.BuiltAlike) (moves : Moves norm allowed added s t)
    (separate : ¬ allowed .mix) : t.BuiltAlike := by
  induction moves with
  | refl => exact built
  | tail _ move ih => exact ih.move move separate

/-- The groups of a collect drain, as far as they are still queued. -/
def GroupsAlike (norm : Normalizers) (s : State) (groups : List (List RunId)) : Prop :=
  ∀ group ∈ groups, (∀ item ∈ group, item < s.nextRun) ∧
    s.Alike norm (group.filter (· ∈ s.items))

theorem GroupsAlike.of_keys {groups : List (List RunId)} (alike : s.GroupsAlike norm groups)
    (nextRun : s.nextRun ≤ t.nextRun)
    (items : ∀ item, item < s.nextRun → item ∈ t.items → item ∈ s.items)
    (keys : ∀ left ∈ s.items, ∀ right ∈ s.items, left < s.nextRun → right < s.nextRun →
      s.contextKey norm left = s.contextKey norm right →
        t.contextKey norm left = t.contextKey norm right) : t.GroupsAlike norm groups := by
  intro group mem
  obtain ⟨known, same⟩ := alike group mem
  have still : ∀ item ∈ group.filter (· ∈ t.items), item ∈ s.items ∧ item < s.nextRun ∧
      item ∈ group.filter (· ∈ s.items) := fun item here => by
    obtain ⟨inGroup, now⟩ := List.mem_filter.mp here
    have before := items item (known item inGroup) (of_decide_eq_true now)
    exact ⟨before, known item inGroup, List.mem_filter.mpr ⟨inGroup, decide_eq_true before⟩⟩
  refine ⟨fun item inGroup => Nat.lt_of_lt_of_le (known item inGroup) nextRun,
    fun left first right second => ?_⟩
  obtain ⟨leftItem, leftKnown, leftBefore⟩ := still left first
  obtain ⟨rightItem, rightKnown, rightBefore⟩ := still right second
  exact keys left leftItem right rightItem leftKnown rightKnown
    (same left leftBefore right rightBefore)

theorem key_rewrite_set (refresh : SessionRefresh) (run : FollowupRun) (execution : Execution) :
    resolveFollowupDeliveryContextKey norm run (rewriteRun refresh execution) =
      ((resolveFollowupDeliveryContextKey norm run execution).set 10
        (.text (refresh.nextProvider.getD execution.provider))).set 11
          (.text (refresh.nextModel.getD execution.model)) := by
  have provider : (rewriteRun refresh execution).provider =
      refresh.nextProvider.getD execution.provider := by
    rw [rewriteRun]
    split
    · dsimp only
      split <;> rfl
    · rfl
  have model : (rewriteRun refresh execution).model = refresh.nextModel.getD execution.model := by
    rw [rewriteRun]
    split
    · dsimp only
      split <;> rfl
    · rfl
  rw [key_rewriteRun, provider, model]
  rfl

/-- A refresh rewrites all items alike. -/
theorem contextKey_refresh_items {refresh : SessionRefresh} {left right : RunId}
    (first : left ∈ s.items) (second : right ∈ s.items)
    (same : s.contextKey norm left = s.contextKey norm right) :
    (s.refreshQueuedFollowupSession refresh).contextKey norm left =
      (s.refreshQueuedFollowupSession refresh).contextKey norm right := by
  have rewritten : ∀ item ∈ s.items, (s.refreshQueuedFollowupSession refresh).contextKey norm item =
      resolveFollowupDeliveryContextKey norm (s.runs item)
        (rewriteRun refresh (s.execution item)) := by
    intro item mem
    have listed : (s.runs item).run ∈ s.refreshed := by
      refine List.mem_append_right _ (List.mem_map.mpr ⟨item, ?_, rfl⟩)
      exact List.mem_append_left _ (List.mem_append_left _ mem)
    rw [contextKey]
    exact congrArg _ (if_pos listed)
  have provider := congrArg (·[10]?) same
  have model := congrArg (·[11]?) same
  rw [rewritten left first, rewritten right second, key_rewrite_set, key_rewrite_set]
  rw [contextKey, contextKey] at same
  rw [same, KeyPart.text.inj (Option.some.inj provider), KeyPart.text.inj (Option.some.inj model)]

/-- Consecutive items of one key form the groups. -/
theorem GroupsAlike.split (sound : s.Sound) : s.GroupsAlike norm
    (s.splitCollectItemsByDeliveryContext norm s.items) := by
  intro group mem
  have sublist : group.Sublist s.items := by
    have joined := List.flatten_splitBy (fun left right => decide (s.contextKey norm left =
      s.contextKey norm right)) s.items
    exact joined ▸ List.sublist_flatten_of_mem mem
  have chain : group.IsChain fun left right => s.contextKey norm left = s.contextKey norm right := by
    have linked := List.isChain_of_mem_splitBy mem
    exact linked.imp fun left right same => of_decide_eq_true same
  have alike : ∀ left ∈ group, ∀ right ∈ group,
      s.contextKey norm left = s.contextKey norm right := by
    have : IsTrans RunId fun left right => s.contextKey norm left = s.contextKey norm right :=
      ⟨fun _ _ _ => Eq.trans⟩
    have : Std.Symm fun left right => s.contextKey norm left = s.contextKey norm right :=
      ⟨fun _ _ => Eq.symm⟩
    exact fun left first right second => List.Pairwise.forall_of_forall
      (R := fun left right => s.contextKey norm left = s.contextKey norm right) (fun _ _ => rfl)
      chain.pairwise first second
  exact ⟨fun item here => (sound.custody.items item (sublist.subset here)).1,
    fun left first right second => alike left (List.mem_filter.mp first).1 right
      (List.mem_filter.mp second).1⟩

/-- Groups stay alike while items are only taken away. -/
theorem GroupsAlike.shrink {groups : List (List RunId)}
    (alike : s.GroupsAlike norm groups) (nextRun : t.nextRun = s.nextRun)
    (items : t.items.Sublist s.items) (keys : ∀ id, t.contextKey norm id = s.contextKey norm id) :
    t.GroupsAlike norm groups :=
  alike.of_keys nextRun.ge (fun _ _ mem => items.subset mem) fun left _ right _ _ _ same => by
    rw [keys, keys, same]

theorem GroupsAlike.nil : s.GroupsAlike norm [] := fun _ mem => by cases mem

end State

namespace Machine

open Transition
open State (Moves GroupsAlike)

variable {norm : Normalizers} {settings : QueueSettings} {m m' : Machine} {label : Label}

/-- No refresh reroutes elided sources, and no retained source with staged images joins
the copies of an elision entry. -/
def KeepsContexts (norm : Normalizers) (m : Machine) : Label → Prop
  | .refresh refresh => m.state.KeepsElidedRoutes refresh
  | .summarizeOverflow => m.state.mixesPrepared norm = false
  | _ => True

/-- The groups a collect drain still has to deliver. -/
def pendingGroups : Drain → List (List RunId)
  | .collecting groups => groups
  | .group _ _ groups => groups
  | _ => []

/-- What keeps delivery contexts apart. -/
structure Isolated (norm : Normalizers) (m : Machine) : Prop where
  inv : m.Invariant
  keyed : m.state.Keyed norm
  groups : m.state.GroupsAlike norm (pendingGroups m.drain)
  built : m.state.BuiltAlike

/-- Moves that neither mix nor reroute. -/
abbrev Separate (p : Permission) : Prop := p ≠ .mix ∧ p ≠ .reroute

theorem Isolated.permitted (isolated : m.Isolated norm) (keeps : m.KeepsContexts norm label) :
    m.Permitted norm Separate label := by
  cases label with
  | enqueue | settleSteer | consumeSteer | abort | clear => trivial
  | refresh => exact ⟨by decide, .inl keeps⟩
  | settle => exact ⟨by decide, .inl (by decide)⟩
  | summarizeOverflow => exact ⟨by decide, .inl ⟨isolated.keyed, keeps⟩⟩
  | nextGroup =>
      refine ⟨by decide, .inr fun group groups drain => ?_⟩
      have alike := isolated.groups group (by rw [drain]; exact List.mem_cons_self)
      exact alike.2
  | startDrain | stopDrain | finishDrain | deliverAborted | deliverPriority | deliverNext
  | singleReturns | singleThrows | adopt | summaryReturns | summaryThrows | collect | adoptGroup
  | groupReturns | groupThrows => exact ⟨by decide, by decide⟩

theorem groupsAlike_startGroup {s : State} {group : List RunId} {groups : List (List RunId)}
    (alike : s.GroupsAlike norm (group :: groups)) :
    (startGroup norm s group groups).state.GroupsAlike norm
      (pendingGroups (startGroup norm s group groups).drain) := by
  have rest : s.GroupsAlike norm groups := fun other mem => alike other (List.mem_cons_of_mem _ mem)
  rw [Machine.startGroup]
  dsimp only
  split
  · exact rest.shrink rfl (State.foldl_erase_sublist _ _) fun _ => rfl
  · split
    · exact GroupsAlike.nil
    · exact rest.shrink rfl (State.foldl_erase_sublist _ _) fun _ => rfl

theorem groupsAlike_returnGroup {s : State} {items : List RunId} {admitted : Bool}
    {groups : List (List RunId)} (alike : s.GroupsAlike norm groups) :
    (returnGroup s items admitted groups).state.GroupsAlike norm
      (pendingGroups (returnGroup s items admitted groups).drain) := by
  rw [Machine.returnGroup]
  dsimp only
  split
  · split
    · split
      · exact alike.shrink rfl (State.foldl_erase_sublist _ _) fun _ => rfl
      · exact GroupsAlike.nil
    · exact alike.shrink rfl (State.foldl_erase_sublist _ _) fun _ => rfl
  · exact alike.shrink rfl (State.foldl_erase_sublist _ _) fun _ => rfl

theorem pendingGroups_ofOutcome (result : State.Outcome × State) :
    pendingGroups (ofOutcome result).drain = [] := by
  obtain ⟨outcome, s⟩ := result
  cases outcome <;> rfl

theorem pendingGroups_summaryReturned (delivery : Delivery) (delivered : Bool) (s : State) :
    pendingGroups (summaryReturned delivery delivered s).drain = [] := by
  rw [summaryReturned]
  split
  · split <;> rfl
  · rfl

theorem Isolated.drain_groups (isolated : m.Isolated norm)
    (internal : Label.external label = false) (taken : step norm m label = some m') :
    m'.state.GroupsAlike norm (pendingGroups m'.drain) := by
  have groups := isolated.groups
  cases label with
  | collect =>
      obtain ⟨-, same⟩ := Option.ite_none_right_eq_some.mp taken
      obtain rfl := Option.some.inj same
      exact GroupsAlike.split isolated.inv.sound
  | nextGroup =>
      simp only [step] at taken
      split at taken
      case h_1 group rest drain =>
        rw [drain] at groups
        obtain rfl := Option.some.inj taken
        exact groupsAlike_startGroup groups
      case h_2 =>
        obtain rfl := Option.some.inj taken
        exact GroupsAlike.nil
      case h_3 => cases taken
  | adoptGroup =>
      simp only [step] at taken
      split at taken
      case h_1 items rest drain =>
        rw [drain] at groups
        obtain ⟨-, same⟩ := Option.ite_none_right_eq_some.mp taken
        obtain rfl := Option.some.inj same
        exact GroupsAlike.shrink groups rfl (State.foldl_erase_sublist _ _) fun _ => rfl
      case h_2 => cases taken
  | groupReturns =>
      simp only [step] at taken
      split at taken
      case h_1 items admitted rest drain =>
        rw [drain] at groups
        obtain rfl := Option.some.inj taken
        exact groupsAlike_returnGroup groups
      case h_2 => cases taken
  | startDrain | stopDrain | finishDrain | deliverAborted =>
      obtain ⟨-, same⟩ := Option.ite_none_right_eq_some.mp taken
      obtain rfl := Option.some.inj same
      exact GroupsAlike.nil
  | summarizeOverflow =>
      obtain ⟨-, same⟩ := Option.ite_none_right_eq_some.mp taken
      obtain rfl := Option.some.inj same
      rw [pendingGroups_ofOutcome]
      exact GroupsAlike.nil
  | summaryReturns =>
      simp only [step] at taken
      split at taken
      case h_1 =>
        obtain rfl := Option.some.inj taken
        rw [pendingGroups_summaryReturned]
        exact GroupsAlike.nil
      case h_2 => cases taken
  | deliverNext =>
      obtain ⟨-, same⟩ := Option.ite_none_right_eq_some.mp taken
      split at same
      case h_1 =>
        obtain rfl := Option.some.inj same
        exact GroupsAlike.nil
      case h_2 => cases same
  | adopt =>
      simp only [step] at taken
      split at taken
      case h_1 =>
        obtain ⟨-, same⟩ := Option.ite_none_right_eq_some.mp taken
        obtain rfl := Option.some.inj same
        exact GroupsAlike.nil
      case h_2 => cases taken
  | deliverPriority | singleReturns | singleThrows | summaryThrows | settle | groupThrows =>
      simp only [step] at taken
      split at taken
      case h_1 =>
        obtain rfl := Option.some.inj taken
        exact GroupsAlike.nil
      case h_2 => cases taken
  | enqueue | settleSteer | consumeSteer | refresh | abort | clear => cases internal

theorem Isolated.external_groups (isolated : m.Isolated norm)
    (external : Label.external label = true) (keeps : m.KeepsContexts norm label)
    (taken : step norm m label = some m') :
    m'.state.GroupsAlike norm (pendingGroups m'.drain) := by
  obtain ⟨drain, moves⟩ := external_moves isolated.inv.sound external (isolated.permitted keeps) taken
  have items : ∀ item, item < m.state.nextRun → item ∈ m'.state.items → item ∈ m.state.items := by
    intro item known mem
    rcases moves.items item mem with before | before | new
    · exact before
    · exact before
    · exact absurd new (Nat.ne_of_lt known)
  rw [drain]
  refine isolated.groups.of_keys moves.nextRun items
    fun left first right second leftKnown rightKnown same => ?_
  cases label with
  | refresh refresh =>
      obtain ⟨-, result⟩ := Option.ite_none_right_eq_some.mp taken
      obtain rfl := Option.some.inj result
      exact State.contextKey_refresh_items first second same
  | enqueue | settleSteer | consumeSteer | abort | clear =>
      have moves : Moves norm (State.Undisturbing fun _ => False) _ m.state m'.state :=
        (external_moves isolated.inv.sound external trivial taken).2
      have keys : ∀ id, id < m.state.nextRun →
          m'.state.contextKey norm id = m.state.contextKey norm id := fun id known =>
        isolated.keyed.moves_keys isolated.inv.sound moves (fun given => given.2.2)
          (fun given => given.2.2) known
      rw [keys left leftKnown, keys right rightKnown, same]
  | startDrain | stopDrain | finishDrain | deliverAborted | deliverPriority | deliverNext
  | singleReturns | singleThrows | summarizeOverflow | adopt | summaryReturns | summaryThrows
  | settle | collect | nextGroup | adoptGroup | groupReturns | groupThrows => cases external

theorem Isolated.create (norm : Normalizers) (settings : QueueSettings) :
    (create settings).Isolated norm := by
  refine ⟨.create settings, ⟨fun id known => absurd known (Nat.not_lt_zero _), ?_⟩,
    GroupsAlike.nil, ?_⟩
  all_goals intro _ mem
  all_goals cases mem

theorem Isolated.step (isolated : m.Isolated norm) (keeps : m.KeepsContexts norm label)
    (taken : step norm m label = some m') : m'.Isolated norm := by
  have permitted := isolated.permitted keeps
  have moves := (step_moves isolated.inv.sound isolated.inv.pending permitted taken).1
  refine ⟨isolated.inv.step permitted taken,
    isolated.keyed.moves isolated.inv.sound (fun given => given.2 rfl) moves, ?_,
    isolated.built.moves moves fun given => given.1 rfl⟩
  cases kind : Label.external label with
  | true => exact isolated.external_groups kind keeps taken
  | false => exact isolated.drain_groups kind taken

/-- The sources of a synthetic run have one delivery context and one authorization. -/
theorem aggregation_isolated (norm : Normalizers) (settings : QueueSettings)
    (run : Reaches (Machine.step norm) (KeepsContexts norm) (Machine.create settings) m) :
    (∀ built ∈ m.state.history.built, ∀ left ∈ built, ∀ right ∈ built, left.2 = right.2) ∧
    ∀ left right leftExecution rightExecution,
      resolveFollowupDeliveryContextKey norm left leftExecution =
        resolveFollowupDeliveryContextKey norm right rightExecution →
      resolveFollowupAuthorizationKey leftExecution =
        resolveFollowupAuthorizationKey rightExecution :=
  ⟨(run.invariant (P := Isolated norm) (.create norm settings)
    fun _ _ _ isolated keeps taken => isolated.step keeps taken).built,
    fun _ _ _ _ => authorization_of_key⟩

instance (s : State) (refresh : State.SessionRefresh) : Decidable (s.KeepsElidedRoutes refresh) :=
  inferInstanceAs (Decidable (∀ source ∈ s.elided, _ ∧ _))

instance (m : Machine) (label : Label) : Decidable (m.KeepsContexts norm label) := by
  cases label with
  | refresh refresh => exact inferInstanceAs (Decidable (m.state.KeepsElidedRoutes refresh))
  | summarizeOverflow => exact inferInstanceAs (Decidable (_ = _))
  | enqueue | settleSteer | consumeSteer | abort | clear | startDrain | stopDrain | finishDrain
  | deliverAborted | deliverPriority | deliverNext | singleReturns | singleThrows | adopt
  | summaryReturns | summaryThrows | settle | collect | nextGroup | adoptGroup | groupReturns
  | groupThrows => exact isTrue trivial

theorem aggregation_isolated_collect : ∃ m : Machine,
    (∃ built ∈ m.state.history.built, 1 < built.length) ∧
    (∀ built ∈ m.state.history.built, ∀ left ∈ built, ∀ right ∈ built, left.2 = right.2) ∧
    ∀ left right leftExecution rightExecution,
      resolveFollowupDeliveryContextKey plain left leftExecution =
        resolveFollowupDeliveryContextKey plain right rightExecution →
      resolveFollowupAuthorizationKey leftExecution =
        resolveFollowupAuthorizationKey rightExecution := by
  obtain ⟨m, run, collected⟩ := Reaches.exists_of_exec (Machine.step plain) (KeepsContexts plain)
    (Machine.create { mode := .collect }) (P := fun m => ∃ built ∈ m.state.history.built, 1 < built.length)
    [message "a", message "b", message "c", .startDrain, .summarizeOverflow] (by decide) (by decide)
  exact ⟨m, collected, aggregation_isolated plain { mode := .collect } run⟩

/-- A run with staged images. -/
def withImages (prompt : String) : Label :=
  .enqueue { prompt := prompt, currentTurnImagesPrepared := true } (.new {})
    { settings := { cap := some (.real 1) } }

/-- A run for a provider, with an abort signal. -/
def forProvider (provider : String) (signal : Nat) : Label :=
  .enqueue { prompt := provider, abortSignal := some (.source signal) }
    (.new { provider := provider }) { settings := { cap := some (.real 1) } }

/-- The entry of the second run is refreshed, and then a run with its old key joins it. -/
def staleEntry : List Label :=
  [forProvider "p" 1, forProvider "p" 2, forProvider "p" 3, forProvider "p" 4,
    .refresh { nextProvider := some "q" }, .abort 3, .abort 4, .startDrain, .summarizeOverflow,
    .deliverAborted 4, .singleReturns, forProvider "p" 5, forProvider "p" 6, .summarizeOverflow]

def Mixed (s : State) : Prop :=
  ∃ built ∈ s.history.built, ∃ left ∈ built, ∃ right ∈ built, left.2 ≠ right.2

instance (s : State) : Decidable (Mixed s) :=
  inferInstanceAs (Decidable (∃ built ∈ s.history.built, ∃ left ∈ built, ∃ right ∈ built, _))

/-- A refresh leaves the key of an entry behind, and copies lose the staged images flag. -/
theorem aggregation_mixes_contexts :
    (∃ m : Machine, Reaches (Machine.step plain) Any (Machine.create {}) m ∧ Mixed m.state) ∧
    ∃ m : Machine, Reaches (Machine.step plain) Any (Machine.create {}) m ∧ Mixed m.state :=
  ⟨Reaches.exists_of_exec (Machine.step plain) Any (Machine.create {}) (P := fun m => Mixed m.state)
    staleEntry (by decide) (by decide),
    Reaches.exists_of_exec (Machine.step plain) Any (Machine.create {}) (P := fun m => Mixed m.state)
    [withImages "a", withImages "b", withImages "c", .startDrain, .summarizeOverflow]
      (by decide) (by decide)⟩

end Machine
end Followup
