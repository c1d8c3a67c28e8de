import OpenClaw.Followup.OverflowMoves

/-!
Starting the delivery of an overflow summary. The sources of the run that is built are
held and distinct, which makes them protected. They have one delivery context unless
retained sources with staged images join the copies of an elision entry.
-/

namespace Followup

/-- What a started delivery relies on. -/
def State.Outcome.Ready (s : State) : State.Outcome → Prop
  | .started delivery => delivery.Formed ∧ s.Protected delivery.protectedSources ∧
      ∀ id elided, delivery.elided = some (id, elided) →
        s.Front id elided ∧ elided ⊆ delivery.protectedSources ∧ elided.Nodup
  | _ => True

namespace State

variable {norm : Normalizers} {allowed : Permission → Prop} {added : RunId → Prop} {s t : State}
  {sources : List RunId}

/-- Hand the run built from the sources to `runFollowup`. -/
def startDelivery (norm : Normalizers) (s : State) (sources : List RunId) : State :=
  (s.recordBuilt norm sources).protectSources sources

theorem Moves.startDelivery (sound : s.Sound) (alike : s.Alike norm sources ∨ allowed .mix) :
    Moves norm allowed added s (s.startDelivery norm sources) :=
  .tail (.single (.build sources alike)) (.aside rfl sound.custody.items_nodup (fun _ mem => .inl mem)
    (.inl Finset.subset_union_left) (fun now => ⟨now, .inl Finset.subset_union_left⟩)
    ⟨fun _ => rfl, fun _ => rfl, rfl⟩)

/-- Held sources have no references yet. -/
theorem Protected.start (sound : s.Sound) (held : ∀ source ∈ sources, source ∈ s.held)
    (nodup : sources.Nodup) : (s.startDelivery norm sources).Protected sources := by
  refine ⟨fun source mem => (sound.custody.held source (held source mem)).1, ?_,
    fun source mem => ?_, fun entry mem source inSources compact reference => ?_⟩
  · exact nodup.map_on fun left first right second =>
      sound.custody.eq_of_origin (held left first) (held right second)
  · exact Finset.mem_union_right _ (List.mem_toFinset.mpr mem)
  · exact absurd (held source inSources)
      (sound.custody.references entry mem source compact reference).2.2.2.2

theorem previewQueueSummaryPrompt_nonempty {lines prompt : List String}
    (some_prompt : previewQueueSummaryPrompt sources.length lines = some prompt) : sources ≠ [] := by
  rintro rfl
  cases some_prompt

/-- The first group of retained sources is a prefix with one delivery context. -/
theorem group_sublist (norm : Normalizers) (s : State) :
    (s.resolveOverflowSummarySourceGroup norm).Sublist s.summarySources ∧
      ∀ source ∈ s.resolveOverflowSummarySourceGroup norm, ∀ head ∈ s.summarySources.head?,
        s.contextKey norm source = s.contextKey norm head := by
  rw [resolveOverflowSummarySourceGroup]
  cases s.summarySources with
  | nil => exact ⟨List.nil_sublist _, fun _ mem => by cases mem⟩
  | cons first rest =>
      refine ⟨(List.takeWhile_sublist _).cons_cons first, fun source mem head isHead => ?_⟩
      obtain rfl : first = head := Option.some.inj isHead
      cases List.mem_cons.mp mem with
      | inl same => rw [same]
      | inr later => simpa using List.mem_takeWhile_imp later

theorem Alike.group (norm : Normalizers) (s : State) :
    s.Alike norm (s.resolveOverflowSummarySourceGroup norm) := by
  intro left first right second
  obtain ⟨sublist, same⟩ := group_sublist norm s
  cases head : s.summarySources.head? with
  | none =>
      rw [List.head?_eq_none_iff.mp head] at sublist
      rw [List.sublist_nil.mp sublist] at first
      cases first
  | some head_source =>
      rw [same left first head_source head, same right second head_source head]

theorem drainRetained_moves (sound : s.Sound) :
    Moves norm allowed added s (s.drainRetained norm).2 ∧
      (s.drainRetained norm).1.Ready (s.drainRetained norm).2 := by
  rw [drainRetained]
  split
  case h_1 => exact ⟨.refl, trivial⟩
  case h_2 prompt some_prompt =>
    split
    · exact ⟨.refl, trivial⟩
    · have sublist := (group_sublist norm s).1
      refine ⟨Moves.startDelivery sound (.inl (Alike.group norm s)),
        ⟨List.Sublist.refl _, rfl, previewQueueSummaryPrompt_nonempty some_prompt⟩, ?_, ?_⟩
      · exact Protected.start sound (fun source mem => List.mem_append_left _ (sublist.subset mem))
          (sublist.nodup (List.nodup_append.mp sound.custody.held_nodup).1)
      · intro id elided none
        cases none

section Elided

variable {entry : Elision} {entries : List Elision}

theorem startElided_moves (sound : s.Sound) (head : s.summaryElisions = entry :: entries)
    {retained : List RunId} (sublist : retained.Sublist s.summarySources)
    (alike : s.Alike norm (entry.sources ++ retained) ∨ allowed .mix) :
    Moves norm allowed added s (s.startElided norm entry retained).2 ∧
      (s.startElided norm entry retained).1.Ready (s.startElided norm entry retained).2 := by
  rw [startElided]
  split
  case h_1 => exact ⟨.refl, trivial⟩
  case h_2 prompt some_prompt =>
    split
    · exact ⟨.refl, trivial⟩
    · have inEntries : entry ∈ s.summaryElisions := head ▸ List.mem_cons_self
      have elided : ∀ source ∈ entry.sources, source ∈ s.elided := fun source mem =>
        List.mem_flatMap.mpr ⟨entry, inEntries, mem⟩
      have entryNodup := (List.nodup_flatMap.mp sound.elided_nodup).1 entry inEntries
      have retainedNodup := sublist.nodup (List.nodup_append.mp sound.custody.held_nodup).1
      refine ⟨Moves.startDelivery sound alike,
        ⟨List.sublist_append_right .., rfl, previewQueueSummaryPrompt_nonempty some_prompt⟩,
        Protected.start sound (fun source mem => ?_) ?_, fun id others same => ?_⟩
      · exact (List.mem_append.mp mem).elim (fun here => List.mem_append_right _ (elided source here))
          fun here => List.mem_append_left _ (sublist.subset here)
      · refine List.nodup_append.mpr ⟨entryNodup, retainedNodup, ?_⟩
        rintro source inEntry _ inRetained rfl
        exact retained_apart sound (sublist.subset inRetained) (elided source inEntry)
      · obtain ⟨rfl, rfl⟩ := Prod.mk.inj (Option.some.inj same)
        refine ⟨⟨sound.custody.entries entry inEntries, fun source mem =>
          (sound.custody.held source (List.mem_append_right _ (elided source mem))).1, ?_⟩,
          List.subset_append_left .., entryNodup⟩
        intro other known sameId
        have unique : other = entry :=
          List.inj_on_of_nodup_map sound.custody.entries_nodup known inEntries sameId
        rw [unique]
        exact ⟨entry.sources, [], (List.append_nil _).symm, List.Subset.refl _,
          fun source mem => by cases mem⟩

end Elided

/-- The next summary step would merge retained sources with staged images into the copies
of an elision entry. -/
def mixesPrepared (norm : Normalizers) (s : State) : Bool :=
  match s.summaryElisions, s.summarySources.find? (fun source => !s.isFollowupRunAborted source) with
  | [entry], some source =>
      s.evictedSummaryCount = 0 && entry.sources.any (fun elided => !s.isFollowupRunAborted elided) &&
        s.contextKey norm source = entry.contextKey && (s.runs source).currentTurnImagesPrepared
  | _, _ => false

theorem unprepared_contextKey {source : RunId}
    (plain : (s.runs source).currentTurnImagesPrepared = false) :
    unprepared (s.contextKey norm source) = s.contextKey norm source := by
  rw [contextKey, resolveFollowupDeliveryContextKey, plain]
  rfl

/-- The sources of an elision entry and the retained ones that join it. -/
theorem Keyed.alike {entry : Elision} {entries : List Elision} {elided : List RunId}
    (keyed : s.Keyed norm) (head : s.summaryElisions = entry :: entries)
    (subset : elided ⊆ entry.sources)
    (plain : ∀ source ∈ s.retainedFor norm entry, unprepared entry.contextKey = entry.contextKey) :
    s.Alike norm (elided ++ s.retainedFor norm entry) := by
  have elidedKey : ∀ source ∈ elided, s.contextKey norm source = unprepared entry.contextKey :=
    fun source mem => keyed.entries entry (head ▸ List.mem_cons_self) source (subset mem)
  have retainedKey : ∀ source ∈ s.retainedFor norm entry,
      s.contextKey norm source = unprepared entry.contextKey := by
    intro source mem
    rw [plain source mem]
    rw [retainedFor] at mem
    split at mem
    · simpa using (List.mem_filter.mp mem).2
    · cases mem
  have all : ∀ source ∈ elided ++ s.retainedFor norm entry,
      s.contextKey norm source = unprepared entry.contextKey := fun source mem =>
    (List.mem_append.mp mem).elim (elidedKey source) (retainedKey source)
  intro left first right second
  rw [all left first, all right second]

theorem retainedFor_sublist (norm : Normalizers) (s : State) (entry : Elision) :
    (s.retainedFor norm entry).Sublist s.summarySources := by
  rw [retainedFor]
  split
  · exact List.filter_sublist.trans (group_sublist norm s).1
  · exact List.nil_sublist _

/-- The retained sources that join an entry have its key, and so has the oldest one. -/
theorem retainedFor_head {entry : Elision} {source : RunId}
    (mem : source ∈ s.retainedFor norm entry) : s.summaryElisions.length = 1 ∧
      ∃ oldest, s.summarySources.head? = some oldest ∧
        s.contextKey norm oldest = entry.contextKey := by
  rw [retainedFor] at mem
  split at mem
  case isTrue single =>
    obtain ⟨inGroup, key⟩ := List.mem_filter.mp mem
    cases head : s.summarySources.head? with
    | none =>
        have sublist := (group_sublist norm s).1
        rw [List.head?_eq_none_iff.mp head] at sublist
        rw [List.sublist_nil.mp sublist] at inGroup
        cases inGroup
    | some oldest =>
        refine ⟨single, oldest, rfl, ?_⟩
        rw [← (group_sublist norm s).2 source inGroup oldest head]
        simpa using key
  case isFalse => cases mem

theorem drainElided_moves (consuming : allowed .consume) (sound : s.Sound)
    (isolated : s.Keyed norm ∧ (∀ entry entries, s.summaryElisions = entry :: entries →
        entry.sources.any (fun elided => !s.isFollowupRunAborted elided) = true →
        ∀ source ∈ s.retainedFor norm entry, unprepared entry.contextKey = entry.contextKey) ∨
      allowed .mix) :
    Moves norm allowed added s (s.drainElidedOverflowSummary norm).2 ∧
      (s.drainElidedOverflowSummary norm).1.Ready (s.drainElidedOverflowSummary norm).2 := by
  rw [drainElidedOverflowSummary]
  split
  case h_1 => exact ⟨.refl, trivial⟩
  case h_2 entry entries head =>
    have dropped : Moves norm allowed added s (s.dropAbortedElided entry entries) :=
      Moves.dropAbortedElided consuming sound head
    rw [State.dropAbortedElided] at dropped
    dsimp only at dropped ⊢
    by_cases empty : (entry.sources.filter fun source => !s.isFollowupRunAborted source) = []
    · rw [if_pos empty] at dropped ⊢
      exact ⟨dropped, trivial⟩
    · rw [if_neg empty] at dropped ⊢
      refine And.imp_left dropped.trans (startElided_moves (sound.moves dropped) rfl
        (retainedFor_sublist norm s entry) (isolated.imp_left fun given => ?_))
      have alive : entry.sources.any (fun elided => !s.isFollowupRunAborted elided) = true := by
        obtain ⟨source, mem⟩ := List.exists_mem_of_ne_nil _ empty
        exact List.any_eq_true.mpr ⟨source, List.mem_filter.mp mem⟩
      exact given.1.alike head List.filter_sublist.subset (given.2 entry entries head alive)

/-- Without staged images the key of the entry is the key of its copies. -/
theorem plain_of_mixesPrepared {entry : Elision} {entries : List Elision} {source : RunId}
    (plain : s.mixesPrepared norm = false) (unevicted : s.evictedSummaryCount = 0)
    (head : s.summaryElisions = entry :: entries)
    (alive : entry.sources.any (fun elided => !s.isFollowupRunAborted elided) = true)
    (mem : source ∈ s.dropAbortedQueueSummarySources.2.retainedFor norm entry) :
    unprepared entry.contextKey = entry.contextKey := by
  obtain ⟨single, oldest, first, key⟩ := retainedFor_head mem
  have alone : s.summaryElisions = [entry] := by
    change s.summaryElisions.length = 1 at single
    rw [head] at single ⊢
    rw [List.length_eq_zero_iff.mp (Nat.succ.inj single)]
  have found : s.summarySources.find? (fun source => !s.isFollowupRunAborted source) =
      some oldest := by
    rw [← List.head?_filter]
    exact first
  change s.contextKey norm oldest = entry.contextKey at key
  rw [mixesPrepared, alone, found] at plain
  simp only [unevicted, alive, key, decide_true, Bool.true_and] at plain
  rw [← key]
  exact unprepared_contextKey plain

theorem drainOverflowSummaryGroup_moves (consuming : allowed .consume) (sound : s.Sound)
    (isolated : s.Keyed norm ∧ s.mixesPrepared norm = false ∨ allowed .mix) :
    Moves norm allowed added s (s.drainOverflowSummaryGroup norm).2 ∧
      (s.drainOverflowSummaryGroup norm).1.Ready (s.drainOverflowSummaryGroup norm).2 := by
  have dropped : Moves norm allowed added s s.dropAbortedQueueSummarySources.2 :=
    Moves.dropAborted consuming sound
  rw [drainOverflowSummaryGroup]
  dsimp only
  split
  · exact ⟨dropped, trivial⟩
  · split
    · exact ⟨dropped.tail .forget, trivial⟩
    case isFalse evicted =>
      have unevicted : s.evictedSummaryCount = 0 := Nat.eq_zero_of_not_pos evicted
      have elided : Moves norm allowed added _ _ ∧ _ :=
        drainElided_moves consuming (sound.moves dropped) (isolated.imp_left fun given =>
          ⟨⟨given.1.executions, given.1.entries⟩, fun entry entries head alive source mem =>
            plain_of_mixesPrepared given.2 unevicted head alive mem⟩)
      cases result : s.dropAbortedQueueSummarySources.2.drainElidedOverflowSummary norm with
      | mk outcome t =>
          rw [result] at elided
          have next := dropped.trans elided.1
          cases outcome with
          | skipped => exact And.imp_left next.trans (drainRetained_moves (sound.moves next))
          | handled | threw => exact ⟨next, trivial⟩
          | started delivery => exact ⟨next, elided.2⟩

end State
end Followup

/-!
The steps of the machine as moves. Operations of the environment leave the drain where
it is and neither release nor consume its sources, so what the drain relies on in an
await still holds after it. `Pending` says what that is, for each kind of await.
-/

namespace Followup

namespace State

/-- The delivered sources of an entry that is still to be settled. -/
structure Settleable (s : State) (id : ElisionId) (delivered : List RunId) : Prop where
  front : s.Front id delivered
  nodup : delivered.Nodup
  shown : ∀ source ∈ delivered, s.Shown source

variable {norm : Normalizers} {allowed : Permission → Prop} {added : RunId → Prop} {s t : State}

theorem Settleable.moves {id : ElisionId} {delivered : List RunId}
    (settleable : s.Settleable id delivered) (moves : Moves norm allowed added s t) :
    t.Settleable id delivered :=
  ⟨settleable.front.moves moves, settleable.nodup, fun source mem =>
    ((settleable.shown source mem).moves (settleable.front.sources source mem) moves).1⟩

/-- An environment move that leaves the in-flight sources alone. -/
def Undisturbing (allowed : Permission → Prop) (p : Permission) : Prop :=
  p ≠ .release ∧ p ≠ .consume ∧ allowed p

theorem Outcome.Ready.moves (outcome : Outcome) (ready : outcome.Ready s)
    (moves : Moves norm (Undisturbing allowed) added s t) : outcome.Ready t := by
  cases outcome with
  | skipped | handled | threw => trivial
  | started delivery =>
      obtain ⟨formed, prot, front⟩ := ready
      refine ⟨formed, prot.moves moves (fun undisturbing => undisturbing.1 rfl)
        fun undisturbing => undisturbing.2.1 rfl, fun id elided same => ?_⟩
      obtain ⟨first, rest⟩ := front id elided same
      exact ⟨first.moves moves, rest⟩

end State

namespace Drain

/-- What a drain relies on while it awaits. -/
def Pending (s : State) : Drain → Prop
  | .summary delivery false => (State.Outcome.started delivery).Ready s
  | .summary delivery true =>
      ∀ id elided, delivery.elided = some (id, elided) → s.Settleable id elided
  | .settling id elided => s.Settleable id elided
  | .collecting groups => ∀ group ∈ groups, group.Nodup
  | .group items false groups => s.Reserved items ∧ ∀ group ∈ groups, group.Nodup
  | .group _ true groups => ∀ group ∈ groups, group.Nodup
  | _ => True

variable {norm : Normalizers} {allowed : Permission → Prop} {added : RunId → Prop} {s t : State}

theorem Pending.moves {drain : Drain} (pending : drain.Pending s)
    (moves : State.Moves norm (State.Undisturbing allowed) added s t) : drain.Pending t := by
  cases drain with
  | summary delivery admitted =>
      cases admitted with
      | false => exact State.Outcome.Ready.moves (.started delivery) pending moves
      | true => exact fun id elided same => (pending id elided same).moves moves
  | settling id elided => exact State.Settleable.moves pending moves
  | group items admitted groups =>
      cases admitted with
      | false =>
          exact ⟨pending.1.moves moves (fun undisturbing => undisturbing.1 rfl)
            fun undisturbing => undisturbing.2.1 rfl, pending.2⟩
      | true => exact pending
  | collecting groups => exact pending
  | idle | looping | skipping | single | failed => trivial

end Drain

namespace Machine

open State (Moves)

variable {norm : Normalizers} {allowed : Permission → Prop} {m m' : Machine} {label : Label}

/-- What a step may do besides keeping the ledger. -/
def Permitted (norm : Normalizers) (allowed : Permission → Prop) (m : Machine) : Label → Prop
  | .enqueue .. | .settleSteer .. | .consumeSteer .. | .abort .. | .clear => True
  | .refresh refresh => allowed .refresh ∧ (m.state.KeepsElidedRoutes refresh ∨ allowed .reroute)
  | .settle => allowed .consume ∧ (allowed .swallow ∨ ∀ id delivered,
      m.drain = .settling id delivered → ∀ entry ∈ m.state.summaryElisions, entry.id = id →
        delivered ⊆ entry.sources ∨ entry.sources ⊆ delivered)
  | .summarizeOverflow => allowed .consume ∧
      (m.state.Keyed norm ∧ m.state.mixesPrepared norm = false ∨ allowed .mix)
  | .nextGroup => allowed .release ∧ (allowed .mix ∨ ∀ group groups,
      m.drain = .collecting (group :: groups) → m.state.Alike norm (group.filter (· ∈ m.state.items)))
  | _ => allowed .release ∧ allowed .consume

/-- A step of the environment of the drain. -/
def Label.external : Label → Bool
  | .enqueue .. | .settleSteer .. | .consumeSteer .. | .abort .. | .clear | .refresh .. => true
  | _ => false

theorem external_moves (sound : m.state.Sound) (external : Label.external label = true)
    (permitted : m.Permitted norm allowed label) (taken : step norm m label = some m') :
    m'.drain = m.drain ∧ Moves norm (State.Undisturbing allowed)
      (fun id => id ∈ m.state.items ∨ id = m.state.nextRun) m.state m'.state := by
  have settled : ∀ {t : State}, Moves norm (State.Undisturbing allowed) (· ∈ m.state.items)
      m.state t → Moves norm (State.Undisturbing allowed)
        (fun id => id ∈ m.state.items ∨ id = m.state.nextRun) m.state t := fun moves =>
    moves.mono (fun _ given => given) fun _ => .inl
  cases label with
  | enqueue run execution options =>
      obtain ⟨available, same⟩ := Option.ite_none_right_eq_some.mp taken
      obtain rfl := Option.some.inj same
      have known : ∀ id, execution = .shared id → id < m.state.nextExecution := by
        rintro id rfl
        simpa using (Bool.and_eq_true_iff.mp available).2
      have received : State.Move norm (State.Undisturbing allowed) (fun id =>
          id ∈ m.state.items ∨ id = m.state.nextRun) m.state (m.state.receive run execution).2 :=
        .receive run execution known
      obtain ⟨origin, fresh⟩ := sound.custody.fresh m.state.nextRun le_rfl
      have undropped : (m.state.receive run execution).2.Undropped m.state.nextRun := by
        cases execution <;> exact ⟨Nat.lt_succ_self _, origin, fresh⟩
      have outside : m.state.nextRun ∉ (m.state.receive run execution).2.items := fun mem => by
        have item : m.state.nextRun ∈ m.state.items := by cases execution <;> exact mem
        exact Nat.lt_irrefl _ (sound.custody.items _ item).1
      have id_eq : (m.state.receive run execution).1 = m.state.nextRun := by cases execution <;> rfl
      refine ⟨rfl, .head received ?_⟩
      change Moves norm _ _ _ ((m.state.receive run execution).2.enqueueFollowupRun norm
        (m.state.receive run execution).1 options).2
      rw [id_eq]
      exact (State.Moves.enqueueFollowupRun (sound.move received) undropped outside options).mono
        (fun _ given => given) fun _ => .inr
  | settleSteer item accepted =>
      obtain ⟨-, same⟩ := Option.ite_none_right_eq_some.mp taken
      obtain rfl := Option.some.inj same
      exact ⟨rfl, settled (State.Moves.settleSteer sound item accepted)⟩
  | consumeSteer item =>
      obtain ⟨-, same⟩ := Option.ite_none_right_eq_some.mp taken
      obtain rfl := Option.some.inj same
      refine ⟨rfl, settled ?_⟩
      have consumed : Moves norm (State.Undisturbing allowed) (· ∈ m.state.items) m.state
          (m.state.consumeParkedFollowupRun norm item) := State.Moves.consumeSteer sound item
      refine consumed.tail (.aside rfl (sound.moves consumed).custody.items_nodup
        (fun _ mem => .inl mem) (.inl subset_rfl) (fun now => ⟨?_, .inl subset_rfl⟩)
        ⟨fun _ => rfl, fun _ => rfl, rfl⟩)
      exact (Bool.and_eq_true_iff.mp now).1
  | refresh refresh =>
      obtain ⟨-, same⟩ := Option.ite_none_right_eq_some.mp taken
      obtain rfl := Option.some.inj same
      obtain ⟨refreshing, routes⟩ := permitted
      exact ⟨rfl, .single (.refresh refresh ⟨by decide, by decide, refreshing⟩
        (routes.imp_right fun reroutes => ⟨by decide, by decide, reroutes⟩))⟩
  | abort source =>
      obtain rfl := Option.some.inj taken
      exact ⟨rfl, .single (.aside rfl sound.custody.items_nodup (fun _ mem => .inl mem)
        (.inl subset_rfl) (fun now => ⟨now, .inl subset_rfl⟩) ⟨fun _ => rfl, fun _ => rfl, rfl⟩)⟩
  | clear =>
      obtain ⟨-, same⟩ := Option.ite_none_right_eq_some.mp taken
      obtain rfl := Option.some.inj same
      exact ⟨rfl, .single .clear⟩
  | startDrain | stopDrain | finishDrain | deliverAborted | deliverPriority | deliverNext
  | singleReturns | singleThrows | summarizeOverflow | adopt | summaryReturns | summaryThrows
  | settle | collect | nextGroup | adoptGroup | groupReturns | groupThrows => cases external

end Machine
end Followup
