import OpenClaw.Followup.DrainSteps

/-!
Overflow accounting over whole runs. However enqueues, overflow summaries, aborts and
session refreshes are interleaved, the retained sources keep their own lines, elision
entries are counted and not empty, and `droppedCount` is the sum of its three shares.
-/

namespace Followup
namespace State

theorem Sound.create (settings : QueueSettings) : (State.create settings).Sound := by
  refine ⟨⟨List.nodup_nil, ?_, ?_, List.nodup_nil, ?_, fun id _ => ⟨rfl, List.not_mem_nil⟩,
    List.nodup_nil, ?_⟩, ⟨rfl, ?_, rfl⟩⟩
  all_goals intro _ mem
  all_goals cases mem

end State

namespace Machine

open Transition

variable {norm : Normalizers} {allowed : Permission → Prop} {ok : Machine → Label → Prop}
  {settings : QueueSettings} {m m' : Machine} {label : Label}

/-- The ledger of a machine is sound, and its drain can rely on what it awaits. -/
structure Invariant (m : Machine) : Prop where
  sound : m.state.Sound
  pending : m.drain.Pending m.state

theorem Invariant.create (settings : QueueSettings) : (create settings).Invariant :=
  ⟨.create settings, trivial⟩

theorem Invariant.step (inv : m.Invariant) (permitted : m.Permitted norm allowed label)
    (taken : step norm m label = some m') : m'.Invariant := by
  obtain ⟨moves, pending⟩ := step_moves inv.sound inv.pending permitted taken
  exact ⟨inv.sound.moves moves, pending⟩

theorem permitted_all : m.Permitted norm (fun _ => True) label := by
  cases label with
  | enqueue | settleSteer | consumeSteer | abort | clear => trivial
  | refresh => exact ⟨trivial, .inr trivial⟩
  | settle => exact ⟨trivial, .inl trivial⟩
  | summarizeOverflow => exact ⟨trivial, .inr trivial⟩
  | nextGroup => exact ⟨trivial, .inl trivial⟩
  | startDrain | stopDrain | finishDrain | deliverAborted | deliverPriority | deliverNext
  | singleReturns | singleThrows | adopt | summaryReturns | summaryThrows | collect | adoptGroup
  | groupReturns | groupThrows => exact ⟨trivial, trivial⟩

/-- Every run keeps the invariant. -/
theorem Invariant.reaches (run : Reaches (Machine.step norm) ok (Machine.create settings) m) :
    m.Invariant :=
  run.invariant (.create settings) fun _ _ _ inv _ taken => inv.step permitted_all taken

/-- The overflow ledger of a queue adds up. -/
structure OverflowAccounted (s : State) : Prop where
  length : s.summaryLines.length = s.summarySources.length
  lines : s.summaryLines.map some = s.summarySources.map s.history.captured
  entries : ∀ entry ∈ s.summaryElisions,
    entry.count = entry.sources.length ∧ entry.summaryLines.length = entry.sources.length ∧
    0 < entry.sources.length ∧ entry.summaryLines.map some = entry.sources.map s.history.captured
  dropped : s.droppedCount = s.summarySources.length +
    (s.summaryElisions.map (·.sources.length)).sum + s.evictedSummaryCount

theorem OverflowAccounted.of_accounted {s : State} (accounted : s.Accounted) :
    OverflowAccounted s := by
  refine ⟨accounted.aligned, accounted.lines, fun entry mem => ?_, ?_⟩
  · obtain ⟨count, nonempty, lines⟩ := accounted.entries entry mem
    exact ⟨count, (accounted.formed entry mem).aligned, List.length_pos_of_ne_nil nonempty, lines⟩
  · have dropped := accounted.dropped
    rw [State.elided, List.length_flatMap] at dropped
    exact dropped

theorem overflow_accounting (norm : Normalizers) (settings : QueueSettings)
    (run : Reaches (step norm) Any (create settings) m) : OverflowAccounted m.state :=
  .of_accounted (Invariant.reaches run).sound.accounted

/-- Plain text functions. -/
def plain : Normalizers := ⟨id, id, some⟩

/-- A run with a message of its own. -/
def message (prompt : String) : Label :=
  .enqueue { prompt := prompt } (.new {}) { settings := { cap := some (.real 1) } }

/-- A delivery is under way while two more messages overflow. -/
def overflowDuringDelivery : List Label :=
  [message "a", message "b", message "c", .startDrain, .summarizeOverflow, message "d", message "e"]

theorem overflow_accounting_during_delivery : ∃ m : Machine,
    (m.state.droppedCount = 4 ∧ m.state.summaryElisions ≠ []) ∧ OverflowAccounted m.state := by
  obtain ⟨m, run, overflowed⟩ := Reaches.exists_of_exec (step plain) Any (create {})
    (P := fun m => m.state.droppedCount = 4 ∧ m.state.summaryElisions.length ≠ 0)
    overflowDuringDelivery (by decide) (by decide)
  refine ⟨m, ⟨overflowed.1, fun none => overflowed.2 ?_⟩, overflow_accounting plain {} run⟩
  rw [none]
  rfl

end Machine
end Followup

/-!
What becomes of a summarized source. It is held until it is settled, an eviction is
counted, and a source that is settled as delivered was in the prompt of a synthetic run,
as long as every settlement of an elision entry takes sources of its own delivery only.
-/

namespace Followup
namespace State

variable {norm : Normalizers} {allowed : Permission → Prop} {added : RunId → Prop} {s t : State}

/-- The fate of the summarized sources so far. -/
structure Traced (s : State) : Prop where
  known : ∀ settled ∈ s.history.settled, settled.1 < s.nextRun
  summarized : ∀ dropped ∈ s.history.summarized,
    (∃ source ∈ s.held, s.history.origin source = dropped) ∨
    ∃ settled ∈ s.history.settled, s.history.origin settled.1 = dropped
  delivered : ∀ settled ∈ s.history.settled, settled.2 = .delivered → s.Shown settled.1
  evicted : s.history.settled.countP (·.2 = .evicted) = s.evictedSummaryCount + s.history.reported

theorem Traced.create (settings : QueueSettings) : (State.create settings).Traced := by
  refine ⟨?_, ?_, ?_, rfl⟩
  all_goals intro _ mem
  all_goals cases mem

/-- A removal settles what it removes. -/
theorem Traced.summarized_discard (traced : s.Traced) (keep : RunId → Bool)
    (settlement : Settlement) : ∀ dropped ∈ s.history.summarized,
      (∃ source ∈ (s.discard keep settlement).held, s.history.origin source = dropped) ∨
      ∃ settled ∈ (s.discard keep settlement).history.settled,
        s.history.origin settled.1 = dropped := by
  intro dropped mem
  rw [held_discard]
  rcases traced.summarized dropped mem with ⟨source, held, origin⟩ | ⟨settled, before, origin⟩
  · cases kept : keep source with
    | true => exact .inl ⟨source, List.mem_filter.mpr ⟨held, kept⟩, origin⟩
    | false =>
        refine .inr ⟨(source, settlement), List.mem_append_right _ ?_, origin⟩
        exact List.mem_map.mpr ⟨source, List.mem_filter.mpr ⟨held, by simp [kept]⟩, rfl⟩
  · exact .inr ⟨settled, List.mem_append_left _ before, origin⟩

theorem Traced.known_discard (traced : s.Traced) (sound : s.Sound) (keep : RunId → Bool)
    (settlement : Settlement) :
    ∀ settled ∈ (s.discard keep settlement).history.settled, settled.1 < s.nextRun := by
  intro settled mem
  cases List.mem_append.mp mem with
  | inl before => exact traced.known settled before
  | inr new =>
      obtain ⟨source, removed, rfl⟩ := List.mem_map.mp new
      exact (sound.custody.held source (List.mem_filter.mp removed).1).1

theorem countP_settlement (sources : List RunId) (settlement : Settlement) :
    (sources.map (·, settlement)).countP (·.2 = .evicted) =
      if settlement = .evicted then sources.length else 0 := by
  induction sources with
  | nil => simp
  | cons source sources ih =>
      rw [List.map_cons, List.countP_cons, ih]
      split <;> simp_all

/-- A move that settles nothing and keeps a stand-in for every held source. -/
theorem Traced.carry (traced : s.Traced) (move : Move norm allowed added s t)
    (settled : t.history.settled = s.history.settled)
    (summarized : t.history.summarized = s.history.summarized)
    (evicted : t.evictedSummaryCount + t.history.reported =
      s.evictedSummaryCount + s.history.reported)
    (held : ∀ source ∈ s.held, ∃ other ∈ t.held, t.history.origin other = s.history.origin source) :
    t.Traced := by
  have frame := move.frame
  refine ⟨fun one mem => ?_, fun dropped mem => ?_, fun one mem delivered => ?_, ?_⟩
  · exact Nat.lt_of_lt_of_le (traced.known one (settled ▸ mem)) frame.nextRun
  · rcases traced.summarized dropped (summarized ▸ mem) with ⟨source, before, rfl⟩ |
      ⟨one, before, rfl⟩
    · obtain ⟨other, now, same⟩ := held source before
      exact .inl ⟨other, now, same⟩
    · exact .inr ⟨one, settled ▸ before, frame.origin one.1 (traced.known one before)⟩
  · have before := settled ▸ mem
    exact (traced.delivered one before delivered).move (traced.known one before) move
  · rw [settled, traced.evicted, evicted]

/-- A removal of held sources. -/
theorem Traced.remove (traced : s.Traced) (sound : s.Sound) (keep : RunId → Bool)
    (settlement : Settlement) (history : t.history =
      { (s.discard keep settlement).history with reported := t.history.reported })
    (nextRun : t.nextRun = s.nextRun) (held : t.held = (s.discard keep settlement).held)
    (delivered : settlement = .delivered → ∀ source ∈ s.held, keep source = false → s.Shown source)
    (evicted : t.evictedSummaryCount + t.history.reported = s.evictedSummaryCount +
      s.history.reported + if settlement = .evicted then (s.held.filter fun source => !keep source).length else 0) :
    t.Traced := by
  have shown : ∀ source, s.Shown source → t.Shown source := fun source given => by
    rw [Shown, history, nextRun]
    exact given
  refine ⟨fun one mem => ?_, fun dropped mem => ?_, fun one mem isDelivered => ?_, ?_⟩
  · rw [history] at mem
    rw [nextRun]
    exact traced.known_discard sound keep settlement one mem
  · rw [held, history]
    rw [history] at mem
    exact traced.summarized_discard keep settlement dropped mem
  · rw [history] at mem
    cases List.mem_append.mp mem with
    | inl before => exact shown _ (traced.delivered one before isDelivered)
    | inr new =>
        obtain ⟨source, removed, rfl⟩ := List.mem_map.mp new
        obtain ⟨inHeld, gone⟩ := List.mem_filter.mp removed
        exact shown _ (delivered isDelivered source inHeld (by simpa using gone))
  · have total := traced.evicted
    rw [evicted, history]
    change (s.history.settled ++ _).countP _ = _
    rw [List.countP_append, countP_settlement, total]

theorem Traced.move (traced : s.Traced) (sound : s.Sound) (move : Move norm allowed added s t)
    (honest : ¬ allowed .swallow) : t.Traced := by
  have same : ∀ source ∈ s.held, ∃ other ∈ s.held, s.history.origin other = s.history.origin source :=
    fun source mem => ⟨source, mem, rfl⟩
  cases move with
  | aside ledger nodup items active reserved keys =>
      have moved : Move norm allowed added s t := .aside ledger nodup items active reserved keys
      simp only [State.ledger, LedgerFields.mk.injEq] at ledger
      obtain ⟨-, -, sources, elisions, evicted, history, -, -⟩ := ledger
      refine traced.carry moved (by rw [history]) (by rw [history]) (by rw [history, evicted]) ?_
      have held : t.held = s.held := by rw [State.held, State.elided, elisions, sources]; rfl
      rw [held, history]
      exact same
  | receive run execution known =>
      have moved : Move norm allowed added s (s.receive run execution).2 := .receive run execution known
      cases execution <;> exact traced.carry moved rfl rfl rfl same
  | drop dropped kept split unreserved =>
      have moved : Move norm allowed added s (s.dropItems dropped kept) :=
        .drop dropped kept split unreserved
      refine ⟨traced.known, fun id mem => ?_, fun one mem delivered =>
        (traced.delivered one mem delivered).move (traced.known one mem) moved, traced.evicted⟩
      cases List.mem_append.mp mem with
      | inl before =>
          refine (traced.summarized id before).imp_left fun standing => ?_
          obtain ⟨source, held, origin⟩ := standing
          exact ⟨source, held_dropItems.mem_iff.mpr (List.mem_append_right _ held), origin⟩
      | inr new =>
          have undropped := sound.custody.items id (split.subset (List.mem_append_left _ new))
          exact .inl ⟨id, held_dropItems.mem_iff.mpr (List.mem_append_left _ new), undropped.2.1⟩
  | elide item line sources lines head headLine =>
      have moved : Move norm allowed added s (s.elideHead norm item line sources lines) :=
        .elide item line sources lines head headLine
      obtain ⟨-, -, -, -, evicted, -, history⟩ := elideHead_frame s norm item line sources lines
      obtain ⟨before, after⟩ := held_elideHead head norm line lines
      refine traced.carry moved (by rw [history]) (by rw [history]) (by rw [history, evicted])
        fun source mem => ?_
      have known := (sound.custody.held source mem).1
      rw [before] at mem
      rw [after]
      cases List.mem_cons.mp mem with
      | inl isItem =>
          refine ⟨s.nextRun, List.mem_append_right _ (List.mem_singleton_self _), ?_⟩
          rw [history, isItem]
          exact Function.update_self ..
      | inr other =>
          exact ⟨source, List.mem_append_left _ other, moved.frame.origin source known⟩
  | evict source mem inactive =>
      refine traced.remove sound (· ≠ source) .evicted rfl rfl rfl
        (fun delivered => by cases delivered) ?_
      have one := filter_not_ne sound.custody.held_nodup (List.mem_append_right s.summarySources mem)
      rw [if_pos rfl, one]
      exact Nat.add_right_comm ..
  | discard keep settlement consuming notEvicted delivered =>
      refine traced.remove sound keep settlement rfl rfl rfl (fun isDelivered =>
        (delivered isDelivered).resolve_right honest) ?_
      rw [if_neg notEvicted]
      rfl
  | retry source mem consuming =>
      have moved : Move norm allowed added s (s.releaseForRetry source) := .retry source mem consuming
      have origins : (s.releaseForRetry source).held.map (s.releaseForRetry source).history.origin =
          s.held.map s.history.origin := by
        have old : ∀ id ∈ s.held, Function.update s.history.origin s.nextRun
            (s.history.origin source) id = s.history.origin id := fun id here =>
          Function.update_of_ne (Nat.ne_of_lt (sound.custody.held id here).1) ..
        rw [held_releaseForRetry mem, releaseForRetry_of_mem mem, held, List.map_append,
          List.map_append]
        refine congrArg₂ _ (map_set_idxOf mem (Function.update_self ..) fun id here =>
          old id (List.mem_append_left _ here)) (List.map_congr_left fun id here =>
            old id (List.mem_append_right _ here))
      have carried : ∀ other_source ∈ s.held, ∃ other ∈ (s.releaseForRetry source).held,
          (s.releaseForRetry source).history.origin other = s.history.origin other_source :=
        fun other_source here => List.mem_map.mp (origins ▸ List.mem_map_of_mem here)
      rw [releaseForRetry_of_mem mem] at moved carried ⊢
      exact traced.carry moved rfl rfl rfl carried
  | forget =>
      have moved : Move norm allowed added s s.forgetEvicted := .forget
      refine traced.carry moved rfl rfl ?_ same
      exact (Nat.zero_add _).trans (Nat.add_comm ..)
  | clear =>
      have everything : (s.held.filter fun _ => !false) = s.held :=
        List.filter_eq_self.mpr fun _ _ => rfl
      refine traced.remove sound (fun _ => false) .cleared ?_ rfl ?_
        (fun delivered => by cases delivered) ?_
      · change _ = { s.history with
          settled := s.history.settled ++ (s.held.filter fun _ => !false).map (·, Settlement.cleared)
          reported := s.history.reported + s.evictedSummaryCount }
        rw [everything]
        rfl
      · rw [held_discard, List.filter_eq_nil_iff.mpr fun _ _ => by simp]
        rfl
      · exact (Nat.zero_add _).trans (Nat.add_comm ..)
  | prompt sources =>
      have moved : Move norm allowed added s (s.recordPrompted sources) := .prompt sources
      exact traced.carry moved rfl rfl rfl same
  | build sources alike =>
      have moved : Move norm allowed added s (s.recordBuilt norm sources) := .build sources alike
      exact traced.carry moved rfl rfl rfl same
  | refresh refresh refreshing harmless =>
      have moved : Move norm allowed added s (s.refreshQueuedFollowupSession refresh) :=
        .refresh refresh refreshing harmless
      exact traced.carry moved rfl rfl rfl same

theorem Traced.moves (traced : s.Traced) (sound : s.Sound) (moves : Moves norm allowed added s t)
    (honest : ¬ allowed .swallow) : t.Traced := by
  induction moves with
  | refl => exact traced
  | tail before move ih => exact ih.move (sound.moves before) move honest

instance (s : State) (source : RunId) : Decidable (s.Shown source) :=
  inferInstanceAs (Decidable (∃ sources ∈ s.history.prompted, ∃ shown ∈ sources,
    shown < s.nextRun ∧ s.history.origin shown = s.history.origin source))

end State

namespace Machine

open Transition

variable {norm : Normalizers} {settings : QueueSettings} {m m' : Machine} {label : Label}

/-- When a delivered entry is settled, it still has all of the delivered sources or no
others. -/
def SettlesOwn (m : Machine) (label : Label) : Prop :=
  label = .settle → match m.drain with
    | .settling id delivered => ∀ entry ∈ m.state.summaryElisions, entry.id = id →
        delivered ⊆ entry.sources ∨ entry.sources ⊆ delivered
    | _ => True

instance (m : Machine) (label : Label) : Decidable (SettlesOwn m label) := by
  unfold SettlesOwn
  cases m.drain <;> exact inferInstance

theorem permitted_of_settlesOwn (own : SettlesOwn m label) :
    m.Permitted norm (· ≠ .swallow) label := by
  cases label with
  | enqueue | settleSteer | consumeSteer | abort | clear => trivial
  | refresh => exact ⟨by decide, .inr (by decide)⟩
  | settle =>
      refine ⟨by decide, .inr fun id delivered drain => ?_⟩
      have given := own rfl
      rw [drain] at given
      exact given
  | summarizeOverflow => exact ⟨by decide, .inr (by decide)⟩
  | nextGroup => exact ⟨by decide, .inl (by decide)⟩
  | startDrain | stopDrain | finishDrain | deliverAborted | deliverPriority | deliverNext
  | singleReturns | singleThrows | adopt | summaryReturns | summaryThrows | collect | adoptGroup
  | groupReturns | groupThrows => exact ⟨by decide, by decide⟩

/-- No summarized source is swallowed while settlements take their own sources only. -/
theorem summarized_sources_traced (norm : Normalizers) (settings : QueueSettings)
    (run : Reaches (step norm) SettlesOwn (create settings) m) : m.state.Traced := by
  have both : m.Invariant ∧ m.state.Traced := by
    refine run.invariant (P := fun m => m.Invariant ∧ m.state.Traced)
      ⟨.create settings, .create settings⟩ fun m label m' given own taken => ?_
    have permitted : m.Permitted norm (· ≠ .swallow) label := permitted_of_settlesOwn own
    have moves := (step_moves given.1.sound given.1.pending permitted taken).1
    exact ⟨given.1.step permitted taken, given.2.moves given.1.sound moves fun swallow => swallow rfl⟩
  exact both.2

theorem summarized_sources_traced_unadmitted : ∃ m : Machine,
    (∃ settled ∈ m.state.history.settled, settled.2 = .delivered) ∧ m.state.Traced := by
  obtain ⟨m, run, delivered⟩ := Reaches.exists_of_exec (step plain) SettlesOwn (create {})
    (P := fun m => ∃ settled ∈ m.state.history.settled, settled.2 = .delivered)
    [message "a", message "b", message "c", .startDrain, .summarizeOverflow, .summaryReturns,
      .settle] (by decide) (by decide)
  exact ⟨m, delivered, summarized_sources_traced plain {} run⟩

/-- Messages that overflow before the admission join the entry; its settlement then takes
one of them. -/
theorem settlement_swallows_newcomer : ∃ m : Machine,
    Reaches (step plain) Any (create {}) m ∧
    ∃ settled ∈ m.state.history.settled, settled.2 = .delivered ∧ ¬ m.state.Shown settled.1 :=
  Reaches.exists_of_exec (step plain) Any (create {})
    (P := fun m => ∃ settled ∈ m.state.history.settled,
      settled.2 = .delivered ∧ ¬ m.state.Shown settled.1)
    (overflowDuringDelivery ++ [.adopt, .summaryReturns, .settle]) (by decide) (by decide)

end Machine
end Followup
