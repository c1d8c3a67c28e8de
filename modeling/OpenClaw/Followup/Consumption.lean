import OpenClaw.Followup.InFlight

/-!
Consuming the sources of a delivery. A protected source is held itself or elided to a
live compact copy; consuming it removes exactly that held source, once. The
decrement of `droppedCount` at the end is the number of sources that were found.
-/

namespace Followup

section Elided

variable {entries : List Elision} {source : RunId}

/-- A reference that some entry has for a source. -/
def Refers (entries : List Elision) (source compact : RunId) : Prop :=
  ∃ entry ∈ entries, entry.reference source = some compact

theorem consumeElided_spec (source : RunId) (formed : ∀ entry ∈ entries, entry.Formed)
    (nodup : (entries.flatMap (·.sources)).Nodup)
    (live : ∀ entry ∈ entries, ∀ compact, entry.reference source = some compact →
      compact ∈ entry.sources)
    (exclusive : source ∈ entries.flatMap (·.sources) → ∀ compact, ¬ Refers entries source compact) :
    consumeElided source entries = none ∧ source ∉ entries.flatMap (·.sources) ∨
    ∃ gone ∈ entries.flatMap (·.sources), (gone = source ∨ Refers entries source gone) ∧
      consumeElided source entries = some (gone, keepEntries (· ≠ gone) entries) := by
  induction entries with
  | nil => exact .inl ⟨rfl, List.not_mem_nil⟩
  | cons entry entries ih =>
      have found : ∀ gone ∈ entry.sources, (entry.reference source).getD source = gone →
          (source ∈ entry.sources || (entry.reference source).isSome) = true →
          consumeElided source (entry :: entries) =
            some (gone, keepEntries (· ≠ gone) (entry :: entries)) := by
        intro gone mem same here
        rw [consumeElided, if_pos here, same, keepEntries_ne_head formed nodup mem]
        simp only [if_pos mem]
        rfl
      have inHead : ∀ {gone}, gone ∈ entry.sources →
          gone ∈ (entry :: entries).flatMap (·.sources) := fun mem =>
        List.mem_flatMap.mpr ⟨entry, List.mem_cons_self, mem⟩
      cases reference : entry.reference source with
      | some compact =>
          have mem := live entry List.mem_cons_self compact reference
          exact .inr ⟨compact, inHead mem, .inr ⟨entry, List.mem_cons_self, reference⟩,
            found compact mem (by rw [reference]; rfl) (by simp [reference])⟩
      | none =>
          by_cases mem : source ∈ entry.sources
          · exact .inr ⟨source, inHead mem, .inl rfl,
              found source mem (by rw [reference]; rfl) (by simp [mem])⟩
          · have refers : ∀ {compact}, Refers entries source compact →
                Refers (entry :: entries) source compact := fun ⟨other, known, refers⟩ =>
              ⟨other, List.mem_cons_of_mem _ known, refers⟩
            have skip : consumeElided source (entry :: entries) =
                (consumeElided source entries).map fun found => (found.1, entry :: found.2) := by
              rw [consumeElided, if_neg (by simp [mem, reference])]
            obtain ⟨-, tailNodup, disjoint⟩ := List.nodup_append.mp (List.flatMap_cons ▸ nodup)
            rcases ih (fun other known => formed other (List.mem_cons_of_mem _ known)) tailNodup
              (fun other known => live other (List.mem_cons_of_mem _ known))
              (fun inTail compact refer => exclusive (List.mem_append_right _ inTail) compact
                (refers refer)) with ⟨nothing, notMem⟩ | ⟨gone, inTail, which, result⟩
            · refine .inl ⟨by rw [skip, nothing]; rfl, fun now => ?_⟩
              exact (List.mem_append.mp now).elim mem notMem
            · have notHead : gone ∉ entry.sources := fun here => disjoint gone here gone inTail rfl
              refine .inr ⟨gone, List.mem_append_right _ inTail, which.imp_right refers, ?_⟩
              rw [skip, result, keepEntries_ne_tail (formed entry List.mem_cons_self) notHead]
              rfl

end Elided

namespace State

variable {norm : Normalizers} {allowed : Permission → Prop} {added : RunId → Prop} {s t : State}
  {source : RunId} {settlement : Settlement} {sources : List RunId}

theorem Protected.sublist {others : List RunId} (prot : s.Protected sources)
    (sublist : others.Sublist sources) : s.Protected others :=
  ⟨fun source mem => prot.known source (sublist.subset mem),
    (sublist.map s.history.origin).nodup prot.origins,
    fun source mem => prot.active source (sublist.subset mem),
    fun entry known source mem => prot.live entry known source (sublist.subset mem)⟩

/-- One source of a delivery: it is gone already, or exactly one held source goes. -/
theorem consumeSource_spec (sound : s.Sound) (prot : s.Protected (source :: sources))
    (settlement : Settlement) (n : Nat) :
    consumeSource settlement (n, s) source = (n, s) ∨
    ∃ gone ∈ s.held, s.history.origin gone = s.history.origin source ∧
      consumeSource settlement (n, s) source =
        (n + 1, { s.discardCounted (· ≠ gone) settlement with droppedCount := s.droppedCount }) := by
  have counted : ∀ gone, { s.discardCounted (· ≠ gone) settlement with
      droppedCount := s.droppedCount } = s.discard (· ≠ gone) settlement := fun _ => rfl
  by_cases retained : source ∈ s.summarySources
  · refine .inr ⟨source, List.mem_append_left _ retained, rfl, ?_⟩
    rw [counted, discard_retained sound.custody sound.accounted retained]
    simp only [consumeSource, if_pos retained]
  · have spec := consumeElided_spec source sound.accounted.formed sound.elided_nodup
      (fun entry mem compact reference =>
        (prot.live entry mem source List.mem_cons_self compact reference).1)
      (fun elided compact ⟨entry, mem, reference⟩ =>
        (sound.custody.references entry mem source compact reference).2.2.2.2
          (List.mem_append_right _ elided))
    rcases spec with ⟨nothing, -⟩ | ⟨gone, mem, which, result⟩
    · left
      simp only [consumeSource, if_neg retained, nothing]
    · refine .inr ⟨gone, List.mem_append_right _ mem, ?_, ?_⟩
      · rcases which with rfl | ⟨entry, known, reference⟩
        · rfl
        · exact (sound.custody.references entry known source gone reference).2.2.2.1
      · rw [counted, discard_elided sound.custody sound.accounted mem]
        simp only [consumeSource, if_neg retained, result]

/-- The counter is not looked at while sources are consumed. -/
theorem consumeSource_droppedCount (n d : Nat) :
    consumeSource settlement (n, { s with droppedCount := d }) source =
      ((consumeSource settlement (n, s) source).1,
        { (consumeSource settlement (n, s) source).2 with droppedCount := d }) := by
  by_cases retained : source ∈ s.summarySources
  · simp only [consumeSource, if_pos retained]
    rfl
  · simp only [consumeSource, if_neg retained]
    cases consumeElided source s.summaryElisions <;> rfl

theorem consumeAll_droppedCount (sources : List RunId) (s : State) (settlement : Settlement)
    (n d : Nat) :
    sources.foldl (consumeSource settlement) (n, { s with droppedCount := d }) =
      ((sources.foldl (consumeSource settlement) (n, s)).1,
        { (sources.foldl (consumeSource settlement) (n, s)).2 with droppedCount := d }) := by
  induction sources generalizing n s with
  | nil => rfl
  | cons source sources ih =>
      rw [List.foldl_cons, List.foldl_cons, consumeSource_droppedCount]
      exact ih _ _

/-- The other sources of the delivery stay protected. -/
theorem Protected.consume (sound : s.Sound) (prot : s.Protected (source :: sources)) {gone : RunId}
    (same : s.history.origin gone = s.history.origin source) :
    (s.discardCounted (· ≠ gone) settlement).Protected sources := by
  have rest := prot.sublist (List.sublist_cons_self source sources)
  refine ⟨rest.known, rest.origins, rest.active, fun entry mem other inSources compact refers => ?_⟩
  obtain ⟨old, known, rfl, -⟩ := mem_keepEntries mem
  obtain ⟨inOld, active⟩ := rest.live old known other inSources compact refers
  refine ⟨List.mem_filter.mpr ⟨inOld, decide_eq_true fun isGone => ?_⟩, active⟩
  have origin := (sound.custody.references old known other compact refers).2.2.2.1
  have apart := (List.nodup_cons.mp prot.origins).1
  refine apart (List.mem_map.mpr ⟨other, inSources, ?_⟩)
  rw [← origin, isGone, same]

theorem Moves.consumeAll (consuming : allowed .consume) (sound : s.Sound)
    (prot : s.Protected sources) (notEvicted : settlement ≠ .evicted)
    (shown : settlement = .delivered → ∀ source ∈ sources, s.Shown source) (n : Nat) :
    ∃ k, (sources.foldl (consumeSource settlement) (n, s)).1 = n + k ∧
      Moves norm allowed added s { (sources.foldl (consumeSource settlement) (n, s)).2 with
        droppedCount := s.droppedCount - k } := by
  induction sources generalizing n s with
  | nil => exact ⟨0, rfl, .refl⟩
  | cons source sources ih =>
      rw [List.foldl_cons]
      rcases consumeSource_spec sound prot settlement n with skipped | consumed
      · rw [skipped]
        exact ih sound (prot.sublist (List.sublist_cons_self source sources))
          (fun delivered other mem => shown delivered other (List.mem_cons_of_mem _ mem)) n
      · obtain ⟨gone, held, same, result⟩ := consumed
        have move : Move norm allowed added s (s.discardCounted (· ≠ gone) settlement) := by
          refine .discard _ settlement consuming notEvicted fun delivered => .inl ?_
          intro other _ removed
          obtain ⟨prompt, prompted, first, mem, known, origin⟩ :=
            shown delivered source List.mem_cons_self
          refine ⟨prompt, prompted, first, mem, known, ?_⟩
          rw [not_not.mp (of_decide_eq_false removed), same, origin]
        obtain ⟨k, count, rest⟩ := ih (sound.move move) (prot.consume sound same)
          (fun delivered other mem => (shown delivered other (List.mem_cons_of_mem _ mem)).move
            (prot.known other (List.mem_cons_of_mem _ mem)) move) (n + 1)
        have one := congrArg List.length (filter_not_ne sound.custody.held_nodup held)
        have counted : (s.discardCounted (· ≠ gone) settlement).droppedCount - k =
            s.droppedCount - (k + 1) := by
          change s.droppedCount - (s.held.filter fun other => !decide (other ≠ gone)).length - k = _
          rw [one, List.length_singleton]
          omega
        rw [result, consumeAll_droppedCount]
        refine ⟨k + 1, by rw [count]; omega, .head move ?_⟩
        rw [counted] at rest
        exact rest

theorem Moves.consumeDelivery (consuming : allowed .consume) (sound : s.Sound)
    (prot : s.Protected sources) (notEvicted : settlement ≠ .evicted)
    (shown : settlement = .delivered → ∀ source ∈ sources, s.Shown source) {droppedCount : Nat}
    (counted : sources = [] → droppedCount = 0) :
    Moves norm allowed added s
      (s.consumeQueueSummaryDelivery droppedCount sources settlement) := by
  have start : (if sources = [] then droppedCount else 0) = 0 := by
    split
    case isTrue none => exact counted none
    case isFalse => rfl
  obtain ⟨k, count, moves⟩ :
      ∃ k, (sources.foldl (consumeSource settlement) (0, s)).1 = 0 + k ∧
        Moves norm allowed added s { (sources.foldl (consumeSource settlement) (0, s)).2 with
          droppedCount := s.droppedCount - k } :=
    Moves.consumeAll consuming sound prot notEvicted shown 0
  have kept : (sources.foldl (consumeSource settlement) (0, s)).2.droppedCount = s.droppedCount :=
    congrArg (·.2.droppedCount) (consumeAll_droppedCount sources s settlement 0 s.droppedCount)
  simp only [consumeQueueSummaryDelivery, start, count, kept, Nat.zero_add]
  exact moves

end State
end Followup

/-!
The steps of a drain are chains of moves. Starting a delivery builds a run and protects
its sources; admission, return and failure consume or copy sources of the delivery and
then release the rest.
-/

namespace Followup

/-- A delivery as the drain starts it. -/
structure Delivery.Formed (delivery : Delivery) : Prop where
  sources : delivery.sources.Sublist delivery.protectedSources
  counted : delivery.droppedCount = delivery.sources.length
  nonempty : delivery.protectedSources ≠ []

namespace State

variable {norm : Normalizers} {allowed : Permission → Prop} {added : RunId → Prop} {s t : State}
  {delivery : Delivery}

theorem releaseAll_eq (sources : List RunId) (s : State) :
    ∃ active, sources.foldl releaseActive s = { s with activeSummarySources := active } := by
  induction sources generalizing s with
  | nil => exact ⟨s.activeSummarySources, rfl⟩
  | cons source sources ih =>
      obtain ⟨active, same⟩ := ih (s.releaseActive source)
      exact ⟨active, same⟩

theorem Moves.finishDelivery (releasing : allowed .release) (sound : s.Sound) (deferred : Bool) :
    Moves norm allowed added s (s.finishDelivery delivery deferred) := by
  rw [State.finishDelivery]
  generalize (delivery.protectedSources.filter _) = released
  obtain ⟨active, same⟩ := releaseAll_eq released
    { s with inFlight := s.inFlight \ delivery.protectedSources.toFinset }
  have move : Move norm allowed added s (released.foldl releaseActive
      { s with inFlight := s.inFlight \ delivery.protectedSources.toFinset }) := by
    rw [same]
    exact .aside rfl sound.custody.items_nodup (fun _ mem => .inl mem) (.inr releasing)
      (fun now => ⟨now, .inr releasing⟩) ⟨fun _ => rfl, fun _ => rfl, rfl⟩
  exact .head move (Moves.trim (sound.move move))

theorem Moves.retryAll (consuming : allowed .consume) (sources : List RunId) (s : State) :
    Moves norm allowed added s (s.releaseQueueSummaryDeliveryForRetry sources) := by
  induction sources generalizing s with
  | nil => exact .refl
  | cons source sources ih =>
      rw [releaseQueueSummaryDeliveryForRetry, List.foldl_cons]
      refine .trans ?_ (ih (s.releaseForRetry source))
      by_cases mem : source ∈ s.summarySources
      · exact .single (.retry source mem consuming)
      · rw [State.releaseForRetry, if_neg mem]

/-- After the prompt was recorded, its sources have been shown. -/
theorem shown_recordPrompted {sources : List RunId} (known : ∀ source ∈ sources, source < s.nextRun) :
    ∀ source ∈ sources, (s.recordPrompted sources).Shown source := fun source mem =>
  ⟨sources, List.mem_append_right _ (List.mem_singleton_self _), source, mem, known source mem, rfl⟩

/-- Sources of a delivery are consumed after its prompt was recorded. -/
theorem Moves.consumeRecorded (consuming : allowed .consume) (sound : s.Sound)
    {protectedSources sources : List RunId} (prot : s.Protected protectedSources)
    (sublist : sources.Sublist protectedSources) {droppedCount : Nat}
    (counted : sources = [] → droppedCount = 0) :
    Moves norm allowed added (s.recordPrompted protectedSources)
      ((s.recordPrompted protectedSources).consumeQueueSummaryDelivery droppedCount sources
        .delivered) := by
  have move : Move norm allowed added s (s.recordPrompted protectedSources) := .prompt _
  have protectedNow : (s.recordPrompted protectedSources).Protected protectedSources :=
    ⟨prot.known, prot.origins, prot.active, prot.live⟩
  exact Moves.consumeDelivery consuming (sound.move move) (protectedNow.sublist sublist) (by decide)
    (fun _ source mem => shown_recordPrompted prot.known source (sublist.subset mem)) counted

section Admit

variable (sound : s.Sound) (formed : delivery.Formed) (consuming : allowed .consume) (prot : s.Protected delivery.protectedSources)
include consuming sound formed prot

theorem Moves.admitted : Moves norm allowed added (s.recordPrompted delivery.protectedSources)
    (s.admitDelivery delivery) :=
  Moves.consumeRecorded consuming sound prot (List.Sublist.refl _) fun none =>
    absurd none formed.nonempty

theorem Moves.admitDelivery : Moves norm allowed added s (s.admitDelivery delivery) :=
  .head (.prompt _) (Moves.admitted sound formed consuming prot)

end Admit

theorem shown_admitDelivery (norm : Normalizers) (sound : s.Sound) (formed : delivery.Formed)
    (prot : s.Protected delivery.protectedSources) :
    ∀ source ∈ delivery.protectedSources, (s.admitDelivery delivery).Shown source := by
  intro source mem
  have moves : Moves norm (fun _ => True) (fun _ => True)
      (s.recordPrompted delivery.protectedSources) (s.admitDelivery delivery) :=
    Moves.admitted sound formed trivial prot
  exact ((shown_recordPrompted prot.known source mem).moves (prot.known source mem) moves).1

/-- A delivery that succeeded before it was admitted. -/
def deliverUnadmitted (s : State) (delivery : Delivery) : State :=
  ((s.recordPrompted delivery.protectedSources).consumeQueueSummaryDelivery delivery.droppedCount
    delivery.sources .delivered).finishDelivery delivery false

section Return

variable (sound : s.Sound) (formed : delivery.Formed) (consuming : allowed .consume) (releasing : allowed .release)
  (prot : s.Protected delivery.protectedSources)
include consuming sound formed prot releasing

theorem Moves.delivered : Moves norm allowed added (s.recordPrompted delivery.protectedSources)
    (s.deliverUnadmitted delivery) := by
  have consumed : Moves norm allowed added (s.recordPrompted delivery.protectedSources)
      ((s.recordPrompted delivery.protectedSources).consumeQueueSummaryDelivery
        delivery.droppedCount delivery.sources .delivered) :=
    Moves.consumeRecorded consuming sound prot formed.sources fun none => by
      rw [formed.counted, none]; rfl
  have recorded : Move norm allowed added s (s.recordPrompted delivery.protectedSources) := .prompt _
  exact consumed.trans (Moves.finishDelivery releasing ((sound.move recorded).moves consumed) false)

theorem Moves.returnUnadmitted :
    Moves norm allowed added s (s.returnDelivery delivery false).2 := by
  rw [State.returnDelivery, if_neg (by decide)]
  dsimp only
  split
  case isTrue canceled =>
    have consumed : Moves norm allowed added s (s.consumeQueueSummaryDelivery
        delivery.droppedCount (delivery.protectedSources.filter s.isFollowupRunAborted) .aborted) :=
      Moves.consumeDelivery consuming sound (prot.sublist List.filter_sublist) (by decide)
        (fun delivered => by cases delivered) fun none => absurd none canceled
    exact consumed.trans (Moves.finishDelivery releasing (sound.moves consumed) false)
  case isFalse => exact .head (.prompt _) (Moves.delivered sound formed consuming releasing prot)

end Return

theorem shown_returnDelivery (norm : Normalizers) (sound : s.Sound) (formed : delivery.Formed)
    (prot : s.Protected delivery.protectedSources)
    (delivered : (s.returnDelivery delivery false).1 = true) :
    ∀ source ∈ delivery.protectedSources, (s.returnDelivery delivery false).2.Shown source := by
  intro source mem
  rw [State.returnDelivery, if_neg (by decide)] at delivered ⊢
  dsimp only at delivered ⊢
  split at delivered
  case isTrue => cases delivered
  case isFalse notCanceled =>
    rw [if_neg notCanceled]
    have moves : Moves norm (fun _ => True) (fun _ => True)
        (s.recordPrompted delivery.protectedSources) (s.deliverUnadmitted delivery) :=
      Moves.delivered sound formed trivial trivial prot
    exact ((shown_recordPrompted prot.known source mem).moves (prot.known source mem) moves).1

theorem Moves.failDelivery (sound : s.Sound) (consuming : allowed .consume) (releasing : allowed .release)
    (admitted deferred : Bool) :
    Moves norm allowed added s (s.failDelivery delivery admitted deferred) := by
  rw [State.failDelivery]
  split
  · exact Moves.finishDelivery releasing sound false
  · split
    · exact Moves.finishDelivery releasing sound true
    · have copied : Moves norm allowed added s
          (s.releaseQueueSummaryDeliveryForRetry delivery.sources) :=
        Moves.retryAll consuming delivery.sources s
      exact copied.trans (Moves.finishDelivery releasing (sound.moves copied) false)

end State
end Followup
