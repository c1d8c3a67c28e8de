import OpenClaw.Followup.Ledger

/-!
What adds to the overflow ledger: a new run object, dropping items into the summary,
eliding the oldest retained source, and replacing a source by a copy for a retry.
-/

namespace Followup
namespace State

variable {s t : State}

/-- The part of the state the ledger is about. -/
structure LedgerFields where
  droppedCount : Nat
  summaryLines : List String
  summarySources : List RunId
  summaryElisions : List Elision
  evictedSummaryCount : Nat
  history : History
  nextRun : Nat
  nextElision : Nat

def ledger (s : State) : LedgerFields where
  droppedCount := s.droppedCount
  summaryLines := s.summaryLines
  summarySources := s.summarySources
  summaryElisions := s.summaryElisions
  evictedSummaryCount := s.evictedSummaryCount
  history := s.history
  nextRun := s.nextRun
  nextElision := s.nextElision

theorem Accounted.of_ledger (accounted : s.Accounted) (same : t.ledger = s.ledger) :
    t.Accounted := by
  simp only [ledger, LedgerFields.mk.injEq] at same
  obtain ⟨dropped, lines, sources, elisions, evicted, history, -, -⟩ := same
  refine ⟨?_, ?_, ?_⟩
  · rw [lines, sources, history]
    exact accounted.lines
  · rw [elisions, history]
    exact accounted.entries
  · rw [dropped, sources, elided, elisions, evicted]
    exact accounted.dropped

/-- Items may be taken away, and runs that were never dropped may be added. -/
theorem Custody.of_ledger (custody : s.Custody) (same : t.ledger = s.ledger)
    (nodup : t.items.Nodup) (items : ∀ item ∈ t.items, s.Undropped item) : t.Custody := by
  simp only [ledger, LedgerFields.mk.injEq] at same
  obtain ⟨-, -, sources, elisions, -, history, nextRun, nextElision⟩ := same
  have held : t.held = s.held := by rw [State.held, elided, sources, elisions]; rfl
  refine ⟨nodup, ?_, ?_, ?_, ?_, ?_, ?_, ?_⟩
  · intro item mem
    rw [Undropped, history, nextRun]
    exact items item mem
  · rw [held, history, nextRun]
    exact custody.held
  · rw [held, history]
    exact custody.origins
  · rw [elisions, history, nextRun, held]
    exact custody.references
  · rw [history, nextRun]
    exact custody.fresh
  · rw [elisions]
    exact custody.entries_nodup
  · rw [elisions, nextElision]
    exact custody.entries

theorem Custody.receive (custody : s.Custody) (run : FollowupRun) (execution : ExecutionSource) :
    (s.receive run execution).2.Custody := by
  have grown : (s.receive run execution).2.nextRun = s.nextRun + 1 := by cases execution <;> rfl
  have items : (s.receive run execution).2.items = s.items := by cases execution <;> rfl
  have history : (s.receive run execution).2.history = s.history := by cases execution <;> rfl
  have sources : (s.receive run execution).2.summarySources = s.summarySources := by
    cases execution <;> rfl
  have elisions : (s.receive run execution).2.summaryElisions = s.summaryElisions := by
    cases execution <;> rfl
  have next : (s.receive run execution).2.nextElision = s.nextElision := by cases execution <;> rfl
  have held : (s.receive run execution).2.held = s.held := by
    rw [State.held, elided, sources, elisions]; rfl
  refine ⟨items ▸ custody.items_nodup, ?_, ?_, ?_, ?_, ?_, ?_, ?_⟩
  · intro item mem
    obtain ⟨known, origin, undropped⟩ := custody.items item (items ▸ mem)
    rw [Undropped, history, grown]
    exact ⟨Nat.lt_succ_of_lt known, origin, undropped⟩
  · intro source mem
    obtain ⟨known, summarized⟩ := custody.held source (held ▸ mem)
    rw [history, grown]
    exact ⟨Nat.lt_succ_of_lt known, summarized⟩
  · rw [held, history]
    exact custody.origins
  · intro entry mem source compact reference
    rw [elisions] at mem
    obtain ⟨first, second, rest⟩ := custody.references entry mem source compact reference
    rw [history, grown, held]
    exact ⟨Nat.lt_succ_of_lt first, Nat.lt_succ_of_lt second, rest⟩
  · intro id above
    rw [history]
    rw [grown] at above
    exact custody.fresh id (Nat.le_of_succ_le above)
  · rw [elisions]
    exact custody.entries_nodup
  · rw [elisions, next]
    exact custody.entries

theorem Accounted.receive (accounted : s.Accounted) (run : FollowupRun)
    (execution : ExecutionSource) : (s.receive run execution).2.Accounted := by
  cases execution <;> exact ⟨accounted.lines, accounted.entries, accounted.dropped⟩

section Drop

variable {dropped kept : List RunId}

/-- The state after items were dropped into the summary. -/
def dropItems (s : State) (dropped kept : List RunId) : State :=
  { s with items := kept }.summarizeDropped dropped

theorem held_dropItems : (s.dropItems dropped kept).held.Perm (dropped ++ s.held) := by
  change ((s.summarySources ++ dropped) ++ s.elided).Perm (dropped ++ (s.summarySources ++ s.elided))
  rw [List.append_assoc]
  exact List.perm_append_comm_assoc ..

theorem Custody.dropItems (custody : s.Custody) (split : (dropped ++ kept).Perm s.items) :
    (s.dropItems dropped kept).Custody := by
  have nodup := split.nodup_iff.mpr custody.items_nodup
  obtain ⟨droppedNodup, keptNodup, disjoint⟩ := List.nodup_append.mp nodup
  have undropped : ∀ item ∈ dropped ++ kept, s.Undropped item := fun item mem =>
    custody.items item (split.subset mem)
  have origins : dropped.map s.history.origin = dropped := by
    refine (List.map_congr_left fun item mem => ?_).trans (List.map_id dropped)
    exact (undropped item (List.mem_append_left _ mem)).2.1
  refine ⟨keptNodup, fun item mem => ?_, fun source mem => ?_, ?_, ?_, fun id above => ?_,
    custody.entries_nodup, custody.entries⟩
  · obtain ⟨known, origin, fresh⟩ := undropped item (List.mem_append_right _ mem)
    refine ⟨known, origin, fun now => ?_⟩
    cases List.mem_append.mp now with
    | inl before => exact fresh before
    | inr new => exact disjoint item new item mem rfl
  · change source < s.nextRun ∧ s.history.origin source ∈ s.history.summarized ++ dropped
    cases List.mem_append.mp (held_dropItems.subset mem) with
    | inl new =>
        obtain ⟨known, origin, -⟩ := undropped source (List.mem_append_left _ new)
        exact ⟨known, List.mem_append_right _ (origin.symm ▸ new)⟩
    | inr old =>
        obtain ⟨known, summarized⟩ := custody.held source old
        exact ⟨known, List.mem_append_left _ summarized⟩
  · refine (held_dropItems.map _).nodup_iff.mpr ?_
    change ((dropped ++ s.held).map s.history.origin).Nodup
    rw [List.map_append, origins]
    refine List.nodup_append.mpr ⟨droppedNodup, custody.origins, ?_⟩
    intro item mem origin old same
    obtain ⟨source, inHeld, rfl⟩ := List.mem_map.mp old
    exact (undropped item (List.mem_append_left _ mem)).2.2 (same ▸ (custody.held source inHeld).2)
  · intro entry mem source compact reference
    obtain ⟨first, second, summarized, same, notHeld⟩ :=
      custody.references entry mem source compact reference
    refine ⟨first, second, List.mem_append_left _ summarized, same, fun now => ?_⟩
    cases List.mem_append.mp (held_dropItems.subset now) with
    | inl new =>
        obtain ⟨-, origin, fresh⟩ := undropped source (List.mem_append_left _ new)
        exact fresh (origin ▸ summarized)
    | inr old => exact notHeld old
  · obtain ⟨origin, fresh⟩ := custody.fresh id above
    refine ⟨origin, fun now => ?_⟩
    cases List.mem_append.mp now with
    | inl before => exact fresh before
    | inr new => exact absurd (undropped id (List.mem_append_left _ new)).1 (Nat.not_lt.mpr above)

theorem Accounted.dropItems (accounted : s.Accounted) (custody : s.Custody)
    (split : (dropped ++ kept).Perm s.items) : (s.dropItems dropped kept).Accounted := by
  have apart : ∀ source ∈ s.held, source ∉ dropped := fun source mem new =>
    custody.notMem_held (custody.items source (split.subset (List.mem_append_left _ new))) mem
  have captured : ∀ source ∈ s.held,
      (s.dropItems dropped kept).history.captured source = s.history.captured source :=
    fun source mem => if_neg (apart source mem)
  refine ⟨?_, fun entry mem => ?_, ?_⟩
  · change (s.summaryLines ++ _).map some = (s.summarySources ++ dropped).map _
    rw [List.map_append, List.map_append, accounted.lines, List.map_map]
    congr 1
    · exact List.map_congr_left fun source mem =>
        (captured source (List.mem_append_left _ mem)).symm
    · exact List.map_congr_left fun source mem => (if_pos mem).symm
  · obtain ⟨count, nonempty, lines⟩ := accounted.entries entry mem
    refine ⟨count, nonempty, lines.trans (List.map_congr_left fun source inEntry => ?_)⟩
    exact (captured source (List.mem_append_right _
      (List.mem_flatMap.mpr ⟨entry, mem, inEntry⟩))).symm
  · have before := accounted.dropped
    change s.droppedCount + dropped.length =
      (s.summarySources ++ dropped).length + s.elided.length + s.evictedSummaryCount
    rw [List.length_append]
    omega

end Drop

section Elide

variable {norm : Normalizers} {item : RunId} {line : String} {sources : List RunId}
  {lines : List String}

/-- The oldest retained source leaves the summary for an elision entry. -/
def elideHead (norm : Normalizers) (s : State) (item : RunId) (line : String)
    (sources : List RunId) (lines : List String) : State :=
  { s with summarySources := sources, summaryLines := lines }.appendElision norm item line

/-- The entries after an elision: the last one is extended or a new one is opened. -/
theorem appendElision_cases (s : State) (norm : Normalizers) (item : RunId) (line : String) :
    (∃ before entry, s.summaryElisions = before ++ [entry] ∧
      entry.contextKey = s.contextKey norm item ∧
      (s.appendElision norm item line).summaryElisions =
        before ++ [entry.append item s.nextRun line] ∧
      (s.appendElision norm item line).nextElision = s.nextElision) ∨
    ((s.appendElision norm item line).summaryElisions = s.summaryElisions ++
        [s.newElision (s.contextKey norm item) item s.nextRun line] ∧
      (s.appendElision norm item line).nextElision = s.nextElision + 1) := by
  have marked : ∀ t : State, ∀ copy source, (t.markActiveLike copy source).summaryElisions =
      t.summaryElisions ∧ (t.markActiveLike copy source).nextElision = t.nextElision := by
    intro t copy source
    rw [markActiveLike]
    split <;> exact ⟨rfl, rfl⟩
  simp only [appendElision, (marked _ _ _).1, (marked _ _ _).2]
  split
  case h_1 entry last =>
    split
    case isTrue same =>
      refine .inl ⟨s.summaryElisions.dropLast, entry, ?_, same, rfl, rfl⟩
      exact (List.dropLast_append_getLast? entry last).symm
    case isFalse => exact .inr ⟨rfl, rfl⟩
  case h_2 => exact .inr ⟨rfl, rfl⟩

theorem appendElision_frame :
    (s.appendElision norm item line).summarySources = s.summarySources ∧
    (s.appendElision norm item line).summaryLines = s.summaryLines ∧
    (s.appendElision norm item line).items = s.items ∧
    (s.appendElision norm item line).droppedCount = s.droppedCount ∧
    (s.appendElision norm item line).evictedSummaryCount = s.evictedSummaryCount ∧
    (s.appendElision norm item line).nextRun = s.nextRun + 1 ∧
    (s.appendElision norm item line).history = { s.history with
      captured := Function.update s.history.captured s.nextRun (s.history.captured item)
      origin := Function.update s.history.origin s.nextRun (s.history.origin item) } := by
  simp only [appendElision, markActiveLike]
  split
  · split <;> split <;> exact ⟨rfl, rfl, rfl, rfl, rfl, rfl, rfl⟩
  · split <;> exact ⟨rfl, rfl, rfl, rfl, rfl, rfl, rfl⟩

theorem elided_appendElision :
    (s.appendElision norm item line).elided = s.elided ++ [s.nextRun] := by
  cases appendElision_cases s norm item line with
  | inl extended =>
      obtain ⟨before, entry, entries, -, after, -⟩ := extended
      simp [elided, entries, after, Elision.append]
  | inr opened => simp [elided, opened.1, newElision]

theorem mem_appendElision {entry : Elision}
    (mem : entry ∈ (s.appendElision norm item line).summaryElisions) :
    entry ∈ s.summaryElisions ∨
    (∃ old ∈ s.summaryElisions, old.contextKey = s.contextKey norm item ∧
      entry = old.append item s.nextRun line) ∨
    entry = s.newElision (s.contextKey norm item) item s.nextRun line := by
  cases appendElision_cases s norm item line with
  | inl extended =>
      obtain ⟨before, old, entries, key, after, -⟩ := extended
      rw [after] at mem
      cases List.mem_append.mp mem with
      | inl earlier => exact .inl (entries ▸ List.mem_append_left _ earlier)
      | inr last =>
          exact .inr (.inl ⟨old, entries ▸ List.mem_append_right _ (List.mem_singleton_self _), key,
            List.mem_singleton.mp last⟩)
  | inr opened =>
      rw [opened.1] at mem
      cases List.mem_append.mp mem with
      | inl earlier => exact .inl earlier
      | inr last => exact .inr (.inr (List.mem_singleton.mp last))

theorem reference_append {entry : Elision} {compact source : RunId} :
    (entry.append item compact line).reference source =
      if source = item then some compact else entry.reference source := by
  by_cases same : source = item
  · simp [Elision.append, Elision.reference, same]
  · simp [Elision.append, Elision.reference, List.lookup, same, beq_eq_false_iff_ne.mpr same]

theorem elideHead_frame (s : State) (norm : Normalizers) (item : RunId) (line : String)
    (sources : List RunId) (lines : List String) :
    (s.elideHead norm item line sources lines).summarySources = sources ∧
    (s.elideHead norm item line sources lines).summaryLines = lines ∧
    (s.elideHead norm item line sources lines).items = s.items ∧
    (s.elideHead norm item line sources lines).droppedCount = s.droppedCount ∧
    (s.elideHead norm item line sources lines).evictedSummaryCount = s.evictedSummaryCount ∧
    (s.elideHead norm item line sources lines).nextRun = s.nextRun + 1 ∧
    (s.elideHead norm item line sources lines).history = { s.history with
      captured := Function.update s.history.captured s.nextRun (s.history.captured item)
      origin := Function.update s.history.origin s.nextRun (s.history.origin item) } :=
  appendElision_frame

theorem elided_elideHead :
    (s.elideHead norm item line sources lines).elided = s.elided ++ [s.nextRun] :=
  elided_appendElision

variable (head : s.summarySources = item :: sources)
include head

theorem held_elideHead (norm : Normalizers) (line : String) (lines : List String) : s.held = item :: (sources ++ s.elided) ∧
    (s.elideHead norm item line sources lines).held = (sources ++ s.elided) ++ [s.nextRun] := by
  refine ⟨by rw [held, head]; rfl, ?_⟩
  rw [held, elided_elideHead, (elideHead_frame ..).1, List.append_assoc]

theorem Custody.elideHead (custody : s.Custody) :
    (s.elideHead norm item line sources lines).Custody := by
  obtain ⟨before, after⟩ := held_elideHead head norm line lines
  obtain ⟨-, -, items, -, -, nextRun, history⟩ := elideHead_frame s norm item line
    sources lines
  have old : ∀ source, source ∈ sources ++ s.elided → source ∈ s.held := fun source mem =>
    before ▸ List.mem_cons_of_mem _ mem
  have itemHeld : item ∈ s.held := before ▸ List.mem_cons_self
  have itemKnown := (custody.held item itemHeld).1
  have origin_old : ∀ id, id < s.nextRun →
      (s.elideHead norm item line sources lines).history.origin id = s.history.origin id := by
    intro id known
    rw [history]
    exact Function.update_of_ne (Nat.ne_of_lt known) ..
  have origin_new : (s.elideHead norm item line sources lines).history.origin s.nextRun =
      s.history.origin item := by
    rw [history]
    exact Function.update_self ..
  have summarized : (s.elideHead norm item line sources lines).history.summarized =
      s.history.summarized := by rw [history]
  refine ⟨items ▸ custody.items_nodup, fun id mem => ?_, fun source mem => ?_, ?_, ?_,
    fun id above => ?_, ?_, ?_⟩
  · obtain ⟨known, origin, fresh⟩ := custody.items id (items ▸ mem)
    rw [Undropped, nextRun, origin_old id known, summarized]
    exact ⟨Nat.lt_succ_of_lt known, origin, fresh⟩
  · rw [nextRun, summarized]
    rw [after] at mem
    cases List.mem_append.mp mem with
    | inl earlier =>
        obtain ⟨known, mine⟩ := custody.held source (old source earlier)
        rw [origin_old source known]
        exact ⟨Nat.lt_succ_of_lt known, mine⟩
    | inr new =>
        rw [List.mem_singleton.mp new, origin_new]
        exact ⟨Nat.lt_succ_self _, (custody.held item itemHeld).2⟩
  · have same : (sources ++ s.elided).map
        (s.elideHead norm item line sources lines).history.origin =
        (sources ++ s.elided).map s.history.origin :=
      List.map_congr_left fun source mem =>
        origin_old source (custody.held source (old source mem)).1
    rw [after, List.map_append, same, List.map_singleton, origin_new]
    have origins := custody.origins
    rw [before, List.map_cons] at origins
    exact (List.perm_append_singleton _ _).nodup_iff.mpr origins
  · intro entry mem source compact reference
    have notNew : ∀ {source}, source < s.nextRun → source ∉ s.held →
        source ∉ (s.elideHead norm item line sources lines).held := by
      intro source known notHeld now
      rw [after] at now
      cases List.mem_append.mp now with
      | inl earlier => exact notHeld (old source earlier)
      | inr new => exact absurd (List.mem_singleton.mp new) (Nat.ne_of_lt known)
    have inherited : ∀ old ∈ s.summaryElisions, old.reference source = some compact →
        source < s.nextRun + 1 ∧ compact < s.nextRun + 1 ∧
        s.history.origin source ∈ s.history.summarized ∧
        (s.elideHead norm item line sources lines).history.origin compact =
          s.history.origin source ∧ source < s.nextRun ∧
        source ∉ (s.elideHead norm item line sources lines).held := by
      intro old known reference
      obtain ⟨first, second, mine, same, notHeld⟩ :=
        custody.references old known source compact reference
      exact ⟨Nat.lt_succ_of_lt first, Nat.lt_succ_of_lt second, mine,
        (origin_old compact second).trans same, first, notNew first notHeld⟩
    have introduced : source = item → compact = s.nextRun →
        source < s.nextRun + 1 ∧ compact < s.nextRun + 1 ∧
        s.history.origin source ∈ s.history.summarized ∧
        (s.elideHead norm item line sources lines).history.origin compact =
          s.history.origin source ∧ source < s.nextRun ∧
        source ∉ (s.elideHead norm item line sources lines).held := by
      rintro rfl rfl
      refine ⟨Nat.lt_succ_of_lt itemKnown, Nat.lt_succ_self _, (custody.held source itemHeld).2,
        origin_new, itemKnown, fun now => ?_⟩
      rw [after] at now
      cases List.mem_append.mp now with
      | inl earlier =>
          have nodup := custody.held_nodup
          rw [before] at nodup
          exact (List.nodup_cons.mp nodup).1 earlier
      | inr new => exact absurd (List.mem_singleton.mp new) (Nat.ne_of_lt itemKnown)
    have result : source < s.nextRun + 1 ∧ compact < s.nextRun + 1 ∧
        s.history.origin source ∈ s.history.summarized ∧
        (s.elideHead norm item line sources lines).history.origin compact =
          s.history.origin source ∧ source < s.nextRun ∧
        source ∉ (s.elideHead norm item line sources lines).held := by
      rcases mem_appendElision mem with kept | ⟨old, known, -, rfl⟩ | rfl
      · exact inherited entry kept reference
      · rw [reference_append] at reference
        split at reference
        case isTrue same => exact introduced same (Option.some.inj reference).symm
        case isFalse => exact inherited old known reference
      · by_cases same : source = item
        · refine introduced same ?_
          simpa [Elision.reference, newElision, same] using reference.symm
        · simp [Elision.reference, newElision, beq_eq_false_iff_ne.mpr same] at reference
    obtain ⟨first, second, mine, same, known, notHeld⟩ := result
    rw [nextRun, summarized, origin_old source known]
    exact ⟨first, second, mine, same, notHeld⟩
  · rw [nextRun] at above
    rw [summarized, history]
    obtain ⟨origin, fresh⟩ := custody.fresh id (Nat.le_of_succ_le above)
    refine ⟨(Function.update_of_ne ?_ ..).trans origin, fresh⟩
    exact (Nat.ne_of_lt above).symm
  · cases appendElision_cases { s with summarySources := sources, summaryLines := lines } norm item line with
    | inl extended =>
        obtain ⟨first, entry, entries, -, result, -⟩ := extended
        have nodup := custody.entries_nodup
        change s.summaryElisions = first ++ [entry] at entries
        rw [State.elideHead, result]
        rw [entries] at nodup
        simpa [Elision.append] using nodup
    | inr opened =>
        rw [State.elideHead, opened.1, List.map_append]
        refine List.nodup_append.mpr ⟨custody.entries_nodup, List.nodup_singleton _, ?_⟩
        intro id mem new isNew
        obtain ⟨entry, known, rfl⟩ := List.mem_map.mp mem
        rw [List.map_singleton, List.mem_singleton] at isNew
        rw [isNew]
        exact Nat.ne_of_lt (custody.entries entry known)
  · intro entry mem
    have grown : s.nextElision ≤ (s.elideHead norm item line sources lines).nextElision := by
      cases appendElision_cases { s with summarySources := sources, summaryLines := lines } norm item line with
      | inl extended =>
          obtain ⟨-, -, -, -, -, same⟩ := extended
          exact same.ge
      | inr opened => exact opened.2 ▸ Nat.le_succ _
    cases appendElision_cases { s with summarySources := sources, summaryLines := lines } norm item line with
    | inl extended =>
        obtain ⟨first, old, entries, -, result, -⟩ := extended
        rw [State.elideHead, result] at mem
        refine Nat.lt_of_lt_of_le ?_ grown
        change s.summaryElisions = first ++ [old] at entries
        cases List.mem_append.mp mem with
        | inl earlier => exact custody.entries entry (entries ▸ List.mem_append_left _ earlier)
        | inr last =>
            rw [List.mem_singleton.mp last]
            exact custody.entries old (entries ▸ List.mem_append_right _ (List.mem_singleton_self _))
    | inr opened =>
        rw [State.elideHead, opened.1] at mem
        rw [State.elideHead, opened.2]
        cases List.mem_append.mp mem with
        | inl earlier => exact Nat.lt_succ_of_lt (custody.entries entry earlier)
        | inr last =>
            rw [List.mem_singleton.mp last]
            exact Nat.lt_succ_self _

theorem Accounted.elideHead (accounted : s.Accounted) (custody : s.Custody)
    (headLine : s.summaryLines = line :: lines) :
    (s.elideHead norm item line sources lines).Accounted := by
  obtain ⟨before, -⟩ := held_elideHead head norm line lines
  obtain ⟨newSources, newLines, -, dropped, evicted, -, history⟩ := elideHead_frame s norm item line
    sources lines
  have aligned := accounted.lines
  rw [head, headLine, List.map_cons, List.map_cons] at aligned
  obtain ⟨captured, rest⟩ := List.cons.inj aligned
  have captured_old : ∀ source ∈ s.held,
      (s.elideHead norm item line sources lines).history.captured source =
        s.history.captured source := by
    intro source mem
    rw [history]
    exact Function.update_of_ne (Nat.ne_of_lt (custody.held source mem).1) ..
  have captured_new : (s.elideHead norm item line sources lines).history.captured s.nextRun =
      some line := by
    rw [history, captured]
    exact Function.update_self ..
  have unchanged : ∀ ids : List RunId, (∀ id ∈ ids, id ∈ s.held) →
      ids.map (s.elideHead norm item line sources lines).history.captured =
        ids.map s.history.captured :=
    fun ids known => List.map_congr_left fun id mem => captured_old id (known id mem)
  have inEntry : ∀ entry ∈ s.summaryElisions, ∀ id ∈ entry.sources, id ∈ s.held :=
    fun entry mem id inSources =>
      List.mem_append_right _ (List.mem_flatMap.mpr ⟨entry, mem, inSources⟩)
  refine ⟨?_, fun entry mem => ?_, ?_⟩
  · rw [newLines, newSources, rest]
    refine (unchanged sources fun id mem => ?_).symm
    exact before ▸ List.mem_cons_of_mem _ (List.mem_append_left _ mem)
  · rcases mem_appendElision mem with kept | ⟨old, known, -, rfl⟩ | rfl
    · obtain ⟨count, nonempty, aligned⟩ := accounted.entries entry kept
      exact ⟨count, nonempty, aligned.trans (unchanged _ (inEntry entry kept)).symm⟩
    · obtain ⟨count, -, aligned⟩ := accounted.entries old known
      refine ⟨by simp [Elision.append, count], by simp [Elision.append], ?_⟩
      simp only [Elision.append, List.map_append, List.map_singleton]
      rw [aligned, ← unchanged _ (inEntry old known)]
      exact congrArg _ (congrArg (· :: []) captured_new.symm)
    · exact ⟨rfl, List.cons_ne_nil _ _, congrArg (· :: []) captured_new.symm⟩
  · have total := accounted.dropped
    rw [dropped, newSources, elided_elideHead, evicted, List.length_append, List.length_singleton]
    rw [head, List.length_cons] at total
    omega

end Elide

section Retry

variable {source : RunId}

/-- A value at a position whose source is replaced by a copy with the same value. -/
theorem map_set_idxOf {α : Type} {f g : RunId → α} {copy : RunId} {sources : List RunId}
    (mem : source ∈ sources) (same : f copy = g source) (others : ∀ id ∈ sources, f id = g id) :
    (sources.set (sources.idxOf source) copy).map f = sources.map g := by
  have below := List.idxOf_lt_length_of_mem mem
  rw [List.map_set, List.map_congr_left others, same]
  have mapped : sources.idxOf source < (sources.map g).length := by simpa using below
  have here : g source = (sources.map g)[sources.idxOf source] := by simp
  rw [here]
  exact List.set_getElem_self ..

theorem releaseForRetry_of_mem (mem : source ∈ s.summarySources) :
    s.releaseForRetry source = { (s.copySource source).2 with
      summarySources := s.summarySources.set (s.summarySources.idxOf source) s.nextRun } := by
  rw [releaseForRetry, if_pos mem]
  rfl

theorem held_releaseForRetry (mem : source ∈ s.summarySources) :
    (s.releaseForRetry source).held =
      s.summarySources.set (s.summarySources.idxOf source) s.nextRun ++ s.elided := by
  rw [releaseForRetry_of_mem mem]
  rfl

theorem Custody.releaseForRetry (custody : s.Custody) (mem : source ∈ s.summarySources) :
    (s.releaseForRetry source).Custody := by
  have held := held_releaseForRetry mem
  have origin_old : ∀ id, id < s.nextRun →
      Function.update s.history.origin s.nextRun (s.history.origin source) id =
        s.history.origin id := fun id known => Function.update_of_ne (Nat.ne_of_lt known) ..
  have origin_new : Function.update s.history.origin s.nextRun (s.history.origin source)
      s.nextRun = s.history.origin source := Function.update_self ..
  have mem_held : ∀ id ∈ (s.releaseForRetry source).held, id ∈ s.held ∨ id = s.nextRun := by
    intro id now
    rw [held] at now
    cases List.mem_append.mp now with
    | inl retained =>
        cases List.mem_or_eq_of_mem_set retained with
        | inl old => exact .inl (List.mem_append_left _ old)
        | inr new => exact .inr new
    | inr elided => exact .inl (List.mem_append_right _ elided)
  have sourceHeld : source ∈ s.held := List.mem_append_left _ mem
  rw [releaseForRetry_of_mem mem] at mem_held held ⊢
  refine ⟨custody.items_nodup, fun item now => ?_, fun id now => ?_, ?_, ?_, fun id above => ?_,
    custody.entries_nodup, custody.entries⟩
  · obtain ⟨known, origin, undropped⟩ := custody.items item now
    exact ⟨Nat.lt_succ_of_lt known, (origin_old item known).trans origin, undropped⟩
  · cases mem_held id now with
    | inl old =>
        obtain ⟨known, summarized⟩ := custody.held id old
        refine ⟨Nat.lt_succ_of_lt known, ?_⟩
        change Function.update s.history.origin s.nextRun (s.history.origin source) id ∈ _
        rw [origin_old id known]
        exact summarized
    | inr new =>
        rw [new]
        refine ⟨Nat.lt_succ_self _, ?_⟩
        change Function.update s.history.origin s.nextRun (s.history.origin source) s.nextRun ∈ _
        rw [origin_new]
        exact (custody.held source sourceHeld).2
  · have same : (s.summarySources.set (s.summarySources.idxOf source) s.nextRun ++ s.elided).map
        (Function.update s.history.origin s.nextRun (s.history.origin source)) =
        s.held.map s.history.origin := by
      rw [List.map_append, map_set_idxOf mem origin_new fun id old =>
        origin_old id (custody.held id (List.mem_append_left _ old)).1]
      rw [State.held, List.map_append]
      congr 1
      exact List.map_congr_left fun id old =>
        origin_old id (custody.held id (List.mem_append_right _ old)).1
    rw [held]
    exact same ▸ custody.origins
  · intro entry inEntries key compact reference
    obtain ⟨first, second, summarized, same, notHeld⟩ :=
      custody.references entry inEntries key compact reference
    refine ⟨Nat.lt_succ_of_lt first, Nat.lt_succ_of_lt second, ?_, ?_, fun now => ?_⟩
    · change Function.update s.history.origin s.nextRun (s.history.origin source) key ∈ _
      rw [origin_old key first]
      exact summarized
    · exact (origin_old compact second).trans (same.trans (origin_old key first).symm)
    · cases mem_held key now with
      | inl old => exact notHeld old
      | inr new => exact absurd new (Nat.ne_of_lt first)
  · obtain ⟨origin, undropped⟩ := custody.fresh id (Nat.le_of_succ_le above)
    exact ⟨(Function.update_of_ne (Nat.ne_of_lt above).symm ..).trans origin, undropped⟩

theorem Accounted.releaseForRetry (accounted : s.Accounted) (custody : s.Custody)
    (mem : source ∈ s.summarySources) : (s.releaseForRetry source).Accounted := by
  have captured_old : ∀ id ∈ s.held,
      Function.update s.history.captured s.nextRun (s.history.captured source) id =
        s.history.captured id := fun id old =>
    Function.update_of_ne (Nat.ne_of_lt (custody.held id old).1) ..
  have captured_new : Function.update s.history.captured s.nextRun (s.history.captured source)
      s.nextRun = s.history.captured source := Function.update_self ..
  rw [releaseForRetry_of_mem mem]
  refine ⟨?_, fun entry inEntries => ?_, ?_⟩
  · exact accounted.lines.trans (map_set_idxOf mem captured_new fun id old =>
      captured_old id (List.mem_append_left _ old)).symm
  · obtain ⟨count, nonempty, lines⟩ := accounted.entries entry inEntries
    refine ⟨count, nonempty, lines.trans (List.map_congr_left fun id inSources => ?_)⟩
    exact (captured_old id (List.mem_append_right _
      (List.mem_flatMap.mpr ⟨entry, inEntries, inSources⟩))).symm
  · change s.droppedCount = (s.summarySources.set _ _).length + s.elided.length +
      s.evictedSummaryCount
    rw [List.length_set]
    exact accounted.dropped

end Retry

/-- The evicted summaries were reported. -/
def forgetEvicted (s : State) : State :=
  { s.reportEvicted with
    evictedSummaryCount := 0
    droppedCount := s.droppedCount - s.evictedSummaryCount }

theorem Accounted.forgetEvicted (accounted : s.Accounted) : s.forgetEvicted.Accounted := by
  refine ⟨accounted.lines, accounted.entries, ?_⟩
  have total := accounted.dropped
  change s.droppedCount - s.evictedSummaryCount = s.summarySources.length + s.elided.length + 0
  omega

theorem Custody.forgetEvicted (custody : s.Custody) : s.forgetEvicted.Custody :=
  ⟨custody.items_nodup, custody.items, custody.held, custody.origins, custody.references,
    custody.fresh, custody.entries_nodup, custody.entries⟩

theorem Accounted.clear : s.clearFollowupQueue.Accounted := by
  refine ⟨rfl, fun entry mem => ?_, rfl⟩
  cases mem

theorem Custody.clear (custody : s.Custody) : s.clearFollowupQueue.Custody := by
  refine ⟨List.nodup_nil, fun item mem => ?_, fun source mem => ?_, List.nodup_nil,
    fun entry mem => ?_, custody.fresh, List.nodup_nil, fun entry mem => ?_⟩
  all_goals cases mem

end State
end Followup
