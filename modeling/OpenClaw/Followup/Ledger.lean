import OpenClaw.Followup.Machine

/-!
The overflow ledger of a queue: which summarized sources it holds, the lines captured
from them and the counters. `Custody` is about identities: an item was never dropped,
no two held sources stand for the same dropped run, and a reference of an elision
entry leads to a copy of its source.
-/

namespace Followup

/-- An entry with the kept sources only. -/
def Elision.keep (keep : RunId → Bool) (entry : Elision) : Elision :=
  { entry with
    sources := entry.sources.filter keep
    summaryLines := keepLines keep entry.sources entry.summaryLines
    count := (entry.sources.filter keep).length }

def keepEntries (keep : RunId → Bool) (entries : List Elision) : List Elision :=
  (entries.map (·.keep keep)).filter (·.sources ≠ [])

theorem map_keepLines {α : Type} {f : RunId → Option α} {g : String → Option α}
    {keep : RunId → Bool} {sources : List RunId} {lines : List String}
    (aligned : lines.map g = sources.map f) :
    (keepLines keep sources lines).map g = (sources.filter keep).map f := by
  induction sources generalizing lines with
  | nil =>
      have empty : lines = [] := by simpa using aligned
      simp [empty, keepLines]
  | cons source sources ih =>
      cases lines with
      | nil => simp at aligned
      | cons line lines =>
          obtain ⟨head, tail⟩ := List.cons.inj aligned
          cases kept : keep source with
          | true => simp [keepLines, kept, ih tail, head]
          | false => simpa [keepLines, kept] using ih tail

theorem flatMap_keepEntries (keep : RunId → Bool) (entries : List Elision) :
    (keepEntries keep entries).flatMap (·.sources) =
      (entries.flatMap (·.sources)).filter keep := by
  induction entries with
  | nil => rfl
  | cons entry entries ih =>
      simp only [keepEntries, List.map_cons, List.filter_cons, Elision.keep, List.flatMap_cons,
        List.filter_append] at ih ⊢
      by_cases none : entry.sources.filter keep = []
      · simpa [none] using ih
      · simpa [none] using ih

theorem mem_keepEntries {keep : RunId → Bool} {entries : List Elision} {entry : Elision}
    (mem : entry ∈ keepEntries keep entries) :
    ∃ old ∈ entries, entry = old.keep keep ∧ entry.sources ≠ [] := by
  obtain ⟨mapped, nonempty⟩ := List.mem_filter.mp mem
  obtain ⟨old, known, same⟩ := List.mem_map.mp mapped
  exact ⟨old, known, same.symm, by simpa using nonempty⟩

theorem keepLines_all {keep : RunId → Bool} {sources : List RunId} {lines : List String}
    (aligned : lines.length = sources.length) (all : ∀ source ∈ sources, keep source = true) :
    keepLines keep sources lines = lines := by
  induction sources generalizing lines with
  | nil => cases lines <;> rfl
  | cons head tail ih =>
      cases lines with
      | nil => simp at aligned
      | cons line lines =>
          simp only [List.length_cons, Nat.add_right_cancel_iff] at aligned
          simp [keepLines, all head List.mem_cons_self,
            ih aligned fun source mem => all source (List.mem_cons_of_mem _ mem)]

theorem filter_ne_of_notMem {sources : List RunId} {source : RunId} (notMem : source ∉ sources) :
    sources.filter (· ≠ source) = sources :=
  List.filter_eq_self.mpr fun _ mem => decide_eq_true fun same => notMem (same ▸ mem)

theorem ne_of_notMem {sources : List RunId} {source : RunId} (notMem : source ∉ sources) :
    ∀ other ∈ sources, decide (other ≠ source) = true := fun _ mem =>
  decide_eq_true fun same => notMem (same ▸ mem)

/-- Removing one source removes the line at its position. -/
theorem keep_ne_eraseIdx {sources : List RunId} {lines : List String} {source : RunId}
    (aligned : lines.length = sources.length) (nodup : sources.Nodup) (mem : source ∈ sources) :
    sources.filter (· ≠ source) = sources.eraseIdx (sources.idxOf source) ∧
      keepLines (· ≠ source) sources lines = lines.eraseIdx (sources.idxOf source) := by
  induction sources generalizing lines with
  | nil => cases mem
  | cons head tail ih =>
      cases lines with
      | nil => simp at aligned
      | cons line lines =>
          obtain ⟨notMem, tailNodup⟩ := List.nodup_cons.mp nodup
          simp only [List.length_cons, Nat.add_right_cancel_iff] at aligned
          by_cases here : head = source
          · subst here
            have lines_rest := keepLines_all aligned (ne_of_notMem notMem)
            have sources_rest := filter_ne_of_notMem notMem
            simp only [ne_eq, decide_not] at lines_rest sources_rest
            simp [keepLines, lines_rest, sources_rest]
          · have inTail : source ∈ tail := (List.mem_cons.mp mem).resolve_left (Ne.symm here)
            obtain ⟨sources_rest, lines_rest⟩ := ih aligned tailNodup inTail
            simp only [ne_eq, decide_not] at lines_rest sources_rest
            simp [keepLines, here, List.idxOf_cons_ne _ here, sources_rest, lines_rest]

/-- An entry as the operations leave it. -/
structure Elision.Formed (entry : Elision) : Prop where
  count : entry.count = entry.sources.length
  nonempty : entry.sources ≠ []
  aligned : entry.summaryLines.length = entry.sources.length

/-- An entry without the source at an index. -/
def Elision.eraseIdx (entry : Elision) (index : Nat) : Elision :=
  { entry with
    sources := entry.sources.eraseIdx index
    summaryLines := entry.summaryLines.eraseIdx index
    count := (entry.sources.eraseIdx index).length }

theorem Elision.Formed.keep_all {entry : Elision} {keep : RunId → Bool} (formed : entry.Formed)
    (all : ∀ source ∈ entry.sources, keep source = true) : entry.keep keep = entry := by
  obtain ⟨count, -, aligned⟩ := formed
  rw [Elision.keep, List.filter_eq_self.mpr all, keepLines_all aligned all, ← count]

theorem keepEntries_all {entries : List Elision} {keep : RunId → Bool}
    (formed : ∀ entry ∈ entries, entry.Formed)
    (all : ∀ source ∈ entries.flatMap (·.sources), keep source = true) :
    keepEntries keep entries = entries := by
  have same : entries.map (·.keep keep) = entries := by
    refine (List.map_congr_left fun entry mem => ?_).trans (List.map_id entries)
    exact (formed entry mem).keep_all fun source inSources =>
      all source (List.mem_flatMap.mpr ⟨entry, mem, inSources⟩)
  rw [keepEntries, same]
  exact List.filter_eq_self.mpr fun entry mem => decide_eq_true (formed entry mem).nonempty

section One

variable {entry : Elision} {entries : List Elision} {source : RunId}

theorem keepEntries_ne_tail (formed : entry.Formed) (notMem : source ∉ entry.sources) :
    keepEntries (· ≠ source) (entry :: entries) = entry :: keepEntries (· ≠ source) entries := by
  have same := formed.keep_all (ne_of_notMem notMem)
  simp only [keepEntries, List.map_cons, same]
  exact List.filter_cons_of_pos (decide_eq_true formed.nonempty)

theorem keepEntries_ne_head (formed : ∀ other ∈ entry :: entries, other.Formed)
    (nodup : ((entry :: entries).flatMap (·.sources)).Nodup) (mem : source ∈ entry.sources) :
    keepEntries (· ≠ source) (entry :: entries) =
      if entry.sources.eraseIdx (entry.sources.idxOf source) = [] then entries
      else entry.eraseIdx (entry.sources.idxOf source) :: entries := by
  obtain ⟨headNodup, -, disjoint⟩ := List.nodup_append.mp (List.flatMap_cons ▸ nodup)
  have head := formed entry List.mem_cons_self
  obtain ⟨sources, lines⟩ := keep_ne_eraseIdx head.aligned headNodup mem
  have same : entry.keep (· ≠ source) = entry.eraseIdx (entry.sources.idxOf source) := by
    rw [Elision.keep, sources, lines]
    rfl
  have rest := keepEntries_all (fun other inTail => formed other (List.mem_cons_of_mem _ inTail))
    (ne_of_notMem fun inTail => disjoint source mem source inTail rfl)
  have cons : keepEntries (· ≠ source) (entry :: entries) =
      [entry.keep (· ≠ source)].filter (·.sources ≠ []) ++ keepEntries (· ≠ source) entries := by
    rw [keepEntries, List.map_cons, ← List.singleton_append, List.filter_append]
    rfl
  rw [cons, rest, same]
  by_cases empty : entry.sources.eraseIdx (entry.sources.idxOf source) = []
  · rw [if_pos empty]
    simp [Elision.eraseIdx, empty]
  · have kept : [entry.eraseIdx (entry.sources.idxOf source)].filter (·.sources ≠ []) =
        [entry.eraseIdx (entry.sources.idxOf source)] :=
      List.filter_cons_of_pos (decide_eq_true empty)
    rw [if_neg empty, kept]
    rfl

end One

namespace State

def elided (s : State) : List RunId := s.summaryElisions.flatMap (·.sources)

/-- The summarized sources that are still pending. -/
def held (s : State) : List RunId := s.summarySources ++ s.elided

/-- Lines correspond to sources, and the counters to what is held. -/
structure Accounted (s : State) : Prop where
  lines : s.summaryLines.map some = s.summarySources.map s.history.captured
  entries : ∀ entry ∈ s.summaryElisions, entry.count = entry.sources.length ∧
    entry.sources ≠ [] ∧ entry.summaryLines.map some = entry.sources.map s.history.captured
  dropped : s.droppedCount = s.summarySources.length + s.elided.length + s.evictedSummaryCount

/-- A run that was never dropped and is no copy. -/
def Undropped (s : State) (id : RunId) : Prop :=
  id < s.nextRun ∧ s.history.origin id = id ∧ id ∉ s.history.summarized

structure Custody (s : State) : Prop where
  items_nodup : s.items.Nodup
  items : ∀ item ∈ s.items, s.Undropped item
  held : ∀ source ∈ s.held, source < s.nextRun ∧
    s.history.origin source ∈ s.history.summarized
  origins : (s.held.map s.history.origin).Nodup
  references : ∀ entry ∈ s.summaryElisions, ∀ source compact,
    entry.reference source = some compact →
      source < s.nextRun ∧ compact < s.nextRun ∧
      s.history.origin source ∈ s.history.summarized ∧
      s.history.origin compact = s.history.origin source ∧ source ∉ s.held
  fresh : ∀ id, s.nextRun ≤ id → s.history.origin id = id ∧ id ∉ s.history.summarized
  entries_nodup : (s.summaryElisions.map (·.id)).Nodup
  entries : ∀ entry ∈ s.summaryElisions, entry.id < s.nextElision

/-- Remove held sources, with their lines. -/
def discard (s : State) (keep : RunId → Bool) (settlement : Settlement) : State :=
  { s.settleAll (s.held.filter fun source => !keep source) settlement with
    summarySources := s.summarySources.filter keep
    summaryLines := keepLines keep s.summarySources s.summaryLines
    summaryElisions := keepEntries keep s.summaryElisions }

/-- Remove held sources together with their share of `droppedCount`. -/
def discardCounted (s : State) (keep : RunId → Bool) (settlement : Settlement) : State :=
  { s.discard keep settlement with
    droppedCount := s.droppedCount - (s.held.filter fun source => !keep source).length }

/-- Remove a held source; its share of `droppedCount` goes to the evicted ones. -/
def discardEvicted (s : State) (source : RunId) : State :=
  { s.discard (· ≠ source) .evicted with evictedSummaryCount := s.evictedSummaryCount + 1 }

variable {s : State}

theorem elided_discard (keep : RunId → Bool) (settlement : Settlement) :
    (s.discard keep settlement).elided = s.elided.filter keep :=
  flatMap_keepEntries keep s.summaryElisions

theorem held_discard (keep : RunId → Bool) (settlement : Settlement) :
    (s.discard keep settlement).held = s.held.filter keep := by
  rw [held, elided_discard, held, List.filter_append]
  rfl

theorem Accounted.formed (accounted : s.Accounted) : ∀ entry ∈ s.summaryElisions, entry.Formed := by
  intro entry mem
  obtain ⟨count, nonempty, lines⟩ := accounted.entries entry mem
  exact ⟨count, nonempty, by simpa using congrArg List.length lines⟩

theorem Accounted.aligned (accounted : s.Accounted) :
    s.summaryLines.length = s.summarySources.length := by
  simpa using congrArg List.length accounted.lines

theorem Custody.held_nodup (custody : s.Custody) : s.held.Nodup :=
  custody.origins.of_map s.history.origin

/-- An undropped run is not held. -/
theorem Custody.notMem_held (custody : s.Custody) {id : RunId} (undropped : s.Undropped id) :
    id ∉ s.held := fun mem =>
  undropped.2.2 (undropped.2.1 ▸ (custody.held id mem).2)

/-- Held sources with one origin are the same. -/
theorem Custody.eq_of_origin (custody : s.Custody) {left right : RunId} (first : left ∈ s.held)
    (second : right ∈ s.held) (same : s.history.origin left = s.history.origin right) :
    left = right :=
  List.inj_on_of_nodup_map custody.origins first second same

theorem Custody.discard (custody : s.Custody) (keep : RunId → Bool) (settlement : Settlement) :
    (s.discard keep settlement).Custody := by
  have sublist : ((s.discard keep settlement).held).Sublist s.held := by
    rw [held_discard]
    exact List.filter_sublist
  refine ⟨custody.items_nodup, custody.items, fun source mem => ?_, ?_, ?_, custody.fresh, ?_, ?_⟩
  · exact custody.held source (sublist.subset mem)
  · exact (sublist.map _).nodup custody.origins
  · intro entry mem source compact reference
    obtain ⟨old, known, rfl, -⟩ := mem_keepEntries mem
    obtain ⟨sourceKnown, compactKnown, summarized, same, notHeld⟩ :=
      custody.references old known source compact reference
    exact ⟨sourceKnown, compactKnown, summarized, same, fun now => notHeld (sublist.subset now)⟩
  · refine List.Nodup.sublist ?_ custody.entries_nodup
    have kept : List.Sublist ((keepEntries keep s.summaryElisions).map (·.id))
        ((s.summaryElisions.map (·.keep keep)).map (·.id)) := List.filter_sublist.map _
    change List.Sublist ((keepEntries keep s.summaryElisions).map (·.id)) _
    simpa [List.map_map, Function.comp_def, Elision.keep] using kept
  · intro entry mem
    obtain ⟨old, known, rfl, -⟩ := mem_keepEntries mem
    exact custody.entries old known

/-- Lines and entries survive a removal; the counters are the caller's. -/
theorem Accounted.discard_lines (accounted : s.Accounted) (keep : RunId → Bool)
    (settlement : Settlement) :
    (s.discard keep settlement).summaryLines.map some =
        (s.discard keep settlement).summarySources.map s.history.captured ∧
      ∀ entry ∈ (s.discard keep settlement).summaryElisions, entry.count = entry.sources.length ∧
        entry.sources ≠ [] ∧ entry.summaryLines.map some = entry.sources.map s.history.captured := by
  refine ⟨map_keepLines accounted.lines, fun entry mem => ?_⟩
  obtain ⟨old, known, rfl, nonempty⟩ := mem_keepEntries mem
  exact ⟨rfl, nonempty, map_keepLines (accounted.entries old known).2.2⟩

theorem length_filter_add_filter_not (keep : RunId → Bool) (sources : List RunId) :
    (sources.filter keep).length + (sources.filter fun source => !keep source).length =
      sources.length := by
  induction sources with
  | nil => rfl
  | cons source sources ih =>
      cases kept : keep source with
      | true =>
          simp only [List.filter_cons, kept, Bool.not_true, if_true, Bool.false_eq_true, if_false,
            List.length_cons]
          omega
      | false =>
          simp only [List.filter_cons, kept, Bool.not_false, if_true, Bool.false_eq_true, if_false,
            List.length_cons]
          omega

theorem length_held : s.held.length = s.summarySources.length + s.elided.length :=
  List.length_append

theorem Accounted.discardCounted (accounted : s.Accounted) (keep : RunId → Bool)
    (settlement : Settlement) : (s.discardCounted keep settlement).Accounted := by
  obtain ⟨lines, entries⟩ := accounted.discard_lines keep settlement
  refine ⟨lines, entries, ?_⟩
  have remaining := congrArg List.length (held_discard (s := s) keep settlement)
  rw [length_held] at remaining
  have total := length_filter_add_filter_not keep s.held
  have before := accounted.dropped
  rw [length_held] at total
  change s.droppedCount - (s.held.filter fun source => !keep source).length =
    (s.discard keep settlement).summarySources.length + (s.discard keep settlement).elided.length +
      s.evictedSummaryCount
  omega

theorem filter_not_ne {sources : List RunId} {source : RunId} (nodup : sources.Nodup)
    (mem : source ∈ sources) :
    (sources.filter fun other => !decide (other ≠ source)) = [source] := by
  have once := List.count_eq_one_of_mem nodup mem
  have same : sources.filter (fun other => !decide (other ≠ source)) =
      List.replicate (sources.count source) source := by
    rw [← List.filter_eq]
    exact List.filter_congr fun other _ => by simp
  rw [same, once]
  rfl

/-- Removing one retained source. -/
theorem discard_retained (custody : s.Custody) (accounted : s.Accounted)
    {source : RunId} {settlement : Settlement} (mem : source ∈ s.summarySources) :
    s.discard (· ≠ source) settlement = ({ s with
      summarySources := s.summarySources.eraseIdx (s.summarySources.idxOf source)
      summaryLines := s.summaryLines.eraseIdx (s.summarySources.idxOf source) } : State).settle
        source settlement := by
  have nodup := custody.held_nodup
  obtain ⟨retainedNodup, -, disjoint⟩ := List.nodup_append.mp nodup
  have one := filter_not_ne nodup (List.mem_append_left s.elided mem)
  obtain ⟨rest, lines⟩ := keep_ne_eraseIdx accounted.aligned retainedNodup mem
  have entries := keepEntries_all accounted.formed
    (ne_of_notMem fun elided => disjoint source mem source elided rfl)
  simp only [discard, settleAll, settle, rest, lines, entries, one, List.map_singleton]

/-- Removing one elided source leaves the retained ones alone. -/
theorem discard_elided (custody : s.Custody) (accounted : s.Accounted)
    {source : RunId} {settlement : Settlement} (mem : source ∈ s.elided) :
    s.discard (· ≠ source) settlement = ({ s with
      summaryElisions := keepEntries (· ≠ source) s.summaryElisions } : State).settle
        source settlement := by
  have nodup := custody.held_nodup
  have notRetained : source ∉ s.summarySources := fun here =>
    (List.nodup_append.mp nodup).2.2 source here source mem rfl
  have one := filter_not_ne nodup (List.mem_append_right s.summarySources mem)
  have rest := filter_ne_of_notMem notRetained
  have lines := keepLines_all accounted.aligned (ne_of_notMem notRetained)
  simp only [discard, settleAll, settle, rest, lines, one, List.map_singleton]

theorem Accounted.discardEvicted (accounted : s.Accounted) (custody : s.Custody)
    {source : RunId} (mem : source ∈ s.held) : (s.discardEvicted source).Accounted := by
  obtain ⟨lines, entries⟩ := accounted.discard_lines (· ≠ source) .evicted
  refine ⟨lines, entries, ?_⟩
  have remaining := congrArg List.length (held_discard (s := s) (· ≠ source) .evicted)
  rw [length_held] at remaining
  have total := length_filter_add_filter_not (· ≠ source) s.held
  have one := congrArg List.length (filter_not_ne custody.held_nodup mem)
  rw [List.length_singleton] at one
  have before := accounted.dropped
  rw [length_held] at total
  change s.droppedCount = (s.discard (· ≠ source) .evicted).summarySources.length +
    (s.discard (· ≠ source) .evicted).elided.length + (s.evictedSummaryCount + 1)
  omega

end State
end Followup
