import OpenClaw.Followup.Consumption
import OpenClaw.Followup.Keys

/-!
The overflow summary of a drain as moves: aborted sources are discarded, evictions are
reported, and a delivery is started from the oldest elision entry or from the first
group of retained sources. What a started delivery relies on holds at its start.
-/

namespace Followup

theorem keepLines_congr {keep keep' : RunId → Bool} {sources : List RunId} {lines : List String}
    (same : ∀ source ∈ sources, keep source = keep' source) :
    keepLines keep sources lines = keepLines keep' sources lines := by
  induction sources generalizing lines with
  | nil => rfl
  | cons source sources ih =>
      cases lines with
      | nil => rfl
      | cons line lines =>
          have rest : keepLines keep sources lines = keepLines keep' sources lines :=
            ih fun other mem => same other (List.mem_cons_of_mem _ mem)
          rw [keepLines, keepLines, same source List.mem_cons_self, rest]

/-- One entry changes, the others lose nothing. -/
theorem keepEntries_middle {keep : RunId → Bool} (before : List Elision) {after : List Elision}
    {entry : Elision}
    (formed : ∀ other ∈ before ++ entry :: after, other.Formed)
    (kept : ∀ other ∈ before ++ after, ∀ source ∈ other.sources, keep source = true) :
    keepEntries keep (before ++ entry :: after) =
      before ++ (if entry.sources.filter keep = [] then [] else [entry.keep keep]) ++ after := by
  have first : keepEntries keep before = before := keepEntries_all
    (fun other mem => formed other (List.mem_append_left _ mem)) fun source mem => by
      obtain ⟨other, known, inSources⟩ := List.mem_flatMap.mp mem
      exact kept other (List.mem_append_left _ known) source inSources
  have last : keepEntries keep after = after := keepEntries_all
    (fun other mem => formed other (List.mem_append_right _ (List.mem_cons_of_mem _ mem)))
    fun source mem => by
      obtain ⟨other, known, inSources⟩ := List.mem_flatMap.mp mem
      exact kept other (List.mem_append_right _ known) source inSources
  have split : keepEntries keep (before ++ entry :: after) = keepEntries keep before ++
      ([entry.keep keep].filter (·.sources ≠ []) ++ keepEntries keep after) := by
    simp only [keepEntries, List.map_append, List.map_cons, List.filter_append,
      ← List.singleton_append (l := after.map _)]
  rw [split, first, last, ← List.append_assoc]
  by_cases empty : entry.sources.filter keep = []
  · rw [if_pos empty]
    simp [Elision.keep, empty]
  · rw [if_neg empty]
    simp [Elision.keep, empty]

/-- The listed elements of a list, in order. -/
theorem filter_mem_of_sublist {gone sources : List RunId} (sublist : gone.Sublist sources)
    (nodup : sources.Nodup) : sources.filter (· ∈ gone) = gone := by
  induction sublist with
  | slnil => rfl
  | cons source sublist ih =>
      obtain ⟨notMem, rest⟩ := List.nodup_cons.mp nodup
      rw [List.filter_cons_of_neg (by simpa using fun mem => notMem (sublist.subset mem))]
      exact ih rest
  | cons_cons source sublist ih =>
      obtain ⟨notMem, rest⟩ := List.nodup_cons.mp nodup
      rw [List.filter_cons_of_pos (by simp)]
      refine congrArg _ ((List.filter_congr fun other mem => ?_).trans (ih rest))
      have different : other ≠ source := fun same => notMem (same ▸ mem)
      simp [different]

/-- Removing the first sources removes the first lines. -/
theorem keep_notMem_take {sources : List RunId} {lines : List String} (n : Nat)
    (aligned : lines.length = sources.length) (nodup : sources.Nodup) :
    sources.filter (· ∉ sources.take n) = sources.drop n ∧
      keepLines (· ∉ sources.take n) sources lines = lines.drop n := by
  induction sources generalizing n lines with
  | nil =>
      cases lines with
      | nil => cases n <;> exact ⟨rfl, rfl⟩
      | cons => simp at aligned
  | cons source sources ih =>
      cases lines with
      | nil => simp at aligned
      | cons line lines =>
          obtain ⟨notMem, rest⟩ := List.nodup_cons.mp nodup
          cases n with
          | zero =>
              have all : ∀ other ∈ source :: sources,
                  decide (other ∉ (source :: sources).take 0) = true := fun other _ => by simp
              exact ⟨List.filter_eq_self.mpr all, keepLines_all aligned all⟩
          | succ n =>
              obtain ⟨dropped, lines_dropped⟩ := ih n (by simpa using aligned) rest
              have same : ∀ other ∈ sources, decide (other ∉ (source :: sources).take (n + 1)) =
                  decide (other ∉ sources.take n) := fun other mem => by
                have different : other ≠ source := fun same => notMem (same ▸ mem)
                simp [different]
              have filtered : (source :: sources).filter (· ∉ (source :: sources).take (n + 1)) =
                  sources.filter (· ∉ (source :: sources).take (n + 1)) :=
                List.filter_cons_of_neg (by simp)
              have kept : keepLines (· ∉ (source :: sources).take (n + 1)) (source :: sources)
                  (line :: lines) = keepLines (· ∉ (source :: sources).take (n + 1)) sources lines :=
                if_neg (by simp)
              rw [filtered, kept, List.filter_congr same, keepLines_congr same]
              exact ⟨dropped, lines_dropped⟩

namespace State

variable {norm : Normalizers} {allowed : Permission → Prop} {added : RunId → Prop} {s t : State}
  {settlement : Settlement} {gone : List RunId}

/-- Discarding listed sources, counted. -/
def discardListed (s : State) (gone : List RunId) (settlement : Settlement) : State :=
  { s.settleAll gone settlement with
    summarySources := s.summarySources.filter (· ∉ gone)
    summaryLines := keepLines (· ∉ gone) s.summarySources s.summaryLines
    summaryElisions := keepEntries (· ∉ gone) s.summaryElisions
    droppedCount := s.droppedCount - gone.length }

theorem discardListed_eq (sound : s.Sound) (sublist : gone.Sublist s.held) :
    s.discardCounted (· ∉ gone) settlement = s.discardListed gone settlement := by
  have listed : (s.held.filter fun source => !decide (source ∉ gone)) = gone := by
    refine (List.filter_congr fun source _ => ?_).trans
      (filter_mem_of_sublist sublist sound.custody.held_nodup)
    simp
  rw [discardCounted, discard, listed]
  rfl

theorem Moves.discardListed (consuming : allowed .consume) (sound : s.Sound)
    (sublist : gone.Sublist s.held) (notEvicted : settlement ≠ .evicted)
    (delivered : settlement = .delivered →
      (∀ source ∈ gone, s.Shown source) ∨ allowed .swallow) :
    Moves norm allowed added s (s.discardListed gone settlement) := by
  rw [← discardListed_eq sound sublist]
  refine .single (.discard _ settlement consuming notEvicted fun isDelivered => ?_)
  refine (delivered isDelivered).imp_left fun shown source _ removed => shown source ?_
  exact not_not.mp (of_decide_eq_false removed)

theorem retained_apart (sound : s.Sound) {source : RunId} (retained : source ∈ s.summarySources) :
    source ∉ s.elided := fun elided =>
  (List.nodup_append.mp sound.custody.held_nodup).2.2 source retained source elided rfl

theorem Moves.dropAborted (consuming : allowed .consume) (sound : s.Sound) :
    Moves norm allowed added s s.dropAbortedQueueSummarySources.2 := by
  have sublist : (s.summarySources.filter s.isFollowupRunAborted).Sublist s.held :=
    List.filter_sublist.trans (List.sublist_append_left ..)
  have kept : ∀ source ∈ s.summarySources,
      decide (source ∉ s.summarySources.filter s.isFollowupRunAborted) =
        !s.isFollowupRunAborted source := fun source mem => by
    simp [List.mem_filter, mem]
  have entries : keepEntries (· ∉ s.summarySources.filter s.isFollowupRunAborted)
      s.summaryElisions = s.summaryElisions :=
    keepEntries_all sound.accounted.formed fun source elided => decide_eq_true fun listed =>
      retained_apart sound (List.mem_filter.mp listed).1 elided
  have same : s.dropAbortedQueueSummarySources.2 =
      s.discardListed (s.summarySources.filter s.isFollowupRunAborted) .aborted := by
    rw [State.discardListed, List.filter_congr kept, keepLines_congr kept, entries]
    rfl
  rw [same]
  exact Moves.discardListed consuming sound sublist (by decide) fun delivered => by cases delivered

/-- The state of a drain after the aborted sources of the oldest entry were dropped. -/
def dropAbortedElided (s : State) (entry : Elision) (entries : List Elision) : State :=
  let aborted := entry.sources.filter s.isFollowupRunAborted
  let kept := { entry with
    sources := entry.sources.filter fun source => !s.isFollowupRunAborted source
    summaryLines := keepLines (fun source => !s.isFollowupRunAborted source) entry.sources
      entry.summaryLines
    count := entry.count - aborted.length }
  { s.settleAll aborted .aborted with
    droppedCount := s.droppedCount - aborted.length
    summaryElisions := if kept.sources = [] then entries else kept :: entries }

section Head

variable {entry : Elision} {entries : List Elision}

theorem Moves.dropAbortedElided (consuming : allowed .consume) (sound : s.Sound)
    (head : s.summaryElisions = entry :: entries) :
    Moves norm allowed added s (s.dropAbortedElided entry entries) := by
  have elided : s.elided = entry.sources ++ entries.flatMap (·.sources) := by
    rw [State.elided, head, List.flatMap_cons]
  have nodup := elided ▸ sound.elided_nodup
  have sublist : (entry.sources.filter s.isFollowupRunAborted).Sublist s.held := by
    rw [held, elided]
    exact List.filter_sublist.trans ((List.sublist_append_left ..).trans
      (List.sublist_append_right ..))
  have kept : ∀ source ∈ entry.sources,
      decide (source ∉ entry.sources.filter s.isFollowupRunAborted) =
        !s.isFollowupRunAborted source := fun source mem => by
    simp [List.mem_filter, mem]
  have apart : ∀ source ∈ s.summarySources,
      decide (source ∉ entry.sources.filter s.isFollowupRunAborted) = true :=
    fun source retained => decide_eq_true fun listed => retained_apart sound retained
      (elided ▸ List.mem_append_left _ (List.mem_filter.mp listed).1)
  have formed := sound.accounted.formed
  rw [head] at formed
  have middle : keepEntries (· ∉ entry.sources.filter s.isFollowupRunAborted) (entry :: entries) =
      (if entry.sources.filter (· ∉ entry.sources.filter s.isFollowupRunAborted) = [] then []
        else [entry.keep (· ∉ entry.sources.filter s.isFollowupRunAborted)]) ++ entries :=
    keepEntries_middle [] formed fun other known source inSources =>
      decide_eq_true fun listed => (List.nodup_append.mp nodup).2.2 source
        (List.mem_filter.mp listed).1 source (List.mem_flatMap.mpr ⟨other, known, inSources⟩) rfl
  have count : entry.count - (entry.sources.filter s.isFollowupRunAborted).length =
      (entry.sources.filter fun source => !s.isFollowupRunAborted source).length := by
    have total := length_filter_add_filter_not s.isFollowupRunAborted entry.sources
    rw [(formed entry List.mem_cons_self).count]
    omega
  have same : s.dropAbortedElided entry entries =
      s.discardListed (entry.sources.filter s.isFollowupRunAborted) .aborted := by
    rw [State.discardListed, head, middle, List.filter_eq_self.mpr apart,
      keepLines_all sound.accounted.aligned apart, Elision.keep, List.filter_congr kept,
      keepLines_congr kept, State.dropAbortedElided, count]
    by_cases empty : (entry.sources.filter fun source => !s.isFollowupRunAborted source) = []
    · simp only [empty, if_true, List.nil_append]
      rfl
    · simp only [empty, if_false, List.singleton_append]
      rfl
  rw [same]
  exact Moves.discardListed consuming sound sublist (by decide) fun delivered => by cases delivered

end Head

theorem map_replace {entries : List Elision} {id : ElisionId} {settled : Elision}
    (others : ∀ other ∈ entries, other.id ≠ id) :
    entries.map (fun other => if other.id = id then settled else other) = entries :=
  (List.map_congr_left fun other mem => if_neg (others other mem)).trans (List.map_id' entries)

/-- The sources a settlement of a delivered entry takes. -/
def settledSources (s : State) (id : ElisionId) (elidedCount : Nat) : List RunId :=
  match s.summaryElisions.find? (·.id = id) with
  | none => []
  | some entry => entry.sources.take (min elidedCount entry.sources.length)

theorem settleElided_eq (sound : s.Sound) (id : ElisionId) (elidedCount : Nat) :
    (s.settledSources id elidedCount).Sublist s.held ∧
      s.settleElided id elidedCount =
        if (s.summaryElisions.find? (·.id = id)).isSome then
          s.discardListed (s.settledSources id elidedCount) .delivered
        else s := by
  rw [settledSources, settleElided]
  cases found : s.summaryElisions.find? (·.id = id) with
  | none => exact ⟨List.nil_sublist _, rfl⟩
  | some entry =>
      obtain ⟨named, before, after, entries, others⟩ := List.find?_eq_some_iff_append.mp found
      have same_id : entry.id = id := of_decide_eq_true named
      have earlier : ∀ other ∈ before, other.id ≠ id := fun other mem => by
        simpa using others other mem
      have later : ∀ other ∈ after, other.id ≠ id := fun other mem same => by
        have ids := sound.custody.entries_nodup
        rw [entries, List.map_append, List.map_cons] at ids
        refine (List.nodup_cons.mp (List.nodup_append.mp ids).2.1).1 ?_
        exact List.mem_map.mpr ⟨other, mem, same.trans same_id.symm⟩
      have formed := sound.accounted.formed
      have elided : s.elided = before.flatMap (·.sources) ++
          (entry.sources ++ after.flatMap (·.sources)) := by
        rw [State.elided, entries, List.flatMap_append, List.flatMap_cons]
      have nodup := elided ▸ sound.elided_nodup
      obtain ⟨-, innerNodup, apart⟩ := List.nodup_append.mp nodup
      obtain ⟨entryNodup, -, apartAfter⟩ := List.nodup_append.mp innerNodup
      rw [entries] at formed
      have bounded : min elidedCount entry.sources.length ≤ entry.sources.length := Nat.min_le_right ..
      dsimp only [Option.isSome]
      generalize min elidedCount entry.sources.length = n at bounded ⊢
      have taken : ∀ source ∈ entry.sources.take n, source ∈ entry.sources := fun source mem =>
        List.mem_of_mem_take mem
      have sublist : (entry.sources.take n).Sublist s.held := by
        rw [held, elided]
        exact (List.take_sublist ..).trans ((List.sublist_append_left ..).trans
          ((List.sublist_append_right ..).trans (List.sublist_append_right ..)))
      refine ⟨sublist, ?_⟩
      have retained : ∀ source ∈ s.summarySources, decide (source ∉ entry.sources.take n) = true :=
        fun source mem => decide_eq_true fun listed => retained_apart sound mem
          (elided ▸ List.mem_append_right _ (List.mem_append_left _ (taken source listed)))
      have middle : keepEntries (· ∉ entry.sources.take n) (before ++ entry :: after) =
          before ++ (if entry.sources.filter (· ∉ entry.sources.take n) = [] then []
            else [entry.keep (· ∉ entry.sources.take n)]) ++ after :=
        keepEntries_middle before formed fun other known source inSources =>
          decide_eq_true fun listed => by
            cases List.mem_append.mp known with
            | inl first =>
                exact apart source (List.mem_flatMap.mpr ⟨other, first, inSources⟩) source
                  (List.mem_append_left _ (taken source listed)) rfl
            | inr last =>
                exact apartAfter source (taken source listed) source
                  (List.mem_flatMap.mpr ⟨other, last, inSources⟩) rfl
      obtain ⟨remaining, remainingLines⟩ := keep_notMem_take n
        (formed entry (List.mem_append_right _ List.mem_cons_self)).aligned entryNodup
      have filtered : (before ++ entry :: after).filter (·.id ≠ id) = before ++ after := by
        rw [List.filter_append, List.filter_cons_of_neg (by simpa using same_id),
          List.filter_eq_self.mpr fun other mem => decide_eq_true (earlier other mem),
          List.filter_eq_self.mpr fun other mem => decide_eq_true (later other mem)]
      have mapped : ∀ settled : Elision, (before ++ entry :: after).map (fun other =>
          if other.id = id then settled else other) = before ++ settled :: after := fun settled => by
        rw [List.map_append, List.map_cons, if_pos same_id, map_replace earlier, map_replace later]
      simp only [if_true, discardListed]
      rw [entries, middle, Elision.keep, remaining, remainingLines, filtered, mapped,
        List.filter_eq_self.mpr retained, keepLines_all sound.accounted.aligned retained,
        List.length_take, Nat.min_eq_left bounded]
      by_cases empty : entry.sources.drop n = []
      · simp only [empty, if_true, List.append_nil]
        rfl
      · simp only [empty, if_false, List.append_assoc, List.singleton_append]
        rfl

theorem Moves.settleElided (consuming : allowed .consume) (sound : s.Sound) (id : ElisionId)
    (elidedCount : Nat) (delivered : (∀ source ∈ s.settledSources id elidedCount, s.Shown source) ∨
      allowed .swallow) :
    Moves norm allowed added s (s.settleElided id elidedCount) := by
  obtain ⟨sublist, result⟩ := settleElided_eq sound id elidedCount
  rw [result]
  split
  · exact Moves.discardListed consuming sound sublist (by decide) fun _ => delivered
  · exact .refl

/-- An entry that lost none of the delivered sources, or got no others, settles only
delivered ones. -/
theorem settledSources_subset (sound : s.Sound) {id : ElisionId} {delivered : List RunId}
    (front : s.Front id delivered) (delivered_nodup : delivered.Nodup)
    (own : ∀ entry ∈ s.summaryElisions, entry.id = id →
      delivered ⊆ entry.sources ∨ entry.sources ⊆ delivered) :
    s.settledSources id delivered.length ⊆ delivered := by
  rw [settledSources]
  split
  case h_1 => exact List.nil_subset _
  case h_2 entry found =>
    have mem := List.mem_of_find?_eq_some found
    have same : entry.id = id := by simpa using List.find?_some found
    obtain ⟨older, newer, sources, first, last⟩ := front.split entry mem same
    cases own entry mem same with
    | inr subset => exact List.Subset.trans (List.take_subset ..) subset
    | inl subset =>
        -- The delivered sources are exactly the older ones, so nothing newer is taken.
        have inOlder : delivered ⊆ older := fun source listed => by
          have here := sources ▸ subset listed
          exact (List.mem_append.mp here).resolve_right fun new => last source new listed
        have olderNodup : older.Nodup := by
          have nodup := (List.nodup_flatMap.mp sound.elided_nodup).1 entry mem
          rw [sources] at nodup
          exact (List.nodup_append.mp nodup).1
        have length : older.length = delivered.length :=
          Nat.le_antisymm (olderNodup.subperm first).length_le
            (delivered_nodup.subperm inOlder).length_le
        intro source taken
        refine first ?_
        rw [sources, List.length_append, length, Nat.min_eq_left (Nat.le_add_right ..), ← length,
          List.take_left] at taken
        exact taken

end State
end Followup
