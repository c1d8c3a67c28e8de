import OpenClaw.Compaction.Prepare

/-!
Which cuts a window allows. The walk stops where the tokens of the messages after and
at an entry first reach the budget; over all budgets the reachable stops are the last
message and every message that weighs something. Every budget up to the largest safe
integer comes from some setting.
-/

namespace Compaction

variable {E : Estimator} {budget : ℚ} {window entries : List Entry} {stop cut index : Nat}

/-- The tokens of the messages from an index on. -/
def suffixTokens (E : Estimator) (window : List Entry) (index : Nat) : Nat :=
  totalTokens E ((window.drop index).filterMap compactionMessage)

/-- Messages remain from an index on. -/
def HasMessageFrom (window : List Entry) (index : Nat) : Prop :=
  (window.drop index).filterMap compactionMessage ≠ []

/-- The walk stops at the message `stop` for a budget. -/
structure Stops (E : Estimator) (budget : ℚ) (window : List Entry) (stop : Nat) : Prop where
  message : (window[stop]?.bind compactionMessage).isSome
  reached : budget ≤ suffixTokens E window stop
  before : HasMessageFrom window (stop + 1) → suffixTokens E window (stop + 1) < budget

theorem suffixTokens_cons_succ (entry : Entry) (later : List Entry) (index : Nat) :
    suffixTokens E (entry :: later) (index + 1) = suffixTokens E later index := rfl

theorem suffixTokens_antitone (window : List Entry) {left right : Nat} (le : left ≤ right) :
    suffixTokens E window right ≤ suffixTokens E window left := by
  have sub : ((window.drop right).filterMap compactionMessage).Sublist
      ((window.drop left).filterMap compactionMessage) := by
    rw [← Nat.add_sub_cancel' le, ← List.drop_drop]
    exact (List.drop_sublist _ _).filterMap _
  exact (sub.map E.estimateTokens).sum_le_sum fun _ _ => Nat.zero_le _

theorem hasMessageFrom_of_message {later : Nat} (message :
    (window[later]?.bind compactionMessage).isSome) (le : index ≤ later) :
    HasMessageFrom window index := by
  obtain ⟨found, at_⟩ := Option.isSome_iff_exists.mp message
  obtain ⟨entry, inside, projected⟩ := Option.bind_eq_some_iff.mp at_
  refine List.ne_nil_of_mem (List.mem_filterMap.mpr ⟨entry, ?_, projected⟩)
  refine List.mem_of_getElem? (i := later - index) ?_
  rwa [List.getElem?_drop, Nat.add_sub_cancel' le]

/-- What the walk returns: no stop and the sum of all tokens, or its stop. -/
def WalkResult (E : Estimator) (budget : ℚ) (window : List Entry) : Option Nat × Nat → Prop
  | (none, tokens) => tokens = suffixTokens E window 0 ∧
      (HasMessageFrom window 0 → suffixTokens E window 0 < budget)
  | (some stop, _) => Stops E budget window stop

theorem walkBack_spec (E : Estimator) (budget : ℚ) (window : List Entry) :
    WalkResult E budget window (walkBack E budget window) := by
  induction window with
  | nil => exact ⟨rfl, fun message => absurd rfl message⟩
  | cons entry later ih =>
      unfold walkBack
      generalize walkBack E budget later = result at ih ⊢
      obtain ⟨stop?, tokens⟩ := result
      cases stop? with
      | some stop => exact ⟨ih.message, ih.reached, ih.before⟩
      | none =>
          obtain ⟨rfl, below⟩ := ih
          cases projected : compactionMessage entry with
          | none =>
              have same : suffixTokens E (entry :: later) 0 = suffixTokens E later 0 := by
                simp [suffixTokens, projected]
              refine ⟨same.symm, fun message => same ▸ below ?_⟩
              simpa [HasMessageFrom, projected] using message
          | some message =>
              have same : suffixTokens E (entry :: later) 0 =
                  suffixTokens E later 0 + E.estimateTokens message := by
                simp [suffixTokens, totalTokens, projected, Nat.add_comm]
              dsimp only
              by_cases reached :
                  budget ≤ ((suffixTokens E later 0 + E.estimateTokens message : ℕ) : ℚ)
              · rw [if_pos reached]
                exact ⟨by simp [projected], same ▸ reached, below⟩
              · rw [if_neg reached]
                exact ⟨same.symm, fun _ => same ▸ not_le.mp reached⟩

namespace Stops

theorem le_of_stops {other : Nat} (stops : Stops E budget window stop)
    (again : Stops E budget window other) : other ≤ stop := by
  by_contra later
  have after : stop + 1 ≤ other := Nat.lt_of_not_le later
  have small := stops.before (hasMessageFrom_of_message again.message after)
  have grows : ((suffixTokens E window other : ℕ) : ℚ) ≤ suffixTokens E window (stop + 1) :=
    Nat.cast_le.mpr (suffixTokens_antitone window after)
  exact absurd (again.reached.trans grows) (not_le.mpr small)

/-- There is one stop, and the walk finds it. -/
theorem walkBack_eq (stops : Stops E budget window stop) :
    (walkBack E budget window).1 = some stop := by
  have spec := walkBack_spec E budget window
  generalize walkBack E budget window = result at spec ⊢
  obtain ⟨found, tokens⟩ := result
  cases found with
  | none =>
    have small := spec.2 (hasMessageFrom_of_message stops.message (Nat.zero_le _))
    have grows : ((suffixTokens E window stop : ℕ) : ℚ) ≤ suffixTokens E window 0 :=
      Nat.cast_le.mpr (suffixTokens_antitone window (Nat.zero_le _))
    exact absurd (stops.reached.trans grows) (not_le.mpr small)
  | some other =>
    exact congrArg some (le_antisymm (stops.le_of_stops spec) (spec.le_of_stops stops))

end Stops

/-- Some budget stops the walk at a message: it is the last one, or it weighs something. -/
structure CanStop (E : Estimator) (window : List Entry) (stop : Nat) : Prop where
  message : (window[stop]?.bind compactionMessage).isSome
  weighs : HasMessageFrom window (stop + 1) →
    suffixTokens E window (stop + 1) < suffixTokens E window stop ∧
      (suffixTokens E window (stop + 1) : ℚ) < maxSafeInteger

theorem Stops.canStop (stops : Stops E budget window stop) (bounded : budget ≤ maxSafeInteger) :
    CanStop E window stop := by
  refine ⟨stops.message, fun more => ?_⟩
  have below := stops.before more
  exact ⟨by exact_mod_cast below.trans_le stops.reached, below.trans_le bounded⟩

theorem CanStop.exists_budget (can : CanStop E window stop) :
    ∃ budget ≤ maxSafeInteger, Stops E budget window stop := by
  by_cases more : HasMessageFrom window (stop + 1)
  · obtain ⟨weighs, small⟩ := can.weighs more
    refine ⟨min (suffixTokens E window stop) maxSafeInteger, min_le_right _ _, can.message,
      min_le_left _ _, fun _ => lt_min ?_ small⟩
    exact_mod_cast weighs
  · refine ⟨0, by norm_num [maxSafeInteger], can.message, Nat.cast_nonneg _, fun message => ?_⟩
    exact absurd message more

/-- The cuts of a window over all budgets, before metadata is passed over. -/
inductive CutReachable (E : Estimator) (window : List Entry) : Nat → Prop
  /-- Without a cut point the whole window is kept. -/
  | whole (none : findValidCutPoints window = []) : CutReachable E window 0
  /-- The budget is not reached: the first cut point. -/
  | first (cut : Nat) (head : (findValidCutPoints window).head? = some cut)
      (small : (suffixTokens E window 0 : ℚ) < maxSafeInteger) : CutReachable E window cut
  /-- The walk stops: the next cut point from there, or else the last one. -/
  | stop (stop cut : Nat) (can : CanStop E window stop)
      (selected : cutPointFrom (findValidCutPoints window) stop = some cut) :
      CutReachable E window cut

theorem mem_findValidCutPoints : index ∈ findValidCutPoints window ↔
    ∃ entry, window[index]? = some entry ∧ isCutPointEntry entry = true := by
  simp only [findValidCutPoints, List.mem_filter, List.mem_range, Option.any_eq_true,
    and_iff_right_iff_imp]
  rintro ⟨entry, found, _⟩
  exact (List.getElem?_eq_some_iff.mp found).1

theorem hasMessage_of_cutPoint (mem : index ∈ findValidCutPoints window) :
    HasMessageFrom window 0 := by
  obtain ⟨entry, found, isCut⟩ := mem_findValidCutPoints.mp mem
  obtain ⟨message, projected, _⟩ := (Option.any_eq_true _ _).mp isCut
  have at_ : (window[index]?.bind compactionMessage).isSome := by simp [found, projected]
  exact hasMessageFrom_of_message at_ (Nat.zero_le _)

theorem exists_cutPointFrom (some_ : findValidCutPoints window ≠ []) (stop : Nat) :
    ∃ cut, cutPointFrom (findValidCutPoints window) stop = some cut := by
  unfold cutPointFrom
  cases (findValidCutPoints window).find? fun cutPoint => stop ≤ cutPoint with
  | some cut => exact ⟨cut, rfl⟩
  | none =>
      obtain ⟨last, found⟩ := Option.ne_none_iff_exists'.mp (mt List.getLast?_eq_none_iff.mp some_)
      exact ⟨last, found⟩

/-- Every budget selects a reachable cut. -/
theorem findCutPoint_reachable (bounded : budget ≤ maxSafeInteger) :
    ∃ cut, CutReachable E window cut ∧
      (findCutPoint E window budget).firstKeptEntryIndex = moveBackOverMetadata window cut := by
  cases head : (findValidCutPoints window).head? with
  | none =>
      exact ⟨0, .whole (List.head?_eq_none_iff.mp head), by
        simp [findCutPoint, head, moveBackOverMetadata]⟩
  | some first =>
      have isCut : first ∈ findValidCutPoints window := List.mem_of_mem_head? head
      have spec := walkBack_spec E budget window
      cases walked : walkBack E budget window with
      | mk stop? tokens =>
          rw [walked] at spec
          cases stop? with
          | none =>
              refine ⟨first, .first first head
                ((spec.2 (hasMessage_of_cutPoint isCut)).trans_le bounded), ?_⟩
              simp [findCutPoint, head, walked]
          | some stop =>
              obtain ⟨cut, selected⟩ := exists_cutPointFrom (List.ne_nil_of_mem isCut) stop
              exact ⟨cut, .stop stop cut (spec.canStop bounded) selected, by
                simp [findCutPoint, head, walked, selected]⟩

/-- Every reachable cut is selected for some budget. -/
theorem CutReachable.exists_budget (reachable : CutReachable E window cut) :
    ∃ budget ≤ maxSafeInteger,
      (findCutPoint E window budget).firstKeptEntryIndex = moveBackOverMetadata window cut := by
  cases reachable with
  | whole none => exact ⟨0, by norm_num [maxSafeInteger], by simp [findCutPoint, none,
      moveBackOverMetadata]⟩
  | first cut head small =>
      refine ⟨maxSafeInteger, le_refl _, ?_⟩
      have spec := walkBack_spec E maxSafeInteger window
      cases walked : walkBack E maxSafeInteger window with
      | mk stop? tokens =>
          rw [walked] at spec
          cases stop? with
          | none => simp [findCutPoint, head, walked]
          | some stop =>
              have grows : ((suffixTokens E window stop : ℕ) : ℚ) ≤ suffixTokens E window 0 :=
                Nat.cast_le.mpr (suffixTokens_antitone window (Nat.zero_le _))
              exact absurd (spec.reached.trans grows) (not_le.mpr small)
  | stop stop cut can selected =>
      obtain ⟨budget, bounded, stops⟩ := can.exists_budget
      refine ⟨budget, bounded, ?_⟩
      cases head : (findValidCutPoints window).head? with
      | none =>
          rw [List.head?_eq_none_iff.mp head] at selected
          cases selected
      | some first => simp [findCutPoint, head, stops.walkBack_eq, selected]

/-- The settings reach every budget. -/
theorem exists_keepRecentTokens (E : Estimator) (entries : List Entry)
    (bounded : budget ≤ maxSafeInteger) :
    ∃ settings, keepRecentTokens E settings entries = budget := by
  let prelude : ℚ := totalTokens E (compactionWindow entries).resetPreludeMessages
  suffices ∃ settings : CompactionSettings, settings.keepRecentTokens /
      triggerUnitScale E settings (contextMessages entries) = budget - prelude by
    obtain ⟨settings, same⟩ := this
    refine ⟨settings, ?_⟩
    rw [keepRecentTokens, same, sub_add_cancel]
    exact min_eq_right bounded
  generalize budget - prelude = target
  by_cases small : target ≤ 1
  · refine ⟨⟨target⟩, ?_⟩
    have unit : triggerUnitScale E ⟨target⟩ (contextMessages entries) = 1 := by
      unfold triggerUnitScale
      split
      · split
        · simp [small]
        · rfl
      · rfl
    rw [unit, div_one]
  · have large : 1 ≤ target := (not_le.mp small).le
    unfold triggerUnitScale
    split
    case h_1 usageTokens _ =>
      split
      case isTrue =>
        generalize usageTokens / ((totalTokens E (contextMessages entries) : ℕ) : ℚ) = ratio
        have ratio_one : 1 ≤ max 1 ratio := le_max_left _ _
        have scaled : max 1 ratio ≤ target * max 1 ratio :=
          le_mul_of_one_le_left (zero_le_one.trans ratio_one) large
        refine ⟨⟨target * max 1 ratio⟩, ?_⟩
        rw [max_eq_right (ratio_one.trans scaled), min_eq_right scaled]
        exact mul_div_cancel_right₀ _ (zero_lt_one.trans_le ratio_one).ne'
      case isFalse => exact ⟨⟨target⟩, div_one _⟩
    case h_2 => exact ⟨⟨target⟩, div_one _⟩

section Metadata

theorem isMetadataBeforeCut_message {entry : Entry} (isMetadata : isMetadataBeforeCut entry = true) :
    compactionMessage entry = none ∧ currentMessage entry = none := by
  cases body : entry.body <;>
    simp_all [isMetadataBeforeCut, compactionMessage, currentMessage,
      Entry.projectSessionEntryMessage]

/-- Passing over metadata moves no message across the cut. -/
theorem filterMap_moveBack {α : Type} (project : Entry → Option α)
    (silent : ∀ entry, isMetadataBeforeCut entry = true → project entry = none) (cut : Nat) :
    (window.drop (moveBackOverMetadata window cut)).filterMap project =
        (window.drop cut).filterMap project ∧
      (window.take (moveBackOverMetadata window cut)).filterMap project =
        (window.take cut).filterMap project := by
  induction cut with
  | zero => exact ⟨rfl, rfl⟩
  | succ cut ih =>
      unfold moveBackOverMetadata
      split
      case isFalse => exact ⟨rfl, rfl⟩
      case isTrue isMetadata =>
        obtain ⟨entry, found, passed⟩ := (Option.any_eq_true _ _).mp isMetadata
        obtain ⟨bound, rfl⟩ := List.getElem?_eq_some_iff.mp found
        have none := silent _ passed
        rw [ih.1, ih.2]
        constructor
        · rw [List.drop_eq_getElem_cons bound, List.filterMap_cons_none none]
        · rw [List.take_succ_eq_append_getElem bound, List.filterMap_append]
          simp [none]

theorem moveBackOverMetadata_le (window : List Entry) (cut : Nat) :
    moveBackOverMetadata window cut ≤ cut := by
  induction cut with
  | zero => exact le_refl _
  | succ cut ih =>
      unfold moveBackOverMetadata
      split
      · exact Nat.le_succ_of_le ih
      · exact le_refl _

end Metadata

section Preparation

/-- Something would be summarized by a compaction at the cut. -/
def Summarizes (part : CompactionWindow) (cut : Nat) : Prop :=
  part.resetPreludeMessages ≠ [] ∨ (part.window.take cut).filterMap compactionMessage ≠ []

theorem findLastIndex_lt {α : Type*} {p : α → Bool} {xs : List α}
    (found : findLastIndex p xs = some index) : index < xs.length := by
  induction xs generalizing index with
  | nil => cases found
  | cons x xs ih =>
      unfold findLastIndex at found
      cases later : findLastIndex p xs with
      | some other =>
          rw [later] at found
          cases found
          exact Nat.succ_lt_succ (ih later)
      | none =>
          rw [later] at found
          obtain ⟨-, same⟩ := Option.ite_none_right_eq_some.mp found
          cases same
          exact Nat.succ_pos _

/-- A split turn starts at or before the cut. -/
theorem turnStartIndex_le {turnStart : Nat}
    (found : (findCutPoint E window budget).turnStartIndex = some turnStart) :
    turnStart ≤ (findCutPoint E window budget).firstKeptEntryIndex := by
  unfold findCutPoint at found ⊢
  cases head : (findValidCutPoints window).head? with
  | none => simp [head] at found
  | some first =>
      simp only [head] at found ⊢
      obtain ⟨-, found⟩ := Option.ite_none_left_eq_some.mp found
      have bound := findLastIndex_lt found
      rw [List.length_take] at bound
      omega

/-- The end of the summarized history, and the whole of what is summarized. -/
theorem summarized_eq {α : Type} (xs : List α) {historyEnd kept : Nat} (le : historyEnd ≤ kept) :
    xs.take historyEnd ++ (xs.take kept).drop historyEnd = xs.take kept := by
  have short : (xs.take kept).take historyEnd = xs.take historyEnd := by
    rw [List.take_take, min_eq_left le]
  rw [← short, List.take_append_drop]

/-- What a preparation is: a reachable cut, its entry, and all messages before it. -/
structure Prepared (E : Estimator) (entries : List Entry) (preparation : CompactionPreparation)
    (cut : Nat) : Prop where
  compactable : isCompactable entries = true
  reachable : CutReachable E (compactionWindow entries).window cut
  summarizes : Summarizes (compactionWindow entries) cut
  kept : ∃ entry, (compactionWindow entries).window[moveBackOverMetadata
    (compactionWindow entries).window cut]? = some entry ∧ preparation.firstKeptEntryId = entry.id
  messages : preparation.messagesToSummarize ++ preparation.turnPrefixMessages =
    (compactionWindow entries).resetPreludeMessages ++
      ((compactionWindow entries).window.take cut).filterMap compactionMessage

theorem compactionMessage_passed {entry : Entry} (passed : isMetadataBeforeCut entry = true) :
    compactionMessage entry = none := (isMetadataBeforeCut_message passed).1

theorem currentMessage_passed {entry : Entry} (passed : isMetadataBeforeCut entry = true) :
    currentMessage entry = none := (isMetadataBeforeCut_message passed).2

theorem historyEnd_le (E : Estimator) (budget : ℚ) (window : List Entry) :
    (findCutPoint E window budget).historyEnd ≤
      (findCutPoint E window budget).firstKeptEntryIndex := by
  unfold CutPointResult.historyEnd
  split
  case h_1 turnStart _ found => exact turnStartIndex_le found
  case h_2 => exact le_refl _

/-- What is summarized for the cut of some budget. -/
theorem summarized_messages {part : CompactionWindow} (selected :
    (findCutPoint E part.window budget).firstKeptEntryIndex =
      moveBackOverMetadata part.window cut) :
    (part.resetPreludeMessages ++ (part.window.take
        (findCutPoint E part.window budget).historyEnd).filterMap compactionMessage) ++
      ((part.window.take (findCutPoint E part.window budget).firstKeptEntryIndex).drop
        (findCutPoint E part.window budget).historyEnd).filterMap compactionMessage =
      part.resetPreludeMessages ++ (part.window.take cut).filterMap compactionMessage := by
  rw [List.append_assoc, ← List.filterMap_append, summarized_eq _ (historyEnd_le _ _ _), selected,
    (filterMap_moveBack compactionMessage (fun _ => compactionMessage_passed) cut).2]

theorem prepared_of_prepareCompaction {settings : CompactionSettings}
    {preparation : CompactionPreparation}
    (prepared : prepareCompaction E entries settings = .ok (some preparation)) :
    ∃ cut, Prepared E entries preparation cut := by
  have bounded : keepRecentTokens E settings entries ≤ maxSafeInteger := min_le_left _ _
  obtain ⟨cut, reachable, selected⟩ : ∃ cut,
      CutReachable E (compactionWindow entries).window cut ∧
        (findCutPoint E (compactionWindow entries).window (keepRecentTokens E settings
          entries)).firstKeptEntryIndex =
          moveBackOverMetadata (compactionWindow entries).window cut :=
    findCutPoint_reachable bounded
  have messages := summarized_messages selected
  unfold prepareCompaction at prepared
  split at prepared
  case isFalse => cases prepared
  case isTrue compactable =>
    dsimp only at prepared
    split at prepared
    case h_1 => cases prepared
    case h_2 entry found =>
      split at prepared
      case isTrue => cases prepared
      case isFalse =>
        split at prepared
        case isTrue => cases prepared
        case isFalse some_ =>
          cases prepared
          refine ⟨cut, compactable, reachable, ?_, ⟨entry, selected ▸ found, rfl⟩, messages⟩
          rw [Summarizes, ← not_and_or, ← List.append_eq_nil_iff, ← messages]
          rwa [← List.append_eq_nil_iff] at some_

/-- Every reachable cut with something before it is prepared under some settings. -/
theorem exists_preparation (path : SessionPath) (compactable : isCompactable path.entries = true)
    (reachable : CutReachable E (compactionWindow path.entries).window cut)
    (summarizes : Summarizes (compactionWindow path.entries) cut) {entry : Entry}
    (found : (compactionWindow path.entries).window[moveBackOverMetadata
      (compactionWindow path.entries).window cut]? = some entry) (named : entry.id ≠ "") :
    ∃ settings preparation, prepareCompaction E path.entries settings = .ok (some preparation) ∧
      preparation.firstKeptEntryId = entry.id := by
  obtain ⟨budget, bounded, selected⟩ := reachable.exists_budget
  obtain ⟨settings, rfl⟩ := exists_keepRecentTokens E path.entries bounded
  have messages := summarized_messages selected
  rw [← selected] at found
  have some_ := summarizes
  rw [Summarizes, ← not_and_or, ← List.append_eq_nil_iff, ← messages, List.append_eq_nil_iff] at some_
  refine ⟨settings, ?_⟩
  unfold prepareCompaction
  simp only [compactable, if_true, found, if_neg named]
  rw [if_neg some_]
  exact ⟨_, rfl, rfl⟩

end Preparation
end Compaction
