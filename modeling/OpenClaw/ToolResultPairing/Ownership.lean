import OpenClaw.ToolResultPairing.Displaced

/-!
The classification of a whole transcript. The frames cut the transcript from the first assistant
message with tool calls on, so the results that the loops account for are the results after it:
each is owned by one occurrence, dropped once, or left in its frame.
-/

namespace OpenClaw.ToolResultPairing

variable {preserveUnframed : Bool} {messages : List Message}

/-! The bounds of the frames. -/

section Bounds

variable {starts : List Nat} {end_ start : Nat} {bounds : Nat × Nat}

theorem mem_frameBounds (mem : bounds ∈ frameBounds end_ starts) : bounds.1 ∈ starts := by
  induction starts using frameBounds.induct with
  | case1 => cases mem
  | case2 start => simp_all [frameBounds]
  | case3 start next rest ih =>
      rw [frameBounds] at mem
      rcases List.mem_cons.mp mem with rfl | later
      · exact List.mem_cons_self
      · exact List.mem_cons_of_mem _ (ih later)

theorem map_fst_frameBounds : (frameBounds end_ starts).map Prod.fst = starts := by
  induction starts using frameBounds.induct with
  | case1 => rfl
  | case2 start => rfl
  | case3 start next rest ih => rw [frameBounds, List.map_cons, ih]

/-- The frames cut the places behind the first start. -/
theorem flatMap_frameBounds {p : Nat → Bool} (increasing : (start :: starts).Pairwise (· < ·))
    (inside : ∀ s ∈ start :: starts, s < end_) (skips : ∀ s ∈ starts, p s = false) :
    ((frameBounds end_ (start :: starts)).flatMap fun bounds =>
      (List.range' (bounds.1 + 1) (bounds.2 - (bounds.1 + 1))).filter p) =
        (List.range' (start + 1) (end_ - (start + 1))).filter p := by
  induction starts generalizing start with
  | nil => simp [frameBounds]
  | cons next rest ih =>
      obtain ⟨first, increasing'⟩ := List.pairwise_cons.mp increasing
      have before : start < next := first next List.mem_cons_self
      have within : next < end_ := inside next (by simp)
      rw [frameBounds, List.flatMap_cons, ih increasing'
        (fun s mem => inside s (List.mem_cons_of_mem _ mem))
        (fun s mem => skips s (List.mem_cons_of_mem _ mem))]
      have cut : List.range' (start + 1) (end_ - (start + 1)) =
          List.range' (start + 1) (next - (start + 1)) ++
            next :: List.range' (next + 1) (end_ - (next + 1)) := by
        refine List.range'_eq_append_iff.mpr ⟨next - (start + 1), by omega, rfl, ?_⟩
        have here : start + 1 + (next - (start + 1)) * 1 = next := by omega
        have size : end_ - (start + 1) - (next - (start + 1)) = end_ - (next + 1) + 1 := by omega
        rw [here, size, List.range'_succ]
      rw [cut, List.filter_append, List.filter_cons_of_neg (by simp [skips next List.mem_cons_self])]

end Bounds

/-! The frames of a transcript. -/

theorem mem_frameStartIndexes {i : Nat} : i ∈ frameStartIndexes messages ↔
    ∃ message, messages[i]? = some message ∧ message.toolCalls ≠ [] := by
  simp only [frameStartIndexes, List.mem_map, List.mem_filter, Prod.exists, decide_eq_true_eq,
    List.mem_zipIdx_iff_getElem?]
  constructor
  · rintro ⟨message, _, ⟨found, calls⟩, rfl⟩
    exact ⟨message, found, calls⟩
  · rintro ⟨message, found, calls⟩
    exact ⟨message, i, ⟨found, calls⟩, rfl⟩

theorem pairwise_frameStartIndexes : (frameStartIndexes messages).Pairwise (· < ·) := by
  have places : (messages.zipIdx.map Prod.snd).Pairwise (· < ·) := by
    rw [List.zipIdx_map_snd]
    exact List.pairwise_lt_range'
  exact places.sublist (List.filter_sublist.map _)

/-- Only an assistant message has tool calls. -/
theorem assistant_of_toolCalls {message : Message} (calls : message.toolCalls ≠ []) :
    ∃ assistant, message = .assistant assistant := by
  cases message with
  | assistant assistant => exact ⟨assistant, rfl⟩
  | _ => exact absurd rfl calls

/-- There is a tool result at a place. -/
def isResultAt (messages : List Message) (i : Nat) : Bool := messages[i]?.any Message.isToolResult

theorem isResultAt_start {i : Nat} (mem : i ∈ frameStartIndexes messages) :
    isResultAt messages i = false := by
  obtain ⟨message, found, calls⟩ := mem_frameStartIndexes.mp mem
  obtain ⟨assistant, rfl⟩ := assistant_of_toolCalls calls
  rw [isResultAt, found]
  rfl

theorem resultIndexes_messagesBetween (startIndex endIndex : Nat) :
    resultIndexes (messagesBetween messages startIndex endIndex) =
      (List.range' (startIndex + 1) (endIndex - (startIndex + 1))).filter (isResultAt messages) := by
  unfold messagesBetween resultIndexes
  induction List.range' (startIndex + 1) (endIndex - (startIndex + 1)) with
  | nil => rfl
  | cons i rest ih =>
      cases found : messages[i]? with
      | none => simp_all [isResultAt]
      | some message => cases result : message.isToolResult <;> simp_all [isResultAt]

theorem mem_messagesBetween {startIndex endIndex i : Nat} {message : Message} :
    (message, i) ∈ messagesBetween messages startIndex endIndex ↔
      startIndex < i ∧ i < endIndex ∧ messages[i]? = some message := by
  simp only [messagesBetween, List.mem_filterMap, List.mem_range'_1, Option.map_eq_some_iff,
    Prod.mk.injEq]
  constructor
  · rintro ⟨_, ⟨after, before⟩, _, found, rfl, rfl⟩
    exact ⟨after, by omega, found⟩
  · rintro ⟨after, before, found⟩
    exact ⟨i, ⟨after, by omega⟩, message, found, rfl, rfl⟩

/-- The places of the tool results behind the first assistant message with tool calls. -/
def resultsInFrames (messages : List Message) : List Nat :=
  (List.range messages.length).filter fun i =>
    isResultAt messages i && (frameStartIndexes messages).any fun start => start < i

theorem nodup_resultsInFrames : (resultsInFrames messages).Nodup := List.nodup_range.filter _

theorem flatMap_bounds : ((frameBounds messages.length (frameStartIndexes messages)).flatMap
    fun bounds => resultIndexes (messagesBetween messages bounds.1 bounds.2)) =
      resultsInFrames messages := by
  have increasing := @pairwise_frameStartIndexes messages
  have inside : ∀ s ∈ frameStartIndexes messages, s < messages.length := fun s mem => by
    obtain ⟨_, found, _⟩ := mem_frameStartIndexes.mp mem
    exact (List.getElem?_eq_some_iff.mp found).1
  have skips : ∀ s ∈ frameStartIndexes messages, isResultAt messages s = false :=
    fun _ => isResultAt_start
  simp only [resultIndexes_messagesBetween]
  unfold resultsInFrames
  generalize frameStartIndexes messages = starts at increasing inside skips
  cases starts with
  | nil => simp [frameBounds]
  | cons start rest =>
      rw [flatMap_frameBounds increasing inside fun s mem => skips s (List.mem_cons_of_mem _ mem)]
      have within := inside start List.mem_cons_self
      have first := (List.pairwise_cons.mp increasing).1
      have cut : List.range messages.length = List.range' 0 (start + 1) ++
          List.range' (start + 1) (messages.length - (start + 1)) := by
        rw [List.range_eq_range']
        exact List.range'_eq_append_iff.mpr ⟨start + 1, within, rfl, by simp⟩
      rw [cut, List.filter_append]
      have early : (List.range' 0 (start + 1)).filter (fun i =>
          isResultAt messages i && (start :: rest).any fun s => s < i) = [] := by
        refine List.filter_eq_nil_iff.mpr fun i mem => ?_
        obtain ⟨-, below⟩ := List.mem_range'_1.mp mem
        simp only [Bool.and_eq_true, List.any_eq_true, decide_eq_true_eq, not_and, not_exists]
        intro _ s known before
        rcases List.mem_cons.mp known with rfl | later
        · omega
        · have := first s later
          omega
      rw [early, List.nil_append]
      refine (List.filter_congr fun i mem => ?_).symm
      obtain ⟨above, -⟩ := List.mem_range'_1.mp mem
      have known : (start :: rest).any (fun s => decide (s < i)) = true :=
        List.any_eq_true.mpr ⟨start, List.mem_cons_self, decide_eq_true above⟩
      rw [known, Bool.and_true]

/-- A frame and its loop, as the classification starts with them. -/
structure Record (preserveUnframed : Bool) (messages : List Message) (bounds : Nat × Nat)
    (record : ToolUsePairingFrame × FrameScan) : Prop where
  bounds : (record.1.startIndex, record.1.endIndex) = bounds
  assistant : messages[record.1.startIndex]? = some (.assistant record.1.assistant)
  occurrences : record.1.occurrences = record.2.occurrences
  unclaimedResults : record.1.unclaimedResults = record.2.unclaimedResults
  remainder : record.1.remainder = record.2.remainder
  sound : record.2.Sound preserveUnframed record.1.toolCalls (record.1.seen messages)

theorem record_of_frameRecord {bounds : Nat × Nat} {record : ToolUsePairingFrame × FrameScan}
    (made : frameRecord preserveUnframed messages bounds = some record) :
    Record preserveUnframed messages bounds record := by
  unfold frameRecord at made
  split at made
  · next assistant found =>
      cases made
      exact ⟨rfl, found, rfl, rfl, rfl, sound_scanFrame messages _ bounds⟩
  · cases made

/-- Every start has a frame. -/
theorem exists_frameRecord {bounds : Nat × Nat}
    (mem : bounds ∈ frameBounds messages.length (frameStartIndexes messages)) :
    ∃ record, frameRecord preserveUnframed messages bounds = some record := by
  obtain ⟨message, found, calls⟩ := mem_frameStartIndexes.mp (mem_frameBounds mem)
  obtain ⟨assistant, rfl⟩ := assistant_of_toolCalls calls
  unfold frameRecord
  rw [found]
  exact ⟨_, rfl⟩

theorem map_bounds_frameRecords :
    ((frameRecords preserveUnframed messages).map fun record =>
      (record.1.startIndex, record.1.endIndex)) =
        frameBounds messages.length (frameStartIndexes messages) := by
  have all : ∀ bounds ∈ frameBounds messages.length (frameStartIndexes messages),
      (frameRecord preserveUnframed messages bounds).map (fun record =>
        (record.1.startIndex, record.1.endIndex)) = some bounds := fun bounds mem => by
    obtain ⟨record, made⟩ := @exists_frameRecord preserveUnframed _ _ mem
    rw [made, Option.map_some, (record_of_frameRecord made).bounds]
  rw [frameRecords, List.map_filterMap]
  calc
    _ = (frameBounds messages.length (frameStartIndexes messages)).filterMap some :=
      List.filterMap_congr all
    _ = _ := List.filterMap_some

theorem record_of_mem {record : ToolUsePairingFrame × FrameScan}
    (mem : record ∈ frameRecords preserveUnframed messages) :
    ∃ bounds, Record preserveUnframed messages bounds record := by
  obtain ⟨bounds, -, made⟩ := List.mem_filterMap.mp mem
  exact ⟨bounds, record_of_frameRecord made⟩

/-- The frames that the displaced results are given out among. -/
def initialFrames (preserveUnframed : Bool) (messages : List Message) : List ToolUsePairingFrame :=
  (frameRecords preserveUnframed messages).map Prod.fst

theorem framesResults_initial :
    framesResults messages (initialFrames preserveUnframed messages) = resultsInFrames messages := by
  rw [← flatMap_bounds, ← @map_bounds_frameRecords preserveUnframed]
  simp only [framesResults, initialFrames, List.flatMap_map, ToolUsePairingFrame.seen]

theorem nodup_seen (frame : ToolUsePairingFrame) : (resultIndexes (frame.seen messages)).Nodup := by
  rw [ToolUsePairingFrame.seen, resultIndexes_messagesBetween]
  exact (List.Pairwise.imp Nat.ne_of_lt List.pairwise_lt_range').filter _

theorem Record.scanned {bounds : Nat × Nat} {record : ToolUsePairingFrame × FrameScan}
    (made : Record preserveUnframed messages bounds record) :
    record.1.Scanned preserveUnframed messages where
  calls := made.occurrences ▸ made.sound.calls
  owned := made.occurrences ▸ made.sound.owned
  displaced := made.unclaimedResults ▸ made.sound.unclaimed
  distinct := by
    refine List.nodup_iff_count_le_one.mpr fun i => ?_
    have kept := made.sound.conserved i
    have once := List.nodup_iff_count_le_one.mp (@nodup_seen messages record.1) i
    rw [made.unclaimedResults]
    omega
  remaining := by
    rw [made.remainder, made.unclaimedResults]
    exact made.sound.remaining

/-- The loops over the frames account for every tool result behind the first start. -/
theorem conserved_frameRecords (records : List (ToolUsePairingFrame × FrameScan))
    (made : ∀ record ∈ records, ∃ bounds, Record preserveUnframed messages bounds record) (i : Nat) :
    (framesOwned (records.map Prod.fst)).count i +
      (droppedIndexes (records.flatMap fun record => record.2.droppedResults)).count i +
      (framesDisplaced (records.map Prod.fst)).count i =
        (framesResults messages (records.map Prod.fst)).count i := by
  induction records with
  | nil => rfl
  | cons record rest ih =>
      obtain ⟨bounds, here⟩ := made record List.mem_cons_self
      have later := ih fun other mem => made other (List.mem_cons_of_mem _ mem)
      have kept := here.sound.conserved i
      simp only [framesOwned, framesDisplaced, framesResults, droppedIndexes, List.map_cons,
        List.flatMap_cons, List.map_append, List.count_append, here.occurrences,
        here.unclaimedResults] at later kept ⊢
      omega

theorem remaining_frameRecords (records : List (ToolUsePairingFrame × FrameScan))
    (made : ∀ record ∈ records, ∃ bounds, Record preserveUnframed messages bounds record) :
    framesRemaining (records.map Prod.fst) =
      if preserveUnframed then framesDisplaced (records.map Prod.fst) else [] := by
  induction records with
  | nil => cases preserveUnframed <;> rfl
  | cons record rest ih =>
      obtain ⟨bounds, here⟩ := made record List.mem_cons_self
      have later := ih fun other mem => made other (List.mem_cons_of_mem _ mem)
      have remaining := here.scanned.remaining
      simp only [framesRemaining, framesDisplaced, List.map_cons, List.flatMap_cons] at later ⊢
      rw [later, remaining]
      cases preserveUnframed <;> rfl

/-- The state before the first turn. -/
theorem sound_initial : Resolution.Sound preserveUnframed messages
    (initialFrames preserveUnframed messages) 0 []
    { frames := initialFrames preserveUnframed messages
      droppedDuplicateCount := ((frameRecords preserveUnframed messages).map fun record =>
        record.2.droppedDuplicateCount).sum
      droppedResults := (frameRecords preserveUnframed messages).flatMap fun record =>
        record.2.droppedResults } := by
  have made : ∀ record ∈ frameRecords preserveUnframed messages,
      ∃ bounds, Record preserveUnframed messages bounds record := fun _ => record_of_mem
  refine
    { fixed := rfl
      untouched := fun _ _ => rfl
      owned := fun i frame found occurrence mem => ?_
      registered := fun _ _ mem => absurd mem List.not_mem_nil
      displaced := fun _ mem => absurd mem List.not_mem_nil
      distinct := .nil
      waiting := fun _ _ mem => absurd mem List.not_mem_nil
      superseded := fun dropped mem => ?_
      counted := ?_
      conserved := fun i => ?_
      remaining := fun preserve => ?_ }
  · obtain ⟨record, listed, rfl⟩ := List.mem_map.mp (List.mem_of_getElem? found)
    obtain ⟨bounds, here⟩ := made record listed
    exact (here.scanned.owned occurrence mem).imp_right fun owns => ⟨i, record.1, le_rfl, found, owns⟩
  · obtain ⟨record, listed, inside⟩ := List.mem_flatMap.mp mem
    obtain ⟨bounds, here⟩ := made record listed
    obtain ⟨i, found⟩ := List.mem_iff_getElem?.mp (List.mem_map_of_mem (f := Prod.fst) listed)
    refine ⟨i, record.1, found, ?_⟩
    rw [here.occurrences]
    exact here.sound.superseded dropped inside
  · rw [Nat.add_zero, List.length_flatMap]
    congr 1
    refine List.map_congr_left fun record mem => ?_
    obtain ⟨bounds, here⟩ := made record mem
    exact here.sound.counted
  · have kept := @conserved_frameRecords _ messages _ made i
    have remaining := @remaining_frameRecords _ messages _ made
    cases preserveUnframed with
    | false => exact kept
    | true =>
        rw [if_pos rfl] at remaining ⊢
        rw [initialFrames, remaining]
        exact kept
  · have remaining := @remaining_frameRecords _ messages _ made
    rw [preserve] at remaining
    subst preserve
    exact remaining

/-- The classification after the turns of all frames. -/
theorem sound_classify (preserveUnframed : Bool) (messages : List Message) :
    (classifyToolUseResultPairing preserveUnframed messages).Sound preserveUnframed messages
      (initialFrames preserveUnframed messages) (initialFrames preserveUnframed messages).length [] := by
  have scanned : ∀ home ∈ initialFrames preserveUnframed messages,
      home.Scanned preserveUnframed messages := fun home mem => by
    obtain ⟨record, listed, rfl⟩ := List.mem_map.mp mem
    obtain ⟨bounds, here⟩ := record_of_mem listed
    exact here.scanned
  have nodup : (framesResults messages (initialFrames preserveUnframed messages)).Nodup :=
    framesResults_initial ▸ nodup_resultsInFrames
  have turns : ∀ n, n ≤ (initialFrames preserveUnframed messages).length →
      Resolution.Sound preserveUnframed messages (initialFrames preserveUnframed messages) n []
        ((List.range n).foldl (Resolution.frameTurn preserveUnframed)
          { frames := initialFrames preserveUnframed messages
            droppedDuplicateCount := ((frameRecords preserveUnframed messages).map fun record =>
              record.2.droppedDuplicateCount).sum
            droppedResults := (frameRecords preserveUnframed messages).flatMap fun record =>
              record.2.droppedResults }) := by
    intro n
    induction n with
    | zero => exact fun _ => sound_initial
    | succ n ih =>
        intro within
        rw [List.range_succ, List.foldl_append, List.foldl_cons, List.foldl_nil]
        exact (ih (by omega)).frameTurn scanned nodup (by omega)
  have size : (initialFrames preserveUnframed messages).length =
      (frameRecords preserveUnframed messages).length := List.length_map _
  have all := turns _ le_rfl
  unfold classifyToolUseResultPairing
  dsimp only
  rw [← size]
  exact all

end OpenClaw.ToolResultPairing
