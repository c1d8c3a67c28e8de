import OpenClaw.ToolResultPairing.Frames

/-!
The displaced results of all frames: what the turn of one frame keeps. A result goes to a frame
that is not later than its own, an occurrence that holds more than a placeholder is not touched
again, and no result leaves the transcript uncounted.
-/

namespace OpenClaw.ToolResultPairing

open KeyedLists

def ToolUsePairingFrame.toolCalls (frame : ToolUsePairingFrame) : List ToolCallLike :=
  extractToolCallsFromAssistant frame.assistant

/-- The messages of the frame, from its assistant message on. -/
def ToolUsePairingFrame.seen (messages : List Message) (frame : ToolUsePairingFrame) :
    List (Message × Nat) :=
  messagesBetween messages frame.startIndex frame.endIndex

/-- The places of the messages that the occurrences of some frames own. -/
def framesOwned (frames : List ToolUsePairingFrame) : List Nat :=
  frames.flatMap fun frame => ownedIndexes frame.occurrences

/-- The places of the tool results that remain in some frames. -/
def framesRemaining (frames : List ToolUsePairingFrame) : List Nat :=
  frames.flatMap fun frame => remainingResults frame.remainder

/-- The places of the displaced results of some frames. -/
def framesDisplaced (frames : List ToolUsePairingFrame) : List Nat :=
  frames.flatMap fun frame => recordIndexes frame.unclaimedResults

/-- The places of the tool results in some frames. -/
def framesResults (messages : List Message) (frames : List ToolUsePairingFrame) : List Nat :=
  frames.flatMap fun frame => resultIndexes (frame.seen messages)

/-- What no step changes of a frame. -/
def ToolUsePairingFrame.fixed (frame : ToolUsePairingFrame) :=
  (frame.startIndex, frame.endIndex, frame.assistant, frame.failed, frame.unclaimedResults,
    frame.occurrences.map fun occurrence => (⟨occurrence.id, occurrence.name⟩ : ToolCallLike))

variable {preserveUnframed : Bool} {messages : List Message} {initial : List ToolUsePairingFrame}
  {bound : Nat} {rest : List ToolResultRecord} {state : Resolution} {record : ToolResultRecord}

/-- The occurrence of a frame owns a message of that frame or of a later one. -/
def OwnsFrom (messages : List Message) (initial : List ToolUsePairingFrame) (place : Nat)
    (occurrence : ToolCallOccurrence) : Prop :=
  ∃ i home, place ≤ i ∧ initial[i]? = some home ∧
    occurrence.Owns home.toolCalls (home.seen messages)

namespace Resolution

/-- The invariant of the turns: the frames before `bound` have had theirs, but for the displaced
results `rest` of the last of them. -/
structure Sound (preserveUnframed : Bool) (messages : List Message)
    (initial : List ToolUsePairingFrame) (bound : Nat) (rest : List ToolResultRecord)
    (state : Resolution) : Prop where
  fixed : state.frames.map ToolUsePairingFrame.fixed = initial.map ToolUsePairingFrame.fixed
  untouched : ∀ i, bound ≤ i → state.frames[i]? = initial[i]?
  owned : ∀ i frame, state.frames[i]? = some frame → ∀ occurrence ∈ frame.occurrences,
    occurrence.Unanswered ∨ OwnsFrom messages initial i occurrence
  registered : ∀ id, ∀ place ∈ itemsAt state.unresolvedById id, place.1 < bound ∧
    ∃ occurrence, state.occurrenceAt place = some occurrence ∧ occurrence.id = id
  displaced : ∀ record ∈ rest, ∃ home, initial[bound - 1]? = some home ∧
    record.Displaced home.toolCalls (home.seen messages)
  distinct : (recordIndexes rest).Nodup
  waiting : preserveUnframed = true → ∀ record ∈ rest, ∃ frame,
    state.frames[bound - 1]? = some frame ∧ record.index ∈ remainingResults frame.remainder
  superseded : ∀ dropped ∈ state.droppedResults, ∃ (i : Nat) (frame : ToolUsePairingFrame),
    state.frames[i]? = some frame ∧
      dropped.Superseded frame.toolCalls (frame.seen messages) frame.occurrences
  counted : state.droppedResults.length = state.droppedDuplicateCount + state.droppedOrphanCount
  conserved : ∀ i, (framesOwned state.frames).count i +
    (droppedIndexes state.droppedResults).count i +
    (if preserveUnframed then framesRemaining state.frames
      else recordIndexes rest ++ framesDisplaced (initial.drop bound)).count i =
        (framesResults messages initial).count i
  remaining : preserveUnframed = false → framesRemaining state.frames = []

end Resolution

/-- A frame as the loop over its messages leaves it. -/
structure ToolUsePairingFrame.Scanned (preserveUnframed : Bool) (messages : List Message)
    (frame : ToolUsePairingFrame) : Prop where
  calls : frame.occurrences.map (fun occurrence =>
    (⟨occurrence.id, occurrence.name⟩ : ToolCallLike)) = frame.toolCalls
  owned : ∀ occurrence ∈ frame.occurrences,
    occurrence.Unanswered ∨ occurrence.Owns frame.toolCalls (frame.seen messages)
  displaced : ∀ record ∈ frame.unclaimedResults,
    record.Displaced frame.toolCalls (frame.seen messages)
  distinct : (recordIndexes frame.unclaimedResults).Nodup
  remaining : remainingResults frame.remainder =
    if preserveUnframed then recordIndexes frame.unclaimedResults else []

section Frames

variable {frames : List ToolUsePairingFrame} {frame home : ToolUsePairingFrame} {i k : Nat}

theorem toolCalls_of_fixed (same : frame.fixed = home.fixed) : frame.toolCalls = home.toolCalls := by
  simp only [ToolUsePairingFrame.fixed, Prod.mk.injEq] at same
  rw [ToolUsePairingFrame.toolCalls, same.2.2.1, ToolUsePairingFrame.toolCalls]

theorem seen_of_fixed (same : frame.fixed = home.fixed) :
    frame.seen messages = home.seen messages := by
  simp only [ToolUsePairingFrame.fixed, Prod.mk.injEq] at same
  rw [ToolUsePairingFrame.seen, same.1, same.2.1, ToolUsePairingFrame.seen]

/-- The frames that have the fixed part of others are at the same places. -/
theorem getElem?_of_fixed
    (same : frames.map ToolUsePairingFrame.fixed = initial.map ToolUsePairingFrame.fixed)
    (found : frames[i]? = some frame) :
    ∃ home, initial[i]? = some home ∧ frame.fixed = home.fixed := by
  have at_ := congrArg (fun fixed => fixed[i]?) same
  simp only [List.getElem?_map, found, Option.map_some] at at_
  obtain ⟨home, found', eq⟩ := Option.map_eq_some_iff.mp at_.symm
  exact ⟨home, found', eq.symm⟩

theorem count_flatMap_modify {f : ToolUsePairingFrame → ToolUsePairingFrame}
    {g : ToolUsePairingFrame → List Nat} (found : frames[k]? = some frame) (i : Nat) :
    ((frames.modify k f).flatMap g).count i + (g frame).count i =
      (frames.flatMap g).count i + (g (f frame)).count i := by
  have same := List.perm_iff_count.mp (List.flatMap_modify (f := f) (g := g) found) i
  rwa [List.count_append, List.count_append] at same

end Frames

namespace Resolution.Sound

/-- The turn of a frame starts: its unresolved occurrences are registered. -/
theorem register {home : ToolUsePairingFrame}
    (sound : state.Sound preserveUnframed messages initial bound [])
    (found : initial[bound]? = some home) (scanned : home.Scanned preserveUnframed messages) :
    (state.register bound home.occurrences).Sound preserveUnframed messages initial (bound + 1)
      home.unclaimedResults := by
  have same : state.frames[bound]? = some home := (sound.untouched bound le_rfl).trans found
  obtain ⟨inside, here⟩ := List.getElem?_eq_some_iff.mp found
  refine
    { sound with
      untouched := fun i after => sound.untouched i (by omega)
      registered := fun id place mem => ?_
      displaced := fun record mem => ⟨home, found, scanned.displaced record mem⟩
      distinct := scanned.distinct
      waiting := fun preserve record mem => ⟨home, same, ?_⟩
      conserved := fun i => ?_ }
  · have listed := itemsAt_foldl_pushAt (m := state.unresolvedById) (k := id)
      (fun entry : ToolCallOccurrence × Nat => entry.1.result.isNone || entry.1.holdsSynthetic)
      (fun entry => entry.1.id) (fun entry => (bound, entry.2)) home.occurrences.zipIdx
    change place ∈ itemsAt (List.foldl _ _ _) id at mem
    rw [listed] at mem
    rcases List.mem_append.mp mem with old | new
    · obtain ⟨before, known⟩ := sound.registered id place old
      exact ⟨by omega, known⟩
    · obtain ⟨⟨occurrence, at_⟩, isNew, rfl⟩ := List.mem_map.mp new
      obtain ⟨mem', counts⟩ := List.mem_filter.mp isNew
      have occurs := List.mem_zipIdx_iff_getElem?.mp mem'
      refine ⟨Nat.lt_succ_self _, occurrence, ?_, ?_⟩
      · change (state.frames[bound]?.bind fun frame => frame.occurrences[at_]?) = some occurrence
        rw [same]
        exact occurs
      · simpa using (Bool.and_eq_true_iff.mp counts).2.symm
  · rw [scanned.remaining, if_pos preserve]
    exact List.mem_map_of_mem mem
  · have kept := sound.conserved i
    cases preserveUnframed with
    | true => exact kept
    | false =>
        rw [List.drop_eq_getElem_cons inside, here] at kept
        exact kept

/-- A result that no occurrence takes stays where it is, or it is dropped. -/
theorem orphan (initial_ : ∀ home ∈ initial, home.Scanned preserveUnframed messages)
    (sound : state.Sound preserveUnframed messages initial bound (record :: rest)) :
    (state.orphan preserveUnframed record).Sound preserveUnframed messages initial bound rest := by
  obtain ⟨home, found, displaced⟩ := sound.displaced record List.mem_cons_self
  have passed : Resolution.Sound true messages initial bound (record :: rest) state →
      Resolution.Sound true messages initial bound rest state := fun sound =>
    { sound with
      displaced := fun other mem => sound.displaced other (List.mem_cons_of_mem _ mem)
      distinct := (List.nodup_cons.mp sound.distinct).2
      waiting := fun preserve other mem => sound.waiting preserve other (List.mem_cons_of_mem _ mem)
      conserved := sound.conserved }
  cases preserveUnframed with
  | true => exact passed sound
  | false =>
      refine
        { sound with
          displaced := fun other mem => sound.displaced other (List.mem_cons_of_mem _ mem)
          distinct := (List.nodup_cons.mp sound.distinct).2
          waiting := fun preserve => absurd preserve Bool.false_ne_true
          superseded := fun dropped mem => ?_
          counted := ?_
          conserved := fun i => ?_ }
      · rcases List.mem_append.mp mem with old | last
        · exact sound.superseded dropped old
        · cases List.mem_singleton.mp last
          have at_ := congrArg (fun fixed => fixed[bound - 1]?) sound.fixed
          simp only [List.getElem?_map, found, Option.map_some] at at_
          obtain ⟨frame, here, same⟩ := Option.map_eq_some_iff.mp at_
          refine ⟨bound - 1, frame, here, ?_, fun _ occurrence inside named => ?_⟩
          · rw [seen_of_fixed same]
            exact displaced.mem
          · have calls : frame.occurrences.map (fun occurrence =>
                (⟨occurrence.id, occurrence.name⟩ : ToolCallLike)) = home.toolCalls := by
              simp only [ToolUsePairingFrame.fixed, Prod.mk.injEq] at same
              exact same.2.2.2.2.2.trans (initial_ home (List.mem_of_getElem? found)).calls
            refine absurd ?_ (displaced.foreign _ (calls ▸ List.mem_map_of_mem inside))
            rw [displaced.id, displaced.result, ← toolCalls_of_fixed same]
            exact named
      · have counted := sound.counted
        simp only [Resolution.orphan, Bool.false_eq_true, if_false, List.length_append,
          List.length_singleton]
        omega
      · have kept := sound.conserved i
        simp only [Resolution.orphan, Bool.false_eq_true, if_false, droppedIndexes, recordIndexes,
          List.map_append, List.map_cons, List.map_nil, List.cons_append, List.count_append,
          List.count_cons, List.count_nil] at kept ⊢
        omega

end Resolution.Sound

/-! The frames after a displaced result found its owner. -/

section Adoption

variable {frames : List ToolUsePairingFrame} {frame : ToolUsePairingFrame} {i turn : Nat}
  {place : Nat × Nat}

/-- The frame of the owner gives the result to the occurrence. -/
def ToolUsePairingFrame.give (place : Nat) (record : ToolResultRecord) (frame : ToolUsePairingFrame) :
    ToolUsePairingFrame :=
  { frame with
    occurrences := frame.occurrences.modify place
      (.own record.result record.sourceResult record.index) }

/-- The frame of the result no longer keeps it among its other messages. -/
def ToolUsePairingFrame.withdraw (record : ToolResultRecord) (frame : ToolUsePairingFrame) :
    ToolUsePairingFrame :=
  { frame with remainder := frame.remainder.filter fun entry => entry.1 ≠ record.index }

def adoptedFrames (preserveUnframed : Bool) (turn : Nat) (record : ToolResultRecord)
    (place : Nat × Nat) (frames : List ToolUsePairingFrame) : List ToolUsePairingFrame :=
  if preserveUnframed then (frames.modify place.1 (.give place.2 record)).modify turn (.withdraw record)
  else frames.modify place.1 (.give place.2 record)

theorem frames_adopt (candidate : ToolCallOccurrence) :
    (state.adopt preserveUnframed turn record place candidate).frames =
      adoptedFrames preserveUnframed turn record place state.frames := by
  cases preserveUnframed <;> rfl

theorem fixed_give (frame : ToolUsePairingFrame) : (frame.give place.2 record).fixed = frame.fixed := by
  unfold ToolUsePairingFrame.fixed ToolUsePairingFrame.give
  dsimp only
  rw [calls_modify_own]

theorem fixed_withdraw (frame : ToolUsePairingFrame) : (frame.withdraw record).fixed = frame.fixed :=
  rfl

theorem fixed_adoptedFrames :
    (adoptedFrames preserveUnframed turn record place frames).map ToolUsePairingFrame.fixed =
      frames.map ToolUsePairingFrame.fixed := by
  unfold adoptedFrames
  split
  · exact (List.map_modify_of_same fixed_withdraw).trans (List.map_modify_of_same fixed_give)
  · exact List.map_modify_of_same fixed_give

/-- A frame after the adoption, by what it was before. -/
theorem getElem?_adoptedFrames :
    (adoptedFrames preserveUnframed turn record place frames)[i]? = (frames[i]?).map fun frame =>
      let given := if place.1 = i then frame.give place.2 record else frame
      if preserveUnframed = true ∧ turn = i then given.withdraw record else given := by
  unfold adoptedFrames
  cases preserveUnframed with
  | false => simp [List.getElem?_modify]
  | true =>
      simp only [if_true, List.getElem?_modify, true_and]
      cases frames[i]? with
      | none => rfl
      | some frame => rfl

/-- Only the occurrence that takes the result is not what it was. -/
theorem occurrences_adoptedFrames
    (found : (adoptedFrames preserveUnframed turn record place frames)[i]? = some frame) :
    ∃ before, frames[i]? = some before ∧ frame.fixed = before.fixed ∧
      frame.occurrences = if place.1 = i then before.occurrences.modify place.2
        (.own record.result record.sourceResult record.index) else before.occurrences := by
  rw [getElem?_adoptedFrames] at found
  obtain ⟨before, at_, rfl⟩ := Option.map_eq_some_iff.mp found
  refine ⟨before, at_, ?_, ?_⟩
  · by_cases owner : place.1 = i
    · simp only [owner, if_true]
      split <;> exact @fixed_give _ place before
    · simp only [owner, if_false]
      split <;> rfl
  · by_cases owner : place.1 = i
    · simp only [owner, if_true]
      split <;> rfl
    · simp only [owner, if_false]
      split <;> rfl

theorem count_framesOwned_adopted {candidate : ToolCallOccurrence}
    (found : frames[place.1]? = some frame) (at_ : frame.occurrences[place.2]? = some candidate)
    (i : Nat) :
    (framesOwned (adoptedFrames preserveUnframed turn record place frames)).count i +
      candidate.sourceResultIndex.toList.count i =
        (framesOwned frames).count i + [record.index].count i := by
  have given := count_flatMap_modify (f := .give place.2 record)
    (g := fun frame => ownedIndexes frame.occurrences) found i
  have gave := @count_ownedIndexes_modify_own record.sourceResult record.result record.index _ _ _
    at_ i
  have owned : framesOwned (adoptedFrames preserveUnframed turn record place frames) =
      framesOwned (frames.modify place.1 (.give place.2 record)) := by
    unfold adoptedFrames framesOwned
    split
    · exact List.flatMap_modify_of_same (f := ToolUsePairingFrame.withdraw record) fun _ => rfl
    · rfl
  rw [owned]
  change (framesOwned _).count i + _ = (framesOwned frames).count i +
    (ownedIndexes (frame.occurrences.modify place.2 _)).count i at given
  omega

theorem remainingResults_withdraw (frame : ToolUsePairingFrame) :
    remainingResults (frame.withdraw record).remainder =
      (remainingResults frame.remainder).filter fun i => i ≠ record.index := by
  simp only [remainingResults, ToolUsePairingFrame.withdraw, List.filter_map, List.filter_filter]
  congr 1
  apply List.filter_congr
  intro entry _
  exact Bool.and_comm _ _

/-- A result that was given away remains no more. -/
theorem count_framesRemaining_adopted (found : frames[turn]? = some frame)
    (once : (framesRemaining frames).count record.index ≤ 1)
    (mem : record.index ∈ remainingResults frame.remainder) (i : Nat) :
    (framesRemaining (adoptedFrames true turn record place frames)).count i + [record.index].count i =
      (framesRemaining frames).count i := by
  have given : framesRemaining (frames.modify place.1 (.give place.2 record)) = framesRemaining frames :=
    List.flatMap_modify_of_same (f := ToolUsePairingFrame.give place.2 record) fun _ => rfl
  obtain ⟨frame', found', same⟩ : ∃ frame', (frames.modify place.1
      (.give place.2 record))[turn]? = some frame' ∧ frame'.remainder = frame.remainder := by
    rw [List.getElem?_modify, found]
    by_cases here : place.1 = turn <;> simp [here, ToolUsePairingFrame.give]
  have withdrawn := count_flatMap_modify (f := .withdraw record)
    (g := fun frame => remainingResults frame.remainder) found' i
  have here := List.count_pos_iff.mpr mem
  have part : (remainingResults frame.remainder).Sublist (framesRemaining frames) := by
    rw [framesRemaining, List.flatMap_def]
    exact List.sublist_flatten_of_mem (List.mem_map_of_mem (List.mem_of_getElem? found))
  have within := part.count_le record.index
  rw [remainingResults_withdraw, same] at withdrawn
  change (framesRemaining (adoptedFrames true turn record place frames)).count i + _ =
    (framesRemaining (frames.modify place.1 (.give place.2 record))).count i + _ at withdrawn
  rw [given] at withdrawn
  by_cases own : i = record.index
  · subst own
    have gone : ((remainingResults frame.remainder).filter fun j => j ≠ record.index).count
        record.index = 0 := List.count_eq_zero.mpr (by simp)
    rw [gone] at withdrawn
    rw [List.count_singleton_self]
    omega
  · rw [List.count_filter (by simpa using own)] at withdrawn
    have apart : [record.index].count i = 0 := List.count_eq_zero.mpr (by simpa using own)
    omega

end Adoption

theorem occurrence_of_fixed {later : List ToolUsePairingFrame} {frame : ToolUsePairingFrame} {i j : Nat}
    {occurrence : ToolCallOccurrence}
    (same : later.map ToolUsePairingFrame.fixed = initial.map ToolUsePairingFrame.fixed)
    (found : initial[i]? = some frame) (at_ : frame.occurrences[j]? = some occurrence) :
    ∃ frame' occurrence', later[i]? = some frame' ∧ frame'.occurrences[j]? = some occurrence' ∧
      occurrence'.id = occurrence.id := by
  obtain ⟨frame', found', eq⟩ := getElem?_of_fixed same.symm found
  simp only [ToolUsePairingFrame.fixed, Prod.mk.injEq] at eq
  have calls := congrArg (fun calls => calls[j]?) eq.2.2.2.2.2
  simp only [List.getElem?_map, at_, Option.map_some] at calls
  obtain ⟨occurrence', at', names⟩ := Option.map_eq_some_iff.mp calls.symm
  exact ⟨frame', occurrence', found', at', congrArg ToolCallLike.id names⟩

/-- What an occurrence gives up that is not settled: nothing, or the placeholder it owns. -/
theorem gives_up {place : Nat} {candidate : ToolCallOccurrence} (fallback : Nat)
    (owned : candidate.Unanswered ∨ OwnsFrom messages initial place candidate)
    (open_ : ¬ candidate.Settled) :
    (candidate.result.isSome = false ∧ candidate.holdsSynthetic = false ∧
      candidate.sourceResultIndex = none) ∨
    (candidate.result.isSome = true ∧ candidate.holdsSynthetic = true ∧
      ∃ (j : Nat) (home : ToolUsePairingFrame) (source : ToolResultMessage) (index : Nat),
        initial[j]? = some home ∧ (Message.toolResult source, index) ∈ home.seen messages ∧
        candidate.sourceResultIndex = some index ∧
        candidate.discarded fallback = [⟨source, index⟩] ∧
        (source.normalizeLegacyToolResultId home.toolCalls).isSyntheticMissingToolResult = true) := by
  rcases owned with unanswered | ⟨j, home, -, found, owns⟩
  · refine .inl ⟨?_, ?_, unanswered.2.2⟩
    · rw [unanswered.1, Option.isSome_none]
    · rw [ToolCallOccurrence.holdsSynthetic, unanswered.1, Option.any_none]
  · obtain ⟨source, index, mem, owned', discarded, synthetic⟩ := owns.discarded fallback
    have answered : candidate.result.isNone = false := by
      obtain ⟨_, _, _, same, _⟩ := owns
      rw [same, ToolCallOccurrence.isNone_own]
    have holds : candidate.holdsSynthetic = true :=
      Bool.eq_true_of_not_eq_false fun real => open_ ⟨answered, real⟩
    refine .inr ⟨?_, holds, j, home, source, index, found, mem, owned', discarded,
      synthetic ▸ holds⟩
    rw [← Option.not_isNone, answered]
    rfl

namespace Resolution.Sound

/-- The displaced result goes to an occurrence that holds at most a placeholder. -/
theorem adopt {place : Nat × Nat} {candidate : ToolCallOccurrence} {id : String}
    (nodup : (framesResults messages initial).Nodup)
    (sound : state.Sound preserveUnframed messages initial bound (record :: rest))
    (named : record.id = some id) (listed : place ∈ itemsAt state.unresolvedById id)
    (at_ : state.occurrenceAt place = some candidate) (accepts : accepts record candidate = true) :
    (state.adopt preserveUnframed (bound - 1) record place candidate).Sound preserveUnframed messages
      initial bound rest := by
  obtain ⟨home, found, displaced⟩ := sound.displaced record List.mem_cons_self
  obtain ⟨before, occurrence, at', sameId⟩ := sound.registered id place listed
  cases at_.symm.trans at'
  obtain ⟨owner, ownerAt, inOwner⟩ := Option.bind_eq_some_iff.mp at_
  have open_ : ¬ candidate.Settled := by
    rintro ⟨answered, real⟩
    simp [Resolution.accepts, answered, real] at accepts
  have frames := @frames_adopt preserveUnframed state record (bound - 1) place candidate
  have given := gives_up record.index (sound.owned place.1 owner ownerAt candidate
    (List.mem_of_getElem? inOwner)) open_
  have untouched : ∀ i, bound ≤ i → (state.adopt preserveUnframed (bound - 1) record place
      candidate).frames[i]? = initial[i]? := fun i after => by
    rw [frames, getElem?_adoptedFrames, ← sound.untouched i after]
    have other : place.1 ≠ i := by omega
    have later : ¬ (preserveUnframed = true ∧ bound - 1 = i) := by omega
    simp only [other, later, if_false, Option.map_id']
  refine
    { fixed := frames ▸ fixed_adoptedFrames.trans sound.fixed
      untouched := untouched
      owned := fun i frame here other mem => ?_
      registered := fun other at_ mem => ?_
      displaced := fun other mem => sound.displaced other (List.mem_cons_of_mem _ mem)
      distinct := (List.nodup_cons.mp sound.distinct).2
      waiting := fun preserve other mem => ?_
      superseded := fun dropped mem => ?_
      counted := ?_
      conserved := fun i => ?_
      remaining := fun preserve => ?_ }
  · rw [frames] at here
    obtain ⟨was, wasAt, -, occurrences⟩ := occurrences_adoptedFrames here
    rw [occurrences] at mem
    by_cases here' : place.1 = i
    · subst here'
      cases ownerAt.symm.trans wasAt
      rw [if_pos rfl] at mem
      rcases mem_modify_own inOwner mem with old | rfl
      · exact sound.owned place.1 owner ownerAt other old
      · have answers := displaced.id.symm.trans (named.trans (congrArg some sameId.symm))
        rw [displaced.result] at answers ⊢
        exact .inr ⟨bound - 1, home, by omega, found, .own_of_mem displaced.mem answers⟩
    · rw [if_neg here'] at mem
      exact sound.owned i was wasAt other mem
  · have same : (state.adopt preserveUnframed (bound - 1) record place candidate).unresolvedById =
        state.unresolvedById := by cases preserveUnframed <;> rfl
    obtain ⟨before', occurrence, at', sameId'⟩ := sound.registered other at_ (same ▸ mem)
    obtain ⟨frame, frameAt, inside⟩ := Option.bind_eq_some_iff.mp at'
    obtain ⟨frame', occurrence', frameAt', inside', ids⟩ := occurrence_of_fixed
      (frames ▸ fixed_adoptedFrames) frameAt inside
    refine ⟨before', occurrence', ?_, ids.trans sameId'⟩
    rw [Resolution.occurrenceAt, frameAt']
    exact inside'
  · obtain ⟨frame, frameAt, inside⟩ := sound.waiting preserve other (List.mem_cons_of_mem _ mem)
    have apart : other.index ≠ record.index := fun same =>
      (List.nodup_cons.mp sound.distinct).1 (same ▸ List.mem_map_of_mem mem)
    rw [frames, getElem?_adoptedFrames, frameAt]
    refine ⟨_, rfl, ?_⟩
    dsimp only
    rw [if_pos ⟨preserve, rfl⟩, remainingResults_withdraw]
    refine List.mem_filter.mpr ⟨?_, by simpa using apart⟩
    split <;> exact inside
  · have listed' : dropped ∈ state.droppedResults ++
        if candidate.holdsSynthetic then candidate.discarded record.index else [] := by
      cases preserveUnframed <;> exact mem
    rcases List.mem_append.mp listed' with old | new
    · obtain ⟨i, was, wasAt, superseded⟩ := sound.superseded dropped old
      obtain ⟨frame, frameAt, same⟩ := getElem?_of_fixed
        (@fixed_adoptedFrames preserveUnframed record _ (bound - 1) place).symm wasAt
      obtain ⟨was', wasAt', -, occurrences⟩ := occurrences_adoptedFrames frameAt
      cases wasAt.symm.trans wasAt'
      refine ⟨i, frame, frames ▸ frameAt, ?_⟩
      rw [← toolCalls_of_fixed same, ← seen_of_fixed same, occurrences]
      by_cases here : place.1 = i
      · subst here
        cases ownerAt.symm.trans wasAt
        rw [if_pos rfl]
        exact superseded.modify_own (fun _ mem => mem) inOwner open_
      · rw [if_neg here]
        exact superseded
    · rcases given with ⟨-, none, -⟩ | ⟨-, holds, j, home', source, index, found', mem', -, gone, real⟩
      · rw [none] at new
        exact absurd new List.not_mem_nil
      · rw [holds, if_pos rfl, gone] at new
        cases List.mem_singleton.mp new
        obtain ⟨frame, frameAt, same⟩ := getElem?_of_fixed
          (frames ▸ fixed_adoptedFrames.trans sound.fixed).symm found'
        refine ⟨j, frame, frameAt, ?_, fun unreal => ?_⟩
        · rw [← seen_of_fixed same]
          exact mem'
        · rw [← toolCalls_of_fixed same, real] at unreal
          cases unreal
  · have counted := sound.counted
    have after : (state.adopt preserveUnframed (bound - 1) record place candidate).droppedResults =
        state.droppedResults ++
          if candidate.holdsSynthetic then candidate.discarded record.index else [] := by
      cases preserveUnframed <;> rfl
    have duplicates : (state.adopt preserveUnframed (bound - 1) record place
        candidate).droppedDuplicateCount = state.droppedDuplicateCount +
          if candidate.result.isSome then 1 else 0 := by cases preserveUnframed <;> rfl
    have orphans : (state.adopt preserveUnframed (bound - 1) record place
        candidate).droppedOrphanCount = state.droppedOrphanCount := by cases preserveUnframed <;> rfl
    rw [after, duplicates, orphans]
    rcases given with ⟨none, unheld, -⟩ | ⟨some, holds, _, _, _, _, -, -, -, gone, -⟩
    · simp [none, unheld, counted]
    · simp only [some, holds, gone, if_true, List.length_append, List.length_singleton]
      omega
  · have kept := sound.conserved i
    have owned := @count_framesOwned_adopted preserveUnframed record state.frames owner (bound - 1)
      place candidate ownerAt inOwner i
    have after : (droppedIndexes (state.adopt preserveUnframed (bound - 1) record place
        candidate).droppedResults).count i = (droppedIndexes state.droppedResults).count i +
          candidate.sourceResultIndex.toList.count i := by
      have same : (state.adopt preserveUnframed (bound - 1) record place candidate).droppedResults =
          state.droppedResults ++
            if candidate.holdsSynthetic then candidate.discarded record.index else [] := by
        cases preserveUnframed <;> rfl
      rw [same, droppedIndexes, List.map_append, List.count_append]
      rcases given with ⟨-, unheld, nothing⟩ | ⟨-, holds, _, _, _, _, -, -, something, gone, -⟩
      · simp [unheld, nothing, droppedIndexes]
      · simp only [holds, gone, something, if_true]
        rfl
    rw [after, frames]
    cases preserveUnframed with
    | false =>
        have reads : (recordIndexes (record :: rest)).count i =
            (recordIndexes rest).count i + [record.index].count i := by
          rw [recordIndexes, List.map_cons, List.count_cons, recordIndexes, List.count_singleton]
        simp only [Bool.false_eq_true, if_false, List.count_append] at kept ⊢
        omega
    | true =>
        obtain ⟨frame, frameAt, inside⟩ := sound.waiting rfl record List.mem_cons_self
        have total := sound.conserved record.index
        have once := List.nodup_iff_count_le_one.mp nodup record.index
        have given := @count_framesRemaining_adopted record state.frames frame (bound - 1) place
          frameAt (by simp only [if_true] at total; omega) inside i
        simp only [if_true] at kept ⊢
        omega
  · rw [frames]
    cases preserve
    exact (List.flatMap_modify_of_same (f := ToolUsePairingFrame.give place.2 record)
      fun _ => rfl).trans (sound.remaining rfl)

/-- One displaced result of the turn. -/
theorem resolve (initial_ : ∀ home ∈ initial, home.Scanned preserveUnframed messages)
    (nodup : (framesResults messages initial).Nodup)
    (sound : state.Sound preserveUnframed messages initial bound (record :: rest)) :
    (state.resolve preserveUnframed (bound - 1) record).Sound preserveUnframed messages initial bound
      rest := by
  unfold Resolution.resolve
  split
  · next place single =>
      have mem : place ∈ state.candidates record := single ▸ List.mem_singleton_self _
      unfold Resolution.candidates at mem
      split at mem
      · cases mem
      · next id named =>
          obtain ⟨listed, accepted⟩ := List.mem_filter.mp mem
          obtain ⟨candidate, at_, accepts⟩ := (Option.any_eq_true _ _).mp accepted
          simp only [at_]
          exact sound.adopt nodup named listed at_ accepts
  · exact sound.orphan initial_

/-- The turn of a frame. -/
theorem frameTurn (initial_ : ∀ home ∈ initial, home.Scanned preserveUnframed messages)
    (nodup : (framesResults messages initial).Nodup) (inside : bound < initial.length)
    (sound : state.Sound preserveUnframed messages initial bound []) :
    (state.frameTurn preserveUnframed bound).Sound preserveUnframed messages initial (bound + 1) [] := by
  have found := List.getElem?_eq_getElem inside
  have same : state.frames[bound]? = some initial[bound] := (sound.untouched bound le_rfl).trans found
  have scanned := initial_ _ (List.getElem_mem inside)
  have step : ∀ (rest : List ToolResultRecord) (state : Resolution),
      state.Sound preserveUnframed messages initial (bound + 1) rest →
        (rest.foldl (.resolve preserveUnframed bound) state).Sound preserveUnframed messages initial
          (bound + 1) [] := by
    intro rest
    induction rest with
    | nil => exact fun _ sound => sound
    | cons record rest ih => exact fun state sound => ih _ (sound.resolve initial_ nodup)
  unfold Resolution.frameTurn
  simp only [same]
  exact step _ _ (sound.register found scanned)

end Resolution.Sound
end OpenClaw.ToolResultPairing
