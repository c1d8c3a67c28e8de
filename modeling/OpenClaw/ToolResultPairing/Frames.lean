import OpenClaw.ToolResultPairing.Classification

/-!
One frame: what the loop over its messages keeps. The open occurrences are those that the queue
holds, the placeholders those that may still be replaced, and every tool result of the frame is
owned, dropped or left unclaimed.
-/

namespace OpenClaw.ToolResultPairing

open KeyedLists

variable {toolCalls : List ToolCallLike} {seen : List (Message × Nat)} {scan : FrameScan}
  {preserveUnframed : Bool} {source normalized : ToolResultMessage} {index place : Nat}
  {occurrence : ToolCallOccurrence}

namespace ToolCallOccurrence

@[simp] theorem own_id : (own normalized source index occurrence).id = occurrence.id := rfl

@[simp] theorem own_name : (own normalized source index occurrence).name = occurrence.name := rfl

@[simp] theorem own_sourceResultIndex :
    (own normalized source index occurrence).sourceResultIndex = some index := rfl

@[simp] theorem isNone_own : (own normalized source index occurrence).result.isNone = false := rfl

@[simp] theorem holdsSynthetic_own : (own normalized source index occurrence).holdsSynthetic =
    normalized.isSyntheticMissingToolResult := by
  simp [holdsSynthetic, own]

/-- No result has been given to the occurrence. -/
def Unanswered (occurrence : ToolCallOccurrence) : Prop :=
  occurrence.result = none ∧ occurrence.sourceResult = none ∧ occurrence.sourceResultIndex = none

/-- The occurrence owns one of the messages of its frame, under its id. -/
def Owns (toolCalls : List ToolCallLike) (seen : List (Message × Nat))
    (occurrence : ToolCallOccurrence) : Prop :=
  ∃ source index, (Message.toolResult source, index) ∈ seen ∧
    occurrence = own (source.normalizeLegacyToolResultId toolCalls) source index occurrence ∧
    (source.normalizeLegacyToolResultId toolCalls).extractToolResultId = some occurrence.id

/-- The occurrence holds a result that is no placeholder. -/
def Settled (occurrence : ToolCallOccurrence) : Prop :=
  occurrence.result.isNone = false ∧ occurrence.holdsSynthetic = false

theorem Owns.own_of_mem (mem : (Message.toolResult source, index) ∈ seen)
    (named : (source.normalizeLegacyToolResultId toolCalls).extractToolResultId = some occurrence.id) :
    Owns toolCalls seen
      (own (source.normalizeLegacyToolResultId toolCalls) source index occurrence) :=
  ⟨source, index, mem, rfl, named⟩

theorem Owns.mono {later : List (Message × Nat)} (owns : occurrence.Owns toolCalls seen)
    (grows : ∀ entry ∈ seen, entry ∈ later) : occurrence.Owns toolCalls later := by
  obtain ⟨source, index, mem, same, named⟩ := owns
  exact ⟨source, index, grows _ mem, same, named⟩

/-- What an owner gives up is the message that it owns. -/
theorem Owns.discarded (owns : occurrence.Owns toolCalls seen) (fallback : Nat) :
    ∃ source index, (Message.toolResult source, index) ∈ seen ∧
      occurrence.sourceResultIndex = some index ∧
      occurrence.discarded fallback = [⟨source, index⟩] ∧
      occurrence.holdsSynthetic =
        (source.normalizeLegacyToolResultId toolCalls).isSyntheticMissingToolResult := by
  obtain ⟨source, index, mem, same, -⟩ := owns
  refine ⟨source, index, mem, ?_, ?_, ?_⟩
  · rw [same, own_sourceResultIndex]
  · rw [same]
    rfl
  · rw [same, holdsSynthetic_own]

end ToolCallOccurrence

/-- The places of the tool results among some messages. -/
def resultIndexes (entries : List (Message × Nat)) : List Nat :=
  (entries.filter fun entry => entry.1.isToolResult).map Prod.snd

/-- The places of the messages that some occurrences own. -/
def ownedIndexes (occurrences : List ToolCallOccurrence) : List Nat :=
  occurrences.filterMap ToolCallOccurrence.sourceResultIndex

def droppedIndexes (results : List DroppedResult) : List Nat := results.map DroppedResult.index

def recordIndexes (records : List ToolResultRecord) : List Nat := records.map ToolResultRecord.index

/-- The places of the tool results that remain in a frame. -/
def remainingResults (remainder : List (Nat × Message)) : List Nat :=
  (remainder.filter fun entry => entry.2.isToolResult).map Prod.fst

@[simp] theorem resultIndexes_append (entries more : List (Message × Nat)) :
    resultIndexes (entries ++ more) = resultIndexes entries ++ resultIndexes more := by
  simp [resultIndexes]

@[simp] theorem remainingResults_append (remainder more : List (Nat × Message)) :
    remainingResults (remainder ++ more) = remainingResults remainder ++ remainingResults more := by
  simp [remainingResults]

/-- A record of a displaced result: its id is the id of no call of its frame. -/
structure ToolResultRecord.Displaced (toolCalls : List ToolCallLike) (seen : List (Message × Nat))
    (record : ToolResultRecord) : Prop where
  mem : (Message.toolResult record.sourceResult, record.index) ∈ seen
  result : record.result = record.sourceResult.normalizeLegacyToolResultId toolCalls
  id : record.id = record.result.extractToolResultId
  foreign : ∀ toolCall ∈ toolCalls, record.id ≠ some toolCall.id

/-- A dropped message of a frame: when it is no placeholder, every occurrence of its id in the
frame holds a result that is none either. -/
structure DroppedResult.Superseded (toolCalls : List ToolCallLike) (seen : List (Message × Nat))
    (occurrences : List ToolCallOccurrence) (dropped : DroppedResult) : Prop where
  mem : (Message.toolResult dropped.message, dropped.index) ∈ seen
  settled : (dropped.message.normalizeLegacyToolResultId
      toolCalls).isSyntheticMissingToolResult = false →
    ∀ occurrence ∈ occurrences, (dropped.message.normalizeLegacyToolResultId
      toolCalls).extractToolResultId = some occurrence.id → occurrence.Settled

namespace FrameScan

/-- The invariant of the loop; `seen` are the messages that it has passed. -/
structure Sound (preserveUnframed : Bool) (toolCalls : List ToolCallLike)
    (seen : List (Message × Nat)) (scan : FrameScan) : Prop where
  pending : Tracks (itemsAt scan.pending.pendingById) ToolCallOccurrence.id
    (fun occurrence => occurrence.result.isNone) scan.occurrences
  synthetic : Tracks (itemsAt scan.syntheticById) ToolCallOccurrence.id
    ToolCallOccurrence.holdsSynthetic scan.occurrences
  before : ∀ id, ∀ claimed ∈ itemsAt scan.syntheticById id,
    ∀ waiting ∈ itemsAt scan.pending.pendingById id, claimed < waiting
  calls : scan.occurrences.map (fun occurrence => (⟨occurrence.id, occurrence.name⟩ : ToolCallLike)) =
    toolCalls
  owned : ∀ occurrence ∈ scan.occurrences,
    occurrence.Unanswered ∨ occurrence.Owns toolCalls seen
  unclaimed : ∀ record ∈ scan.unclaimedResults, record.Displaced toolCalls seen
  superseded : ∀ dropped ∈ scan.droppedResults,
    dropped.Superseded toolCalls seen scan.occurrences
  counted : scan.droppedResults.length = scan.droppedDuplicateCount
  conserved : ∀ i, (ownedIndexes scan.occurrences).count i +
    (droppedIndexes scan.droppedResults).count i + (recordIndexes scan.unclaimedResults).count i =
      (resultIndexes seen).count i
  remaining : remainingResults scan.remainder =
    if preserveUnframed then recordIndexes scan.unclaimedResults else []

end FrameScan

theorem ToolCallOccurrenceQueue.claim_eq_some {queue queue' : ToolCallOccurrenceQueue} {id : String}
    (answered : queue.claim id = some (place, queue')) :
    itemsAt queue.pendingById id = place :: itemsAt queue'.pendingById id ∧
      ∀ other ≠ id, itemsAt queue'.pendingById other = itemsAt queue.pendingById other := by
  unfold claim at answered
  split at answered
  · cases answered
  · next place' pendingById taken =>
      obtain ⟨first, others⟩ := shiftAt_eq_some taken
      cases answered
      by_cases emptied : itemsAt pendingById id = []
      · simp only [emptied, if_true, itemsAt_delete] at first ⊢
        refine ⟨first, fun other away => ?_⟩
        rw [if_neg away, others other away]
      · simp only [emptied, if_false]
        exact ⟨first, others⟩

theorem ToolCallOccurrenceQueue.claim_eq_none {queue : ToolCallOccurrenceQueue} {id : String} :
    queue.claim id = none ↔ itemsAt queue.pendingById id = [] := by
  rw [← shiftAt_eq_none]
  unfold claim
  split <;> simp_all

section Occurrences

variable {occurrences : List ToolCallOccurrence} {dropped : DroppedResult}

theorem mem_modify_own {other : ToolCallOccurrence} (found : occurrences[place]? = some occurrence)
    (mem : other ∈ occurrences.modify place (.own normalized source index)) :
    other ∈ occurrences ∨ other = .own normalized source index occurrence := by
  obtain ⟨i, at_⟩ := List.mem_iff_getElem?.mp mem
  obtain ⟨old, before, same⟩ := List.getElem?_modify_eq_some.mp at_
  split at same
  · next here =>
      subst here
      rw [found] at before
      cases before
      exact .inr same.symm
  · exact .inl (same ▸ List.mem_of_getElem? before)

theorem calls_modify_own : (occurrences.modify place (.own normalized source index)).map
    (fun occurrence => (⟨occurrence.id, occurrence.name⟩ : ToolCallLike)) =
      occurrences.map fun occurrence => ⟨occurrence.id, occurrence.name⟩ :=
  List.map_modify_of_same fun _ => rfl

/-- Giving a result to an occurrence that is not settled keeps what was dropped superseded. -/
theorem DroppedResult.Superseded.modify_own {later : List (Message × Nat)}
    (superseded : dropped.Superseded toolCalls seen occurrences)
    (grows : ∀ entry ∈ seen, entry ∈ later) (found : occurrences[place]? = some occurrence)
    (open_ : ¬ occurrence.Settled) :
    dropped.Superseded toolCalls later (occurrences.modify place (.own normalized source index)) where
  mem := grows _ superseded.mem
  settled real other mem named := by
    rcases mem_modify_own found mem with old | rfl
    · exact superseded.settled real other old named
    · exact absurd (superseded.settled real occurrence (List.mem_of_getElem? found) named) open_

theorem count_ownedIndexes_modify_own (found : occurrences[place]? = some occurrence) (i : Nat) :
    (ownedIndexes (occurrences.modify place (.own normalized source index))).count i +
      occurrence.sourceResultIndex.toList.count i = (ownedIndexes occurrences).count i +
        [index].count i := by
  have same := List.filterMap_modify (f := .own normalized source index)
    (g := ToolCallOccurrence.sourceResultIndex) found
  have counted := List.perm_iff_count.mp same i
  rw [List.count_append, List.count_append] at counted
  exact counted

end Occurrences

theorem grows_concat (entry : Message × Nat) : ∀ other ∈ seen, other ∈ seen ++ [entry] :=
  fun _ mem => List.mem_append_left _ mem

namespace FrameScan.Sound

variable (sound : scan.Sound preserveUnframed toolCalls seen)

include sound

/-- A message that is no tool result stays in the frame. -/
theorem pass {entry : Message × Nat} (other : entry.1.isToolResult = false)
    (kept : List (Nat × Message)) (keeps : remainingResults kept = []) :
    Sound preserveUnframed toolCalls (seen ++ [entry])
      { scan with remainder := scan.remainder ++ kept } where
  pending := sound.pending
  synthetic := sound.synthetic
  before := sound.before
  calls := sound.calls
  owned occurrence mem := (sound.owned occurrence mem).imp_right
    fun owns => owns.mono (grows_concat entry)
  unclaimed record mem :=
    have displaced := sound.unclaimed record mem
    { displaced with mem := grows_concat entry _ displaced.mem }
  superseded dropped mem :=
    have superseded := sound.superseded dropped mem
    { superseded with mem := grows_concat entry _ superseded.mem }
  counted := sound.counted
  conserved := by
    intro i
    simpa [resultIndexes, other] using sound.conserved i
  remaining := by
    rw [remainingResults_append, keeps, List.append_nil, sound.remaining]

/-- The first open occurrence of an id takes the result. -/
theorem claimed {id : String} {pending : ToolCallOccurrenceQueue}
    (normal : normalized = source.normalizeLegacyToolResultId toolCalls)
    (named : normalized.extractToolResultId = some id)
    (answered : scan.pending.claim id = some (place, pending)) :
    Sound preserveUnframed toolCalls (seen ++ [(.toolResult source, index)])
      (scan.claimed place pending normalized source index) := by
  obtain ⟨first, others⟩ := ToolCallOccurrenceQueue.claim_eq_some answered
  obtain ⟨occurrence, found, sameId, waits⟩ := (sound.pending.mem id place).mp
    (first ▸ List.mem_cons_self)
  have unanswered : occurrence.Unanswered :=
    (sound.owned occurrence (List.mem_of_getElem? found)).resolve_right fun owns => by
      obtain ⟨_, _, _, same, _⟩ := owns
      rw [same] at waits
      cases waits
  have open_ : ¬ occurrence.Settled := fun settled => absurd (settled.1.symm.trans waits) (by simp)
  have lacked : occurrence.holdsSynthetic = false := by
    simp [ToolCallOccurrence.holdsSynthetic, unanswered.1]
  have at_ : (scan.occurrences.modify place (.own normalized source index))[place]? =
      some (.own normalized source index occurrence) :=
    List.getElem?_modify_eq_some.mpr ⟨occurrence, found, by rw [if_pos rfl]⟩
  have ordered := sound.pending.increasing id
  rw [first, List.pairwise_cons] at ordered
  have pendingOf : ∀ other, ∀ waiting ∈ itemsAt pending.pendingById other,
      waiting ∈ itemsAt scan.pending.pendingById other := fun other waiting mem => by
    by_cases same : other = id
    · subst same
      exact first ▸ List.mem_cons_of_mem _ mem
    · exact others other same ▸ mem
  have placeholders : Tracks (itemsAt (if normalized.isSyntheticMissingToolResult then
      pushAt scan.syntheticById occurrence.id place else scan.syntheticById))
      ToolCallOccurrence.id ToolCallOccurrence.holdsSynthetic
      (scan.occurrences.modify place (.own normalized source index)) := by
    by_cases synthetic : normalized.isSyntheticMissingToolResult = true
    · rw [if_pos synthetic]
      refine sound.synthetic.push found rfl (by rw [itemsAt_pushAt, if_pos rfl])
        (fun other away => by rw [itemsAt_pushAt, if_neg away]) rfl lacked (by simpa using synthetic)
        fun claimed mem => ?_
      rw [sameId] at mem
      exact sound.before id claimed mem place (first ▸ List.mem_cons_self)
    · rw [if_neg synthetic]
      exact sound.synthetic.modify_same found rfl (by simpa [lacked] using synthetic)
  have before : ∀ other, ∀ claimed ∈ itemsAt (if normalized.isSyntheticMissingToolResult then
      pushAt scan.syntheticById occurrence.id place else scan.syntheticById) other,
      ∀ waiting ∈ itemsAt pending.pendingById other, claimed < waiting := by
    intro other claimed mem waiting waits
    have old : claimed ∈ itemsAt scan.syntheticById other → claimed < waiting := fun old =>
      sound.before other claimed old waiting (pendingOf other waiting waits)
    split at mem
    · rw [itemsAt_pushAt, sameId] at mem
      split at mem
      · next same =>
          subst same
          rcases List.mem_append.mp mem with inside | last
          · exact old inside
          · exact List.mem_singleton.mp last ▸ ordered.1 waiting waits
      · exact old mem
    · exact old mem
  simp only [FrameScan.claimed, at_, ToolCallOccurrence.holdsSynthetic_own, ToolCallOccurrence.own_id]
  refine
    { pending := sound.pending.shift first rfl others (fun _ => rfl) fun _ => rfl
      synthetic := placeholders
      before := before
      calls := calls_modify_own.trans sound.calls
      owned := fun other mem => ?_
      unclaimed := fun record mem =>
        have displaced := sound.unclaimed record mem
        { displaced with mem := grows_concat _ _ displaced.mem }
      superseded := fun dropped mem =>
        (sound.superseded dropped mem).modify_own (grows_concat _) found open_
      counted := sound.counted
      conserved := ?_
      remaining := sound.remaining }
  · rcases mem_modify_own found mem with old | rfl
    · exact (sound.owned other old).imp_right fun owns => owns.mono (grows_concat _)
    · subst normal
      exact .inr (.own_of_mem (by simp) (sameId ▸ named))
  · intro i
    have gave := @count_ownedIndexes_modify_own source normalized index _ _ _ found i
    have kept := sound.conserved i
    simp only [unanswered.2.2, Option.toList_none, List.count_nil, Nat.add_zero] at gave
    simp only [resultIndexes_append, List.count_append]
    change _ = _ + [index].count i
    omega

/-- A result whose id is the id of no call of the frame. -/
theorem unclaimed_concat {id : Option String}
    (normal : normalized = source.normalizeLegacyToolResultId toolCalls)
    (identified : id = normalized.extractToolResultId)
    (foreign : ∀ toolCall ∈ toolCalls, id ≠ some toolCall.id) :
    Sound preserveUnframed toolCalls (seen ++ [(.toolResult source, index)])
      { scan with
        unclaimedResults := scan.unclaimedResults ++ [⟨normalized, source, index, id⟩]
        remainder := if preserveUnframed then scan.remainder ++ [(index, .toolResult normalized)]
          else scan.remainder } := by
  refine
    { sound with
      owned := fun occurrence mem => (sound.owned occurrence mem).imp_right
        fun owns => owns.mono (grows_concat _)
      unclaimed := fun record mem => ?_
      superseded := fun dropped mem =>
        have superseded := sound.superseded dropped mem
        { superseded with mem := grows_concat _ _ superseded.mem }
      conserved := fun i => ?_
      remaining := ?_ }
  · rcases List.mem_append.mp mem with old | last
    · have displaced := sound.unclaimed record old
      exact { displaced with mem := grows_concat _ _ displaced.mem }
    · cases List.mem_singleton.mp last
      exact ⟨by simp, normal, identified, foreign⟩
  · have kept := sound.conserved i
    simp only [resultIndexes_append, recordIndexes, List.map_append, List.count_append] at kept ⊢
    change _ + (_ + [index].count i) = _ + [index].count i
    omega
  · have remaining := sound.remaining
    cases preserveUnframed with
    | false => exact remaining
    | true => simp_all [remainingResults, recordIndexes, Message.isToolResult]

/-- A duplicate is dropped: it is a placeholder, or nothing waits for it in the frame. -/
theorem drop {id : String} (normal : normalized = source.normalizeLegacyToolResultId toolCalls)
    (named : normalized.extractToolResultId = some id)
    (settled : normalized.isSyntheticMissingToolResult = false →
      ∀ occurrence ∈ scan.occurrences, occurrence.id = id → occurrence.Settled) :
    Sound preserveUnframed toolCalls (seen ++ [(.toolResult source, index)])
      { scan with
        droppedDuplicateCount := scan.droppedDuplicateCount + 1
        droppedResults := scan.droppedResults ++ [⟨source, index⟩] } := by
  subst normal
  refine
    { sound with
      owned := fun occurrence mem => (sound.owned occurrence mem).imp_right
        fun owns => owns.mono (grows_concat _)
      unclaimed := fun record mem =>
        have displaced := sound.unclaimed record mem
        { displaced with mem := grows_concat _ _ displaced.mem }
      superseded := fun dropped mem => ?_
      counted := by simpa using sound.counted
      conserved := fun i => ?_ }
  · rcases List.mem_append.mp mem with old | last
    · have superseded := sound.superseded dropped old
      exact { superseded with mem := grows_concat _ _ superseded.mem }
    · cases List.mem_singleton.mp last
      exact ⟨by simp, fun real occurrence mem same => settled real occurrence mem
        (Option.some.inj (same.symm.trans named))⟩
  · have kept := sound.conserved i
    simp only [resultIndexes_append, droppedIndexes, List.map_append, List.count_append] at kept ⊢
    change _ + (_ + [index].count i) + _ = _ + [index].count i
    omega

/-- A result that is no placeholder takes the place of one, which is dropped. -/
theorem replace {id : String} {syntheticById : JsMap String (List Nat)}
    (normal : normalized = source.normalizeLegacyToolResultId toolCalls)
    (named : normalized.extractToolResultId = some id)
    (real : normalized.isSyntheticMissingToolResult = false)
    (taken : shiftAt scan.syntheticById id = some (place, syntheticById))
    (found : scan.occurrences[place]? = some occurrence) :
    Sound preserveUnframed toolCalls (seen ++ [(.toolResult source, index)])
      { scan with
        droppedDuplicateCount := scan.droppedDuplicateCount + 1
        syntheticById
        droppedResults := scan.droppedResults ++ occurrence.discarded index
        occurrences := scan.occurrences.modify place (.own normalized source index) } := by
  obtain ⟨first, others⟩ := shiftAt_eq_some taken
  obtain ⟨other, found', sameId, holds⟩ := (sound.synthetic.mem id place).mp
    (first ▸ List.mem_cons_self)
  cases found.symm.trans found'
  have answered : occurrence.result.isNone = false := by
    cases result : occurrence.result with
    | none => simp [ToolCallOccurrence.holdsSynthetic, result] at holds
    | some _ => rfl
  have owns : occurrence.Owns toolCalls seen :=
    (sound.owned occurrence (List.mem_of_getElem? found)).resolve_left fun unanswered => by
      simp [unanswered.1] at answered
  obtain ⟨source', index', mem', owned', discarded, synthetic'⟩ := owns.discarded index
  have open_ : ¬ occurrence.Settled := fun settled =>
    absurd (settled.2.symm.trans holds) Bool.false_ne_true
  have syntheticOf : ∀ other, ∀ claimed ∈ itemsAt syntheticById other,
      claimed ∈ itemsAt scan.syntheticById other := fun other claimed mem => by
    by_cases same : other = id
    · subst same
      exact first ▸ List.mem_cons_of_mem _ mem
    · exact others other same ▸ mem
  refine
    { pending := sound.pending.modify_same found rfl answered.symm
      synthetic := sound.synthetic.shift first rfl others (fun _ => rfl) fun _ => ?_
      before := fun other claimed mem => sound.before other claimed (syntheticOf other claimed mem)
      calls := calls_modify_own.trans sound.calls
      owned := fun other mem => ?_
      unclaimed := fun record mem =>
        have displaced := sound.unclaimed record mem
        { displaced with mem := grows_concat _ _ displaced.mem }
      superseded := fun dropped mem => ?_
      counted := by simpa [discarded] using sound.counted
      conserved := fun i => ?_
      remaining := sound.remaining }
  · rw [ToolCallOccurrence.holdsSynthetic_own, real]
  · rcases mem_modify_own found mem with old | rfl
    · exact (sound.owned other old).imp_right fun owns => owns.mono (grows_concat _)
    · subst normal
      exact .inr (.own_of_mem (by simp) (sameId ▸ named))
  · rw [discarded] at mem
    rcases List.mem_append.mp mem with old | last
    · exact (sound.superseded dropped old).modify_own (grows_concat _) found open_
    · cases List.mem_singleton.mp last
      exact ⟨grows_concat _ _ mem',
        fun real' => absurd (real'.symm.trans (synthetic'.symm.trans holds)) Bool.false_ne_true⟩
  · have gave := @count_ownedIndexes_modify_own source normalized index _ _ _ found i
    have kept := sound.conserved i
    simp only [owned', Option.toList_some] at gave
    simp only [discarded, resultIndexes_append, droppedIndexes, List.map_append,
      List.count_append] at kept ⊢
    change _ + (_ + [index'].count i) + _ = _ + [index].count i
    omega

theorem duplicate {id : String}
    (normal : normalized = source.normalizeLegacyToolResultId toolCalls)
    (named : normalized.extractToolResultId = some id)
    (none : scan.pending.claim id = none) :
    Sound preserveUnframed toolCalls (seen ++ [(.toolResult source, index)])
      (scan.duplicate id normalized source index) := by
  unfold FrameScan.duplicate
  split
  · next synthetic =>
      exact sound.drop normal named fun real => absurd (real.symm.trans synthetic) (by simp)
  · next real =>
      split
      · next nothing =>
          refine sound.drop normal named fun _ occurrence mem sameId => ?_
          obtain ⟨i, at_⟩ := List.mem_iff_getElem?.mp mem
          have waits := (sound.pending.mem id i).not.mp
            (by simp [ToolCallOccurrenceQueue.claim_eq_none.mp none])
          have holds := (sound.synthetic.mem id i).not.mp
            (by simp [shiftAt_eq_none.mp nothing])
          exact ⟨Bool.eq_false_iff.mpr fun isNone => waits ⟨occurrence, at_, sameId, isNone⟩,
            Bool.eq_false_iff.mpr fun synthetic => holds ⟨occurrence, at_, sameId, synthetic⟩⟩
      · next place syntheticById taken =>
          obtain ⟨first, -⟩ := shiftAt_eq_some taken
          obtain ⟨occurrence, found, -⟩ := (sound.synthetic.mem id place).mp
            (first ▸ List.mem_cons_self)
          simp only [found]
          exact sound.replace normal named (Bool.eq_false_iff.mpr real) taken found

theorem toolResult :
    Sound preserveUnframed toolCalls (seen ++ [(.toolResult source, index)])
      (scan.toolResult preserveUnframed toolCalls source index) := by
  have ids : ∀ id, (∃ occurrence ∈ scan.occurrences, occurrence.id = id) ↔
      ∃ toolCall ∈ toolCalls, toolCall.id = id := fun id => by
    rw [← sound.calls]
    simp
  unfold FrameScan.toolResult
  dsimp only
  cases named : (source.normalizeLegacyToolResultId toolCalls).extractToolResultId with
  | none =>
      exact sound.unclaimed_concat rfl named.symm fun _ _ => by simp
  | some id =>
      rw [Option.bind_some]
      cases answered : scan.pending.claim id with
      | some answer => exact sound.claimed rfl named answered
      | none =>
          dsimp only
          split
          · exact sound.duplicate rfl named answered
          · next unknown =>
              have foreign : ¬ ∃ occurrence ∈ scan.occurrences, occurrence.id = id := by
                simpa using unknown
              rw [ids] at foreign
              exact sound.unclaimed_concat rfl named.symm fun toolCall mem same =>
                foreign ⟨toolCall, mem, (Option.some.inj same).symm⟩

/-- One turn of the loop. -/
theorem message (entry : Message × Nat) :
    Sound preserveUnframed toolCalls (seen ++ [entry])
      (scan.message preserveUnframed toolCalls entry) := by
  obtain ⟨message, index⟩ := entry
  unfold FrameScan.message
  cases message with
  | toolResult source => exact sound.toolResult
  | invalid => simpa using @pass _ _ _ _ sound (.invalid, index) rfl [] rfl
  | user => exact @pass _ _ _ _ sound (.user, index) rfl _ rfl
  | assistant message => exact @pass _ _ _ _ sound (.assistant message, index) rfl _ rfl
  | other => exact @pass _ _ _ _ sound (.other, index) rfl _ rfl

theorem foldl (entries : List (Message × Nat)) :
    Sound preserveUnframed toolCalls (seen ++ entries)
      (entries.foldl (.message preserveUnframed toolCalls) scan) := by
  induction entries generalizing scan seen with
  | nil => simpa using sound
  | cons entry rest ih =>
      rw [List.foldl_cons, List.append_cons]
      exact ih (sound.message entry)

end FrameScan.Sound

theorem pendingById_foldl_add {entries : List (ToolCallOccurrence × Nat)}
    {queue : ToolCallOccurrenceQueue} :
    (entries.foldl (fun pending entry => pending.add entry.1.id entry.2) queue).pendingById =
      entries.foldl (fun pending entry => if true then pushAt pending entry.1.id entry.2 else pending)
        queue.pendingById := by
  induction entries generalizing queue with
  | nil => rfl
  | cons entry rest ih =>
      rw [List.foldl_cons, List.foldl_cons, ih]
      rfl

/-- Before the loop every occurrence waits. -/
theorem sound_startScan (toolCalls : List ToolCallLike) :
    FrameScan.Sound preserveUnframed toolCalls [] (startScan toolCalls) := by
  have unanswered : ∀ occurrence ∈ (startScan toolCalls).occurrences, occurrence.Unanswered := by
    intro occurrence mem
    obtain ⟨toolCall, -, rfl⟩ := List.mem_map.mp mem
    exact ⟨rfl, rfl, rfl⟩
  have pending : itemsAt (startScan toolCalls).pending.pendingById = fun id =>
      ((startScan toolCalls).occurrences.zipIdx.filter fun entry => entry.1.id = id).map Prod.snd := by
    funext id
    unfold startScan
    dsimp only
    rw [pendingById_foldl_add]
    refine (itemsAt_foldl_pushAt (fun _ => true) _ _ _).trans ?_
    simp [ToolCallOccurrenceQueue.create]
  refine
    { pending := ?_
      synthetic := ⟨fun _ => .nil, fun id i => ?_⟩
      before := fun _ _ mem => absurd mem List.not_mem_nil
      calls := ?_
      owned := fun occurrence mem => .inl (unanswered occurrence mem)
      unclaimed := fun _ mem => absurd mem List.not_mem_nil
      superseded := fun _ mem => absurd mem List.not_mem_nil
      counted := rfl
      conserved := fun i => ?_
      remaining := ?_ }
  · rw [pending]
    refine Tracks.of_zipIdx fun occurrence mem => ?_
    rw [(unanswered occurrence mem).1]
    rfl
  · refine iff_of_false List.not_mem_nil ?_
    rintro ⟨occurrence, found, -, holds⟩
    rw [ToolCallOccurrence.holdsSynthetic, (unanswered _ (List.mem_of_getElem? found)).1] at holds
    cases holds
  · rw [startScan, List.map_map]
    exact List.map_id _
  · have none : ownedIndexes (startScan toolCalls).occurrences = [] :=
      List.filterMap_eq_nil_iff.mpr fun occurrence mem => (unanswered occurrence mem).2.2
    rw [none]
    rfl
  · cases preserveUnframed <;> rfl

/-- The loop of a frame. -/
theorem sound_scanFrame (messages : List Message) (toolCalls : List ToolCallLike) (bounds : Nat × Nat) :
    (scanFrame preserveUnframed messages toolCalls bounds).Sound preserveUnframed toolCalls
      (messagesBetween messages bounds.1 bounds.2) :=
  (sound_startScan toolCalls).foldl (messagesBetween messages bounds.1 bounds.2)

end OpenClaw.ToolResultPairing
