import OpenClaw.ToolResultPairing.Ownership

/-!
What the classification promises: no result is lost or owned twice, an owned result answers its
call, and a result is dropped for a placeholder in no frame. A reset keeps the messages that the
pairing accepts, and in what it keeps every tool result consumes one earlier call of its id.
-/

namespace OpenClaw.ToolResultPairing

variable {preserveUnframed : Bool} {messages : List Message}

/-! The frames of the classification are those of the transcript. -/

section Frames

variable {frame home : ToolUsePairingFrame} {i j : Nat}

theorem starts_initialFrames : (initialFrames preserveUnframed messages).map
    ToolUsePairingFrame.startIndex = frameStartIndexes messages := by
  rw [← @map_fst_frameBounds (frameStartIndexes messages) messages.length,
    ← @map_bounds_frameRecords preserveUnframed, initialFrames, List.map_map,
    List.map_map]
  rfl

theorem starts_classify :
    (classifyToolUseResultPairing preserveUnframed messages).frames.map
      ToolUsePairingFrame.startIndex = frameStartIndexes messages := by
  have fixed := congrArg (List.map Prod.fst) (sound_classify preserveUnframed messages).fixed
  rw [List.map_map, List.map_map] at fixed
  exact fixed.trans starts_initialFrames

/-- Frames start in the order of the transcript. -/
theorem start_le_start
    (first : (classifyToolUseResultPairing preserveUnframed messages).frames[i]? = some frame)
    (second : (classifyToolUseResultPairing preserveUnframed messages).frames[j]? = some home)
    (order : i ≤ j) : frame.startIndex ≤ home.startIndex := by
  have increasing := @pairwise_frameStartIndexes messages
  rw [← @starts_classify preserveUnframed] at increasing
  rcases Nat.eq_or_lt_of_le order with rfl | before
  · cases first.symm.trans second
    exact le_rfl
  · obtain ⟨within, rfl⟩ := List.getElem?_eq_some_iff.mp first
    obtain ⟨within', rfl⟩ := List.getElem?_eq_some_iff.mp second
    have apart := List.pairwise_iff_getElem.mp increasing i j (by simpa using within)
      (by simpa using within') before
    simpa using apart.le

theorem assistant_of_mem
    (mem : frame ∈ (classifyToolUseResultPairing preserveUnframed messages).frames) :
    messages[frame.startIndex]? = some (.assistant frame.assistant) ∧
      frame.occurrences.map (fun occurrence => (⟨occurrence.id, occurrence.name⟩ : ToolCallLike)) =
        extractToolCallsFromAssistant frame.assistant := by
  obtain ⟨i, found⟩ := List.mem_iff_getElem?.mp mem
  obtain ⟨home, found', same⟩ := getElem?_of_fixed (sound_classify preserveUnframed messages).fixed found
  obtain ⟨record, listed, rfl⟩ := List.mem_map.mp (List.mem_of_getElem? found')
  obtain ⟨bounds, made⟩ := record_of_mem listed
  have calls := made.scanned.calls
  simp only [ToolUsePairingFrame.fixed, Prod.mk.injEq] at same
  rw [same.1, same.2.2.1, same.2.2.2.2.2]
  exact ⟨made.assistant, calls⟩

end Frames

/-- What an occurrence owns that is not unanswered. -/
theorem owner_spec {frame : ToolUsePairingFrame} {occurrence : ToolCallOccurrence}
    (mem : frame ∈ (classifyToolUseResultPairing preserveUnframed messages).frames)
    (inside : occurrence ∈ frame.occurrences) : occurrence.Unanswered ∨
      ∃ home ∈ (classifyToolUseResultPairing preserveUnframed messages).frames,
        ∃ source index, frame.startIndex ≤ home.startIndex ∧ home.startIndex < index ∧
          index < home.endIndex ∧ messages[index]? = some (.toolResult source) ∧
          occurrence.sourceResult = some source ∧ occurrence.sourceResultIndex = some index ∧
          (source.normalizeLegacyToolResultId home.toolCalls).extractToolResultId =
            some occurrence.id ∧
          occurrence.result = some ((source.normalizeLegacyToolResultId
            home.toolCalls).normalizeToolResultName occurrence.name) := by
  have sound := sound_classify preserveUnframed messages
  obtain ⟨i, found⟩ := List.mem_iff_getElem?.mp mem
  refine (sound.owned i frame found occurrence inside).imp_right ?_
  rintro ⟨j, original, order, foundOriginal, source, index, seen, same, named⟩
  obtain ⟨home, foundHome, fixed⟩ := getElem?_of_fixed sound.fixed.symm foundOriginal
  rw [seen_of_fixed fixed] at seen
  rw [toolCalls_of_fixed fixed] at named same
  obtain ⟨after, before, at_⟩ := mem_messagesBetween.mp seen
  refine ⟨home, List.mem_of_getElem? foundHome, source, index, start_le_start found foundHome order,
    after, before, at_, ?_, ?_, named, ?_⟩
  all_goals
    rw [same]
    rfl

/-- The places of the results, and every place that is owned, dropped or left. -/
theorem perm_resultsInFrames (preserveUnframed : Bool) (messages : List Message) :
    (framesOwned (classifyToolUseResultPairing preserveUnframed messages).frames ++
      droppedIndexes (classifyToolUseResultPairing preserveUnframed messages).droppedResults ++
      framesRemaining (classifyToolUseResultPairing preserveUnframed messages).frames).Perm
        (resultsInFrames messages) := by
  have sound := sound_classify preserveUnframed messages
  refine List.perm_iff_count.mpr fun i => ?_
  have kept := sound.conserved i
  rw [framesResults_initial, List.drop_length] at kept
  rw [List.count_append, List.count_append]
  cases preserveUnframed with
  | true => exact kept
  | false =>
      rw [sound.remaining rfl]
      exact kept

/-- Every tool result behind the first assistant message with tool calls is owned by one
occurrence, dropped once, or left in its frame, and never two of these; without
`preserveUnframedToolResults` none is left. What is dropped is counted. -/
theorem pairing_conserves (preserveUnframed : Bool) (messages : List Message) :
    (framesOwned (classifyToolUseResultPairing preserveUnframed messages).frames ++
      droppedIndexes (classifyToolUseResultPairing preserveUnframed messages).droppedResults ++
      framesRemaining (classifyToolUseResultPairing preserveUnframed messages).frames).Perm
        (resultsInFrames messages) ∧
    (preserveUnframed = false →
      framesRemaining (classifyToolUseResultPairing preserveUnframed messages).frames = []) ∧
    (classifyToolUseResultPairing preserveUnframed messages).droppedResults.length =
      (classifyToolUseResultPairing preserveUnframed messages).droppedDuplicateCount +
        (classifyToolUseResultPairing preserveUnframed messages).droppedOrphanCount := by
  have sound := sound_classify preserveUnframed messages
  exact ⟨perm_resultsInFrames preserveUnframed messages, sound.remaining, sound.counted⟩

/-- One call whose result comes twice. -/
def answeredTwice : List Message :=
  [.assistant ⟨some [some { type := some "toolCall", id := some "a" }], none⟩,
    .toolResult { toolCallId := some "a" }, .toolResult { toolCallId := some "a", isError := true }]

/-- A dropped result is a message of a frame; when it is no placeholder, every occurrence of its
id in that frame holds a result that is no placeholder. -/
theorem dropped_results_superseded (preserveUnframed : Bool) (messages : List Message) :
    ∀ dropped ∈ (classifyToolUseResultPairing preserveUnframed messages).droppedResults,
      ∃ frame ∈ (classifyToolUseResultPairing preserveUnframed messages).frames,
        frame.startIndex < dropped.index ∧ dropped.index < frame.endIndex ∧
        messages[dropped.index]? = some (.toolResult dropped.message) ∧
        ((dropped.message.normalizeLegacyToolResultId
            frame.toolCalls).isSyntheticMissingToolResult = false →
          ∀ occurrence ∈ frame.occurrences, (dropped.message.normalizeLegacyToolResultId
              frame.toolCalls).extractToolResultId = some occurrence.id →
            ∃ result, occurrence.result = some result ∧
              result.isSyntheticMissingToolResult = false) := by
  intro dropped mem
  obtain ⟨i, frame, found, superseded⟩ :=
    (sound_classify preserveUnframed messages).superseded dropped mem
  obtain ⟨after, before, at_⟩ := mem_messagesBetween.mp superseded.mem
  refine ⟨frame, List.mem_of_getElem? found, after, before, at_, fun real occurrence inside named => ?_⟩
  obtain ⟨answered, holds⟩ := superseded.settled real occurrence inside named
  cases result : occurrence.result with
  | none => simp [result] at answered
  | some answer =>
      refine ⟨answer, rfl, ?_⟩
      simpa [ToolCallOccurrence.holdsSynthetic, result] using holds

/-- The second result is dropped. -/
theorem dropped_results_superseded_twice :
    ∃ frame ∈ (classifyToolUseResultPairing false answeredTwice).frames,
      frame.startIndex < 2 ∧ 2 < frame.endIndex := by
  have dropped : (⟨{ toolCallId := some "a", isError := true }, 2⟩ : DroppedResult) ∈
      (classifyToolUseResultPairing false answeredTwice).droppedResults := by decide +kernel
  obtain ⟨frame, mem, after, before, -⟩ := dropped_results_superseded false answeredTwice _ dropped
  exact ⟨frame, mem, after, before⟩

/-! What a reset keeps. -/

/-- `SessionTreeEntry`: a message, or an entry of another type. -/
inductive SessionTreeEntry where
  | message (body : Message)
  | other
  deriving DecidableEq

def SessionTreeEntry.message? : SessionTreeEntry → Option Message
  | .message body => some body
  | .other => none

/-- A reset keeps the message at a place. -/
def keepsMessage (paired : List Nat) (message : Message) (index : Nat) : Bool :=
  match message with
  | .user | .assistant _ => true
  | .toolResult _ => decide (index ∈ paired)
  | .other | .invalid => false

/-- The entries that are kept; `index` counts the messages before them. -/
def keepPaired (paired : List Nat) : Nat → List SessionTreeEntry → List SessionTreeEntry
  | _, [] => []
  | index, .message message :: rest =>
      if keepsMessage paired message index then .message message :: keepPaired paired (index + 1) rest
      else keepPaired paired (index + 1) rest
  | index, .other :: rest => keepPaired paired index rest

def selectResetKeptEntries (entries : List SessionTreeEntry) : List SessionTreeEntry :=
  let messages := entries.filterMap SessionTreeEntry.message?
  let pairing := classifyToolUseResultPairing false messages
  keepPaired (framesOwned pairing.frames) 0 entries

/-- The messages that are kept. -/
def keptMessages (paired : List Nat) : Nat → List Message → List Message
  | _, [] => []
  | index, message :: rest =>
      if keepsMessage paired message index then message :: keptMessages paired (index + 1) rest
      else keptMessages paired (index + 1) rest

theorem filterMap_keepPaired (paired : List Nat) (index : Nat) (entries : List SessionTreeEntry) :
    (keepPaired paired index entries).filterMap SessionTreeEntry.message? =
      keptMessages paired index (entries.filterMap SessionTreeEntry.message?) := by
  induction entries generalizing index with
  | nil => rfl
  | cons entry rest ih =>
      cases entry with
      | other => exact ih index
      | message message =>
          have read : (SessionTreeEntry.message message :: rest).filterMap SessionTreeEntry.message? =
            message :: rest.filterMap SessionTreeEntry.message? := rfl
          rw [read]
          by_cases kept : keepsMessage paired message index = true
          · rw [keepPaired, if_pos kept, keptMessages, if_pos kept, ← ih]
            rfl
          · rw [keepPaired, if_neg kept, keptMessages, if_neg kept, ih]

/-- The tool calls that a result without an id may belong to, after some messages. -/
def nextHome (home : List ToolCallLike) (message : Message) : List ToolCallLike :=
  if message.toolCalls = [] then home else message.toolCalls

/-- Every tool result consumes one call that was issued before it and has its id. -/
def Balanced (home : List ToolCallLike) (issued : List String) : List Message → Prop
  | [] => True
  | .toolResult source :: rest =>
      ∃ id ∈ issued, (source.normalizeLegacyToolResultId home).extractToolResultId = some id ∧
        Balanced home (issued.erase id) rest
  | message :: rest =>
      Balanced (nextHome home message) (issued ++ message.toolCalls.map ToolCallLike.id) rest

/-- The calls of the last assistant message with calls before a place. -/
def homeAt (messages : List Message) (index : Nat) : List ToolCallLike :=
  (messages.take index).foldl nextHome []

/-- The id of the result at a place, with the legacy id of its frame. -/
def resultIdAt (messages : List Message) (index : Nat) : Option String :=
  match messages[index]? with
  | some (.toolResult source) =>
      (source.normalizeLegacyToolResultId (homeAt messages index)).extractToolResultId
  | _ => none

/-- The ids of the calls before a place. -/
def issuedBefore (messages : List Message) (index : Nat) : List String :=
  (messages.take index).flatMap fun message => message.toolCalls.map ToolCallLike.id

section Reset

variable {index : Nat} {message : Message}

theorem homeAt_succ (found : messages[index]? = some message) :
    homeAt messages (index + 1) = nextHome (homeAt messages index) message := by
  obtain ⟨inside, rfl⟩ := List.getElem?_eq_some_iff.mp found
  rw [homeAt, List.take_succ_eq_append_getElem inside, List.foldl_append]
  rfl

theorem issuedBefore_succ (found : messages[index]? = some message) :
    issuedBefore messages (index + 1) =
      issuedBefore messages index ++ message.toolCalls.map ToolCallLike.id := by
  obtain ⟨inside, rfl⟩ := List.getElem?_eq_some_iff.mp found
  rw [issuedBefore, List.take_succ_eq_append_getElem inside, List.flatMap_append]
  simp [issuedBefore]

/-- No frame starts inside another. -/
theorem not_start_between {starts : List Nat} {end_ s : Nat} {bounds : Nat × Nat}
    (increasing : starts.Pairwise (· < ·)) (mem : bounds ∈ frameBounds end_ starts)
    (known : s ∈ starts) : s ≤ bounds.1 ∨ bounds.2 ≤ s := by
  induction starts using frameBounds.induct with
  | case1 => cases mem
  | case2 start =>
      cases List.mem_singleton.mp known
      cases List.mem_singleton.mp mem
      exact .inl le_rfl
  | case3 start next rest ih =>
      obtain ⟨first, increasing'⟩ := List.pairwise_cons.mp increasing
      rw [frameBounds] at mem
      rcases List.mem_cons.mp mem with rfl | later
      · rcases List.mem_cons.mp known with rfl | other
        · exact .inl le_rfl
        · rcases List.mem_cons.mp other with rfl | behind
          · exact .inr le_rfl
          · exact .inr ((List.pairwise_cons.mp increasing').1 s behind).le
      · rcases List.mem_cons.mp known with rfl | other
        · exact .inl (first _ (mem_frameBounds later)).le
        · exact ih increasing' later other

/-- Within a frame the calls of its assistant message are the last ones. -/
theorem homeAt_of_mem {frame : ToolUsePairingFrame}
    (mem : frame ∈ (classifyToolUseResultPairing preserveUnframed messages).frames)
    (after : frame.startIndex < index) (before : index ≤ frame.endIndex) :
    homeAt messages index = frame.toolCalls := by
  obtain ⟨i, found⟩ := List.mem_iff_getElem?.mp mem
  obtain ⟨home, found', same⟩ := getElem?_of_fixed (sound_classify preserveUnframed messages).fixed found
  have bounds : (home.startIndex, home.endIndex) ∈
      frameBounds messages.length (frameStartIndexes messages) := by
    rw [← @map_bounds_frameRecords preserveUnframed]
    obtain ⟨record, listed, rfl⟩ := List.mem_map.mp (List.mem_of_getElem? found')
    exact List.mem_map_of_mem listed
  simp only [ToolUsePairingFrame.fixed, Prod.mk.injEq] at same
  rw [← same.1, ← same.2.1] at bounds
  have start := (assistant_of_mem mem).1
  induction index with
  | zero => exact absurd after (Nat.not_lt_zero _)
  | succ index ih =>
      rcases Nat.eq_or_lt_of_le (Nat.le_of_lt_succ after) with rfl | later
      · have calls := mem_frameStartIndexes.mp (mem_frameBounds bounds)
        obtain ⟨message, at_, some⟩ := calls
        cases start.symm.trans at_
        rw [homeAt_succ start, nextHome, if_neg some]
        rfl
      · cases at_ : messages[index]? with
        | none =>
            have beyond := List.getElem?_eq_none_iff.mp at_
            rw [homeAt, List.take_of_length_le (by omega),
              ← List.take_of_length_le (i := index) beyond, ← homeAt]
            exact ih later (by omega)
        | some message =>
            have none : message.toolCalls = [] := by
              by_contra some
              have known := mem_frameStartIndexes.mpr ⟨message, at_, some⟩
              rcases not_start_between pairwise_frameStartIndexes bounds known with le | le
              · exact absurd later (Nat.not_lt.mpr le)
              · exact absurd (before.trans le) (Nat.not_succ_le_self index)
            rw [homeAt_succ at_, nextHome, if_pos none]
            exact ih later (by omega)

/-- The results of an id among the kept ones before a place. -/
def answeredBefore (paired : List Nat) (messages : List Message) (index : Nat) (id : String) : Nat :=
  paired.countP fun i => decide (i < index) && decide (resultIdAt messages i = some id)

theorem answeredBefore_succ {paired : List Nat} (nodup : paired.Nodup) (id : String) :
    answeredBefore paired messages (index + 1) id = answeredBefore paired messages index id +
      if index ∈ paired ∧ resultIdAt messages index = some id then 1 else 0 := by
  induction paired with
  | nil => rfl
  | cons i rest ih =>
      obtain ⟨fresh, nodup'⟩ := List.nodup_cons.mp nodup
      have later := ih nodup'
      simp only [answeredBefore, List.countP_cons] at later ⊢
      rw [later]
      rcases Nat.lt_trichotomy i index with below | rfl | above
      · have apart : index ≠ i := by omega
        simp only [below, show i < index + 1 by omega, List.mem_cons, apart, false_or]
        omega
      · simp only [Nat.lt_irrefl, Nat.lt_succ_self, fresh, false_and, if_false, List.mem_cons,
          true_or, true_and, decide_true, decide_false, Bool.true_and, Bool.false_and,
          decide_eq_true_eq, Bool.false_eq_true, Nat.add_zero]
      · have apart : index ≠ i := by omega
        simp only [show ¬ i < index by omega, show ¬ i < index + 1 by omega, List.mem_cons, apart,
          false_or, decide_false, Bool.false_and, Bool.false_eq_true, if_false, Nat.add_zero]

/-- An owned result comes behind the calls of its owner and has the id of the occurrence. -/
theorem owner_answers {frame : ToolUsePairingFrame} {occurrence : ToolCallOccurrence}
    (mem : frame ∈ (classifyToolUseResultPairing preserveUnframed messages).frames)
    (inside : occurrence ∈ frame.occurrences) (owned : occurrence.sourceResultIndex = some index) :
    frame.startIndex < index ∧ resultIdAt messages index = some occurrence.id := by
  rcases owner_spec mem inside with unanswered | spec
  · rw [unanswered.2.2] at owned
    cases owned
  · obtain ⟨home, listed, source, place, order, after, before, at_, -, same, named, -⟩ := spec
    cases owned.symm.trans same
    refine ⟨order.trans_lt after, ?_⟩
    rw [resultIdAt, at_]
    dsimp only
    rw [homeAt_of_mem listed after before.le]
    exact named

/-- The calls with an id that a message issues. -/
def issuedAt (messages : List Message) (id : String) (index : Nat) : Nat :=
  match messages[index]? with
  | some message => (message.toolCalls.map ToolCallLike.id).count id
  | none => 0

theorem sum_issuedAt (id : String) (index : Nat) :
    ∑ i ∈ Finset.range index, issuedAt messages id i = (issuedBefore messages index).count id := by
  induction index with
  | zero => rfl
  | succ index ih =>
      rw [Finset.sum_range_succ, ih]
      cases found : messages[index]? with
      | some message =>
          rw [issuedBefore_succ found, List.count_append, issuedAt, found]
      | none =>
          have beyond := List.getElem?_eq_none_iff.mp found
          rw [issuedAt, found, issuedBefore, issuedBefore, List.take_of_length_le beyond,
            List.take_of_length_le (by omega), Nat.add_zero]

/-- The results of one frame's occurrences that are placed before an index. -/
theorem countP_ownedIndexes_le {frame : ToolUsePairingFrame}
    (mem : frame ∈ (classifyToolUseResultPairing preserveUnframed messages).frames) (id : String) :
    (ownedIndexes frame.occurrences).countP (fun i =>
      decide (i < index) && decide (resultIdAt messages i = some id)) ≤
        if frame.startIndex < index then issuedAt messages id frame.startIndex else 0 := by
  obtain ⟨at_, calls⟩ := assistant_of_mem mem
  by_cases started : frame.startIndex < index
  · rw [if_pos started, issuedAt, at_]
    dsimp only [Message.toolCalls]
    rw [← calls, List.map_map, List.count, List.countP_map, ownedIndexes, List.countP_filterMap]
    refine List.countP_mono_left fun occurrence inside counted => ?_
    cases owned : occurrence.sourceResultIndex with
    | none =>
        rw [owned] at counted
        cases counted
    | some i =>
        rw [owned] at counted
        have holds := (Bool.and_eq_true_iff.mp counted).2
        rw [(owner_answers mem inside owned).2] at holds
        simpa using holds
  · rw [if_neg started]
    refine Nat.le_of_eq (List.countP_eq_zero.mpr fun i owned => ?_)
    obtain ⟨occurrence, inside, owns⟩ := List.mem_filterMap.mp owned
    have after := (owner_answers mem inside owns).1
    simp only [Bool.and_eq_true, decide_eq_true_eq, not_and]
    omega

/-- No more results are kept than calls were issued. -/
theorem answeredBefore_le (index : Nat) (id : String) :
    answeredBefore (framesOwned (classifyToolUseResultPairing preserveUnframed messages).frames)
      messages index id ≤ (issuedBefore messages index).count id := by
  have starts := @starts_classify preserveUnframed messages
  have distinct : (frameStartIndexes messages).Nodup :=
    pairwise_frameStartIndexes.imp Nat.ne_of_lt
  calc
    _ = ((classifyToolUseResultPairing preserveUnframed messages).frames.map fun frame =>
          (ownedIndexes frame.occurrences).countP fun i =>
            decide (i < index) && decide (resultIdAt messages i = some id)).sum :=
      List.countP_flatMap
    _ ≤ ((classifyToolUseResultPairing preserveUnframed messages).frames.map fun frame =>
          if frame.startIndex < index then issuedAt messages id frame.startIndex else 0).sum :=
      List.sum_le_sum fun frame mem => countP_ownedIndexes_le mem id
    _ = ((frameStartIndexes messages).map fun start =>
          if start < index then issuedAt messages id start else 0).sum := by
      rw [← starts, List.map_map]
      rfl
    _ = ∑ start ∈ (frameStartIndexes messages).toFinset.filter (· < index),
          issuedAt messages id start := by
      rw [Finset.sum_filter, List.sum_toFinset _ distinct]
    _ ≤ ∑ i ∈ Finset.range index, issuedAt messages id i := by
      refine Finset.sum_le_sum_of_subset fun start mem => ?_
      exact Finset.mem_range.mpr (Finset.mem_filter.mp mem).2
    _ = _ := sum_issuedAt id index

/-- The messages that are kept from a place on are balanced. -/
theorem balanced_keptMessages {paired : List Nat} (nodup : paired.Nodup)
    (results : ∀ i ∈ paired, isResultAt messages i = true)
    (named : ∀ i ∈ paired, (resultIdAt messages i).isSome = true)
    (enough : ∀ index id, answeredBefore paired messages index id ≤
      (issuedBefore messages index).count id)
    (rest : List Message) (index : Nat) (same : messages.drop index = rest) (issued : List String)
    (left : ∀ id, issued.count id + answeredBefore paired messages index id =
      (issuedBefore messages index).count id) :
    Balanced (homeAt messages index) issued (keptMessages paired index rest) := by
  induction rest generalizing index issued with
  | nil => trivial
  | cons message rest ih =>
      have found : messages[index]? = some message := by
        rw [← List.head?_drop, same, List.head?_cons]
      have next : messages.drop (index + 1) = rest := by
        rw [← List.tail_drop, same, List.tail_cons]
      have home := homeAt_succ found
      have more := issuedBefore_succ found
      -- a message that is no tool result may issue calls and answers none
      have passes : message.isToolResult = false → ∀ id,
          (issued ++ message.toolCalls.map ToolCallLike.id).count id +
            answeredBefore paired messages (index + 1) id =
              (issuedBefore messages (index + 1)).count id := fun other id => by
        have absent : index ∉ paired := fun mem => by
          have result := results index mem
          rw [isResultAt, found, Option.any_some, other] at result
          cases result
        have before := left id
        rw [answeredBefore_succ nodup, if_neg fun both => absent both.1, more, List.count_append,
          List.count_append]
        omega
      cases message with
      | user =>
          have later := ih (index + 1) next _ (passes rfl)
          rw [home] at later
          exact later
      | assistant assistant =>
          have later := ih (index + 1) next _ (passes rfl)
          rw [home] at later
          exact later
      | other =>
          have unchanged : homeAt messages (index + 1) = homeAt messages index := home
          have later := ih (index + 1) next _ (passes rfl)
          rw [unchanged] at later
          simpa [keptMessages, keepsMessage, Message.toolCalls] using later
      | invalid =>
          have unchanged : homeAt messages (index + 1) = homeAt messages index := home
          have later := ih (index + 1) next _ (passes rfl)
          rw [unchanged] at later
          simpa [keptMessages, keepsMessage, Message.toolCalls] using later
      | toolResult source =>
          have unchanged : homeAt messages (index + 1) = homeAt messages index := home
          have none : issuedBefore messages (index + 1) = issuedBefore messages index := by
            rw [more]
            exact List.append_nil _
          by_cases mem : index ∈ paired
          · obtain ⟨id, named'⟩ := Option.isSome_iff_exists.mp (named index mem)
            have answers : (source.normalizeLegacyToolResultId
                (homeAt messages index)).extractToolResultId = some id := by
              rw [resultIdAt, found] at named'
              exact named'
            have one := enough (index + 1) id
            rw [answeredBefore_succ nodup, if_pos ⟨mem, named'⟩, none, ← left id] at one
            have waits : id ∈ issued := List.count_pos_iff.mp (by omega)
            have kept : keepsMessage paired (.toolResult source) index = true := decide_eq_true mem
            rw [keptMessages, if_pos kept]
            refine ⟨id, waits, answers, ?_⟩
            rw [← unchanged]
            refine ih (index + 1) next _ fun other => ?_
            have before := left other
            have size := List.count_pos_iff.mpr waits
            rw [answeredBefore_succ nodup, none, named', List.count_erase]
            by_cases same' : id = other
            · subst same'
              simp only [mem, BEq.rfl, and_self, if_true]
              omega
            · have apart : (id == other) = false := by simpa using same'
              simp only [mem, Option.some.injEq, same', and_false, if_false, apart,
                Bool.false_eq_true]
              omega
          · have kept : ¬ keepsMessage paired (.toolResult source) index = true := by
              simpa [keepsMessage] using mem
            rw [keptMessages, if_neg kept, ← unchanged]
            refine ih (index + 1) next _ fun id => ?_
            rw [answeredBefore_succ nodup, if_neg fun both => mem both.1, none, Nat.add_zero]
            exact left id

end Reset

/-- In what a reset keeps, every tool result consumes one call that was issued before it and has
its id: no result is without its call and no call has two results. -/
theorem reset_keeps_balanced (entries : List SessionTreeEntry) :
    Balanced [] [] ((selectResetKeptEntries entries).filterMap SessionTreeEntry.message?) := by
  rw [selectResetKeptEntries, filterMap_keepPaired]
  generalize entries.filterMap SessionTreeEntry.message? = messages
  have perm := perm_resultsInFrames false messages
  have distinct := perm.nodup_iff.mpr nodup_resultsInFrames
  have nodup : (framesOwned (classifyToolUseResultPairing false messages).frames).Nodup :=
    (List.nodup_append.mp (List.nodup_append.mp distinct).1).1
  refine balanced_keptMessages nodup (fun i mem => ?_) (fun i mem => ?_) answeredBefore_le messages 0
    rfl [] fun id => ?_
  · have listed := perm.subset (List.mem_append_left _ (List.mem_append_left _ mem))
    exact (Bool.and_eq_true_iff.mp (List.mem_filter.mp listed).2).1
  · obtain ⟨frame, listed, owned⟩ := List.mem_flatMap.mp mem
    obtain ⟨occurrence, inside, owns⟩ := List.mem_filterMap.mp owned
    rw [(owner_answers listed inside owns).2]
    rfl
  · rw [answeredBefore, List.countP_eq_zero.mpr fun i _ => by simp]
    rfl

end OpenClaw.ToolResultPairing
