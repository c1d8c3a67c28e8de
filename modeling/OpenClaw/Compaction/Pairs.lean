import OpenClaw.Compaction.Cut

/-!
The context before and after a compaction. The old context ends with the messages of
the window; the new one is the summary and the messages of the window from the cut on.
-/

namespace Compaction

variable {E : Estimator} {window entries : List Entry} {entry : Entry} {cut index : Nat}

theorem findLastIndex_append {α : Type*} {p : α → Bool} {x : α} (holds : p x = true) (xs : List α) :
    findLastIndex p (xs ++ [x]) = some xs.length := by
  induction xs with
  | nil => simp [findLastIndex, holds]
  | cons y ys ih => simp [findLastIndex, ih]

theorem findLastIndex_eq_none {α : Type*} {p : α → Bool} {xs : List α}
    (missing : findLastIndex p xs = none) : ∀ x ∈ xs, p x = false := by
  induction xs with
  | nil => exact fun x mem => absurd mem List.not_mem_nil
  | cons y ys ih =>
      unfold findLastIndex at missing
      cases later : findLastIndex p ys with
      | some other => simp [later] at missing
      | none =>
          rw [later] at missing
          intro x mem
          rcases List.mem_cons.mp mem with rfl | inside
          · simpa using missing
          · exact ih later x inside

theorem findLastIndex_spec {α : Type*} {p : α → Bool} {xs : List α}
    (found : findLastIndex p xs = some index) :
    (∃ x, xs[index]? = some x ∧ p x = true) ∧ ∀ x ∈ xs.drop (index + 1), p x = false := by
  induction xs generalizing index with
  | nil => cases found
  | cons y ys ih =>
      unfold findLastIndex at found
      cases later : findLastIndex p ys with
      | some other =>
          rw [later] at found
          cases found
          exact ih later
      | none =>
          rw [later] at found
          obtain ⟨holds, same⟩ := Option.ite_none_right_eq_some.mp found
          cases same
          exact ⟨⟨y, rfl, holds⟩, findLastIndex_eq_none later⟩

/-- An id of the path names its entry, whatever follows. -/
theorem findIdx?_id (path : SessionPath) (found : path.entries[index]? = some entry)
    (rest : List Entry) :
    ((path.entries ++ rest).findIdx? fun other => other.id = entry.id) = some index := by
  obtain ⟨bound, rfl⟩ := List.getElem?_eq_some_iff.mp found
  refine List.findIdx?_eq_some_iff_getElem.mpr ⟨by simp; omega, ?_, fun earlier before => ?_⟩
  · simp [List.getElem_append_left bound]
  · rw [List.getElem_append_left (before.trans bound)]
    simp only [decide_eq_true_eq]
    intro same
    have differ := List.nodup_iff_getElem?_ne_getElem?.mp path.ids earlier index before
      (by simpa using bound)
    simp [List.getElem?_eq_getElem bound, List.getElem?_eq_getElem (before.trans bound), same]
      at differ

/-- What a compaction entry leaves of the context. -/
theorem contextMessages_compacted (path : SessionPath) {id summary : String} {fromHook : Bool}
    (found : path.entries[index]? = some entry) :
    contextMessages (path.entries ++ [⟨id, .compaction summary entry.id fromHook⟩]) =
      { body := .compactionSummary summary } ::
        (path.entries.drop index).filterMap retainedMessage := by
  have bound := (List.getElem?_eq_some_iff.mp found).1
  unfold contextMessages
  rw [findLastIndex_append rfl]
  simp only [List.getElem?_concat_length, firstKeptIndex, Entry.firstKeptEntryId, Option.bind_some,
    findIdx?_id path found, if_pos bound]
  simp [Entry.projectSessionEntryMessage]

/-- The window is the end of the path. -/
theorem window_eq_drop (entries : List Entry) :
    ∃ start, (compactionWindow entries).window = entries.drop start := by
  unfold compactionWindow
  split
  · exact ⟨0, rfl⟩
  · split
    · exact ⟨0, rfl⟩
    · dsimp only
      split
      · exact ⟨_, rfl⟩
      · exact ⟨_, rfl⟩
      · exact ⟨0, rfl⟩

/-- What pairing reads of a message: the checkpoint and the marks of replay do not matter. -/
def AgentMessage.shape (message : AgentMessage) : Option ToolResult × List ToolCall :=
  (message.body.toolResult?, message.body.toolCalls)

@[simp] theorem shape_strip (message : AgentMessage) :
    message.stripCompactionReplayCheckpoint.shape = message.shape := by
  unfold AgentMessage.stripCompactionReplayCheckpoint
  split
  case h_1 body => simp [AgentMessage.shape, body, Body.toolResult?, Body.toolCalls]
  case h_2 => rfl

theorem map_shape_retained (entries : List Entry) :
    (entries.filterMap retainedMessage).map AgentMessage.shape =
      (entries.filterMap currentMessage).map AgentMessage.shape := by
  induction entries with
  | nil => rfl
  | cons entry entries ih =>
      cases current : currentMessage entry with
      | none => simpa [retainedMessage, current] using ih
      | some message => simpa [retainedMessage, current] using ih

theorem currentMessage_boundary (isBoundary : entry.isBoundary = true) :
    currentMessage entry = none := by
  cases body : entry.body <;> simp_all [Entry.isBoundary, currentMessage]

/-- The old context ends with the messages of the window. -/
theorem contextMessages_window (entries : List Entry) :
    ∃ earlier, (contextMessages entries).map AgentMessage.shape = earlier ++
      ((compactionWindow entries).window.filterMap currentMessage).map AgentMessage.shape := by
  unfold contextMessages compactionWindow
  cases last : findLastIndex Entry.isBoundary entries with
  | none => exact ⟨[], rfl⟩
  | some boundaryIndex =>
      obtain ⟨⟨boundary, found, isBoundary⟩, _⟩ := findLastIndex_spec last
      simp only [found]
      cases body : boundary.body with
      | reset id =>
          simp only [List.map_append]
          exact ⟨_, rfl⟩
      | compaction summary id fromHook =>
          have silent := currentMessage_boundary isBoundary
          obtain ⟨bound, rfl⟩ := List.getElem?_eq_some_iff.mp found
          have tail : (entries.drop boundaryIndex).filterMap currentMessage =
              (entries.drop (boundaryIndex + 1)).filterMap currentMessage := by
            rw [List.drop_eq_getElem_cons bound, List.filterMap_cons_none silent]
          have short : (entries.take boundaryIndex).length = boundaryIndex :=
            List.length_take_of_le bound.le
          have summary_ : ∀ retained : List AgentMessage, ∃ earlier,
              (entries[boundaryIndex].projectSessionEntryMessage.toList ++ retained ++
                (entries.drop (boundaryIndex + 1)).filterMap currentMessage).map
                  AgentMessage.shape = earlier ++
                (retained ++ (entries.drop boundaryIndex).filterMap currentMessage).map
                  AgentMessage.shape :=
            fun retained => ⟨entries[boundaryIndex].projectSessionEntryMessage.toList.map
              AgentMessage.shape, by simp [tail]⟩
          cases kept : firstKeptIndex entries entries[boundaryIndex] with
          | none =>
              obtain ⟨earlier, same⟩ := summary_ []
              exact ⟨earlier, by simpa [tail, short] using same⟩
          | some index =>
              by_cases before : index < boundaryIndex
              · obtain ⟨earlier, same⟩ := summary_
                  (((entries.take boundaryIndex).drop index).filterMap retainedMessage)
                refine ⟨earlier, ?_⟩
                simp only [if_pos before, Option.getD_some]
                rw [same, List.map_append, map_shape_retained, ← List.map_append,
                  ← List.filterMap_append, ← List.drop_append_of_le_length (by omega),
                  List.take_append_drop]
              · obtain ⟨earlier, same⟩ := summary_ []
                let gap := ((entries.drop boundaryIndex).take (index - boundaryIndex)).filterMap
                  currentMessage
                refine ⟨earlier ++ gap.map AgentMessage.shape, ?_⟩
                have split : (entries.drop boundaryIndex).filterMap currentMessage =
                    gap ++ (entries.drop index).filterMap currentMessage := by
                  have rest : entries.drop index =
                      (entries.drop boundaryIndex).drop (index - boundaryIndex) := by
                    rw [List.drop_drop, Nat.add_sub_cancel' (not_lt.mp before)]
                  rw [rest, ← List.filterMap_append, List.take_append_drop]
                simp only [if_neg before, Option.getD_some]
                simp only [List.nil_append, split] at same
                simpa [short] using same
      | _ => simp [Entry.isBoundary, body] at isBoundary

end Compaction

/-!
When a compaction keeps tool results with their calls. The cut never falls on a tool
result, but a user, bash or custom message between a call and its result is a cut point;
whether some settings reach it is decided by the tokens of the window.
-/

namespace Compaction

variable {E : Estimator} {entries window : List Entry} {cut : Nat} {issued : List String}

def AgentMessage.callIds (message : AgentMessage) : List String :=
  message.body.toolCalls.map ToolCall.id

/-- Every tool result answers a call before it; `issued` are the calls before the list. -/
def PairedAfter (issued : List String) : List AgentMessage → Prop
  | [] => True
  | message :: rest =>
      (∀ result ∈ message.body.toolResult?, ∃ id ∈ issued, result.extractToolResultId = some id) ∧
        PairedAfter (issued ++ message.callIds) rest

def Paired (messages : List AgentMessage) : Prop := PairedAfter [] messages

instance PairedAfter.decide : ∀ issued messages, Decidable (PairedAfter issued messages)
  | _, [] => isTrue trivial
  | issued, message :: rest =>
      have := PairedAfter.decide (issued ++ message.callIds) rest
      inferInstanceAs (Decidable (_ ∧ _))

instance (messages : List AgentMessage) : Decidable (Paired messages) :=
  inferInstanceAs (Decidable (PairedAfter [] messages))

/-- Pairing does not depend on the replay state of the messages. -/
theorem pairedAfter_congr {left right : List AgentMessage}
    (same : left.map AgentMessage.shape = right.map AgentMessage.shape) :
    PairedAfter issued left ↔ PairedAfter issued right := by
  induction left generalizing issued right with
  | nil =>
      cases right with
      | nil => exact Iff.rfl
      | cons => cases same
  | cons message rest ih =>
      cases right with
      | nil => cases same
      | cons other others =>
          obtain ⟨head, tail⟩ := List.cons.inj same
          have results : message.body.toolResult? = other.body.toolResult? := congrArg Prod.fst head
          have calls : message.body.toolCalls = other.body.toolCalls := congrArg Prod.snd head
          simp only [PairedAfter, AgentMessage.callIds, results, calls, ih tail]

/-- The message of an entry of the window. -/
def messageAt (window : List Entry) (index : Nat) : Option AgentMessage :=
  window[index]?.bind currentMessage

/-- The message issues the call that the result answers. -/
def Answers (result : ToolResult) (message : AgentMessage) : Prop :=
  ∃ id ∈ message.callIds, result.extractToolResultId = some id

theorem pairedAfter_iff : PairedAfter issued (window.filterMap currentMessage) ↔
    ∀ index message result, messageAt window index = some message →
      message.body.toolResult? = some result →
      (∃ id ∈ issued, result.extractToolResultId = some id) ∨
        ∃ earlier < index, ∃ other, messageAt window earlier = some other ∧ Answers result other := by
  induction window generalizing issued with
  | nil => simp [PairedAfter, messageAt]
  | cons entry rest ih =>
      cases current : currentMessage entry with
      | none =>
          rw [List.filterMap_cons_none current, ih]
          constructor
          · intro paired index message result found isResult
            cases index with
            | zero => simp [messageAt, current] at found
            | succ index =>
                refine (paired index message result found isResult).imp_right ?_
                rintro ⟨earlier, before, other, at_, answers⟩
                exact ⟨earlier + 1, Nat.succ_lt_succ before, other, at_, answers⟩
          · intro paired index message result found isResult
            refine (paired (index + 1) message result found isResult).imp_right ?_
            rintro ⟨earlier, before, other, at_, answers⟩
            cases earlier with
            | zero => simp [messageAt, current] at at_
            | succ earlier => exact ⟨earlier, Nat.lt_of_succ_lt_succ before, other, at_, answers⟩
      | some head =>
          rw [List.filterMap_cons_some current, PairedAfter, ih]
          constructor
          · rintro ⟨first, paired⟩ index message result found isResult
            cases index with
            | zero =>
                have same : head = message := by simpa [messageAt, current] using found
                exact .inl (first result (same ▸ isResult))
            | succ index =>
                rcases paired index message result found isResult with
                  ⟨id, mem, eq⟩ | ⟨earlier, before, other, at_, answers⟩
                · rcases List.mem_append.mp mem with old | new
                  · exact .inl ⟨id, old, eq⟩
                  · exact .inr ⟨0, Nat.succ_pos _, head, by simp [messageAt, current], id, new, eq⟩
                · exact .inr ⟨earlier + 1, Nat.succ_lt_succ before, other, at_, answers⟩
          · intro paired
            refine ⟨fun result isResult => ?_, fun index message result found isResult => ?_⟩
            · refine (paired 0 head result (by simp [messageAt, current]) isResult).resolve_right ?_
              rintro ⟨earlier, before, _⟩
              exact absurd before (Nat.not_lt_zero _)
            · rcases paired (index + 1) message result found isResult with
                ⟨id, mem, eq⟩ | ⟨earlier, before, other, at_, answers⟩
              · exact .inl ⟨id, List.mem_append_left _ mem, eq⟩
              · cases earlier with
                | zero =>
                    have same : head = other := by simpa [messageAt, current] using at_
                    obtain ⟨id, mem, eq⟩ := answers
                    exact .inl ⟨id, List.mem_append_right _ (same ▸ mem), eq⟩
                | succ earlier =>
                    exact .inr ⟨earlier, Nat.lt_of_succ_lt_succ before, other, at_, answers⟩

/-- A tool result at or after the cut answers no call between the cut and it. -/
def SplitsPair (window : List Entry) (cut : Nat) : Prop :=
  ∃ index message result, cut ≤ index ∧ messageAt window index = some message ∧
    message.body.toolResult? = some result ∧
    ∀ earlier other, cut ≤ earlier → earlier < index → messageAt window earlier = some other →
      ¬ Answers result other

theorem paired_drop_iff :
    Paired ((window.drop cut).filterMap currentMessage) ↔ ¬ SplitsPair window cut := by
  have shifted : ∀ index, messageAt (window.drop cut) index = messageAt window (cut + index) :=
    fun index => by rw [messageAt, messageAt, List.getElem?_drop]
  rw [Paired, pairedAfter_iff]
  constructor
  · rintro paired ⟨index, message, result, after, found, isResult, alone⟩
    obtain ⟨offset, rfl⟩ := Nat.exists_eq_add_of_le after
    rcases paired offset message result ((shifted offset).trans found) isResult with
      ⟨_, mem, _⟩ | ⟨earlier, before, other, at_, answers⟩
    · exact absurd mem List.not_mem_nil
    · exact alone (cut + earlier) other (Nat.le_add_right _ _) (Nat.add_lt_add_left before cut)
        ((shifted earlier).symm.trans at_) answers
  · intro unsplit index message result found isResult
    by_contra alone
    refine unsplit ⟨cut + index, message, result, Nat.le_add_right _ _,
      (shifted index).symm.trans found, isResult, fun earlier other after before at_ answers => ?_⟩
    obtain ⟨offset, rfl⟩ := Nat.exists_eq_add_of_le after
    exact alone (.inr ⟨offset, Nat.lt_of_add_lt_add_left before, other,
      (shifted offset).trans at_, answers⟩)

/-- No cut that some settings select splits a tool result from its call. -/
def PairsUnsplit (E : Estimator) (entries : List Entry) : Prop :=
  isCompactable entries = true → ∀ cut, CutReachable E (compactionWindow entries).window cut →
    Summarizes (compactionWindow entries) cut → ¬ SplitsPair (compactionWindow entries).window cut

/-- The path as a compaction leaves it. -/
def compacted (entries : List Entry) (preparation : CompactionPreparation) (id summary : String)
    (fromHook : Bool) : List Entry :=
  entries ++ [⟨id, .compaction summary preparation.firstKeptEntryId fromHook⟩]

theorem paired_summary {summary : String} {messages : List AgentMessage} :
    Paired ({ body := .compactionSummary summary } :: messages) ↔ Paired messages := by
  simp [Paired, PairedAfter, Body.toolResult?, AgentMessage.callIds, Body.toolCalls]

/-- The context after a compaction at a cut is paired unless the cut splits a pair. -/
theorem paired_compacted_iff (path : SessionPath) {cut : Nat} {entry : Entry}
    {preparation : CompactionPreparation} {id summary : String} {fromHook : Bool}
    (found : (compactionWindow path.entries).window[moveBackOverMetadata
      (compactionWindow path.entries).window cut]? = some entry)
    (kept : preparation.firstKeptEntryId = entry.id) :
    Paired (contextMessages (compacted path.entries preparation id summary fromHook)) ↔
      ¬ SplitsPair (compactionWindow path.entries).window cut := by
  obtain ⟨start, window⟩ := window_eq_drop path.entries
  rw [← paired_drop_iff, compacted, kept]
  generalize (compactionWindow path.entries).window = entries at found window ⊢
  subst window
  have found' := found
  rw [List.getElem?_drop] at found'
  rw [contextMessages_compacted path found', paired_summary, Paired,
    pairedAfter_congr (map_shape_retained _), Paired, ← List.drop_drop,
    (filterMap_moveBack currentMessage (fun _ => currentMessage_passed) cut).1]

theorem CutReachable.isCutPoint (reachable : CutReachable E window cut) :
    cut = 0 ∨ cut ∈ findValidCutPoints window := by
  cases reachable with
  | whole none => exact .inl rfl
  | first cut head small => exact .inr (List.mem_of_mem_head? head)
  | stop stop cut can selected =>
      right
      unfold cutPointFrom at selected
      cases found : (findValidCutPoints window).find? fun cutPoint => stop ≤ cutPoint with
      | some other =>
          rw [found] at selected
          cases selected
          exact List.mem_of_find?_eq_some found
      | none =>
          rw [found] at selected
          exact List.mem_of_getLast? selected

/-- Tool results that follow their call directly, or behind other results, are never split off. -/
theorem pairsUnsplit_of_contiguous
    (contiguous : ∀ index message result,
      messageAt (compactionWindow entries).window index = some message →
      message.body.toolResult? = some result →
      ∃ call < index, (∃ other, messageAt (compactionWindow entries).window call = some other ∧
        Answers result other) ∧
        ∀ between ∈ findValidCutPoints (compactionWindow entries).window,
          between ≤ call ∨ index < between) : PairsUnsplit E entries := by
  rintro - cut reachable - ⟨index, message, result, after, found, isResult, alone⟩
  obtain ⟨call, before, ⟨other, issued, answers⟩, noCut⟩ := contiguous index message result found
    isResult
  have outside : call < cut := not_le.mp fun inside => alone call other inside before issued answers
  rcases reachable.isCutPoint with rfl | isCut
  · exact Nat.not_lt_zero _ outside
  · rcases noCut cut isCut with le | beyond
    · exact absurd outside (not_lt.mpr le)
    · exact absurd after (not_le.mpr beyond)

/-- The estimator on plain text: four characters a token, no usage reported. -/
def plainEstimator : Estimator where
  estimateTokens message :=
    match message.body with
    | .user content | .toolResult _ _ _ _ content => (content.length + 3) / 4
    | .assistant content toolCalls _ =>
        (content.length + (toolCalls.map fun call => (call.name.getD "").length + 2).sum + 3) / 4
    | _ => 0
  usageTokens _ := some 0

/-- A user message was recorded while a tool call was running. -/
def interruptedCall : SessionPath where
  entries := [
    ⟨"1", .message { body := .user "run it" }⟩,
    ⟨"2", .message { body := .assistant "" [⟨"call", some "exec"⟩] false }⟩,
    ⟨"3", .message { body := .user "be quick" }⟩,
    ⟨"4", .message { body := .toolResult ["call"] (some "exec") false false "done" }⟩]
  ids := by decide
  named := by decide

end Compaction
