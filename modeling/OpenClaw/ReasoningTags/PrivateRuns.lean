import OpenClaw.ReasoningTags.Private

/-!
Private reasoning over sequences of calls that share their state. Every character is
labelled with the call and the position it comes from, so a delta shows where its
characters stand; those of private blocks stay out exactly as long as no call stops
reading tags in front of such a block.
-/

namespace OpenClaw.ReasoningTags

open JsUnits

section Calls

variable {α : Type} [HasUnit α] {Secret : α → Prop}

/-- What a call may find in the shared state. -/
structure StateOk (Secret : α → Prop) (state : ReductionState α) : Prop where
  block : 0 < state.depth → state.pending.isSome
  clean : CleanPending Secret state

def Call.run (state : ReductionState α) (call : Call α) : Reduction α :=
  reduceReasoningText call.text call.codeSpans state call.options

/-- The secret characters of a call's text are those at its private positions. -/
def Marks (Secret : α → Prop) (state : ReductionState α) (call : Call α) : Prop :=
  ∀ position a, call.options.start ≤ position → call.text[position]? = some a →
    (Secret a ↔ PrivateAt state call position)

theorem call_outcome {state : ReductionState α} {call : Call α} (ok : StateOk Secret state)
    (marks : Marks Secret state call) :
    (¬Exposes state call ∧ CleanOutput Secret (call.run state).output ∧
        StateOk Secret (call.run state).state) ∨
      (Exposes state call ∧ Leaks Secret (call.run state).output) := by
  have follows : Follows Secret ⟨[], state⟩
      ⟨nestingOf state, state.visibleEver, call.options.start⟩ := by
    refine ⟨rfl, rfl, fun outside => ?_, fun inside => ?_, ok.clean, fun delta mem => ?_⟩
    · have depth : state.depth = 0 := outside
      simp [nestingOf, depth]
    · have depth : 0 < state.depth := inside
      obtain ⟨pending, found⟩ := Option.isSome_iff_exists.mp (ok.block depth)
      exact ⟨pending, found, by simp [nestingOf, depth, found]⟩
    · simp at mem
  have nested : ∀ position, call.options.start ≤ position →
      (PrivateAt state call position ↔
        (nestingAt (visibleTags call.text call.codeSpans call.options) (nestingOf state)
          position).isPrivate = true) := fun position behind => and_iff_right behind
  have outcome := loop_outcome call.text call.options (PrivateAt state call) marks
    (visibleTags call.text call.codeSpans call.options) call.options.start ⟨[], state⟩ _ follows
    rfl (Nat.le_refl _) (visibleTags_ordered call.text call.codeSpans call.options) nested
  simp only [Call.run, reduceReasoningText]
  rcases outcome with ⟨safe, last, ends, rest⟩ | ⟨exposes, leaks, stop, depth⟩
  · have finished := ends.append rest last.cursor
    refine .inl ⟨safe, ?_⟩
    split
    · obtain ⟨output, pending, block⟩ := finished.recover call.options.mode
      exact ⟨output, block, pending⟩
    · refine ⟨finished.output, fun inside => ?_, finished.pending⟩
      obtain ⟨pending, found, -⟩ := finished.inside (finished.depth ▸ inside)
      rw [found]
      rfl
  · refine .inr ⟨exposes, ?_⟩
    rw [stop, List.drop_length]
    have idle : ∀ r : Reduction α, r.append [] = r := fun r => rfl
    rw [idle]
    split
    · have outside : ∀ r : Reduction α, r.state.depth = 0 →
          (r.recover call.options.mode).output = r.output := by
        intro r zero
        unfold Reduction.recover
        split
        · rw [if_neg (by omega)]
        · rfl
      rw [outside _ depth]
      exact leaks
    · exact leaks

/-- Successive calls that share their state. -/
def runCalls (state : ReductionState α) : List (Call α) → List (Reduction α)
  | [] => []
  | call :: calls => call.run state :: runCalls (call.run state).state calls

/-- The calls with the states they start in. -/
def startedCalls (state : ReductionState α) : List (Call α) → List (ReductionState α × Call α)
  | [] => []
  | call :: calls => (state, call) :: startedCalls (call.run state).state calls

theorem runs_clean_iff {state : ReductionState α} {calls : List (Call α)}
    (ok : StateOk Secret state)
    (marks : ∀ started ∈ startedCalls state calls, Marks Secret started.1 started.2) :
    (∀ r ∈ runCalls state calls, CleanOutput Secret r.output) ↔
      ∀ started ∈ startedCalls state calls, ¬Exposes started.1 started.2 := by
  induction calls generalizing state with
  | nil => simp [runCalls, startedCalls]
  | cons call calls ih =>
      simp only [runCalls, startedCalls, List.forall_mem_cons] at marks ⊢
      rcases call_outcome ok marks.1 with ⟨safe, clean, next⟩ | ⟨exposes, leaks⟩
      · rw [ih next marks.2]
        exact ⟨fun rest => ⟨safe, rest.2⟩, fun rest => ⟨clean, rest.2⟩⟩
      · obtain ⟨delta, mem, -, a, own, secret⟩ := leaks
        exact ⟨fun clean => absurd secret (clean.1 delta mem a own),
          fun safe => absurd exposes safe.1⟩

end Calls

section Labels

/-- A character with the call and the position it comes from; what an earlier state already
held comes from no call. -/
structure Cell where
  unit : UInt16
  origin : Option (Nat × Nat)
  deriving DecidableEq, Repr

instance : HasUnit Cell := ⟨Cell.unit⟩

def labelText (call : Nat) (text : Text) : List Cell :=
  text.mapIdx fun position u => ⟨u, some (call, position)⟩

def labelCall (index : Nat) (call : Call UInt16) : Call Cell :=
  ⟨labelText index call.text, call.codeSpans, call.options⟩

def labelCalls (index : Nat) : List (Call UInt16) → List (Call Cell)
  | [] => []
  | call :: calls => labelCall index call :: labelCalls (index + 1) calls

def labelState (state : ReductionState UInt16) : ReductionState Cell :=
  state.map fun u => ⟨u, none⟩

/-- The run of the calls on labelled characters. -/
def labelledRuns (state : ReductionState UInt16) (calls : List (Call UInt16)) :
    List (Reduction Cell) :=
  runCalls (labelState state) (labelCalls 0 calls)

/-- The character stands in a private block of the call it comes from. -/
def PrivateCell (state : ReductionState UInt16) (calls : List (Call UInt16)) (cell : Cell) : Prop :=
  ∃ index position started, cell.origin = some (index, position) ∧
    (startedCalls state calls)[index]? = some started ∧ PrivateAt started.1 started.2 position

theorem map_unit_labelText (index : Nat) (text : Text) :
    (labelText index text).map Cell.unit = text := by
  apply List.ext_getElem?
  intro position
  have erase : Cell.unit ∘ (fun u => (⟨u, some (index, position)⟩ : Cell)) = id := rfl
  simp [labelText, erase]

theorem map_unit_labelState (state : ReductionState UInt16) :
    (labelState state).map Cell.unit = state := by
  obtain ⟨depth, visibleEver, pending⟩ := state
  have erase : Cell.unit ∘ (fun u => (⟨u, none⟩ : Cell)) = id := rfl
  cases pending <;> simp [labelState, ReductionState.map, Pending.map, erase]

theorem run_erase (index : Nat) (state : ReductionState Cell) (call : Call UInt16) :
    ((labelCall index call).run state).map Cell.unit = call.run (state.map Cell.unit) := by
  have natural := reduceReasoningText_map (f := Cell.unit) (fun _ => rfl)
    (labelText index call.text) call.codeSpans state call.options
  rw [map_unit_labelText] at natural
  exact natural.symm

theorem runCalls_erase (index : Nat) (state : ReductionState Cell) (calls : List (Call UInt16)) :
    (runCalls state (labelCalls index calls)).map (Reduction.map Cell.unit) =
      runCalls (state.map Cell.unit) calls := by
  induction calls generalizing index state with
  | nil => rfl
  | cons call calls ih =>
      have run := run_erase index state call
      simp only [labelCalls, runCalls, List.map_cons, run, ih]
      rw [← run]
      rfl

theorem nestingOf_map {α β : Type} (f : α → β) (state : ReductionState α) :
    nestingOf (state.map f) = nestingOf state := by
  obtain ⟨depth, visibleEver, pending⟩ := state
  cases pending <;> rfl

theorem privateAt_label (index : Nat) (state : ReductionState Cell) (call : Call UInt16)
    (position : Nat) :
    PrivateAt state (labelCall index call) position ↔
      PrivateAt (state.map Cell.unit) call position := by
  have tags := visibleTags_map (f := Cell.unit) (fun _ => rfl) (labelText index call.text)
    call.codeSpans call.options
  rw [map_unit_labelText] at tags
  simp only [PrivateAt, nestingOf_map, labelCall, ← tags]

/-- The labelled calls start in labelled states, position by position. -/
theorem startedCalls_label (index : Nat) (state : ReductionState Cell)
    (calls : List (Call UInt16)) (i : Nat) :
    ((startedCalls state (labelCalls index calls))[i]?).map
        (fun started => started.1.map Cell.unit) =
      ((startedCalls (state.map Cell.unit) calls)[i]?).map (·.1) ∧
    ((startedCalls state (labelCalls index calls))[i]?).map (·.2) =
      ((startedCalls (state.map Cell.unit) calls)[i]?).map
        (fun started => labelCall (index + i) started.2) := by
  induction calls generalizing index state i with
  | nil => simp [labelCalls, startedCalls]
  | cons call calls ih =>
      cases i with
      | zero => simp [labelCalls, startedCalls]
      | succ i =>
          have run := run_erase index state call
          have next := ih (index + 1) ((labelCall index call).run state).state i
          have state_eq : ((labelCall index call).run state).state.map Cell.unit =
              (call.run (state.map Cell.unit)).state := congrArg Reduction.state run
          have shift : index + 1 + i = index + (i + 1) := by omega
          rw [state_eq, shift] at next
          simpa only [labelCalls, startedCalls, List.getElem?_cons_succ] using next

theorem labelText_origin {index position : Nat} {text : Text} {cell : Cell}
    (found : (labelText index text)[position]? = some cell) :
    cell.origin = some (index, position) := by
  rw [labelText, List.getElem?_mapIdx] at found
  obtain ⟨u, -, same⟩ := Option.map_eq_some_iff.mp found
  rw [← same]

theorem labelled_marks (state : ReductionState UInt16) (calls : List (Call UInt16)) :
    ∀ started ∈ startedCalls (labelState state) (labelCalls 0 calls),
      Marks (PrivateCell state calls) started.1 started.2 := by
  intro started mem position cell _ found
  obtain ⟨index, at_⟩ := List.mem_iff_getElem?.mp mem
  obtain ⟨states, texts⟩ := startedCalls_label 0 (labelState state) calls index
  rw [map_unit_labelState, at_] at states texts
  cases plain : (startedCalls state calls)[index]? with
  | none => simp [plain] at states
  | some original =>
      rw [plain] at states texts
      simp only [Option.map_some, Option.some.injEq, Nat.zero_add] at states texts
      have same : PrivateAt started.1 started.2 position ↔
          PrivateAt original.1 original.2 position := by
        rw [texts, privateAt_label, states]
      rw [texts] at found
      have origin := labelText_origin found
      rw [same]
      constructor
      · rintro ⟨other, position', started', origin', found', isPrivate⟩
        rw [origin] at origin'
        cases origin'
        rw [plain] at found'
        cases found'
        exact isPrivate
      · intro isPrivate
        exact ⟨index, position, original, origin, plain, isPrivate⟩

theorem visibleBefore_map {α β : Type} [HasUnit α] [HasUnit β] {f : α → β}
    (same : ∀ a, unitOf (f a) = unitOf a) (text : List α) (progress : Progress)
    (tag : ReasoningTagMatch) :
    progress.visibleBefore (text.map f) tag = progress.visibleBefore text tag := by
  simp only [Progress.visibleBefore, slice_map, hasVisible_map same]

theorem exposesFrom_map {α β : Type} [HasUnit α] [HasUnit β] {f : α → β}
    (same : ∀ a, unitOf (f a) = unitOf a) (text : List α) (mode : RecoveryMode)
    (isPrivate : Nat → Prop) (progress : Progress) (tags : List ReasoningTagMatch) :
    ExposesFrom (text.map f) mode isPrivate progress tags ↔
      ExposesFrom text mode isPrivate progress tags := by
  induction tags generalizing progress with
  | nil => exact Iff.rfl
  | cons tag tags ih =>
      have step : progress.step (text.map f) mode tag = progress.step text mode tag := by
        simp only [Progress.step, visibleBefore_map same, slice_map, hasVisible_map same,
          ← List.map_drop]
      simp only [ExposesFrom, visibleBefore_map same, List.length_map, step, ih]

theorem exposes_label (index : Nat) (state : ReductionState Cell) (call : Call UInt16) :
    Exposes state (labelCall index call) ↔ Exposes (state.map Cell.unit) call := by
  have tags := visibleTags_map (f := Cell.unit) (fun _ => rfl) (labelText index call.text)
    call.codeSpans call.options
  rw [map_unit_labelText] at tags
  have positions : PrivateAt state (labelCall index call) =
      PrivateAt (state.map Cell.unit) call :=
    funext fun position => propext (privateAt_label index state call position)
  have moved := exposesFrom_map (f := Cell.unit) (fun _ => rfl) (labelText index call.text)
    call.options.mode (PrivateAt (state.map Cell.unit) call)
    ⟨nestingOf state, state.visibleEver, call.options.start⟩
    (visibleTags call.text call.codeSpans call.options)
  rw [map_unit_labelText] at moved
  simp only [Exposes, positions, nestingOf_map]
  simp only [labelCall, ← tags]
  exact and_congr_right fun _ => moved.symm

theorem exposes_labelCalls (state : ReductionState UInt16) (calls : List (Call UInt16)) :
    (∀ started ∈ startedCalls (labelState state) (labelCalls 0 calls),
        ¬Exposes started.1 started.2) ↔
      ∀ started ∈ startedCalls state calls, ¬Exposes started.1 started.2 := by
  have related := startedCalls_label 0 (labelState state) calls
  rw [map_unit_labelState] at related
  have pair : ∀ (index : Nat) (started : ReductionState Cell × Call Cell)
      (original : ReductionState UInt16 × Call UInt16),
      (startedCalls (labelState state) (labelCalls 0 calls))[index]? = some started →
      (startedCalls state calls)[index]? = some original →
      (Exposes started.1 started.2 ↔ Exposes original.1 original.2) := by
    intro index started original at_ plain
    obtain ⟨states, texts⟩ := related index
    rw [at_, plain] at states texts
    simp only [Option.map_some, Option.some.injEq] at states texts
    rw [texts, exposes_label, states]
  constructor
  · intro safe original mem
    obtain ⟨index, plain⟩ := List.mem_iff_getElem?.mp mem
    have states := (related index).1
    rw [plain] at states
    obtain ⟨started, at_, -⟩ := Option.map_eq_some_iff.mp states
    exact fun exposes => safe started (List.mem_of_getElem? at_)
      ((pair index started original at_ plain).mpr exposes)
  · intro safe started mem
    obtain ⟨index, at_⟩ := List.mem_iff_getElem?.mp mem
    have states := (related index).1
    rw [at_] at states
    obtain ⟨original, plain, -⟩ := Option.map_eq_some_iff.mp states.symm
    exact fun exposes => safe original (List.mem_of_getElem? plain)
      ((pair index started original at_ plain).mp exposes)

theorem labelState_ok (state : ReductionState UInt16) (outside : state.depth = 0)
    (Secret : Cell → Prop) : StateOk Secret (labelState state) :=
  ⟨fun inside => absurd inside (by simp [labelState, ReductionState.map, outside]),
    fun _ _ inside => absurd inside (by simp [labelState, ReductionState.map, outside])⟩

/-- The recovery mode a strip runs in. -/
def stripOptions (mode : StripMode) (scope : Scope) (recoverUnclosed : Bool) : ReductionOptions :=
  ⟨true, if recoverUnclosed = false then .hide
    else if mode = .preserve then .staticPreserve else .staticStrict, scope, 0⟩

theorem strip_erase (codeSpans : List (Nat × Nat)) (text : Text) (mode : StripMode)
    (scope : Scope) (recoverUnclosed : Bool) :
    (stripReasoningTagsFromMarkdown codeSpans (labelText 0 text) mode scope
        recoverUnclosed).map Cell.unit =
      stripReasoningTagsFromMarkdown codeSpans text mode scope recoverUnclosed := by
  have run := run_erase 0 ⟨0, false, none⟩
    ⟨text, codeSpans, stripOptions mode scope recoverUnclosed⟩
  have output := congrArg Reduction.output run
  simp only [Call.run, Reduction.map, labelCall, stripOptions] at output
  simp only [stripReasoningTagsFromMarkdown]
  have plain : (⟨0, false, none⟩ : ReductionState Cell).map Cell.unit = ⟨0, false, none⟩ := rfl
  rw [plain] at output
  rw [← output, List.filter_map, List.flatMap_map, List.map_flatMap]
  rfl

/-- For every sequence of calls sharing a state of depth zero, the characters of private blocks
stay out of all deltas exactly when no call stops reading tags in front of a private block;
the same condition on its one call keeps them out of a stripped text. -/
theorem private_reasoning_stays_hidden_iff (state : ReductionState UInt16)
    (outside : state.depth = 0) (calls : List (Call UInt16)) :
    (labelledRuns state calls).map (Reduction.map Cell.unit) = runCalls state calls ∧
      ((∀ r ∈ labelledRuns state calls, ∀ delta ∈ r.output, ∀ cell ∈ delta.text,
          ¬PrivateCell state calls cell) ↔
        ∀ started ∈ startedCalls state calls, ¬Exposes started.1 started.2) ∧
      ∀ codeSpans text mode scope recoverUnclosed,
        (stripReasoningTagsFromMarkdown codeSpans (labelText 0 text) mode scope
            recoverUnclosed).map Cell.unit =
          stripReasoningTagsFromMarkdown codeSpans text mode scope recoverUnclosed ∧
        ((∀ cell ∈ stripReasoningTagsFromMarkdown codeSpans (labelText 0 text) mode scope
            recoverUnclosed, ¬PrivateCell ⟨0, false, none⟩
              [⟨text, codeSpans, stripOptions mode scope recoverUnclosed⟩] cell) ↔
          ¬Exposes ⟨0, false, none⟩
            ⟨text, codeSpans, stripOptions mode scope recoverUnclosed⟩) := by
  refine ⟨?_, ?_, fun codeSpans text mode scope recoverUnclosed =>
    ⟨strip_erase codeSpans text mode scope recoverUnclosed, ?_⟩⟩
  · rw [labelledRuns, runCalls_erase, map_unit_labelState]
  · rw [← exposes_labelCalls]
    exact runs_clean_iff (labelState_ok state outside _) (labelled_marks state calls)
  · have marks := labelled_marks ⟨0, false, none⟩
      [⟨text, codeSpans, stripOptions mode scope recoverUnclosed⟩] _ (List.mem_singleton.mpr rfl)
    have outcome := call_outcome (labelState_ok ⟨0, false, none⟩ rfl _) marks
    rw [exposes_label, map_unit_labelState] at outcome
    rcases outcome with ⟨safe, clean, -⟩ | ⟨exposes, delta, mem, kind, cell, own, secret⟩
    · refine iff_of_true (fun cell mem => ?_) safe
      obtain ⟨delta, kept, own⟩ := List.mem_flatMap.mp mem
      exact clean delta (List.mem_of_mem_filter kept) cell own
    · refine iff_of_false (fun clean => ?_) (fun safe => safe exposes)
      exact clean cell (List.mem_flatMap.mpr
        ⟨delta, List.mem_filter.mpr ⟨mem, by simp [kind]⟩, own⟩) secret

/-- One call that strips a private block behind visible text. -/
def leadingCall : Call UInt16 :=
  ⟨lit "a <internal>b</internal> c", [], ⟨true, .hide, .leading, 0⟩⟩

theorem private_reasoning_stays_hidden_leading :
    (labelledRuns ⟨0, false, none⟩ [leadingCall]).map (Reduction.map Cell.unit) =
        runCalls ⟨0, false, none⟩ [leadingCall] ∧
      ∀ r ∈ labelledRuns ⟨0, false, none⟩ [leadingCall], ∀ delta ∈ r.output,
        ∀ cell ∈ delta.text, ¬PrivateCell ⟨0, false, none⟩ [leadingCall] cell := by
  have hidden := private_reasoning_stays_hidden_iff ⟨0, false, none⟩ rfl [leadingCall]
  refine ⟨hidden.1, hidden.2.1.mpr ?_⟩
  intro started mem exposes
  rw [List.mem_singleton.mp mem] at exposes
  have tags : visibleTags (lit "a <internal>b</internal> c") [] ⟨true, .hide, .leading, 0⟩ =
      [⟨⟨10, false, false, true⟩, 2⟩, ⟨⟨11, true, false, true⟩, 13⟩] := by decide +kernel
  simp only [Exposes, leadingCall, tags, ExposesFrom] at exposes
  rcases exposes.2 with first | second | none
  · exact absurd first.1 (by decide)
  · exact absurd second.1 (by decide)
  · exact none

/-- A self-closing tag behind visible text hands a private block on. -/
theorem self_closing_tag_hands_on_private_block :
    ¬∀ cell ∈ stripReasoningTagsFromMarkdown []
        (labelText 0 (lit "hello <think/> x <internal>secret</internal>")) .strict .leading true,
      ¬PrivateCell ⟨0, false, none⟩ [⟨lit "hello <think/> x <internal>secret</internal>", [],
        stripOptions .strict .leading true⟩] cell := by
  intro hidden
  refine hidden ⟨unit 's', some (0, 27)⟩ (by decide +kernel) ⟨0, 27, _, rfl, rfl, ?_⟩
  exact ⟨by decide, by decide +kernel⟩

end Labels

end OpenClaw.ReasoningTags
