import OpenClaw.MarkdownCore.CodeChunks

/-!
The index of code spans chunk by chunk. Each chunk but the last ends with a line feed, and the
states that one chunk leaves are those that the next one starts with; the answers are those of
the index of the whole text.
-/

namespace OpenClaw.MarkdownCore

open JsUnits
open SpanTracking

variable {text chunk rest : Text} {index : Nat}

/-- The calls for the chunks of a text, with the states that are carried. -/
def indexChunks : List Text → InlineCodeState → FenceScanState → List (Text × CodeSpanIndex)
  | [], _, _ => []
  | chunk :: chunks, inlineState, fenceState =>
      let index := buildCodeSpanIndex chunk inlineState fenceState
      (chunk, index) :: indexChunks chunks index.inlineState index.fenceState

/-- The answer of the chunk that an offset lies in. -/
def isInsideChunks : List (Text × CodeSpanIndex) → Nat → Bool
  | [], _ => false
  | (chunk, index) :: others, offset =>
      if offset < chunk.length then index.isInside offset
      else isInsideChunks others (offset - chunk.length)

/-- The fence spans of the chunks, at their places in the whole text. -/
def chunkFenceSpans : List Text → FenceScanState → List FenceSpan
  | [], _ => []
  | chunk :: chunks, state =>
      (scanFenceSpans chunk state).1 ++
        (chunkFenceSpans chunks (scanFenceSpans chunk state).2).map (Span.shift chunk.length)

theorem EndsLine.ne_nil (ends : EndsLine chunk) : chunk ≠ [] := by
  rintro rfl
  cases ends

theorem scanFenceSpans_state (ends : EndsLine chunk) (state : FenceScanState) :
    (scanFenceSpans chunk state).2 =
      { atLineStart := true, opened := (scanFences chunk state).openData } := by
  have filled : ¬ chunk.length = 0 := (List.length_pos_of_ne_nil ends.ne_nil).ne'
  have feed : decide (chunk.getLast? = some lineFeed) = true := decide_eq_true ends
  simp only [scanFenceSpans, filled, if_false, feed]

/-- The fences of the whole text are those of its parts, joined. -/
theorem scanFenceSpans_append (ends : EndsLine chunk) (rest : Text) (state : FenceScanState) :
    let before := scanFenceSpans chunk state
    let behind := scanFenceSpans rest before.2
    Joins chunk.length (scanFenceSpans (chunk ++ rest) state).1 before.1 behind.1 ∧
      (scanFenceSpans (chunk ++ rest) state).2 = behind.2 := by
  intro before behind
  obtain ⟨scanned, continues⟩ := scanFences_append ends rest state
  have carried := scanFenceSpans_state ends state
  have ordered := scanFences_ordered ends.ne_nil state
  constructor
  · have joins := Tracker.finish_resume continues
      (fun opened same => (ordered.opened opened same).1.le) rest.length
    simp only [behind, before, carried]
    simp only [scanFenceSpans, List.length_append]
    rw [scanned]
    exact joins
  · simp only [behind, before, carried]
    simp only [scanFenceSpans, scanned, Tracker.openData_resume continues]
    congr 1
    obtain _ | ⟨unit, units⟩ := rest
    · have filled : ¬ chunk.length = 0 := (List.length_pos_of_ne_nil ends.ne_nil).ne'
      have feed : decide (chunk.getLast? = some lineFeed) = true := decide_eq_true ends
      simp [ends.ne_nil, feed]
    · simp [List.getLast?_append]

theorem scanFenceSpans_ordered (text : Text) (state : FenceScanState) :
    (scanFenceSpans text state).1.Pairwise (fun before behind => before.stop ≤ behind.start) ∧
      ∀ span ∈ (scanFenceSpans text state).1, span.start ≤ span.stop ∧ span.stop ≤ text.length := by
  obtain _ | ⟨unit, units⟩ := text
  · obtain ⟨atLineStart, _ | opener⟩ := state
    · exact ⟨.nil, fun _ mem => absurd mem List.not_mem_nil⟩
    · refine ⟨List.pairwise_singleton .., fun span mem => ?_⟩
      rw [List.mem_singleton.mp mem]
      exact ⟨le_rfl, le_rfl⟩
  · obtain ⟨apart, inside⟩ := (scanFences_ordered (List.cons_ne_nil unit units) state).finish le_rfl
    exact ⟨apart, fun span mem => (inside span mem).2⟩

theorem scanFenceSpans_ahead (ends : EndsLine chunk) (state : FenceScanState) :
    Ahead chunk.length (scanFenceSpans chunk state).1 := by
  obtain ⟨apart, inside⟩ := (scanFences_ordered ends.ne_nil state).finish le_rfl
  exact ⟨apart, fun span mem => ⟨(inside span mem).1, (inside span mem).2.2⟩⟩

theorem isInsideSpan_iff {δ : Type} {spans : List (Span δ)} :
    isInsideSpan index spans = true ↔ ∃ span ∈ spans, span.Covers index := by
  simp [isInsideSpan]

/-- An offset of joined spans is looked up in the part that it lies in. -/
theorem isInsideSpan_joins {δ : Type} {offset : Nat} {whole first second : List (Span δ)}
    (joins : Joins offset whole first second) (bounded : ∀ span ∈ first, span.stop ≤ offset)
    (index : Nat) : isInsideSpan index whole =
      if index < offset then isInsideSpan index first else isInsideSpan (index - offset) second := by
  rw [Bool.eq_iff_iff, isInsideSpan_iff, joins.concatenates.covers_iff]
  split
  case isTrue before =>
    rw [isInsideSpan_iff]
    constructor
    · rintro ⟨span, mem, covers⟩
      obtain mem | mem := List.mem_append.mp mem
      · exact ⟨span, mem, covers⟩
      · obtain ⟨span, _, rfl⟩ := List.mem_map.mp mem
        have start : offset + span.start ≤ index := covers.1
        omega
    · rintro ⟨span, mem, covers⟩
      exact ⟨span, List.mem_append_left _ mem, covers⟩
  case isFalse behind =>
    rw [isInsideSpan_iff]
    constructor
    · rintro ⟨span, mem, covers⟩
      obtain mem | mem := List.mem_append.mp mem
      · have stop := bounded span mem
        have last := covers.2
        omega
      · obtain ⟨span, mem', rfl⟩ := List.mem_map.mp mem
        have start : offset + span.start ≤ index := covers.1
        have stop : index < offset + span.stop := covers.2
        refine ⟨span, mem', ?_⟩
        constructor <;> omega
    · rintro ⟨span, mem, start, stop⟩
      refine ⟨span.shift offset, List.mem_append_right _ (List.mem_map_of_mem mem), ?_⟩
      constructor
      · simp only [Span.shift]
        omega
      · simp only [Span.shift]
        omega

/-- One chunk and what is behind it give the index of the whole. -/
theorem buildCodeSpanIndex_append (ends : EndsLine chunk) (rest : Text)
    (inlineState : InlineCodeState) (fenceState : FenceScanState) :
    let before := buildCodeSpanIndex chunk inlineState fenceState
    let behind := buildCodeSpanIndex rest before.inlineState before.fenceState
    let whole := buildCodeSpanIndex (chunk ++ rest) inlineState fenceState
    whole.inlineState = behind.inlineState ∧ whole.fenceState = behind.fenceState ∧
      ∀ offset, whole.isInside offset =
        if offset < chunk.length then before.isInside offset
        else behind.isInside (offset - chunk.length) := by
  intro before behind whole
  obtain ⟨fences, fenceState'⟩ := scanFenceSpans_append ends rest fenceState
  have ahead := scanFenceSpans_ahead ends fenceState
  obtain ⟨spans, inlineState'⟩ := parseInlineCodeSpans_append ends rest fences ahead inlineState
  refine ⟨inlineState', fenceState', fun offset => ?_⟩
  have fenced := isInsideSpan_joins fences (fun span mem => (ahead.inside span mem).2) offset
  have inlined := isInsideSpan_joins spans (parseInlineCodeSpans_within _ _ _) offset
  simp only [whole, before, behind, buildCodeSpanIndex]
  rw [fenced, inlined]
  split
  case isTrue => rfl
  case isFalse => rfl

theorem isInside_outside (text : Text) (inlineState : InlineCodeState) (fenceState : FenceScanState)
    {offset : Nat} (outside : text.length ≤ offset) :
    (buildCodeSpanIndex text inlineState fenceState).isInside offset = false := by
  have nowhere : ∀ {δ : Type} {spans : List (Span δ)}, (∀ span ∈ spans, span.stop ≤ text.length) →
      isInsideSpan offset spans = false := by
    intro δ spans bounded
    rw [← Bool.not_eq_true, isInsideSpan_iff]
    rintro ⟨span, mem, _, last⟩
    have stop := bounded span mem
    omega
  have fences := (scanFenceSpans_ordered text fenceState).2
  simp only [buildCodeSpanIndex]
  rw [nowhere fun span mem => (fences span mem).2, nowhere (parseInlineCodeSpans_within _ _ _)]
  rfl

theorem chunkFenceSpans_concatenates {lines : List Text} (ends : ∀ chunk ∈ lines, EndsLine chunk)
    (last : Text) (state : FenceScanState) :
    Concatenates (scanFenceSpans (lines.flatten ++ last) state).1
      (chunkFenceSpans (lines ++ [last]) state) := by
  induction lines generalizing state with
  | nil =>
      have single : chunkFenceSpans [last] state = (scanFenceSpans last state).1 :=
        List.append_nil _
      rw [List.flatten_nil, List.nil_append, List.nil_append, single]
      exact .refl _
  | cons chunk lines ih =>
      obtain ⟨first, others⟩ := List.forall_mem_cons.mp ends
      obtain ⟨joins, _⟩ := scanFenceSpans_append first (lines.flatten ++ last) state
      rw [List.flatten_cons, List.append_assoc]
      exact joins.concatenates.trans ((Concatenates.refl _).append ((ih others _).shift chunk.length))

/-- The answers for the chunks of a text and the states they leave are those for the whole text,
and its fences are those of the chunks, where a fence that goes over a cut is in pieces. -/
theorem indexChunks_eq_whole {lines : List Text} (ends : ∀ chunk ∈ lines, EndsLine chunk)
    (last : Text) (inlineState : InlineCodeState) (fenceState : FenceScanState) :
    let whole := buildCodeSpanIndex (lines.flatten ++ last) inlineState fenceState
    let calls := indexChunks (lines ++ [last]) inlineState fenceState
    let fences := (scanFenceSpans (lines.flatten ++ last) fenceState).1
    (∀ offset, isInsideChunks calls offset = whole.isInside offset) ∧
      (calls.getLast?.map fun call => (call.2.inlineState, call.2.fenceState)) =
        some (whole.inlineState, whole.fenceState) ∧
      fences.Pairwise (fun before behind => before.stop ≤ behind.start) ∧
      (∀ fence ∈ fences, fence.start ≤ fence.stop) ∧
      Concatenates fences (chunkFenceSpans (lines ++ [last]) fenceState) := by
  intro whole calls fences
  have ordered := scanFenceSpans_ordered (lines.flatten ++ last) fenceState
  refine ⟨?_, ?_, ordered.1, fun fence mem => (ordered.2 fence mem).1,
    chunkFenceSpans_concatenates ends last fenceState⟩
  all_goals
    simp only [whole, calls]
    clear whole calls fences ordered
  · induction lines generalizing inlineState fenceState with
    | nil =>
        intro offset
        rw [List.flatten_nil, List.nil_append, List.nil_append, indexChunks, isInsideChunks]
        split
        case isTrue => rfl
        case isFalse outside => exact (isInside_outside _ _ _ (not_lt.mp outside)).symm
    | cons chunk lines ih =>
        intro offset
        obtain ⟨first, others⟩ := List.forall_mem_cons.mp ends
        obtain ⟨_, _, inside⟩ :=
          buildCodeSpanIndex_append first (lines.flatten ++ last) inlineState fenceState
        rw [List.flatten_cons, List.append_assoc, inside, List.cons_append, indexChunks,
          isInsideChunks, ih others]
  · induction lines generalizing inlineState fenceState with
    | nil => rfl
    | cons chunk lines ih =>
        obtain ⟨first, others⟩ := List.forall_mem_cons.mp ends
        obtain ⟨inline, fence, _⟩ :=
          buildCodeSpanIndex_append first (lines.flatten ++ last) inlineState fenceState
        have more : indexChunks (lines ++ [last])
            (buildCodeSpanIndex chunk inlineState fenceState).inlineState
            (buildCodeSpanIndex chunk inlineState fenceState).fenceState ≠ [] := by
          cases lines <;> exact List.cons_ne_nil _ _
        rw [List.flatten_cons, List.append_assoc, inline, fence, List.cons_append, indexChunks,
          List.getLast?_cons_of_ne_nil more]
        exact ih others _ _

/-- An inline span that is open over the end of a line. -/
theorem indexChunks_eq_whole_example :
    isInsideChunks (indexChunks [[backtick, lineFeed], [0x61, backtick]] {} {}) 2 =
      (buildCodeSpanIndex [backtick, lineFeed, 0x61, backtick] {} {}).isInside 2 :=
  (@indexChunks_eq_whole [[backtick, lineFeed]]
    (fun _ mem => by rw [List.mem_singleton.mp mem]; rfl) [0x61, backtick] {} {}).1 2

end OpenClaw.MarkdownCore
