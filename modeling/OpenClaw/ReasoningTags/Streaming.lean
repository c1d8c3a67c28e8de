import OpenClaw.ReasoningTags.Reading

/-!
The calls of the reducer that a partitioner makes, as runs of the machine over items: on
the settled part of a text, on a held text without a pending tag, and on the last text.
Deltas are grouped when neighbours differ in kind and none is empty, so that they are
determined by their characters.
-/

namespace OpenClaw.ReasoningTags

open JsUnits

section Tags

theorem isInsideCode_nil (index : Nat) : isInsideCode index [] = false := rfl

def ReasoningTagScan.shift (scan : ReasoningTagScan) (offset : Nat) : ReasoningTagScan :=
  ⟨scan.tags.map fun tag => { tag with index := tag.index + offset }, scan.pendingStart.map (· + offset)⟩

theorem scanFrom_shift (final : Bool) (offset index skip : Nat) (text : Text) :
    scanFrom final (index + offset) skip text = (scanFrom final index skip text).shift offset := by
  induction text generalizing index skip with
  | nil => cases skip <;> rfl
  | cons u us ih =>
      have next : ∀ skip', scanFrom final (index + offset + 1) skip' us = _ := fun skip' => by
        rw [Nat.add_right_comm, ih (index + 1) skip']
      cases skip with
      | succ skip => exact next skip
      | zero =>
          simp only [scanFrom]
          split
          · cases parseReasoningTagAt final (u :: us) with
            | tag shape =>
                simp only [next]
                rfl
            | pending => rfl
            | invalid => exact next 0
          · exact next 0

theorem visibleTags_nil (text : Text) (options : ReductionOptions) :
    visibleTags text [] options =
      (scanFrom options.final options.start 0 (text.drop options.start)).tags := by
  have shifted := scanFrom_shift options.final options.start 0 0 (text.drop options.start)
  rw [Nat.zero_add] at shifted
  simp only [visibleTags, isInsideCode_nil, Bool.not_false, List.filter_true, units_id, shifted,
    scanReasoningTags, ReasoningTagScan.shift]

end Tags

section Calls

/-- The last call over a text reads everything and recovers the open block. -/
theorem reduce_final (text : Text) (start : Nat) (state : ReductionState UInt16) :
    view (reduceReasoningText text [] state ⟨true, .visible, .all, start⟩) =
      lift (fun r => r.recover .visible) (absorbAll (itemsFrom 0 (text.drop start)) ([], state)) := by
  have reads := reads_final start 0 (text.drop start)
  rw [← visibleTags_nil text ⟨true, .visible, .all, start⟩] at reads
  exact (reduce_reads rfl rfl state reads).trans (if_pos rfl)

theorem settledLength_eq (index : Nat) (text : Text) :
    ((scanFrom false index 0 text).pendingStart.map (· - index)).getD text.length =
      settledLength text := by
  have shifted := scanFrom_shift false index 0 0 text
  rw [Nat.zero_add] at shifted
  simp only [shifted, ReasoningTagScan.shift, Option.map_map, settledLength, scanReasoningTags]
  cases (scanFrom false 0 0 text).pendingStart <;> simp

/-- A call on the settled part of a text that shows the tags of the whole text. -/
theorem reduce_settled {segment : Text} (state : ReductionState UInt16)
    (clean : cutShowsTags segment (settledLength segment) = true) :
    view (reduceReasoningText (segment.take (settledLength segment)) [] state
        Partitioner.streamOptions) =
      absorbAll (settledItems 0 segment) ([], state) := by
  have same := eq_of_beq clean
  have reads := reads_settled 0 0 segment
  simp only [scanReasoningTags] at same
  rw [settledLength_eq, ← same] at reads
  have tags : (scanFrom false 0 0 (segment.take (settledLength segment))).tags =
      visibleTags (segment.take (settledLength segment)) [] Partitioner.streamOptions :=
    (visibleTags_nil _ Partitioner.streamOptions).symm
  rw [tags] at reads
  exact (@reduce_reads _ Partitioner.streamOptions rfl rfl state _ reads).trans
    (if_neg Bool.false_ne_true)

/-- A call on a held text in which no tag is pending. -/
theorem reduce_held {text : Text} {start : Nat} (state : ReductionState UInt16)
    (settled : (scanReasoningTags (text.drop start) false).pendingStart = none) :
    view (reduceReasoningText text [] state ⟨false, .visible, .all, start⟩) =
      absorbAll (settledItems 0 (text.drop start)) ([], state) := by
  have reads := reads_settled start 0 (text.drop start)
  rw [settledLength_eq, settledLength, settled, Option.getD_none, List.take_length,
    ← visibleTags_nil text ⟨false, .visible, .all, start⟩] at reads
  exact (reduce_reads rfl rfl state reads).trans (if_neg Bool.false_ne_true)

end Calls

section Grouping

def pushCell (output : List (Delta UInt16)) (cell : DeltaKind × UInt16) : List (Delta UInt16) :=
  pushDelta output cell.1 [cell.2]

/-- Characters put together to deltas again. -/
def regroup (shown : List (DeltaKind × UInt16)) : List (Delta UInt16) := shown.foldl pushCell []

/-- The deltas are those of their characters. -/
def Grouped (output : List (Delta UInt16)) : Prop := output = regroup (cells output)

theorem grouped_nil : Grouped [] := rfl

theorem pushDelta_pushDelta (output : List (Delta UInt16)) (kind : DeltaKind) (a b : Text) :
    pushDelta (pushDelta output kind a) kind b = pushDelta output kind (a ++ b) := by
  unfold pushDelta
  cases last : output.getLast? with
  | none => simp
  | some previous =>
      by_cases same : previous.kind = kind
      · simp [same]
      · simp [same]

theorem pushDelta_eq_foldl (output : List (Delta UInt16)) (kind : DeltaKind) {value : Text}
    (nonempty : value ≠ []) :
    pushDelta output kind value = (value.map (kind, ·)).foldl pushCell output := by
  induction value generalizing output with
  | nil => exact absurd rfl nonempty
  | cons u us ih =>
      cases us with
      | nil => rfl
      | cons v vs =>
          rw [List.map_cons, List.foldl_cons, ← ih _ (by simp), pushCell, pushDelta_pushDelta]
          rfl

theorem Grouped.pushDelta {output : List (Delta UInt16)} (grouped : Grouped output)
    (kind : DeltaKind) {value : Text} (nonempty : value ≠ []) :
    Grouped (pushDelta output kind value) := by
  rw [Grouped, cells_pushDelta, regroup, List.foldl_append, pushDelta_eq_foldl _ _ nonempty]
  exact congrArg (List.foldl pushCell · _) grouped

theorem Grouped.nonempty {output : List (Delta UInt16)} (grouped : Grouped output) :
    ∀ delta ∈ output, delta.text ≠ [] := by
  have built : ∀ (shown : List (DeltaKind × UInt16)) (target : List (Delta UInt16)),
      (∀ delta ∈ target, delta.text ≠ []) →
      ∀ delta ∈ shown.foldl pushCell target, delta.text ≠ [] := by
    intro shown
    induction shown with
    | nil => exact fun _ all => all
    | cons cell shown ih =>
        refine fun target all => ih _ fun delta mem => ?_
        unfold pushCell ReasoningTags.pushDelta at mem
        cases last : target.getLast? with
        | none =>
            simp only [last, List.mem_singleton] at mem
            simp [mem]
        | some previous =>
            simp only [last] at mem
            split at mem
            · rcases List.mem_append.mp mem with front | new
              · exact all delta (List.dropLast_subset _ front)
              · simp only [List.mem_singleton] at new
                simp [new]
            · rcases List.mem_append.mp mem with old | new
              · exact all delta old
              · simp only [List.mem_singleton] at new
                simp [new]
  rw [grouped]
  exact built _ [] (by simp)

theorem mergeDeltas_eq_foldl (target : List (Delta UInt16)) {additions : List (Delta UInt16)}
    (nonempty : ∀ delta ∈ additions, delta.text ≠ []) :
    Partitioner.mergeDeltas target additions = (cells additions).foldl pushCell target := by
  induction additions generalizing target with
  | nil => rfl
  | cons delta additions ih =>
      have rest := ih (pushDelta target delta.kind delta.text)
        fun other mem => nonempty other (List.mem_cons_of_mem _ mem)
      rw [pushDelta_eq_foldl _ _ (nonempty delta (List.mem_cons_self ..))] at rest
      have split : cells (delta :: additions) = delta.text.map (delta.kind, ·) ++ cells additions :=
        rfl
      rw [split, List.foldl_append, ← rest, ← pushDelta_eq_foldl _ _
        (nonempty delta (List.mem_cons_self ..))]
      rfl

theorem Grouped.mergeDeltas {target additions : List (Delta UInt16)} (grouped : Grouped target)
    (added : Grouped additions) : Grouped (Partitioner.mergeDeltas target additions) := by
  rw [Grouped, cells_mergeDeltas, regroup, List.foldl_append,
    mergeDeltas_eq_foldl _ added.nonempty]
  exact congrArg (List.foldl pushCell · _) grouped

theorem Grouped.emit {r : Reduction UInt16} (grouped : Grouped r.output) (kind : DeltaKind)
    (value : Text) : Grouped (r.emit kind value).output := by
  unfold Reduction.emit
  split
  · exact grouped
  case isFalse filled => exact grouped.pushDelta kind (by simpa using filled)

theorem Grouped.append {r : Reduction UInt16} (grouped : Grouped r.output) (value : Text) :
    Grouped (r.append value).output := by
  unfold Reduction.append
  split
  · exact grouped
  · split
    · split
      · exact grouped
      · exact grouped.emit ..
    · exact grouped.emit ..

theorem Grouped.absorb {r : Reduction UInt16} (grouped : Grouped r.output) (item : Item) :
    Grouped (absorb item r).output := by
  cases item with
  | char u => exact grouped.append _
  | tag shape text =>
      simp only [ReasoningTags.absorb]
      split
      · exact grouped
      · split
        · unfold Reduction.openBlock
          split <;> exact grouped
        · split
          · unfold Reduction.closeBlock
            split
            · split
              · dsimp only
                split
                · exact grouped
                · exact Grouped.emit (by exact grouped) ..
              · exact grouped
            · exact grouped
          · exact grouped.append _

theorem Grouped.recover {r : Reduction UInt16} (grouped : Grouped r.output)
    (mode : RecoveryMode) : Grouped (r.recover mode).output := by
  unfold Reduction.recover
  split
  · split
    · dsimp only
      split
      · exact grouped
      · split
        · exact grouped.emit ..
        · exact grouped.emit ..
    · exact grouped
  · exact grouped

theorem Grouped.loop {text : Text} {options : ReductionOptions} (mode : options.mode = .visible)
    (scope : options.scope = .all) (tags : List (ReasoningTagMatch × Bool)) (cursor : Nat)
    {r : Reduction UInt16} (grouped : Grouped r.output) :
    Grouped (Reduction.loop text options tags cursor r).1.output := by
  induction tags generalizing cursor r with
  | nil => exact grouped
  | cons pair tags ih =>
      obtain ⟨tag, mustParse⟩ := pair
      rw [loop_cons mode scope]
      exact ih _ ((grouped.append _).absorb _)

theorem grouped_reduce (text : Text) (state : ReductionState UInt16) {options : ReductionOptions}
    (mode : options.mode = .visible) (scope : options.scope = .all) :
    Grouped (reduceReasoningText text [] state options).output := by
  let pairs := (visibleTags text [] options).zip (mustParseRemainder (visibleTags text [] options)).1
  have looped := (@Grouped.loop text options mode scope pairs options.start ⟨[], state⟩
    grouped_nil).append (text.drop (Reduction.loop text options pairs options.start ⟨[], state⟩).2)
  simp only [reduceReasoningText]
  split
  · exact looped.recover _
  · exact looped

end Grouping

end OpenClaw.ReasoningTags

/-!
The invariant of a partitioner in visible mode: what it has shown, and what it still
keeps of its source, are together read as the whole text is read, whatever follows.
Three moves keep it: plain text is shown, a settled segment is reduced, and a held text
without a pending tag is reduced.
-/

namespace OpenClaw.ReasoningTags

open JsUnits Partitioner

/-- The state a fresh partitioner and a one-shot call start in. -/
def freshState : ReductionState UInt16 := ⟨0, false, none⟩

/-- What a text is read as, from the fresh state. -/
def readAll (text : Text) : View := absorbAll (itemsFrom 0 text) ([], freshState)

/-- A partitioner that was given `total`; earlier calls have shown `before`. -/
structure Sound (total : Text) (before : List (DeltaKind × UInt16)) (p : Partitioner) : Prop where
  visible : p.strictMode = false
  source : p.source <:+ total
  bound : p.emitted ≤ p.source.length
  block : p.blockStart ≤ p.emitted
  held : p.holdStart = none ∨ p.holdStart = some p.emitted
  spans : p.nonFinalCodeSpans = none ∨ p.nonFinalCodeSpans = some []
  grouped : Grouped p.output
  shown : p.cleanCuts = true → ∀ more, readAll (total ++ more) =
    absorbAll (itemsFrom 0 (p.source.drop p.emitted ++ more)) (before ++ cells p.output, p.reduction)

/-- The fields the invariant speaks about. -/
def essence (p : Partitioner) :=
  (p.strictMode, p.source, p.emitted, p.blockStart, p.holdStart, p.nonFinalCodeSpans, p.output,
    p.reduction, p.cleanCuts)

variable {total : Text} {before : List (DeltaKind × UInt16)} {p q : Partitioner}

theorem Sound.of_essence (sound : Sound total before p) (same : essence q = essence p) :
    Sound total before q := by
  simp only [essence, Prod.mk.injEq] at same
  obtain ⟨strict, source, emitted, block, hold, spans, output, reduction, clean⟩ := same
  constructor
  · exact strict.trans sound.visible
  · exact source ▸ sound.source
  · rw [emitted, source]
    exact sound.bound
  · rw [block, emitted]
    exact sound.block
  · rw [hold, emitted]
    exact sound.held
  · rw [spans]
    exact sound.spans
  · exact output ▸ sound.grouped
  · rw [clean, source, emitted, output, reduction]
    exact sound.shown

/-- The partitioner reads some items of its source and shows what they give. -/
theorem Sound.advance (sound : Sound total before p) {stop : Nat} (ahead : p.emitted ≤ stop)
    (inside : stop ≤ p.source.length) {hold : Option Nat} (held : hold = none ∨ hold = some stop)
    {output : List (Delta UInt16)} (grouped : Grouped output) {reduction : ReductionState UInt16}
    {clean : Bool} (earlier : clean = true → p.cleanCuts = true)
    (read : clean = true → ∃ items, (∀ more, itemsFrom 0 (p.source.drop p.emitted ++ more) =
        items ++ itemsFrom 0 (p.source.drop stop ++ more)) ∧
      (cells output, reduction) = absorbAll items (cells p.output, p.reduction)) :
    Sound total before { p with
      emitted := stop, holdStart := hold, output, reduction, cleanCuts := clean } where
  visible := sound.visible
  source := sound.source
  bound := inside
  block := sound.block.trans ahead
  held := held
  spans := sound.spans
  grouped := grouped
  shown := by
    intro isClean more
    obtain ⟨items, split, shown⟩ := read isClean
    have seen := absorbAll_behind items before (cells p.output, p.reduction)
    rw [← shown] at seen
    rw [sound.shown (earlier isClean) more, split, absorbAll_append, seen]

section Moves

theorem emitText_eq (p : Partitioner) (text : Text) :
    p.emitText text = { p with
      output := mergeDeltas p.output (if text = [] then [] else [⟨.text, text⟩])
      reduction := { p.reduction with
        visibleEver := p.reduction.visibleEver || hasVisible text } } := by
  unfold emitText
  split
  case isTrue none =>
    subst none
    simp [mergeDeltas, hasVisible, units]
  · rfl

/-- Text that is read character by character is shown outside reasoning. -/
theorem Sound.text (sound : Sound total before p) (outside : p.reduction.depth = 0) {stop : Nat}
    (ahead : p.emitted ≤ stop) (inside : stop ≤ p.source.length) {hold : Option Nat}
    (held : hold = none ∨ hold = some stop)
    (plain : ∀ more, itemsFrom 0 (p.source.drop p.emitted ++ more) =
      (slice p.source p.emitted stop).map .char ++ itemsFrom 0 (p.source.drop stop ++ more)) :
    Sound total before { (p.emitText (slice p.source p.emitted stop)) with
      emitted := stop, holdStart := hold } := by
  rw [emitText_eq]
  refine sound.advance ahead inside held ?_ id fun _ => ⟨_, plain, ?_⟩
  · refine sound.grouped.mergeDeltas ?_
    split
    · exact grouped_nil
    case isFalse filled => exact Grouped.pushDelta grouped_nil .text filled
  · have shown : cells (mergeDeltas p.output (if slice p.source p.emitted stop = [] then []
        else [⟨.text, slice p.source p.emitted stop⟩])) =
        cells p.output ++ (slice p.source p.emitted stop).map (.text, ·) := by
      rw [cells_mergeDeltas]
      split
      case isTrue none => simp [none]
      · simp [cells]
    rw [absorbAll_chars, shown]
    cases pending : p.reduction.pending with
    | none => simp [appendView, pending]
    | some pending => simp [appendView, pending, outside]

theorem view_reduceInto {text : Text} {options : ReductionOptions} {items : List Item}
    (read : view (reduceReasoningText text [] p.reduction options) =
      absorbAll items ([], p.reduction)) :
    (cells (p.reduceInto text [] options).output, (p.reduceInto text [] options).reduction) =
      absorbAll items (cells p.output, p.reduction) := by
  have behind := absorbAll_behind items (cells p.output) ([], p.reduction)
  rw [List.append_nil] at behind
  rw [behind, ← read]
  simp [reduceInto, view]

theorem drop_append_slice {text : Text} {start stop : Nat} (le : start ≤ stop) (more : Text) :
    text.drop start ++ more = slice text start stop ++ (text.drop stop ++ more) := by
  rw [← slice_append_drop le, List.append_assoc]

theorem settledLength_le (text : Text) : settledLength text ≤ text.length := by
  unfold settledLength
  cases pending : (scanReasoningTags text false).pendingStart with
  | none => exact Nat.le_refl _
  | some start =>
      have := (scanFrom_pending_bounds pending).2
      simp only [Option.getD_some]
      omega

theorem slice_take {text : Text} {start stop length : Nat} (fits : start + length ≤ stop) :
    (slice text start stop).take length = slice text start (start + length) := by
  rw [slice, slice, List.take_drop, List.take_take, Nat.min_eq_left fits]

theorem slice_drop (text : Text) (start stop length : Nat) :
    (slice text start stop).drop length = slice text (start + length) stop := List.drop_drop

theorem slice_length {text : Text} {start stop : Nat} (inside : stop ≤ text.length) :
    (slice text start stop).length = stop - start := by
  rw [slice, List.length_drop, List.length_take, Nat.min_eq_left inside]

/-- The settled part of a segment is reduced, cut before its pending tag. -/
theorem Sound.reduce (sound : Sound total before p) {limit stop : Nat} (ahead : p.emitted ≤ limit)
    (inside : limit ≤ p.source.length)
    (settled : stop = p.emitted + settledLength (slice p.source p.emitted limit))
    {hold : Option Nat} (held : hold = none ∨ hold = some stop) :
    let clean := p.cleanCuts &&
      cutShowsTags (slice p.source p.emitted limit) (stop - p.emitted)
    Sound total before { (({ p with cleanCuts := clean }).reduceInto
        (slice p.source p.emitted stop) [] streamOptions) with
      emitted := stop, holdStart := hold } := by
  have length := @slice_length p.source p.emitted limit inside
  have short := settledLength_le (slice p.source p.emitted limit)
  have part : (slice p.source p.emitted limit).take
      (settledLength (slice p.source p.emitted limit)) = slice p.source p.emitted stop := by
    rw [settled]
    exact slice_take (by omega)
  refine sound.advance (by omega) (by omega) held ?_ (fun isClean => ?_) fun isClean =>
    ⟨settledItems 0 (slice p.source p.emitted limit), fun more => ?_, ?_⟩
  · exact sound.grouped.mergeDeltas (grouped_reduce _ _ rfl rfl)
  · exact (Bool.and_eq_true_iff.mp isClean).1
  · rw [drop_append_slice ahead, itemsFrom_settled]
    refine congrArg _ (congrArg (itemsFrom 0) ?_)
    rw [slice_drop, ← settled, drop_append_slice (by omega : stop ≤ limit)]
  · have shows := (Bool.and_eq_true_iff.mp isClean).2
    rw [settled, Nat.add_sub_cancel_left] at shows
    have read := reduce_settled p.reduction shows
    rw [part] at read
    exact view_reduceInto read

/-- A held text without a pending tag is reduced. -/
theorem Sound.reduceHeld (sound : Sound total before p) {stop : Nat} (ahead : p.emitted ≤ stop)
    (inside : stop ≤ p.source.length)
    (settled : (scanReasoningTags (slice p.source p.emitted stop) false).pendingStart = none)
    {hold : Option Nat} (held : hold = none ∨ hold = some stop) :
    Sound total before { (p.reduceInto (p.source.take stop) []
      ⟨false, .visible, .all, p.emitted⟩) with emitted := stop, holdStart := hold } := by
  refine sound.advance ahead inside held ?_ id fun _ =>
    ⟨settledItems 0 (slice p.source p.emitted stop), fun more => ?_, ?_⟩
  · exact sound.grouped.mergeDeltas (grouped_reduce _ _ rfl rfl)
  · rw [drop_append_slice ahead, itemsFrom_settled]
    refine congrArg _ (congrArg (itemsFrom 0) ?_)
    rw [settledLength, settled, Option.getD_none, List.drop_length, List.nil_append]
  · exact view_reduceInto (reduce_held p.reduction settled)

end Moves

end OpenClaw.ReasoningTags
