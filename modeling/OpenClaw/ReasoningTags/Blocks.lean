import OpenClaw.ReasoningTags.Emission

/-!
Blocks and calls of a partitioner. A block that is processed before the end keeps the
partitioner sound; the last one shows everything and recovers an open block as the
one-shot reduction does. A call that consumes a chunk keeps it sound for the longer text.
-/

namespace OpenClaw.ReasoningTags

open JsUnits Partitioner

variable {parse : Text → MarkdownOwnership} {total : Text}
  {before : List (DeltaKind × UInt16)} {p q : Partitioner}

theorem Sound.emitSafePrefix (sound : Sound total before p) (noCode : NoCode parse total)
    {limit : Nat} (ahead : p.emitted ≤ limit) (inside : limit ≤ p.source.length) :
    EmitsUpTo total before p limit (p.emitSafePrefix parse limit) := by
  unfold Partitioner.emitSafePrefix
  rw [sound.visible, if_neg Bool.false_ne_true]
  split
  · exact sound.emitInsideReasoning ahead inside
  case isFalse shallow =>
    have outside : p.reduction.depth = 0 := Nat.eq_zero_of_not_pos shallow
    split
    case isTrue stays =>
      refine .stay sound ahead fun free => ⟨?_, outside⟩
      rcases stays with held | reached
      · rw [free] at held
        cases held
      · omega
    · exact Sound.emitVisible noCode _ sound inside ahead (fun _ => by omega) fun _ => outside

section Open

theorem Sound.compact (sound : Sound total before p) (all : p.emitted = p.source.length)
    (retainStart : Nat) : Sound total before (p.compactCommittedSource retainStart) where
  visible := sound.visible
  source := (List.drop_suffix _ _).trans sound.source
  bound := Nat.le_refl _
  block := Nat.le_refl _
  held := .inl rfl
  spans := .inl rfl
  grouped := sound.grouped
  shown := by
    intro clean more
    have shown := sound.shown clean more
    rw [all, List.drop_length] at shown
    simpa only [compactCommittedSource, List.drop_length] using shown

theorem Sound.finishBlock {stop : Nat} (sound : Sound total before { p with holdStart := none })
    (emitted : p.emitted = stop) (previousBlockStart : Nat)
    (ownership : Option MarkdownOwnership) :
    Sound total before (p.finishBlock previousBlockStart stop false ownership) := by
  have visible : p.strictMode = false := sound.visible
  have finished : ∀ (blockStart : Nat) (hold : Option Nat) (reparsed safe : Bool),
      blockStart ≤ stop → (hold = none ∨ hold = some stop) →
      Sound total before { p with
        blockStart, holdStart := hold, heldBacktickStart := none
        nonFinalCloseReparseUsed := reparsed, pendingTagProbe := none
        fastPathCheckedThrough := stop, fastPathCodeSafe := safe } := by
    intro blockStart hold reparsed safe le held
    rw [← emitted] at le held
    exact ⟨visible, sound.source, sound.bound, le, held, sound.spans, sound.grouped, sound.shown⟩
  unfold Partitioner.finishBlock
  simp only [finalizePending, Bool.not_false, Bool.true_or, if_true]
  have sound' := finished
    (if ((slice p.source previousBlockStart stop).any isLineBreak &&
      decide (lineStartBefore p.source (stop - 1) < stop)) = true
      then lineStartBefore p.source (stop - 1) else stop)
    (if p.strictMode = true ∨ 0 < p.reduction.depth then some stop else none)
    (if p.reduction.depth = 0 then false else p.nonFinalCloseReparseUsed)
    (!(slice p.source previousBlockStart stop).any isLineBreak && p.emitted == p.source.length &&
      !(ownership.any fun o => o.codeSpans.any (·.2 == p.source.length)))
    (by
      split
      case isTrue crossed => exact (of_decide_eq_true (Bool.and_eq_true_iff.mp crossed).2).le
      · exact Nat.le_refl _)
    (by
      split
      · exact .inr rfl
      · exact .inl rfl)
  split
  case isTrue settled =>
    simp only [Bool.and_eq_true, beq_iff_eq] at settled
    exact sound'.compact settled.1.1.1.2 _
  · exact sound'

theorem Sound.processHeld (sound : Sound total before p) (noCode : NoCode parse total)
    {stop : Nat} (ahead : p.emitted ≤ stop) (inside : stop ≤ p.source.length)
    (previousBlockStart : Nat) {parsed : Option MarkdownOwnership}
    (plain : ∀ ownership, parsed = some ownership → ownership.codeSpans = []) :
    Sound total before
      (p.processHeld parse previousBlockStart p.emitted stop false parsed) := by
  have spans : (parsed.getD (parse (p.source.take stop))).codeSpans = [] := by
    cases parsed with
    | none => exact noCode.take sound stop
    | some ownership => exact plain ownership rfl
  unfold Partitioner.processHeld
  simp only [Bool.not_false, Bool.true_and, spans, sound.visible, Bool.false_eq_true, if_false]
  split
  · exact sound
  · split
    · exact sound.of_essence rfl
    case isFalse settled =>
      rw [Bool.not_eq_true, Option.isSome_eq_false_iff, Option.isNone_iff_eq_none] at settled
      have probed : Sound total before { p with pendingTagProbe := none } := sound.of_essence rfl
      have reduced := @Sound.reduceHeld _ _ _ probed stop ahead inside settled none (.inl rfl)
      refine Sound.finishBlock (reduced.of_essence ?_) rfl _ _
      simp [essence, sound.visible, reduceInto]

theorem emitText_reached {stop : Nat} (reached : p.emitted = stop) :
    { (p.emitText (slice p.source p.emitted stop)) with emitted := max p.emitted stop } = p := by
  subst reached
  rw [slice_eq_nil (Nat.le_refl _), emitText, if_pos rfl, Nat.max_self]

/-- A block behind what is emitted: what can be shown is shown, and the rest is held. -/
theorem processBlock_eq {stop : Nat} {final : Bool} {parsed : Option MarkdownOwnership}
    (fresh : ¬stop ≤ p.blockStart) (behind : ¬stop ≤ p.emitted)
    (emits : EmitsUpTo total before p stop (p.emitSafePrefix parse stop)) :
    p.processBlock parse stop final parsed =
      let q := p.emitSafePrefix parse stop
      if q.emitted < stop then q.processHeld parse p.blockStart q.emitted stop final parsed
      else q.finishBlock p.blockStart stop final parsed := by
  rw [Partitioner.processBlock, if_neg fresh, if_neg behind]
  generalize p.emitSafePrefix parse stop = q at emits
  dsimp only
  cases holding : q.holdStart with
  | none =>
      have reached := (emits.free holding).1
      rw [if_neg reached.ge.not_gt]
      exact congrArg (·.finishBlock p.blockStart stop final parsed) (emitText_reached reached)
  | some start =>
      obtain rfl : start = q.emitted := by
        rcases emits.sound.held with none | some
        · rw [holding] at none
          cases none
        · rw [holding] at some
          exact Option.some.inj some
      dsimp only
      split
      · rfl
      case isFalse reached =>
        have all := Nat.le_antisymm emits.within (Nat.le_of_not_lt reached)
        exact congrArg (·.finishBlock p.blockStart stop final parsed) (emitText_reached all)

theorem Sound.processBlock (sound : Sound total before p) (noCode : NoCode parse total)
    {stop : Nat} (inside : stop ≤ p.source.length) {parsed : Option MarkdownOwnership}
    (plain : ∀ ownership, parsed = some ownership → ownership.codeSpans = []) :
    Sound total before (p.processBlock parse stop false parsed) := by
  by_cases fresh : stop ≤ p.blockStart
  · rw [Partitioner.processBlock, if_pos fresh]
    exact sound
  · by_cases reached : stop ≤ p.emitted
    · rw [Partitioner.processBlock, if_neg fresh, if_pos reached]
      exact ⟨sound.visible, sound.source, sound.bound, reached, sound.held, sound.spans,
        sound.grouped, sound.shown⟩
    · have emits := sound.emitSafePrefix noCode (Nat.le_of_not_le reached) inside
      rw [processBlock_eq fresh reached emits]
      generalize p.emitSafePrefix parse stop = q at emits
      dsimp only
      split
      · exact emits.sound.processHeld noCode emits.within (emits.source ▸ inside) _ plain
      case isFalse ahead =>
        exact emits.sound.release.finishBlock
          (Nat.le_antisymm emits.within (Nat.le_of_not_lt ahead)) _ _

end Open

section Last

/-- What a partitioner shows when the text has ended. -/
structure Done (total : Text) (before : List (DeltaKind × UInt16)) (p : Partitioner) : Prop where
  grouped : Grouped p.output
  shown : p.cleanCuts = true → before ++ cells p.output =
    (lift (fun r => r.recover .visible) (readAll total)).1

theorem recover_state (r : Reduction UInt16) (mode : RecoveryMode) :
    (r.recover mode).state.pending = none ∨ (r.recover mode).state.depth = 0 := by
  unfold Reduction.recover
  split
  · split
    · exact .inl rfl
    case isFalse outside => exact .inr (Nat.eq_zero_of_not_pos outside)
  case h_2 none => exact .inl none

theorem recover_idle {r : Reduction UInt16} (idle : r.state.pending = none ∨ r.state.depth = 0)
    (mode : RecoveryMode) : r.recover mode = r := by
  unfold Reduction.recover
  rcases idle with none | outside
  · rw [none]
  · split
    · rw [if_neg (by omega)]
    · rfl

theorem lift_recover_recover (mode : RecoveryMode) (w : View) :
    lift (fun r => r.recover mode) (lift (fun r => r.recover mode) w) =
      lift (fun r => r.recover mode) w := by
  have idle : ∀ state : ReductionState UInt16, state.pending = none ∨ state.depth = 0 →
      ∀ shown, lift (fun r => r.recover mode) (shown, state) = (shown, state) := by
    intro state idle shown
    simp only [lift, recover_idle (r := ⟨[], state⟩) idle, cells_nil, List.append_nil]
  exact idle _ (recover_state ⟨[], w.2⟩ mode) _

/-- A last call shows what its items and the recovery give. -/
theorem view_lastCall (p : Partitioner) (text : Text) (start : Nat) :
    (cells (p.reduceInto text [] ⟨true, .visible, .all, start⟩).output,
      (p.reduceInto text [] ⟨true, .visible, .all, start⟩).reduction) =
      lift (fun r => r.recover .visible)
        (absorbAll (itemsFrom 0 (text.drop start)) (cells p.output, p.reduction)) := by
  have behind := absorbAll_behind (itemsFrom 0 (text.drop start)) (cells p.output) ([], p.reduction)
  rw [List.append_nil] at behind
  rw [behind, lift_behind, ← reduce_final]
  simp [reduceInto, view]

theorem view_finalizePending (visible : p.strictMode = false) :
    (cells (p.finalizePending true).output, (p.finalizePending true).reduction) =
      lift (fun r => r.recover .visible) (cells p.output, p.reduction) := by
  unfold Partitioner.finalizePending
  split
  case isTrue idle =>
    have outside : p.reduction.depth = 0 := by simpa using idle
    simp only [lift, recover_idle (r := ⟨[], p.reduction⟩) (.inr outside), cells_nil,
      List.append_nil]
  · rw [visible, if_neg Bool.false_ne_true]
    exact view_lastCall p [] 0

theorem finalizePending_grouped (visible : p.strictMode = false) (grouped : Grouped p.output) :
    Grouped (p.finalizePending true).output := by
  unfold Partitioner.finalizePending
  split
  · exact grouped
  · rw [visible, if_neg Bool.false_ne_true]
    exact grouped.mergeDeltas (grouped_reduce _ _ rfl rfl)

theorem finalizePending_cleanCuts (p : Partitioner) :
    (p.finalizePending true).cleanCuts = p.cleanCuts := by
  unfold Partitioner.finalizePending
  split <;> rfl

theorem finishBlock_final (p : Partitioner) (previousBlockStart stop : Nat)
    (ownership : Option MarkdownOwnership) :
    (p.finishBlock previousBlockStart stop true ownership).output =
        (p.finalizePending true).output ∧
      (p.finishBlock previousBlockStart stop true ownership).cleanCuts = p.cleanCuts := by
  simp only [Partitioner.finishBlock, Bool.not_true, Bool.false_and, Bool.false_eq_true, if_false,
    finalizePending_cleanCuts, and_self]

/-- Everything is shown already: only the open block is recovered. -/
theorem Sound.finalize (sound : Sound total before p) (all : p.emitted = p.source.length) :
    Done total before (p.finalizePending true) where
  grouped := finalizePending_grouped sound.visible sound.grouped
  shown := by
    intro clean
    rw [finalizePending_cleanCuts] at clean
    have shown := sound.shown clean []
    rw [all, List.drop_length, List.append_nil, List.append_nil] at shown
    have behind := lift_behind (fun r => r.recover .visible) before (cells p.output, p.reduction)
    rw [shown, itemsFrom, absorbAll_nil, behind, ← view_finalizePending sound.visible]

theorem Done.of_fields (done : Done total before p) (output : q.output = p.output)
    (clean : q.cleanCuts = p.cleanCuts) : Done total before q :=
  ⟨output ▸ done.grouped, fun isClean => output ▸ done.shown (clean ▸ isClean)⟩

theorem Sound.lastHeld (sound : Sound total before p) (noCode : NoCode parse total)
    (previousBlockStart : Nat) :
    Done total before
      (p.processHeld parse previousBlockStart p.emitted p.source.length true none) := by
  have spans := noCode.take sound p.source.length
  have held : p.processHeld parse previousBlockStart p.emitted p.source.length true none =
      ({ (p.reduceInto (p.source.take p.source.length) [] ⟨true, .visible, .all, p.emitted⟩) with
        emitted := p.source.length }).finishBlock previousBlockStart p.source.length true
          (some (parse (p.source.take p.source.length))) := by
    unfold Partitioner.processHeld
    simp only [Bool.not_true, Bool.false_and, Bool.false_eq_true, if_false, if_true,
      Option.getD_none, spans, sound.visible]
  rw [held, List.take_length]
  have called := view_lastCall p p.source p.emitted
  have grouped : Grouped (p.reduceInto p.source [] ⟨true, .visible, .all, p.emitted⟩).output :=
    sound.grouped.mergeDeltas (grouped_reduce _ _ rfl rfl)
  have visible : (p.reduceInto p.source [] ⟨true, .visible, .all, p.emitted⟩).strictMode = false :=
    sound.visible
  have clean : (p.reduceInto p.source [] ⟨true, .visible, .all, p.emitted⟩).cleanCuts =
    p.cleanCuts := rfl
  generalize p.reduceInto p.source [] ⟨true, .visible, .all, p.emitted⟩ = q at *
  -- the open block was recovered by the call itself
  have again := @view_finalizePending { q with emitted := p.source.length } visible
  simp only [called, lift_recover_recover] at again
  have finished := finishBlock_final { q with emitted := p.source.length } previousBlockStart
    p.source.length (some (parse p.source))
  refine ⟨?_, fun isClean => ?_⟩
  · rw [finished.1]
    exact finalizePending_grouped visible grouped
  · have shown := sound.shown (clean.symm.trans (finished.2.symm.trans isClean)) []
    rw [List.append_nil, List.append_nil, absorbAll_behind _ before (cells p.output, p.reduction)]
      at shown
    have output := congrArg Prod.fst again
    dsimp only at output
    rw [finished.1, output, shown, lift_behind]

theorem Sound.lastBlock (sound : Sound total before p) (noCode : NoCode parse total) :
    Done total before (p.processBlock parse p.source.length true none) := by
  by_cases fresh : p.source.length ≤ p.blockStart
  · rw [Partitioner.processBlock, if_pos fresh]
    exact sound.finalize (Nat.le_antisymm sound.bound (fresh.trans sound.block))
  · by_cases reached : p.source.length ≤ p.emitted
    · rw [Partitioner.processBlock, if_neg fresh, if_pos reached]
      exact (sound.finalize (Nat.le_antisymm sound.bound reached)).of_fields rfl rfl
    · have emits := sound.emitSafePrefix noCode sound.bound (Nat.le_refl _)
      rw [processBlock_eq fresh reached emits]
      generalize p.emitSafePrefix parse p.source.length = q at emits
      rw [← emits.source]
      dsimp only
      split
      · exact emits.sound.lastHeld noCode _
      case isFalse ahead =>
        have all := Nat.le_antisymm emits.sound.bound (Nat.le_of_not_lt ahead)
        have finished := finishBlock_final q p.blockStart q.source.length none
        exact (emits.sound.finalize all).of_fields finished.1
          (finished.2.trans (finalizePending_cleanCuts q).symm)

end Last

section Calls

theorem Sound.resumeProbe (sound : Sound total before p) : Sound total before p.resumeProbe := by
  unfold Partitioner.resumeProbe
  split
  · exact sound
  · dsimp only
    split
    · exact sound.release.of_essence rfl
    · exact sound.of_essence rfl

/-- A chunk arrives: what the calls before have shown is behind. -/
theorem Sound.feed (sound : Sound total before p) (chunk : Text) :
    Sound (total ++ chunk) (before ++ cells p.output)
      { p with source := p.source ++ chunk, output := [] } where
  visible := sound.visible
  source := by
    obtain ⟨front, same⟩ := sound.source
    exact ⟨front, by rw [← List.append_assoc, same]⟩
  bound := by
    have := sound.bound
    simp only [List.length_append]
    omega
  block := sound.block
  held := sound.held
  spans := sound.spans
  grouped := grouped_nil
  shown := by
    intro clean more
    have shown := sound.shown clean (chunk ++ more)
    rw [← List.append_assoc, ← List.append_assoc] at shown
    rw [cells_nil, List.append_nil, shown, List.drop_append_of_le_length sound.bound]

theorem Sound.sourceOwnership (sound : Sound total before p) (noCode : NoCode parse total) :
    (p.sourceOwnership parse).codeSpans = [] := by
  unfold Partitioner.sourceOwnership reusableCodeSpans
  split
  case h_1 codeSpans reusable =>
    have known := Option.ite_none_right_eq_some.mp reusable
    rcases sound.spans with none | some
    · rw [none] at known
      cases known.2
    · rw [some] at known
      exact (Option.some.inj known.2).symm
  · exact noCode.source sound

theorem heldProcessEnd_le (p : Partitioner) (start : Nat)
    (stableNonDelimiter mayCloseTopLevelBlock : Bool) :
    p.heldProcessEnd start none stableNonDelimiter mayCloseTopLevelBlock false ≤
      p.source.length := by
  unfold heldProcessEnd
  split
  · exact Nat.le_refl _
  · dsimp only
    unfold indexOf
    cases found : (p.source.drop start).findIdx? (· == backtick) with
    | none => exact Nat.le_refl _
    | some distance =>
        have short := (List.findIdx?_eq_some_iff_getElem.mp found).1
        rw [List.length_drop] at short
        simp only [Option.map_some, Option.getD_some]
        omega

theorem Sound.settleOwned (sound : Sound total before p) (noCode : NoCode parse total)
    (start : Nat) {ownership : MarkdownOwnership} (spans : ownership.codeSpans = [])
    (mayCloseTopLevelBlock : Bool) :
    Sound total before (p.settleOwned parse start ownership mayCloseTopLevelBlock) := by
  unfold Partitioner.settleOwned
  simp only [spans, List.find?_nil, Option.isSome_none, Option.isNone_none, Option.any_none,
    Bool.false_and, Bool.and_true]
  split
  · split
    · have processed := sound.processBlock noCode (heldProcessEnd_le p start
        (p.heldBacktickStart.isSome && endsBlankBoundary p.source) mayCloseTopLevelBlock)
        fun other (same : some ownership = some other) => Option.some.inj same ▸ spans
      split
      · refine (Sound.emitSafePrefix (processed.of_essence ?_) noCode ?_ (Nat.le_refl _)).sound
        · rfl
        · exact processed.bound
      · exact processed
    · exact sound
  · exact sound

theorem Sound.settleHeld (sound : Sound total before p) (noCode : NoCode parse total)
    (start : Nat) (appended : Text) (appendedStartsTopLevelBlock : Bool) :
    Sound total before (p.settleHeld parse start appended appendedStartsTopLevelBlock) := by
  have spans := sound.sourceOwnership noCode
  unfold Partitioner.settleHeld
  dsimp only
  split
  · refine Sound.settleOwned (sound.of_essence ?_) noCode start spans _
    rfl
  · exact sound

theorem Sound.dropSettledBlocks (sound : Sound total before p)
    (appendedStartsTopLevelBlock : Bool) :
    Sound total before (p.dropSettledBlocks parse appendedStartsTopLevelBlock) := by
  unfold Partitioner.dropSettledBlocks
  split
  case isTrue settled =>
    simp only [Bool.and_eq_true, beq_iff_eq] at settled
    dsimp only
    split
    · exact sound.of_essence rfl
    · exact Sound.compact (sound.of_essence rfl) settled.1.1.1.2 _
  · exact sound

/-- A chunk has arrived, and the pending tag knows of it. -/
theorem Sound.arrive (sound : Sound total before p) (chunk : Text) (strict : Bool)
    (visible : strict = false) :
    Sound (total ++ chunk) (before ++ cells p.output)
      (Partitioner.resumeProbe
        { p with strictMode := strict, source := p.source ++ chunk, output := [] }) := by
  refine Sound.resumeProbe ((sound.feed chunk).of_essence ?_)
  simp [essence, visible, sound.visible]

theorem Sound.pushVisible (sound : Sound total before p) {chunk : Text}
    (noCode : NoCode parse (total ++ chunk)) :
    Sound (total ++ chunk) (before ++ cells p.output) (p.pushVisible parse chunk).1 := by
  have arrived := sound.arrive chunk (p.strictMode || false) (by simp [sound.visible])
  simp only [Partitioner.pushVisible, consume, Bool.false_eq_true, if_false]
  generalize Partitioner.resumeProbe
    { p with strictMode := p.strictMode || false, source := p.source ++ chunk, output := [] } = q
    at arrived
  have emitted := (arrived.emitSafePrefix noCode arrived.bound (Nat.le_refl _)).sound
  generalize q.emitSafePrefix parse q.source.length = r at emitted
  refine Sound.dropSettledBlocks ?_ _
  split
  · split
    · exact emitted.settleHeld noCode _ _ _
    · exact emitted
  · exact emitted

theorem Sound.flush (sound : Sound total before p) (noCode : NoCode parse total) :
    Done total (before ++ cells p.output) (p.flush parse).1 := by
  have arrived := sound.arrive [] (p.strictMode || p.strictMode) (by simp [sound.visible])
  rw [List.append_nil] at arrived
  simp only [Partitioner.flush, consume, if_true]
  generalize Partitioner.resumeProbe { p with
    strictMode := p.strictMode || p.strictMode, source := p.source ++ [], output := [] } = q
    at arrived
  exact (arrived.lastBlock noCode).of_fields rfl rfl

end Calls

end OpenClaw.ReasoningTags
