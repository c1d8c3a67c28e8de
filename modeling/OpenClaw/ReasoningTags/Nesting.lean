import OpenClaw.ReasoningTags.Reducer

/-!
The reducer does not look at where its characters come from. Replacing every
character by one with the same code unit replaces the characters of the deltas and of
the state alike, so a run over labelled characters is a run over the plain text.
-/

namespace OpenClaw.ReasoningTags

open JsUnits

section Maps

variable {α β : Type}

def Delta.map (f : α → β) (delta : Delta α) : Delta β := ⟨delta.kind, delta.text.map f⟩

def Pending.map (f : α → β) (pending : Pending α) : Pending β :=
  ⟨pending.content.map f, pending.containsPrivate, pending.openTag.map f,
    pending.protectedClose, pending.visibleBefore⟩

def ReductionState.map (f : α → β) (state : ReductionState α) : ReductionState β :=
  ⟨state.depth, state.visibleEver, state.pending.map (Pending.map f)⟩

def Reduction.map (f : α → β) (r : Reduction α) : Reduction β :=
  ⟨r.output.map (Delta.map f), r.state.map f⟩

theorem slice_map (f : α → β) (text : List α) (start stop : Nat) :
    slice (text.map f) start stop = (slice text start stop).map f := by
  simp only [slice, List.map_take, List.map_drop]

theorem pushDelta_map (f : α → β) (output : List (Delta α)) (kind : DeltaKind)
    (value : List α) :
    pushDelta (output.map (Delta.map f)) kind (value.map f) =
      (pushDelta output kind value).map (Delta.map f) := by
  unfold pushDelta
  rw [List.getLast?_map]
  cases output.getLast? with
  | none => rfl
  | some previous =>
      by_cases same : previous.kind = kind <;>
        simp [Delta.map, same, List.map_dropLast]

theorem openBlock_map (f : α → β) (r : Reduction α) (tag : ReasoningTagMatch) (openTag : List α) :
    (r.map f).openBlock tag (openTag.map f) = (r.openBlock tag openTag).map f := by
  obtain ⟨output, depth, visibleEver, pending⟩ := r
  unfold Reduction.openBlock
  by_cases outside : depth = 0
  · simp [Reduction.map, ReductionState.map, Pending.map, outside]
  · cases pending <;> simp [Reduction.map, ReductionState.map, Pending.map, outside]

end Maps

section Naturality

variable {α β : Type} [HasUnit α] [HasUnit β] {f : α → β}

theorem units_map (same : ∀ a, unitOf (f a) = unitOf a) (text : List α) :
    units (text.map f) = units text := by
  simp only [units, List.map_map]
  exact List.map_congr_left fun a _ => same a

theorem hasVisible_map (same : ∀ a, unitOf (f a) = unitOf a) (value : List α) :
    hasVisible (value.map f) = hasVisible value := by
  simp only [hasVisible, units_map same]

theorem emit_map (same : ∀ a, unitOf (f a) = unitOf a) (r : Reduction α) (kind : DeltaKind)
    (value : List α) :
    (r.map f).emit kind (value.map f) = (r.emit kind value).map f := by
  unfold Reduction.emit
  cases value with
  | nil => rfl
  | cons a rest =>
      have visible := hasVisible_map same (a :: rest)
      have pushed := pushDelta_map f r.output kind (a :: rest)
      simp only [List.map_cons] at visible pushed
      simp only [List.map_cons, List.isEmpty_cons, Bool.false_eq_true, if_false, visible]
      split <;> simp [Reduction.map, ReductionState.map, pushed]

theorem append_map (same : ∀ a, unitOf (f a) = unitOf a) (r : Reduction α) (value : List α) :
    (r.map f).append (value.map f) = (r.append value).map f := by
  unfold Reduction.append
  cases value with
  | nil => rfl
  | cons a rest =>
      have emitted := emit_map same r .text (a :: rest)
      have scanned := units_map same (a :: rest)
      simp only [List.map_cons] at emitted scanned
      simp only [List.map_cons, List.isEmpty_cons, Bool.false_eq_true, if_false, scanned]
      obtain ⟨output, depth, visibleEver, pending⟩ := r
      cases pending with
      | none => exact emitted
      | some pending =>
          simp only [Reduction.map, ReductionState.map, Option.map_some] at emitted ⊢
          by_cases inside : 0 < depth
          · simp [inside, Pending.map]
          · simp only [inside, if_false]
            exact emitted

theorem closeBlock_map (same : ∀ a, unitOf (f a) = unitOf a) (r : Reduction α) :
    (r.map f).closeBlock = r.closeBlock.map f := by
  obtain ⟨output, depth, visibleEver, pending⟩ := r
  cases pending with
  | none => rfl
  | some pending =>
      have emitted := emit_map same
        (⟨output, 0, visibleEver, some pending⟩ : Reduction α) .thinking pending.content
      simp only [Reduction.closeBlock, Reduction.map, ReductionState.map, Option.map_some]
        at emitted ⊢
      by_cases last : depth = 1
      · simp only [last, if_true]
        cases hidden : pending.containsPrivate with
        | true => simp [Pending.map, hidden]
        | false =>
            simp only [Pending.map, hidden, Bool.false_eq_true, if_false] at emitted ⊢
            rw [emitted]
            rfl
      · simp [last, Pending.map]

theorem strayClose_map (same : ∀ a, unitOf (f a) = unitOf a) (r : Reduction α)
    (mode : RecoveryMode) (tag before after : List α) :
    (r.map f).strayClose mode (tag.map f) (before.map f) (after.map f) =
      (r.strayClose mode tag before after).map f := by
  simp only [Reduction.strayClose, hasVisible_map same, append_map same]
  split
  · rfl
  · split
    · simp only [Reduction.map, List.filter_map, ReductionState.map]
      rfl
    · rfl

theorem loop_map (same : ∀ a, unitOf (f a) = unitOf a) (text : List α)
    (options : ReductionOptions) (tags : List (ReasoningTagMatch × Bool)) (cursor : Nat)
    (r : Reduction α) :
    Reduction.loop (text.map f) options tags cursor (r.map f) =
      ((Reduction.loop text options tags cursor r).1.map f,
        (Reduction.loop text options tags cursor r).2) := by
  induction tags generalizing cursor r with
  | nil => rfl
  | cons first tags ih =>
      obtain ⟨tag, mustParse⟩ := first
      simp only [Reduction.loop, slice_map, append_map same, ← List.map_drop]
      have depth : ((r.append (slice text cursor tag.index)).map f).state.depth =
        (r.append (slice text cursor tag.index)).state.depth := rfl
      have visible : ((r.append (slice text cursor tag.index)).map f).state.visibleEver =
        (r.append (slice text cursor tag.index)).state.visibleEver := rfl
      rw [depth, visible]
      split
      · split
        · rw [emit_map same, List.length_map]
        · exact ih _ _
      · split
        · split
          · rw [emit_map same, List.length_map]
          · rw [openBlock_map]
            exact ih _ _
        · split
          · rw [closeBlock_map same]
            exact ih _ _
          · rw [strayClose_map same]
            exact ih _ _

theorem recover_map (same : ∀ a, unitOf (f a) = unitOf a) (r : Reduction α)
    (mode : RecoveryMode) : (r.map f).recover mode = (r.recover mode).map f := by
  obtain ⟨output, depth, visibleEver, pending⟩ := r
  cases pending with
  | none => rfl
  | some pending =>
      obtain ⟨content, containsPrivate, openTag, protectedClose, visibleBefore⟩ := pending
      have emitted : ∀ kind (value : List α),
          (⟨output.map (Delta.map f), depth, visibleEver,
              some ⟨content.map f, containsPrivate, openTag.map f, protectedClose,
                visibleBefore⟩⟩ : Reduction β).emit kind (value.map f) =
            ((⟨output, depth, visibleEver, some ⟨content, containsPrivate, openTag,
              protectedClose, visibleBefore⟩⟩ : Reduction α).emit kind value).map f :=
        emit_map same ⟨output, depth, visibleEver, some ⟨content, containsPrivate, openTag,
          protectedClose, visibleBefore⟩⟩
      simp only [Reduction.recover, Reduction.map, ReductionState.map, Option.map_some,
        Pending.map]
      split
      · split
        · rfl
        · split
          · rw [← List.map_append, ← apply_ite (List.map f), emitted]
            rfl
          · rw [emitted]
            rfl
      · rfl

theorem visibleTags_map (same : ∀ a, unitOf (f a) = unitOf a) (text : List α)
    (codeSpans : List (Nat × Nat)) (options : ReductionOptions) :
    visibleTags (text.map f) codeSpans options = visibleTags text codeSpans options := by
  simp only [visibleTags, ← List.map_drop, units_map same]

/-- The reducer commutes with any change of characters that keeps their code units. -/
theorem reduceReasoningText_map (same : ∀ a, unitOf (f a) = unitOf a) (text : List α)
    (codeSpans : List (Nat × Nat)) (state : ReductionState α) (options : ReductionOptions) :
    reduceReasoningText (text.map f) codeSpans (state.map f) options =
      (reduceReasoningText text codeSpans state options).map f := by
  have start : (⟨[], state.map f⟩ : Reduction β) = (⟨[], state⟩ : Reduction α).map f := rfl
  simp only [reduceReasoningText, visibleTags_map same, start, loop_map same, ← List.map_drop,
    append_map same, recover_map same]
  split <;> rfl

end Naturality

end OpenClaw.ReasoningTags

/-!
What the tags of a text say about its positions: how deep a position is nested and
whether it lies in a private block, from an opening tag of that kind up to the tag at
which the nesting returns to zero. A call may give up reading tags at a self-closing
one; `Exposes` says when it does so in front of a private block.
-/

namespace OpenClaw.ReasoningTags

open JsUnits

section Order

/-- Tags from a cursor on, each starting where the previous one has ended. -/
def Ordered : Nat → List ReasoningTagMatch → Prop
  | _, [] => True
  | cursor, tag :: tags => cursor ≤ tag.index ∧ Ordered tag.stop tags

theorem Ordered.mono {low cursor : Nat} {tags : List ReasoningTagMatch} (le : low ≤ cursor)
    (ordered : Ordered cursor tags) : Ordered low tags := by
  cases tags with
  | nil => trivial
  | cons tag tags => exact ⟨le.trans ordered.1, ordered.2⟩

theorem ReasoningTagMatch.index_le_stop (tag : ReasoningTagMatch) : tag.index ≤ tag.stop :=
  Nat.le_add_right _ _

theorem Ordered.filter {cursor : Nat} {tags : List ReasoningTagMatch}
    (ordered : Ordered cursor tags) (keep : ReasoningTagMatch → Bool) :
    Ordered cursor (tags.filter keep) := by
  induction tags generalizing cursor with
  | nil => trivial
  | cons tag tags ih =>
      rw [List.filter_cons]
      split
      · exact ⟨ordered.1, ih ordered.2⟩
      · exact (ih ordered.2).mono (ordered.1.trans tag.index_le_stop)

theorem Ordered.shift {cursor : Nat} {tags : List ReasoningTagMatch}
    (ordered : Ordered cursor tags) (start : Nat) :
    Ordered (cursor + start)
      (tags.map fun tag => { tag with index := tag.index + start }) := by
  induction tags generalizing cursor with
  | nil => trivial
  | cons tag tags ih =>
      refine ⟨Nat.add_le_add_right ordered.1 start, (ih ordered.2).mono ?_⟩
      simp only [ReasoningTagMatch.stop]
      omega

theorem scanFrom_ordered (final : Bool) (index skip : Nat) (text : Text) :
    Ordered (index + skip) (scanFrom final index skip text).tags := by
  induction text generalizing index skip with
  | nil => cases skip <;> trivial
  | cons u us ih =>
      cases skip with
      | succ skip => exact (ih (index + 1) skip).mono (by omega)
      | zero =>
          simp only [scanFrom]
          split
          · cases parseReasoningTagAt final (u :: us) with
            | tag shape =>
                refine ⟨Nat.le_refl _, (ih (index + 1) (shape.length - 1)).mono ?_⟩
                simp only [ReasoningTagMatch.stop]
                omega
            | pending => trivial
            | invalid => exact (ih (index + 1) 0).mono (by omega)
          · exact (ih (index + 1) 0).mono (by omega)

theorem visibleTags_ordered {α : Type} [HasUnit α] (text : List α)
    (codeSpans : List (Nat × Nat)) (options : ReductionOptions) :
    Ordered options.start (visibleTags text codeSpans options) := by
  have scanned := scanFrom_ordered options.final 0 0 (units (text.drop options.start))
  have shifted := scanned.shift options.start
  rw [Nat.zero_add] at shifted
  exact shifted.filter _

end Order

section Positions

structure Nesting where
  depth : Nat
  isPrivate : Bool
  deriving DecidableEq, Repr

def Nesting.step (nesting : Nesting) (tag : ReasoningTagMatch) : Nesting :=
  if tag.isSelfClosing then nesting
  else if tag.isClose then ⟨nesting.depth - 1, decide (1 < nesting.depth) && nesting.isPrivate⟩
  else ⟨nesting.depth + 1, nesting.isPrivate || tag.isPrivate⟩

/-- The nesting at a position: what the tags that end at or before it make of it. -/
def nestingAt (tags : List ReasoningTagMatch) (nesting : Nesting) (position : Nat) : Nesting :=
  (tags.takeWhile fun tag => decide (tag.stop ≤ position)).foldl Nesting.step nesting

theorem nestingAt_cons_of_lt {tag : ReasoningTagMatch} {tags : List ReasoningTagMatch}
    {nesting : Nesting} {position : Nat} (before : position < tag.stop) :
    nestingAt (tag :: tags) nesting position = nesting := by
  simp [nestingAt, before]

theorem nestingAt_cons_of_le {tag : ReasoningTagMatch} {tags : List ReasoningTagMatch}
    {nesting : Nesting} {position : Nat} (behind : tag.stop ≤ position) :
    nestingAt (tag :: tags) nesting position =
      nestingAt tags (nesting.step tag) position := by
  simp [nestingAt, behind]

/-- Without a private tag nothing becomes private. -/
theorem nestingAt_public {tags : List ReasoningTagMatch} {nesting : Nesting} (position : Nat)
    (isPublic : nesting.isPrivate = false) (none : ∀ tag ∈ tags, tag.isPrivate = false) :
    (nestingAt tags nesting position).isPrivate = false := by
  induction tags generalizing nesting with
  | nil => exact isPublic
  | cons tag tags ih =>
      by_cases behind : tag.stop ≤ position
      · rw [nestingAt_cons_of_le behind]
        refine ih ?_ fun other mem => none other (by simp [mem])
        have own := none tag (by simp)
        simp only [Nesting.step]
        split
        · exact isPublic
        · split <;> simp [isPublic, own]
      · rw [nestingAt_cons_of_lt (by omega)]
        exact isPublic

theorem mustParseRemainder_false {tag : ReasoningTagMatch} {tags : List ReasoningTagMatch}
    (skip : (mustParseRemainder (tag :: tags)).1.head? = some false) :
    ∀ other ∈ tag :: tags, other.isPrivate = false := by
  have later : ∀ rest : List ReasoningTagMatch, (mustParseRemainder rest).2 = false →
      ∀ other ∈ rest, other.isPrivate = false := by
    intro rest
    induction rest with
    | nil => simp
    | cons first rest ih =>
        intro calm other mem
        simp only [mustParseRemainder, Bool.or_eq_false_iff] at calm
        rcases List.mem_cons.mp mem with rfl | mem
        · exact calm.1.2
        · exact ih calm.1.1 other mem
  simp only [mustParseRemainder, List.head?_cons, Option.some.injEq, Bool.or_eq_false_iff] at skip
  intro other mem
  rcases List.mem_cons.mp mem with rfl | mem
  · exact skip.2
  · exact later tags skip.1 other mem

end Positions

section Exposure

variable {α : Type} [HasUnit α]

/-- Where the reading of a text stands: its nesting, whether visible text has been met
since a stray closing tag last took it back, and the end of the last tag. -/
structure Progress where
  nesting : Nesting
  visible : Bool
  cursor : Nat
  deriving DecidableEq, Repr

/-- Visible text has been met when the tag begins. -/
def Progress.visibleBefore (text : List α) (progress : Progress) (tag : ReasoningTagMatch) :
    Bool :=
  progress.visible ||
    (progress.nesting.depth == 0 && hasVisible (slice text progress.cursor tag.index))

def Progress.step (text : List α) (mode : RecoveryMode) (progress : Progress)
    (tag : ReasoningTagMatch) : Progress :=
  let before := progress.visibleBefore text tag
  let visible :=
    if tag.isSelfClosing || !tag.isClose || progress.nesting.depth != 0 then before
    else if mode = .visible then before || hasVisible (slice text tag.index tag.stop)
    else before && !(hasVisible (slice text progress.cursor tag.index) &&
      hasVisible (text.drop tag.stop))
  ⟨progress.nesting.step tag, visible, tag.stop⟩

/-- Some self-closing tag at depth zero behind visible text stands in front of a private
position. -/
def ExposesFrom (text : List α) (mode : RecoveryMode) (isPrivate : Nat → Prop) :
    Progress → List ReasoningTagMatch → Prop
  | _, [] => False
  | progress, tag :: tags =>
      (tag.isSelfClosing = true ∧ progress.nesting.depth = 0 ∧
          progress.visibleBefore text tag = true ∧
          ∃ position, tag.index ≤ position ∧ position < text.length ∧ isPrivate position) ∨
        ExposesFrom text mode isPrivate (progress.step text mode tag) tags

theorem ExposesFrom.exists_private {text : List α} {mode : RecoveryMode}
    {isPrivate : Nat → Prop} {progress : Progress} {tags : List ReasoningTagMatch} {cursor : Nat}
    (ordered : Ordered cursor tags) (exposes : ExposesFrom text mode isPrivate progress tags) :
    ∃ position, cursor ≤ position ∧ position < text.length ∧ isPrivate position := by
  induction tags generalizing progress cursor with
  | nil => exact exposes.elim
  | cons tag tags ih =>
      rcases exposes with ⟨-, -, -, position, behind, before, hidden⟩ | later
      · exact ⟨position, ordered.1.trans behind, before, hidden⟩
      · obtain ⟨position, behind, rest⟩ := ih ordered.2 later
        exact ⟨position, (ordered.1.trans tag.index_le_stop).trans behind, rest⟩

/-- The nesting a call starts in. -/
def nestingOf (state : ReductionState α) : Nesting :=
  ⟨state.depth, decide (0 < state.depth) && state.pending.any (·.containsPrivate)⟩

structure Call (α : Type) where
  text : List α
  codeSpans : List (Nat × Nat)
  options : ReductionOptions
  deriving Repr

/-- The position of a call's text lies in a private block. -/
def PrivateAt (state : ReductionState α) (call : Call α) (position : Nat) : Prop :=
  call.options.start ≤ position ∧
    (nestingAt (visibleTags call.text call.codeSpans call.options) (nestingOf state)
      position).isPrivate = true

/-- The call stops reading tags in front of a private block. -/
def Exposes (state : ReductionState α) (call : Call α) : Prop :=
  call.options.scope = .leading ∧
    ExposesFrom call.text call.options.mode (PrivateAt state call)
      ⟨nestingOf state, state.visibleEver, call.options.start⟩
      (visibleTags call.text call.codeSpans call.options)

end Exposure

end OpenClaw.ReasoningTags
