import OpenClaw.ReasoningTags.Nesting

/-!
Where private reasoning can reach the deltas. Along the tags the reducer keeps the
characters of private blocks out of its output and out of every block it may still
emit; the one way out is a call that stops reading tags at a self-closing one and
passes on a private block behind it.
-/

namespace OpenClaw.ReasoningTags

open JsUnits

section Cleanliness

variable {α : Type} {Secret : α → Prop}

def CleanText (Secret : α → Prop) (value : List α) : Prop := ∀ a ∈ value, ¬Secret a

def CleanOutput (Secret : α → Prop) (output : List (Delta α)) : Prop :=
  ∀ delta ∈ output, CleanText Secret delta.text

/-- A secret character stands in visible text. -/
def Leaks (Secret : α → Prop) (output : List (Delta α)) : Prop :=
  ∃ delta ∈ output, delta.kind = .text ∧ ∃ a ∈ delta.text, Secret a

theorem CleanText.append {a b : List α} (left : CleanText Secret a)
    (right : CleanText Secret b) : CleanText Secret (a ++ b) := by
  intro x mem
  rcases List.mem_append.mp mem with mem | mem
  · exact left x mem
  · exact right x mem

theorem mem_pushDelta {output : List (Delta α)} {kind : DeltaKind} {value : List α}
    {delta : Delta α} (mem : delta ∈ pushDelta output kind value) :
    delta ∈ output ∨ delta.text = value ∨
      ∃ previous ∈ output, delta.text = previous.text ++ value := by
  unfold pushDelta at mem
  split at mem
  case h_1 previous last =>
    split at mem
    · rcases List.mem_append.mp mem with front | new
      · exact .inl (List.mem_of_mem_dropLast front)
      · rw [List.mem_singleton.mp new]
        exact .inr (.inr ⟨previous, List.mem_of_getLast? last, rfl⟩)
    · rcases List.mem_append.mp mem with front | new
      · exact .inl front
      · rw [List.mem_singleton.mp new]
        exact .inr (.inl rfl)
  case h_2 =>
    rw [List.mem_singleton.mp mem]
    exact .inr (.inl rfl)

variable [HasUnit α]

theorem emit_clean {r : Reduction α} (clean : CleanOutput Secret r.output) (kind : DeltaKind)
    {value : List α} (own : CleanText Secret value) :
    CleanOutput Secret (r.emit kind value).output := by
  unfold Reduction.emit
  split
  · exact clean
  · intro delta mem
    rcases mem_pushDelta mem with old | same | ⟨previous, old, same⟩
    · exact clean delta old
    · rw [same]
      exact own
    · rw [same]
      exact (clean previous old).append own

theorem emit_leaks (r : Reduction α) {value : List α} {a : α} (mem : a ∈ value)
    (secret : Secret a) : Leaks Secret (r.emit .text value).output := by
  have nonempty : value.isEmpty = false := by
    cases value with
    | nil => simp at mem
    | cons _ _ => rfl
  simp only [Reduction.emit, nonempty, Bool.false_eq_true, if_false, pushDelta]
  split
  case h_1 previous last =>
    split
    · exact ⟨_, List.mem_append_right _ (List.mem_singleton.mpr rfl), rfl, a,
        List.mem_append_right _ mem, secret⟩
    · exact ⟨_, List.mem_append_right _ (List.mem_singleton.mpr rfl), rfl, a, mem, secret⟩
  case h_2 => exact ⟨_, List.mem_singleton.mpr rfl, rfl, a, mem, secret⟩

@[simp] theorem emit_depth (r : Reduction α) (kind : DeltaKind) (value : List α) :
    (r.emit kind value).state.depth = r.state.depth := by
  unfold Reduction.emit
  split
  · rfl
  · dsimp only
    split <;> rfl

@[simp] theorem emit_pending (r : Reduction α) (kind : DeltaKind) (value : List α) :
    (r.emit kind value).state.pending = r.state.pending := by
  unfold Reduction.emit
  split
  · rfl
  · dsimp only
    split <;> rfl

theorem emit_text_visibleEver (r : Reduction α) (value : List α) :
    (r.emit .text value).state.visibleEver = (r.state.visibleEver || hasVisible value) := by
  unfold Reduction.emit
  cases value with
  | nil => simp [hasVisible, units]
  | cons a rest =>
      cases hasVisible (a :: rest) <;> simp

theorem emit_thinking_state (r : Reduction α) (value : List α) :
    (r.emit .thinking value).state = r.state := by
  unfold Reduction.emit
  split <;> simp

end Cleanliness

section Following

variable {α : Type} {Secret : α → Prop}

/-- A block that may still be emitted holds no secret character. -/
def CleanPending (Secret : α → Prop) (state : ReductionState α) : Prop :=
  ∀ pending, state.pending = some pending → 0 < state.depth →
    pending.containsPrivate = false →
    CleanText Secret pending.content ∧ CleanText Secret pending.openTag

/-- The reduction is where the reading of the text stands, and has leaked nothing. -/
structure Follows (Secret : α → Prop) (r : Reduction α) (progress : Progress) : Prop where
  depth : r.state.depth = progress.nesting.depth
  visible : r.state.visibleEver = progress.visible
  outside : progress.nesting.depth = 0 → progress.nesting.isPrivate = false
  inside : 0 < progress.nesting.depth → ∃ pending, r.state.pending = some pending ∧
    pending.containsPrivate = progress.nesting.isPrivate
  pending : CleanPending Secret r.state
  output : CleanOutput Secret r.output

theorem Follows.openBlock {r : Reduction α} {progress : Progress}
    (follows : Follows Secret r progress) {tag : ReasoningTagMatch}
    (opens : tag.isSelfClosing = false ∧ tag.isClose = false) {openTag : List α}
    (own : progress.nesting.isPrivate = false → CleanText Secret openTag) (cursor : Nat) :
    Follows Secret (r.openBlock tag openTag)
      ⟨progress.nesting.step tag, progress.visible, cursor⟩ := by
  have step : progress.nesting.step tag =
      ⟨progress.nesting.depth + 1, progress.nesting.isPrivate || tag.isPrivate⟩ := by
    simp [Nesting.step, opens.1, opens.2]
  rw [step]
  have depth := follows.depth
  by_cases outside : progress.nesting.depth = 0
  · have isPublic := follows.outside outside
    simp only [Reduction.openBlock, depth, outside, if_true]
    refine ⟨rfl, follows.visible, fun absent => by simp at absent,
      fun _ => ⟨_, rfl, by simp [isPublic]⟩, ?_, follows.output⟩
    intro pending same _ _
    cases same
    exact ⟨fun a mem => by simp at mem, own isPublic⟩
  · obtain ⟨pending, found, hidden⟩ := follows.inside (by omega)
    simp only [Reduction.openBlock, depth, outside, if_false, found, Option.map_some]
    refine ⟨rfl, follows.visible, fun absent => by simp at absent,
      fun _ => ⟨_, rfl, by simp [hidden]⟩, ?_, follows.output⟩
    intro other same _ isPublic
    cases same
    exact follows.pending pending found (by omega) (Bool.or_eq_false_iff.mp isPublic).1

variable [HasUnit α]

theorem Follows.append {r : Reduction α} {progress : Progress} (follows : Follows Secret r progress)
    {value : List α} (own : progress.nesting.isPrivate = false → CleanText Secret value)
    (cursor : Nat) :
    Follows Secret (r.append value)
      ⟨progress.nesting, progress.visible || (progress.nesting.depth == 0 && hasVisible value),
        cursor⟩ := by
  by_cases empty : value = []
  · subst empty
    have same : (progress.visible ||
        (progress.nesting.depth == 0 && hasVisible ([] : List α))) = progress.visible := by
      simp [hasVisible, units]
    exact ⟨follows.depth, follows.visible.trans same.symm, follows.outside, follows.inside,
      follows.pending, follows.output⟩
  · have nonempty : value.isEmpty = false := by simpa using empty
    by_cases outside : progress.nesting.depth = 0
    · have emits : r.append value = r.emit .text value := by
        have depth := follows.depth
        simp only [Reduction.append, nonempty, Bool.false_eq_true, if_false]
        cases r.state.pending with
        | none => rfl
        | some pending => exact if_neg (by omega)
      rw [emits]
      refine ⟨by simpa using follows.depth, ?_, follows.outside, fun inside => by
        dsimp only at inside
        omega, ?_, emit_clean follows.output .text (own (follows.outside outside))⟩
      · rw [emit_text_visibleEver, follows.visible]
        simp [outside]
      · intro pending _ inside
        rw [emit_depth, follows.depth] at inside
        omega
    · obtain ⟨pending, found, hidden⟩ := follows.inside (by omega)
      have inside : 0 < r.state.depth := by
        have := follows.depth
        omega
      simp only [Reduction.append, nonempty, Bool.false_eq_true, if_false, found, inside, if_true]
      refine ⟨follows.depth, ?_, follows.outside, fun _ => ⟨_, rfl, hidden⟩, ?_, follows.output⟩
      · rw [follows.visible]
        simp [outside]
      · intro other same _ isPublic
        cases same
        obtain ⟨content, openTag⟩ := follows.pending pending found inside isPublic
        exact ⟨content.append (own (hidden.symm.trans isPublic)), openTag⟩

theorem Follows.closeBlock {r : Reduction α} {progress : Progress}
    (follows : Follows Secret r progress) {tag : ReasoningTagMatch}
    (closes : tag.isSelfClosing = false ∧ tag.isClose = true)
    (inside : 0 < progress.nesting.depth) (cursor : Nat) :
    Follows Secret r.closeBlock ⟨progress.nesting.step tag, progress.visible, cursor⟩ := by
  have step : progress.nesting.step tag = ⟨progress.nesting.depth - 1,
      decide (1 < progress.nesting.depth) && progress.nesting.isPrivate⟩ := by
    simp [Nesting.step, closes.1, closes.2]
  rw [step]
  have depth := follows.depth
  obtain ⟨pending, found, hidden⟩ := follows.inside inside
  have clean := follows.pending pending found (by omega)
  by_cases last : progress.nesting.depth = 1
  · simp only [Reduction.closeBlock, found, depth, last, if_true]
    cases isPrivate : pending.containsPrivate with
    | true =>
        exact ⟨rfl, follows.visible, fun _ => rfl, fun absent => by simp at absent,
          fun _ absent => by simp at absent, follows.output⟩
    | false =>
        simp only [Bool.false_eq_true, if_false, emit_thinking_state]
        exact ⟨rfl, follows.visible, fun _ => rfl, fun absent => by simp at absent,
          fun _ absent => by simp at absent,
          emit_clean (r := ⟨r.output, ⟨0, r.state.visibleEver, some pending⟩⟩) follows.output
            .thinking (clean isPrivate).1⟩
  · have deeper : 1 < progress.nesting.depth := by omega
    simp only [Reduction.closeBlock, found, depth, last, if_false]
    refine ⟨by simp, follows.visible, fun absent => by dsimp only at absent; omega,
      fun _ => ⟨_, rfl, by simp [deeper, hidden]⟩, ?_, follows.output⟩
    intro other same _ isPublic
    cases same
    exact clean isPublic

theorem Follows.strayClose {r : Reduction α} {progress : Progress}
    (follows : Follows Secret r progress) {tag : ReasoningTagMatch}
    (closes : tag.isSelfClosing = false ∧ tag.isClose = true)
    (outside : progress.nesting.depth = 0) (mode : RecoveryMode) {own before after : List α}
    (clean : CleanText Secret own) (cursor : Nat) :
    Follows Secret (r.strayClose mode own before after)
      ⟨progress.nesting.step tag,
        if mode = .visible then progress.visible || hasVisible own
        else progress.visible && !(hasVisible before && hasVisible after), cursor⟩ := by
  have step : progress.nesting.step tag = progress.nesting := by
    have isPublic := follows.outside outside
    obtain ⟨⟨depth, isPrivate⟩, visible, at_⟩ := progress
    simp only at outside isPublic
    simp [Nesting.step, closes.1, closes.2, outside, isPublic]
  rw [step]
  unfold Reduction.strayClose
  split
  · have appended := follows.append (fun _ => clean) cursor
    simpa [outside] using appended
  · split
    case isTrue both =>
      refine ⟨follows.depth, by simp [both], follows.outside, follows.inside, follows.pending, ?_⟩
      intro delta mem
      exact follows.output delta (List.mem_of_mem_filter mem)
    case isFalse notBoth =>
      have same : (hasVisible before && hasVisible after) = false := by simpa using notBoth
      exact ⟨follows.depth, by simp [same, follows.visible], follows.outside, follows.inside,
        follows.pending, follows.output⟩

/-- What is emitted of the block left open at the end holds no secret character. -/
theorem Follows.recover {r : Reduction α} {progress : Progress}
    (follows : Follows Secret r progress) (mode : RecoveryMode) :
    CleanOutput Secret (r.recover mode).output ∧
      CleanPending Secret (r.recover mode).state ∧
      (0 < (r.recover mode).state.depth → ((r.recover mode).state.pending).isSome) := by
  have blocks : 0 < r.state.depth → r.state.pending.isSome := by
    intro inside
    obtain ⟨pending, found, -⟩ := follows.inside (follows.depth ▸ inside)
    rw [found]
    rfl
  unfold Reduction.recover
  cases found : r.state.pending with
  | none => exact ⟨follows.output, follows.pending, fun inside => by simpa [found] using blocks inside⟩
  | some pending =>
      dsimp only
      split
      case isFalse outside => exact ⟨follows.output, follows.pending, fun inside => by simp [found]⟩
      case isTrue inside =>
        refine ⟨?_, fun _ absent => by simp at absent, fun absent => by simp at absent⟩
        cases hidden : pending.containsPrivate with
        | true => exact follows.output
        | false =>
            obtain ⟨content, openTag⟩ := follows.pending pending found inside hidden
            simp only [Bool.false_eq_true, if_false]
            split
            · refine emit_clean follows.output .text ?_
              split
              · exact openTag.append content
              · exact content
            · exact emit_clean follows.output .thinking content

end Following

section Loop

variable {α : Type} {Secret : α → Prop}

theorem mem_slice {text : List α} {start stop : Nat} {a : α} (mem : a ∈ slice text start stop) :
    ∃ position, start ≤ position ∧ position < stop ∧ text[position]? = some a := by
  obtain ⟨i, found⟩ := List.mem_iff_getElem?.mp mem
  rw [slice, List.getElem?_drop, List.getElem?_take] at found
  split at found
  · exact ⟨start + i, by omega, by assumption, found⟩
  · cases found

theorem mem_drop {text : List α} {start : Nat} {a : α} (mem : a ∈ text.drop start) :
    ∃ position, start ≤ position ∧ text[position]? = some a := by
  obtain ⟨i, found⟩ := List.mem_iff_getElem?.mp mem
  exact ⟨start + i, by omega, by rwa [List.getElem?_drop] at found⟩

variable [HasUnit α]

/-- How the loop ends: it has followed the tags and nothing has leaked, or it has passed on
the text behind an exposing tag. -/
theorem loop_outcome (text : List α) (options : ReductionOptions) (isPrivate : Nat → Prop)
    (secret : ∀ position a, options.start ≤ position → text[position]? = some a →
      (Secret a ↔ isPrivate position))
    (tags : List ReasoningTagMatch) (cursor : Nat) (r : Reduction α) (progress : Progress)
    (follows : Follows Secret r progress) (at_ : progress.cursor = cursor)
    (begun : options.start ≤ cursor) (ordered : Ordered cursor tags)
    (nested : ∀ position, cursor ≤ position →
      (isPrivate position ↔ (nestingAt tags progress.nesting position).isPrivate = true)) :
    let result := Reduction.loop text options (tags.zip (mustParseRemainder tags).1) cursor r
    (¬(options.scope = .leading ∧ ExposesFrom text options.mode isPrivate progress tags) ∧
      ∃ final, Follows Secret result.1 final ∧
        (final.nesting.isPrivate = false → CleanText Secret (text.drop result.2))) ∨
    ((options.scope = .leading ∧ ExposesFrom text options.mode isPrivate progress tags) ∧
      Leaks Secret result.1.output ∧ result.2 = text.length ∧ result.1.state.depth = 0) := by
  induction tags generalizing cursor r progress with
  | nil =>
      refine .inl ⟨fun exposes => exposes.2, progress, follows, fun isPublic a mem => ?_⟩
      obtain ⟨position, behind, found⟩ := mem_drop mem
      rw [secret position a (begun.trans behind) found, nested position behind]
      simpa [nestingAt] using isPublic
  | cons tag tags ih =>
      have index := ordered.1
      have stop := tag.index_le_stop
      -- positions up to the tag's end have the nesting in front of it
      have early : ∀ position, cursor ≤ position → position < tag.stop →
          (isPrivate position ↔ progress.nesting.isPrivate = true) := by
        intro position behind before
        rw [nested position behind, nestingAt_cons_of_lt before]
      have cleanSlice : ∀ low high, cursor ≤ low → high ≤ tag.stop →
          progress.nesting.isPrivate = false → CleanText Secret (slice text low high) := by
        intro low high low_le high_le isPublic a mem
        obtain ⟨position, behind, before, found⟩ := mem_slice mem
        rw [secret position a (by omega) found, early position (by omega) (by omega)]
        simpa using isPublic
      have later : ∀ position, tag.stop ≤ position → (isPrivate position ↔
          (nestingAt tags (progress.nesting.step tag) position).isPrivate = true) := by
        intro position behind
        rw [nested position (by omega), nestingAt_cons_of_le behind]
      have appended := follows.append (cleanSlice cursor tag.index (Nat.le_refl _) stop) cursor
      have visibleBefore : (progress.visible ||
          (progress.nesting.depth == 0 && hasVisible (slice text cursor tag.index))) =
            progress.visibleBefore text tag := by
        rw [Progress.visibleBefore, at_]
      rw [visibleBefore] at appended
      have depth := appended.depth
      have visible := appended.visible
      dsimp only at depth visible
      have resume : ∀ (r' : Reduction α),
          Follows Secret r' (progress.step text options.mode tag) →
          ¬(tag.isSelfClosing = true ∧ progress.nesting.depth = 0 ∧
            progress.visibleBefore text tag = true ∧ options.scope = .leading) →
          let result := Reduction.loop text options (tags.zip (mustParseRemainder tags).1)
            tag.stop r'
          (¬(options.scope = .leading ∧
              ExposesFrom text options.mode isPrivate progress (tag :: tags)) ∧
            ∃ final, Follows Secret result.1 final ∧
              (final.nesting.isPrivate = false → CleanText Secret (text.drop result.2))) ∨
          ((options.scope = .leading ∧
              ExposesFrom text options.mode isPrivate progress (tag :: tags)) ∧
            Leaks Secret result.1.output ∧ result.2 = text.length ∧
            result.1.state.depth = 0) := by
        intro r' next noExit
        rcases ih tag.stop r' _ next rfl (by omega) ordered.2 later with ⟨safe, rest⟩ | ⟨exposes, rest⟩
        · refine .inl ⟨fun exposes => ?_, rest⟩
          rcases exposes.2 with ⟨selfClosing, outside, seen, -⟩ | tail
          · exact noExit ⟨selfClosing, outside, seen, exposes.1⟩
          · exact safe ⟨exposes.1, tail⟩
        · exact .inr ⟨⟨exposes.1, .inr exposes.2⟩, rest⟩
      have zipped : (tag :: tags).zip (mustParseRemainder (tag :: tags)).1 =
          (tag, (mustParseRemainder tags).2 || tag.isPrivate) ::
            tags.zip (mustParseRemainder tags).1 := rfl
      rw [zipped]
      simp only [Reduction.loop, depth, visible]
      by_cases selfClosing : tag.isSelfClosing = true
      · have step : progress.step text options.mode tag =
            ⟨progress.nesting, progress.visibleBefore text tag, tag.stop⟩ := by
          simp [Progress.step, Nesting.step, selfClosing]
        simp only [selfClosing, if_true]
        split
        case isTrue exits =>
          -- the call ends here with the rest of the text
          by_cases hidden : ∃ position, tag.index ≤ position ∧ position < text.length ∧
              isPrivate position
          · refine .inr ⟨⟨exits.2.1, .inl ⟨selfClosing, exits.1, exits.2.2, hidden⟩⟩, ?_, rfl, ?_⟩
            · obtain ⟨position, behind, before, hidden⟩ := hidden
              have found : text[position]? = some text[position] := List.getElem?_eq_getElem before
              refine emit_leaks _ ?_
                ((secret position _ (by omega) found).mpr hidden)
              rw [List.mem_iff_getElem?]
              refine ⟨position - tag.index, ?_⟩
              rw [List.getElem?_drop, Nat.add_sub_cancel' behind]
              exact found
            · rw [emit_depth, depth]
              exact exits.1
          · refine .inl ⟨fun exposes => ?_, ⟨progress.nesting, true, cursor⟩, ?_, ?_⟩
            · rcases exposes.2 with ⟨-, -, -, some⟩ | tail
              · exact hidden some
              · obtain ⟨position, behind, before, some⟩ := tail.exists_private ordered.2
                exact hidden ⟨position, by omega, before, some⟩
            · have clean : CleanText Secret (text.drop tag.index) := by
                intro a mem
                obtain ⟨position, behind, found⟩ := mem_drop mem
                rw [secret position a (by omega) found]
                exact fun some => hidden ⟨position, behind,
                  (List.getElem?_eq_some_iff.mp found).1, some⟩
              refine ⟨by simpa using depth, ?_, follows.outside, fun inside => ?_, ?_,
                emit_clean appended.output .text clean⟩
              · rw [emit_text_visibleEver, visible, exits.2.2, Bool.true_or]
              · dsimp only at inside
                omega
              · intro pending _ inside
                rw [emit_depth, depth] at inside
                omega
            · intro _ a mem
              simp at mem
        case isFalse stays =>
          refine resume _ ?_ fun exits => stays ⟨exits.2.1, exits.2.2.2, exits.2.2.1⟩
          rw [step]
          exact ⟨depth, visible, appended.outside, appended.inside, appended.pending,
            appended.output⟩
      · have notSelf : tag.isSelfClosing = false := by simpa using selfClosing
        have noExit : ¬(tag.isSelfClosing = true ∧ progress.nesting.depth = 0 ∧
            progress.visibleBefore text tag = true ∧ options.scope = .leading) :=
          fun exits => selfClosing exits.1
        simp only [notSelf, Bool.false_eq_true, if_false]
        by_cases closes : tag.isClose = true
        · simp only [closes, Bool.not_true, Bool.false_eq_true, if_false]
          by_cases inside : 0 < progress.nesting.depth
          · simp only [inside, if_true]
            refine resume _ ?_ noExit
            have step : progress.step text options.mode tag =
                ⟨progress.nesting.step tag, progress.visibleBefore text tag, tag.stop⟩ := by
              have deep : progress.nesting.depth ≠ 0 := by omega
              simp [Progress.step, deep]
            rw [step]
            exact appended.closeBlock ⟨notSelf, closes⟩ inside tag.stop
          · simp only [inside, if_false]
            refine resume _ ?_ noExit
            have outside : progress.nesting.depth = 0 := by omega
            have step : progress.step text options.mode tag =
                ⟨progress.nesting.step tag,
                  if options.mode = .visible then progress.visibleBefore text tag ||
                    hasVisible (slice text tag.index tag.stop)
                  else progress.visibleBefore text tag &&
                    !(hasVisible (slice text cursor tag.index) &&
                      hasVisible (text.drop tag.stop)), tag.stop⟩ := by
              simp [Progress.step, notSelf, closes, outside, at_]
            rw [step]
            exact appended.strayClose ⟨notSelf, closes⟩ outside options.mode
              (cleanSlice tag.index tag.stop index (Nat.le_refl _) (follows.outside outside))
              tag.stop
        · have opens : tag.isClose = false := by simpa using closes
          have step : progress.step text options.mode tag =
              ⟨progress.nesting.step tag, progress.visibleBefore text tag, tag.stop⟩ := by
            simp [Progress.step, opens]
          simp only [opens, Bool.not_false, if_true]
          split
          case isTrue exits =>
            -- no private tag follows, so the rest of the text is public
            have isPublic := follows.outside exits.1.1
            have tagsPublic := @mustParseRemainder_false tag tags
              (by simp [mustParseRemainder, exits.2])
            have allPublic : ∀ position, cursor ≤ position → ¬isPrivate position := by
              intro position behind
              rw [nested position behind, nestingAt_public position isPublic tagsPublic]
              simp
            refine .inl ⟨fun exposes => ?_, ⟨progress.nesting, true, cursor⟩, ?_, ?_⟩
            · obtain ⟨position, behind, -, some⟩ := exposes.2.exists_private ordered
              exact allPublic position behind some
            · have clean : CleanText Secret (text.drop tag.index) := by
                intro a mem
                obtain ⟨position, behind, found⟩ := mem_drop mem
                rw [secret position a (by omega) found]
                exact allPublic position (by omega)
              refine ⟨by simpa using depth, ?_, follows.outside, fun inside => ?_, ?_,
                emit_clean appended.output .text clean⟩
              · rw [emit_text_visibleEver, visible, exits.1.2.2, Bool.true_or]
              · dsimp only at inside
                omega
              · intro pending _ inside
                rw [emit_depth, depth] at inside
                omega
            · intro _ a mem
              simp at mem
          case isFalse stays =>
            refine resume _ ?_ noExit
            rw [step]
            exact appended.openBlock ⟨notSelf, opens⟩
              (cleanSlice tag.index tag.stop index (Nat.le_refl _)) tag.stop

end Loop

end OpenClaw.ReasoningTags
