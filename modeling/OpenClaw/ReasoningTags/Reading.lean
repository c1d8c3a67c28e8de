import OpenClaw.ReasoningTags.Stability
import OpenClaw.ReasoningTags.Partitioner

/-!
A reduction in visible mode as a machine that reads items. Its output only grows, so
what an item adds depends on the shared state alone; a call of the reducer is the run of
the machine over the items its tags cut the text into, and adjacent deltas of one kind
do not matter.
-/

namespace OpenClaw.ReasoningTags

open JsUnits

section Reads

/-- The text, from an index of a larger one on and with units left of the last tag, is cut by
the tags into the items. -/
inductive Reads : Text → Nat → Nat → List ReasoningTagMatch → List Item → Prop
  | done {index skip : Nat} : Reads [] index skip [] []
  | skipped {u : UInt16} {us : Text} {index skip : Nat} {tags : List ReasoningTagMatch}
      {items : List Item} (rest : Reads us (index + 1) skip tags items) :
      Reads (u :: us) index (skip + 1) tags items
  | char {u : UInt16} {us : Text} {index : Nat} {tags : List ReasoningTagMatch}
      {items : List Item}
      (calm : u = lessThan → ∀ shape, parseReasoningTagAt true (u :: us) ≠ .tag shape)
      (rest : Reads us (index + 1) 0 tags items) :
      Reads (u :: us) index 0 tags (.char u :: items)
  | tag {u : UInt16} {us : Text} {index : Nat} {tags : List ReasoningTagMatch}
      {items : List Item} {shape : TagShape} (positive : 0 < shape.length)
      (rest : Reads us (index + 1) (shape.length - 1) tags items) :
      Reads (u :: us) index 0 (⟨shape, index⟩ :: tags)
        (.tag shape ((u :: us).take shape.length) :: items)

theorem reads_final (index skip : Nat) (text : Text) :
    Reads text index skip (scanFrom true index skip text).tags (itemsFrom skip text) := by
  induction text generalizing index skip with
  | nil => cases skip <;> exact .done
  | cons u us ih =>
      cases skip with
      | succ skip => exact .skipped (ih (index + 1) skip)
      | zero =>
          by_cases less : u = lessThan
          · subst less
            simp only [scanFrom, itemsFrom, if_true]
            cases parsed : parseReasoningTagAt true (lessThan :: us) with
            | tag shape => exact .tag (parse_tag_bounds parsed).1 (ih _ _)
            | pending =>
                have next := ih (index + 1) 0
                exfalso
                have named := parse_eq_parseNamed true (lessThan :: us)
                rw [parsed] at named
                simp only [parseNamed, parseTagRest, Bool.not_true, Bool.and_false,
                  Bool.false_and, Bool.false_eq_true, if_false, if_true] at named
                split at named
                · cases named
                · split at named
                  · cases named
                  · split at named
                    · cases named
                    · split at named
                      · cases named
                      · split at named <;> cases named
            | invalid => exact .char (fun _ shape found => by simp [parsed] at found) (ih _ _)
          · simp only [scanFrom, itemsFrom, less, if_false]
            exact .char (fun same => absurd same less) (ih _ _)

/-- The settled part of a text is read by the tags the whole text shows. -/
theorem reads_settled (index skip : Nat) (text : Text) :
    Reads (text.take (((scanFrom false index skip text).pendingStart.map (· - index)).getD
        text.length)) index skip (scanFrom false index skip text).tags
      (settledItems skip text) := by
  induction text generalizing index skip with
  | nil => cases skip <;> exact .done
  | cons u us ih =>
      have shift : ∀ skip', (u :: us).take
          (((scanFrom false (index + 1) skip' us).pendingStart.map (· - index)).getD
            (u :: us).length) =
          u :: us.take (((scanFrom false (index + 1) skip' us).pendingStart.map
            (· - (index + 1))).getD us.length) := by
        intro skip'
        cases found : (scanFrom false (index + 1) skip' us).pendingStart with
        | none => simp
        | some start =>
            have := (scanFrom_pending_bounds found).1
            obtain ⟨n, rfl⟩ : ∃ n, start = index + 1 + n := ⟨start - (index + 1), by omega⟩
            have left : index + 1 + n - index = n + 1 := by omega
            simp [left]
      cases skip with
      | succ skip =>
          simp only [scanFrom, settledItems]
          rw [shift skip]
          exact .skipped (ih (index + 1) skip)
      | zero =>
          by_cases less : u = lessThan
          · subst less
            simp only [scanFrom, settledItems, if_true]
            cases parsed : parseReasoningTagAt false (lessThan :: us) with
            | tag shape =>
                have bounds := parse_tag_bounds parsed
                simp only [List.length_cons] at bounds
                simp only
                rw [shift (shape.length - 1)]
                -- the tag lies in front of what is pending
                have inside : (lessThan :: us).take shape.length =
                    (lessThan :: us.take (((scanFrom false (index + 1) (shape.length - 1)
                      us).pendingStart.map (· - (index + 1))).getD us.length)).take
                        shape.length := by
                  obtain ⟨n, same⟩ : ∃ n, shape.length = n + 1 :=
                    ⟨shape.length - 1, by omega⟩
                  rw [same, List.take_succ_cons, List.take_succ_cons, List.take_take]
                  refine congrArg _ (congrArg (List.take · us) ?_)
                  cases found : (scanFrom false (index + 1) (shape.length - 1) us).pendingStart with
                  | none =>
                      simp only [Nat.add_sub_cancel, same] at found ⊢
                      simp only [found, Option.map_none, Option.getD_none]
                      omega
                  | some start =>
                      have := (scanFrom_pending_bounds found).1
                      simp only [Nat.add_sub_cancel, same] at found ⊢
                      simp only [found, Option.map_some, Option.getD_some]
                      omega
                rw [inside]
                exact .tag bounds.1 (ih _ _)
            | pending =>
                simp only [Option.map_some, Nat.sub_self, Option.getD_some, List.take_zero]
                exact .done
            | invalid =>
                simp only
                rw [shift 0]
                refine .char (fun _ shape found => ?_) (ih _ _)
                -- a tag of the cut text would be one of the whole text
                have whole := parse_tag_append (by simp) found false
                  (us.drop (((scanFrom false (index + 1) 0 us).pendingStart.map
                    (· - (index + 1))).getD us.length))
                rw [List.cons_append, List.take_append_drop, parsed] at whole
                cases whole
          · simp only [scanFrom, settledItems, less, if_false]
            rw [shift 0]
            exact .char (fun same => absurd same less) (ih _ _)

end Reads

section Views

abbrev View := List (DeltaKind × UInt16) × ReductionState UInt16

/-- The characters of the deltas with the kind of their delta. -/
def cells (output : List (Delta UInt16)) : List (DeltaKind × UInt16) :=
  output.flatMap fun delta => delta.text.map (delta.kind, ·)

def view (r : Reduction UInt16) : View := (cells r.output, r.state)

@[simp] theorem cells_nil : cells [] = [] := rfl

@[simp] theorem cells_append (a b : List (Delta UInt16)) : cells (a ++ b) = cells a ++ cells b :=
  List.flatMap_append

@[simp] theorem cells_pushDelta (output : List (Delta UInt16)) (kind : DeltaKind) (value : Text) :
    cells (pushDelta output kind value) = cells output ++ value.map (kind, ·) := by
  unfold pushDelta
  cases last : output.getLast? with
  | none =>
      obtain rfl : output = [] := by simpa using last
      simp [cells]
  | some previous =>
      obtain ⟨front, rfl⟩ := List.getLast?_eq_some_iff.mp last
      by_cases same : previous.kind = kind
      · simp [cells, same]
      · simp [same, cells]

@[simp] theorem cells_mergeDeltas (target additions : List (Delta UInt16)) :
    cells (Partitioner.mergeDeltas target additions) = cells target ++ cells additions := by
  induction additions generalizing target with
  | nil => simp [Partitioner.mergeDeltas, cells]
  | cons delta additions ih =>
      simp only [Partitioner.mergeDeltas, List.foldl_cons] at ih ⊢
      rw [ih, cells_pushDelta, List.append_assoc]
      simp [cells]

/-- A step of a reduction, on what is seen of it: the step's own output comes behind. -/
def lift (step : Reduction UInt16 → Reduction UInt16) (w : View) : View :=
  (w.1 ++ cells (step ⟨[], w.2⟩).output, (step ⟨[], w.2⟩).state)

/-- The step does not look at the output and only adds to it. -/
def Additive (step : Reduction UInt16 → Reduction UInt16) : Prop :=
  ∀ r, view (step r) = lift step (view r)

theorem lift_behind (step : Reduction UInt16 → Reduction UInt16)
    (before : List (DeltaKind × UInt16)) (w : View) :
    lift step (before ++ w.1, w.2) = (before ++ (lift step w).1, (lift step w).2) := by
  simp [lift]

theorem additive_emit (kind : DeltaKind) (value : Text) :
    Additive fun r => r.emit kind value := by
  intro r
  unfold Reduction.emit
  cases value with
  | nil => simp [view, lift]
  | cons u us => simp [view, lift]

theorem additive_append (value : Text) : Additive fun r => r.append value := by
  intro r
  have emitted := additive_emit .text value r
  obtain ⟨output, depth, visibleEver, pending⟩ := r
  cases value with
  | nil => simp [Reduction.append, view, lift, cells]
  | cons u us =>
      cases pending with
      | none => exact emitted
      | some pending =>
          simp only [Reduction.append, List.isEmpty_cons, Bool.false_eq_true, if_false, lift,
            view] at emitted ⊢
          by_cases inside : 0 < depth
          · simp [inside]
          · simp only [inside, if_false]
            exact emitted

theorem additive_openBlock (tag : ReasoningTagMatch) (text : Text) :
    Additive fun r => r.openBlock tag text := by
  intro r
  by_cases outside : r.state.depth = 0 <;> simp [Reduction.openBlock, lift, view, outside]

theorem additive_closeBlock : Additive Reduction.closeBlock := by
  intro r
  obtain ⟨output, depth, visibleEver, pending⟩ := r
  cases pending with
  | none => simp [Reduction.closeBlock, lift, view]
  | some pending =>
      have emitted := additive_emit .thinking pending.content
        ⟨output, 0, visibleEver, some pending⟩
      simp only [lift, view, Prod.mk.injEq] at emitted
      by_cases last : depth = 1
      · cases hidden : pending.containsPrivate with
        | true => simp [Reduction.closeBlock, lift, view, last, hidden]
        | false =>
            simp only [Reduction.closeBlock, lift, view, last, if_true, hidden,
              Bool.false_eq_true, if_false, emitted.1, emitted.2]
      · simp [Reduction.closeBlock, lift, view, last]

theorem additive_recover (mode : RecoveryMode) : Additive fun r => r.recover mode := by
  intro r
  obtain ⟨output, depth, visibleEver, pending⟩ := r
  cases pending with
  | none => simp [Reduction.recover, lift, view]
  | some pending =>
      have emitted : ∀ kind value, view (Reduction.emit
          ⟨output, depth, visibleEver, some pending⟩ kind value) = _ := fun kind value =>
        additive_emit kind value ⟨output, depth, visibleEver, some pending⟩
      simp only [lift, view, Prod.mk.injEq] at emitted
      by_cases inside : 0 < depth
      · cases hidden : pending.containsPrivate with
        | true => simp [Reduction.recover, lift, view, inside, hidden]
        | false =>
            simp only [Reduction.recover, lift, view, inside, if_true, hidden,
              Bool.false_eq_true, if_false]
            split
            · rw [(emitted _ _).1, (emitted _ _).2]
            · rw [(emitted _ _).1, (emitted _ _).2]
      · simp [Reduction.recover, lift, view, inside]

end Views

section Machine

/-- What an item does to a reduction in visible mode. -/
def absorb (item : Item) (r : Reduction UInt16) : Reduction UInt16 :=
  match item with
  | .char u => r.append [u]
  | .tag shape text =>
      if shape.isSelfClosing then r
      else if !shape.isClose then r.openBlock ⟨shape, 0⟩ text
      else if 0 < r.state.depth then r.closeBlock
      else r.append text

def absorbAll (items : List Item) (w : View) : View :=
  items.foldl (fun w item => lift (absorb item) w) w

@[simp] theorem absorbAll_nil (w : View) : absorbAll [] w = w := rfl

@[simp] theorem absorbAll_cons (item : Item) (items : List Item) (w : View) :
    absorbAll (item :: items) w = absorbAll items (lift (absorb item) w) := rfl

theorem absorbAll_append (a b : List Item) (w : View) :
    absorbAll (a ++ b) w = absorbAll b (absorbAll a w) := List.foldl_append

theorem absorbAll_behind (items : List Item) (before : List (DeltaKind × UInt16)) (w : View) :
    absorbAll items (before ++ w.1, w.2) =
      (before ++ (absorbAll items w).1, (absorbAll items w).2) := by
  induction items generalizing w with
  | nil => rfl
  | cons item items ih =>
      rw [absorbAll_cons, lift_behind, ih, absorbAll_cons]

theorem additive_absorb (item : Item) : Additive (absorb item) := by
  intro r
  cases item with
  | char u => exact additive_append [u] r
  | tag shape text =>
      have opened := additive_openBlock ⟨shape, 0⟩ text r
      have closed := additive_closeBlock r
      have appended := additive_append text r
      simp only [lift, view] at opened closed appended
      simp only [absorb, lift, view]
      split
      · simp
      · split
        · exact opened
        · by_cases inside : 0 < r.state.depth
          · simp only [inside, if_true]
            exact closed
          · simp only [inside, if_false]
            exact appended

/-- Visible text seen from outside, when no tag closes in it. -/
def appendView (w : View) (value : Text) : View :=
  let emitted : View :=
    (w.1 ++ value.map (.text, ·),
      { w.2 with visibleEver := w.2.visibleEver || hasVisible value })
  match w.2.pending with
  | some pending =>
      if 0 < w.2.depth then
        (w.1, { w.2 with pending := some { pending with content := pending.content ++ value } })
      else emitted
  | none => emitted

/-- No tag is read in the text, wherever it stands. -/
def Quiet (value : Text) : Prop := ∀ index, (scanFrom true index 0 value).tags = []

theorem units_id (value : Text) : units value = value := List.map_id value

theorem lift_emit_text (w : View) (value : Text) :
    lift (fun r => r.emit .text value) w = (w.1 ++ value.map (.text, ·),
      { w.2 with visibleEver := w.2.visibleEver || hasVisible value }) := by
  unfold Reduction.emit
  cases value with
  | nil => simp [lift, hasVisible, units]
  | cons u us => cases hasVisible (u :: us) <;> simp [lift]

theorem lift_append_quiet (w : View) {value : Text} (quiet : Quiet value) :
    lift (fun r => r.append value) w = appendView w value := by
  have emitted := lift_emit_text w value
  obtain ⟨shown, depth, visibleEver, pending⟩ := w
  cases value with
  | nil =>
      cases pending with
      | none => simp [lift, Reduction.append, appendView, hasVisible, units]
      | some pending => simp [lift, Reduction.append, appendView, hasVisible, units]
  | cons u us =>
      cases pending with
      | none => exact emitted
      | some pending =>
          simp only [lift, Reduction.append, appendView, List.isEmpty_cons, Bool.false_eq_true,
            if_false, units_id] at emitted ⊢
          by_cases inside : 0 < depth
          · have none : (scanReasoningTags (u :: us) true).tags = [] := quiet 0
            simp [inside, none]
          · simp only [inside, if_false]
            exact emitted

theorem hasVisible_append (a b : Text) : hasVisible (a ++ b) = (hasVisible a || hasVisible b) := by
  simp [hasVisible, units_id]

theorem appendView_append (w : View) (a b : Text) :
    appendView w (a ++ b) = appendView (appendView w a) b := by
  obtain ⟨shown, depth, visibleEver, pending⟩ := w
  cases pending with
  | none => simp [appendView, hasVisible_append, Bool.or_assoc]
  | some pending =>
      by_cases inside : 0 < depth <;>
        simp [appendView, inside, hasVisible_append, Bool.or_assoc]

@[simp] theorem appendView_nil (w : View) : appendView w [] = w := by
  obtain ⟨shown, depth, visibleEver, pending⟩ := w
  cases pending <;> simp [appendView, hasVisible, units]

theorem quiet_singleton (u : UInt16) : Quiet [u] := by
  intro index
  by_cases less : u = lessThan
  · subst less
    have invalid : parseReasoningTagAt true [lessThan] = .invalid := by decide
    simp [scanFrom, invalid]
  · simp [scanFrom, less]

theorem absorb_char (w : View) (u : UInt16) : lift (absorb (.char u)) w = appendView w [u] :=
  lift_append_quiet w (quiet_singleton u)

theorem absorbAll_chars (w : View) (value : Text) :
    absorbAll (value.map .char) w = appendView w value := by
  induction value generalizing w with
  | nil => simp
  | cons u us ih =>
      rw [List.map_cons, absorbAll_cons, absorb_char, ih, ← appendView_append]
      rfl

end Machine

section Loop

/-- Between an index and a cursor before it no tag begins. -/
def CalmBetween (text : Text) (cursor index : Nat) : Prop :=
  ∀ position, cursor ≤ position → position < index → text[position]? = some lessThan →
    ∀ shape, parseReasoningTagAt true (text.drop position) ≠ .tag shape

theorem slice_cons {text : Text} {start stop : Nat} (before : start < stop)
    (inside : start < text.length) :
    slice text start stop = text[start] :: slice text (start + 1) stop := by
  have long : start < (text.take stop).length := by
    rw [List.length_take]
    omega
  rw [slice, List.drop_eq_getElem_cons long, List.getElem_take]
  rfl

theorem slice_append_drop {text : Text} {start stop : Nat} (le : start ≤ stop) :
    slice text start stop ++ text.drop stop = text.drop start := by
  conv_rhs => rw [← List.take_append_drop stop text, List.drop_append]
  rw [slice, List.length_take]
  by_cases inside : stop ≤ text.length
  · rw [Nat.min_eq_left inside, Nat.sub_eq_zero_of_le le, List.drop_zero]
  · rw [List.drop_eq_nil_of_le (by omega : text.length ≤ stop), List.drop_nil]

theorem slice_succ {text : Text} {start index : Nat} {u : UInt16} {us : Text}
    (le : start ≤ index) (rest : text.drop index = u :: us) :
    slice text start (index + 1) = slice text start index ++ [u] := by
  have found : text[index]? = some u := by
    have head := congrArg List.head? rest
    rwa [List.head?_drop, List.head?_cons] at head
  have inside := (List.getElem?_eq_some_iff.mp found).1
  rw [slice, slice, List.take_add_one, found, List.drop_append_of_le_length]
  · rfl
  · rw [List.length_take]
    omega

theorem slice_eq_nil {text : Text} {start stop : Nat} (le : stop ≤ start) :
    slice text start stop = [] := by
  rw [slice, List.drop_eq_nil_iff, List.length_take]
  omega

theorem slice_to_end {text : Text} {start stop : Nat} (le : text.length ≤ stop) :
    slice text start stop = text.drop start := by
  rw [slice, List.take_of_length_le le]

theorem calm_quiet {text : Text} {cursor index : Nat} (calm : CalmBetween text cursor index) :
    Quiet (slice text cursor index) := by
  by_cases before : cursor < index ∧ cursor < text.length
  · obtain ⟨before, inside⟩ := before
    have rest : Quiet (slice text (cursor + 1) index) :=
      calm_quiet fun position le => calm position (by omega)
    intro at_
    have split := slice_cons before inside
    by_cases less : text[cursor] = lessThan
    · have noTag : ∀ shape, parseReasoningTagAt true (slice text cursor index) ≠ .tag shape := by
        intro shape found
        have nonempty : slice text cursor index ≠ [] := by simp [split]
        have whole := parse_tag_append nonempty found true (text.drop index)
        rw [slice_append_drop (by omega)] at whole
        exact calm cursor (Nat.le_refl _) before (by simp [inside, less]) shape whole
      rw [split, less] at noTag ⊢
      simp only [scanFrom, if_true]
      cases parsed : parseReasoningTagAt true (lessThan :: slice text (cursor + 1) index) with
      | tag shape => exact absurd parsed (noTag shape)
      | pending => rfl
      | invalid => exact rest _
    · rw [split]
      simp only [scanFrom, less, if_false]
      exact rest _
  · have none : slice text cursor index = [] := by
      rw [slice, List.drop_eq_nil_iff, List.length_take]
      omega
    rw [none]
    exact fun _ => rfl
termination_by index - cursor

theorem loop_cons {text : Text} {options : ReductionOptions} (mode : options.mode = .visible)
    (scope : options.scope = .all) (tag : ReasoningTagMatch) (mustParse : Bool)
    (tags : List (ReasoningTagMatch × Bool)) (cursor : Nat) (r : Reduction UInt16) :
    Reduction.loop text options ((tag, mustParse) :: tags) cursor r =
      Reduction.loop text options tags tag.stop
        (absorb (.tag tag.toTagShape (slice text tag.index tag.stop))
          (r.append (slice text cursor tag.index))) := by
  simp only [Reduction.loop, absorb, scope, mode, reduceCtorEq, false_and, and_false, if_false,
    Reduction.strayClose, if_true]
  cases tag.isSelfClosing with
  | true => rfl
  | false =>
      cases tag.isClose with
      | false => rfl
      | true =>
          simp only [Bool.not_true, Bool.false_eq_true, if_false]
          split <;> rfl

theorem mustParseRemainder_length (tags : List ReasoningTagMatch) :
    (mustParseRemainder tags).1.length = tags.length := by
  induction tags with
  | nil => rfl
  | cons tag tags ih => simp [mustParseRemainder, ih]

/-- The loop of a visible call over all tags is the run of the machine over the items they
cut the text into; `skip` units of the last tag are still ahead of the index. -/
theorem loop_reads {text : Text} {options : ReductionOptions} (mode : options.mode = .visible)
    (scope : options.scope = .all) {rest : Text} {index skip : Nat}
    {tags : List ReasoningTagMatch} {items : List Item} (reads : Reads rest index skip tags items)
    (at_ : rest = text.drop index) {pairs : List (ReasoningTagMatch × Bool)}
    (paired : pairs.map (·.1) = tags) {cursor : Nat} (r : Reduction UInt16)
    (place : (0 < skip ∧ cursor = index + skip) ∨ (skip = 0 ∧ cursor ≤ index))
    (calm : CalmBetween text cursor index) :
    view ((Reduction.loop text options pairs cursor r).1.append
        (text.drop (Reduction.loop text options pairs cursor r).2)) =
      absorbAll items (appendView (view r) (slice text cursor index)) := by
  induction reads generalizing pairs cursor r with
  | @done index skip =>
      obtain rfl : pairs = [] := by simpa using paired
      have ends : text.length ≤ index := by simpa using at_.symm
      have quiet := calm_quiet calm
      rw [slice_to_end ends] at quiet ⊢
      exact (additive_append _ r).trans (lift_append_quiet _ quiet)
  | @skipped u us index skip tags items rest ih =>
      have next : us = text.drop (index + 1) := by
        rw [← List.tail_drop, ← at_, List.tail_cons]
      have stop : cursor = index + (skip + 1) := by omega
      have later : CalmBetween text cursor (index + 1) := fun position behind lt => by omega
      have stepped := ih next paired r (by omega) later
      rw [slice_eq_nil (by omega : index + 1 ≤ cursor)] at stepped
      rw [slice_eq_nil (by omega : index ≤ cursor)]
      exact stepped
  | @char u us index tags items quiet rest ih =>
      have le : cursor ≤ index := by omega
      have next : us = text.drop (index + 1) := by
        rw [← List.tail_drop, ← at_, List.tail_cons]
      have calmNext : CalmBetween text cursor (index + 1) := by
        intro position behind before found shape
        by_cases here : position = index
        · subst here
          rw [← at_]
          have head := congrArg List.head? at_
          rw [List.head?_drop, found, List.head?_cons] at head
          exact quiet (Option.some.inj head) shape
        · exact calm position behind (by omega) found shape
      rw [ih next paired r (by omega) calmNext, slice_succ le at_.symm, appendView_append,
        absorbAll_cons, absorb_char]
  | @tag u us index tags items shape positive rest ih =>
      have le : cursor ≤ index := by omega
      have next : us = text.drop (index + 1) := by
        rw [← List.tail_drop, ← at_, List.tail_cons]
      obtain ⟨⟨tag, mustParse⟩, pairs', rfl⟩ : ∃ pair pairs', pairs = pair :: pairs' := by
        cases pairs with
        | nil => simp at paired
        | cons pair pairs' => exact ⟨pair, pairs', rfl⟩
      simp only [List.map_cons, List.cons.injEq] at paired
      obtain ⟨rfl, paired⟩ := paired
      have own : (u :: us).take shape.length = slice text index (index + shape.length) := by
        rw [at_, slice, List.drop_take, Nat.add_sub_cancel_left]
      have before : view (r.append (slice text cursor index)) =
          appendView (view r) (slice text cursor index) :=
        (additive_append _ r).trans (lift_append_quiet _ (calm_quiet calm))
      have stop : (ReasoningTagMatch.mk shape index).stop = index + shape.length := rfl
      have later : CalmBetween text (index + shape.length) (index + 1) :=
        fun position behind lt => by omega
      have stepped := ih next paired
        (absorb (.tag shape (slice text index (index + shape.length)))
          (r.append (slice text cursor index))) (by omega) later
      have past : slice text (index + shape.length) (index + 1) = [] := slice_eq_nil (by omega)
      rw [past, appendView_nil, additive_absorb, before] at stepped
      rw [loop_cons mode scope, stop, absorbAll_cons, own]
      exact stepped

/-- A visible call's view: the items of its tags, and what is recovered at the end. -/
theorem reduce_reads {text : Text} {options : ReductionOptions} (mode : options.mode = .visible)
    (scope : options.scope = .all) (state : ReductionState UInt16) {items : List Item}
    (reads : Reads (text.drop options.start) options.start 0 (visibleTags text [] options) items) :
    view (reduceReasoningText text [] state options) =
      if options.final then lift (fun r => r.recover .visible) (absorbAll items ([], state))
      else absorbAll items ([], state) := by
  have paired : ((visibleTags text [] options).zip
      (mustParseRemainder (visibleTags text [] options)).1).map (·.1) =
        visibleTags text [] options := by
    rw [List.map_fst_zip]
    exact (mustParseRemainder_length _).ge
  have looped := loop_reads mode scope reads rfl paired ⟨[], state⟩ (.inr ⟨rfl, Nat.le_refl _⟩)
    fun position behind before => by omega
  rw [slice_eq_nil (Nat.le_refl _), appendView_nil] at looped
  simp only [reduceReasoningText, mode]
  split
  · rw [additive_recover .visible, looped]
    rfl
  · exact looped

end Loop

end OpenClaw.ReasoningTags
