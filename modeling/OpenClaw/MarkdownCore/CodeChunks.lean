import OpenClaw.MarkdownCore.Fences

/-!
Inline code between fences. The scan retires the fences one after another and counts the runs
of backticks between them; an inline span may stay open over a fence and over the end of a text.
-/

namespace OpenClaw.MarkdownCore

open JsUnits
open SpanTracking

variable {text chunk rest : Text} {fences others : List FenceSpan} {index : Nat}

structure InlineCodeState where
  isOpen : Bool := false
  ticks : Nat := 0
  deriving DecidableEq

/-- The scan keeps the start of the span that is open beside the ticks that close it. -/
structure InlineScan where
  ticks : Nat
  tracker : Tracker Unit

/-- The fence that starts at the index or before it, and the fences behind. -/
def retiredFence (fences : List FenceSpan) (index : Nat) : Option (FenceSpan × List FenceSpan) :=
  match fences with
  | [] => none
  | fence :: others => if fence.start ≤ index then some (fence, others) else none

def runLength (text : Text) (index : Nat) : Nat := ((text.drop index).takeWhile (· == backtick)).length

/-- A run of backticks opens a span, or closes one of the same length. -/
def InlineScan.run (start length : Nat) (scan : InlineScan) : InlineScan :=
  match scan.tracker.openData with
  | none => { ticks := length, tracker := scan.tracker.enter start () }
  | some _ =>
      if length = scan.ticks then { ticks := 0, tracker := scan.tracker.leave (start + length) }
      else scan

theorem retiredFence_length {fence : FenceSpan}
    (retired : retiredFence fences index = some (fence, others)) : fences = fence :: others ∧
      fence.start ≤ index := by
  unfold retiredFence at retired
  split at retired
  case h_1 => cases retired
  case h_2 =>
    split at retired
    case isFalse => cases retired
    case isTrue le =>
      cases retired
      exact ⟨rfl, le⟩

theorem runLength_pos (inside : index < text.length) (tick : text.getD index 0 = backtick) :
    0 < runLength text index := by
  rw [List.getD_eq_getElem _ _ inside] at tick
  rw [runLength, List.drop_eq_getElem_cons inside, List.takeWhile_cons_of_pos (by simpa using tick)]
  exact Nat.succ_pos _

def inlineFrom (text : Text) (fences : List FenceSpan) (index : Nat) (scan : InlineScan) :
    InlineScan :=
  if inside : index < text.length then
    match retired : retiredFence fences index with
    | some (fence, others) =>
        have := congrArg List.length (retiredFence_length retired).1
        inlineFrom text others fence.stop scan
    | none =>
        if tick : text.getD index 0 = backtick then
          have := runLength_pos inside tick
          inlineFrom text fences (index + runLength text index)
            (scan.run index (runLength text index))
        else inlineFrom text fences (index + 1) scan
  else scan
termination_by (fences.length, text.length - index)
decreasing_by
  · rw [List.length_cons] at this
    exact Prod.Lex.left _ _ (by omega)
  · exact Prod.Lex.right _ (by omega)
  · exact Prod.Lex.right _ (by omega)

/-- `{ open, ticks }` of a scan. -/
def InlineScan.state (scan : InlineScan) : InlineCodeState :=
  { isOpen := scan.tracker.openData.isSome, ticks := scan.ticks }

def InlineCodeState.scan (state : InlineCodeState) : InlineScan :=
  { ticks := state.ticks, tracker := .carried (if state.isOpen then some () else none) }

def parseInlineCodeSpans (text : Text) (fenceSpans : List FenceSpan) (initialState : InlineCodeState) :
    List (Span Unit) × InlineCodeState :=
  let scan := inlineFrom text fenceSpans 0 initialState.scan
  (scan.tracker.finish text.length, scan.state)

structure CodeSpanIndex where
  inlineState : InlineCodeState
  fenceState : FenceScanState
  isInside : Nat → Bool

def isInsideSpan {δ : Type} (index : Nat) (spans : List (Span δ)) : Bool :=
  spans.any fun span => span.Covers index

def buildCodeSpanIndex (text : Text) (inlineState : InlineCodeState) (fenceState : FenceScanState) :
    CodeSpanIndex :=
  let (fenceSpans, nextFenceState) := scanFenceSpans text fenceState
  let (inlineSpans, nextInlineState) := parseInlineCodeSpans text fenceSpans inlineState
  { inlineState := nextInlineState, fenceState := nextFenceState
    isInside := fun index => isInsideSpan index fenceSpans || isInsideSpan index inlineSpans }

end OpenClaw.MarkdownCore

/-!
Code spans of a text that is cut behind line feeds. Up to the cut the inline scan of the whole
text is that of the first part, since no run of backticks and no line of a fence goes over it;
behind the cut it is that of the second part, which starts with what the first part left open.
-/

namespace OpenClaw.MarkdownCore

open JsUnits
open SpanTracking

variable {text chunk rest : Text} {fences others whole first second : List FenceSpan}
  {index : Nat}

theorem runLength_append (ends : EndsLine chunk) (inside : index < chunk.length) :
    runLength (chunk ++ rest) index = runLength chunk index ∧
      index + runLength chunk index < chunk.length := by
  have ends' := ends.drop inside
  have stops : ∀ {units : Text}, EndsLine units →
      (units ++ rest).takeWhile (· == backtick) = units.takeWhile (· == backtick) ∧
        (units.takeWhile (· == backtick)).length < units.length := by
    intro units ends
    induction units with
    | nil => cases ends
    | cons unit units ih =>
        by_cases tick : unit = backtick
        · have filled : units ≠ [] := by
            rintro rfl
            have feed : unit = lineFeed := Option.some.inj ends
            rw [feed] at tick
            exact absurd tick (by decide)
          rw [EndsLine, List.getLast?_cons_of_ne_nil filled] at ends
          obtain ⟨same, shorter⟩ := ih ends
          subst tick
          simpa using ⟨same, shorter⟩
        · simp [tick]
  obtain ⟨same, shorter⟩ := stops ends'
  rw [runLength, runLength, List.drop_append_of_le_length inside.le, same]
  rw [List.length_drop] at shorter
  exact ⟨rfl, by omega⟩

/-- The fences of a part that are still ahead lie one behind another and start in the part. -/
structure Ahead (length : Nat) (fences : List FenceSpan) : Prop where
  apart : fences.Pairwise fun before behind => before.stop ≤ behind.start
  inside : ∀ fence ∈ fences, fence.start < length ∧ fence.stop ≤ length

theorem Ahead.tail {length : Nat} {fence : FenceSpan} (ahead : Ahead length (fence :: others)) :
    Ahead length others :=
  ⟨(List.pairwise_cons.mp ahead.apart).2, fun other mem => ahead.inside other (.tail _ mem)⟩

/-- Behind a fence that ends with the part there is none. -/
theorem Ahead.last {length : Nat} {fence : FenceSpan} (ahead : Ahead length (fence :: others))
    (last : length ≤ fence.stop) : others = [] := by
  obtain _ | ⟨other, others⟩ := others
  · rfl
  · have behind := (List.pairwise_cons.mp ahead.apart).1 other (List.mem_cons_self ..)
    have inside := (ahead.inside other (by simp)).1
    omega

theorem retiredFence_eq_none {length : Nat} (ahead : Ahead length fences)
    (last : length ≤ index + 1) (none_ : retiredFence fences index = none) : fences = [] := by
  obtain _ | ⟨fence, others⟩ := fences
  · rfl
  · have inside := (ahead.inside fence (List.mem_cons_self ..)).1
    rw [retiredFence, if_pos (by omega)] at none_
    cases none_

theorem retiredFence_cons_eq_none {fence : FenceSpan} :
    retiredFence (fence :: others) index = none ↔ ¬ fence.start ≤ index := by
  rw [retiredFence]
  split <;> simp_all

/-- The fences of the whole text start like those of the first part. -/
theorem retiredFence_whole (joins : Joins chunk.length whole first second)
    (inside : index < chunk.length) (none_ : retiredFence first index = none) :
    retiredFence whole index = none := by
  cases joins with
  | apart =>
      obtain _ | ⟨fence, first⟩ := first
      · obtain _ | ⟨fence, second⟩ := second
        · rfl
        · have behind : ¬ (fence.shift chunk.length).start ≤ index := by
            simp only [Span.shift]
            omega
          exact retiredFence_cons_eq_none.mpr behind
      · exact retiredFence_cons_eq_none.mpr (retiredFence_cons_eq_none.mp none_)
  | @across before _ start stop data le =>
      obtain _ | ⟨fence, before⟩ := before
      · have behind : ¬ start ≤ index := retiredFence_cons_eq_none.mp none_
        exact retiredFence_cons_eq_none.mpr behind
      · exact retiredFence_cons_eq_none.mpr (retiredFence_cons_eq_none.mp none_)

theorem inlineFrom_ended (ended : text.length ≤ index) (fences : List FenceSpan) (scan : InlineScan) :
    inlineFrom text fences index scan = scan := by
  rw [inlineFrom, dif_neg (by omega)]

theorem inlineFrom_retired {fence : FenceSpan} (inside : index < text.length)
    (start : fence.start ≤ index) (scan : InlineScan) :
    inlineFrom text (fence :: others) index scan = inlineFrom text others fence.stop scan := by
  have retired : retiredFence (fence :: others) index = some (fence, others) := if_pos start
  rw [inlineFrom, dif_pos inside]
  split
  case h_1 same =>
    rw [retired] at same
    cases same
    rfl
  case h_2 none_ =>
    rw [retired] at none_
    cases none_

theorem inlineFrom_unit (inside : index < text.length) (none_ : retiredFence fences index = none)
    (scan : InlineScan) : inlineFrom text fences index scan =
      if text.getD index 0 = backtick then
        inlineFrom text fences (index + runLength text index) (scan.run index (runLength text index))
      else inlineFrom text fences (index + 1) scan := by
  conv_lhs => rw [inlineFrom]
  rw [dif_pos inside]
  split
  case h_1 retired =>
    rw [none_] at retired
    cases retired
  case h_2 =>
    split
    case isTrue => rfl
    case isFalse => rfl

/-- Up to the cut the scan of the whole text is that of the first part. -/
theorem inlineFrom_first (ends : EndsLine chunk) (rest : Text)
    (joins : Joins chunk.length whole first second) (ahead : Ahead chunk.length first)
    (inside : index ≤ chunk.length) (last : index = chunk.length → first = []) (scan : InlineScan) :
    inlineFrom (chunk ++ rest) whole index scan =
      inlineFrom (chunk ++ rest) (second.map (Span.shift chunk.length)) chunk.length
        (inlineFrom chunk first index scan) := by
  induction first, index, scan using inlineFrom.induct chunk generalizing whole with
  | case1 fences index scan more fence others retired _ ih =>
      obtain ⟨rfl, start⟩ := retiredFence_length retired
      have more' : index < (chunk ++ rest).length := by
        rw [List.length_append]
        omega
      have stop := (ahead.inside fence (List.mem_cons_self ..)).2
      rw [inlineFrom_retired more start]
      generalize listed : fence :: others = fences at joins
      cases joins with
      | apart =>
          subst listed
          rw [List.cons_append, inlineFrom_retired more' start]
          exact ih .apart ahead.tail stop fun last => ahead.last last.ge
      | @across before second start' stop' data le =>
          obtain _ | ⟨first, before⟩ := before
          · -- the fence goes over the cut: the second part starts in it
            cases listed
            have start'' : start' ≤ index := start
            rw [List.nil_append, inlineFrom_retired more' start'', inlineFrom_ended le_rfl]
            by_cases ended : rest = []
            · subst ended
              rw [List.append_nil, inlineFrom_ended le_rfl, inlineFrom_ended (Nat.le_add_right ..)]
            · have positive := List.length_pos_of_ne_nil ended
              have more'' : chunk.length < (chunk ++ rest).length := by
                rw [List.length_append]
                omega
              have at_ : (Span.shift chunk.length { start := 0, stop := stop', data }).start ≤
                  chunk.length := le_rfl
              rw [List.map_cons, inlineFrom_retired more'' at_]
              rfl
          · obtain ⟨rfl, rfl⟩ := List.cons.inj listed
            rw [List.cons_append, inlineFrom_retired more' start]
            exact ih (.across le) ahead.tail stop fun last => ahead.last last.ge
  | case2 fences index scan more none_ tick _ ih =>
      obtain ⟨run, behind⟩ := @runLength_append chunk rest index ends more
      have more' : index < (chunk ++ rest).length := by
        rw [List.length_append]
        omega
      have same : (chunk ++ rest).getD index 0 = backtick := by
        rw [List.getD_append _ _ _ _ more]
        exact tick
      rw [inlineFrom_unit more none_, if_pos tick,
        inlineFrom_unit more' (retiredFence_whole joins more none_), if_pos same, run]
      exact ih joins ahead behind.le fun last => absurd last behind.ne
  | case3 fences index scan more none_ tick ih =>
      have more' : index < (chunk ++ rest).length := by
        rw [List.length_append]
        omega
      have same : ¬ (chunk ++ rest).getD index 0 = backtick := by
        rw [List.getD_append _ _ _ _ more]
        exact tick
      rw [inlineFrom_unit more none_, if_neg tick,
        inlineFrom_unit more' (retiredFence_whole joins more none_), if_neg same]
      exact ih joins ahead more fun last => retiredFence_eq_none ahead last.ge none_
  | case4 fences index scan ended =>
      obtain rfl : index = chunk.length := by omega
      rw [last rfl, inlineFrom_ended le_rfl]
      rw [last rfl] at joins
      generalize nothing : ([] : List FenceSpan) = fences at joins
      cases joins with
      | apart => rw [← nothing, List.nil_append]
      | across => simp at nothing

/-- The scan of the whole text, from those of its parts. -/
def InlineScan.resume (offset : Nat) (first second : InlineScan) : InlineScan :=
  { ticks := second.ticks, tracker := Tracker.resume offset first.tracker second.tracker }

theorem run_resume {first second : InlineScan} (continues : first.tracker.Continues second.tracker)
    (offset start length : Nat) :
    (InlineScan.resume offset first second).run (offset + start) length =
        InlineScan.resume offset first (second.run start length) ∧
      first.tracker.Continues (second.run start length).tracker := by
  have data := @Tracker.openData_resume _ offset _ _ continues
  unfold InlineScan.run
  rw [InlineScan.resume, data]
  cases opened : second.tracker.openData with
  | none =>
      obtain ⟨same, continues⟩ := @Tracker.resume_enter _ offset _ _ continues opened start ()
      exact ⟨by rw [InlineScan.resume, same], continues⟩
  | some _ =>
      dsimp only
      split
      case isTrue =>
        obtain ⟨same, continues⟩ := @Tracker.resume_leave _ offset _ _ continues (start + length)
        exact ⟨by rw [InlineScan.resume, same, Nat.add_assoc], continues⟩
      case isFalse => exact ⟨rfl, continues⟩

theorem retiredFence_shift_eq_none {offset : Nat} (none_ : retiredFence fences index = none) :
    retiredFence (fences.map (Span.shift offset)) (offset + index) = none := by
  obtain _ | ⟨fence, others⟩ := fences
  · rfl
  · have behind := retiredFence_cons_eq_none.mp none_
    refine retiredFence_cons_eq_none.mpr ?_
    rw [Span.shift]
    dsimp only
    omega

/-- Behind the cut the scan of the whole text does what that of the second part does. -/
theorem inlineFrom_second (chunk rest : Text) (fences : List FenceSpan) (index : Nat)
    {first second : InlineScan} (continues : first.tracker.Continues second.tracker) :
    inlineFrom (chunk ++ rest) (fences.map (Span.shift chunk.length)) (chunk.length + index)
        (.resume chunk.length first second) =
          .resume chunk.length first (inlineFrom rest fences index second) ∧
      first.tracker.Continues (inlineFrom rest fences index second).tracker := by
  have inWhole : ∀ {index}, index < rest.length → chunk.length + index < (chunk ++ rest).length := by
    intro index more
    rw [List.length_append]
    omega
  have unitAt : ∀ index, (chunk ++ rest).getD (chunk.length + index) 0 = rest.getD index 0 := by
    intro index
    rw [List.getD_append_right _ _ _ _ (Nat.le_add_right ..), Nat.add_sub_cancel_left]
  have runAt : ∀ index, runLength (chunk ++ rest) (chunk.length + index) = runLength rest index := by
    intro index
    rw [runLength, runLength, ← List.drop_drop, List.drop_left]
  induction fences, index, second using inlineFrom.induct rest with
  | case1 fences index second more fence others retired _ ih =>
      obtain ⟨rfl, start⟩ := retiredFence_length retired
      have start' : (fence.shift chunk.length).start ≤ chunk.length + index :=
        Nat.add_le_add_left start _
      rw [List.map_cons, inlineFrom_retired more start, inlineFrom_retired (inWhole more) start']
      exact ih continues
  | case2 fences index second more none_ tick _ ih =>
      obtain ⟨same, continues'⟩ := run_resume continues chunk.length index (runLength rest index)
      rw [inlineFrom_unit more none_, if_pos tick,
        inlineFrom_unit (inWhole more) (retiredFence_shift_eq_none none_), unitAt, if_pos tick, runAt,
        same, Nat.add_assoc]
      exact ih continues'
  | case3 fences index second more none_ tick ih =>
      rw [inlineFrom_unit more none_, if_neg tick,
        inlineFrom_unit (inWhole more) (retiredFence_shift_eq_none none_), unitAt, if_neg tick,
        Nat.add_assoc]
      exact ih continues
  | case4 fences index second ended =>
      have ended' : (chunk ++ rest).length ≤ chunk.length + index := by
        rw [List.length_append]
        omega
      rw [inlineFrom_ended ended', inlineFrom_ended (not_lt.mp ended)]
      exact ⟨rfl, continues⟩

/-- What the tracker of a text knows lies in the text. -/
structure Within (length : Nat) (tracker : Tracker Unit) : Prop where
  spans : ∀ span ∈ tracker.spans, span.stop ≤ length
  opened : ∀ opened, tracker.opened = some opened → opened.1 ≤ length

theorem runLength_le (text : Text) (index : Nat) : runLength text index ≤ text.length - index := by
  rw [← List.length_drop]
  exact (List.takeWhile_sublist _).length_le

theorem inlineFrom_within {scan : InlineScan} (within : Within text.length scan.tracker) :
    Within text.length (inlineFrom text fences index scan).tracker := by
  induction fences, index, scan using inlineFrom.induct text with
  | case1 fences index scan more fence others retired _ ih =>
      obtain ⟨rfl, start⟩ := retiredFence_length retired
      rw [inlineFrom_retired more start]
      exact ih within
  | case2 fences index scan more none_ tick _ ih =>
      have short := runLength_le text index
      rw [inlineFrom_unit more none_, if_pos tick]
      refine ih ?_
      unfold InlineScan.run
      split
      case h_1 => exact ⟨within.spans, fun opened same => by cases same; exact more.le⟩
      case h_2 =>
        split
        case isTrue =>
          obtain ⟨ticks, spans, _ | ⟨start, data⟩⟩ := scan
          · exact within
          · refine ⟨List.forall_mem_append.mpr ⟨within.spans, fun span mem => ?_⟩, nofun⟩
            rw [List.mem_singleton.mp mem]
            dsimp only
            omega
        case isFalse => exact within
  | case3 fences index scan more none_ tick ih =>
      rw [inlineFrom_unit more none_, if_neg tick]
      exact ih within
  | case4 fences index scan ended =>
      rw [inlineFrom_ended (by omega)]
      exact within

theorem within_carried (data : Option Unit) (length : Nat) : Within length (.carried data) :=
  ⟨fun _ mem => absurd mem List.not_mem_nil, fun opened same => by
    obtain ⟨_, _, rfl⟩ := Option.map_eq_some_iff.mp same
    exact Nat.zero_le _⟩

theorem Within.finish {length : Nat} {tracker : Tracker Unit} (within : Within length tracker) :
    ∀ span ∈ tracker.finish length, span.stop ≤ length := by
  refine List.forall_mem_append.mpr ⟨within.spans, fun span mem => ?_⟩
  obtain ⟨_, _, rfl⟩ := Option.map_eq_some_iff.mp (Option.mem_toList.mp mem)
  exact le_rfl

theorem parseInlineCodeSpans_within (text : Text) (fences : List FenceSpan)
    (state : InlineCodeState) :
    ∀ span ∈ (parseInlineCodeSpans text fences state).1, span.stop ≤ text.length :=
  (inlineFrom_within (within_carried _ _)).finish

/-- The inline spans of the whole text are those of its parts, joined. -/
theorem parseInlineCodeSpans_append (ends : EndsLine chunk) (rest : Text)
    (joins : Joins chunk.length whole first second) (ahead : Ahead chunk.length first)
    (state : InlineCodeState) :
    let before := parseInlineCodeSpans chunk first state
    let behind := parseInlineCodeSpans rest second before.2
    Joins chunk.length (parseInlineCodeSpans (chunk ++ rest) whole state).1 before.1 behind.1 ∧
      (parseInlineCodeSpans (chunk ++ rest) whole state).2 = behind.2 := by
  intro before behind
  have positive : 0 < chunk.length := List.length_pos_of_mem ends.mem
  have data : ∀ data : Option Unit, (if data.isSome then some () else none) = data := by decide
  have next : before.2.scan =
      { ticks := (inlineFrom chunk first 0 state.scan).ticks,
        tracker := .carried (inlineFrom chunk first 0 state.scan).tracker.openData } :=
    congrArg (fun open_ => InlineScan.mk _ (.carried open_)) (data _)
  have resumed : InlineScan.resume chunk.length (inlineFrom chunk first 0 state.scan) before.2.scan =
      inlineFrom chunk first 0 state.scan := by
    rw [next, InlineScan.resume, Tracker.resume_carried]
  have continues : (inlineFrom chunk first 0 state.scan).tracker.Continues before.2.scan.tracker := by
    rw [next]
    exact Tracker.continues_carried _
  obtain ⟨same, continues'⟩ := inlineFrom_second chunk rest second 0 continues
  have scan : inlineFrom (chunk ++ rest) whole 0 state.scan =
      .resume chunk.length (inlineFrom chunk first 0 state.scan)
        (inlineFrom rest second 0 before.2.scan) := by
    rw [inlineFrom_first ends rest joins ahead (Nat.zero_le _) fun zero => absurd zero positive.ne]
    rw [resumed, Nat.add_zero] at same
    exact same
  have within : Within chunk.length (inlineFrom chunk first 0 state.scan).tracker :=
    inlineFrom_within (within_carried _ _)
  constructor
  · rw [parseInlineCodeSpans, scan, List.length_append]
    exact Tracker.finish_resume continues' within.opened rest.length
  · rw [parseInlineCodeSpans, scan]
    simp only [InlineScan.state, InlineScan.resume, Tracker.openData_resume continues']
    rfl

end OpenClaw.MarkdownCore
