import OpenClaw.Lib.JsUnits
import OpenClaw.Lib.SpanTracking

/-!
The scanner of fenced code. A match of the fence pattern covers one line up to its line feed, so
the matches are those of the lines; a scan of a text that was cut behind a line feed finds the
matches of both parts, and what the second part starts with is the state that the first one left.
-/

namespace OpenClaw.MarkdownCore

open JsUnits
open SpanTracking

variable {text rest line : Text} {offset : Nat}

def backtick : UInt16 := 0x60
def tilde : UInt16 := 0x7E

/-- The opener of a fence; its marker character and length are those of the marker. -/
structure FenceOpener where
  openLine : Text
  marker : Text
  indent : Text
  deriving DecidableEq

abbrev FenceSpan := Span FenceOpener

structure FenceScanState where
  atLineStart : Bool := true
  opened : Option FenceOpener := none

/-- The groups of a match, and where it starts behind its line feed and ends. -/
structure FenceMatch where
  start : Nat
  stop : Nat
  indent : Text
  marker : Text
  trailing : Text

/-- The class `[\r\n\u2028\u2029]`. -/
def isLineTerminator (unit : UInt16) : Bool :=
  unit == lineFeed || unit == carriageReturn || unit == 0x2028 || unit == 0x2029

/-- The groups of `( {0,3})(`{3,}|~{3,})([^\r\n\u2028\u2029]*)\r?` on the whole of a line. -/
def fenceLine (line : Text) : Option (Text × Text × Text) :=
  let indent := line.takeWhile (· == space)
  match line.drop indent.length with
  | [] => none
  | char :: units =>
      let marker := (char :: units).takeWhile (· == char)
      let behind := (char :: units).drop marker.length
      let trailing := behind.takeWhile (!isLineTerminator ·)
      let left := behind.drop trailing.length
      if 3 < indent.length ∨ ¬ (char = backtick ∨ char = tilde) ∨ marker.length < 3 ∨
          ¬ (left = [] ∨ left = [carriageReturn]) then none
      else some (indent, marker, trailing)

def lineOf (text : Text) : Text := text.takeWhile (· != lineFeed)

/-- The match of the fence pattern whose line starts here. -/
def fenceMatchAt (text : Text) (offset : Nat) : Option FenceMatch :=
  (fenceLine (lineOf text)).map fun groups =>
    { start := offset, stop := offset + (lineOf text).length
      indent := groups.1, marker := groups.2.1, trailing := groups.2.2 }

/-- The matches that start with a line feed, one behind another. -/
def feedMatches : Text → (offset : Nat) → List FenceMatch
  | [], _ => []
  | unit :: rest, offset =>
      if unit = lineFeed then
        match fenceMatchAt rest (offset + 1) with
        | some found => found :: feedMatches (rest.drop (lineOf rest).length) found.stop
        | none => feedMatches rest (offset + 1)
      else feedMatches rest (offset + 1)
termination_by text => text.length
decreasing_by
  · rw [List.length_drop, List.length_cons]
    omega
  · exact Nat.lt_succ_self _
  · exact Nat.lt_succ_self _

/-- `text.matchAll(FENCE_LINE_RE)`: a first match may start with the text. -/
def fenceMatches (text : Text) (offset : Nat) : List FenceMatch :=
  match fenceMatchAt text offset with
  | some found => found :: feedMatches (text.drop (lineOf text).length) found.stop
  | none => feedMatches text offset

/-- `text.matchAll(SINGLE_LINE_FENCE_RE)`, where the text has no line feed. -/
def singleLineMatches (text : Text) : List FenceMatch := (fenceMatchAt text 0).toList

/-- A line that closes an open fence. -/
def closesFence (opener : FenceOpener) (found : FenceMatch) : Bool :=
  opener.marker.head? = found.marker.head? && opener.marker.length ≤ found.marker.length &&
    found.trailing.all isHorizontal

def fenceStep (tracker : Tracker FenceOpener) (found : FenceMatch) : Tracker FenceOpener :=
  match tracker.openData with
  | none =>
      tracker.enter found.start
        { openLine := found.indent ++ found.marker ++ found.trailing
          marker := found.marker, indent := found.indent }
  | some opener => if closesFence opener found then tracker.leave found.stop else tracker

/-- The matches that are fences: one at offset zero needs the start of a line. -/
def scannedMatches (buffer : Text) (startsAtLineStart : Bool) : List FenceMatch :=
  let found := if buffer.contains lineFeed then fenceMatches buffer 0 else singleLineMatches buffer
  found.filter fun found => !(found.start = 0 && !startsAtLineStart)

def scanFences (buffer : Text) (state : FenceScanState) : Tracker FenceOpener :=
  (scannedMatches buffer state.atLineStart).foldl fenceStep (.carried state.opened)

def scanFenceSpans (buffer : Text) (state : FenceScanState) : List FenceSpan × FenceScanState :=
  let tracker := scanFences buffer state
  let atLineStart :=
    if buffer.length = 0 then state.atLineStart else buffer.getLast? = some lineFeed
  (tracker.finish buffer.length, { atLineStart, opened := tracker.openData })

theorem lineOf_append (feed : lineFeed ∈ text) : lineOf (text ++ rest) = lineOf text := by
  induction text with
  | nil => cases feed
  | cons unit text ih =>
      by_cases first : unit = lineFeed
      · simp [lineOf, first]
      · have later : lineFeed ∈ text := (List.mem_cons.mp feed).resolve_left (Ne.symm first)
        have step := ih later
        simp only [lineOf] at step ⊢
        rw [List.cons_append, List.takeWhile_cons_of_pos (by simpa using first), step,
          List.takeWhile_cons_of_pos (by simpa using first)]

theorem lineOf_length_lt (feed : lineFeed ∈ text) : (lineOf text).length < text.length := by
  refine lt_of_le_of_ne (List.takeWhile_sublist _).length_le fun same => ?_
  have whole : lineOf text = text := (List.takeWhile_prefix _).eq_of_length same
  have plain := List.mem_takeWhile_imp (whole ▸ feed)
  simp at plain

theorem feedMatches_nil_of_not_mem (single : lineFeed ∉ text) : feedMatches text offset = [] := by
  induction text generalizing offset with
  | nil => rw [feedMatches]
  | cons unit text ih =>
      have plain : unit ≠ lineFeed := by
        rintro rfl
        exact single (List.mem_cons_self ..)
      rw [feedMatches, if_neg plain]
      exact ih fun mem => single (.tail _ mem)

/-- Without a line feed both patterns find the same. -/
theorem singleLineMatches_eq (single : lineFeed ∉ text) : singleLineMatches text = fenceMatches text 0 := by
  have behind : ∀ offset, feedMatches (text.drop (lineOf text).length) offset = [] := fun _ =>
    feedMatches_nil_of_not_mem fun mem => single (List.mem_of_mem_drop mem)
  unfold singleLineMatches fenceMatches
  cases fenceMatchAt text 0 with
  | none => exact (feedMatches_nil_of_not_mem single).symm
  | some found => exact congrArg (found :: ·) (behind found.stop).symm

theorem scannedMatches_eq (buffer : Text) (startsAtLineStart : Bool) :
    scannedMatches buffer startsAtLineStart =
      (fenceMatches buffer 0).filter fun found => !(found.start = 0 && !startsAtLineStart) := by
  unfold scannedMatches
  dsimp only
  split
  case isTrue => rfl
  case isFalse single =>
    rw [singleLineMatches_eq fun mem => single (List.contains_iff_mem.mpr mem)]

end OpenClaw.MarkdownCore

/-!
Fences of a text that is cut behind a line feed. The matches of the whole text are those of its
parts, and each step of the scan does the same to the tracker of the whole text as to that of
the second part.
-/

namespace OpenClaw.MarkdownCore

open JsUnits
open SpanTracking

variable {text rest chunk : Text} {offset : Nat} {found : FenceMatch}

def FenceMatch.shift (offset : Nat) (found : FenceMatch) : FenceMatch :=
  { found with start := offset + found.start, stop := offset + found.stop }

/-- A chunk that is not the last one. -/
def EndsLine (chunk : Text) : Prop := chunk.getLast? = some lineFeed

theorem EndsLine.mem (ends : EndsLine chunk) : lineFeed ∈ chunk := List.mem_of_getLast? ends

theorem EndsLine.drop (ends : EndsLine chunk) {count : Nat} (less : count < chunk.length) :
    EndsLine (chunk.drop count) := by
  rw [EndsLine, List.getLast?_drop, if_neg (Nat.not_le.mpr less)]
  exact ends

theorem fenceMatchAt_append (feed : lineFeed ∈ text) :
    fenceMatchAt (text ++ rest) offset = fenceMatchAt text offset := by
  rw [fenceMatchAt, fenceMatchAt, lineOf_append feed]

theorem fenceMatchAt_stop (at_ : fenceMatchAt text offset = some found) :
    found.start = offset ∧ found.stop = offset + (lineOf text).length := by
  obtain ⟨groups, _, rfl⟩ := Option.map_eq_some_iff.mp at_
  exact ⟨rfl, rfl⟩

/-- The matches of the lines of both parts, where only those of the first need line feeds. -/
theorem fenceMatches_append_of (ends : EndsLine text)
    (behind : ∀ {rest' offset'}, EndsLine rest' → rest'.length ≤ text.length →
      feedMatches (rest' ++ rest) offset' =
        feedMatches rest' offset' ++ fenceMatches rest (offset' + rest'.length)) :
    fenceMatches (text ++ rest) offset =
      fenceMatches text offset ++ fenceMatches rest (offset + text.length) := by
  have shorter := lineOf_length_lt ends.mem
  unfold fenceMatches
  rw [fenceMatchAt_append ends.mem, lineOf_append ends.mem]
  cases at_ : fenceMatchAt text offset with
  | none => exact behind ends le_rfl
  | some found =>
      have length : found.stop + (text.drop (lineOf text).length).length = offset + text.length := by
        rw [(fenceMatchAt_stop at_).2, List.length_drop]
        omega
      have cut := @behind _ found.stop (ends.drop shorter) (by rw [List.length_drop]; omega)
      rw [length] at cut
      rw [List.drop_append_of_le_length shorter.le]
      exact congrArg (found :: ·) cut

theorem feedMatches_append (ends : EndsLine text) :
    feedMatches (text ++ rest) offset =
      feedMatches text offset ++ fenceMatches rest (offset + text.length) := by
  induction length : text.length using Nat.strong_induction_on generalizing text offset with
  | _ _ ih =>
      subst length
      obtain _ | ⟨unit, text⟩ := text
      · cases ends
      · have later : text ≠ [] → EndsLine text := fun filled => by
          rwa [EndsLine, List.getLast?_cons_of_ne_nil filled] at ends
        have next : offset + 1 + text.length = offset + (unit :: text).length := by
          rw [List.length_cons]
          omega
        rw [List.cons_append, feedMatches, feedMatches]
        split
        case isTrue feed =>
          obtain _ | ⟨first, text⟩ := text
          · -- the text ends with this line feed, and what is behind it starts a line
            have nothing : fenceMatchAt [] (offset + 1) = none := rfl
            rw [nothing, List.nil_append]
            dsimp only
            rw [feedMatches, List.nil_append]
            rfl
          · have cut := @fenceMatches_append_of (first :: text) rest (offset + 1) (later (by simp))
              fun {rest' offset'} ends' shorter =>
                ih rest'.length (Nat.lt_succ_of_le shorter) ends' rfl
            rw [next] at cut
            exact cut
        case isFalse plain =>
          have filled : text ≠ [] := by
            rintro rfl
            exact plain (Option.some.inj ends)
          have cut : feedMatches (text ++ rest) (offset + 1) =
              feedMatches text (offset + 1) ++ fenceMatches rest (offset + 1 + text.length) :=
            ih text.length (Nat.lt_succ_self _) (later filled) rfl
          rw [next] at cut
          exact cut

theorem fenceMatches_append (ends : EndsLine text) :
    fenceMatches (text ++ rest) offset =
      fenceMatches text offset ++ fenceMatches rest (offset + text.length) :=
  fenceMatches_append_of ends fun ends' _ => feedMatches_append ends'

theorem fenceMatchAt_shift (count : Nat) :
    fenceMatchAt text (count + offset) = (fenceMatchAt text offset).map (FenceMatch.shift count) := by
  rw [fenceMatchAt, fenceMatchAt, Option.map_map]
  congr 1
  funext groups
  simp [FenceMatch.shift, Nat.add_assoc]

theorem feedMatches_shift (count : Nat) :
    feedMatches text (count + offset) = (feedMatches text offset).map (FenceMatch.shift count) := by
  induction text, offset using feedMatches.induct with
  | case1 => rw [feedMatches, feedMatches, List.map_nil]
  | case2 rest offset found at_ ih =>
      rw [feedMatches, feedMatches, if_pos rfl, if_pos rfl, Nat.add_assoc, fenceMatchAt_shift, at_]
      exact congrArg (_ :: ·) ih
  | case3 rest offset at_ ih =>
      rw [feedMatches, feedMatches, if_pos rfl, if_pos rfl, Nat.add_assoc, fenceMatchAt_shift, at_]
      exact ih
  | case4 unit rest offset plain ih =>
      rw [feedMatches, feedMatches, if_neg plain, if_neg plain, Nat.add_assoc]
      exact ih

theorem fenceMatches_shift (count : Nat) :
    fenceMatches text (count + offset) = (fenceMatches text offset).map (FenceMatch.shift count) := by
  unfold fenceMatches
  rw [fenceMatchAt_shift]
  cases fenceMatchAt text offset with
  | none => exact feedMatches_shift count
  | some found => exact congrArg (_ :: ·) (feedMatches_shift count)

/-- Matches lie one behind another in the text from an offset to a length. -/
structure Placed (offset length : Nat) (matches_ : List FenceMatch) : Prop where
  apart : matches_.Pairwise fun before behind => before.stop ≤ behind.start
  inside : ∀ found ∈ matches_,
    offset ≤ found.start ∧ found.start < found.stop ∧ found.stop ≤ length

theorem Placed.cons {length : Nat} {matches_ : List FenceMatch} (first : offset ≤ found.start)
    (filled : found.start < found.stop) (last : found.stop ≤ length)
    (placed : Placed found.stop length matches_) : Placed offset length (found :: matches_) where
  apart := List.pairwise_cons.mpr ⟨fun behind mem => (placed.inside behind mem).1, placed.apart⟩
  inside := List.forall_mem_cons.mpr ⟨⟨first, filled, last⟩, fun behind mem =>
    have ⟨start, others⟩ := placed.inside behind mem
    ⟨by omega, others⟩⟩

theorem Placed.mono {length before : Nat} {matches_ : List FenceMatch}
    (placed : Placed offset length matches_) (le : before ≤ offset) :
    Placed before length matches_ :=
  ⟨placed.apart, fun found mem =>
    have ⟨start, others⟩ := placed.inside found mem
    ⟨le.trans start, others⟩⟩

theorem fenceLine_nil : fenceLine [] = none := rfl

theorem fenceMatchAt_placed (at_ : fenceMatchAt text offset = some found) :
    found.start = offset ∧ found.start < found.stop ∧ found.stop ≤ offset + text.length ∧
      found.stop + (text.drop (lineOf text).length).length = offset + text.length := by
  obtain ⟨start, stop⟩ := fenceMatchAt_stop at_
  have shorter : (lineOf text).length ≤ text.length := (List.takeWhile_sublist _).length_le
  have filled : lineOf text ≠ [] := by
    intro empty
    rw [fenceMatchAt, empty, fenceLine_nil] at at_
    cases at_
  have positive := List.length_pos_of_ne_nil filled
  rw [List.length_drop]
  omega

theorem feedMatches_placed (text : Text) (offset : Nat) :
    Placed offset (offset + text.length) (feedMatches text offset) := by
  induction text, offset using feedMatches.induct with
  | case1 =>
      rw [feedMatches]
      exact ⟨.nil, fun _ mem => absurd mem List.not_mem_nil⟩
  | case2 rest offset found at_ ih =>
      obtain ⟨start, filled, last, behind⟩ := fenceMatchAt_placed at_
      rw [feedMatches, if_pos rfl, at_, List.length_cons]
      rw [behind] at ih
      have next : offset + 1 + rest.length = offset + (rest.length + 1) := by omega
      rw [next] at ih last
      exact .cons (by omega) filled last ih
  | case3 rest offset at_ ih =>
      rw [feedMatches, if_pos rfl, at_, List.length_cons]
      have next : offset + 1 + rest.length = offset + (rest.length + 1) := by omega
      rw [next] at ih
      exact ih.mono (Nat.le_succ _)
  | case4 unit rest offset plain ih =>
      rw [feedMatches, if_neg plain, List.length_cons]
      have next : offset + 1 + rest.length = offset + (rest.length + 1) := by omega
      rw [next] at ih
      exact ih.mono (Nat.le_succ _)

theorem fenceMatches_placed (text : Text) (offset : Nat) :
    Placed offset (offset + text.length) (fenceMatches text offset) := by
  unfold fenceMatches
  cases at_ : fenceMatchAt text offset with
  | none => exact feedMatches_placed text offset
  | some found =>
      obtain ⟨start, filled, last, behind⟩ := fenceMatchAt_placed at_
      have placed := feedMatches_placed (text.drop (lineOf text).length) found.stop
      rw [behind] at placed
      exact .cons start.ge filled last placed

theorem scannedMatches_placed (buffer : Text) (startsAtLineStart : Bool) :
    Placed 0 buffer.length (scannedMatches buffer startsAtLineStart) := by
  have placed := fenceMatches_placed buffer 0
  rw [Nat.zero_add] at placed
  rw [scannedMatches_eq]
  exact ⟨placed.apart.filter _, fun found mem => placed.inside found (List.mem_of_mem_filter mem)⟩

/-- Behind a line feed every match counts. -/
theorem scannedMatches_append (ends : EndsLine chunk) (rest : Text) (startsAtLineStart : Bool) :
    scannedMatches (chunk ++ rest) startsAtLineStart =
      scannedMatches chunk startsAtLineStart ++
        (scannedMatches rest true).map (FenceMatch.shift chunk.length) := by
  have positive : 0 < chunk.length := List.length_pos_of_mem ends.mem
  have shifted : fenceMatches rest (0 + chunk.length) =
      (fenceMatches rest 0).map (FenceMatch.shift chunk.length) := by
    rw [Nat.add_comm]
    exact fenceMatches_shift chunk.length
  rw [scannedMatches_eq, scannedMatches_eq, scannedMatches_eq, fenceMatches_append ends,
    List.filter_append, shifted, List.filter_map]
  congr 2
  refine List.filter_congr fun found _ => ?_
  have counts : (!(decide (found.start = 0) && !true)) = true := by simp
  rw [counts, Function.comp_apply, Bool.not_eq_true', Bool.and_eq_false_iff]
  have behind : ¬ chunk.length + found.start = 0 := by omega
  exact .inl (decide_eq_false behind)

theorem fenceStep_resume {first second : Tracker FenceOpener} (continues : first.Continues second)
    (found : FenceMatch) :
    fenceStep (Tracker.resume offset first second) (found.shift offset) =
        Tracker.resume offset first (fenceStep second found) ∧
      first.Continues (fenceStep second found) := by
  unfold fenceStep
  rw [Tracker.openData_resume continues]
  cases data : second.openData with
  | none =>
      obtain ⟨same, continues⟩ := @Tracker.resume_enter _ offset _ _ continues data
        found.start { openLine := found.indent ++ found.marker ++ found.trailing,
                      marker := found.marker, indent := found.indent }
      exact ⟨same.symm, continues⟩
  | some opener =>
      have closes : closesFence opener (found.shift offset) = closesFence opener found := rfl
      dsimp only
      rw [closes]
      split
      case isTrue =>
        obtain ⟨same, continues⟩ := @Tracker.resume_leave _ offset _ _ continues found.stop
        exact ⟨same.symm, continues⟩
      case isFalse => exact ⟨rfl, continues⟩

theorem foldl_fenceStep_resume {first second : Tracker FenceOpener}
    (continues : first.Continues second) (matches_ : List FenceMatch) :
    (matches_.map (FenceMatch.shift offset)).foldl fenceStep (Tracker.resume offset first second) =
        Tracker.resume offset first (matches_.foldl fenceStep second) ∧
      first.Continues (matches_.foldl fenceStep second) := by
  induction matches_ generalizing second with
  | nil => exact ⟨rfl, continues⟩
  | cons found matches_ ih =>
      obtain ⟨same, continues⟩ := @fenceStep_resume offset _ _ continues found
      rw [List.map_cons, List.foldl_cons, same]
      exact ih continues

/-- The scan of the whole text, from those of its parts. -/
theorem scanFences_append (ends : EndsLine chunk) (rest : Text) (state : FenceScanState) :
    let next : FenceScanState := { atLineStart := true, opened := (scanFences chunk state).openData }
    scanFences (chunk ++ rest) state =
        Tracker.resume chunk.length (scanFences chunk state) (scanFences rest next) ∧
      (scanFences chunk state).Continues (scanFences rest next) := by
  intro next
  have continues := Tracker.continues_carried (scanFences chunk state)
  obtain ⟨same, continues'⟩ :=
    @foldl_fenceStep_resume chunk.length _ _ continues (scannedMatches rest true)
  rw [Tracker.resume_carried] at same
  refine ⟨?_, continues'⟩
  rw [scanFences, scannedMatches_append ends, List.foldl_append, ← scanFences]
  exact same

theorem fenceStep_ordered {bound position : Nat} {tracker : Tracker FenceOpener}
    (ordered : tracker.Ordered bound position) (start : position ≤ found.start)
    (filled : found.start < found.stop) (below : found.start < bound) :
    (fenceStep tracker found).Ordered bound found.stop := by
  unfold fenceStep
  split
  case h_1 => exact (ordered.enter start below _).mono filled.le
  case h_2 =>
    split
    case isTrue => exact ordered.leave (by omega)
    case isFalse => exact ordered.mono (by omega)

theorem foldl_fenceStep_ordered {length position : Nat} {matches_ : List FenceMatch}
    {tracker : Tracker FenceOpener} (ordered : tracker.Ordered length position)
    (inside : position ≤ length) (placed : Placed position length matches_) :
    (matches_.foldl fenceStep tracker).Ordered length length := by
  induction matches_ generalizing tracker position with
  | nil => exact ordered.mono inside
  | cons found matches_ ih =>
      obtain ⟨start, filled, last⟩ := placed.inside found (List.mem_cons_self ..)
      obtain ⟨behind, apart⟩ := List.pairwise_cons.mp placed.apart
      exact ih (fenceStep_ordered ordered start filled (by omega)) last
        ⟨apart, fun other mem => ⟨behind other mem, (placed.inside other (.tail _ mem)).2⟩⟩

/-- The fences of a text lie one behind another in it. -/
theorem scanFences_ordered {buffer : Text} (filled : buffer ≠ []) (state : FenceScanState) :
    (scanFences buffer state).Ordered buffer.length buffer.length :=
  foldl_fenceStep_ordered
    (Tracker.ordered_carried _ 0 (List.length_pos_of_ne_nil filled)) (Nat.zero_le _)
    (scannedMatches_placed buffer state.atLineStart)

end OpenClaw.MarkdownCore
