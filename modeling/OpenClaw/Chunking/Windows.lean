import OpenClaw.Chunking.Ranges
import OpenClaw.Compaction.Summary

/-!
Chunks of plain text at readable boundaries. A window is cut before its last newline or blank
outside parentheses, if there is one behind its first unit, and the blanks behind the cut are
skipped.
-/

namespace OpenClaw.Chunking

open JsUnits

variable {text window : Text} {start : Nat}

def openParen : UInt16 := 0x28
def closeParen : UInt16 := 0x29

/-- The last breakpoints that were seen, `none` for an index of -1. -/
structure Breakpoints where
  lastNewline : Option Nat := none
  lastWhitespace : Option Nat := none

def breakpointsFrom : Text → (index depth : Nat) → Breakpoints → Breakpoints
  | [], _, _, found => found
  | char :: rest, index, depth, found =>
      if char = openParen then breakpointsFrom rest (index + 1) (depth + 1) found
      else if char = closeParen ∧ 0 < depth then breakpointsFrom rest (index + 1) (depth - 1) found
      else if depth ≠ 0 then breakpointsFrom rest (index + 1) depth found
      else if char = lineFeed then
        breakpointsFrom rest (index + 1) depth { found with lastNewline := some index }
      else if isWhitespace char then
        breakpointsFrom rest (index + 1) depth { found with lastWhitespace := some index }
      else breakpointsFrom rest (index + 1) depth found

def scanParenAwareBreakpoints (text : Text) : Breakpoints := breakpointsFrom text 0 0 {}

/-- Each breakpoint is the index of a blank unit. -/
structure Breakpoints.Blank (text : Text) (found : Breakpoints) : Prop where
  newline : ∀ index, found.lastNewline = some index →
    index < text.length ∧ isWhitespace (text.getD index 0) = true
  whitespace : ∀ index, found.lastWhitespace = some index →
    index < text.length ∧ isWhitespace (text.getD index 0) = true

theorem breakpointsFrom_blank {before rest : Text} {depth : Nat} {found : Breakpoints}
    (blank : found.Blank (before ++ rest)) :
    (breakpointsFrom rest before.length depth found).Blank (before ++ rest) := by
  induction rest generalizing before depth found with
  | nil => exact blank
  | cons char rest ih =>
      have next : before ++ char :: rest = (before ++ [char]) ++ rest := by simp
      have length : before.length + 1 = (before ++ [char]).length := by simp
      have here : (before ++ char :: rest).getD before.length 0 = char := by simp
      have inside : before.length < (before ++ char :: rest).length := by simp
      have step : ∀ {depth found}, Breakpoints.Blank (before ++ char :: rest) found →
          (breakpointsFrom rest (before.length + 1) depth found).Blank (before ++ char :: rest) := by
        intro depth found blank
        rw [length]
        rw [next] at blank ⊢
        exact ih blank
      rw [breakpointsFrom]
      split
      case isTrue => exact step blank
      case isFalse =>
        split
        case isTrue => exact step blank
        case isFalse =>
          split
          case isTrue => exact step blank
          case isFalse =>
            split
            case isTrue feed =>
              refine step ⟨fun index same => ?_, blank.whitespace⟩
              cases same
              exact ⟨inside, by rw [here, feed]; rfl⟩
            case isFalse =>
              split
              case isTrue space =>
                refine step ⟨blank.newline, fun index same => ?_⟩
                cases same
                exact ⟨inside, by rw [here]; exact space⟩
              case isFalse => exact step blank

theorem scanParenAwareBreakpoints_blank (window : Text) :
    (scanParenAwareBreakpoints window).Blank window :=
  @breakpointsFrom_blank [] window 0 {} ⟨nofun, nofun⟩

/-- `lastNewline > 0 ? lastNewline : lastWhitespace`, where it is positive. -/
def breakOffset (found : Breakpoints) : Option Nat :=
  (found.lastNewline.filter (0 < ·) <|> found.lastWhitespace).filter (0 < ·)

theorem breakOffset_blank {found : Breakpoints} (blank : found.Blank window) {offset : Nat}
    (some_ : breakOffset found = some offset) :
    0 < offset ∧ offset < window.length ∧ isWhitespace (window.getD offset 0) = true := by
  obtain ⟨chosen, positive⟩ := Option.filter_eq_some_iff.mp some_
  refine ⟨of_decide_eq_true positive, ?_⟩
  cases newline : found.lastNewline.filter (0 < ·) with
  | none =>
      rw [newline] at chosen
      exact blank.whitespace _ chosen
  | some index =>
      rw [newline] at chosen
      cases chosen
      exact blank.newline _ (Option.filter_eq_some_iff.mp newline).1

/-- The end of the chunk that starts at the cursor. -/
def chunkEnd (text : Text) (limit : ℕ+) (cursor : Nat) : Nat :=
  let windowEnd := min text.length (cursor + limit)
  let found := scanParenAwareBreakpoints (sliceText text cursor windowEnd)
  avoidTrailingHighSurrogateBreak text cursor (((breakOffset found).map (cursor + ·)).getD windowEnd)

theorem chunkEnd_cuts (limit : ℕ+) (more : start < text.length) :
    CutsAt limit text start (chunkEnd text limit start) := by
  have positive := limit.pos
  have windowLength := @sliceText_length text start _ (Nat.min_le_left text.length (start + limit))
  unfold chunkEnd
  dsimp only
  cases offset : breakOffset (scanParenAwareBreakpoints
      (sliceText text start (min text.length (start + limit)))) with
  | none => exact cutsAt_avoid (by simp; omega) (by simp) (by simp)
  | some offset =>
      obtain ⟨first, within, _⟩ := breakOffset_blank (scanParenAwareBreakpoints_blank _) offset
      rw [Option.map_some, Option.getD_some]
      exact cutsAt_avoid (by omega) (by omega) (by omega)

/-- The cursor behind the blanks at a position. -/
def skipWhitespace (text : Text) (cursor : Nat) : Nat :=
  cursor + ((text.drop cursor).takeWhile isWhitespace).length

theorem drop_skipWhitespace (text : Text) (cursor : Nat) :
    (text.drop cursor).takeWhile isWhitespace ++ text.drop (skipWhitespace text cursor) =
      text.drop cursor := by
  have behind : text.drop (skipWhitespace text cursor) = (text.drop cursor).dropWhile isWhitespace := by
    rw [skipWhitespace, ← List.drop_drop]
    conv_lhs => rw [← List.takeWhile_append_dropWhile (p := isWhitespace) (l := text.drop cursor)]
    rw [List.drop_left' (by simp)]
  rw [behind, List.takeWhile_append_dropWhile]

def chunksFrom (text : Text) (limit : ℕ+) (cursor : Nat) : List Text :=
  if more : cursor < text.length then
    if text.length - cursor ≤ limit then [text.drop cursor]
    else
      have := (chunkEnd_cuts limit more).progress
      have : chunkEnd text limit cursor ≤ skipWhitespace text (chunkEnd text limit cursor) :=
        Nat.le_add_right ..
      sliceText text cursor (chunkEnd text limit cursor) ::
        chunksFrom text limit (skipWhitespace text (chunkEnd text limit cursor))
  else []
termination_by text.length - cursor

def chunkText (text : Text) (limit : WithTop ℚ) : List Text :=
  if text = [] then []
  else
    match exceededLimit text limit with
    | none => [text]
    | some normalizedLimit => chunksFrom text normalizedLimit 0

theorem chunksFrom_cut (limit : ℕ+) :
    Cut isWhitespace (limit : ℕ) (text.drop start) (chunksFrom text limit start) := by
  induction start using chunksFrom.induct text limit with
  | case1 cursor more last =>
      rw [chunksFrom, dif_pos more, if_pos last]
      refine .single (fun empty => ?_) (fits_of_length_le (by rw [List.length_drop]; exact last))
      have length := congrArg List.length empty
      rw [List.length_drop, List.length_nil] at length
      omega
  | case2 cursor more last progress skipped ih =>
      rw [chunksFrom, dif_pos more, if_neg last]
      refine (chunkEnd_cuts limit more).cut ?_
      rw [← drop_skipWhitespace text (chunkEnd text limit cursor)]
      exact .skip (fun unit mem => List.mem_takeWhile_imp mem) ih
  | case3 cursor ended =>
      rw [chunksFrom, dif_neg ended, List.drop_eq_nil_of_le (not_lt.mp ended)]
      exact .done fun _ mem => absurd mem List.not_mem_nil

/-- The chunks of a text are a cut of it that loses nothing but whitespace. -/
theorem chunkText_cut {limit : WithTop ℚ} (positive : 0 < limit) :
    Cut isWhitespace (allowedUnits limit) text (chunkText text limit) := by
  unfold chunkText
  split
  case isTrue empty =>
    rw [empty]
    exact .done fun _ mem => absurd mem List.not_mem_nil
  case isFalse filled =>
    split
    case h_1 short => exact .single filled (.inl (le_of_exceededLimit_eq_none positive short))
    case h_2 normalizedLimit longer =>
      rw [exceededLimit_eq_some positive longer]
      have cut := @chunksFrom_cut text 0 normalizedLimit
      rwa [List.drop_zero] at cut

end OpenClaw.Chunking

/-!
Long lines, and chunks whose breaks a caller selects. A line is cut at a blank or behind CJK
punctuation in its window, or at the limit; the answers of a caller are used where they lie in
the window, and the blanks around a break are trimmed.
-/

namespace OpenClaw.Chunking

open JsUnits
open Compaction (trimEnd)

variable {text window remaining : Text} {start stop : Nat}

/-- The characters that a line may be broken behind. -/
def isCjkPunctuation (unit : UInt16) : Bool :=
  [0x3001, 0x3002, 0xFF0C, 0xFF0E, 0xFF01, 0xFF1F, 0xFF1B, 0xFF1A, 0xFF09, 0xFF3D, 0xFF5D, 0x3009,
    0x300B, 0x300D, 0x300F, 0x3011, 0x3015, 0x3017, 0x3019].contains unit.toNat

def clampToCodePointBoundary (text : Text) (index : Nat) : Nat :=
  avoidTrailingHighSurrogateBreak text 0 (min index text.length)

def findWhitespaceBreak (window : Text) : Option Nat :=
  lastIndexBelow isWhitespace window window.length

/-- The start of the character that ends at a position. -/
def charStart (window : Text) (stop : Nat) : Nat :=
  if isLowSurrogate (window.getD (stop - 1) 0) ∧ 1 < stop then stop - 2 else stop - 1

theorem charStart_lt (positive : stop ≠ 0) : charStart window stop < stop := by
  unfold charStart
  split <;> omega

/-- The characters of the window from its end on; none of the punctuation is a surrogate. -/
def cjkBreakBelow (window : Text) (stop : Nat) : Option Nat :=
  if ended : stop = 0 then none
  else
    have : charStart window stop < stop := charStart_lt ended
    if 0 < charStart window stop ∧
        (sliceText window (charStart window stop) stop).any isCjkPunctuation then some stop
    else cjkBreakBelow window (charStart window stop)
termination_by stop

def findCjkPunctuationBreak (window : Text) : Option Nat := cjkBreakBelow window window.length

/-- Where a line that is longer than the limit is broken. -/
def lineBreak (remaining : Text) (limit : ℕ+) (preserveWhitespace : Bool) : Nat :=
  if preserveWhitespace then clampToCodePointBoundary remaining limit
  else
    let window := remaining.take limit
    ((findWhitespaceBreak window).filter (0 < ·) <|>
      (findCjkPunctuationBreak window).filter (0 < ·)).getD (clampToCodePointBoundary remaining limit)

theorem isCjkPunctuation_not_surrogate {unit : UInt16} (mark : isCjkPunctuation unit = true) :
    isHighSurrogate unit = false ∧ isLowSurrogate unit = false := by
  simp only [isCjkPunctuation, List.contains_iff_mem, List.mem_cons, List.not_mem_nil,
    or_false] at mark
  simp only [isLowSurrogate, isHighSurrogate, Bool.and_eq_false_iff, decide_eq_false_iff_not]
  omega

theorem any_sliceText {test : UInt16 → Bool} (any : (sliceText text start stop).any test = true) :
    ∃ index, start ≤ index ∧ index < stop ∧ test (text.getD index 0) = true := by
  obtain ⟨unit, mem, hit⟩ := List.any_eq_true.mp any
  obtain ⟨offset, inside, rfl⟩ := List.getElem_of_mem mem
  rw [sliceText, List.length_drop, List.length_take] at inside
  refine ⟨start + offset, Nat.le_add_right .., by omega, ?_⟩
  rw [List.getD_eq_getElem _ _ (by omega)]
  simpa [sliceText] using hit

/-- No pair is divided behind CJK punctuation, or behind a unit that ends a pair. -/
theorem cjkBreakBelow_eq_some {found : Nat} (at_ : cjkBreakBelow window stop = some found) :
    0 < found ∧ found ≤ stop ∧ isHighSurrogate (window.getD (found - 1) 0) = false := by
  induction stop using cjkBreakBelow.induct window with
  | case1 =>
      rw [cjkBreakBelow, dif_pos rfl] at at_
      cases at_
  | case2 stop more _ hit =>
      rw [cjkBreakBelow, dif_neg more, if_pos hit] at at_
      cases at_
      refine ⟨Nat.pos_of_ne_zero more, le_rfl, ?_⟩
      by_cases low : isLowSurrogate (window.getD (found - 1) 0) = true
      · rw [← Bool.not_eq_true]
        intro high
        rw [isHighSurrogate_not_low high] at low
        cases low
      · have alone : charStart window found = found - 1 := if_neg fun both => low both.1
        obtain ⟨index, least, below, mark⟩ := any_sliceText hit.2
        have last : index = found - 1 := by omega
        rw [← last]
        exact (isCjkPunctuation_not_surrogate mark).1
  | case3 stop more shorter hit ih =>
      rw [cjkBreakBelow, dif_neg more, if_neg hit] at at_
      obtain ⟨positive, within, mark⟩ := ih at_
      exact ⟨positive, within.trans shorter.le, mark⟩

theorem getD_take {count index : Nat} (below : index < count) :
    (text.take count).getD index 0 = text.getD index 0 := by
  rw [List.getD_eq_getElem?_getD, List.getElem?_take_of_lt below, List.getD_eq_getElem?_getD]

theorem clampToCodePointBoundary_cuts {limit : ℕ+} (longer : limit < text.length) :
    CutsAt limit text 0 (clampToCodePointBoundary text limit) := by
  have positive := limit.pos
  exact cutsAt_avoid (by omega) (by omega) (by omega)

theorem lineBreak_cuts {limit : ℕ+} (preserveWhitespace : Bool) (longer : limit < remaining.length) :
    CutsAt limit remaining 0 (lineBreak remaining limit preserveWhitespace) := by
  have windowLength : (remaining.take limit).length = limit := by
    rw [List.length_take]
    omega
  have inWindow : ∀ {found}, 0 < found → found ≤ (limit : ℕ) → ¬ DividesPair remaining found →
      CutsAt limit remaining 0 found := fun positive within whole =>
    ⟨positive, by omega, whole, fits_of_length_le (by rw [sliceText_length] <;> omega)⟩
  unfold lineBreak
  split
  case isTrue => exact clampToCodePointBoundary_cuts longer
  case isFalse =>
    dsimp only
    cases blank : (findWhitespaceBreak (remaining.take limit)).filter (0 < ·) with
    | some found =>
        obtain ⟨found_, positive⟩ := Option.filter_eq_some_iff.mp blank
        obtain ⟨below, space⟩ := lastIndexBelow_eq_some found_
        rw [windowLength] at below
        rw [getD_take below] at space
        exact inWindow (of_decide_eq_true positive) below.le (not_dividesPair_of_blank space)
    | none =>
        cases mark : (findCjkPunctuationBreak (remaining.take limit)).filter (0 < ·) with
        | some found =>
            obtain ⟨found_, positive⟩ := Option.filter_eq_some_iff.mp mark
            obtain ⟨positive, within, behind⟩ := cjkBreakBelow_eq_some found_
            rw [windowLength] at within
            rw [getD_take (by omega)] at behind
            have whole : ¬ DividesPair remaining found := by
              rintro ⟨_, high, _⟩
              rw [behind] at high
              cases high
            exact inWindow positive within whole
        | none => exact clampToCodePointBoundary_cuts longer

def lineChunks (remaining : Text) (limit : ℕ+) (preserveWhitespace : Bool) : List Text :=
  if longer : limit < remaining.length then
    have := (lineBreak_cuts preserveWhitespace longer).progress
    have := limit.pos
    remaining.take (lineBreak remaining limit preserveWhitespace) ::
      lineChunks (remaining.drop (lineBreak remaining limit preserveWhitespace)) limit
        preserveWhitespace
  else if remaining = [] then []
  else [remaining]
termination_by remaining.length
decreasing_by
  rw [List.length_drop]
  omega

def splitLongTextLine (line : Text) (limit : WithTop ℚ) (preserveWhitespace : Bool) : List Text :=
  match exceededLimit line limit with
  | none => [line]
  | some normalizedLimit => lineChunks line normalizedLimit preserveWhitespace

theorem CutsAt.cut_take {blank : UInt16 → Bool} {limit : ℕ+} {pieces : List Text}
    (cuts : CutsAt limit text 0 stop) (others : Cut blank (limit : ℕ) (text.drop stop) pieces) :
    Cut blank (limit : ℕ) text (text.take stop :: pieces) := by
  have cut := cuts.cut others
  rwa [List.drop_zero, sliceText, List.drop_zero] at cut

theorem lineChunks_cut (limit : ℕ+) (preserveWhitespace : Bool) :
    Cut never (limit : ℕ) remaining (lineChunks remaining limit preserveWhitespace) := by
  induction remaining using lineChunks.induct limit preserveWhitespace with
  | case1 remaining longer _ _ ih =>
      rw [lineChunks, dif_pos longer]
      exact (lineBreak_cuts preserveWhitespace longer).cut_take ih
  | case2 longer =>
      rw [lineChunks, dif_neg longer, if_pos rfl]
      exact .done fun _ mem => absurd mem List.not_mem_nil
  | case3 remaining longer filled =>
      rw [lineChunks, dif_neg longer, if_neg filled]
      exact .single filled (fits_of_length_le (not_lt.mp longer))

/-- The pieces of a line that is not empty are a cut of it that loses nothing. -/
theorem splitLongTextLine_cut {line : Text} {limit : WithTop ℚ} (preserveWhitespace : Bool)
    (positive : 0 < limit) (filled : line ≠ []) :
    Cut never (allowedUnits limit) line (splitLongTextLine line limit preserveWhitespace) := by
  unfold splitLongTextLine
  split
  case h_1 short => exact .single filled (.inl (le_of_exceededLimit_eq_none positive short))
  case h_2 normalizedLimit longer =>
    rw [exceededLimit_eq_some positive longer]
    exact lineChunks_cut normalizedLimit preserveWhitespace

end OpenClaw.Chunking
