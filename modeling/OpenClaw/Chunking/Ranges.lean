import OpenClaw.Chunking.Pieces

/-!
Contiguous ranges of a text, and chunks of it without the blanks between them. A window of the
allowed length is cut at its last paragraph break, newline or blank, or at its end; the break
positions are found by scans of the window, and each scan finds a position inside.
-/

namespace OpenClaw.Chunking

open JsUnits

variable {text window : Text} {start stop : Nat}

structure TextChunkRange where
  start : Nat
  stop : Nat

def TextChunkRange.slice (text : Text) (range : TextChunkRange) : Text :=
  sliceText text range.start range.stop

/-- What is behind a match of `\n[\t ]*\n+` at the start. -/
def paragraphBreak : Text → Option Text
  | [] => none
  | first :: rest =>
      if first = lineFeed then
        match rest.dropWhile isHorizontal with
        | [] => none
        | next :: after => if next = lineFeed then some (after.dropWhile (· == lineFeed)) else none
      else none

theorem paragraphBreak_length {rest after : Text} (matched : paragraphBreak rest = some after) :
    after.length < rest.length := by
  unfold paragraphBreak at matched
  split at matched
  case h_1 => cases matched
  case h_2 first rest =>
    split at matched
    case isFalse => cases matched
    case isTrue =>
      split at matched
      case h_1 => cases matched
      case h_2 next after' blanks =>
        split at matched
        case isFalse => cases matched
        case isTrue =>
          cases matched
          have feeds : (after'.dropWhile (· == lineFeed)).length ≤ after'.length :=
            (List.dropWhile_sublist _).length_le
          have spaces : (rest.dropWhile isHorizontal).length ≤ rest.length :=
            (List.dropWhile_sublist _).length_le
          rw [blanks, List.length_cons] at spaces
          rw [List.length_cons]
          omega

/-- What is behind the last match of `\n[\t ]*\n+`, of the matches one behind another. -/
def behindLastParagraph : Text → Option Text
  | [] => none
  | first :: rest =>
      match _matched : paragraphBreak (first :: rest) with
      | some after => behindLastParagraph after <|> some after
      | none => behindLastParagraph rest
termination_by text => text.length
decreasing_by
  · exact paragraphBreak_length ‹_›
  · exact Nat.lt_succ_self _

theorem behindLastParagraph_length {after : Text} (found : behindLastParagraph text = some after) :
    after.length < text.length := by
  induction text using behindLastParagraph.induct with
  | case1 => simp [behindLastParagraph] at found
  | case2 first rest next matched ih =>
      rw [behindLastParagraph] at found
      split at found
      case h_2 none_ =>
        rw [matched] at none_
        cases none_
      case h_1 next' matched' =>
        rw [matched] at matched'
        cases matched'
        have shorter := paragraphBreak_length matched
        cases last : behindLastParagraph next with
        | none =>
            rw [last] at found
            cases found
            exact shorter
        | some behind =>
            rw [last] at found
            cases found
            exact (ih last).trans shorter
  | case3 first rest none_ ih =>
      rw [behindLastParagraph] at found
      split at found
      case h_1 next matched =>
        rw [none_] at matched
        cases matched
      case h_2 => exact Nat.lt_succ_of_lt (ih found)

def findPreferredRangeEnd (text : Text) (start stop : Nat) : Option Nat :=
  match behindLastParagraph (sliceText text start stop) with
  | some after => some (stop - after.length)
  | none =>
      match lastIndexBelow (· == lineFeed) text stop with
      | some newlineIndex =>
          if start ≤ newlineIndex then some (newlineIndex + 1) else preferredBlank
      | none => preferredBlank
where
  preferredBlank : Option Nat :=
    (lastIndexBelow isWhitespace text stop).bind fun index =>
      if start < index then some (index + 1) else none

theorem findPreferredRangeEnd_inside {found : Nat} (inside : stop ≤ text.length)
    (preferred : findPreferredRangeEnd text start stop = some found) :
    start < found ∧ found ≤ stop := by
  have blank : findPreferredRangeEnd.preferredBlank text start stop = some found →
      start < found ∧ found ≤ stop := by
    intro blank
    obtain ⟨index, last, place⟩ := Option.bind_eq_some_iff.mp blank
    split at place
    case isFalse => cases place
    case isTrue =>
      cases place
      have below := (lastIndexBelow_eq_some last).1
      omega
  unfold findPreferredRangeEnd at preferred
  split at preferred
  case h_1 after paragraph =>
    cases preferred
    have shorter := behindLastParagraph_length paragraph
    rw [sliceText_length inside] at shorter
    omega
  case h_2 =>
    split at preferred
    case h_1 newlineIndex newline =>
      split at preferred
      case isTrue =>
        cases preferred
        have below := (lastIndexBelow_eq_some newline).1
        omega
      case isFalse => exact blank preferred
    case h_2 => exact blank preferred

/-- The end of the range that starts at a position. -/
def rangeEnd (text : Text) (limit : ℕ+) (preferred : Bool) (start : Nat) : Nat :=
  let maxEnd := min text.length (start + limit)
  let preferredEnd :=
    if preferred ∧ maxEnd < text.length then findPreferredRangeEnd text start maxEnd else none
  let candidateEnd := (preferredEnd.filter (start < ·)).getD maxEnd
  avoidTrailingHighSurrogateBreak text start candidateEnd

theorem candidateEnd_inside {preferredEnd : Option Nat} (progress : start < stop)
    (preferred : ∀ found, preferredEnd = some found → start < found ∧ found ≤ stop) :
    start < (preferredEnd.filter (start < ·)).getD stop ∧
      (preferredEnd.filter (start < ·)).getD stop ≤ stop := by
  cases preferredEnd with
  | none => exact ⟨progress, le_rfl⟩
  | some found =>
      obtain ⟨behind, within⟩ := preferred found rfl
      have kept : (some found).filter (start < ·) = some found := by simp [behind]
      rw [kept, Option.getD_some]
      exact ⟨behind, within⟩

theorem rangeEnd_cuts (limit : ℕ+) (preferred : Bool) (more : start < text.length) :
    CutsAt limit text start (rangeEnd text limit preferred start) := by
  have positive := limit.pos
  have progress : start < min text.length (start + limit) := by omega
  have place : ∀ found, (if preferred ∧ min text.length (start + limit) < text.length then
      findPreferredRangeEnd text start (min text.length (start + limit)) else none) = some found →
      start < found ∧ found ≤ min text.length (start + limit) := by
    intro found preferredEnd
    split at preferredEnd
    case isTrue => exact findPreferredRangeEnd_inside (Nat.min_le_left ..) preferredEnd
    case isFalse => cases preferredEnd
  obtain ⟨behind, within⟩ := candidateEnd_inside progress place
  exact cutsAt_avoid behind (within.trans (Nat.min_le_right ..)) (within.trans (Nat.min_le_left ..))

def rangesFrom (text : Text) (limit : ℕ+) (preferred : Bool) (start : Nat) : List TextChunkRange :=
  if more : start < text.length then
    have := (rangeEnd_cuts limit preferred more).progress
    { start, stop := rangeEnd text limit preferred start } ::
      rangesFrom text limit preferred (rangeEnd text limit preferred start)
  else []
termination_by text.length - start

/-- `chunkTextRanges(text, { limit, mode })`. -/
def chunkTextRanges (text : Text) (limit : WithTop ℚ) (preferred : Bool) : List TextChunkRange :=
  if text = [] then []
  else
    match exceededLimit text limit with
    | none => [{ start := 0, stop := text.length }]
    | some normalizedLimit => rangesFrom text normalizedLimit preferred 0

theorem rangesFrom_cut (limit : ℕ+) (preferred : Bool) :
    Cut never (limit : ℕ) (text.drop start)
      ((rangesFrom text limit preferred start).map (TextChunkRange.slice text)) := by
  induction start using rangesFrom.induct text limit preferred with
  | case1 start more progress ih =>
      rw [rangesFrom, dif_pos more, List.map_cons]
      exact (rangeEnd_cuts limit preferred more).cut ih
  | case2 start ended =>
      rw [rangesFrom, dif_neg ended, List.drop_eq_nil_of_le (not_lt.mp ended)]
      exact .done fun _ mem => absurd mem List.not_mem_nil

/-- The ranges of a text are a cut of it that loses nothing. -/
theorem chunkTextRanges_cut {limit : WithTop ℚ} (preferred : Bool) (positive : 0 < limit) :
    Cut never (allowedUnits limit) text
      ((chunkTextRanges text limit preferred).map (TextChunkRange.slice text)) := by
  unfold chunkTextRanges
  split
  case isTrue empty =>
    rw [empty]
    exact .done fun _ mem => absurd mem List.not_mem_nil
  case isFalse filled =>
    split
    case h_1 short =>
      have whole : sliceText text 0 text.length = text := by
        rw [sliceText, List.take_length, List.drop_zero]
      rw [List.map_singleton, TextChunkRange.slice, whole]
      exact .single filled (.inl (le_of_exceededLimit_eq_none positive short))
    case h_2 normalizedLimit longer =>
      rw [exceededLimit_eq_some positive longer]
      have cut := @rangesFrom_cut text 0 normalizedLimit preferred
      rwa [List.drop_zero] at cut

end OpenClaw.Chunking
