import OpenClaw.Chunking.Windows

/-!
Chunks whose breaks a caller selects. The caller may answer anything, and something else at each
call; an answer that is no index in the window gives way to the limit. The blanks around a break
are trimmed.
-/

namespace OpenClaw.Chunking

open JsUnits
open Compaction (trimEnd)

variable {text remaining rest : Text} {stop : Nat}

/-- The answers of a break resolver: for each call, by the window that it sees. -/
abbrev BreakResolver := (call : Nat) → (window : Text) → JsNumber

def resolvedBreak (limit : ℕ+) : JsNumber → Nat
  | .real answer => if answer.den = 1 ∧ 0 < answer ∧ answer ≤ (limit : ℕ) then ⌊answer⌋.toNat else limit
  | _ => limit

theorem resolvedBreak_inside (limit : ℕ+) (answer : JsNumber) :
    0 < resolvedBreak limit answer ∧ resolvedBreak limit answer ≤ limit := by
  have positive := limit.pos
  cases answer with
  | real answer =>
      rw [resolvedBreak]
      split
      case isFalse => exact ⟨positive, le_rfl⟩
      case isTrue inside =>
        obtain ⟨whole, least, most⟩ := inside
        obtain ⟨integer, rfl⟩ : ∃ integer : ℤ, (integer : ℚ) = answer :=
          ⟨answer.num, Rat.coe_int_num_of_den_eq_one whole⟩
        have least' : 0 < integer := Int.cast_pos.mp least
        have most' : integer ≤ (limit : ℕ) := by exact_mod_cast most
        rw [Int.floor_intCast]
        omega
  | _ => exact ⟨positive, le_rfl⟩

/-- Where the chunk ends before it is trimmed. -/
def safeBreak (remaining : Text) (limit : ℕ+) (answer : JsNumber) : Nat :=
  avoidTrailingHighSurrogateBreak remaining 0 (resolvedBreak limit answer)

theorem safeBreak_cuts {limit : ℕ+} (answer : JsNumber) (longer : limit < remaining.length) :
    CutsAt limit remaining 0 (safeBreak remaining limit answer) := by
  obtain ⟨positive, within⟩ := resolvedBreak_inside limit answer
  exact cutsAt_avoid positive (by omega) (by omega)

def trimStart (text : Text) : Text := text.dropWhile isWhitespace

/-- What is left behind a break: one separator is consumed, and the blanks behind it. -/
def behindBreak (remaining : Text) (stop : Nat) : Text :=
  let brokeOnSeparator := stop < remaining.length ∧ isWhitespace (remaining.getD stop 0)
  let nextStart := min remaining.length (stop + if brokeOnSeparator then 1 else 0)
  trimStart (remaining.drop nextStart)

theorem trimStart_length_le (text : Text) : (trimStart text).length ≤ text.length :=
  (List.dropWhile_sublist _).length_le

theorem behindBreak_length (remaining : Text) (stop : Nat) :
    (behindBreak remaining stop).length ≤ remaining.length - stop := by
  refine (trimStart_length_le _).trans ?_
  rw [List.length_drop]
  omega

theorem behindBreak_shorter {limit : ℕ+} (answer : JsNumber) (longer : limit < remaining.length) :
    (behindBreak remaining (safeBreak remaining limit answer)).length < remaining.length := by
  have progress := (safeBreak_cuts answer longer).progress
  have shorter := behindBreak_length remaining (safeBreak remaining limit answer)
  omega

/-- A chunk that is not empty, before the others. -/
def pushFilled (chunk : Text) (others : List Text) : List Text :=
  if 0 < chunk.length then chunk :: others else others

def resolvedChunks (resolveBreakIndex : BreakResolver) (limit : ℕ+) (call : Nat) (remaining : Text) :
    List Text :=
  if longer : limit < remaining.length then
    let answer := resolveBreakIndex call (remaining.take limit)
    have := behindBreak_shorter answer longer
    let chunk := trimEnd (remaining.take (safeBreak remaining limit answer))
    let others := resolvedChunks resolveBreakIndex limit (call + 1)
      (behindBreak remaining (safeBreak remaining limit answer))
    pushFilled chunk others
  else pushFilled (trimEnd remaining) []
termination_by remaining.length

def chunkTextByBreakResolver (text : Text) (limit : WithTop ℚ) (resolveBreakIndex : BreakResolver) :
    List Text :=
  if text = [] then []
  else
    match exceededLimit text limit with
    | none => [text]
    | some normalizedLimit => resolvedChunks resolveBreakIndex normalizedLimit 0 text

/-- What is trimmed from the end of a text is blank. -/
theorem exists_trimEnd (text : Text) :
    ∃ blanks, (∀ unit ∈ blanks, isWhitespace unit = true) ∧ text = trimEnd text ++ blanks := by
  refine ⟨text.rtakeWhile isWhitespace, fun unit mem => List.mem_rtakeWhile_imp mem, ?_⟩
  exact (List.rdropWhile_append_rtakeWhile ..).symm

theorem exists_behindBreak (inside : stop ≤ remaining.length) :
    ∃ blanks, (∀ unit ∈ blanks, isWhitespace unit = true) ∧
      remaining.drop stop = blanks ++ behindBreak remaining stop := by
  have trimmed : ∀ text : Text, ∃ blanks, (∀ unit ∈ blanks, isWhitespace unit = true) ∧
      text = blanks ++ trimStart text := fun text =>
    ⟨text.takeWhile isWhitespace, fun unit mem => List.mem_takeWhile_imp mem,
      List.takeWhile_append_dropWhile.symm⟩
  unfold behindBreak
  dsimp only
  split
  case isFalse =>
    rw [Nat.add_zero, Nat.min_eq_right inside]
    exact trimmed _
  case isTrue separator =>
    obtain ⟨blanks, blank, rest⟩ := trimmed (remaining.drop (stop + 1))
    rw [Nat.min_eq_right separator.1]
    refine ⟨remaining.getD stop 0 :: blanks, List.forall_mem_cons.mpr ⟨separator.2, blank⟩, ?_⟩
    rw [List.cons_append, ← rest, List.getD_eq_getElem _ _ separator.1,
      ← List.drop_eq_getElem_cons separator.1]

/-- What is left of a piece when the blanks at its end are trimmed. -/
theorem cut_trimmed {limit : ℕ+} {chunk blanks : Text} {pieces : List Text}
    (blank : ∀ unit ∈ blanks, isWhitespace unit = true) (fits : Fits (limit : ℕ) (chunk ++ blanks))
    (whole : ¬ DividesPair (chunk ++ (blanks ++ rest)) (chunk ++ blanks).length)
    (others : Cut isWhitespace (limit : ℕ) rest pieces) :
    Cut isWhitespace (limit : ℕ) (chunk ++ (blanks ++ rest)) (pushFilled chunk pieces) := by
  have others' : Cut isWhitespace (limit : ℕ) (blanks ++ rest) pieces := .skip blank others
  unfold pushFilled
  split
  case isFalse empty =>
    rw [List.length_eq_zero_iff.mp (Nat.eq_zero_of_not_pos empty), List.nil_append]
    exact others'
  case isTrue filled =>
    refine .next (List.ne_nil_of_length_pos filled)
      (fits_of_part fits (List.prefix_append ..) limit.pos) ?_ others'
    cases blanks with
    | nil => rwa [List.append_nil] at whole
    | cons unit blanks =>
        refine not_dividesPair_of_blank ?_
        have here : (chunk ++ (unit :: blanks ++ rest)).getD chunk.length 0 = unit := by simp
        rw [here]
        exact blank unit (List.mem_cons_self ..)

theorem cut_break {limit : ℕ+} {pieces : List Text} (cuts : CutsAt limit remaining 0 stop)
    (others : Cut isWhitespace (limit : ℕ) (remaining.drop stop) pieces) :
    Cut isWhitespace (limit : ℕ) remaining (pushFilled (trimEnd (remaining.take stop)) pieces) := by
  obtain ⟨piece, rest, rfl, rfl⟩ : ∃ piece rest, remaining = piece ++ rest ∧ piece.length = stop :=
    ⟨_, _, (List.take_append_drop stop remaining).symm, List.length_take_of_le cuts.inside⟩
  have fits := cuts.fits
  have whole := cuts.whole
  rw [sliceText, List.drop_zero, List.take_left] at fits
  rw [List.drop_left] at others
  rw [List.take_left]
  obtain ⟨blanks, blank, trimmed⟩ := exists_trimEnd piece
  generalize trimEnd piece = chunk at *
  subst trimmed
  rw [List.append_assoc] at whole ⊢
  exact cut_trimmed blank fits whole others

theorem resolvedChunks_cut (resolveBreakIndex : BreakResolver) (limit : ℕ+) (call : Nat) :
    Cut isWhitespace (limit : ℕ) remaining
      (resolvedChunks resolveBreakIndex limit call remaining) := by
  induction call, remaining using resolvedChunks.induct resolveBreakIndex limit with
  | case1 call remaining longer answer _ ih =>
      have cuts := safeBreak_cuts answer longer
      obtain ⟨gap, gapBlank, behind⟩ := exists_behindBreak cuts.inside
      rw [resolvedChunks, dif_pos longer]
      refine cut_break cuts ?_
      rw [behind]
      exact .skip gapBlank ih
  | case2 call remaining longer =>
      obtain ⟨blanks, blank, trimmed⟩ := exists_trimEnd remaining
      have fits : Fits (limit : ℕ) remaining := fits_of_length_le (not_lt.mp longer)
      rw [resolvedChunks, dif_neg longer]
      generalize trimEnd remaining = finalChunk at *
      subst trimmed
      have cut := @cut_trimmed [] limit finalChunk blanks [] blank fits
        (not_dividesPair_of_length_le (by simp)) (.done fun _ mem => absurd mem List.not_mem_nil)
      rwa [List.append_nil] at cut

/-- The chunks of a text are a cut of it that loses nothing but whitespace, for all answers. -/
theorem chunkTextByBreakResolver_cut {limit : WithTop ℚ} (resolveBreakIndex : BreakResolver)
    (positive : 0 < limit) :
    Cut isWhitespace (allowedUnits limit) text
      (chunkTextByBreakResolver text limit resolveBreakIndex) := by
  unfold chunkTextByBreakResolver
  split
  case isTrue empty =>
    rw [empty]
    exact .done fun _ mem => absurd mem List.not_mem_nil
  case isFalse filled =>
    split
    case h_1 short => exact .single filled (.inl (le_of_exceededLimit_eq_none positive short))
    case h_2 normalizedLimit longer =>
      rw [exceededLimit_eq_some positive longer]
      exact resolvedChunks_cut resolveBreakIndex normalizedLimit 0

/-- Pieces of a text that lose only blank units. -/
structure Chunked (blank : UInt16 → Bool) (limit : WithTop ℚ) (text : Text) (pieces : List Text) :
    Prop where
  nonempty : ∀ piece ∈ pieces, piece ≠ []
  lossless : pieces.flatten.filter (!blank ·) = text.filter (!blank ·)
  bounded : ∀ piece ∈ pieces, Fits (allowedUnits limit) piece
  /-- The pieces lie in the text in order, and none ends or starts in a surrogate pair. -/
  wholePairs : Cut blank (allowedUnits limit) text pieces

theorem Cut.chunked {blank : UInt16 → Bool} {limit : WithTop ℚ} {pieces : List Text}
    (cut : Cut blank (allowedUnits limit) text pieces) : Chunked blank limit text pieces :=
  ⟨cut.nonempty, cut.filter_flatten, cut.fits, cut⟩

/-- Ranges and lines lose nothing, and chunks of text nothing but whitespace, within every
positive limit and for every break resolver. Only an empty line is one piece that is empty. -/
theorem chunkers_lossless (text : Text) (limit : WithTop ℚ) (resolveBreakIndex : BreakResolver)
    (positive : 0 < limit) :
    (∀ preferred, Chunked never limit text
        ((chunkTextRanges text limit preferred).map (TextChunkRange.slice text)) ∧
      ((chunkTextRanges text limit preferred).map (TextChunkRange.slice text)).flatten = text) ∧
    (∀ preserveWhitespace, (splitLongTextLine text limit preserveWhitespace).flatten = text ∧
      (text ≠ [] → Chunked never limit text (splitLongTextLine text limit preserveWhitespace)) ∧
      (text = [] → splitLongTextLine text limit preserveWhitespace = [[]])) ∧
    Chunked isWhitespace limit text (chunkText text limit) ∧
    Chunked isWhitespace limit text (chunkTextByBreakResolver text limit resolveBreakIndex) := by
  have emptyLine : ∀ preserveWhitespace, splitLongTextLine [] limit preserveWhitespace = [[]] := by
    intro preserveWhitespace
    unfold splitLongTextLine
    split
    case h_1 => rfl
    case h_2 normalizedLimit longer =>
      cases limit with
      | top => cases longer
      | coe limit =>
          simp only [exceededLimit, List.length_nil, Nat.cast_zero] at longer
          rw [if_pos (le_total _ _)] at longer
          cases longer
  refine ⟨fun preferred => ?_, fun preserveWhitespace => ⟨?_, fun filled => ?_, fun empty => ?_⟩,
    (chunkText_cut positive).chunked, (chunkTextByBreakResolver_cut resolveBreakIndex positive).chunked⟩
  · have cut := @chunkTextRanges_cut text limit preferred positive
    exact ⟨cut.chunked, cut.flatten⟩
  · by_cases empty : text = []
    · rw [empty, emptyLine]
      rfl
    · exact (splitLongTextLine_cut preserveWhitespace positive empty).flatten
  · exact (splitLongTextLine_cut preserveWhitespace positive filled).chunked
  · rw [empty]
    exact emptyLine preserveWhitespace

/-- The text `a b` within one unit. -/
theorem chunkers_lossless_example :
    Chunked isWhitespace ((1 : ℚ) : WithTop ℚ) [0x61, 0x20, 0x62]
      (chunkTextByBreakResolver [0x61, 0x20, 0x62] ((1 : ℚ) : WithTop ℚ) fun _ _ => .nan) :=
  (chunkers_lossless [0x61, 0x20, 0x62] ((1 : ℚ) : WithTop ℚ) (fun _ _ => .nan)
    (WithTop.coe_pos.mpr one_pos)).2.2.2

/-- The only piece of an empty line is empty. -/
theorem not_chunkers_nonempty :
    ¬ ∀ piece ∈ splitLongTextLine [] ((1 : ℚ) : WithTop ℚ) true, piece ≠ [] := by
  have single : splitLongTextLine [] ((1 : ℚ) : WithTop ℚ) true = [[]] := by
    simp [splitLongTextLine, exceededLimit, normalizeChunkLimit]
  rw [single]
  exact fun nonempty => nonempty [] (List.mem_singleton.mpr rfl) rfl

end OpenClaw.Chunking
