import OpenClaw.Lib.JsUnits
import OpenClaw.Lib.JsNumber

/-!
Limits and break positions of the text chunkers. A positive limit is a whole number of units
that is at least one; a break is moved out of a surrogate pair, backwards if something is left
of the chunk and forwards if not.
-/

namespace OpenClaw.Chunking

open JsUnits

variable {text window : Text} {start stop : Nat}

/-- Finite limits; a limit of infinity is kept as it is. -/
def normalizeChunkLimit (limit : ℚ) : ℚ := if 0 < limit then max 1 (⌊limit⌋ : ℚ) else limit

/-- The normalized limit, if it is positive and the text is longer. -/
def exceededLimit (text : Text) : WithTop ℚ → Option ℕ+
  | ⊤ => none
  | (limit : ℚ) =>
      let normalizedLimit := normalizeChunkLimit limit
      if normalizedLimit ≤ 0 ∨ text.length ≤ normalizedLimit then none
      else some ⌊normalizedLimit⌋.toNat.toPNat'

/-- The units that a positive limit allows. -/
def allowedUnits : WithTop ℚ → WithTop ℕ
  | ⊤ => ⊤
  | (limit : ℚ) => ((max 1 ⌊limit⌋.toNat : ℕ) : WithTop ℕ)

theorem exceededLimit_eq_some {limit : WithTop ℚ} {units : ℕ+} (positive : 0 < limit)
    (longer : exceededLimit text limit = some units) : allowedUnits limit = (units : ℕ) := by
  cases limit with
  | top => cases longer
  | coe limit =>
      have positive' : 0 < limit := WithTop.coe_pos.mp positive
      have floor : ⌊max 1 (⌊limit⌋ : ℚ)⌋.toNat = max 1 ⌊limit⌋.toNat := by
        have whole : max 1 (⌊limit⌋ : ℚ) = ((max 1 ⌊limit⌋ : ℤ) : ℚ) := by push_cast; rfl
        rw [whole, Int.floor_intCast]
        omega
      simp only [exceededLimit, normalizeChunkLimit, if_pos positive'] at longer
      split at longer
      case isTrue => cases longer
      case isFalse =>
        cases longer
        have units : ((⌊max 1 (⌊limit⌋ : ℚ)⌋.toNat.toPNat' : ℕ+) : ℕ) = max 1 ⌊limit⌋.toNat := by
          rw [Nat.toPNat'_coe, floor, if_pos (by omega)]
        rw [units]
        rfl

/-- A text that is not longer fits. -/
theorem le_of_exceededLimit_eq_none {limit : WithTop ℚ} (positive : 0 < limit)
    (short : exceededLimit text limit = none) : (text.length : WithTop ℕ) ≤ allowedUnits limit := by
  cases limit with
  | top => exact le_top
  | coe limit =>
      have positive' : 0 < limit := WithTop.coe_pos.mp positive
      simp only [exceededLimit, normalizeChunkLimit, if_pos positive'] at short
      split at short
      case isFalse => cases short
      case isTrue within =>
        have fits : (text.length : ℚ) ≤ max 1 (⌊limit⌋ : ℚ) :=
          within.resolve_left (not_le.mpr (lt_max_of_lt_left one_pos))
        have fits' : (text.length : ℤ) ≤ max 1 ⌊limit⌋ := by exact_mod_cast fits
        have units : text.length ≤ max 1 ⌊limit⌋.toNat := by omega
        exact WithTop.coe_le_coe.mpr units

/-- `text.slice(start, end)`. -/
def sliceText (text : Text) (start stop : Nat) : Text := (text.take stop).drop start

theorem sliceText_length (inside : stop ≤ text.length) :
    (sliceText text start stop).length = stop - start := by
  rw [sliceText, List.length_drop, List.length_take, Nat.min_eq_left inside]

/-- The index lies between the two units of a surrogate pair. -/
def DividesPair (text : Text) (index : Nat) : Prop :=
  0 < index ∧ isHighSurrogate (text.getD (index - 1) 0) = true ∧
    isLowSurrogate (text.getD index 0) = true

/-- Moves a chunk boundary away from the middle of a UTF-16 surrogate pair. -/
def avoidTrailingHighSurrogateBreak (text : Text) (start stop : Nat) : Nat :=
  if stop ≤ start ∨ text.length ≤ stop ∨ !isHighSurrogate (text.getD (stop - 1) 0) ∨
      !isLowSurrogate (text.getD stop 0) then stop
  else if start < stop - 1 then stop - 1 else stop + 1

theorem isHighSurrogate_not_low {unit : UInt16} (high : isHighSurrogate unit = true) :
    isLowSurrogate unit = false := by
  simp only [isLowSurrogate, isHighSurrogate, Bool.and_eq_true, decide_eq_true_eq,
    Bool.and_eq_false_iff, decide_eq_false_iff_not] at high ⊢
  omega

theorem isWhitespace_not_surrogate {unit : UInt16} (blank : isWhitespace unit = true) :
    isHighSurrogate unit = false ∧ isLowSurrogate unit = false := by
  simp only [isWhitespace, Bool.or_eq_true, List.contains_iff_mem, List.mem_cons, List.not_mem_nil,
    or_false, Bool.and_eq_true, decide_eq_true_eq] at blank
  simp only [isLowSurrogate, isHighSurrogate, Bool.and_eq_false_iff, decide_eq_false_iff_not]
  omega

theorem not_dividesPair_of_length_le (behind : text.length ≤ stop) : ¬ DividesPair text stop := by
  rintro ⟨_, _, low⟩
  rw [List.getD_eq_default _ _ behind] at low
  cases low

theorem not_dividesPair_of_blank (blank : isWhitespace (text.getD stop 0) = true) :
    ¬ DividesPair text stop := by
  rintro ⟨_, _, low⟩
  rw [(isWhitespace_not_surrogate blank).2] at low
  cases low

/-- Where a break is moved to: not behind the given position, except that the single unit before
it and the one behind it are a pair. -/
theorem avoidTrailingHighSurrogateBreak_spec (progress : start < stop) (inside : stop ≤ text.length) :
    start < avoidTrailingHighSurrogateBreak text start stop ∧
      avoidTrailingHighSurrogateBreak text start stop ≤ text.length ∧
      ¬ DividesPair text (avoidTrailingHighSurrogateBreak text start stop) ∧
      (avoidTrailingHighSurrogateBreak text start stop ≤ stop ∨
        (stop = start + 1 ∧ avoidTrailingHighSurrogateBreak text start stop = start + 2 ∧
          isHighSurrogate (text.getD start 0) = true ∧
          isLowSurrogate (text.getD (start + 1) 0) = true)) := by
  unfold avoidTrailingHighSurrogateBreak
  split
  case isTrue apart =>
    refine ⟨progress, inside, ?_, .inl le_rfl⟩
    obtain early | late | high | low := apart
    · omega
    · exact not_dividesPair_of_length_le late
    · intro divides
      rw [divides.2.1] at high
      cases high
    · intro divides
      rw [divides.2.2] at low
      cases low
  case isFalse pair =>
    simp only [not_or, Bool.not_eq_true', Bool.not_eq_false] at pair
    obtain ⟨_, late, high, low⟩ := pair
    split
    case isTrue room =>
      refine ⟨room, by omega, ?_, .inl (by omega)⟩
      rintro ⟨_, _, low'⟩
      rw [isHighSurrogate_not_low high] at low'
      cases low'
    case isFalse alone =>
      have single : stop = start + 1 := by omega
      subst single
      refine ⟨by omega, by omega, ?_, .inr ⟨rfl, rfl, high, low⟩⟩
      rintro ⟨_, high', _⟩
      rw [Nat.add_sub_cancel] at high'
      rw [isHighSurrogate_not_low high'] at low
      cases low

/-- Searches backwards for the last unit below an index. -/
def lastIndexBelow (test : UInt16 → Bool) (text : Text) : (stop : Nat) → Option Nat
  | 0 => none
  | index + 1 => if test (text.getD index 0) then some index else lastIndexBelow test text index

theorem lastIndexBelow_eq_some {test : UInt16 → Bool} {index : Nat}
    (found : lastIndexBelow test text stop = some index) :
    index < stop ∧ test (text.getD index 0) = true := by
  induction stop with
  | zero => cases found
  | succ stop ih =>
      rw [lastIndexBelow] at found
      split at found
      case isTrue hit =>
        cases found
        exact ⟨Nat.lt_succ_self _, hit⟩
      case isFalse =>
        obtain ⟨below, hit⟩ := ih found
        exact ⟨Nat.lt_succ_of_lt below, hit⟩

end OpenClaw.Chunking

/-!
What a text is cut into. The pieces lie in the text one behind another, with nothing but blank
units between them; none is empty or longer than allowed, and none ends between the two units
of a surrogate pair.
-/

namespace OpenClaw.Chunking

open JsUnits

/-- A piece has the allowed number of units, or is one surrogate pair where one unit is allowed. -/
def Fits (bound : WithTop ℕ) (piece : Text) : Prop :=
  (piece.length : WithTop ℕ) ≤ bound ∨
    (bound = 1 ∧ ∃ high low, isHighSurrogate high = true ∧ isLowSurrogate low = true ∧
      piece = [high, low])

inductive Cut (blank : UInt16 → Bool) (bound : WithTop ℕ) : Text → List Text → Prop
  | done {rest : Text} : (∀ unit ∈ rest, blank unit = true) → Cut blank bound rest []
  | piece {skipped piece rest : Text} {pieces : List Text} : (∀ unit ∈ skipped, blank unit = true) → piece ≠ [] →
      Fits bound piece → ¬ DividesPair (piece ++ rest) piece.length → Cut blank bound rest pieces →
      Cut blank bound (skipped ++ (piece ++ rest)) (piece :: pieces)

variable {blank : UInt16 → Bool} {bound : WithTop ℕ} {text skipped piece rest : Text}
  {pieces : List Text} {start stop : Nat}

theorem Cut.skip (blanks : ∀ unit ∈ skipped, blank unit = true) (cut : Cut blank bound rest pieces) :
    Cut blank bound (skipped ++ rest) pieces := by
  cases cut with
  | done others => exact .done fun unit mem => (List.mem_append.mp mem).elim (blanks unit) (others unit)
  | piece others filled fits whole cut =>
      rw [← List.append_assoc]
      exact .piece (fun unit mem => (List.mem_append.mp mem).elim (blanks unit) (others unit)) filled
        fits whole cut

theorem Cut.next (filled : piece ≠ []) (fits : Fits bound piece)
    (whole : ¬ DividesPair (piece ++ rest) piece.length) (cut : Cut blank bound rest pieces) :
    Cut blank bound (piece ++ rest) (piece :: pieces) := by
  have none_ : ∀ unit ∈ ([] : Text), blank unit = true := fun _ mem => absurd mem List.not_mem_nil
  exact .piece none_ filled fits whole cut

/-- A text that fits is one piece. -/
theorem Cut.single (filled : piece ≠ []) (fits : Fits bound piece) :
    Cut blank bound piece [piece] := by
  have whole : ¬ DividesPair (piece ++ []) piece.length := by
    rw [List.append_nil]
    exact not_dividesPair_of_length_le le_rfl
  have next := @Cut.next blank _ _ _ _ filled fits whole
    (.done fun _ mem => absurd mem List.not_mem_nil)
  rwa [List.append_nil] at next

theorem Cut.nonempty (cut : Cut blank bound text pieces) : ∀ piece ∈ pieces, piece ≠ [] := by
  induction cut with
  | done => exact fun _ mem => absurd mem List.not_mem_nil
  | piece _ filled _ _ _ ih => exact List.forall_mem_cons.mpr ⟨filled, ih⟩

theorem Cut.fits (cut : Cut blank bound text pieces) : ∀ piece ∈ pieces, Fits bound piece := by
  induction cut with
  | done => exact fun _ mem => absurd mem List.not_mem_nil
  | piece _ _ fits _ _ ih => exact List.forall_mem_cons.mpr ⟨fits, ih⟩

/-- Nothing but blank units is lost. -/
theorem Cut.filter_flatten (cut : Cut blank bound text pieces) :
    pieces.flatten.filter (!blank ·) = text.filter (!blank ·) := by
  have nothing : ∀ {blanks : Text}, (∀ unit ∈ blanks, blank unit = true) →
      blanks.filter (!blank ·) = [] := fun blanks =>
    List.filter_eq_nil_iff.mpr fun unit mem => by simp [blanks unit mem]
  induction cut with
  | done blanks => rw [nothing blanks, List.flatten_nil, List.filter_nil]
  | piece blanks _ _ _ _ ih =>
      rw [List.flatten_cons, List.filter_append, ih, List.filter_append, nothing blanks,
        List.nil_append, List.filter_append]

/-- The class of no unit. -/
def never (_ : UInt16) : Bool := false

theorem Cut.flatten (cut : Cut never bound text pieces) : pieces.flatten = text := by
  have all : ∀ units : Text, units.filter (!never ·) = units := fun units =>
    List.filter_eq_self.mpr fun _ _ => rfl
  have same := cut.filter_flatten
  rwa [all, all] at same

theorem fits_of_length_le {units : ℕ} (short : piece.length ≤ units) : Fits (units : WithTop ℕ) piece :=
  .inl (WithTop.coe_le_coe.mpr short)

theorem fits_of_part {units : ℕ} {whole : Text} (fits : Fits (units : WithTop ℕ) whole)
    (prefix_ : piece <+: whole) (positive : 0 < units) : Fits (units : WithTop ℕ) piece := by
  obtain short | ⟨one, high, low, isHigh, isLow, rfl⟩ := fits
  · exact .inl ((WithTop.coe_le_coe.mpr prefix_.length_le).trans short)
  · by_cases same : piece = [high, low]
    · exact .inr ⟨one, high, low, isHigh, isLow, same⟩
    · refine fits_of_length_le (le_trans (Nat.lt_succ_iff.mp ?_) positive)
      exact lt_of_le_of_ne prefix_.length_le fun length => same (prefix_.eq_of_length length)

/-- The text from one position to another is a piece. -/
structure CutsAt (units : ℕ) (text : Text) (start stop : Nat) : Prop where
  progress : start < stop
  inside : stop ≤ text.length
  whole : ¬ DividesPair text stop
  fits : Fits (units : WithTop ℕ) (sliceText text start stop)

/-- A position that is moved out of a pair. -/
theorem cutsAt_avoid {units : ℕ} (progress : start < stop) (room : stop ≤ start + units)
    (inside : stop ≤ text.length) :
    CutsAt units text start (avoidTrailingHighSurrogateBreak text start stop) := by
  obtain ⟨positive, inside', whole, place⟩ := avoidTrailingHighSurrogateBreak_spec progress inside
  refine ⟨positive, inside', whole, ?_⟩
  obtain before | ⟨rfl, moved, high, low⟩ := place
  · exact fits_of_length_le (by rw [sliceText_length inside']; omega)
  · rw [moved] at inside' ⊢
    by_cases one : units = 1
    · refine .inr ⟨by rw [one]; rfl, _, _, high, low, ?_⟩
      have first : start < text.length := by omega
      have second : start + 1 < text.length := by omega
      rw [sliceText, List.drop_take, Nat.add_sub_cancel_left, List.drop_eq_getElem_cons first,
        List.drop_eq_getElem_cons second, List.getD_eq_getElem _ _ first,
        List.getD_eq_getElem _ _ second]
      rfl
    · exact fits_of_length_le (by rw [sliceText_length inside']; omega)

theorem CutsAt.cut {units : ℕ} (cuts : CutsAt units text start stop)
    (others : Cut blank units (text.drop stop) pieces) :
    Cut blank units (text.drop start) (sliceText text start stop :: pieces) := by
  obtain ⟨progress, inside, whole, fits⟩ := cuts
  have length : (sliceText text start stop).length = stop - start := sliceText_length inside
  have parts : text.drop start = sliceText text start stop ++ text.drop stop := by
    rw [sliceText, List.drop_take]
    conv_lhs => rw [← List.take_append_drop (stop - start) (text.drop start)]
    rw [List.drop_drop, Nat.add_sub_cancel' progress.le]
  rw [parts]
  refine .next (fun empty => ?_) fits ?_ others
  · rw [empty, List.length_nil] at length
    omega
  · rw [← parts, length]
    rintro ⟨positive, high, low⟩
    have before : start + (stop - start - 1) = stop - 1 := by omega
    rw [List.getD_eq_getElem?_getD, List.getElem?_drop, before] at high
    rw [List.getD_eq_getElem?_getD, List.getElem?_drop, Nat.add_sub_cancel' progress.le] at low
    rw [← List.getD_eq_getElem?_getD] at high low
    exact whole ⟨by omega, high, low⟩

end OpenClaw.Chunking
