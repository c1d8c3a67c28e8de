import OpenClaw.Lib.JsUnits

/-!
Slices of UTF-16 texts that divide no surrogate pair.
-/

namespace NormalizationCore

open JsUnits

/-- `sliceUtf16Safe(input, start, end)`. -/
def sliceUtf16Safe (input : Text) (start : Int) (end_ : Option Int) : Text :=
  let len : Int := input.length
  let clamp (index : Int) := if index < 0 then max (len + index) 0 else min index len
  let start := clamp start
  let stop := (end_.map clamp).getD len
  if stop ≤ start then []
  else
    let unitAt (index : Int) : UInt16 := input.getD index.toNat 0
    let start :=
      if 0 < start ∧ start < len ∧ isLowSurrogate (unitAt start) ∧
          isHighSurrogate (unitAt (start - 1)) then start + 1
      else start
    let stop :=
      if 0 < stop ∧ stop < len ∧ isHighSurrogate (unitAt (stop - 1)) ∧
          isLowSurrogate (unitAt stop) then stop - 1
      else stop
    (input.take stop.toNat).drop start.toNat

def truncateUtf16Safe (input : Text) (maxLen : Int) : Text :=
  let limit := max 0 maxLen
  if input.length ≤ limit then input else sliceUtf16Safe input 0 (some limit)

/-- The units that a cut at `limit` keeps: a surrogate pair is not divided. -/
def cutLength (text : Text) (limit : Nat) : Nat :=
  if 0 < limit ∧ isHighSurrogate (text.getD (limit - 1) 0) ∧ isLowSurrogate (text.getD limit 0) then
    limit - 1
  else limit

theorem cutLength_le (text : Text) (limit : Nat) : cutLength text limit ≤ limit := by
  unfold cutLength
  split <;> omega

theorem le_cutLength (text : Text) (limit : Nat) : limit - 1 ≤ cutLength text limit := by
  unfold cutLength
  split <;> omega

theorem truncateUtf16Safe_eq_take {text : Text} {limit : Nat} (longer : limit < text.length) :
    truncateUtf16Safe text limit = text.take (cutLength text limit) := by
  have large : ¬ (text.length : Int) ≤ limit := by omega
  have limited : max 0 (limit : Int) = limit := by omega
  have start : (if (0 : Int) < 0 then max ((text.length : Int) + 0) 0 else min 0 text.length) = 0 := by
    omega
  have stop : (if (limit : Int) < 0 then max ((text.length : Int) + limit) 0
      else min (limit : Int) text.length) = limit := by
    omega
  simp only [truncateUtf16Safe, limited, large, if_false, sliceUtf16Safe, Option.map_some,
    Option.getD_some, start, stop]
  by_cases none : limit = 0
  · subst none
    simp [cutLength]
  · have positive : ¬ (limit : Int) ≤ 0 := by omega
    have before : ((limit : Int) - 1).toNat = limit - 1 := by omega
    simp only [positive, if_false, lt_irrefl, false_and, Int.toNat_natCast, before, Int.toNat_zero,
      List.drop_zero, cutLength, Int.natCast_pos, Nat.cast_lt, longer, true_and]
    congr 1
    split <;> omega

end NormalizationCore
