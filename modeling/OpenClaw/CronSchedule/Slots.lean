import OpenClaw.CronSchedule.NextRun

/-!
The slots of a job. Whatever time it is computed at, the next run is the least slot after that
time, so it stays the same until it is reached; the previous run of an expression is the
greatest slot that is not after the time.
-/

namespace OpenClaw.CronSchedule

variable {cron : CronSupport} {slots : Set Millis} {job : Job} {spec : CronExpr} {offset : Nat}
  {t u n c : Millis}

def After (slots : Set Millis) (t : Millis) : Set Millis := {x | x ∈ slots ∧ t < x}

def Before (slots : Set Millis) (t : Millis) : Set Millis := {x | x ∈ slots ∧ x < t}

def AtOrBefore (slots : Set Millis) (t : Millis) : Set Millis := {x | x ∈ slots ∧ x ≤ t}

/-- The slots moved back by an offset. -/
def Shifted (slots : Set Millis) (offset : Nat) : Set Millis := {x | ∃ s ∈ slots, x = s + offset}

/-- The next slot is the same one at any time before it. -/
theorem isLeast_after_of_le (least : IsLeast (After slots t) n) (le : t ≤ u) (before : u < n) :
    IsLeast (After slots u) n :=
  ⟨⟨least.1.1, before⟩, fun _ later => least.2 ⟨later.1, le.trans_lt later.2⟩⟩

/-- The whole second of a time. -/
def wholeSecond (t : Millis) : Millis := (⌊t / 1000⌋ : Millis) * 1000

theorem wholeSecond_le (t : Millis) : wholeSecond t ≤ t := by
  have floor := Int.floor_le (t / 1000)
  rw [wholeSecond]
  linarith

theorem wholeSecond_add_second (t : Millis) : wholeSecond (t + 1000) = wholeSecond t + 1000 := by
  have split : (t + 1000) / 1000 = t / 1000 + 1 := by ring
  rw [wholeSecond, split, Int.floor_add_one, wholeSecond]
  push_cast
  ring

/-- The answers of the cron queries are those of one set of slots. -/
structure Answers (cron : CronSupport) (spec : CronExpr) (slots : Set Millis) : Prop where
  wholeSeconds : ∀ x ∈ slots, ∃ second : Int, x = second * 1000
  dates : ∀ x ∈ slots, isFiniteTimestamp x = true
  next : ∀ t, isFiniteTimestamp t = true →
    (∃ n, cron.nextRun spec t = .ok (some n) ∧ IsLeast (After slots t) n) ∨
      cron.nextRun spec t = .ok none ∧ After slots t = ∅
  previous : ∀ t, isFiniteTimestamp t = true →
    (∃ p, cron.previousRun spec t = .ok (some p) ∧ IsGreatest (Before slots (wholeSecond t)) p) ∨
      cron.previousRun spec t = .ok none ∧ Before slots (wholeSecond t) = ∅

theorem isFiniteTimestamp_iff :
    isFiniteTimestamp t = true ↔ -MAX_DATE_TIMESTAMP_MS ≤ t ∧ t ≤ MAX_DATE_TIMESTAMP_MS := by
  simp [isFiniteTimestamp]

theorem isFiniteTimestamp_of_le (finite : isFiniteTimestamp u = true) (positive : 0 ≤ t)
    (le : t ≤ u) : isFiniteTimestamp t = true := by
  obtain ⟨_, below⟩ := isFiniteTimestamp_iff.mp finite
  refine isFiniteTimestamp_iff.mpr ⟨le_trans ?_ positive, le.trans below⟩
  norm_num [MAX_DATE_TIMESTAMP_MS]

theorem isLeast_shifted (least : IsLeast (After slots (t - offset)) n) :
    IsLeast (After (Shifted slots offset) t) (n + offset) := by
  refine ⟨⟨⟨n, least.1.1, rfl⟩, by linarith [least.1.2]⟩, ?_⟩
  rintro _ ⟨⟨s, mem, rfl⟩, later⟩
  have le : n ≤ s := least.2 ⟨mem, by linarith⟩
  linarith

theorem shifted_zero (slots : Set Millis) : Shifted slots 0 = slots := by
  ext x
  simp [Shifted]

theorem isGreatest_shifted (greatest : IsGreatest (AtOrBefore slots (t - offset)) n) :
    IsGreatest (AtOrBefore (Shifted slots offset) t) (n + offset) := by
  refine ⟨⟨⟨n, greatest.1.1, rfl⟩, by linarith [greatest.1.2]⟩, ?_⟩
  rintro _ ⟨⟨s, mem, rfl⟩, before⟩
  have le : s ≤ n := greatest.2 ⟨mem, by linarith⟩
  linarith

/-- What a next-run query is to answer: the least slot, unless no slot is a date. -/
def AnswersNext (slots : Set Millis) (t : Millis) (answer : Except String (Option Millis)) : Prop :=
  (∃ n, answer = .ok (some n) ∧ IsLeast (After slots t) n ∧ isFiniteTimestamp n = true) ∨
    answer = .ok none ∧ ∀ x ∈ After slots t, ¬ isFiniteTimestamp x = true

theorem AnswersNext.of_some {answer : Except String (Option Millis)}
    (answers : AnswersNext slots t answer) (some_ : answer = .ok (some n)) :
    IsLeast (After slots t) n ∧ isFiniteTimestamp n = true := by
  rcases answers with ⟨m, same, least, finite⟩ | ⟨none_, _⟩
  · rw [some_] at same
    cases same
    exact ⟨least, finite⟩
  · rw [some_] at none_
    cases none_

theorem AnswersNext.eq_some {answer : Except String (Option Millis)}
    (answers : AnswersNext slots t answer) (least : IsLeast (After slots t) n)
    (finite : isFiniteTimestamp n = true) : answer = .ok (some n) := by
  rcases answers with ⟨m, same, least', _⟩ | ⟨_, beyond⟩
  · rw [same, least.unique least']
  · exact absurd finite (beyond n least.1)

section Queries

variable (answers : Answers cron spec slots)
include answers

theorem computeNextRunAtMs_answers (t : Millis) (positive : 0 ≤ t) :
    AnswersNext slots t (computeNextRunAtMs cron (.cron spec) t) := by
  unfold computeNextRunAtMs
  by_cases finite : isFiniteTimestamp t = true
  · rw [if_neg (by simp [finite])]
    rcases answers.next t finite with ⟨n, same, least⟩ | ⟨same, empty⟩
    · exact .inl ⟨n, same, least, answers.dates n least.1.1⟩
    · exact .inr ⟨same, fun x mem => absurd mem (by simp [empty])⟩
  · rw [if_pos (by simpa using finite)]
    exact .inr ⟨rfl, fun x mem date => finite (isFiniteTimestamp_of_le date positive mem.2.le)⟩

/-- Once the slots are past the range of dates, no attempt finds one. -/
theorem nextAttempts_none (attempts : Nat) {c : Millis} (positive : 0 ≤ c)
    (beyond : ∀ s ∈ After slots c, ¬ isFiniteTimestamp (s + offset) = true) :
    nextAttempts cron spec offset t attempts c = .ok none := by
  induction attempts generalizing c with
  | zero => rfl
  | succ attempts ih =>
      rcases computeNextRunAtMs_answers answers c positive with ⟨b, same, least, _⟩ | ⟨same, _⟩
      · have later : c ≤ max (c + 1) (b + 1000) := le_max_of_le_left (by linarith)
        have rest := ih (positive.trans later) fun s mem => beyond s ⟨mem.1, later.trans_lt mem.2⟩
        rw [nextAttempts, same]
        have out : isFiniteTimestamp (b + offset) = false := by simpa using beyond b least.1
        simpa [bind, Except.bind, out] using rest
      · rw [nextAttempts, same]
        rfl

theorem nextAttempts_answers (attempts : Nat) (behind : (offset : Millis) ≤ t) :
    AnswersNext (Shifted slots offset) t
      (nextAttempts cron spec offset t (attempts + 1) (max 0 (t - offset))) := by
  have positive : 0 ≤ t - offset := by linarith
  rw [max_eq_right positive]
  rcases computeNextRunAtMs_answers answers (t - offset) positive with ⟨b, same, least, _⟩ | ⟨same, beyond⟩
  · by_cases finite : isFiniteTimestamp (b + offset) = true
    · refine .inl ⟨b + offset, ?_, isLeast_shifted least, finite⟩
      have later : t < b + offset := by linarith [least.1.2]
      rw [nextAttempts, same]
      simp [bind, Except.bind, finite, later]
    · have none_ : ∀ s ∈ After slots (t - offset), ¬ isFiniteTimestamp (s + offset) = true := by
        intro s mem date
        have below : b ≤ s := least.2 mem
        refine finite (isFiniteTimestamp_of_le date ?_ (by linarith))
        linarith [least.1.2, positive, Nat.cast_nonneg (α := ℚ) offset]
      refine .inr ⟨nextAttempts_none answers _ positive none_, ?_⟩
      rintro _ ⟨⟨s, mem, rfl⟩, later⟩
      exact none_ s ⟨mem, by linarith⟩
  · refine .inr ⟨by rw [nextAttempts, same]; rfl, ?_⟩
    rintro _ ⟨⟨s, mem, rfl⟩, later⟩ date
    exact beyond s ⟨mem, by linarith⟩ (answers.dates s mem)

theorem staggered_answers (schedule : job.schedule = .cron spec)
    (behind : (offsetMs cron job.id spec : Millis) ≤ t) :
    AnswersNext (Shifted slots (offsetMs cron job.id spec)) t
      (computeStaggeredCronNextRunAtMs cron job t) := by
  rw [computeStaggeredCronNextRunAtMs, schedule]
  dsimp only
  split
  case isTrue zero =>
    rw [zero, Nat.cast_zero] at behind
    rw [zero, shifted_zero]
    exact computeNextRunAtMs_answers answers t behind
  case isFalse => exact nextAttempts_answers answers 3 behind

/-- The next run of an expression is the least shifted slot. -/
theorem nextRun_answers (enabled : job.isEnabled = true) (schedule : job.schedule = .cron spec)
    (behind : (offsetMs cron job.id spec : Millis) ≤ t) :
    AnswersNext (Shifted slots (offsetMs cron job.id spec)) t (computeJobNextRunAtMs cron job t) := by
  have first := staggered_answers answers schedule behind
  rw [computeJobNextRunAtMs, enabled, schedule]
  dsimp only
  rw [if_neg (by decide)]
  rcases first with ⟨n, same, least, finite⟩ | ⟨same, beyond⟩
  · refine .inl ⟨n, ?_, least, finite⟩
    simp [same, bind, Except.bind, asDateTimestampMs, finite]
  · have later : t ≤ ⌊t / 1000⌋ * 1000 + 1000 := by
      have above := Int.lt_floor_add_one (t / 1000)
      linarith
    have second := staggered_answers answers schedule (behind.trans later)
    rw [same]
    rcases second with ⟨n, _, least, finite⟩ | ⟨none_, _⟩
    · exact absurd finite (beyond n ⟨least.1.1, later.trans_lt least.1.2⟩)
    · exact .inr ⟨none_, beyond⟩

/-- What a previous-run query is to answer. -/
theorem computePreviousRunAtMs_answers (finite : isFiniteTimestamp t = true) :
    (∃ p, computePreviousRunAtMs cron (.cron spec) t = .ok (some p) ∧
        IsGreatest (Before slots (wholeSecond t)) p) ∨
      computePreviousRunAtMs cron (.cron spec) t = .ok none ∧ Before slots (wholeSecond t) = ∅ := by
  rw [computePreviousRunAtMs, if_neg (by simp [finite])]
  exact answers.previous t finite

theorem staggeredPrevious_answers (schedule : job.schedule = .cron spec)
    (behind : (offsetMs cron job.id spec : Millis) ≤ t) (finite : isFiniteTimestamp t = true) :
    (∃ p, computeStaggeredCronPreviousRunAtMs cron job t =
          .ok (some (p + offsetMs cron job.id spec)) ∧
        IsGreatest (Before slots (wholeSecond (t - offsetMs cron job.id spec))) p) ∨
      computeStaggeredCronPreviousRunAtMs cron job t = .ok none ∧
        Before slots (wholeSecond (t - offsetMs cron job.id spec)) = ∅ := by
  rw [computeStaggeredCronPreviousRunAtMs, schedule]
  dsimp only
  split
  case isTrue zero =>
    rw [zero]
    simp only [Nat.cast_zero, add_zero, sub_zero]
    exact computePreviousRunAtMs_answers answers finite
  case isFalse =>
    generalize offsetMs cron job.id spec = offset at behind
    have positive : 0 ≤ t - offset := by linarith
    have some_ : (0 : Millis) ≤ offset := Nat.cast_nonneg offset
    have finite' := isFiniteTimestamp_of_le finite positive (by linarith)
    rw [max_eq_right positive, previousAttempts]
    rcases computePreviousRunAtMs_answers answers finite' with ⟨p, same, greatest⟩ | ⟨same, empty⟩
    · refine .inl ⟨p, ?_, greatest⟩
      have before : p + offset ≤ t := by
        linarith [greatest.1.2, wholeSecond_le (t - offset)]
      have date : isFiniteTimestamp (p + offset) = true := by
        have low := (isFiniteTimestamp_iff.mp (answers.dates p greatest.1.1)).1
        exact isFiniteTimestamp_iff.mpr ⟨by linarith, before.trans (isFiniteTimestamp_iff.mp finite).2⟩
      rw [same]
      simp [bind, Except.bind, date, before]
    · exact .inr ⟨by rw [same]; rfl, empty⟩

/-- Past the current second, the strict query is about the slots up to the time. -/
theorem before_next_second (t : Millis) :
    Before slots (wholeSecond (t + 1000)) = AtOrBefore slots t := by
  ext x
  refine and_congr_right fun mem => ?_
  obtain ⟨second, rfl⟩ := answers.wholeSeconds x mem
  rw [wholeSecond_add_second, wholeSecond]
  have seconds : (second : Millis) * 1000 ≤ t ↔ second ≤ ⌊t / 1000⌋ := by
    rw [Int.le_floor, le_div_iff₀ (by norm_num)]
  rw [seconds, ← Int.lt_add_one_iff, ← Int.cast_lt (R := ℚ), Int.cast_add, Int.cast_one]
  constructor <;> intro less <;> linarith

/-- The previous run of an expression is the greatest shifted slot that is not after the time. -/
theorem previousRun_answers (enabled : job.isEnabled = true) (schedule : job.schedule = .cron spec)
    (behind : (offsetMs cron job.id spec : Millis) ≤ t) (probe : isFiniteTimestamp (t + 1000) = true) :
    (∃ p, computeJobPreviousRunAtOrBeforeMs cron job t = .ok (some p) ∧
        IsGreatest (AtOrBefore (Shifted slots (offsetMs cron job.id spec)) t) p) ∨
      computeJobPreviousRunAtOrBeforeMs cron job t = .ok none ∧
        AtOrBefore (Shifted slots (offsetMs cron job.id spec)) t = ∅ := by
  have some_ : (0 : Millis) ≤ offsetMs cron job.id spec := Nat.cast_nonneg _
  have finite := isFiniteTimestamp_of_le probe (some_.trans behind) (by linarith)
  have strict := staggeredPrevious_answers answers schedule behind finite
  have past := staggeredPrevious_answers answers schedule (by linarith : _ ≤ t + 1000) probe
  have moved : t + 1000 - offsetMs cron job.id spec = t - offsetMs cron job.id spec + 1000 := by ring
  rw [moved, before_next_second answers] at past
  have opened : computeJobPreviousRunAtOrBeforeMs cron job t =
      (computeStaggeredCronPreviousRunAtOrBeforeMs cron job t).map fun previous =>
        previous.bind asDateTimestampMs := by
    rw [computeJobPreviousRunAtOrBeforeMs, schedule, enabled]
    rfl
  rw [opened, computeStaggeredCronPreviousRunAtOrBeforeMs]
  generalize offsetMs cron job.id spec = offset at *
  have narrower : Before slots (wholeSecond (t - offset)) ⊆ AtOrBefore slots (t - offset) :=
    fun s mem => ⟨mem.1, mem.2.le.trans (wholeSecond_le _)⟩
  rcases past with ⟨b, same, greatest⟩ | ⟨same, empty⟩
  · have whole := isGreatest_shifted greatest
    have le := whole.1.2
    have date : isFiniteTimestamp (b + offset) = true := by
      have low := (isFiniteTimestamp_iff.mp (answers.dates b greatest.1.1)).1
      exact isFiniteTimestamp_iff.mpr ⟨by linarith, le.trans (isFiniteTimestamp_iff.mp finite).2⟩
    refine .inl ⟨b + offset, ?_, whole⟩
    rcases strict with ⟨p, same', greatest'⟩ | ⟨same', _⟩
    · have before : p ≤ b := greatest.2 (narrower greatest'.1)
      rcases before.lt_or_eq with less | rfl
      · have date' : isFiniteTimestamp (p + offset) = true := by
          have low := (isFiniteTimestamp_iff.mp (answers.dates p greatest'.1.1)).1
          have high := (isFiniteTimestamp_iff.mp date).2
          exact isFiniteTimestamp_iff.mpr ⟨by linarith, by linarith⟩
        simp [same, same', bind, Except.bind, probe, date, date', le, less, Except.map,
          asDateTimestampMs]
      · simp [same, same', bind, Except.bind, probe, date, le, Except.map, asDateTimestampMs]
    · simp [same, same', bind, Except.bind, probe, date, le, Except.map, asDateTimestampMs]
  · have none_ : AtOrBefore (Shifted slots offset) t = ∅ := by
      refine Set.eq_empty_of_forall_notMem ?_
      rintro _ ⟨⟨s, mem, rfl⟩, before⟩
      have inside : s ∈ AtOrBefore slots (t - offset) := ⟨mem, by linarith⟩
      rwa [empty] at inside
    refine .inr ⟨?_, none_⟩
    rcases strict with ⟨p, _, greatest'⟩ | ⟨same', _⟩
    · exact absurd (narrower greatest'.1) (by simp [empty])
    · simp [same, same', bind, Except.bind, probe, Except.map]

end Queries

end OpenClaw.CronSchedule
