import OpenClaw.CronSchedule.Slots

/-!
Recurring intervals as slots, and the next and previous runs of every job. An interval counts
on from the last run while that is ahead and not before the anchor; else its slots are the
multiples of the interval from the anchor on.
-/

namespace OpenClaw.CronSchedule

variable {cron : CronSupport} {slots : Set Millis} {job : Job} {spec : CronExpr} {t u n : Millis}
  {everyMs : Millis} {anchorMs : Option Millis} {a e : Int}

/-- The multiples of an interval from its anchor on. -/
def EverySlots (a e : Int) : Set Millis := {x | ∃ k : Nat, x = a + k * e}

theorem isLeast_everySlots (positive : 1 ≤ e) (t : Millis) :
    IsLeast (After (EverySlots a e) t)
      (if t < a then (a : Millis) else a + (⌊(t - a) / e⌋ + 1 : Int) * e) := by
  have unit : (1 : Millis) ≤ e := by exact_mod_cast positive
  split
  case isTrue before =>
    refine ⟨⟨⟨0, by simp⟩, before⟩, ?_⟩
    rintro _ ⟨⟨k, rfl⟩, _⟩
    have forward : (0 : Millis) ≤ k * e := by positivity
    linarith
  case isFalse reached =>
    have elapsed : 0 ≤ (t - a) / e := div_nonneg (by linarith [not_lt.mp reached]) (by linarith)
    have steps : 0 ≤ ⌊(t - a) / e⌋ := Int.floor_nonneg.mpr elapsed
    refine ⟨⟨⟨(⌊(t - a) / e⌋ + 1).toNat, ?_⟩, ?_⟩, ?_⟩
    · have exact_ : (((⌊(t - a) / e⌋ + 1).toNat : Int) : Millis) = (⌊(t - a) / e⌋ + 1 : Int) := by
        rw [Int.toNat_of_nonneg (by omega)]
      rw [← exact_, Int.cast_natCast]
    · have above := Int.lt_floor_add_one ((t - a) / e)
      rw [div_lt_iff₀ (by linarith)] at above
      push_cast
      linarith
    · rintro _ ⟨⟨k, rfl⟩, later⟩
      have more : ⌊(t - a) / e⌋ < (k : Int) := by
        rw [Int.floor_lt, div_lt_iff₀ (by linarith)]
        push_cast
        linarith
      have most : ((⌊(t - a) / e⌋ + 1 : Int) : Millis) ≤ k := by exact_mod_cast more
      nlinarith

theorem computeNextEveryMs_eq (every : isFiniteTimestamp e = true) (positive : 1 ≤ e)
    (nonneg : 0 ≤ a) (anchor : isFiniteTimestamp a = true) (t : Millis) :
    computeNextEveryMs e (some a) t =
      if t < a then some (a : Millis)
      else asDateTimestampMs (a + (⌊(t - a) / e⌋ + 1 : Int) * e) := by
  have raw : asDateTimestampMs a = some (a : Millis) := if_pos anchor
  have valid : ¬ ((!isFiniteTimestamp e) = true ∨ ⌊(e : Millis)⌋ < 1) := by
    simp [every, positive]
  have given : ¬ (some (a : Millis) ≠ none ∧ (asDateTimestampMs a = none ∨
      ∃ r ∈ asDateTimestampMs a, r < 0)) := by
    rw [raw]
    simpa using nonneg
  rw [computeNextEveryMs, if_neg valid, Option.bind_some, if_neg given]
  simp only [raw, Option.getD_some, Int.floor_intCast, max_eq_right nonneg]

@[simp] theorem asDateTimestampMs_bind (value : Millis) :
    (asDateTimestampMs value).bind asDateTimestampMs = asDateTimestampMs value := by
  unfold asDateTimestampMs
  split
  case isTrue finite => exact if_pos finite
  case isFalse => rfl

/-- The interval is counted from its anchor to the least slot. -/
theorem counted_eq (cron : CronSupport) (finite : isFiniteTimestamp t = true) (every : isFiniteTimestamp e = true)
    (positive : 1 ≤ e) (nonneg : 0 ≤ a) (anchor : isFiniteTimestamp a = true) :
    ∃ m, IsLeast (After (EverySlots a e) t) m ∧
      (computeNextRunAtMs cron (.every e (some a)) t).map (fun next => next.bind asDateTimestampMs) =
        .ok (asDateTimestampMs m) := by
  refine ⟨_, isLeast_everySlots positive t, ?_⟩
  rw [computeNextRunAtMs, if_neg (by simp [finite])]
  rw [computeNextEveryMs_eq every positive nonneg anchor]
  split
  · rfl
  · exact congrArg Except.ok (asDateTimestampMs_bind _)

/-- The anchor of a job does not move with the time it is asked at. -/
def KnownAnchor (job : Job) (anchorMs : Option Millis) : Prop :=
  isFiniteTimestamp job.createdAtMs = true ∨ ∃ raw ∈ anchorMs, isFiniteTimestamp raw = true

theorem floor_finite {x : Millis} (finite : isFiniteTimestamp x = true) :
    isFiniteTimestamp ((max 0 ⌊x⌋ : Int) : Millis) = true := by
  obtain ⟨_, high⟩ := isFiniteTimestamp_iff.mp finite
  have floor := Int.floor_le x
  rw [isFiniteTimestamp_iff, Int.cast_max, Int.cast_zero]
  refine ⟨le_max_of_le_left (by norm_num [MAX_DATE_TIMESTAMP_MS]), max_le ?_ (by linarith)⟩
  norm_num [MAX_DATE_TIMESTAMP_MS]

theorem everyAnchorMs_eq (known : KnownAnchor job anchorMs) :
    ∃ a : Int, 0 ≤ a ∧ isFiniteTimestamp a = true ∧ ∀ t, job.everyAnchorMs anchorMs t = a := by
  cases raw : anchorMs.bind asDateTimestampMs with
  | some coerced =>
      have finite : isFiniteTimestamp coerced = true := by
        obtain ⟨given, _, same⟩ := Option.bind_eq_some_iff.mp raw
        rw [asDateTimestampMs] at same
        split at same
        · cases same
          assumption
        · cases same
      refine ⟨_, le_max_left 0 ⌊coerced⌋, floor_finite finite, fun t => ?_⟩
      rw [Job.everyAnchorMs, resolveEveryAnchorMs, raw]
  | none =>
      have created : isFiniteTimestamp job.createdAtMs = true := by
        refine known.resolve_right ?_
        rintro ⟨given, same, finite⟩
        rw [same] at raw
        simp [asDateTimestampMs, finite] at raw
      refine ⟨_, le_max_left 0 ⌊job.createdAtMs⌋, floor_finite created, fun t => ?_⟩
      rw [Job.everyAnchorMs, resolveEveryAnchorMs, raw, if_pos created, if_pos created]

/-- The run that an interval counts on from. -/
def CountsFrom (job : Job) (anchor last : Millis) : Prop :=
  job.state.lastRunAtMs = some last ∧ isFiniteTimestamp last = true ∧ anchor ≤ last

/-- The next run of an interval: from the last run while that is ahead, else from the anchor. -/
structure IntervalRun (job : Job) (anchor : Millis) (every : Int) (t n : Millis) : Prop where
  fromLastRun : ∀ last, CountsFrom job anchor last → t < ⌊last⌋ + every → n = ⌊last⌋ + every
  fromAnchor : (∀ last, CountsFrom job anchor last → ⌊last⌋ + every ≤ t) →
    if t < anchor then n = anchor
    else (∃ k : Nat, n = anchor + k * every) ∧ n ≤ t + every ∧
      ∀ k : Int, t < anchor + k * every → anchor + k * every ≤ t + every → anchor + k * every = n

theorem fromAnchor_of_isLeast (positive : 1 ≤ e) (least : IsLeast (After (EverySlots a e) t) n) :
    if t < a then n = a
    else (∃ k : Nat, n = a + k * e) ∧ n ≤ t + e ∧
      ∀ k : Int, t < a + k * e → a + k * e ≤ t + e → a + k * e = n := by
  have unit : (1 : Millis) ≤ e := by exact_mod_cast positive
  have same := least.unique (isLeast_everySlots positive t)
  split
  case isTrue before => rw [same, if_pos before]
  case isFalse reached =>
    rw [if_neg reached] at same
    have below := Int.floor_le ((t - a) / e)
    rw [le_div_iff₀ (by linarith)] at below
    have above := Int.lt_floor_add_one ((t - a) / e)
    rw [div_lt_iff₀ (by linarith)] at above
    refine ⟨least.1.1, ?_, fun k later within => ?_⟩
    · rw [same]
      push_cast
      linarith
    · have low : ⌊(t - a) / e⌋ < k := by
        rw [Int.floor_lt, div_lt_iff₀ (by linarith)]
        linarith
      have high : k ≤ ⌊(t - a) / e⌋ + 1 := by
        rw [← sub_le_iff_le_add, Int.le_floor, le_div_iff₀ (by linarith)]
        push_cast
        linarith
      have exact_ : k = ⌊(t - a) / e⌋ + 1 := by omega
      rw [same, exact_]

/-- The least slot of the interval, as a job computes it. -/
def countedEvery (cron : CronSupport) (a e : Int) (t : Millis) : Except String (Option Millis) :=
  (computeNextRunAtMs cron (.every e (some a)) t).map fun next => next.bind asDateTimestampMs

/-- A job that computes a next run counts from its last run or from its anchor. -/
theorem computeJobNextEveryMs_cases (anchor : ∀ t, job.everyAnchorMs anchorMs t = a)
    (next : computeJobNextEveryMs cron job everyMs anchorMs t = .ok (some n)) :
    isFiniteTimestamp (⌊everyMs⌋ : Millis) = true ∧ 1 ≤ ⌊everyMs⌋ ∧
      ((∃ last, CountsFrom job a last ∧ ∀ u, computeJobNextEveryMs cron job everyMs anchorMs u =
          if u < ⌊last⌋ + ⌊everyMs⌋ then .ok (some (⌊last⌋ + ⌊everyMs⌋))
          else countedEvery cron a ⌊everyMs⌋ u) ∨
        (∀ last, ¬ CountsFrom job a last) ∧ ∀ u,
          computeJobNextEveryMs cron job everyMs anchorMs u = countedEvery cron a ⌊everyMs⌋ u) := by
  by_cases invalid : hasInvalidExplicitEveryAnchor anchorMs = true
  · rw [computeJobNextEveryMs, if_pos invalid] at next
    cases next
  by_cases bad : (!isFiniteTimestamp everyMs) = true ∨ ⌊everyMs⌋ < 1
  · rw [computeJobNextEveryMs, if_neg invalid, if_pos bad] at next
    cases next
  obtain ⟨finite, positive⟩ : isFiniteTimestamp everyMs = true ∧ 1 ≤ ⌊everyMs⌋ := by
    simpa using bad
  have every : isFiniteTimestamp (⌊everyMs⌋ : Millis) = true := by
    have unit : (1 : Millis) ≤ ⌊everyMs⌋ := by exact_mod_cast positive
    exact isFiniteTimestamp_of_le finite (by linarith) (Int.floor_le everyMs)
  refine ⟨every, positive, ?_⟩
  have opened : ∀ u, computeJobNextEveryMs cron job everyMs anchorMs u =
      job.state.lastRunAtMs.elim (countedEvery cron a ⌊everyMs⌋ u) fun last =>
        if isFiniteTimestamp last && decide ((a : Millis) ≤ last) then
          if !isFiniteTimestamp (⌊last⌋ + ⌊everyMs⌋ : Millis) then .ok none
          else if u < ⌊last⌋ + ⌊everyMs⌋ then .ok (some (⌊last⌋ + ⌊everyMs⌋))
          else countedEvery cron a ⌊everyMs⌋ u
        else countedEvery cron a ⌊everyMs⌋ u := by
    intro u
    rw [computeJobNextEveryMs, if_neg invalid, if_neg bad, anchor]
    cases job.state.lastRunAtMs with
    | none => rfl
    | some => rfl
  cases ran : job.state.lastRunAtMs with
  | none =>
      refine .inr ⟨fun last counts => ?_, fun u => ?_⟩
      · rw [counts.1] at ran
        cases ran
      · rw [opened, ran]
        rfl
  | some last =>
      by_cases counts : (isFiniteTimestamp last && decide ((a : Millis) ≤ last)) = true
      · refine .inl ⟨last, ⟨ran, by simpa using counts⟩, fun u => ?_⟩
        have finite' : ¬ (!isFiniteTimestamp (⌊last⌋ + ⌊everyMs⌋ : Millis)) = true := by
          intro infinite
          rw [opened, ran, Option.elim_some, if_pos counts, if_pos infinite] at next
          cases next
        rw [opened, ran, Option.elim_some, if_pos counts, if_neg finite']
      · refine .inr ⟨fun other counts' => ?_, fun u => ?_⟩
        · rw [counts'.1] at ran
          obtain rfl := Option.some.inj ran
          exact counts (by simpa using counts'.2)
        · rw [opened, ran]
          exact if_neg counts

theorem countedEvery_stable (every : isFiniteTimestamp e = true) (positive : 1 ≤ e) (nonneg : 0 ≤ a)
    (anchor : isFiniteTimestamp a = true) (next : countedEvery cron a e t = .ok (some n)) :
    IsLeast (After (EverySlots a e) t) n ∧
      ∀ u, t ≤ u → u < n → countedEvery cron a e u = .ok (some n) := by
  have finite : isFiniteTimestamp t = true := by
    by_contra infinite
    rw [countedEvery, computeNextRunAtMs, if_pos (by simpa using infinite)] at next
    cases next
  obtain ⟨m, least, same⟩ := counted_eq cron finite every positive nonneg anchor
  have date : asDateTimestampMs m = some n := Except.ok.inj (same.symm.trans next)
  have finiteM : isFiniteTimestamp m = true ∧ m = n := by
    unfold asDateTimestampMs at date
    split at date
    · cases date
      exact ⟨‹_›, rfl⟩
    · cases date
  obtain ⟨finiteN, rfl⟩ := finiteM
  refine ⟨least, fun u le before => ?_⟩
  have finiteU : isFiniteTimestamp u = true := by
    have low := (isFiniteTimestamp_iff.mp finite).1
    have high := (isFiniteTimestamp_iff.mp finiteN).2
    exact isFiniteTimestamp_iff.mpr ⟨low.trans le, before.le.trans high⟩
  obtain ⟨m', least', same'⟩ := counted_eq cron finiteU every positive nonneg anchor
  have same_ : m' = m := least'.unique (isLeast_after_of_le least le before)
  have date' : asDateTimestampMs m = some m := if_pos finiteN
  rw [countedEvery, same', same_, date']

/-- A recurring job with a known anchor has one next run, which stays until it is reached. -/
theorem every_nextRun (enabled : job.isEnabled = true) (schedule : job.schedule = .every everyMs anchorMs)
    (known : KnownAnchor job anchorMs) (next : computeJobNextRunAtMs cron job t = .ok (some n)) :
    t < n ∧ (∀ u, t ≤ u → u < n → computeJobNextRunAtMs cron job u = .ok (some n)) ∧
      IntervalRun job (job.everyAnchorMs anchorMs t) ⌊everyMs⌋ t n := by
  obtain ⟨a, nonneg, finiteA, anchor⟩ := everyAnchorMs_eq known
  have opened : ∀ u, computeJobNextRunAtMs cron job u =
      computeJobNextEveryMs cron job everyMs anchorMs u := by
    intro u
    rw [computeJobNextRunAtMs, enabled, schedule]
    rfl
  rw [opened] at next
  rw [anchor]
  simp only [opened]
  obtain ⟨every, positive, cases_⟩ := computeJobNextEveryMs_cases anchor next
  rcases cases_ with ⟨last, counts, eq⟩ | ⟨none_, eq⟩
  · have only : ∀ other, CountsFrom job a other → other = last := fun other counts' =>
      Option.some.inj (counts'.1.symm.trans counts.1)
    rw [eq] at next
    simp only [eq]
    by_cases ahead : t < ⌊last⌋ + ⌊everyMs⌋
    · rw [if_pos ahead] at next
      obtain rfl := Option.some.inj (Except.ok.inj next)
      refine ⟨ahead, fun u _ before => if_pos before, fun other counts' _ => ?_, fun past => ?_⟩
      · rw [only other counts']
      · exact absurd ahead (not_lt.mpr (past last counts))
    · rw [if_neg ahead] at next
      obtain ⟨least, stable⟩ := countedEvery_stable every positive nonneg finiteA next
      refine ⟨least.1.2, fun u le before => ?_, fun other counts' ahead' => ?_,
        fun _ => fromAnchor_of_isLeast positive least⟩
      · rw [if_neg (not_lt.mpr ((not_lt.mp ahead).trans le))]
        exact stable u le before
      · rw [only other counts'] at ahead'
        exact absurd ahead' ahead
  · rw [eq] at next
    simp only [eq]
    obtain ⟨least, stable⟩ := countedEvery_stable every positive nonneg finiteA next
    exact ⟨least.1.2, stable, fun last counts => absurd counts (none_ last),
      fun _ => fromAnchor_of_isLeast positive least⟩

/-- An expression whose one slot is the last date. -/
def lastDateCron : CronSupport where
  nextRun := fun _ t => .ok (if t < MAX_DATE_TIMESTAMP_MS then some MAX_DATE_TIMESTAMP_MS else none)
  previousRun := fun _ _ => .ok none
  readUInt32BE := fun _ => 0
  isRecurringTopOfHour := fun _ => false

theorem lastDateCron_answers (spec : CronExpr) :
    Answers lastDateCron spec {MAX_DATE_TIMESTAMP_MS} where
  wholeSeconds := by
    rintro _ rfl
    exact ⟨8640000000000, by norm_num [MAX_DATE_TIMESTAMP_MS]⟩
  dates := by
    rintro _ rfl
    exact isFiniteTimestamp_iff.mpr ⟨by norm_num [MAX_DATE_TIMESTAMP_MS], le_rfl⟩
  next := by
    intro t _
    by_cases before : t < MAX_DATE_TIMESTAMP_MS
    · refine .inl ⟨_, by simp only [lastDateCron, if_pos before], ⟨rfl, before⟩, ?_⟩
      rintro _ ⟨rfl, _⟩
      exact le_rfl
    · refine .inr ⟨by simp only [lastDateCron, if_neg before], Set.eq_empty_of_forall_notMem ?_⟩
      rintro _ ⟨rfl, later⟩
      exact before later
  previous := by
    intro t finite
    refine .inr ⟨rfl, Set.eq_empty_of_forall_notMem ?_⟩
    rintro _ ⟨rfl, later⟩
    exact absurd later (not_lt.mpr ((wholeSecond_le t).trans (isFiniteTimestamp_iff.mp finite).2))

def lastDateJob : Job where
  id := "nightly"
  createdAtMs := 0
  schedule := .cron { expr := "0 0 1 1 *" }

/-- A recurring job whose last run is before its anchor. -/
def reanchoredJob : Job where
  id := "poll"
  createdAtMs := 0
  schedule := .every 100 (some 10)
  state := { lastRunAtMs := some 5 }

theorem reanchoredJob_nextRun : computeJobNextRunAtMs lastDateCron reanchoredJob 50 = .ok (some 110) := by
  decide +kernel

theorem offsetMs_lastDateJob (spec : CronExpr) : offsetMs lastDateCron lastDateJob.id spec = 0 := by
  unfold offsetMs resolveStableCronOffsetMs
  split
  · rfl
  · exact Nat.zero_mod _

theorem lastDateJob_nextRun :
    computeJobNextRunAtMs lastDateCron lastDateJob 0 = .ok (some MAX_DATE_TIMESTAMP_MS) := by
  decide +kernel

end OpenClaw.CronSchedule
