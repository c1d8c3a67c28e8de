import OpenClaw.CronSchedule.Intervals
import OpenClaw.CronSchedule.Maintenance

/-!
What maintenance keeps. A slot that is due and was not executed stays the next run, and so does
a slot that is held back; a second maintenance at the same time finds nothing to do, since what
a stage cleared stays cleared and the next run is computed from fields that no stage writes.
-/

namespace OpenClaw.CronSchedule

variable {cron : CronSupport} {service : Service} {opts : CronMaintenanceOptions} {now : Millis}
  {job : Job}

/-- The slot of the next run is due, its run is not the last one, and no backoff holds it. -/
structure DueUnexecuted (now : Millis) (job : Job) : Prop where
  scheduled : hasScheduledNextRunAtMs job.state.nextRunAtMs = true
  due : ∀ next ∈ job.state.nextRunAtMs, next ≤ now
  unexecuted : ∀ next ∈ job.state.nextRunAtMs, ∀ last ∈ job.state.lastRunAtMs, last < next
  unheld : ∀ backoffUntil ∈ resolveJobErrorBackoffUntilMs job, backoffUntil ≤ now

/-- The stored anchor of an interval is the one it is counted from. -/
def IsAnchored (now : Millis) (job : Job) : Prop :=
  ∀ everyMs anchorMs, job.schedule = .every everyMs anchorMs →
    hasInvalidExplicitEveryAnchor anchorMs = false → anchorMs = some (job.everyAnchorMs anchorMs now)

/-- The next run is a slot that is held back. -/
inductive PendingSlot (opts : CronMaintenanceOptions) (now : Millis) (job : Job) : Prop where
  | startupCatchup (pending : isNextRun job.state.startupCatchupAtMs job = true)
  | forcePreserved (pending : isNextRun job.state.forcePreservedNextRunAtMs job = true)
      (kept : IsAnchored now job ∨ opts.recomputeExpired = false ∨
        ∀ backoffUntil ∈ resolveJobErrorBackoffUntilMs job, backoffUntil ≤ now)
  | paced (pending : isNextRun job.state.pacedNextRunAtMs job = true)
      (unexpired : ∀ slot ∈ job.state.pacedNextRunAtMs, now < slot)

/-- A stream has no source to watch. -/
def IsUnnamed (job : Job) : Prop :=
  job.schedule = .stream ∧ ∀ identity ∈ job.state.streamSourceIdentity, JsText.trim identity = ""

def openTick (service : Service) (now : Millis) (job : Job) : Job :=
  normalizeEveryAnchor now (assignStreamSourceIdentity service job)

theorem assignStreamSourceIdentity_cases (service : Service) (job : Job) : ∃ identity,
    assignStreamSourceIdentity service job =
        { job with state := { job.state with streamSourceIdentity := identity } } ∧
      ¬ IsUnnamed { job with state := { job.state with streamSourceIdentity := identity } } := by
  by_cases unnamed : IsUnnamed job
  · refine ⟨_, if_pos unnamed, fun again => ?_⟩
    exact (service.createCronStreamSourceIdentity job.id).2 (again.2 _ rfl)
  · exact ⟨_, if_neg unnamed, unnamed⟩

/-- An interval is anchored anew unless it is anchored. -/
theorem normalizeEveryAnchor_cases :
    IsAnchored now job ∧ normalizeEveryAnchor now job = job ∨
      ¬ IsAnchored now job ∧ ∃ everyMs anchorMs, normalizeEveryAnchor now job =
        { job with
          schedule := .every everyMs (some (job.everyAnchorMs anchorMs now))
          state := { job.state with pacedNextRunAtMs := none, forcePreservedNextRunAtMs := none } } := by
  unfold normalizeEveryAnchor
  split
  case h_1 everyMs anchorMs schedule =>
    have only : ∀ {everyMs' anchorMs'}, job.schedule = .every everyMs' anchorMs' →
        anchorMs' = anchorMs := by
      intro _ _ same
      rw [schedule] at same
      cases same
      rfl
    split
    case isTrue invalid =>
      refine .inl ⟨fun everyMs' anchorMs' same valid => ?_, rfl⟩
      rw [only same, invalid] at valid
      cases valid
    case isFalse valid =>
      dsimp only
      split
      case isTrue anchored =>
        refine .inl ⟨fun everyMs' anchorMs' same _ => ?_, rfl⟩
        rw [only same]
        exact anchored
      case isFalse moved =>
        refine .inr ⟨fun anchored => moved ?_, _, _, rfl⟩
        exact anchored everyMs anchorMs schedule (by simpa using valid)
  case h_2 notEvery =>
    exact .inl ⟨fun everyMs anchorMs schedule => absurd schedule (notEvery everyMs anchorMs), rfl⟩

/-- Opening a job names the source of a stream, or anchors an interval anew. -/
theorem openTick_cases (service : Service) (now : Millis) (job : Job) : ∃ identity,
    openTick service now job =
        { job with state := { job.state with streamSourceIdentity := identity } } ∨
      ¬ IsAnchored now job ∧ ∃ everyMs anchorMs, openTick service now job =
        { job with
          schedule := .every everyMs anchorMs
          state := { job.state with
            streamSourceIdentity := identity
            pacedNextRunAtMs := none
            forcePreservedNextRunAtMs := none } } := by
  obtain ⟨identity, named, _⟩ := assignStreamSourceIdentity_cases service job
  refine ⟨identity, ?_⟩
  rw [openTick, named]
  rcases normalizeEveryAnchor_cases with ⟨_, same⟩ | ⟨moved, everyMs, anchorMs, anchored⟩
  · exact .inl same
  · exact .inr ⟨moved, everyMs, _, anchored⟩

/-- Streams have a source and intervals are anchored. -/
structure IsOpened (now : Millis) (job : Job) : Prop where
  named : ¬ IsUnnamed job
  anchored : IsAnchored now job

theorem openTick_eq (opened : IsOpened now job) : openTick service now job = job := by
  have named : assignStreamSourceIdentity service job = job := if_neg opened.named
  rw [openTick, named]
  rcases normalizeEveryAnchor_cases with ⟨_, same⟩ | ⟨moved, _⟩
  · exact same
  · exact absurd opened.anchored moved

theorem resolveEveryAnchorMs_whole (anchorMs : Option Millis) (fallback : Millis) :
    ∃ a : Int, 0 ≤ a ∧ isFiniteTimestamp a = true ∧ resolveEveryAnchorMs anchorMs fallback = a := by
  unfold resolveEveryAnchorMs
  split
  case h_1 coerced eq =>
    obtain ⟨given, _, same⟩ := Option.bind_eq_some_iff.mp eq
    have finite : isFiniteTimestamp coerced = true := by
      unfold asDateTimestampMs at same
      split at same
      · cases same
        assumption
      · cases same
    exact ⟨_, le_max_left 0 _, floor_finite finite, rfl⟩
  case h_2 =>
    split
    case isTrue finite => exact ⟨_, le_max_left 0 _, floor_finite finite, rfl⟩
    case isFalse => exact ⟨0, le_rfl, by decide +kernel, by simp⟩

theorem resolveEveryAnchorMs_fixed (anchorMs : Option Millis) (fallback other : Millis) :
    resolveEveryAnchorMs (some (resolveEveryAnchorMs anchorMs fallback)) other =
      resolveEveryAnchorMs anchorMs fallback := by
  obtain ⟨a, nonneg, finite, eq⟩ := resolveEveryAnchorMs_whole anchorMs fallback
  have date : asDateTimestampMs (a : Millis) = some (a : Millis) := if_pos finite
  rw [eq, resolveEveryAnchorMs, Option.bind_some, date]
  simp [nonneg]

theorem isOpened_openTick : IsOpened now (openTick service now job) := by
  obtain ⟨identity, named, source⟩ := assignStreamSourceIdentity_cases service job
  rw [openTick, named]
  rcases normalizeEveryAnchor_cases with ⟨anchored, same⟩ | ⟨_, everyMs, anchorMs, same⟩
  · rw [same]
    exact ⟨source, anchored⟩
  · rw [same]
    refine ⟨?_, ?_⟩
    · rintro ⟨stream, _⟩
      cases stream
    · rintro _ _ ⟨⟩ _
      exact congrArg some (resolveEveryAnchorMs_fixed _ _ _).symm

def normalizedTick (service : Service) (now : Millis) (job : Job) : Job :=
  clearStuckRunning service now (clearStuckQueued service now
    (clearForcePreserved (clearUnscheduledNextRun (openTick service now job))))

/-- The job that a next run is computed for. -/
def prepared (service : Service) (opts : CronMaintenanceOptions) (now : Millis) (job : Job) : Job :=
  clearPacedNextRun opts now (clearStartupCatchup (normalizedTick service now job))

/-- A run that is stuck and whose slot was not executed stops maintenance for once. -/
def StopsAtStuckRun (service : Service) (now : Millis) (job : Job) : Bool :=
  hasStuckRun service now job && !alreadyExecutedSlot (normalizedTick service now job)

theorem openTick_isEnabled : (openTick service now job).isEnabled = job.isEnabled := by
  obtain ⟨_, same | ⟨_, _, _, same⟩⟩ := openTick_cases service now job
  · rw [same]
    rfl
  · rw [same]
    rfl

theorem hasStuckRun_openTick :
    hasStuckRun service now (openTick service now job) = hasStuckRun service now job := by
  obtain ⟨_, same | ⟨_, _, _, same⟩⟩ := openTick_cases service now job
  · rw [same]
    rfl
  · rw [same]
    rfl

def openedTick (service : Service) (now : Millis) (job : Job) : Tracked :=
  ((Tracked.start job).through (assignStreamSourceIdentity service)).through (normalizeEveryAnchor now)

theorem normalizeJobTickState_disabled (service : Service) (now : Millis)
    (disabled : job.isEnabled = false) :
    (normalizeJobTickState service now job).1.job = clearDisabled service (openTick service now job) ∧
      (normalizeJobTickState service now job).2 = true := by
  have opened : (!(openTick service now job).isEnabled) = true := by
    rw [openTick_isEnabled, disabled]
    rfl
  have stopped : normalizeJobTickState service now job =
      ((openedTick service now job).through (clearDisabled service), true) := if_pos opened
  rw [stopped]
  exact ⟨rfl, rfl⟩

theorem normalizeJobTickState_enabled (service : Service) (now : Millis)
    (enabled : job.isEnabled = true) :
    (normalizeJobTickState service now job).1.job = normalizedTick service now job ∧
      (normalizeJobTickState service now job).2 = StopsAtStuckRun service now job := by
  have opened : ¬ (!(openTick service now job).isEnabled) = true := by
    rw [openTick_isEnabled, enabled]
    decide
  rw [StopsAtStuckRun, ← hasStuckRun_openTick]
  have passed : normalizeJobTickState service now job =
      ((((openedTick service now job).through clearUnscheduledNextRun).through
        clearForcePreserved).through (clearStuckQueued service now) |>.through
        (clearStuckRunning service now),
        hasStuckRun service now (openTick service now job) &&
          !alreadyExecutedSlot (normalizedTick service now job)) := if_neg opened
  rw [passed]
  exact ⟨rfl, rfl⟩

theorem maintained_disabled (disabled : job.isEnabled = false) :
    (recomputeSingleJobForMaintenance cron service opts job).job =
      clearDisabled service (openTick service (opts.nowMs.getD service.clockMs) job) := by
  obtain ⟨tick, skips⟩ := normalizeJobTickState_disabled service
    (opts.nowMs.getD service.clockMs) disabled
  unfold recomputeSingleJobForMaintenance
  dsimp only
  rw [if_pos skips, tick]

theorem maintained_enabled (enabled : job.isEnabled = true) (clock : opts.nowMs.getD service.clockMs = now) :
    (recomputeSingleJobForMaintenance cron service opts job).job =
      if StopsAtStuckRun service now job then normalizedTick service now job
      else if needsRecompute cron service opts now (normalizedTick service now job)
          (prepared service opts now job) then
        recomputeJobNextRunAtMs cron service opts now (prepared service opts now job)
      else prepared service opts now job := by
  obtain ⟨tick, skips⟩ := normalizeJobTickState_enabled service now enabled
  unfold recomputeSingleJobForMaintenance
  dsimp only
  rw [clock]
  generalize normalizeJobTickState service now job = normalized at tick skips
  obtain ⟨⟨tickJob, changed⟩, skip⟩ := normalized
  obtain rfl : tickJob = normalizedTick service now job := tick
  obtain rfl : skip = StopsAtStuckRun service now job := skips
  rw [apply_ite Tracked.job, apply_ite Tracked.job]
  rfl

theorem isNextRun_iff {slot : Option Millis} : isNextRun slot job = true ↔
    ∃ next, slot = some next ∧ isFiniteTimestamp next = true ∧
      hasScheduledNextRunAtMs job.state.nextRunAtMs = true ∧ job.state.nextRunAtMs = some next := by
  cases slot with
  | none => simp [isNextRun]
  | some next => simp [isNextRun, and_assoc]

/-- Only a future slot of an expression is stale. -/
theorem isStaleFutureCronSlot_inv (stale : isStaleFutureCronSlot cron job now = true) :
    (∃ spec, job.schedule = .cron spec) ∧ ∀ next ∈ job.state.nextRunAtMs, now < next := by
  unfold isStaleFutureCronSlot at stale
  split at stale
  case h_1 spec next schedule nextRun =>
    refine ⟨⟨spec, schedule⟩, fun other same => ?_⟩
    obtain rfl : next = other := Option.some.inj (nextRun.symm.trans same)
    split at stale
    · cases stale
    case isFalse future =>
      simp only [Bool.or_eq_true, not_or] at future
      simpa using future.1.1.1.2
  case h_2 => cases stale

/-- A slot is repaired once it is past and its run was the last one, or a backoff holds it. -/
theorem isExpiredCronScheduleRepairCandidate_inv
    (expired : isExpiredCronScheduleRepairCandidate service job now = true) :
    ∃ next, job.state.nextRunAtMs = some next ∧ hasScheduledNextRunAtMs (some next) = true ∧
      next ≤ now ∧ job.state.startupCatchupAtMs ≠ some next ∧
      job.state.forcePreservedNextRunAtMs ≠ some next ∧
      ((∃ last, job.state.lastRunAtMs = some last ∧ isFiniteTimestamp last = true ∧ next ≤ last) ∨
        ∃ backoffUntil, resolveJobErrorBackoffUntilMs job = some backoffUntil ∧ now < backoffUntil) := by
  unfold isExpiredCronScheduleRepairCandidate at expired
  split at expired
  case h_1 => cases expired
  case h_2 next nextRun =>
    simp only [Bool.and_eq_true, Bool.or_eq_true, decide_eq_true_eq, Option.any_eq_true] at expired
    obtain ⟨⟨⟨⟨⟨scheduled, due⟩, _⟩, startup⟩, preserved⟩, reason⟩ := expired
    refine ⟨next, nextRun, scheduled, due, startup, preserved, reason.imp ?_ ?_⟩
    · rintro ⟨last, ran, finite, le⟩
      exact ⟨last, ran, finite, le⟩
    · rintro ⟨backoffUntil, held, before, _⟩
      exact ⟨backoffUntil, held, before⟩

/-- What the normalized and the prepared job keep of the stored one. -/
structure KeepsRun (before after : Job) : Prop where
  nextRun : after.state.nextRunAtMs =
    before.state.nextRunAtMs.filter fun next => hasScheduledNextRunAtMs (some next)
  lastRun : after.state.lastRunAtMs = before.state.lastRunAtMs
  backoff : resolveJobErrorBackoffUntilMs after = resolveJobErrorBackoffUntilMs before
  cronOnly : ∀ spec, after.schedule = .cron spec → before.schedule = .cron spec

theorem keepsRun_normalizedTick (service : Service) (now : Millis) (job : Job) :
    KeepsRun job (normalizedTick service now job) := by
  obtain ⟨_, same | ⟨_, _, _, same⟩⟩ := openTick_cases service now job
  · rw [normalizedTick, same]
    exact ⟨rfl, rfl, rfl, fun _ schedule => schedule⟩
  · rw [normalizedTick, same]
    exact ⟨rfl, rfl, rfl, fun _ schedule => absurd schedule (by rintro ⟨⟩)⟩

theorem keepsRun_prepared (service : Service) (opts : CronMaintenanceOptions) (now : Millis)
    (job : Job) : KeepsRun job (prepared service opts now job) :=
  let ⟨nextRun, lastRun, backoff, cronOnly⟩ := keepsRun_normalizedTick service now job
  ⟨nextRun, lastRun, backoff, cronOnly⟩

theorem KeepsRun.scheduled {before after : Job} (keeps : KeepsRun before after)
    (scheduled : hasScheduledNextRunAtMs before.state.nextRunAtMs = true) :
    after.state.nextRunAtMs = before.state.nextRunAtMs := by
  rw [keeps.nextRun]
  cases next : before.state.nextRunAtMs with
  | none => rfl
  | some next' =>
      rw [next] at scheduled
      rw [Option.filter_some, if_pos scheduled]

/-- Without a reason to compute it again the next run stays. -/
theorem maintained_nextRun (enabled : job.isEnabled = true)
    (clock : opts.nowMs.getD service.clockMs = now)
    (scheduled : hasScheduledNextRunAtMs job.state.nextRunAtMs = true)
    (unneeded : needsRecompute cron service opts now (normalizedTick service now job)
      (prepared service opts now job) = false) :
    (recomputeSingleJobForMaintenance cron service opts job).job.state.nextRunAtMs =
      job.state.nextRunAtMs := by
  rw [maintained_enabled enabled clock, unneeded]
  split
  · exact (keepsRun_normalizedTick service now job).scheduled scheduled
  · exact (keepsRun_prepared service opts now job).scheduled scheduled

/-- A next run is computed again if it is stale or if it is expired. -/
theorem needsRecompute_eq_false {tick : Job}
    (scheduled : hasScheduledNextRunAtMs job.state.nextRunAtMs = true)
    (fresh : ¬ (hasPendingStartupCatchup tick = false ∧ hasPendingPacedNextRun opts now tick = false ∧
      hasForcePreservedNextRun tick = false ∧ isStaleFutureCronSlot cron job now = true))
    (unexpired : opts.recomputeExpired = true →
      isExpiredCronScheduleRepairCandidate service job now = false) :
    needsRecompute cron service opts now tick job = false := by
  rw [needsRecompute, if_neg (by simp [scheduled]), if_neg]
  · cases expired : opts.recomputeExpired with
    | false => rfl
    | true => rw [unexpired expired, Bool.and_false]
  · intro stale
    simp only [Bool.and_eq_true, Bool.not_eq_true'] at stale
    exact fresh ⟨stale.1.1.1.2, stale.1.1.2, stale.1.2, stale.2⟩

theorem due_kept (enabled : job.isEnabled = true) (clock : opts.nowMs.getD service.clockMs = now)
    (due : DueUnexecuted now job) :
    (recomputeSingleJobForMaintenance cron service opts job).job.state.nextRunAtMs =
      job.state.nextRunAtMs := by
  have keeps := keepsRun_prepared service opts now job
  have same := keeps.scheduled due.scheduled
  refine maintained_nextRun enabled clock due.scheduled
    (needsRecompute_eq_false (by rw [same]; exact due.scheduled) ?_ fun _ => ?_)
  · rintro ⟨_, _, _, stale⟩
    obtain ⟨next, nextRun⟩ : ∃ next, job.state.nextRunAtMs = some next := by
      have scheduled := due.scheduled
      cases nextRun : job.state.nextRunAtMs with
      | none =>
          rw [nextRun] at scheduled
          cases scheduled
      | some next => exact ⟨next, rfl⟩
    have future := (isStaleFutureCronSlot_inv stale).2 next (same.trans nextRun)
    exact absurd (due.due next nextRun) (not_le.mpr future)
  · rw [Bool.eq_false_iff]
    intro expired
    obtain ⟨next, nextRun, _, _, _, _, reason⟩ := isExpiredCronScheduleRepairCandidate_inv expired
    rw [same] at nextRun
    rw [keeps.lastRun, keeps.backoff] at reason
    rcases reason with ⟨last, ran, _, le⟩ | ⟨backoffUntil, held, before⟩
    · exact absurd (due.unexecuted next nextRun last ran) (not_lt.mpr le)
    · exact absurd (due.unheld backoffUntil held) (not_le.mpr before)

theorem normalizedTick_cases (service : Service) (now : Millis) (job : Job) :
    (normalizedTick service now job).state.startupCatchupAtMs = job.state.startupCatchupAtMs ∧
      ((normalizedTick service now job).state.pacedNextRunAtMs = job.state.pacedNextRunAtMs ∧
          (normalizedTick service now job).state.forcePreservedNextRunAtMs =
            job.state.forcePreservedNextRunAtMs.filter (fun preserved => isFiniteTimestamp preserved &&
              (normalizedTick service now job).state.nextRunAtMs = some preserved) ∨
        ¬ IsAnchored now job ∧ ∀ spec, (normalizedTick service now job).schedule ≠ .cron spec) := by
  obtain ⟨_, same | ⟨moved, _, _, same⟩⟩ := openTick_cases service now job
  · rw [normalizedTick, same]
    exact ⟨rfl, .inl ⟨rfl, rfl⟩⟩
  · rw [normalizedTick, same]
    exact ⟨rfl, .inr ⟨moved, by rintro _ ⟨⟩⟩⟩

theorem isNextRun_normalizedTick (service : Service) (now : Millis) {slot : Option Millis}
    (pending : isNextRun slot job = true) :
    isNextRun slot (normalizedTick service now job) = true := by
  obtain ⟨next, same, finite, scheduled, nextRun⟩ := isNextRun_iff.mp pending
  have kept := (keepsRun_normalizedTick service now job).scheduled scheduled
  exact isNextRun_iff.mpr ⟨next, same, finite, by rw [kept]; exact scheduled, kept.trans nextRun⟩

theorem hasForcePreservedNextRun_normalizedTick
    (force : (normalizedTick service now job).state.forcePreservedNextRunAtMs =
      job.state.forcePreservedNextRunAtMs.filter fun preserved => isFiniteTimestamp preserved &&
        (normalizedTick service now job).state.nextRunAtMs = some preserved)
    (pending : isNextRun job.state.forcePreservedNextRunAtMs job = true) :
    (normalizedTick service now job).state.forcePreservedNextRunAtMs =
        job.state.forcePreservedNextRunAtMs ∧
      hasForcePreservedNextRun (normalizedTick service now job) = true := by
  have held := isNextRun_normalizedTick service now pending
  obtain ⟨next, same, finite, _, nextRun⟩ := isNextRun_iff.mp held
  have kept : (normalizedTick service now job).state.forcePreservedNextRunAtMs = some next := by
    rw [force, same, nextRun]
    simp [finite]
  refine ⟨kept.trans same.symm, ?_⟩
  rw [hasForcePreservedNextRun, kept, ← same]
  exact held

theorem unexecuted_of {next last : Millis} (unexecuted : alreadyExecutedSlot job = false)
    (nextRun : job.state.nextRunAtMs = some next) (scheduled : hasScheduledNextRunAtMs (some next) = true)
    (ran : job.state.lastRunAtMs = some last) (finite : isFiniteTimestamp last = true) : last < next := by
  rw [alreadyExecutedSlot, nextRun, ran] at unexecuted
  simpa [scheduled, finite] using unexecuted

theorem pending_unexpired (unexecuted : alreadyExecutedSlot job = false)
    (pending : PendingSlot opts now job) (repairs : opts.recomputeExpired = true) :
    isExpiredCronScheduleRepairCandidate service (prepared service opts now job) now = false := by
  have keeps := keepsRun_prepared service opts now job
  obtain ⟨startup, slots⟩ := normalizedTick_cases service now job
  rw [Bool.eq_false_iff]
  intro expired
  obtain ⟨next, nextRun, scheduled, due, startupFree, forceFree, reason⟩ :=
    isExpiredCronScheduleRepairCandidate_inv expired
  cases pending with
  | startupCatchup pending =>
      obtain ⟨slot, same, _, scheduled', stored⟩ := isNextRun_iff.mp pending
      have held := isNextRun_normalizedTick service now pending
      rw [keeps.scheduled scheduled', stored] at nextRun
      obtain rfl := Option.some.inj nextRun
      rw [same] at held
      apply startupFree
      calc (prepared service opts now job).state.startupCatchupAtMs
          = (normalizedTick service now job).state.startupCatchupAtMs.filter fun _ =>
              hasPendingStartupCatchup (normalizedTick service now job) := rfl
        _ = some slot := by simp [hasPendingStartupCatchup, startup, same, held]
  | forcePreserved pending kept =>
      obtain ⟨slot, same, _, scheduled', stored⟩ := isNextRun_iff.mp pending
      have sameNext := keeps.scheduled scheduled'
      rcases slots with ⟨_, force⟩ | ⟨moved, _⟩
      · obtain ⟨kept', _⟩ := hasForcePreservedNextRun_normalizedTick force pending
        refine forceFree (kept'.trans (same.trans ?_))
        rw [← stored, ← sameNext, nextRun]
      · rw [sameNext] at nextRun
        rw [keeps.lastRun, keeps.backoff] at reason
        rcases reason with ⟨last, ran, finite, le⟩ | ⟨backoffUntil, held, before⟩
        · exact absurd (unexecuted_of unexecuted nextRun scheduled ran finite) (not_lt.mpr le)
        · rcases kept.resolve_left moved with off | unheld
          · rw [off] at repairs
            cases repairs
          · exact absurd (unheld backoffUntil held) (not_le.mpr before)
  | paced pending unexpired =>
      obtain ⟨slot, same, _, scheduled', stored⟩ := isNextRun_iff.mp pending
      rw [keeps.scheduled scheduled', stored] at nextRun
      obtain rfl := Option.some.inj nextRun
      exact absurd due (not_le.mpr (unexpired slot same))

/-- A slot that is held back stays, unless its run was the last one. -/
theorem pending_kept (enabled : job.isEnabled = true) (clock : opts.nowMs.getD service.clockMs = now)
    (unexecuted : alreadyExecutedSlot job = false) (pending : PendingSlot opts now job) :
    (recomputeSingleJobForMaintenance cron service opts job).job.state.nextRunAtMs =
      job.state.nextRunAtMs := by
  obtain ⟨startup, slots⟩ := normalizedTick_cases service now job
  have scheduled : hasScheduledNextRunAtMs job.state.nextRunAtMs = true := by
    rcases pending with pending | ⟨pending, _⟩ | ⟨pending, _⟩
    all_goals
      obtain ⟨_, _, _, scheduled, _⟩ := isNextRun_iff.mp pending
      exact scheduled
  have same := (keepsRun_prepared service opts now job).scheduled scheduled
  refine maintained_nextRun enabled clock scheduled
    (needsRecompute_eq_false (by rw [same]; exact scheduled) ?_ (pending_unexpired unexecuted pending))
  rintro ⟨startupFree, pacedFree, forceFree, stale⟩
  obtain ⟨⟨spec, schedule⟩, _⟩ := isStaleFutureCronSlot_inv stale
  cases pending with
  | startupCatchup pending =>
      rw [hasPendingStartupCatchup, startup, isNextRun_normalizedTick service now pending] at startupFree
      cases startupFree
  | forcePreserved pending _ =>
      rcases slots with ⟨_, force⟩ | ⟨_, every⟩
      · rw [(hasForcePreservedNextRun_normalizedTick force pending).2] at forceFree
        cases forceFree
      · exact every spec schedule
  | paced pending unexpired =>
      rcases slots with ⟨paced, _⟩ | ⟨_, every⟩
      · obtain ⟨slot, stored, _⟩ := isNextRun_iff.mp pending
        have held := isNextRun_normalizedTick service now pending
        have before := unexpired slot stored
        rw [hasPendingPacedNextRun, paced, held, stored] at pacedFree
        simp [before] at pacedFree
      · exact every spec schedule

end OpenClaw.CronSchedule
