import OpenClaw.CronSchedule.Kept

/-!
A second maintenance at the same time. A tidy job passes through the stages unchanged, the
prepared job is tidy, and a next run that was computed again has cleared every slot, so that it
is computed to the same value once more.
-/

namespace OpenClaw.CronSchedule

variable {cron : CronSupport} {service : Service} {opts : CronMaintenanceOptions} {now : Millis}
  {job : Job}

/-- No stage before the next run is computed changes the job. -/
structure IsTidy (service : Service) (opts : CronMaintenanceOptions) (now : Millis) (job : Job) :
    Prop where
  opened : IsOpened now job
  nextRun : clearUnscheduledNextRun job = job
  preserved : clearForcePreserved job = job
  queued : clearStuckQueued service now job = job
  running : clearStuckRunning service now job = job
  startup : clearStartupCatchup job = job
  paced : clearPacedNextRun opts now job = job

theorem filter_filter_self {α : Type} (p : α → Bool) (o : Option α) :
    (o.filter p).filter p = o.filter p := by
  rw [Option.filter_filter]
  simp

theorem filter_kept {α : Type} (o : Option α) : (o.filter fun _ => true) = o := by
  cases o with
  | none => rfl
  | some => rfl

theorem clearUnscheduledNextRun_eq
    (fixed : job.state.nextRunAtMs.filter (fun next => hasScheduledNextRunAtMs (some next)) =
      job.state.nextRunAtMs) : clearUnscheduledNextRun job = job := by
  rw [clearUnscheduledNextRun, fixed]

theorem clearForcePreserved_eq
    (fixed : job.state.forcePreservedNextRunAtMs.filter (fun preserved =>
      isFiniteTimestamp preserved && job.state.nextRunAtMs = some preserved) =
      job.state.forcePreservedNextRunAtMs) : clearForcePreserved job = job := by
  rw [clearForcePreserved, fixed]

theorem clearStuckQueued_eq
    (fixed : job.state.queuedAtMs.filter (fun at_ => !isStuckMarker service job.id now at_) =
      job.state.queuedAtMs) : clearStuckQueued service now job = job := by
  rw [clearStuckQueued, fixed]

theorem clearStuckRunning_eq
    (fixed : job.state.runningAtMs.filter (fun at_ => !isStuckMarker service job.id now at_) =
      job.state.runningAtMs) : clearStuckRunning service now job = job := by
  rw [clearStuckRunning, fixed]

theorem clearStartupCatchup_eq
    (fixed : job.state.startupCatchupAtMs = none ∨ hasPendingStartupCatchup job = true) :
    clearStartupCatchup job = job := by
  have same : job.state.startupCatchupAtMs.filter (fun _ => hasPendingStartupCatchup job) =
      job.state.startupCatchupAtMs := by
    rcases fixed with none_ | pending
    · rw [none_]
      rfl
    · rw [pending]
      exact filter_kept _
  rw [clearStartupCatchup, same]

theorem clearPacedNextRun_eq
    (fixed : job.state.pacedNextRunAtMs = none ∨ hasPendingPacedNextRun opts now job = true) :
    clearPacedNextRun opts now job = job := by
  have same : job.state.pacedNextRunAtMs.filter (fun _ => hasPendingPacedNextRun opts now job) =
      job.state.pacedNextRunAtMs := by
    rcases fixed with none_ | pending
    · rw [none_]
      rfl
    · rw [pending]
      exact filter_kept _
  rw [clearPacedNextRun, same]

/-- A kept slot is kept once more: clearing it does not change what it is compared with. -/
theorem filter_pending (pending : Option Millis → Bool) {slot slot' : Option Millis}
    (eq : slot' = slot.filter fun _ => pending slot) :
    slot' = none ∨ pending slot' = true ∧ slot' = slot := by
  cases held : pending slot with
  | false =>
      rw [held] at eq
      cases slot with
      | none => exact .inl eq
      | some => exact .inl eq
  | true =>
      have same : slot' = slot := by
        rw [eq, held]
        exact filter_kept _
      rw [same]
      exact .inr ⟨held, rfl⟩

theorem prepared_startupCatchupAtMs (service : Service) (opts : CronMaintenanceOptions)
    (now : Millis) (job : Job) : (prepared service opts now job).state.startupCatchupAtMs =
      (normalizedTick service now job).state.startupCatchupAtMs.filter fun _ =>
        hasPendingStartupCatchup (normalizedTick service now job) := rfl

theorem prepared_pacedNextRunAtMs (service : Service) (opts : CronMaintenanceOptions)
    (now : Millis) (job : Job) : (prepared service opts now job).state.pacedNextRunAtMs =
      (normalizedTick service now job).state.pacedNextRunAtMs.filter fun _ =>
        hasPendingPacedNextRun opts now (normalizedTick service now job) := rfl

theorem prepared_startup (service : Service) (opts : CronMaintenanceOptions) (now : Millis)
    (job : Job) : (prepared service opts now job).state.startupCatchupAtMs = none ∨
    hasPendingStartupCatchup (prepared service opts now job) = true ∧
      hasPendingStartupCatchup (normalizedTick service now job) = true := by
  have kept := filter_pending (fun slot => isNextRun slot (normalizedTick service now job))
    (prepared_startupCatchupAtMs service opts now job)
  exact kept.imp_right fun ⟨pending, same⟩ => ⟨pending, by rw [same] at pending; exact pending⟩

theorem prepared_paced (service : Service) (opts : CronMaintenanceOptions) (now : Millis)
    (job : Job) : (prepared service opts now job).state.pacedNextRunAtMs = none ∨
    hasPendingPacedNextRun opts now (prepared service opts now job) = true ∧
      hasPendingPacedNextRun opts now (normalizedTick service now job) = true := by
  have kept := filter_pending (fun slot =>
      isNextRun slot (normalizedTick service now job) && (slot.any (fun paced => now < paced) ||
        opts.preserveExpiredPacedNextRunJobId = some (normalizedTick service now job).id))
    (prepared_pacedNextRunAtMs service opts now job)
  exact kept.imp_right fun ⟨pending, same⟩ => ⟨pending, by rw [same] at pending; exact pending⟩

theorem IsOpened.congr {other : Job} (opened : IsOpened now job)
    (schedule : other.schedule = job.schedule) (createdAtMs : other.createdAtMs = job.createdAtMs)
    (identity : other.state.streamSourceIdentity = job.state.streamSourceIdentity) :
    IsOpened now other := by
  refine ⟨fun unnamed => opened.named ?_, fun everyMs anchorMs every valid => ?_⟩
  · rw [IsUnnamed, schedule, identity] at unnamed
    exact unnamed
  · have anchored := opened.anchored everyMs anchorMs (schedule ▸ every) valid
    rw [Job.everyAnchorMs] at anchored ⊢
    rw [createdAtMs]
    exact anchored

/-- The fields of the prepared job are those of the opened one, cleared. -/
structure IsPrepared (service : Service) (now : Millis) (opened after : Job) : Prop where
  id : after.id = opened.id
  enabled : after.enabled = opened.enabled
  schedule : after.schedule = opened.schedule
  createdAtMs : after.createdAtMs = opened.createdAtMs
  identity : after.state.streamSourceIdentity = opened.state.streamSourceIdentity
  nextRun : after.state.nextRunAtMs =
    opened.state.nextRunAtMs.filter fun next => hasScheduledNextRunAtMs (some next)
  preserved : after.state.forcePreservedNextRunAtMs =
    opened.state.forcePreservedNextRunAtMs.filter fun preserved =>
      isFiniteTimestamp preserved && after.state.nextRunAtMs = some preserved
  queued : after.state.queuedAtMs =
    opened.state.queuedAtMs.filter fun at_ => !isStuckMarker service after.id now at_
  running : after.state.runningAtMs =
    opened.state.runningAtMs.filter fun at_ => !isStuckMarker service after.id now at_

theorem isPrepared_prepared (service : Service) (opts : CronMaintenanceOptions) (now : Millis)
    (job : Job) :
    IsPrepared service now (openTick service now job) (prepared service opts now job) := by
  constructor
  all_goals
    simp only [prepared, normalizedTick, clearPacedNextRun, clearStartupCatchup, clearStuckRunning,
      clearStuckQueued, clearForcePreserved, clearUnscheduledNextRun]
  rfl

theorem isTidy_prepared : IsTidy service opts now (prepared service opts now job) := by
  have fields := isPrepared_prepared service opts now job
  refine ⟨isOpened_openTick.congr fields.schedule fields.createdAtMs fields.identity, ?_, ?_, ?_, ?_,
    clearStartupCatchup_eq ((prepared_startup service opts now job).imp_right And.left),
    clearPacedNextRun_eq ((prepared_paced service opts now job).imp_right And.left)⟩
  · apply clearUnscheduledNextRun_eq
    rw [fields.nextRun]
    exact filter_filter_self _ _
  · apply clearForcePreserved_eq
    rw [fields.preserved]
    exact filter_filter_self _ _
  · apply clearStuckQueued_eq
    rw [fields.queued]
    exact filter_filter_self _ _
  · apply clearStuckRunning_eq
    rw [fields.running]
    exact filter_filter_self _ _

/-- What a second maintenance does: only an unscheduled next run is still to be cleared. -/
theorem maintained_of_tidy (cron : CronSupport) (enabled : job.isEnabled = true)
    (clock : opts.nowMs.getD service.clockMs = now) (opened : IsOpened now job)
    (tidy : IsTidy service opts now (clearUnscheduledNextRun job)) :
    (recomputeSingleJobForMaintenance cron service opts job).job =
      if needsRecompute cron service opts now (clearUnscheduledNextRun job)
          (clearUnscheduledNextRun job) then
        recomputeJobNextRunAtMs cron service opts now (clearUnscheduledNextRun job)
      else clearUnscheduledNextRun job := by
  have tick : normalizedTick service now job = clearUnscheduledNextRun job := by
    rw [normalizedTick, openTick_eq opened, tidy.preserved, tidy.queued, tidy.running]
  have ready : prepared service opts now job = clearUnscheduledNextRun job := by
    rw [prepared, tick, tidy.startup, tidy.paced]
  have kept : job.state.runningAtMs.filter (fun at_ => !isStuckMarker service job.id now at_) =
      job.state.runningAtMs := congrArg (fun job => job.state.runningAtMs) tidy.running
  have live : hasStuckRun service now job = false := by
    rw [hasStuckRun]
    cases running : job.state.runningAtMs with
    | none => rfl
    | some at_ =>
        rw [running] at kept
        simpa using kept
  rw [maintained_enabled enabled clock, StopsAtStuckRun, live, tick, ready]
  rfl

theorem filter_pending_eq (pending : Option Millis → Bool) (never : pending none = false)
    {slot slot' : Option Millis} (eq : slot' = slot.filter fun _ => pending slot) :
    pending slot' = pending slot := by
  rcases filter_pending pending eq with none_ | ⟨_, same⟩
  · cases held : pending slot with
    | false => rw [none_, never]
    | true =>
        rw [held, filter_kept] at eq
        rw [eq, held]
  · rw [same]

/-- The prepared job holds back the slots that the normalized one holds back. -/
theorem needsRecompute_prepared :
    needsRecompute cron service opts now (prepared service opts now job) (prepared service opts now job) =
      needsRecompute cron service opts now (normalizedTick service now job)
        (prepared service opts now job) := by
  have startup : hasPendingStartupCatchup (prepared service opts now job) =
      hasPendingStartupCatchup (normalizedTick service now job) :=
    filter_pending_eq (fun slot => isNextRun slot (normalizedTick service now job)) rfl
      (prepared_startupCatchupAtMs service opts now job)
  have paced : hasPendingPacedNextRun opts now (prepared service opts now job) =
      hasPendingPacedNextRun opts now (normalizedTick service now job) :=
    filter_pending_eq (fun slot =>
        isNextRun slot (normalizedTick service now job) && (slot.any (fun paced => now < paced) ||
          opts.preserveExpiredPacedNextRunJobId = some (normalizedTick service now job).id)) rfl
      (prepared_pacedNextRunAtMs service opts now job)
  have force : hasForcePreservedNextRun (prepared service opts now job) =
      hasForcePreservedNextRun (normalizedTick service now job) := by
    simp only [hasForcePreservedNextRun, isNextRun, prepared, clearPacedNextRun, clearStartupCatchup]
    rfl
  rw [needsRecompute, needsRecompute, startup, paced, force]

/-- A paced slot that has expired is kept for a run that is asked for now, and is repaired. -/
def RepairsKeptSlot (opts : CronMaintenanceOptions) (now : Millis) (job : Job) : Prop :=
  opts.recomputeExpired = true ∧ opts.preserveExpiredPacedNextRunJobId = some job.id ∧
    ∃ slot, job.state.pacedNextRunAtMs = some slot ∧ job.state.nextRunAtMs = some slot ∧ slot ≤ now

theorem not_isNextRun_of_none {slot : Option Millis} (missing : job.state.nextRunAtMs = none) :
    isNextRun slot job = false := by
  rw [isNextRun, missing]
  cases slot with
  | none => rfl
  | some slot => simp [hasScheduledNextRunAtMs]

theorem id_prepared : (prepared service opts now job).id = job.id := by
  rw [(isPrepared_prepared service opts now job).id]
  obtain ⟨_, same | ⟨_, _, _, same⟩⟩ := openTick_cases service now job
  · rw [same]
  · rw [same]

theorem paced_of_prepared {slot : Millis}
    (paced : (prepared service opts now job).state.pacedNextRunAtMs = some slot) :
    job.state.pacedNextRunAtMs = some slot := by
  have kept := prepared_pacedNextRunAtMs service opts now job
  rw [paced] at kept
  have tick := (Option.filter_eq_some_iff.mp kept.symm).1
  have opened : (openTick service now job).state.pacedNextRunAtMs = some slot := by
    rw [← tick]
    simp only [normalizedTick, clearStuckRunning, clearStuckQueued, clearForcePreserved,
      clearUnscheduledNextRun]
  obtain ⟨_, same | ⟨_, _, _, same⟩⟩ := openTick_cases service now job
  · rw [same] at opened
    exact opened
  · rw [same] at opened
    cases opened

/-- A next run that is prepared is a schedulable time. -/
theorem nextRun_of_prepared {next : Millis}
    (nextRun : (prepared service opts now job).state.nextRunAtMs = some next) :
    job.state.nextRunAtMs = some next ∧ hasScheduledNextRunAtMs (some next) = true :=
  Option.filter_eq_some_iff.mp ((keepsRun_prepared service opts now job).nextRun.symm.trans nextRun)

theorem preserved_of_prepared {slot : Millis}
    (preserved : (prepared service opts now job).state.forcePreservedNextRunAtMs = some slot) :
    (prepared service opts now job).state.nextRunAtMs = some slot ∧
      hasForcePreservedNextRun (prepared service opts now job) = true := by
  have kept := (isPrepared_prepared service opts now job).preserved
  rw [preserved] at kept
  obtain ⟨_, holds⟩ := Option.filter_eq_some_iff.mp kept.symm
  simp only [Bool.and_eq_true, decide_eq_true_eq] at holds
  obtain ⟨finite, nextRun⟩ := holds
  have scheduled := (nextRun_of_prepared nextRun).2
  rw [← nextRun] at scheduled
  exact ⟨nextRun, isNextRun_iff.mpr ⟨slot, preserved, finite, scheduled, nextRun⟩⟩

/-- No slot is held back in a job whose next run is computed again. -/
theorem cleared_of_needsRecompute (plain : ¬ RepairsKeptSlot opts now job)
    (needs : needsRecompute cron service opts now (prepared service opts now job)
      (prepared service opts now job) = true) :
    (prepared service opts now job).state.startupCatchupAtMs = none ∧
      (prepared service opts now job).state.pacedNextRunAtMs = none ∧
      (prepared service opts now job).state.forcePreservedNextRunAtMs = none := by
  have startup := prepared_startup service opts now job
  have paced := prepared_paced service opts now job
  have startupFree : hasPendingStartupCatchup (prepared service opts now job) ≠ true →
      (prepared service opts now job).state.startupCatchupAtMs = none := fun free =>
    startup.resolve_right fun held => free held.1
  have pacedFree : hasPendingPacedNextRun opts now (prepared service opts now job) ≠ true →
      (prepared service opts now job).state.pacedNextRunAtMs = none := fun free =>
    paced.resolve_right fun held => free held.1
  have forceFree : (∀ slot, (prepared service opts now job).state.nextRunAtMs = some slot →
        hasForcePreservedNextRun (prepared service opts now job) = true →
        (prepared service opts now job).state.forcePreservedNextRunAtMs ≠ some slot) →
      (prepared service opts now job).state.forcePreservedNextRunAtMs = none := by
    intro free
    rw [Option.eq_none_iff_forall_ne_some]
    intro slot preserved
    obtain ⟨nextRun, held⟩ := preserved_of_prepared preserved
    exact free slot nextRun held preserved
  unfold needsRecompute at needs
  split at needs
  case isTrue unscheduled =>
    have never : ∀ slot, isNextRun slot (prepared service opts now job) ≠ true := by
      intro slot held
      obtain ⟨_, _, _, scheduled, _⟩ := isNextRun_iff.mp held
      rw [scheduled] at unscheduled
      cases unscheduled
    exact ⟨startupFree (never _), pacedFree fun held => never _ ((Bool.and_eq_true _ _).mp held).1,
      forceFree fun _ _ held => absurd held (never _)⟩
  case isFalse scheduled =>
    split at needs
    case isTrue stale =>
      simp only [Bool.and_eq_true, Bool.not_eq_true'] at stale
      obtain ⟨⟨⟨⟨_, startupOff⟩, pacedOff⟩, forceOff⟩, _⟩ := stale
      refine ⟨startupFree (by simp [startupOff]), pacedFree (by simp [pacedOff]),
        forceFree fun _ _ held => ?_⟩
      rw [forceOff] at held
      cases held
    case isFalse =>
      obtain ⟨repairs, expired⟩ := (Bool.and_eq_true _ _).mp needs
      obtain ⟨next, nextRun, _, due, startupOff, forceOff, _⟩ :=
        isExpiredCronScheduleRepairCandidate_inv expired
      have only : ∀ {slot}, (prepared service opts now job).state.nextRunAtMs = some slot →
          slot = next := fun same => Option.some.inj (same.symm.trans nextRun)
      refine ⟨startupFree fun held => ?_, pacedFree fun held => ?_, forceFree fun slot same _ => ?_⟩
      · obtain ⟨slot, stored, _, _, same⟩ := isNextRun_iff.mp held
        exact startupOff (only same ▸ stored)
      · obtain ⟨current, asked⟩ := (Bool.and_eq_true _ _).mp held
        obtain ⟨slot, stored, _, _, same⟩ := isNextRun_iff.mp current
        obtain rfl := only same
        rw [stored, Option.any_some, Bool.or_eq_true, decide_eq_true_eq, decide_eq_true_eq] at asked
        refine plain ⟨repairs, ?_, slot, paced_of_prepared stored, (nextRun_of_prepared same).1, due⟩
        rw [id_prepared] at asked
        exact asked.resolve_left (not_lt.mpr due)
      · exact only same ▸ forceOff

theorem computeJobNextEveryMs_ne_error {everyMs : Millis} {anchorMs : Option Millis} {err : String} :
    computeJobNextEveryMs cron job everyMs anchorMs now ≠ .error err := by
  have counted : ∀ every anchor, (computeNextRunAtMs cron (.every every anchor) now).map
      (fun next => next.bind asDateTimestampMs) ≠ .error err := by
    intro every anchor
    unfold computeNextRunAtMs
    split
    · rintro ⟨⟩
    · rintro ⟨⟩
  unfold computeJobNextEveryMs
  split
  · rintro ⟨⟩
  · split
    · rintro ⟨⟩
    · dsimp only
      split
      · exact counted _ _
      · split
        · split
          · rintro ⟨⟩
          · split
            · rintro ⟨⟩
            · exact counted _ _
        · exact counted _ _

/-- Only the query of an expression may throw, and it is asked about the schedule alone. -/
theorem computeJobNextRunAtMs_error {other : Job} {err : String}
    (throws : computeJobNextRunAtMs cron job now = .error err) (id : other.id = job.id)
    (enabled : other.enabled = job.enabled)
    (schedule : ∀ spec, job.schedule = .cron spec → other.schedule = job.schedule) :
    computeJobNextRunAtMs cron other now = .error err := by
  cases kind : job.schedule with
  | cron spec =>
      rw [← throws]
      unfold computeJobNextRunAtMs computeStaggeredCronNextRunAtMs Job.isEnabled
      rw [enabled, schedule spec kind, id, kind]
  | every everyMs anchorMs =>
      rw [computeJobNextRunAtMs, kind] at throws
      split at throws
      · cases throws
      · exact absurd throws computeJobNextEveryMs_ne_error
  | «at» | onExit | stream =>
      rw [computeJobNextRunAtMs, kind] at throws
      split at throws
      · cases throws
      · cases throws

/-- The prepared job with a next run that was computed for it. -/
def withNextRun (newNext : Option Millis) (job : Job) : Job :=
  { job with state := { job.state with
      nextRunAtMs := newNext
      scheduleErrorCount := job.state.scheduleErrorCount.filter fun errors => errors = 0 } }

theorem recompute_withNextRun {newNext : Option Millis} (slot : Option Millis)
    (computed : computeJobNextRunAtMs cron job now = .ok newNext) :
    recomputeJobNextRunAtMs cron service opts now (withNextRun slot job) =
      withNextRun (withBackoffFloor job newNext) job := by
  have again : computeJobNextRunAtMs cron (withNextRun slot job) now = .ok newNext := computed
  rw [recomputeJobNextRunAtMs, again]
  have floor : withBackoffFloor (withNextRun slot job) newNext = withBackoffFloor job newNext := rfl
  have errors : (withNextRun slot job).state.scheduleErrorCount.filter (fun errors => errors = 0) =
      job.state.scheduleErrorCount.filter fun errors => errors = 0 := filter_filter_self _ _
  dsimp only
  rw [floor, errors]
  rfl

/-- The next run of the job can be computed, or a throw is passed over. -/
def Computes (cron : CronSupport) (opts : CronMaintenanceOptions) (now : Millis) (job : Job) : Prop :=
  opts.skipScheduleErrorHandling = true ∨ ∀ err, computeJobNextRunAtMs cron job now ≠ .error err

theorem isEnabled_prepared : (prepared service opts now job).isEnabled = job.isEnabled := by
  have opened : (openTick service now job).isEnabled = job.isEnabled := openTick_isEnabled
  rw [Job.isEnabled] at opened ⊢
  rw [(isPrepared_prepared service opts now job).enabled]
  exact opened

theorem Computes.prepared (computes : Computes cron opts now job) :
    Computes cron opts now (prepared service opts now job) := by
  refine computes.imp_right fun never err throws => never err ?_
  have fields := isPrepared_prepared service opts now job
  refine computeJobNextRunAtMs_error throws id_prepared.symm ?_ fun spec schedule => ?_
  · rw [fields.enabled]
    obtain ⟨_, same | ⟨_, _, _, same⟩⟩ := openTick_cases service now job
    · rw [same]
    · rw [same]
  · rw [schedule]
    exact (keepsRun_prepared service opts now job).cronOnly spec schedule

theorem isTidy_withNextRun (tidy : IsTidy service opts now job) (slot : Option Millis)
    (startup : job.state.startupCatchupAtMs = none) (paced : job.state.pacedNextRunAtMs = none)
    (preserved : job.state.forcePreservedNextRunAtMs = none) :
    IsTidy service opts now (clearUnscheduledNextRun (withNextRun slot job)) where
  opened := tidy.opened.congr rfl rfl rfl
  nextRun := clearUnscheduledNextRun_eq (filter_filter_self _ _)
  preserved := by
    apply clearForcePreserved_eq
    have none_ : (clearUnscheduledNextRun (withNextRun slot job)).state.forcePreservedNextRunAtMs =
      none := preserved
    rw [none_]
    rfl
  queued := clearStuckQueued_eq (congrArg (fun job => job.state.queuedAtMs) tidy.queued)
  running := clearStuckRunning_eq (congrArg (fun job => job.state.runningAtMs) tidy.running)
  startup := clearStartupCatchup_eq (.inl startup)
  paced := clearPacedNextRun_eq (.inl paced)

theorem clearUnscheduled_withNextRun {slot : Option Millis} {tick : Job}
    (idle : ¬ needsRecompute cron service opts now tick
      (clearUnscheduledNextRun (withNextRun slot job)) = true) :
    clearUnscheduledNextRun (withNextRun slot job) = withNextRun slot job := by
  apply clearUnscheduledNextRun_eq
  have nextRun : (withNextRun slot job).state.nextRunAtMs = slot := rfl
  rw [nextRun]
  cases slot with
  | none => rfl
  | some next =>
      cases scheduled : hasScheduledNextRunAtMs (some next) with
      | true => rw [Option.filter_some, if_pos scheduled]
      | false =>
          refine absurd ?_ idle
          rw [needsRecompute, if_pos]
          have missing : (clearUnscheduledNextRun (withNextRun (some next) job)).state.nextRunAtMs =
              none := by
            have kept : (clearUnscheduledNextRun (withNextRun (some next) job)).state.nextRunAtMs =
              (some next).filter fun next => hasScheduledNextRunAtMs (some next) := rfl
            rw [kept, Option.filter_some, if_neg (by simp [scheduled])]
          rw [missing]
          rfl

theorem recompute_again (enabled : job.isEnabled = true)
    (clock : opts.nowMs.getD service.clockMs = now) (computes : Computes cron opts now job)
    (plain : ¬ RepairsKeptSlot opts now job)
    (needs : needsRecompute cron service opts now (prepared service opts now job)
      (prepared service opts now job) = true) :
    (recomputeSingleJobForMaintenance cron service opts
        (recomputeJobNextRunAtMs cron service opts now (prepared service opts now job))).job =
      recomputeJobNextRunAtMs cron service opts now (prepared service opts now job) := by
  have tidy : IsTidy service opts now (prepared service opts now job) := isTidy_prepared
  obtain ⟨startup, paced, preserved⟩ := cleared_of_needsRecompute plain needs
  have live : (prepared service opts now job).isEnabled = true := isEnabled_prepared.trans enabled
  have ready : Computes cron opts now (prepared service opts now job) := computes.prepared
  generalize prepared service opts now job = job at *
  cases computed : computeJobNextRunAtMs cron job now with
  | error err =>
      have skips := ready.resolve_right fun never => never err computed
      have same : recomputeJobNextRunAtMs cron service opts now job = job := by
        rw [recomputeJobNextRunAtMs, computed]
        exact if_pos skips
      have again := maintained_of_tidy cron live clock tidy.opened
        (by rw [tidy.nextRun]; exact tidy)
      rw [same, again, tidy.nextRun, if_pos needs, same]
  | ok newNext =>
      have result : recomputeJobNextRunAtMs cron service opts now job =
          withNextRun (withBackoffFloor job newNext) job := by
        rw [recomputeJobNextRunAtMs, computed]
        rfl
      have tidy' := isTidy_withNextRun tidy (withBackoffFloor job newNext) startup paced preserved
      have opened : IsOpened now (withNextRun (withBackoffFloor job newNext) job) :=
        tidy.opened.congr rfl rfl rfl
      have live' : (withNextRun (withBackoffFloor job newNext) job).isEnabled = true := live
      rw [result, maintained_of_tidy cron live' clock opened tidy']
      split
      case isTrue =>
        exact recompute_withNextRun ((withBackoffFloor job newNext).filter fun next =>
          hasScheduledNextRunAtMs (some next)) computed
      case isFalse idle => exact clearUnscheduled_withNextRun idle

/-- A disabled job is cleared once. -/
theorem clearDisabled_again : clearDisabled service (clearDisabled service job) =
    clearDisabled service job := by
  have queued := filter_filter_self (fun at_ => ownsCronRunMarker service job.id at_ true)
    job.state.queuedAtMs
  have running := filter_filter_self (fun at_ => ownsCronRunMarker service job.id at_ true ||
    service.isCronJobActive job.id) job.state.runningAtMs
  simp only [clearDisabled, queued, running]

/-- A second maintenance at the same time changes nothing. -/
theorem maintained_again (computes : job.isEnabled = true → Computes cron opts now job)
    (clock : opts.nowMs.getD service.clockMs = now)
    (passes : job.isEnabled = true → StopsAtStuckRun service now job = false)
    (plain : ¬ RepairsKeptSlot opts now job) :
    (recomputeSingleJobForMaintenance cron service opts
        (recomputeSingleJobForMaintenance cron service opts job).job).job =
      (recomputeSingleJobForMaintenance cron service opts job).job := by
  cases enabled : job.isEnabled with
  | false =>
      have opened : IsOpened now (clearDisabled service (openTick service now job)) :=
        isOpened_openTick.congr rfl rfl rfl
      have still : (clearDisabled service (openTick service now job)).isEnabled = false :=
        openTick_isEnabled.trans enabled
      rw [maintained_disabled enabled, clock, maintained_disabled still, clock, openTick_eq opened,
        clearDisabled_again]
  | true =>
      have live : (prepared service opts now job).isEnabled = true := isEnabled_prepared.trans enabled
      have tidy : IsTidy service opts now (prepared service opts now job) := isTidy_prepared
      rw [maintained_enabled enabled clock, passes enabled, if_neg (by decide),
        ← needsRecompute_prepared]
      split
      case isTrue needs => exact recompute_again enabled clock (computes enabled) plain needs
      case isFalse idle =>
        have again := maintained_of_tidy cron live clock tidy.opened
          (by rw [tidy.nextRun]; exact tidy)
        rw [again, tidy.nextRun, if_neg idle]

/-- The next run of a job before and after maintenance. -/
structure KeepsSlots (opts : CronMaintenanceOptions) (now : Millis) (before after : Job) : Prop where
  due : before.isEnabled = true → DueUnexecuted now before →
    after.state.nextRunAtMs = before.state.nextRunAtMs
  pending : before.isEnabled = true → alreadyExecutedSlot before = false → PendingSlot opts now before →
    after.state.nextRunAtMs = before.state.nextRunAtMs

/-- Maintenance of the job neither stops at a stuck run, nor counts a throw, nor repairs a slot
that it keeps for a run asked for now. -/
structure Repeatable (cron : CronSupport) (service : Service) (opts : CronMaintenanceOptions)
    (now : Millis) (job : Job) : Prop where
  computes : job.isEnabled = true → Computes cron opts now job
  passes : job.isEnabled = true → StopsAtStuckRun service now job = false
  plain : ¬ RepairsKeptSlot opts now job

theorem keepsSlots_maintained (clock : opts.nowMs.getD service.clockMs = now) (job : Job) :
    KeepsSlots opts now job (recomputeSingleJobForMaintenance cron service opts job).job :=
  ⟨fun enabled due => due_kept enabled clock due,
    fun enabled unexecuted pending => pending_kept enabled clock unexecuted pending⟩

/-- Maintenance skips no run that is due, keeps the slots that are held back, and finds nothing
to do a second time. -/
theorem maintenance_keeps (cron : CronSupport) (service : Service) (opts : CronMaintenanceOptions) :
    (∀ job, KeepsSlots opts (opts.nowMs.getD service.clockMs) job
        (recomputeSingleJobForMaintenance cron service opts job).job ∧
      (Repeatable cron service opts (opts.nowMs.getD service.clockMs) job →
        (recomputeSingleJobForMaintenance cron service opts
            (recomputeSingleJobForMaintenance cron service opts job).job).job =
          (recomputeSingleJobForMaintenance cron service opts job).job)) ∧
      ∀ jobs, List.Forall₂ (KeepsSlots opts (opts.nowMs.getD service.clockMs)) jobs
          (recomputeNextRunsForMaintenance cron service opts jobs).1 ∧
        ((∀ job ∈ jobs, Repeatable cron service opts (opts.nowMs.getD service.clockMs) job) →
          (recomputeNextRunsForMaintenance cron service opts
              (recomputeNextRunsForMaintenance cron service opts jobs).1).1 =
            (recomputeNextRunsForMaintenance cron service opts jobs).1) := by
  have again : ∀ job, Repeatable cron service opts (opts.nowMs.getD service.clockMs) job →
      (recomputeSingleJobForMaintenance cron service opts
          (recomputeSingleJobForMaintenance cron service opts job).job).job =
        (recomputeSingleJobForMaintenance cron service opts job).job := fun job repeatable =>
    maintained_again repeatable.computes rfl repeatable.passes repeatable.plain
  refine ⟨fun job => ⟨keepsSlots_maintained rfl job, again job⟩, fun jobs => ⟨?_, fun repeatable => ?_⟩⟩
  · rw [recomputeNextRunsForMaintenance, List.map_map, List.forall₂_map_right_iff]
    exact List.forall₂_same.mpr fun job _ => keepsSlots_maintained rfl job
  · simp only [recomputeNextRunsForMaintenance, List.map_map]
    exact List.map_congr_left fun job mem => again job (repeatable job mem)

/-- A process at three hours on its clock, without any run. -/
def idleService : Service where
  queuedRunReservationsByJobId := fun _ => none
  isCronJobActive := fun _ => false
  clockMs := 10800000
  createCronStreamSourceIdentity := fun _ => ⟨"source", by decide +kernel⟩

def invalidCron : CronSupport where
  nextRun := fun _ _ => .error "invalid expression"
  previousRun := fun _ _ => .error "invalid expression"
  readUInt32BE := fun _ => 0
  isRecurringTopOfHour := fun _ => false

/-- A recurring job without a stored anchor whose preserved slot waits behind an error. -/
def unanchoredJob : Job where
  id := "poll"
  createdAtMs := 0
  schedule := .every 3600000 none
  state := {
    nextRunAtMs := some 10790000
    forcePreservedNextRunAtMs := some 10790000
    lastRunAtMs := some 10785000
    lastRunStatus := some .error }

/-- A recurring job whose run is stuck and that has no next run. -/
def stuckJob : Job where
  id := "poll"
  createdAtMs := 0
  schedule := .every 3600000 (some 0)
  state := { runningAtMs := some 1000 }

def invalidJob : Job where
  id := "nightly"
  createdAtMs := 0
  schedule := .cron { expr := "invalid" }

/-- A preserved slot is lost when the job is anchored anew under an error backoff, and a second
maintenance goes on after a stuck run and counts a throw again. -/
theorem not_maintenance_keeps :
    (unanchoredJob.isEnabled = true ∧ alreadyExecutedSlot unanchoredJob = false ∧
        isNextRun unanchoredJob.state.forcePreservedNextRunAtMs unanchoredJob = true ∧
        (recomputeSingleJobForMaintenance invalidCron idleService { recomputeExpired := true }
          unanchoredJob).job.state.nextRunAtMs ≠ unanchoredJob.state.nextRunAtMs) ∧
      (recomputeSingleJobForMaintenance invalidCron idleService {}
          (recomputeSingleJobForMaintenance invalidCron idleService {} stuckJob).job).job ≠
        (recomputeSingleJobForMaintenance invalidCron idleService {} stuckJob).job ∧
      (recomputeSingleJobForMaintenance invalidCron idleService {}
          (recomputeSingleJobForMaintenance invalidCron idleService {} invalidJob).job).job ≠
        (recomputeSingleJobForMaintenance invalidCron idleService {} invalidJob).job := by
  refine ⟨⟨rfl, ?_, ?_, ?_⟩, ?_, ?_⟩
  all_goals decide +kernel

end OpenClaw.CronSchedule
