import OpenClaw.CronSchedule.NextRun
import OpenClaw.Lib.JsText

/-!
Maintenance of a stored job: its tick state is normalized, the slots that no longer stand are
cleared, and a next run that is missing, stale or past is computed again. Each stage is a
function of the job, and the flag that is returned says whether some stage changed it.
-/

namespace OpenClaw.CronSchedule

structure Reservation where
  markerAtMs : Millis
  preserveWhenDisabled : Bool

/-- What maintenance asks the process for. -/
structure Service where
  queuedRunReservationsByJobId : String → Option Reservation
  isCronJobActive : String → Bool
  /-- `deps.nowMs()`. -/
  clockMs : Millis
  createCronStreamSourceIdentity : String → {identity : String // JsText.trim identity ≠ ""}

structure CronMaintenanceOptions where
  recomputeExpired : Bool := false
  nowMs : Option Millis := none
  repairFutureCronNextRunAtMs : Bool := true
  preserveExpiredPacedNextRunJobId : Option String := none
  skipScheduleErrorHandling : Bool := false

/-- A job, and whether a stage has changed it. -/
structure Tracked where
  job : Job
  changed : Bool

def Tracked.start (job : Job) : Tracked := ⟨job, false⟩

def Tracked.through (tracked : Tracked) (stage : Job → Job) : Tracked :=
  ⟨stage tracked.job, tracked.changed || decide (stage tracked.job ≠ tracked.job)⟩

@[simp] theorem Tracked.start_job (job : Job) : (Tracked.start job).job = job := rfl

@[simp] theorem Tracked.through_job (tracked : Tracked) (stage : Job → Job) :
    (tracked.through stage).job = stage tracked.job := rfl

variable (cron : CronSupport) (service : Service)

/-- A matching reservation keeps a marker; in a disabled job only a forced one does. -/
def ownsCronRunMarker (jobId : String) (markerAtMs : Millis) (requireForce : Bool) : Bool :=
  match service.queuedRunReservationsByJobId jobId with
  | some reservation =>
      reservation.markerAtMs = markerAtMs && (!requireForce || reservation.preserveWhenDisabled)
  | none => false

def CRON_STUCK_RUN_MS : Millis := 2 * 60 * 60000

def MAX_SCHEDULE_ERRORS : Nat := 3

/-- A marker that is far from now and that no reservation keeps. -/
def isStuckMarker (jobId : String) (nowMs markerAtMs : Millis) : Bool :=
  CRON_STUCK_RUN_MS < |nowMs - markerAtMs| && !ownsCronRunMarker service jobId markerAtMs false

def assignStreamSourceIdentity (job : Job) : Job :=
  if job.schedule = .stream ∧ ∀ identity ∈ job.state.streamSourceIdentity, JsText.trim identity = "" then
    { job with state := { job.state with
        streamSourceIdentity := some (service.createCronStreamSourceIdentity job.id) } }
  else job

def normalizeEveryAnchor (nowMs : Millis) (job : Job) : Job :=
  match job.schedule with
  | .every everyMs anchorMs =>
      if hasInvalidExplicitEveryAnchor anchorMs then job
      else
        let normalizedAnchorMs := job.everyAnchorMs anchorMs nowMs
        if anchorMs = some normalizedAnchorMs then job
        else { job with
          schedule := .every everyMs (some normalizedAnchorMs)
          state := { job.state with pacedNextRunAtMs := none, forcePreservedNextRunAtMs := none } }
  | _ => job

/-- A disabled job keeps no slot, and only the markers of forced and of active runs. -/
def clearDisabled (job : Job) : Job :=
  { job with state := { job.state with
      startupCatchupAtMs := none
      pacedNextRunAtMs := none
      forcePreservedNextRunAtMs := none
      nextRunAtMs := none
      queuedAtMs := job.state.queuedAtMs.filter fun at_ => ownsCronRunMarker service job.id at_ true
      runningAtMs := job.state.runningAtMs.filter fun at_ =>
        ownsCronRunMarker service job.id at_ true || service.isCronJobActive job.id } }

def clearUnscheduledNextRun (job : Job) : Job :=
  { job with state := { job.state with
      nextRunAtMs := job.state.nextRunAtMs.filter fun next => hasScheduledNextRunAtMs (some next) } }

def clearForcePreserved (job : Job) : Job :=
  { job with state := { job.state with
      forcePreservedNextRunAtMs := job.state.forcePreservedNextRunAtMs.filter fun preserved =>
        isFiniteTimestamp preserved && job.state.nextRunAtMs = some preserved } }

def clearStuckQueued (nowMs : Millis) (job : Job) : Job :=
  { job with state := { job.state with
      queuedAtMs := job.state.queuedAtMs.filter fun at_ => !isStuckMarker service job.id nowMs at_ } }

def clearStuckRunning (nowMs : Millis) (job : Job) : Job :=
  { job with state := { job.state with
      runningAtMs := job.state.runningAtMs.filter fun at_ => !isStuckMarker service job.id nowMs at_ } }

def hasStuckRun (nowMs : Millis) (job : Job) : Bool :=
  job.state.runningAtMs.any fun at_ => isStuckMarker service job.id nowMs at_

/-- The last run is of the next slot or of a later one. -/
def alreadyExecutedSlot (job : Job) : Bool :=
  match job.state.nextRunAtMs, job.state.lastRunAtMs with
  | some nextRun, some lastRun =>
      hasScheduledNextRunAtMs (some nextRun) && isFiniteTimestamp lastRun && nextRun ≤ lastRun
  | _, _ => false

/-- The normalized job, and whether maintenance is to leave it there. -/
def normalizeJobTickState (nowMs : Millis) (job : Job) : Tracked × Bool :=
  let tick := ((Tracked.start job).through (assignStreamSourceIdentity service)).through
    (normalizeEveryAnchor nowMs)
  if !tick.job.isEnabled then (tick.through (clearDisabled service), true)
  else
    let tick := ((tick.through clearUnscheduledNextRun).through clearForcePreserved).through
      (clearStuckQueued service nowMs)
    let cleared := tick.through (clearStuckRunning service nowMs)
    (cleared, hasStuckRun service nowMs tick.job && !alreadyExecutedSlot cleared.job)

def isStaggeredCronRunAtMs (job : Job) (runAtMs : Millis) : Except String Bool :=
  match job.schedule with
  | .cron _ =>
      if !isFiniteTimestamp runAtMs then .ok false
      else (computeStaggeredCronPreviousRunAtOrBeforeMs cron job runAtMs).map fun previous =>
        previous = some runAtMs
  | _ => .ok false

def isPendingErrorBackoffSlot (job : Job) (nextRunAtMs nowMs : Millis) : Bool :=
  (resolveJobErrorBackoffUntilMs job).any fun backoffUntilMs =>
    nowMs < backoffUntilMs && nextRunAtMs ≤ backoffUntilMs

def isStaleFutureCronSlot (job : Job) (nowMs : Millis) : Bool :=
  match job.schedule, job.state.nextRunAtMs with
  | .cron _, some nextRun =>
      if !hasScheduledNextRunAtMs (some nextRun) || nextRun ≤ nowMs || job.state.queuedAtMs.isSome ||
          job.state.runningAtMs.isSome || isPendingErrorBackoffSlot job nextRun nowMs then false
      else
        match computeStaggeredCronNextRunAtMs cron job nowMs, isStaggeredCronRunAtMs cron job nextRun with
        | .ok (some naturalNext), .ok isScheduledSlot =>
            if !isFiniteTimestamp naturalNext || isScheduledSlot then false
            else if nextRun < naturalNext then job.payload ≠ .agentTurn
            else if nextRun = naturalNext then false
            else
              match computeStaggeredCronNextRunAtMs cron job naturalNext with
              | .ok (some followingNaturalNext) =>
                  let naturalIntervalMs := followingNaturalNext - naturalNext
                  isFiniteTimestamp followingNaturalNext && 0 < naturalIntervalMs &&
                    followingNaturalNext + naturalIntervalMs ≤ nextRun
              | _ => false
        | _, _ => false
  | _, _ => false

def hasActiveCronRun (job : Job) : Bool :=
  job.state.queuedAtMs.isSome || job.state.runningAtMs.isSome || service.isCronJobActive job.id

def isExpiredCronScheduleRepairCandidate (job : Job) (nowMs : Millis) : Bool :=
  match job.state.nextRunAtMs with
  | none => false
  | some nextRunAtMs =>
      hasScheduledNextRunAtMs (some nextRunAtMs) && nextRunAtMs ≤ nowMs &&
        !hasActiveCronRun service job &&
        job.state.startupCatchupAtMs ≠ some nextRunAtMs &&
        job.state.forcePreservedNextRunAtMs ≠ some nextRunAtMs &&
        ((job.state.lastRunAtMs.any fun lastRun => isFiniteTimestamp lastRun && nextRunAtMs ≤ lastRun) ||
          (resolveJobErrorBackoffUntilMs job).any fun backoffUntilMs =>
            nowMs < backoffUntilMs && nextRunAtMs < backoffUntilMs)

/-- Disables a job of a user, once. -/
def autoDisableCronJob (reason : CronAutoDisableReason) (atMs : Millis) (consecutiveErrors : Nat)
    (job : Job) : Job :=
  if job.payload = .systemOwned ∨ job.enabled ≠ some true ∨ job.state.autoDisabled.isSome then job
  else { job with
    enabled := some false
    state := { job.state with
      nextRunAtMs := none
      autoDisabled := some { reason, atMs, consecutiveErrors } } }

def recordScheduleComputeError (err : String) (job : Job) : Job :=
  let errorCount := job.state.scheduleErrorCount.getD 0 + 1
  let failed := { job with state := { job.state with
    scheduleErrorCount := some errorCount
    nextRunAtMs := none
    lastError := some ("schedule error: " ++ err) } }
  if MAX_SCHEDULE_ERRORS ≤ errorCount then
    autoDisableCronJob .scheduleErrors service.clockMs errorCount failed
  else failed

/-- A computed next run, held back until the error backoff is over. -/
def withBackoffFloor (job : Job) (newNext : Option Millis) : Option Millis :=
  let recurring : Bool := match job.schedule with
    | .at _ => false
    | _ => true
  match recurring, resolveJobErrorBackoffUntilMs job with
  | true, some backoffFloor => newNext.map fun next => max next backoffFloor
  | _, _ => newNext

def recomputeJobNextRunAtMs (opts : CronMaintenanceOptions) (nowMs : Millis) (job : Job) : Job :=
  match computeJobNextRunAtMs cron job nowMs with
  | .ok newNext =>
      { job with state := { job.state with
          nextRunAtMs := withBackoffFloor job newNext
          scheduleErrorCount := job.state.scheduleErrorCount.filter fun errors => errors = 0 } }
  | .error err =>
      if opts.skipScheduleErrorHandling then job else recordScheduleComputeError service err job

/-- A stored slot is the next run that stands. -/
def isNextRun (slot : Option Millis) (job : Job) : Bool :=
  slot.any fun slot => isFiniteTimestamp slot && hasScheduledNextRunAtMs job.state.nextRunAtMs &&
    job.state.nextRunAtMs = some slot

def hasForcePreservedNextRun (job : Job) : Bool := isNextRun job.state.forcePreservedNextRunAtMs job

def hasPendingStartupCatchup (job : Job) : Bool := isNextRun job.state.startupCatchupAtMs job

def hasPendingPacedNextRun (opts : CronMaintenanceOptions) (now : Millis) (job : Job) : Bool :=
  isNextRun job.state.pacedNextRunAtMs job &&
    (job.state.pacedNextRunAtMs.any (fun paced => now < paced) ||
      opts.preserveExpiredPacedNextRunJobId = some job.id)

def clearStartupCatchup (job : Job) : Job :=
  { job with state := { job.state with
      startupCatchupAtMs := job.state.startupCatchupAtMs.filter fun _ => hasPendingStartupCatchup job } }

def clearPacedNextRun (opts : CronMaintenanceOptions) (now : Millis) (job : Job) : Job :=
  { job with state := { job.state with
      pacedNextRunAtMs := job.state.pacedNextRunAtMs.filter fun _ =>
        hasPendingPacedNextRun opts now job } }

/-- The next run is to be computed again; `tick` is the normalized job, before its slots are
cleared. -/
def needsRecompute (opts : CronMaintenanceOptions) (now : Millis) (tick job : Job) : Bool :=
  if !hasScheduledNextRunAtMs job.state.nextRunAtMs then true
  else if opts.repairFutureCronNextRunAtMs && !hasPendingStartupCatchup tick &&
      !hasPendingPacedNextRun opts now tick && !hasForcePreservedNextRun tick &&
      isStaleFutureCronSlot cron job now then true
  else opts.recomputeExpired && isExpiredCronScheduleRepairCandidate service job now

def recomputeSingleJobForMaintenance (opts : CronMaintenanceOptions) (job : Job) : Tracked :=
  let now := opts.nowMs.getD service.clockMs
  let tick := normalizeJobTickState service now job
  if tick.2 then tick.1
  else
    let cleared := (tick.1.through clearStartupCatchup).through (clearPacedNextRun opts now)
    if needsRecompute cron service opts now tick.1.job cleared.job then
      cleared.through (recomputeJobNextRunAtMs cron service opts now)
    else cleared

/-- The jobs of the store after maintenance, and whether one of them was changed. -/
def recomputeNextRunsForMaintenance (opts : CronMaintenanceOptions) (jobs : List Job) :
    List Job × Bool :=
  let maintained := jobs.map (recomputeSingleJobForMaintenance cron service opts)
  (maintained.map Tracked.job, maintained.any Tracked.changed)

end OpenClaw.CronSchedule
