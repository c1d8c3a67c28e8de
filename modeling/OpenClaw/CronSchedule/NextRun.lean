import Mathlib

/-!
Cron jobs with the fields that scheduling reads and writes. Times are milliseconds; a stored
number is finite, and it is a timestamp if it is in the range of a `Date`. What the cron
expression library answers is a parameter.
-/

namespace OpenClaw.CronSchedule

abbrev Millis := ℚ

def MAX_DATE_TIMESTAMP_MS : Millis := 8640000000000000

def isFiniteTimestamp (value : Millis) : Bool :=
  -MAX_DATE_TIMESTAMP_MS ≤ value && value ≤ MAX_DATE_TIMESTAMP_MS

def asDateTimestampMs (value : Millis) : Option Millis :=
  if isFiniteTimestamp value then some value else none

structure CronExpr where
  expr : String
  tz : Option String := none
  staggerMs : Option Millis := none
  deriving DecidableEq

inductive Schedule where
  /-- A one-shot time, as `parseAbsoluteTimeMs` reads it. -/
  | at (atMs : Option Millis)
  | every (everyMs : Millis) (anchorMs : Option Millis)
  | cron (spec : CronExpr)
  | onExit
  | stream
  deriving DecidableEq

inductive RunStatus where
  | ok
  | error
  | skipped
  deriving DecidableEq

inductive CronAutoDisableReason where
  | consecutiveFailures
  | scheduleErrors
  deriving DecidableEq

structure AutoDisabled where
  reason : CronAutoDisableReason
  atMs : Millis
  consecutiveErrors : Nat
  deriving DecidableEq

structure JobState where
  nextRunAtMs : Option Millis := none
  lastRunAtMs : Option Millis := none
  lastRunStatus : Option RunStatus := none
  lastStatus : Option RunStatus := none
  lastDurationMs : Option Millis := none
  consecutiveErrors : Option Millis := none
  queuedAtMs : Option Millis := none
  runningAtMs : Option Millis := none
  startupCatchupAtMs : Option Millis := none
  pacedNextRunAtMs : Option Millis := none
  forcePreservedNextRunAtMs : Option Millis := none
  scheduleErrorCount : Option Nat := none
  lastError : Option String := none
  autoDisabled : Option AutoDisabled := none
  streamSourceIdentity : Option String := none
  deriving DecidableEq

inductive PayloadKind where
  | agentTurn
  | systemOwned
  | other
  deriving DecidableEq

structure Job where
  id : String
  enabled : Option Bool := none
  createdAtMs : Millis
  schedule : Schedule
  payload : PayloadKind := .agentTurn
  state : JobState := {}
  deriving DecidableEq

/-- The cron queries, the SHA-256 prefix of a job id, and which expressions fire at the top of
every hour. A query may throw, with the text of its error. -/
structure CronSupport where
  nextRun : CronExpr → Millis → Except String (Option Millis)
  previousRun : CronExpr → Millis → Except String (Option Millis)
  readUInt32BE : String → Nat
  isRecurringTopOfHour : String → Bool

/-- Returns whether a stored next-run timestamp is schedulable. -/
def hasScheduledNextRunAtMs : Option Millis → Bool
  | none => false
  | some value => isFiniteTimestamp value && 0 < value

def Job.isEnabled (job : Job) : Bool := job.enabled.getD true

def resolveJobLastRunStatus (job : Job) : Option RunStatus :=
  job.state.lastRunStatus <|> job.state.lastStatus

def DEFAULT_ERROR_BACKOFF_SCHEDULE_MS : List Millis :=
  [30000, 60000, 5 * 60000, 15 * 60000, 60 * 60000]

def errorBackoffMs (consecutiveErrors : Int) : Millis :=
  let last : Int := DEFAULT_ERROR_BACKOFF_SCHEDULE_MS.length - 1
  DEFAULT_ERROR_BACKOFF_SCHEDULE_MS.getD (max 0 (min (consecutiveErrors - 1) last)).toNat 30000

/-- The earliest retry time after a failed run. -/
def resolveJobErrorBackoffUntilMs (job : Job) : Option Millis :=
  match job.state.lastRunAtMs with
  | none => none
  | some lastRunAtMs =>
      if resolveJobLastRunStatus job ≠ some .error ∨ !isFiniteTimestamp lastRunAtMs then none
      else
        let consecutiveErrors : Int :=
          match job.state.consecutiveErrors with
          | some errors => max 1 ⌊errors⌋
          | none => 1
        let lastDurationMs : Millis :=
          match job.state.lastDurationMs with
          | some duration => ((max 0 ⌊duration⌋ : Int) : Millis)
          | none => 0
        asDateTimestampMs (lastRunAtMs + lastDurationMs + errorBackoffMs consecutiveErrors)

end OpenClaw.CronSchedule

/-!
The next and the previous run of a job. A recurring interval counts from its anchor, or from
the last run while that is ahead; a cron expression is queried behind the stagger offset of
the job, and the offset is added to the answer.
-/

namespace OpenClaw.CronSchedule

variable (cron : CronSupport)

/-- `normalizeCronStaggerMs`. -/
def normalizeCronStaggerMs (raw : Millis) : Option Nat :=
  let normalized : Nat := (max 0 ⌊raw⌋).toNat
  if (normalized : Millis) ≤ MAX_DATE_TIMESTAMP_MS then some normalized else none

def DEFAULT_TOP_OF_HOUR_STAGGER_MS : Nat := 5 * 60 * 1000

def resolveCronStaggerMs (spec : CronExpr) : Nat :=
  match spec.staggerMs.bind normalizeCronStaggerMs with
  | some explicit => explicit
  | none => if cron.isRecurringTopOfHour spec.expr then DEFAULT_TOP_OF_HOUR_STAGGER_MS else 0

def resolveStableCronOffsetMs (jobId : String) (staggerMs : Nat) : Nat :=
  if staggerMs ≤ 1 then 0 else cron.readUInt32BE jobId % staggerMs

/-- The offset of a job from the slots of its expression. -/
def offsetMs (jobId : String) (spec : CronExpr) : Nat :=
  resolveStableCronOffsetMs cron jobId (resolveCronStaggerMs cron spec)

/-- `computeNextRunAtMs` of a recurring interval. -/
def computeNextEveryMs (everyMs : Millis) (anchorMs : Option Millis) (nowMs : Millis) :
    Option Millis :=
  if !isFiniteTimestamp everyMs ∨ ⌊everyMs⌋ < 1 then none
  else
    let anchorRaw := anchorMs.bind asDateTimestampMs
    if anchorMs ≠ none ∧ (anchorRaw = none ∨ ∃ raw ∈ anchorRaw, raw < 0) then none
    else
      let anchor : Millis := ((max 0 ⌊anchorRaw.getD nowMs⌋ : Int) : Millis)
      if nowMs < anchor then some anchor
      else
        let steps : Int := ⌊(nowMs - anchor) / ⌊everyMs⌋⌋ + 1
        asDateTimestampMs (anchor + steps * ⌊everyMs⌋)

def computeNextRunAtMs (schedule : Schedule) (nowMs : Millis) : Except String (Option Millis) :=
  if !isFiniteTimestamp nowMs then .ok none
  else
    match schedule with
    | .at atMs => .ok (atMs.filter fun atMs => nowMs < atMs)
    | .every everyMs anchorMs => .ok (computeNextEveryMs everyMs anchorMs nowMs)
    | .cron spec => cron.nextRun spec nowMs
    | .onExit | .stream => .ok none

def computePreviousRunAtMs (schedule : Schedule) (nowMs : Millis) : Except String (Option Millis) :=
  match schedule with
  | .cron spec => if !isFiniteTimestamp nowMs then .ok none else cron.previousRun spec nowMs
  | _ => .ok none

/-- The attempts to find a slot behind `nowMs`, from a cursor on. -/
def nextAttempts (spec : CronExpr) (offset : Nat) (nowMs : Millis) :
    Nat → Millis → Except String (Option Millis)
  | 0, _ => .ok none
  | attempts + 1, cursorMs => do
      match ← computeNextRunAtMs cron (.cron spec) cursorMs with
      | none => .ok none
      | some baseNext =>
          let shifted := baseNext + offset
          if isFiniteTimestamp shifted && nowMs < shifted then .ok (some shifted)
          else nextAttempts spec offset nowMs attempts (max (cursorMs + 1) (baseNext + 1000))

/-- The attempts to find a slot that is not after `nowMs`. -/
def previousAttempts (spec : CronExpr) (offset : Nat) (nowMs : Millis) :
    Nat → Millis → Except String (Option Millis)
  | 0, _ => .ok none
  | attempts + 1, cursorMs => do
      match ← computePreviousRunAtMs cron (.cron spec) cursorMs with
      | none => .ok none
      | some basePrevious =>
          let shifted := basePrevious + offset
          if isFiniteTimestamp shifted && shifted ≤ nowMs then .ok (some shifted)
          else previousAttempts spec offset nowMs attempts (max 0 (basePrevious - 1000))

def computeStaggeredCronNextRunAtMs (job : Job) (nowMs : Millis) :
    Except String (Option Millis) :=
  match job.schedule with
  | .cron spec =>
      let offset := offsetMs cron job.id spec
      if offset = 0 then computeNextRunAtMs cron job.schedule nowMs
      else nextAttempts cron spec offset nowMs 4 (max 0 (nowMs - offset))
  | schedule => computeNextRunAtMs cron schedule nowMs

def computeStaggeredCronPreviousRunAtMs (job : Job) (nowMs : Millis) :
    Except String (Option Millis) :=
  match job.schedule with
  | .cron spec =>
      let offset := offsetMs cron job.id spec
      if offset = 0 then computePreviousRunAtMs cron job.schedule nowMs
      else previousAttempts cron spec offset nowMs 4 (max 0 (nowMs - offset))
  | _ => .ok none

def computeStaggeredCronPreviousRunAtOrBeforeMs (job : Job) (nowMs : Millis) :
    Except String (Option Millis) := do
  let previous ← computeStaggeredCronPreviousRunAtMs cron job nowMs
  let probeMs := nowMs + 1000
  if !isFiniteTimestamp probeMs then .ok previous
  else
    -- The query is strict and looks at whole seconds: it is asked again past the current one.
    match ← computeStaggeredCronPreviousRunAtMs cron job probeMs with
    | none => .ok previous
    | some boundary =>
        let later :=
          match previous.bind asDateTimestampMs with
          | none => true
          | some previous => previous < boundary
        if isFiniteTimestamp boundary && boundary ≤ nowMs && later then .ok (some boundary)
        else .ok previous

def resolveEveryAnchorMs (anchorMs : Option Millis) (fallbackAnchorMs : Millis) : Millis :=
  match anchorMs.bind asDateTimestampMs with
  | some coerced => ((max 0 ⌊coerced⌋ : Int) : Millis)
  | none =>
      if isFiniteTimestamp fallbackAnchorMs then ((max 0 ⌊fallbackAnchorMs⌋ : Int) : Millis) else 0

def hasInvalidExplicitEveryAnchor : Option Millis → Bool
  | none => false
  | some anchorMs => !isFiniteTimestamp anchorMs || anchorMs < 0

/-- The anchor of a recurring job: an explicit one, or the time of its creation. -/
def Job.everyAnchorMs (job : Job) (anchorMs : Option Millis) (nowMs : Millis) : Millis :=
  resolveEveryAnchorMs anchorMs (if isFiniteTimestamp job.createdAtMs then job.createdAtMs else nowMs)

/-- `computeJobNextRunAtMs` of a recurring interval. -/
def computeJobNextEveryMs (job : Job) (everyMs : Millis) (anchorMs : Option Millis)
    (nowMs : Millis) : Except String (Option Millis) :=
  if hasInvalidExplicitEveryAnchor anchorMs then .ok none
  else if !isFiniteTimestamp everyMs ∨ ⌊everyMs⌋ < 1 then .ok none
  else
    let anchor := job.everyAnchorMs anchorMs nowMs
    let counted := (computeNextRunAtMs cron (.every ⌊everyMs⌋ (some anchor)) nowMs).map fun next =>
      next.bind asDateTimestampMs
    match job.state.lastRunAtMs with
    | none => counted
    | some lastRunAtMs =>
        if isFiniteTimestamp lastRunAtMs && anchor ≤ lastRunAtMs then
          let nextFromLastRun : Millis := ⌊lastRunAtMs⌋ + ⌊everyMs⌋
          if !isFiniteTimestamp nextFromLastRun then .ok none
          else if nowMs < nextFromLastRun then .ok (some nextFromLastRun)
          else counted
        else counted

/-- `computeJobNextRunAtMs` of a one-shot time: due until it finished, unless it was moved on. -/
def computeJobNextAtMs (job : Job) (atMs : Option Millis) : Option Millis :=
  match job.state.lastRunAtMs with
  | some lastRunAtMs =>
      if resolveJobLastRunStatus job = some .ok ∧ lastRunAtMs ≠ 0 then
        atMs.filter fun atMs => lastRunAtMs < atMs
      else atMs
  | none => atMs

def computeJobNextRunAtMs (job : Job) (nowMs : Millis) : Except String (Option Millis) :=
  if !job.isEnabled then .ok none
  else
    match job.schedule with
    | .every everyMs anchorMs => computeJobNextEveryMs cron job everyMs anchorMs nowMs
    | .at atMs => .ok (computeJobNextAtMs job atMs)
    | .cron _ => do
        match ← computeStaggeredCronNextRunAtMs cron job nowMs with
        | none => computeStaggeredCronNextRunAtMs cron job (⌊nowMs / 1000⌋ * 1000 + 1000)
        | some next => .ok (asDateTimestampMs next)
    | .onExit | .stream => .ok none

def computeJobPreviousRunAtOrBeforeMs (job : Job) (nowMs : Millis) :
    Except String (Option Millis) :=
  match job.schedule with
  | .cron _ =>
      if !job.isEnabled then .ok none
      else (computeStaggeredCronPreviousRunAtOrBeforeMs cron job nowMs).map fun previous =>
        previous.bind asDateTimestampMs
  | _ => .ok none

end OpenClaw.CronSchedule
