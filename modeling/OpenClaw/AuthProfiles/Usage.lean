import Mathlib.Data.Nat.Log
import OpenClaw.AuthProfiles.UsageState

/-!
What a failure and a provider-reported block write into the usage record. Billing
and permanent-auth failures open the disabled window, every other reason the
cooldown; an open window keeps its end, and a cooldown keeps its model only while
each failure names that model.
-/

namespace OpenClaw.AuthProfiles

/-! ### Backoff -/

def calculateAuthProfileCooldownMs (errorCount : Nat) : Nat :=
  let normalized := max 1 errorCount
  if normalized ≤ 1 then 30000
  else if normalized ≤ 2 then 60000
  else 5 * 60000

def RATE_LIMIT_BACKOFF_BASE_MS : Nat := 30000
def RATE_LIMIT_BACKOFF_MAX_MS : Nat := 24 * 60 * 60 * 1000

structure ResolvedAuthCooldownConfig where
  billingBackoffMs : Nat
  billingMaxMs : Nat
  authPermanentBackoffMs : Nat
  authPermanentMaxMs : Nat
  failureWindowMs : Nat

def DEFAULT_BILLING_BACKOFF_HOURS : Nat := 5
def DEFAULT_BILLING_MAX_HOURS : Nat := 24
def DEFAULT_AUTH_PERMANENT_BACKOFF_MINUTES : Nat := 10
def DEFAULT_AUTH_PERMANENT_MAX_MINUTES : Nat := 60
def DEFAULT_FAILURE_WINDOW_HOURS : Nat := 24

def resolveAuthCooldownConfig : ResolvedAuthCooldownConfig where
  billingBackoffMs := DEFAULT_BILLING_BACKOFF_HOURS * 60 * 60 * 1000
  billingMaxMs := DEFAULT_BILLING_MAX_HOURS * 60 * 60 * 1000
  authPermanentBackoffMs := DEFAULT_AUTH_PERMANENT_BACKOFF_MINUTES * 60 * 1000
  authPermanentMaxMs := DEFAULT_AUTH_PERMANENT_MAX_MINUTES * 60 * 1000
  failureWindowMs := DEFAULT_FAILURE_WINDOW_HOURS * 60 * 60 * 1000

/-- The exponent's bound is the logarithm of the quotient, rounded up. -/
def calculateCappedExponentialBackoffMs (errorCount baseMs maxMs : Nat) : Nat :=
  let normalized := max 1 errorCount
  let baseMs := max 1 baseMs
  let maxMs := max baseMs maxMs
  let maxExponent := Nat.clog 2 ((maxMs + baseMs - 1) / baseMs)
  let exponent := min (normalized - 1) maxExponent
  let raw := baseMs * 2 ^ exponent
  min maxMs raw

inductive DisabledFailureReason where
  | billing | auth_permanent
  deriving DecidableEq, Repr

def disabledFailureReason : AuthProfileFailureReason → Option DisabledFailureReason
  | .billing => some .billing
  | .auth_permanent => some .auth_permanent
  | _ => none

def resolveDisabledFailureBackoffMs (cfg : ResolvedAuthCooldownConfig) (errorCount : Nat) :
    DisabledFailureReason → Nat
  | .billing =>
      calculateCappedExponentialBackoffMs errorCount cfg.billingBackoffMs cfg.billingMaxMs
  | .auth_permanent =>
      calculateCappedExponentialBackoffMs errorCount cfg.authPermanentBackoffMs
        cfg.authPermanentMaxMs

/-- A window that would end after the last representable date ends at once. -/
def resolveUsageWindowUntil (now durationMs : Nat) : ℚ :=
  if durationMs = 0 then now
  else if now + durationMs ≤ MAX_DATE_TIMESTAMP_MS then (now + durationMs : Nat)
  else now

def keepActiveWindowOrRecompute (existingUntil : Option ℚ) (now : Nat) (recomputedUntil : ℚ) : ℚ :=
  (existingUntil.filter fun u => decide ((now : ℚ) < u)).getD recomputedUntil

/-! ### The updates -/

def shouldResetAggregateCounter (existing : ProfileUsageStats) (now windowMs : Nat) : Bool :=
  let windowExpired := existing.lastFailureAt.any fun last =>
    decide (0 < last ∧ windowMs < now - last)
  let previousCooldownExpired := (resolveProfileUnusableUntil existing none).any fun u =>
    decide (u ≤ (now : ℚ))
  windowExpired || previousCooldownExpired

def nextFailureCounts (existing : ProfileUsageStats) (now windowMs : Nat)
    (reason : AuthProfileFailureReason) : AuthProfileFailureReason → Nat :=
  let kept : AuthProfileFailureReason → Nat :=
    if shouldResetAggregateCounter existing now windowMs then
      fun r => if r = .rate_limit then existing.failureCounts .rate_limit else 0
    else existing.failureCounts
  fun r => if r = reason then kept r + 1 else kept r

def nextErrorCount (existing : ProfileUsageStats) (now windowMs : Nat) : Nat :=
  (if shouldResetAggregateCounter existing now windowMs then 0 else existing.errorCount) + 1

/-- While the cooldown is active its scope can only widen. -/
def nextCooldownModel (existing : ProfileUsageStats) (now : Nat)
    (reason : AuthProfileFailureReason) (modelId : Option String) : Option String :=
  let existingCooldownActive := existing.cooldownUntil.any fun u => decide ((now : ℚ) < u)
  if existingCooldownActive then
    if (named existing.cooldownModel).isSome && (named modelId).isSome &&
        existing.cooldownModel != modelId then none
    else if isModelScopedCooldownReason reason && (named modelId).isNone &&
        (named existing.cooldownModel).isSome then none
    else if !isModelScopedCooldownReason reason then none
    else existing.cooldownModel
  else if isModelScopedCooldownReason reason then modelId
  else none

def computeNextProfileUsageStats (existing : ProfileUsageStats) (now : Nat)
    (reason : AuthProfileFailureReason) (cfgResolved : ResolvedAuthCooldownConfig)
    (modelId : Option String) : ProfileUsageStats :=
  let nextErrors := nextErrorCount existing now cfgResolved.failureWindowMs
  let failureCounts := nextFailureCounts existing now cfgResolved.failureWindowMs reason
  let updatedStats : ProfileUsageStats :=
    { existing with
      cooldownClassification := none
      errorCount := nextErrors
      failureCounts := failureCounts
      lastFailureAt := some now }
  match disabledFailureReason reason with
  | some disabled =>
      let backoffMs := resolveDisabledFailureBackoffMs cfgResolved (failureCounts reason) disabled
      { updatedStats with
        disabledUntil := some <| keepActiveWindowOrRecompute existing.disabledUntil now
          (resolveUsageWindowUntil now backoffMs)
        disabledReason := some reason }
  | none =>
      let backoffMs :=
        if reason = .rate_limit then
          calculateCappedExponentialBackoffMs (failureCounts .rate_limit)
            RATE_LIMIT_BACKOFF_BASE_MS RATE_LIMIT_BACKOFF_MAX_MS
        else calculateAuthProfileCooldownMs nextErrors
      { updatedStats with
        cooldownUntil := some <| keepActiveWindowOrRecompute existing.cooldownUntil now
          (resolveUsageWindowUntil now backoffMs)
        cooldownReason := some reason
        cooldownModel := nextCooldownModel existing now reason modelId }

def resolveActiveWindowUntil (value : Option ℚ) (now : Nat) : ℚ :=
  ((asDateTimestampMs value).filter fun u => decide ((now : ℚ) < u)).getD 0

def buildBlockedProfileUsageStats (previousStats : ProfileUsageStats) (blockedUntil : ℚ)
    (source : AuthProfileBlockedSource) (modelId : Option String) (now : Nat) :
    ProfileUsageStats :=
  let activeBlockedUntil := resolveActiveWindowUntil previousStats.blockedUntil now
  let blockedModel :=
    if activeBlockedUntil = 0 then modelId
    else if previousStats.blockedScope = some .model && previousStats.blockedModel == modelId &&
        (named modelId).isSome then modelId
    else none
  { previousStats with
    blockedUntil := some (max activeBlockedUntil blockedUntil)
    blockedReason := some .subscription_limit
    blockedSource := some source
    blockedModel := blockedModel
    blockedScope := if (named blockedModel).isSome then some .model else none
    cooldownUntil := none
    cooldownReason := none
    cooldownClassification := none
    cooldownModel := none
    lastFailureAt := some now
    failureCounts := fun reason =>
      if reason = .rate_limit then previousStats.failureCounts .rate_limit + 1
      else previousStats.failureCounts reason }

/-! ### How long a window lasts -/

theorem calculateCappedExponentialBackoffMs_pos (errorCount baseMs maxMs : Nat) :
    0 < calculateCappedExponentialBackoffMs errorCount baseMs maxMs := by
  have base : 0 < max 1 baseMs := Nat.lt_of_lt_of_le Nat.one_pos (Nat.le_max_left _ _)
  exact Nat.lt_min.mpr ⟨base.trans_le (Nat.le_max_left _ _),
    Nat.mul_pos base (Nat.two_pow_pos _)⟩

theorem calculateCappedExponentialBackoffMs_le {errorCount baseMs maxMs : Nat} (pos : 0 < baseMs)
    (le : baseMs ≤ maxMs) : calculateCappedExponentialBackoffMs errorCount baseMs maxMs ≤ maxMs := by
  refine (Nat.min_le_left _ _).trans ?_
  rw [Nat.max_eq_right (Nat.succ_le_of_lt pos), Nat.max_eq_right le]

theorem calculateCappedExponentialBackoffMs_mono {few many : Nat} (le : few ≤ many)
    (baseMs maxMs : Nat) : calculateCappedExponentialBackoffMs few baseMs maxMs ≤
      calculateCappedExponentialBackoffMs many baseMs maxMs := by
  refine min_le_min_left _ (Nat.mul_le_mul_left _ (Nat.pow_le_pow_right Nat.two_pos ?_))
  exact min_le_min_right _ (Nat.sub_le_sub_right (max_le_max_left _ le) _)

def DAY_MS : Nat := 24 * 60 * 60 * 1000

theorem calculateAuthProfileCooldownMs_bounds (errorCount : Nat) :
    0 < calculateAuthProfileCooldownMs errorCount ∧
      calculateAuthProfileCooldownMs errorCount ≤ DAY_MS := by
  unfold calculateAuthProfileCooldownMs DAY_MS
  dsimp only
  split
  · omega
  · split <;> omega

theorem resolveDisabledFailureBackoffMs_bounds (errorCount : Nat)
    (reason : DisabledFailureReason) :
    0 < resolveDisabledFailureBackoffMs resolveAuthCooldownConfig errorCount reason ∧
      resolveDisabledFailureBackoffMs resolveAuthCooldownConfig errorCount reason ≤ DAY_MS := by
  cases reason with
  | billing =>
      exact ⟨calculateCappedExponentialBackoffMs_pos _ _ _,
        calculateCappedExponentialBackoffMs_le (by decide) (by decide)⟩
  | auth_permanent =>
      exact ⟨calculateCappedExponentialBackoffMs_pos _ _ _,
        (calculateCappedExponentialBackoffMs_le (by decide) (by decide)).trans (by decide)⟩

/-- The length of the window a rate-limit failure opens. -/
def rateLimitBackoffMs (count : Nat) : Nat :=
  calculateCappedExponentialBackoffMs count RATE_LIMIT_BACKOFF_BASE_MS RATE_LIMIT_BACKOFF_MAX_MS

theorem rateLimitBackoffMs_bounds (count : Nat) :
    0 < rateLimitBackoffMs count ∧ rateLimitBackoffMs count ≤ DAY_MS :=
  ⟨calculateCappedExponentialBackoffMs_pos _ _ _,
    calculateCappedExponentialBackoffMs_le (by decide) (by decide)⟩

theorem resolveUsageWindowUntil_of_fits {now durationMs : Nat}
    (fits : now + DAY_MS ≤ MAX_DATE_TIMESTAMP_MS) (le : durationMs ≤ DAY_MS) :
    resolveUsageWindowUntil now durationMs = (now + durationMs : Nat) := by
  unfold resolveUsageWindowUntil
  split
  · simp [*]
  · rw [if_pos ((Nat.add_le_add_left le _).trans fits)]

theorem resolveUsageWindowUntil_le {now : Nat} (date : now ≤ MAX_DATE_TIMESTAMP_MS)
    (durationMs : Nat) : resolveUsageWindowUntil now durationMs ≤ MAX_DATE_TIMESTAMP_MS := by
  unfold resolveUsageWindowUntil
  split
  · exact Nat.cast_le.mpr date
  · split
    · rename_i fits
      exact Nat.cast_le.mpr fits
    · exact Nat.cast_le.mpr date

/-! ### Windows that are open stay as they are -/

/-- A timestamp the store holds is a date. -/
def WithinDates (until_ : Option ℚ) : Prop := ∀ u ∈ until_, u ≤ MAX_DATE_TIMESTAMP_MS

theorem isActive_iff_of_withinDates {until_ : Option ℚ} (dates : WithinDates until_) (now : Nat) :
    isActiveUnusableWindow until_ now = until_.any fun u => decide ((now : ℚ) < u) := by
  cases until_ with
  | none => rfl
  | some u =>
      rw [Bool.eq_iff_iff, isActiveUnusableWindow_some, Option.any_some, decide_eq_true_eq]
      exact and_iff_right (dates u rfl)

theorem keepActiveWindowOrRecompute_of_active {until_ : Option ℚ} {now : Nat}
    (active : isActiveUnusableWindow until_ now = true) (recomputedUntil : ℚ) :
    some (keepActiveWindowOrRecompute until_ now recomputedUntil) = until_ := by
  cases until_ with
  | none => simp at active
  | some u =>
      have lt := (isActiveUnusableWindow_some.mp active).2
      simp [keepActiveWindowOrRecompute, Option.filter_some, lt]

theorem keepActiveWindowOrRecompute_of_inactive {until_ : Option ℚ} {now : Nat}
    (dates : WithinDates until_) (inactive : isActiveUnusableWindow until_ now = false)
    (recomputedUntil : ℚ) :
    keepActiveWindowOrRecompute until_ now recomputedUntil = recomputedUntil := by
  cases until_ with
  | none => rfl
  | some u =>
      rw [isActive_iff_of_withinDates dates, Option.any_some, decide_eq_false_iff_not] at inactive
      simp [keepActiveWindowOrRecompute, Option.filter_some, inactive]

theorem withinDates_keepActiveWindowOrRecompute {until_ : Option ℚ} (dates : WithinDates until_)
    (now : Nat) {recomputedUntil : ℚ} (le : recomputedUntil ≤ MAX_DATE_TIMESTAMP_MS) :
    WithinDates (some (keepActiveWindowOrRecompute until_ now recomputedUntil)) := by
  cases active : isActiveUnusableWindow until_ now with
  | true => rwa [keepActiveWindowOrRecompute_of_active active]
  | false =>
      rw [keepActiveWindowOrRecompute_of_inactive dates active]
      rintro u ⟨⟩
      exact le

/-- Whether kept or opened anew, the window is active afterwards. -/
theorem isActive_keepActiveWindowOrRecompute {until_ : Option ℚ} {now durationMs : Nat}
    (dates : WithinDates until_) (fits : now + DAY_MS ≤ MAX_DATE_TIMESTAMP_MS)
    (pos : 0 < durationMs) (le : durationMs ≤ DAY_MS) :
    isActiveUnusableWindow (some (keepActiveWindowOrRecompute until_ now
      (resolveUsageWindowUntil now durationMs))) now = true := by
  cases active : isActiveUnusableWindow until_ now with
  | true => rwa [keepActiveWindowOrRecompute_of_active active]
  | false =>
      rw [keepActiveWindowOrRecompute_of_inactive dates active,
        resolveUsageWindowUntil_of_fits fits le, isActiveUnusableWindow_some]
      exact ⟨Nat.cast_le.mpr ((Nat.add_le_add_left le _).trans fits),
        Nat.cast_lt.mpr (Nat.lt_add_of_pos_right pos)⟩

end OpenClaw.AuthProfiles
