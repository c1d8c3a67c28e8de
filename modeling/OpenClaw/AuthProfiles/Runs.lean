import OpenClaw.AuthProfiles.History

/-!
What holds in every history of a profile: a failing model is in cooldown at once,
open windows keep their ends, a profile is usable during a cooldown only for a model
none of the window's failures named, and the windows of repeated rate limits grow up
to a day. The sweep and the update made under the lock agree on what has expired.
-/

namespace OpenClaw.AuthProfiles

open Transition (Reaches Any)

/-! ### Cooldowns -/

/-- Usable during a cooldown: the model asked for is not the one the window's failures
name, and nothing else covers it. -/
theorem usable_of_active {h : History} (sound : h.Sound) {now : Nat} {forModel : Option String}
    (later : h.clock ≤ now) (active : isActiveUnusableWindow h.stats.cooldownUntil now = true)
    (usable : isProfileInCooldown (some h.stats) now forModel = false) :
    (∃ x, forModel ≠ some x ∧ (∃ f ∈ h.window, f.disables = false) ∧
      ∀ f ∈ h.window, f.disables = false →
        isModelScopedCooldownReason f.reason = true ∧ f.model = some x) ∧
      isBlockedWindowActiveForModel h.stats now forModel = false ∧
      isActiveUnusableWindow h.stats.disabledUntil now = false := by
  rw [isProfileInCooldown_some, active, Bool.and_true, Bool.or_eq_false_iff,
    Bool.or_eq_false_iff] at usable
  obtain ⟨⟨unblocked, enabled⟩, away⟩ := usable
  refine ⟨?_, unblocked, enabled⟩
  simp only [scopedAway, Bool.not_eq_false', Option.any_eq_true, Bool.and_eq_true,
    bne_iff_ne] at away
  obtain ⟨m, asked, -, x, scope, differs⟩ := away
  have open_ := isActiveUnusableWindow_earlier later active
  refine ⟨x, fun same => differs ?_, sound.scope open_ x scope⟩
  rw [same] at asked
  exact Option.some.inj ((named_eq_some.mp asked).1)

/-- Time goes on and, resets aside, rate limits are only ever added. -/
theorem History.step_grows {h h' : History} {e : Event} (kept : e.isReset = false)
    (taken : h.step e = some h') :
    h.rateLimitCount ≤ h'.rateLimitCount ∧ h.clock ≤ h'.clock := by
  obtain ⟨⟨later, -⟩, rfl⟩ := History.step_eq_some.mp taken
  refine ⟨?_, by cases e <;> exact later⟩
  cases e with
  | failure f =>
      simp only [History.rateLimitCount, History.apply, failureCounts_computeNext]
      exact rateLimitCount_le_nextFailureCounts _ _ _ _
  | block now blockedUntil source model =>
      simp [History.rateLimitCount, History.apply, buildBlockedProfileUsageStats]
  | sweep now =>
      simp only [History.rateLimitCount, History.apply, rateLimitCount_clearExpiredCooldowns]
      exact le_rfl
  | reset now => cases kept

theorem History.grows_of_reaches {h h' : History}
    (run : Reaches History.step (fun _ e => e.isReset = false) h h') :
    h.rateLimitCount ≤ h'.rateLimitCount ∧ h.clock ≤ h'.clock :=
  run.relates (R := fun a b => a.rateLimitCount ≤ b.rateLimitCount ∧ a.clock ≤ b.clock)
    (fun _ => ⟨le_rfl, le_rfl⟩) (fun _ _ _ ab bc => ⟨ab.1.trans bc.1, ab.2.trans bc.2⟩)
    fun _ _ _ kept taken => History.step_grows kept taken

/-- A rate limit that finds no cooldown active opens one whose length its count gives. -/
theorem cooldownUntil_of_opens {h : History} (sound : h.Sound) {f : Failure}
    (limited : f.reason = .rate_limit)
    (opens : isActiveUnusableWindow h.stats.cooldownUntil f.now = false)
    (fits : f.now + DAY_MS ≤ MAX_DATE_TIMESTAMP_MS) :
    (h.apply (.failure f)).stats.cooldownUntil =
      some (f.now + rateLimitBackoffMs (h.apply (.failure f)).rateLimitCount : Nat) := by
  have count : (h.apply (.failure f)).rateLimitCount =
      nextFailureCounts h.stats f.now resolveAuthCooldownConfig.failureWindowMs f.reason
        .rate_limit := by
    simp only [History.rateLimitCount, History.apply, failureCounts_computeNext]
  rw [count]
  simp only [History.apply, computeNextProfileUsageStats, limited, disabledFailureReason, if_true]
  rw [keepActiveWindowOrRecompute_of_inactive sound.cooldownDates opens]
  exact congrArg some (resolveUsageWindowUntil_of_fits fits (rateLimitBackoffMs_bounds _).2)

section Agreement

variable (stats : ProfileUsageStats) {ts now : Nat}

theorem resolve_clearExpiredCooldowns (le : ts ≤ now) :
    (resolveProfileUnusableUntil (clearExpiredCooldowns stats ts) none).any
        (fun u => decide ((now : ℚ) < u)) =
      (resolveProfileUnusableUntil stats none).any fun u => decide ((now : ℚ) < u) := by
  rw [resolveProfileUnusableUntil_active, resolveProfileUnusableUntil_active,
    isBlockedWindowActive_clearExpiredCooldowns stats le, cooldownUntil_clearExpiredCooldowns,
    disabledUntil_clearExpiredCooldowns, isActive_cleared le, isActive_cleared le]

/-- Either the sweep left the counters and what the update will make of them, or it has
reset them as the update would have done. -/
theorem clearExpiredCooldowns_cases (date : ts ≤ MAX_DATE_TIMESTAMP_MS) (le : ts ≤ now)
    (windowMs : Nat) :
    ((clearExpiredCooldowns stats ts).errorCount = stats.errorCount ∧
      (clearExpiredCooldowns stats ts).failureCounts = stats.failureCounts ∧
      shouldResetAggregateCounter (clearExpiredCooldowns stats ts) now windowMs =
        shouldResetAggregateCounter stats now windowMs) ∨
    ((clearExpiredCooldowns stats ts).errorCount = 0 ∧
      ((clearExpiredCooldowns stats ts).failureCounts = fun reason =>
        if reason = .rate_limit then stats.failureCounts .rate_limit else 0) ∧
      shouldResetAggregateCounter stats now windowMs = true) := by
  have counters := counters_clearExpiredCooldowns stats ts
  have active := resolve_clearExpiredCooldowns stats le
  have ended (until_ : Option ℚ) : until_.any (fun u => decide (u ≤ (now : ℚ))) =
      (until_.isSome && !until_.any fun u => decide ((now : ℚ) < u)) := by
    cases until_ with
    | none => rfl
    | some u => simp [← not_lt]
  cases swept : sweeps stats ts with
  | false =>
      rw [clearExpiredCooldowns_of_not_sweeps swept]
      exact .inl ⟨rfl, rfl, rfl⟩
  | true =>
      have was : (resolveProfileUnusableUntil stats none).isSome = true := by
        simp only [sweeps, Bool.or_eq_true] at swept
        rw [isSome_resolveProfileUnusableUntil]
        rcases swept with (done | done) | done <;> simp [pending_of_expired date done]
      cases left : (resolveProfileUnusableUntil (clearExpiredCooldowns stats ts) none).isNone with
      | true =>
          simp only [swept, left, Bool.and_self, if_true] at counters
          refine .inr ⟨counters.1, counters.2, ?_⟩
          rw [Option.isNone_iff_eq_none.mp left, Option.any_none] at active
          simp only [shouldResetAggregateCounter, ended, was, ← active, Bool.not_false,
            Bool.and_self, Bool.or_true]
      | false =>
          simp only [swept, left, Bool.and_false, Bool.false_eq_true, if_false] at counters
          refine .inl ⟨counters.1, counters.2, ?_⟩
          have remains : (resolveProfileUnusableUntil (clearExpiredCooldowns stats ts) none).isSome =
              true := by
            cases h : resolveProfileUnusableUntil (clearExpiredCooldowns stats ts) none with
            | none => rw [h] at left; cases left
            | some u => rfl
          simp only [shouldResetAggregateCounter, ended, was, remains, active,
            lastFailureAt_clearExpiredCooldowns]

theorem nextErrorCount_clearExpiredCooldowns (date : ts ≤ MAX_DATE_TIMESTAMP_MS) (le : ts ≤ now)
    (windowMs : Nat) : nextErrorCount (clearExpiredCooldowns stats ts) now windowMs =
      nextErrorCount stats now windowMs := by
  rcases clearExpiredCooldowns_cases stats date le windowMs with same | reset
  · simp only [nextErrorCount, same]
  · simp [nextErrorCount, reset]

theorem nextFailureCounts_clearExpiredCooldowns (date : ts ≤ MAX_DATE_TIMESTAMP_MS)
    (le : ts ≤ now) (windowMs : Nat) (reason : AuthProfileFailureReason) :
    nextFailureCounts (clearExpiredCooldowns stats ts) now windowMs reason =
      nextFailureCounts stats now windowMs reason := by
  rcases clearExpiredCooldowns_cases stats date le windowMs with same | reset
  · simp only [nextFailureCounts, same]
  · have kept : (fun r : AuthProfileFailureReason =>
        if r = .rate_limit then (clearExpiredCooldowns stats ts).failureCounts .rate_limit else 0) =
        (clearExpiredCooldowns stats ts).failureCounts := by
      rw [reset.2.1]
      simp
    simp only [nextFailureCounts, reset.2.2, kept, ite_self, if_true]
    rw [reset.2.1]

theorem not_lt_of_expired {until_ : Option ℚ} (le : ts ≤ now) (done : expired until_ ts = true) :
    until_.filter (fun u => decide ((now : ℚ) < u)) = none := by
  cases until_ with
  | none => rfl
  | some u =>
      simp only [expired, Option.any_some, decide_eq_true_eq] at done
      have : (ts : ℚ) ≤ now := Nat.cast_le.mpr le
      simp [Option.filter_some, not_lt.mpr (done.2.trans this)]

theorem keepActiveWindowOrRecompute_cleared {until_ : Option ℚ} (le : ts ≤ now) (v : ℚ) :
    keepActiveWindowOrRecompute (if expired until_ ts then none else until_) now v =
      keepActiveWindowOrRecompute until_ now v := by
  cases done : expired until_ ts with
  | false => simp
  | true => simp [keepActiveWindowOrRecompute, not_lt_of_expired le done]

theorem nextCooldownModel_clearExpiredCooldowns (le : ts ≤ now)
    (reason : AuthProfileFailureReason) (modelId : Option String) :
    nextCooldownModel (clearExpiredCooldowns stats ts) now reason modelId =
      nextCooldownModel stats now reason modelId := by
  simp only [nextCooldownModel, cooldownUntil_clearExpiredCooldowns,
    cooldownModel_clearExpiredCooldowns]
  cases done : expired stats.cooldownUntil ts with
  | false => simp
  | true =>
      have inactive : stats.cooldownUntil.any (fun u => decide ((now : ℚ) < u)) = false := by
        have none := not_lt_of_expired le done
        cases h : stats.cooldownUntil with
        | none => rfl
        | some u => simpa [h, Option.filter_some] using none
      simp [inactive]

/-- A failure recorded over a swept record and one recorded over what is still on disk
leave the same counters, and the profile is usable for the same models ever after. -/
theorem failure_after_sweep (date : ts ≤ MAX_DATE_TIMESTAMP_MS) (le : ts ≤ now)
    (reason : AuthProfileFailureReason) (cfg : ResolvedAuthCooldownConfig)
    (modelId : Option String) :
    let swept := computeNextProfileUsageStats (clearExpiredCooldowns stats ts) now reason cfg modelId
    let onDisk := computeNextProfileUsageStats stats now reason cfg modelId
    swept.errorCount = onDisk.errorCount ∧ swept.failureCounts = onDisk.failureCounts ∧
      ∀ later forModel, now ≤ later → isProfileInCooldown (some swept) later forModel =
        isProfileInCooldown (some onDisk) later forModel := by
  have counts := nextFailureCounts_clearExpiredCooldowns stats date le cfg.failureWindowMs reason
  have errors := nextErrorCount_clearExpiredCooldowns stats date le cfg.failureWindowMs
  refine ⟨?_, ?_, fun later forModel after => ?_⟩
  · simp only [computeNextProfileUsageStats]
    cases disabledFailureReason reason <;> exact errors
  · rw [failureCounts_computeNext, failureCounts_computeNext, counts]
  · have blocked := isBlockedWindowActive_clearExpiredCooldowns stats (le.trans after) forModel
    rw [isProfileInCooldown_some, isProfileInCooldown_some]
    simp only [computeNextProfileUsageStats]
    cases disabledFailureReason reason with
    | some disabled =>
        have cooldown := cooldownActive_clearExpiredCooldowns stats (le.trans after) forModel
        simp only [disabledUntil_clearExpiredCooldowns, counts]
        rw [keepActiveWindowOrRecompute_cleared le]
        exact congrArg₂ (· || ·) (congrArg (· || _) blocked) cooldown
    | none =>
        simp only [cooldownUntil_clearExpiredCooldowns, counts, errors]
        rw [keepActiveWindowOrRecompute_cleared le, nextCooldownModel_clearExpiredCooldowns stats le]
        refine congrArg₂ (· || ·) (congrArg₂ (· || ·) blocked ?_) rfl
        show isActiveUnusableWindow (clearExpiredCooldowns stats ts).disabledUntil later = _
        rw [disabledUntil_clearExpiredCooldowns, isActive_cleared (le.trans after)]

end Agreement

/-- Three failures whose cooldown ended before the sweep. -/
theorem failure_after_sweep_expired :
    let stats : ProfileUsageStats := { cooldownUntil := some 5, errorCount := 3 }
    (computeNextProfileUsageStats (clearExpiredCooldowns stats 10) 20 .timeout
        resolveAuthCooldownConfig (some "a")).errorCount =
      (computeNextProfileUsageStats stats 20 .timeout resolveAuthCooldownConfig
        (some "a")).errorCount :=
  (failure_after_sweep { cooldownUntil := some 5, errorCount := 3 }
    (by decide : 10 ≤ MAX_DATE_TIMESTAMP_MS) (by decide : 10 ≤ 20) .timeout
    resolveAuthCooldownConfig (some "a")).1

end OpenClaw.AuthProfiles
