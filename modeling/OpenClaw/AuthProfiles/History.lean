import OpenClaw.AuthProfiles.Usage
import OpenClaw.Lib.Transition

/-!
Histories of one profile: failures, provider-reported blocks, sweeps and resets at
times that do not go back. Beside the usage record a history keeps the failures
recorded since the present cooldown window was opened, which is what the window's
scope has to account for.
-/

namespace OpenClaw.AuthProfiles

structure Failure where
  now : Nat
  reason : AuthProfileFailureReason
  model : Option String
  deriving DecidableEq

/-- The failure opens or keeps the disabled window and leaves the cooldown alone. -/
def Failure.disables (f : Failure) : Bool := (disabledFailureReason f.reason).isSome

inductive Event where
  | failure (f : Failure)
  | block (now : Nat) (blockedUntil : ℚ) (source : AuthProfileBlockedSource)
      (model : Option String)
  | sweep (now : Nat)
  | reset (now : Nat)

def Event.now : Event → Nat
  | .failure f => f.now
  | .block now _ _ _ => now
  | .sweep now => now
  | .reset now => now

/-- The clock shows a date, and a block reported by the provider ends at one that was
in the future when it was reported. -/
def Event.Valid : Event → Prop
  | .block now blockedUntil _ _ =>
      now ≤ MAX_DATE_TIMESTAMP_MS ∧ 0 < blockedUntil ∧ blockedUntil ≤ MAX_DATE_TIMESTAMP_MS
  | e => e.now ≤ MAX_DATE_TIMESTAMP_MS

instance (e : Event) : Decidable e.Valid := by
  cases e <;> unfold Event.Valid <;> infer_instance

def Event.isReset : Event → Bool
  | .reset _ => true
  | _ => false

structure History where
  stats : ProfileUsageStats := {}
  clock : Nat := 0
  window : List Failure := []

namespace History

def rateLimitCount (h : History) : Nat := h.stats.failureCounts .rate_limit

/-- The failures of the window after one more: a failure with no window open begins it,
unless it goes to the disabled window. -/
def windowAfter (h : History) (f : Failure) : List Failure :=
  if isActiveUnusableWindow h.stats.cooldownUntil f.now then h.window ++ [f]
  else if f.disables then [] else [f]

def apply (h : History) : Event → History
  | .failure f =>
      { stats := computeNextProfileUsageStats h.stats f.now f.reason resolveAuthCooldownConfig
          f.model
        clock := f.now
        window := h.windowAfter f }
  | .block now blockedUntil source model =>
      { stats := buildBlockedProfileUsageStats h.stats blockedUntil source model now
        clock := now
        window := [] }
  | .sweep now => { h with stats := clearExpiredCooldowns h.stats now, clock := now }
  | .reset now => { stats := resetAuthProfileFailureState h.stats, clock := now, window := [] }

def step (h : History) (e : Event) : Option History :=
  if h.clock ≤ e.now ∧ e.Valid then some (h.apply e) else none

theorem step_eq_some {h h' : History} {e : Event} :
    step h e = some h' ↔ (h.clock ≤ e.now ∧ e.Valid) ∧ h' = h.apply e := by
  unfold step
  split <;> simp_all [eq_comm]

end History

/-! ### One failure -/

section Failure

variable (existing : ProfileUsageStats) (now : Nat) (reason : AuthProfileFailureReason)
  (cfg : ResolvedAuthCooldownConfig) (modelId : Option String)

theorem cooldownUntil_computeNext_of_active
    (active : isActiveUnusableWindow existing.cooldownUntil now = true) :
    (computeNextProfileUsageStats existing now reason cfg modelId).cooldownUntil =
      existing.cooldownUntil := by
  unfold computeNextProfileUsageStats
  cases disabledFailureReason reason with
  | none => exact keepActiveWindowOrRecompute_of_active active _
  | some disabled => rfl

theorem disabledUntil_computeNext_of_active
    (active : isActiveUnusableWindow existing.disabledUntil now = true) :
    (computeNextProfileUsageStats existing now reason cfg modelId).disabledUntil =
      existing.disabledUntil := by
  unfold computeNextProfileUsageStats
  cases disabledFailureReason reason with
  | none => rfl
  | some disabled => exact keepActiveWindowOrRecompute_of_active active _

theorem blockedUntil_computeNext :
    (computeNextProfileUsageStats existing now reason cfg modelId).blockedUntil =
      existing.blockedUntil := by
  unfold computeNextProfileUsageStats
  cases disabledFailureReason reason <;> rfl

theorem failureCounts_computeNext :
    (computeNextProfileUsageStats existing now reason cfg modelId).failureCounts =
      nextFailureCounts existing now cfg.failureWindowMs reason := by
  unfold computeNextProfileUsageStats
  cases disabledFailureReason reason <;> rfl

theorem rateLimitCount_le_nextFailureCounts (windowMs : Nat) :
    existing.failureCounts .rate_limit ≤
      nextFailureCounts existing now windowMs reason .rate_limit := by
  unfold nextFailureCounts
  cases shouldResetAggregateCounter existing now windowMs <;> simp <;> split <;> omega

end Failure

theorem named_eq_some {model : Option String} {x : String} :
    named model = some x ↔ model = some x ∧ x ≠ "" := by
  cases model with
  | none => simp [named]
  | some m =>
      simp only [named, Option.filter_some, Option.some.injEq, decide_eq_true_eq]
      split
      · rename_i nonempty
        simp only [Option.some.injEq]
        exact ⟨fun same => ⟨same, same ▸ nonempty⟩, fun both => both.1⟩
      · rename_i empty
        refine ⟨fun no => (by cases no), fun both => ?_⟩
        exact absurd (both.1 ▸ both.2) empty

/-- A cooldown that is left with a model is one whose failure named that model, and
so did the cooldown before it if it was still active. -/
theorem named_nextCooldownModel {existing : ProfileUsageStats} {now : Nat}
    {reason : AuthProfileFailureReason} {modelId : Option String} {x : String}
    (scope : named (nextCooldownModel existing now reason modelId) = some x) :
    isModelScopedCooldownReason reason = true ∧ modelId = some x ∧ x ≠ "" ∧
      (existing.cooldownUntil.any (fun u => decide ((now : ℚ) < u)) = true →
        named existing.cooldownModel = some x) := by
  unfold nextCooldownModel at scope
  dsimp only at scope
  split at scope
  · rename_i active
    split at scope
    · simp [named] at scope
    · rename_i sameModel
      split at scope
      · simp [named] at scope
      · rename_i modelKnown
        split at scope
        · simp [named] at scope
        · rename_i modelScoped
          have kept := named_eq_some.mp scope
          simp only [scope, Option.isSome_some, Bool.true_and, Bool.and_eq_true, bne_iff_ne,
            ne_eq, not_and, not_not, Bool.and_true, Option.isNone_iff_eq_none,
            Bool.not_eq_true', Bool.not_eq_false] at sameModel modelKnown modelScoped
          have known : (named modelId).isSome = true :=
            Option.isSome_iff_ne_none.mpr (modelKnown modelScoped)
          have same := sameModel known
          exact ⟨modelScoped, by rw [← same]; exact kept.1, kept.2, fun _ => scope⟩
  · rename_i inactive
    split at scope
    · rename_i modelScoped
      have kept := named_eq_some.mp scope
      exact ⟨modelScoped, kept.1, kept.2, fun active => absurd active inactive⟩
    · simp [named] at scope

/-- The failing model is in cooldown as soon as its failure is recorded. -/
theorem isProfileInCooldown_computeNext {existing : ProfileUsageStats} {now : Nat}
    (cooldownDates : WithinDates existing.cooldownUntil)
    (disabledDates : WithinDates existing.disabledUntil)
    (fits : now + DAY_MS ≤ MAX_DATE_TIMESTAMP_MS) (reason : AuthProfileFailureReason)
    (modelId : Option String) :
    isProfileInCooldown (some (computeNextProfileUsageStats existing now reason
      resolveAuthCooldownConfig modelId)) now modelId = true := by
  rw [isProfileInCooldown_some]
  unfold computeNextProfileUsageStats
  cases disabledFailureReason reason with
  | some disabled =>
      have bounds := resolveDisabledFailureBackoffMs_bounds
        (nextFailureCounts existing now resolveAuthCooldownConfig.failureWindowMs reason reason)
        disabled
      have active := isActive_keepActiveWindowOrRecompute disabledDates fits bounds.1 bounds.2
      simp only [active, Bool.or_true, Bool.true_or]
  | none =>
      have narrow : (named modelId).any (fun m => isModelScopedCooldownReason reason &&
          (named (nextCooldownModel existing now reason modelId)).any (· != m)) = false := by
        cases scope : named (nextCooldownModel existing now reason modelId) with
        | none => cases named modelId <;> simp
        | some x =>
            obtain ⟨-, rfl, nonempty, -⟩ := named_nextCooldownModel scope
            simp [named_eq_some.mpr ⟨rfl, nonempty⟩]
      have active : ∀ durationMs, 0 < durationMs ∧ durationMs ≤ DAY_MS →
          isActiveUnusableWindow (some (keepActiveWindowOrRecompute existing.cooldownUntil now
            (resolveUsageWindowUntil now durationMs))) now = true :=
        fun _ bounds => isActive_keepActiveWindowOrRecompute cooldownDates fits bounds.1 bounds.2
      have bounds : ∀ count errors, 0 < (if reason = .rate_limit then
            calculateCappedExponentialBackoffMs count RATE_LIMIT_BACKOFF_BASE_MS
              RATE_LIMIT_BACKOFF_MAX_MS
          else calculateAuthProfileCooldownMs errors) ∧
          (if reason = .rate_limit then
            calculateCappedExponentialBackoffMs count RATE_LIMIT_BACKOFF_BASE_MS
              RATE_LIMIT_BACKOFF_MAX_MS
          else calculateAuthProfileCooldownMs errors) ≤ DAY_MS := by
        intro count errors
        split
        · exact rateLimitBackoffMs_bounds count
        · exact calculateAuthProfileCooldownMs_bounds errors
      simp only [scopedAway, Option.any_some, narrow, active _ (bounds _ _), Bool.not_false,
        Bool.and_self, Bool.or_true]

/-! ### The invariant of a history -/

/-- The stored ends are dates, and a cooldown that is still active and names a model
was opened by that model's failure and has seen no other, the disabled window aside. -/
structure History.Sound (h : History) : Prop where
  clockDate : h.clock ≤ MAX_DATE_TIMESTAMP_MS
  cooldownDates : WithinDates h.stats.cooldownUntil
  disabledDates : WithinDates h.stats.disabledUntil
  scope : isActiveUnusableWindow h.stats.cooldownUntil h.clock = true →
    ∀ x, named h.stats.cooldownModel = some x →
      (∃ f ∈ h.window, f.disables = false) ∧
      ∀ f ∈ h.window, f.disables = false →
        isModelScopedCooldownReason f.reason = true ∧ f.model = some x

namespace History.Sound

variable {h h' : History}

theorem initial : Sound {} where
  clockDate := Nat.zero_le _
  cooldownDates := by rintro u ⟨⟩
  disabledDates := by rintro u ⟨⟩
  scope active := by cases active

theorem cooldownDates_computeNext (sound : h.Sound) {f : Failure}
    (date : f.now ≤ MAX_DATE_TIMESTAMP_MS) :
    WithinDates (computeNextProfileUsageStats h.stats f.now f.reason resolveAuthCooldownConfig
      f.model).cooldownUntil := by
  unfold computeNextProfileUsageStats
  cases disabledFailureReason f.reason with
  | some disabled => exact sound.cooldownDates
  | none =>
      exact withinDates_keepActiveWindowOrRecompute sound.cooldownDates _
        (resolveUsageWindowUntil_le date _)

theorem disabledDates_computeNext (sound : h.Sound) {f : Failure}
    (date : f.now ≤ MAX_DATE_TIMESTAMP_MS) :
    WithinDates (computeNextProfileUsageStats h.stats f.now f.reason resolveAuthCooldownConfig
      f.model).disabledUntil := by
  unfold computeNextProfileUsageStats
  cases disabledFailureReason f.reason with
  | none => exact sound.disabledDates
  | some disabled =>
      exact withinDates_keepActiveWindowOrRecompute sound.disabledDates _
        (resolveUsageWindowUntil_le date _)

/-- A failure joins the open window or begins one of its own. -/
theorem scope_computeNext (sound : h.Sound) {f : Failure} (later : h.clock ≤ f.now) {x : String}
    (active : isActiveUnusableWindow (h.apply (.failure f)).stats.cooldownUntil f.now = true)
    (scope : named (h.apply (.failure f)).stats.cooldownModel = some x) :
    (∃ g ∈ h.windowAfter f, g.disables = false) ∧
      ∀ g ∈ h.windowAfter f, g.disables = false →
        isModelScopedCooldownReason g.reason = true ∧ g.model = some x := by
  have before : isActiveUnusableWindow h.stats.cooldownUntil f.now = true →
      named h.stats.cooldownModel = some x →
      (∃ g ∈ h.window, g.disables = false) ∧ ∀ g ∈ h.window, g.disables = false →
        isModelScopedCooldownReason g.reason = true ∧ g.model = some x := fun open_ named =>
    sound.scope (isActiveUnusableWindow_earlier later open_) x named
  unfold History.windowAfter
  cases lane : disabledFailureReason f.reason with
  | some disabled =>
      simp only [History.apply, computeNextProfileUsageStats, lane] at active scope
      have disables : f.disables = true := by simp [Failure.disables, lane]
      rw [if_pos active]
      obtain ⟨⟨g, mem, cools⟩, all⟩ := before active scope
      refine ⟨⟨g, List.mem_append_left _ mem, cools⟩, fun g mem cools => ?_⟩
      rcases List.mem_append.mp mem with old | new
      · exact all g old cools
      · rw [List.mem_singleton.mp new, disables] at cools
        cases cools
  | none =>
      simp only [History.apply, computeNextProfileUsageStats, lane] at scope
      have disables : f.disables = false := by simp [Failure.disables, lane]
      obtain ⟨narrow, model, -, kept⟩ := named_nextCooldownModel scope
      split
      · rename_i open_
        rw [isActive_iff_of_withinDates sound.cooldownDates] at open_
        obtain ⟨-, all⟩ := before (by rwa [isActive_iff_of_withinDates sound.cooldownDates])
          (kept open_)
        refine ⟨⟨f, List.mem_append_right _ (List.mem_singleton_self f), disables⟩,
          fun g mem cools => ?_⟩
        rcases List.mem_append.mp mem with old | new
        · exact all g old cools
        · rw [List.mem_singleton.mp new]
          exact ⟨narrow, model⟩
      · rw [disables]
        refine ⟨⟨f, List.mem_singleton_self f, disables⟩, fun g mem _ => ?_⟩
        rw [List.mem_singleton.mp mem]
        exact ⟨narrow, model⟩

theorem withinDates_cleared {until_ : Option ℚ} (dates : WithinDates until_) (ts : Nat) :
    WithinDates (if expired until_ ts then none else until_) := by
  split
  · rintro u ⟨⟩
  · exact dates

theorem step (sound : h.Sound) {e : Event} (taken : h.step e = some h') : h'.Sound := by
  obtain ⟨⟨later, valid⟩, rfl⟩ := History.step_eq_some.mp taken
  cases e with
  | failure f =>
      exact ⟨valid, sound.cooldownDates_computeNext valid, sound.disabledDates_computeNext valid,
        fun active x scope => sound.scope_computeNext later active scope⟩
  | block now blockedUntil source model =>
      exact ⟨valid.1, by rintro u ⟨⟩, sound.disabledDates, fun active => by cases active⟩
  | sweep now =>
      refine ⟨valid, ?_, ?_, fun active x scope => ?_⟩
      · simp only [History.apply, cooldownUntil_clearExpiredCooldowns]
        exact withinDates_cleared sound.cooldownDates now
      · simp only [History.apply, disabledUntil_clearExpiredCooldowns]
        exact withinDates_cleared sound.disabledDates now
      · simp only [History.apply, cooldownUntil_clearExpiredCooldowns,
          cooldownModel_clearExpiredCooldowns] at active scope
        cases done : expired h.stats.cooldownUntil now with
        | true => simp [done] at active
        | false =>
            rw [done] at active scope
            exact sound.scope (isActiveUnusableWindow_earlier later active) x scope
  | reset now =>
      exact ⟨valid, by rintro u ⟨⟩, by rintro u ⟨⟩, fun active => by cases active⟩

theorem of_reaches {ok : History → Event → Prop}
    (run : Transition.Reaches History.step ok {} h) : h.Sound :=
  run.invariant initial fun _ _ _ sound _ taken => sound.step taken

end History.Sound

end OpenClaw.AuthProfiles
