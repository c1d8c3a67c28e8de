import Mathlib.Data.Rat.Defs
import Mathlib.Algebra.Order.Ring.Rat
import Mathlib.Data.List.MinMax
import Mathlib.Tactic.Linarith

/-!
The usage record of an auth profile: its blocked, cooldown and disabled windows,
the predicates that read them and the lazy sweep that clears what has expired.
A timestamp is a rational number of milliseconds, since a provider may report a
fraction; the clock itself reads whole milliseconds.
-/

namespace OpenClaw.AuthProfiles

inductive AuthProfileFailureReason where
  | auth | auth_permanent | format | overloaded | rate_limit | billing | timeout
  | model_not_found | session_expired | empty_response | no_error_details
  | unclassified | unknown
  deriving DecidableEq, Repr

inductive AuthProfileCooldownClassification where
  | wham_token_expired | wham_account_dead
  deriving DecidableEq, Repr

inductive AuthProfileBlockedReason where
  | subscription_limit
  deriving DecidableEq, Repr

inductive AuthProfileBlockedSource where
  | codex_rate_limits | wham
  deriving DecidableEq, Repr

inductive BlockedScope where
  | model
  deriving DecidableEq, Repr

/-- A missing count and a missing map of counts read as zero wherever the code
reads them, and no count it writes is zero. -/
structure ProfileUsageStats where
  blockedUntil : Option ℚ := none
  blockedReason : Option AuthProfileBlockedReason := none
  blockedSource : Option AuthProfileBlockedSource := none
  blockedModel : Option String := none
  blockedScope : Option BlockedScope := none
  cooldownUntil : Option ℚ := none
  cooldownReason : Option AuthProfileFailureReason := none
  cooldownClassification : Option AuthProfileCooldownClassification := none
  cooldownModel : Option String := none
  disabledUntil : Option ℚ := none
  disabledReason : Option AuthProfileFailureReason := none
  errorCount : Nat := 0
  failureCounts : AuthProfileFailureReason → Nat := fun _ => 0
  lastFailureAt : Option Nat := none

def MAX_DATE_TIMESTAMP_MS : Nat := 8640000000000000

def asDateTimestampMs (value : Option ℚ) : Option ℚ :=
  value.filter fun v => decide (-MAX_DATE_TIMESTAMP_MS ≤ v ∧ v ≤ MAX_DATE_TIMESTAMP_MS)

/-- A model id that is absent or empty names no model. -/
def named (model : Option String) : Option String := model.filter (· ≠ "")

def isModelScopedCooldownReason (reason : AuthProfileFailureReason) : Bool :=
  reason = .rate_limit || reason = .timeout || reason = .model_not_found

def resetAuthProfileFailureState (existing : ProfileUsageStats) : ProfileUsageStats :=
  { existing with
    errorCount := 0
    blockedUntil := none
    blockedReason := none
    blockedSource := none
    blockedModel := none
    blockedScope := none
    cooldownUntil := none
    cooldownReason := none
    cooldownClassification := none
    cooldownModel := none
    disabledUntil := none
    disabledReason := none
    failureCounts := fun _ => 0 }

def isBlockScopedToDifferentModel (stats : ProfileUsageStats) (forModel : Option String) : Bool :=
  (named forModel).any fun m =>
    stats.blockedScope = some .model && (named stats.blockedModel).any (· != m)

def resolveProfileUnusableUntil (stats : ProfileUsageStats) (forModel : Option String) :
    Option ℚ :=
  let blockedUntil :=
    if isBlockScopedToDifferentModel stats forModel then none else stats.blockedUntil
  let values := [blockedUntil, stats.cooldownUntil, stats.disabledUntil]
    |>.filterMap asDateTimestampMs
    |>.filter fun value => decide (0 < value)
  values.max?

def isActiveUnusableWindow (until_ : Option ℚ) (now : Nat) : Bool :=
  (asDateTimestampMs until_).any fun timestamp => decide (0 < timestamp ∧ (now : ℚ) < timestamp)

def isBlockedWindowActiveForModel (stats : ProfileUsageStats) (now : Nat)
    (forModel : Option String) : Bool :=
  !isBlockScopedToDifferentModel stats forModel && isActiveUnusableWindow stats.blockedUntil now

def shouldBypassModelScopedCooldown (stats : ProfileUsageStats) (now : Nat)
    (forModel : Option String) : Bool :=
  (named forModel).any fun m =>
    stats.cooldownReason.any isModelScopedCooldownReason &&
    (named stats.cooldownModel).any (· != m) &&
    !isBlockedWindowActiveForModel stats now forModel &&
    !isActiveUnusableWindow stats.disabledUntil now

/-- The profile's provider is one whose cooldowns the store keeps. -/
def isProfileInCooldown (stats : Option ProfileUsageStats) (now : Nat)
    (forModel : Option String) : Bool :=
  stats.any fun stats =>
    !shouldBypassModelScopedCooldown stats now forModel &&
    (resolveProfileUnusableUntil stats forModel).any fun unusableUntil =>
      decide ((now : ℚ) < unusableUntil)

/-! ### The sweep -/

/-- A timestamp that is set and has passed. -/
def expired (until_ : Option ℚ) (ts : Nat) : Bool :=
  until_.any fun u => decide (0 < u ∧ u ≤ (ts : ℚ))

/-- Whether the sweep finds anything to clear. -/
def sweeps (stats : ProfileUsageStats) (ts : Nat) : Bool :=
  expired stats.cooldownUntil ts || expired stats.blockedUntil ts || expired stats.disabledUntil ts

/-- The part of the sweep that clears the windows, each on its own. -/
def clearExpiredWindows (stats : ProfileUsageStats) (ts : Nat) : ProfileUsageStats :=
  let cooldownExpired := expired stats.cooldownUntil ts
  let blockedExpired := expired stats.blockedUntil ts
  let disabledExpired := expired stats.disabledUntil ts
  let stats := if cooldownExpired then
      { stats with
        cooldownUntil := none
        cooldownReason := none
        cooldownClassification := none
        cooldownModel := none }
    else stats
  let stats := if blockedExpired then
      { stats with
        blockedUntil := none
        blockedReason := none
        blockedSource := none
        blockedModel := none
        blockedScope := none }
    else stats
  if disabledExpired then
    { stats with
      disabledUntil := none
      disabledReason := none }
  else stats

def clearExpiredCooldowns (stats : ProfileUsageStats) (ts : Nat) : ProfileUsageStats :=
  let profileMutated := sweeps stats ts
  let stats := clearExpiredWindows stats ts
  if profileMutated && (resolveProfileUnusableUntil stats none).isNone then
    { stats with
      errorCount := 0
      failureCounts := fun reason =>
        if reason = .rate_limit then stats.failureCounts .rate_limit else 0 }
  else stats

/-! ### What the predicates say about the windows -/

theorem isActiveUnusableWindow_some {u : ℚ} {now : Nat} :
    isActiveUnusableWindow (some u) now = true ↔ u ≤ MAX_DATE_TIMESTAMP_MS ∧ (now : ℚ) < u := by
  have floor : (0 : ℚ) ≤ now := Nat.cast_nonneg now
  simp only [isActiveUnusableWindow, asDateTimestampMs, Option.filter_some, decide_eq_true_eq]
  split
  · rename_i inRange
    simp only [Option.any_some, decide_eq_true_eq]
    exact ⟨fun h => ⟨inRange.2, h.2⟩, fun h => ⟨floor.trans_lt h.2, h.2⟩⟩
  · rename_i outOfRange
    simp only [Option.any_none, Bool.false_eq_true, false_iff, not_and]
    intro le_max lt
    refine outOfRange ⟨?_, le_max⟩
    have : (0 : ℚ) ≤ (MAX_DATE_TIMESTAMP_MS : ℚ) := Nat.cast_nonneg _
    linarith

@[simp]
theorem isActiveUnusableWindow_none (now : Nat) : isActiveUnusableWindow none now = false := rfl

/-- A window that is active was active at every earlier time. -/
theorem isActiveUnusableWindow_earlier {until_ : Option ℚ} {now later : Nat} (le : now ≤ later)
    (active : isActiveUnusableWindow until_ later = true) :
    isActiveUnusableWindow until_ now = true := by
  cases until_ with
  | none => exact active
  | some u =>
      have h := isActiveUnusableWindow_some.mp active
      have : (now : ℚ) ≤ later := Nat.cast_le.mpr le
      exact isActiveUnusableWindow_some.mpr ⟨h.1, this.trans_lt h.2⟩

theorem lt_max?_iff (values : List ℚ) (now : ℚ) :
    values.max?.any (fun latest => decide (now < latest)) = true ↔ ∃ v ∈ values, now < v := by
  cases latest : values.max? with
  | none =>
      rw [List.max?_eq_none_iff] at latest
      simp [latest]
  | some top =>
      obtain ⟨mem, upper⟩ := List.max?_eq_some_iff.mp latest
      simp only [Option.any_some, decide_eq_true_eq]
      exact ⟨fun lt => ⟨top, mem, lt⟩, fun ⟨v, hv, lt⟩ => lt.trans_le (upper v hv)⟩

/-- Some window that covers the model is active. -/
theorem resolveProfileUnusableUntil_active (stats : ProfileUsageStats) (now : Nat)
    (forModel : Option String) :
    (resolveProfileUnusableUntil stats forModel).any (fun u => decide ((now : ℚ) < u)) =
      (isBlockedWindowActiveForModel stats now forModel ||
        isActiveUnusableWindow stats.cooldownUntil now ||
        isActiveUnusableWindow stats.disabledUntil now) := by
  have member (until_ : Option ℚ) : (∃ v, (0 < v ∧ asDateTimestampMs until_ = some v) ∧ now < v) ↔
      isActiveUnusableWindow until_ now = true := by
    cases h : asDateTimestampMs until_ <;> simp [isActiveUnusableWindow, h]
  have blocked : isActiveUnusableWindow
      (if isBlockScopedToDifferentModel stats forModel then none else stats.blockedUntil) now =
      isBlockedWindowActiveForModel stats now forModel := by
    unfold isBlockedWindowActiveForModel
    cases isBlockScopedToDifferentModel stats forModel <;> simp
  rw [Bool.eq_iff_iff, resolveProfileUnusableUntil, lt_max?_iff]
  simp only [List.mem_filter, List.mem_filterMap, List.mem_cons, List.not_mem_nil, or_false,
    decide_eq_true_eq, Bool.or_eq_true, ← blocked, ← member]
  constructor
  · rintro ⟨v, ⟨⟨u, rfl | rfl | rfl, date⟩, pos⟩, lt⟩
    · exact .inl (.inl ⟨v, ⟨pos, date⟩, lt⟩)
    · exact .inl (.inr ⟨v, ⟨pos, date⟩, lt⟩)
    · exact .inr ⟨v, ⟨pos, date⟩, lt⟩
  · rintro ((⟨v, ⟨pos, date⟩, lt⟩ | ⟨v, ⟨pos, date⟩, lt⟩) | ⟨v, ⟨pos, date⟩, lt⟩)
    · exact ⟨v, ⟨⟨_, .inl rfl, date⟩, pos⟩, lt⟩
    · exact ⟨v, ⟨⟨_, .inr (.inl rfl), date⟩, pos⟩, lt⟩
    · exact ⟨v, ⟨⟨_, .inr (.inr rfl), date⟩, pos⟩, lt⟩

/-- The cooldown is scoped to a model other than the one asked for. -/
def scopedAway (stats : ProfileUsageStats) (forModel : Option String) : Bool :=
  (named forModel).any fun m =>
    stats.cooldownReason.any isModelScopedCooldownReason &&
    (named stats.cooldownModel).any (· != m)

/-- The three windows one by one: a block that covers the model, a disable
window, or a cooldown that is not scoped to another model. -/
theorem isProfileInCooldown_some (stats : ProfileUsageStats) (now : Nat)
    (forModel : Option String) :
    isProfileInCooldown (some stats) now forModel =
      (isBlockedWindowActiveForModel stats now forModel ||
        isActiveUnusableWindow stats.disabledUntil now ||
        (!scopedAway stats forModel && isActiveUnusableWindow stats.cooldownUntil now)) := by
  have bypass : shouldBypassModelScopedCooldown stats now forModel =
      (scopedAway stats forModel && !isBlockedWindowActiveForModel stats now forModel &&
        !isActiveUnusableWindow stats.disabledUntil now) := by
    unfold shouldBypassModelScopedCooldown scopedAway
    cases named forModel <;> simp
  rw [isProfileInCooldown, Option.any_some, resolveProfileUnusableUntil_active, bypass]
  cases isBlockedWindowActiveForModel stats now forModel <;>
    cases isActiveUnusableWindow stats.disabledUntil now <;>
    cases scopedAway stats forModel <;> simp

/-! ### Sweeping -/

theorem not_active_of_expired {until_ : Option ℚ} {ts now : Nat} (le : ts ≤ now)
    (done : expired until_ ts = true) : isActiveUnusableWindow until_ now = false := by
  cases until_ with
  | none => rfl
  | some u =>
      simp only [expired, Option.any_some, decide_eq_true_eq] at done
      have : (ts : ℚ) ≤ now := Nat.cast_le.mpr le
      by_contra active
      have lt := (isActiveUnusableWindow_some.mp (by simpa using active)).2
      linarith [done.2]

/-- A window that is kept is the one there was, and one that is cleared has ended. -/
theorem isActive_cleared {until_ : Option ℚ} {ts now : Nat} (le : ts ≤ now) :
    isActiveUnusableWindow (if expired until_ ts then none else until_) now =
      isActiveUnusableWindow until_ now := by
  cases done : expired until_ ts with
  | false => simp
  | true => simp [not_active_of_expired le done]

section Cleared

variable (stats : ProfileUsageStats) (ts : Nat)

theorem cooldownUntil_clearExpiredCooldowns : (clearExpiredCooldowns stats ts).cooldownUntil =
    if expired stats.cooldownUntil ts then none else stats.cooldownUntil := by
  have windows : (clearExpiredWindows stats ts).cooldownUntil =
      if expired stats.cooldownUntil ts then none else stats.cooldownUntil := by
    simp only [clearExpiredWindows]
    cases expired stats.cooldownUntil ts <;> cases expired stats.blockedUntil ts <;>
      cases expired stats.disabledUntil ts <;> rfl
  rw [← windows, clearExpiredCooldowns]
  split <;> rfl

theorem cooldownReason_clearExpiredCooldowns : (clearExpiredCooldowns stats ts).cooldownReason =
    if expired stats.cooldownUntil ts then none else stats.cooldownReason := by
  have windows : (clearExpiredWindows stats ts).cooldownReason =
      if expired stats.cooldownUntil ts then none else stats.cooldownReason := by
    simp only [clearExpiredWindows]
    cases expired stats.cooldownUntil ts <;> cases expired stats.blockedUntil ts <;>
      cases expired stats.disabledUntil ts <;> rfl
  rw [← windows, clearExpiredCooldowns]
  split <;> rfl

theorem cooldownModel_clearExpiredCooldowns : (clearExpiredCooldowns stats ts).cooldownModel =
    if expired stats.cooldownUntil ts then none else stats.cooldownModel := by
  have windows : (clearExpiredWindows stats ts).cooldownModel =
      if expired stats.cooldownUntil ts then none else stats.cooldownModel := by
    simp only [clearExpiredWindows]
    cases expired stats.cooldownUntil ts <;> cases expired stats.blockedUntil ts <;>
      cases expired stats.disabledUntil ts <;> rfl
  rw [← windows, clearExpiredCooldowns]
  split <;> rfl

theorem disabledUntil_clearExpiredCooldowns : (clearExpiredCooldowns stats ts).disabledUntil =
    if expired stats.disabledUntil ts then none else stats.disabledUntil := by
  have windows : (clearExpiredWindows stats ts).disabledUntil =
      if expired stats.disabledUntil ts then none else stats.disabledUntil := by
    simp only [clearExpiredWindows]
    cases expired stats.cooldownUntil ts <;> cases expired stats.blockedUntil ts <;>
      cases expired stats.disabledUntil ts <;> rfl
  rw [← windows, clearExpiredCooldowns]
  split <;> rfl

theorem blockedUntil_clearExpiredCooldowns : (clearExpiredCooldowns stats ts).blockedUntil =
    if expired stats.blockedUntil ts then none else stats.blockedUntil := by
  have windows : (clearExpiredWindows stats ts).blockedUntil =
      if expired stats.blockedUntil ts then none else stats.blockedUntil := by
    simp only [clearExpiredWindows]
    cases expired stats.cooldownUntil ts <;> cases expired stats.blockedUntil ts <;>
      cases expired stats.disabledUntil ts <;> rfl
  rw [← windows, clearExpiredCooldowns]
  split <;> rfl

theorem blockedScope_clearExpiredCooldowns : (clearExpiredCooldowns stats ts).blockedScope =
    if expired stats.blockedUntil ts then none else stats.blockedScope := by
  have windows : (clearExpiredWindows stats ts).blockedScope =
      if expired stats.blockedUntil ts then none else stats.blockedScope := by
    simp only [clearExpiredWindows]
    cases expired stats.cooldownUntil ts <;> cases expired stats.blockedUntil ts <;>
      cases expired stats.disabledUntil ts <;> rfl
  rw [← windows, clearExpiredCooldowns]
  split <;> rfl

theorem blockedModel_clearExpiredCooldowns : (clearExpiredCooldowns stats ts).blockedModel =
    if expired stats.blockedUntil ts then none else stats.blockedModel := by
  have windows : (clearExpiredWindows stats ts).blockedModel =
      if expired stats.blockedUntil ts then none else stats.blockedModel := by
    simp only [clearExpiredWindows]
    cases expired stats.cooldownUntil ts <;> cases expired stats.blockedUntil ts <;>
      cases expired stats.disabledUntil ts <;> rfl
  rw [← windows, clearExpiredCooldowns]
  split <;> rfl

theorem isBlockScoped_clearExpiredCooldowns (forModel : Option String) :
    isBlockScopedToDifferentModel (clearExpiredCooldowns stats ts) forModel =
      (!expired stats.blockedUntil ts && isBlockScopedToDifferentModel stats forModel) := by
  rw [isBlockScopedToDifferentModel, blockedScope_clearExpiredCooldowns,
    blockedModel_clearExpiredCooldowns, isBlockScopedToDifferentModel]
  cases expired stats.blockedUntil ts <;> cases named forModel <;> simp

theorem failureCounts_clearExpiredWindows :
    (clearExpiredWindows stats ts).failureCounts = stats.failureCounts := by
  simp only [clearExpiredWindows]
  cases expired stats.cooldownUntil ts <;> cases expired stats.blockedUntil ts <;>
    cases expired stats.disabledUntil ts <;> rfl

theorem errorCount_clearExpiredWindows :
    (clearExpiredWindows stats ts).errorCount = stats.errorCount := by
  simp only [clearExpiredWindows]
  cases expired stats.cooldownUntil ts <;> cases expired stats.blockedUntil ts <;>
    cases expired stats.disabledUntil ts <;> rfl

theorem lastFailureAt_clearExpiredCooldowns :
    (clearExpiredCooldowns stats ts).lastFailureAt = stats.lastFailureAt := by
  have windows : (clearExpiredWindows stats ts).lastFailureAt = stats.lastFailureAt := by
    simp only [clearExpiredWindows]
    cases expired stats.cooldownUntil ts <;> cases expired stats.blockedUntil ts <;>
      cases expired stats.disabledUntil ts <;> rfl
  rw [← windows, clearExpiredCooldowns]
  split <;> rfl

/-- The counters are cleared with the last window, the rate-limit count excepted. -/
theorem counters_clearExpiredCooldowns :
    let last := sweeps stats ts &&
      (resolveProfileUnusableUntil (clearExpiredCooldowns stats ts) none).isNone
    (clearExpiredCooldowns stats ts).errorCount = (if last then 0 else stats.errorCount) ∧
      (clearExpiredCooldowns stats ts).failureCounts =
        if last then fun reason => if reason = .rate_limit then stats.failureCounts .rate_limit else 0
        else stats.failureCounts := by
  have windows : resolveProfileUnusableUntil (clearExpiredCooldowns stats ts) none =
      resolveProfileUnusableUntil (clearExpiredWindows stats ts) none := by
    simp only [clearExpiredCooldowns]
    split <;> rfl
  rw [windows, ← failureCounts_clearExpiredWindows stats ts, ← errorCount_clearExpiredWindows stats ts]
  simp only [clearExpiredCooldowns]
  split <;> exact ⟨rfl, rfl⟩

/-- The rate-limit count outlives the sweep. -/
theorem rateLimitCount_clearExpiredCooldowns :
    (clearExpiredCooldowns stats ts).failureCounts .rate_limit =
      stats.failureCounts .rate_limit := by
  rw [(counters_clearExpiredCooldowns stats ts).2]
  split <;> rfl

end Cleared

theorem isBlockedWindowActive_clearExpiredCooldowns (stats : ProfileUsageStats) {ts now : Nat}
    (le : ts ≤ now) (forModel : Option String) :
    isBlockedWindowActiveForModel (clearExpiredCooldowns stats ts) now forModel =
      isBlockedWindowActiveForModel stats now forModel := by
  simp only [isBlockedWindowActiveForModel]
  rw [isBlockScoped_clearExpiredCooldowns, blockedUntil_clearExpiredCooldowns,
    isActive_cleared le]
  cases done : expired stats.blockedUntil ts with
  | false => simp
  | true => simp [not_active_of_expired le done]

theorem cooldownActive_clearExpiredCooldowns (stats : ProfileUsageStats) {ts now : Nat}
    (le : ts ≤ now) (forModel : Option String) :
    (!scopedAway (clearExpiredCooldowns stats ts) forModel &&
        isActiveUnusableWindow (clearExpiredCooldowns stats ts).cooldownUntil now) =
      (!scopedAway stats forModel && isActiveUnusableWindow stats.cooldownUntil now) := by
  simp only [scopedAway]
  rw [cooldownUntil_clearExpiredCooldowns, isActive_cleared le,
    cooldownReason_clearExpiredCooldowns, cooldownModel_clearExpiredCooldowns]
  cases done : expired stats.cooldownUntil ts with
  | false => simp
  | true => simp [not_active_of_expired le done]

/-- What the sweep clears made no difference any more, to any model and at any later time. -/
theorem isProfileInCooldown_clearExpiredCooldowns (stats : ProfileUsageStats) {ts now : Nat}
    (le : ts ≤ now) (forModel : Option String) :
    isProfileInCooldown (some (clearExpiredCooldowns stats ts)) now forModel =
      isProfileInCooldown (some stats) now forModel := by
  rw [isProfileInCooldown_some, isProfileInCooldown_some,
    isBlockedWindowActive_clearExpiredCooldowns stats le, disabledUntil_clearExpiredCooldowns,
    isActive_cleared le, cooldownActive_clearExpiredCooldowns stats le]

/-! ### What is left after a sweep -/

/-- A timestamp that counts, whether it has passed or not. -/
def pending (until_ : Option ℚ) : Bool := (asDateTimestampMs until_).any fun u => decide (0 < u)

theorem isSome_resolveProfileUnusableUntil (stats : ProfileUsageStats) :
    (resolveProfileUnusableUntil stats none).isSome =
      (pending stats.blockedUntil || pending stats.cooldownUntil ||
        pending stats.disabledUntil) := by
  have unscoped : isBlockScopedToDifferentModel stats none = false := rfl
  have nonempty (values : List ℚ) : values.max?.isSome = true ↔ ∃ v, v ∈ values :=
    List.isSome_max?_iff.trans
      ⟨List.exists_mem_of_ne_nil values, fun some => some.elim fun _ mem => List.ne_nil_of_mem mem⟩
  rw [Bool.eq_iff_iff, resolveProfileUnusableUntil, unscoped, nonempty]
  simp only [pending, List.mem_filter, List.mem_filterMap, List.mem_cons, List.not_mem_nil,
    or_false, Bool.false_eq_true, if_false, decide_eq_true_eq, Bool.or_eq_true,
    Option.any_eq_true]
  constructor
  · rintro ⟨v, ⟨u, rfl | rfl | rfl, date⟩, pos⟩
    · exact .inl (.inl ⟨v, date, pos⟩)
    · exact .inl (.inr ⟨v, date, pos⟩)
    · exact .inr ⟨v, date, pos⟩
  · rintro ((⟨v, date, pos⟩ | ⟨v, date, pos⟩) | ⟨v, date, pos⟩)
    · exact ⟨v, ⟨_, .inl rfl, date⟩, pos⟩
    · exact ⟨v, ⟨_, .inr (.inl rfl), date⟩, pos⟩
    · exact ⟨v, ⟨_, .inr (.inr rfl), date⟩, pos⟩

theorem pending_of_expired {until_ : Option ℚ} {ts : Nat} (date : ts ≤ MAX_DATE_TIMESTAMP_MS)
    (done : expired until_ ts = true) : pending until_ = true := by
  cases until_ with
  | none => cases done
  | some u =>
      simp only [expired, Option.any_some, decide_eq_true_eq] at done
      have top : (ts : ℚ) ≤ MAX_DATE_TIMESTAMP_MS := Nat.cast_le.mpr date
      have inRange : -(MAX_DATE_TIMESTAMP_MS : ℚ) ≤ u ∧ u ≤ MAX_DATE_TIMESTAMP_MS :=
        ⟨by linarith [done.1, (Nat.cast_nonneg ts : (0 : ℚ) ≤ ts)], done.2.trans top⟩
      simp [pending, asDateTimestampMs, Option.filter_some, inRange, done.1]

@[simp]
theorem pending_cleared (until_ : Option ℚ) (ts : Nat) :
    pending (if expired until_ ts then none else until_) =
      (!expired until_ ts && pending until_) := by
  cases expired until_ ts <;> rfl

theorem clearExpiredCooldowns_of_not_sweeps {stats : ProfileUsageStats} {ts : Nat}
    (nothing : sweeps stats ts = false) : clearExpiredCooldowns stats ts = stats := by
  have parts := nothing
  simp only [sweeps, Bool.or_eq_false_iff] at parts
  simp [clearExpiredCooldowns, clearExpiredWindows, nothing, parts]

theorem isSome_resolve_clearExpiredCooldowns (stats : ProfileUsageStats) (ts : Nat) :
    (resolveProfileUnusableUntil (clearExpiredCooldowns stats ts) none).isSome =
      (!expired stats.blockedUntil ts && pending stats.blockedUntil ||
        !expired stats.cooldownUntil ts && pending stats.cooldownUntil ||
        !expired stats.disabledUntil ts && pending stats.disabledUntil) := by
  rw [isSome_resolveProfileUnusableUntil, blockedUntil_clearExpiredCooldowns,
    cooldownUntil_clearExpiredCooldowns, disabledUntil_clearExpiredCooldowns, pending_cleared,
    pending_cleared, pending_cleared]

end OpenClaw.AuthProfiles
