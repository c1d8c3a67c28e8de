import OpenClaw.PluginState.Transactions

/-!
The import of a batch of rows. Instead of counting live rows again for every row, the batch
keeps running counts, the least expiry they depend on, and whether a sweep may have left
expired rows behind. It leaves the table that registering its rows one by one leaves.
-/

namespace OpenClaw.PluginState

open Sql

def PLUGIN_STATE_DOCTOR_IMPORT_BATCH_ROWS : Nat := 500

/-- Counts of live rows at `now`; they hold until `nextExpiry`, where none is `Infinity`. -/
structure PluginStateRetention where
  namespaceCount : Int
  pluginCount : Int
  nextExpiry : Option Int
  now : Int
  sweepPending : Bool
deriving DecidableEq, Repr

def readPluginStateRetention (t : Store) (o : OpenKeyedStoreOptions) (now : Int) :
    PluginStateRetention :=
  let rows := t.rows.filter fun e => e.pluginId == o.pluginId && e.live now
  { namespaceCount := rows.countP fun e => e.ns == o.ns
    pluginCount := rows.length
    nextExpiry := (rows.filterMap Entry.expiresAt).min?
    now
    sweepPending := true }

/-- `Math.min`, where none is `Infinity`. -/
def earlierExpiry : Option Int → Option Int → Option Int
  | none, right => right
  | left, none => left
  | some left, some right => some (min left right)

namespace PluginStateRetention

/-- `now < retention.now || now >= retention.nextExpiry`. -/
def isInvalidAt (retention : PluginStateRetention) (now : Int) : Bool :=
  decide (now < retention.now) || retention.nextExpiry.any fun expiry => decide (expiry ≤ now)

/-- The counts are read again once they are invalid. -/
def refresh (retention : PluginStateRetention) (t : Store) (o : OpenKeyedStoreOptions) (now : Int) :
    PluginStateRetention :=
  if retention.isInvalidAt now then readPluginStateRetention t o now else retention

def sweep (retention : PluginStateRetention) (t : Store) (o : OpenKeyedStoreOptions) (now : Int) :
    Store × PluginStateRetention :=
  if retention.sweepPending then
    (deleteExpiredPluginStateEntries t now o.pluginId o.ns,
      { retention with
        sweepPending := (expiredBatch t now o.pluginId o.ns).length == PLUGIN_STATE_EXPIRY_BATCH_ROWS })
  else (t, retention)

def shed (retention : PluginStateRetention) (t : Store) (o : OpenKeyedStoreOptions) (now : Int)
    (protectedKey : String) (limit : Int) : Store × PluginStateRetention :=
  let deleted := (oldestNamespaceEntries t o.pluginId o.ns protectedKey now limit.toNat).length
  (deleteOldestPluginStateNamespaceEntries t o.pluginId o.ns protectedKey now limit.toNat,
    { retention with
      namespaceCount := retention.namespaceCount - deleted
      pluginCount := retention.pluginCount - deleted })

/-- What writing a row does to the counts. -/
def record (retention : PluginStateRetention) (existing : Option Entry) (expiresAt : Option Int)
    (now : Int) : PluginStateRetention :=
  let grown : Int := if existing.isNone then 1 else 0
  { retention with
    namespaceCount := retention.namespaceCount + grown
    pluginCount := retention.pluginCount + grown
    nextExpiry := earlierExpiry retention.nextExpiry expiresAt
    now }

variable (maxPluginEntries : Nat)

/-- `assertCanInsertPluginStateEntry` with counts at hand. -/
def assertCanInsert (retention : PluginStateRetention) (o : OpenKeyedStoreOptions) :
    Except PluginStateStoreError Unit :=
  if o.overflowPolicy != .rejectNew then .ok ()
  else if o.maxEntries ≤ retention.namespaceCount then
    .error ⟨.limitExceeded,
      s!"Plugin state namespace {o.ns} for {o.pluginId} reached its {o.maxEntries}-row limit."⟩
  else if maxPluginEntries ≤ retention.pluginCount then
    .error ⟨.limitExceeded,
      s!"Plugin state for {o.pluginId} reached the {maxPluginEntries} live row limit."⟩
  else .ok ()

/-- `shedNamespaceOverflow` with counts at hand. -/
def shedNamespace (retention : PluginStateRetention) (t : Store) (o : OpenKeyedStoreOptions)
    (now : Int) (protectedKey : String) : Store × PluginStateRetention :=
  if o.maxEntries < retention.namespaceCount then
    retention.shed t o now protectedKey (retention.namespaceCount - o.maxEntries)
  else (t, retention)

/-- `shedPluginOverflow` with counts at hand. -/
def shedPlugin (retention : PluginStateRetention) (t : Store) (o : OpenKeyedStoreOptions)
    (now : Int) (protectedKey : String) :
    Except PluginStateStoreError (Store × PluginStateRetention) :=
  if retention.pluginCount ≤ maxPluginEntries then .ok (t, retention)
  else
    let (t, retention) :=
      retention.shed t o now protectedKey (retention.pluginCount - maxPluginEntries)
    if maxPluginEntries < retention.pluginCount then
      .error ⟨.limitExceeded,
        s!"Plugin state for {o.pluginId} exceeds the {maxPluginEntries} live row limit."⟩
    else .ok (t, retention)

/-- `enforcePostRegisterLimits` with counts at hand. -/
def enforceLimits (retention : PluginStateRetention) (t : Store) (o : OpenKeyedStoreOptions)
    (now : Int) (protectedKey : String) :
    Except PluginStateStoreError (Store × PluginStateRetention) :=
  if o.overflowPolicy = .rejectNew then .ok (t, retention)
  else
    let (t, retention) := retention.shedNamespace t o now protectedKey
    retention.shedPlugin maxPluginEntries t o now protectedKey

end PluginStateRetention

/-- A prepared row of an import. -/
structure ImportEntry where
  key : String
  valueJson : String
  ttlMs : Option Int
  createdAtMs : Option Int

section Import

variable (maxPluginEntries : Nat)

/-- `registerPluginStateEntry` inside a batch. -/
def registerPluginStateEntryRetained (t : Store) (o : OpenKeyedStoreOptions) (entry : ImportEntry)
    (retention : PluginStateRetention) (now : Int) :
    Except PluginStateStoreError (Store × PluginStateRetention) := do
  let expiresAt ← resolvePluginStateExpiresAtMs entry.ttlMs now
  let (t, retention) := (retention.refresh t o now).sweep t o now
  let existing := selectPluginStateEntry t o.pluginId o.ns entry.key now
  if existing.isNone then
    retention.assertCanInsert maxPluginEntries o
  let t := upsertPluginStateEntry t
    (o.entry entry.key entry.valueJson (entry.createdAtMs.getD now) expiresAt)
  (retention.record existing expiresAt now).enforceLimits maxPluginEntries t o now entry.key

/-- The rows of a batch with the clock reading of each. A row is one savepoint; the batch stops
at the first that fails. -/
def importRows (o : OpenKeyedStoreOptions) : Store → PluginStateRetention →
    List (ImportEntry × Int) → Store × PluginStateRetention × Except PluginStateStoreError Unit
  | t, retention, [] => (t, retention, .ok ())
  | t, retention, (entry, now) :: rest =>
      match registerPluginStateEntryRetained maxPluginEntries t o entry retention now with
      | .ok (t, retention) => importRows o t retention rest
      | .error error => (t, retention, .error error)

inductive ImportError
  /-- `RangeError("Plugin state doctor import batch exceeds its row limit")` -/
  | rowLimit
  | row (error : PluginStateStoreError)
deriving DecidableEq, Repr

def pluginStateImportBatch (t : Store) (o : OpenKeyedStoreOptions) (now : Int)
    (entries : List (ImportEntry × Int)) : Store × Except ImportError Unit :=
  if entries.isEmpty then (t, .ok ())
  else if PLUGIN_STATE_DOCTOR_IMPORT_BATCH_ROWS < entries.length then (t, .error .rowLimit)
  else
    let (t, _, outcome) := importRows maxPluginEntries o t (readPluginStateRetention t o now) entries
    (t, outcome.mapError .row)

/-- Registering rows one after another, up to the first that fails. -/
def registerEach (o : OpenKeyedStoreOptions) :
    Store → List (ImportEntry × Int) → Store × Except PluginStateStoreError Unit
  | t, [] => (t, .ok ())
  | t, (entry, now) :: rest =>
      match registerPluginStateEntry maxPluginEntries t o entry.key entry.valueJson entry.ttlMs
        entry.createdAtMs now with
      | .ok c => registerEach o c.store rest
      | .error error => (t, .error error)

end Import

section Exact

variable {maxPluginEntries : Nat} {t s : Store} {o : OpenKeyedStoreOptions} {now : Int} {k : String}
  {retention r : PluginStateRetention} {entry : ImportEntry} {expiresAt : Option Int} {e : Entry}

namespace PluginStateRetention

/-- The counts are those of the live rows; no counted row expires before the least expiry; and
unless a sweep is pending, the namespace has no expired row. -/
structure Exact (retention : PluginStateRetention) (t : Store) (o : OpenKeyedStoreOptions)
    (now : Int) : Prop where
  namespaceCount : retention.namespaceCount =
    countLivePluginStateNamespaceEntries t o.pluginId o.ns now
  pluginCount : retention.pluginCount = countLivePluginStateEntries t o.pluginId now
  expiry : ∀ e ∈ t.rows, e.pluginId = o.pluginId → e.live now = true → ∀ expiresAt ∈ e.expiresAt,
    ∃ expiry ∈ retention.nextExpiry, expiry ≤ expiresAt
  swept : retention.sweepPending = false → ∀ e ∈ t.rows, e.inNamespace o.pluginId o.ns = true →
    e.live now = true

theorem exact_read (t : Store) (o : OpenKeyedStoreOptions) (now : Int) :
    (readPluginStateRetention t o now).Exact t o now where
  namespaceCount := by
    have same : (t.rows.filter fun e => e.pluginId == o.pluginId && e.live now).countP
        (fun e => e.ns == o.ns) = t.rows.countP fun e => e.inNamespace o.pluginId o.ns && e.live now := by
      rw [List.countP_filter]
      refine List.countP_congr fun e _ => ?_
      simp only [Entry.inNamespace, Bool.and_eq_true]
      tauto
    exact congrArg Int.ofNat same
  pluginCount := by
    rw [countLivePluginStateEntries, List.countP_eq_length_filter]
    rfl
  expiry := by
    intro e mem plugin live expiresAt expires
    have listed : expiresAt ∈ ((t.rows.filter fun e => e.pluginId == o.pluginId && e.live now).filterMap
        Entry.expiresAt) := by
      refine List.mem_filterMap.mpr ⟨e, List.mem_filter.mpr ⟨mem, ?_⟩, expires⟩
      rw [beq_iff_eq.mpr plugin, live, Bool.true_and]
    cases least : ((t.rows.filter fun e => e.pluginId == o.pluginId && e.live now).filterMap
        Entry.expiresAt).min? with
    | none =>
        rw [List.min?_eq_none_iff] at least
        rw [least] at listed
        cases listed
    | some expiry => exact ⟨expiry, least, (List.min?_eq_some_iff.mp least).2 _ listed⟩
  swept pending := by cases pending

theorem exact_refresh (now : Int) (exact : retention.Exact t o retention.now) :
    (retention.refresh t o now).Exact t o now := by
  by_cases invalid : retention.isInvalidAt now = true
  · rw [refresh, if_pos invalid]
    exact exact_read t o now
  · rw [refresh, if_neg invalid]
    simp only [isInvalidAt, Bool.or_eq_true, decide_eq_true_eq, Option.any_eq_true, not_or,
      not_exists, not_and, not_lt, not_le] at invalid
    obtain ⟨later, before⟩ := invalid
    -- no row of the plugin expires between the two readings
    have same : ∀ e ∈ t.rows, e.pluginId = o.pluginId →
        (e.live now = true ↔ e.live retention.now = true) := by
      intro e mem plugin
      constructor
      · intro live
        cases expires : e.expiresAt with
        | none => simp [Entry.live, expires]
        | some expiresAt =>
            simp only [Entry.live, expires, decide_eq_true_eq] at live ⊢
            omega
      · intro live
        cases expires : e.expiresAt with
        | none => simp [Entry.live, expires]
        | some expiresAt =>
            obtain ⟨expiry, least, atMost⟩ := exact.expiry e mem plugin live expiresAt expires
            have := before expiry least
            simp only [Entry.live, expires, decide_eq_true_eq]
            omega
    refine ⟨?_, ?_, ?_, ?_⟩
    · rw [exact.namespaceCount, countLivePluginStateNamespaceEntries]
      refine congrArg Int.ofNat (List.countP_congr fun e mem => ?_)
      rw [Bool.and_eq_true, Bool.and_eq_true]
      exact and_congr_right fun inside => (same e mem (Entry.inNamespace_iff.mp inside).1).symm
    · rw [exact.pluginCount, countLivePluginStateEntries]
      refine congrArg Int.ofNat (List.countP_congr fun e mem => ?_)
      rw [Bool.and_eq_true, Bool.and_eq_true, beq_iff_eq]
      exact and_congr_right fun plugin => (same e mem plugin).symm
    · exact fun e mem plugin live => exact.expiry e mem plugin ((same e mem plugin).mp live)
    · exact fun pending e mem inside => (same e mem (Entry.inNamespace_iff.mp inside).1).mpr
        (exact.swept pending e mem inside)

/-- Without an expired row in the namespace a sweep changes nothing. -/
theorem deleteExpired_eq_self
    (swept : ∀ e ∈ t.rows, e.inNamespace o.pluginId o.ns = true → e.live now = true) :
    deleteExpiredPluginStateEntries t now o.pluginId o.ns = t := by
  have none : expiredBatch t now o.pluginId o.ns = [] := by
    have filtered : (t.rows.filter fun e => e.inNamespace o.pluginId o.ns && !e.live now) = [] := by
      refine List.filter_eq_nil_iff.mpr fun e mem expired => ?_
      rw [Bool.and_eq_true, Bool.not_eq_true'] at expired
      rw [swept e mem expired.1] at expired
      exact Bool.noConfusion expired.2
    rw [expiredBatch, filtered, List.take_nil]
  have rows : (deleteExpiredPluginStateEntries t now o.pluginId o.ns).rows = t.rows := by
    simp [deleteExpiredPluginStateEntries, Table.delete, none]
  cases t
  simpa [deleteExpiredPluginStateEntries, Table.delete] using rows

/-- A sweep that does not fill its batch leaves no expired row of the namespace. -/
theorem live_of_swept
    (short : (expiredBatch t now o.pluginId o.ns).length ≠ PLUGIN_STATE_EXPIRY_BATCH_ROWS)
    (mem : e ∈ (deleteExpiredPluginStateEntries t now o.pluginId o.ns).rows)
    (inside : e.inNamespace o.pluginId o.ns = true) : e.live now = true := by
  by_contra expired
  rw [Bool.not_eq_true] at expired
  rw [deleteExpiredPluginStateEntries, Table.mem_delete, Bool.eq_false_iff, ne_eq,
    List.contains_iff_mem] at mem
  refine mem.2 ?_
  have all : e ∈ t.rows.filter fun e => e.inNamespace o.pluginId o.ns && !e.live now := by
    rw [List.mem_filter, inside, expired]
    exact ⟨mem.1, rfl⟩
  rw [expiredBatch, List.length_take] at short
  rwa [expiredBatch, List.take_of_length_le (by omega)]

theorem sweep_eq (exact : retention.Exact t o now) :
    (retention.sweep t o now).1 = deleteExpiredPluginStateEntries t now o.pluginId o.ns := by
  cases pending : retention.sweepPending with
  | true => rw [sweep, if_pos pending]
  | false =>
      rw [sweep, if_neg (by rw [pending]; exact Bool.false_ne_true)]
      exact (deleteExpired_eq_self (exact.swept pending)).symm

theorem exact_sweep (exact : retention.Exact t o now) :
    (retention.sweep t o now).2.Exact (retention.sweep t o now).1 o now := by
  cases pending : retention.sweepPending with
  | true =>
      rw [sweep, if_pos pending]
      refine ⟨?_, ?_, fun e mem => exact.expiry e (mem_sweep mem), ?_⟩
      · rw [countLivePluginStateNamespaceEntries, countP_sweep (liveCount_namespace _ _ now)]
        exact exact.namespaceCount
      · rw [countLivePluginStateEntries, countP_sweep (liveCount_plugin _ now)]
        exact exact.pluginCount
      · exact fun short e mem inside => live_of_swept (by simpa using short) mem inside
  | false =>
      rw [sweep, if_neg (by rw [pending]; exact Bool.false_ne_true)]
      exact exact

theorem Exact.assertCanInsert_eq (maxPluginEntries : Nat) (exact : retention.Exact t o now) :
    retention.assertCanInsert maxPluginEntries o =
      assertCanInsertPluginStateEntry maxPluginEntries t o now := by
  simp only [assertCanInsert, assertCanInsertPluginStateEntry, exact.namespaceCount,
    exact.pluginCount, Nat.cast_le]

theorem earlierExpiry_le {left right : Option Int} {expiry : Int}
    (either : expiry ∈ left ∨ expiry ∈ right) : ∃ least ∈ earlierExpiry left right, least ≤ expiry := by
  rcases either with rfl | rfl
  · cases right with
    | none => exact ⟨expiry, rfl, le_rfl⟩
    | some other => exact ⟨min expiry other, rfl, min_le_left _ _⟩
  · cases left with
    | none => exact ⟨expiry, rfl, le_rfl⟩
    | some other => exact ⟨min other expiry, rfl, min_le_right _ _⟩

/-- The row is written and counted. -/
theorem exact_upsert (exact : retention.Exact t o now) {valueJson : String} {createdAt : Int}
    (live : (o.entry k valueJson createdAt expiresAt).live now = true) :
    (retention.record (selectPluginStateEntry t o.pluginId o.ns k now) expiresAt now).Exact
      (upsertPluginStateEntry t (o.entry k valueJson createdAt expiresAt)) o now := by
  have inside : (o.entry k valueJson createdAt expiresAt).inNamespace o.pluginId o.ns = true :=
    Entry.inNamespace_iff.mpr ⟨rfl, rfl⟩
  have one : ∀ found : Option Entry,
      (if found.isNone then 1 else 0 : Int) = ((if found.isSome then 0 else 1 : Nat) : Int) := by
    rintro (_ | _) <;> rfl
  refine ⟨?_, ?_, ?_, ?_⟩
  · rw [countLivePluginStateNamespaceEntries, countP_upsert (liveCount_namespace _ _ now)
      (by rw [inside, live, Bool.true_and]), Nat.cast_add, ← one]
    exact congrArg (· + _) exact.namespaceCount
  · rw [countLivePluginStateEntries, countP_upsert (liveCount_plugin _ now)
      (by rw [live, Bool.and_true]; exact beq_self_eq_true _), Nat.cast_add, ← one]
    exact congrArg (· + _) exact.pluginCount
  · intro e mem plugin alive expiry expires
    rcases mem_upsert.mp mem with rfl | ⟨old, -⟩
    · exact earlierExpiry_le (.inr expires)
    · obtain ⟨least, next, atMost⟩ := exact.expiry e old plugin alive expiry expires
      obtain ⟨earlier, kept, before⟩ := @earlierExpiry_le _ expiresAt _ (.inl next)
      exact ⟨earlier, kept, before.trans atMost⟩
  · intro pending e mem within
    rcases mem_upsert.mp mem with rfl | ⟨old, -⟩
    · exact live
    · exact exact.swept pending e old within

theorem exact_shed (k : String) (exact : retention.Exact t o now) (limit : Int) :
    (retention.shed t o now k limit).2.Exact (retention.shed t o now k limit).1 o now := by
  have shedding := Shedding.deleteOldest t o k now limit.toNat
  refine ⟨?_, ?_, ?_, ?_⟩
  · have counted := shedding.countLiveNamespace
    have := exact.namespaceCount
    simp only [shed]
    omega
  · have counted := shedding.countLivePlugin
    have := exact.pluginCount
    simp only [shed]
    omega
  · exact fun e mem => exact.expiry e ((shedding.rows e).mp mem).1
  · exact fun pending e mem => exact.swept pending e ((shedding.rows e).mp mem).1

theorem shedNamespace_spec (k : String) (exact : retention.Exact t o now) :
    (retention.shedNamespace t o now k).1 = shedNamespaceOverflow t o now k ∧
      (retention.shedNamespace t o now k).2.Exact (retention.shedNamespace t o now k).1 o now ∧
      (retention.shedNamespace t o now k).2.now = retention.now := by
  have count := exact.namespaceCount
  by_cases exceeds : (o.maxEntries : Int) < retention.namespaceCount
  · have overflows : o.maxEntries < countLivePluginStateNamespaceEntries t o.pluginId o.ns now := by
      omega
    have limit : (retention.namespaceCount - o.maxEntries).toNat =
        countLivePluginStateNamespaceEntries t o.pluginId o.ns now - o.maxEntries := by
      omega
    rw [shedNamespace, if_pos exceeds]
    refine ⟨?_, exact_shed k exact _, rfl⟩
    simp only [shed, shedNamespaceOverflow, if_pos overflows, limit]
  · have fits : ¬o.maxEntries < countLivePluginStateNamespaceEntries t o.pluginId o.ns now := by
      omega
    rw [shedNamespace, if_neg exceeds, shedNamespaceOverflow, if_neg fits]
    exact ⟨rfl, exact, rfl⟩

theorem shedPlugin_spec (maxPluginEntries : Nat) (k : String) (exact : retention.Exact t o now) :
    (retention.shedPlugin maxPluginEntries t o now k).map Prod.fst =
        shedPluginOverflow maxPluginEntries t o now k ∧
      ∀ s r, retention.shedPlugin maxPluginEntries t o now k = .ok (s, r) →
        r.Exact s o now ∧ r.now = retention.now := by
  have count := exact.pluginCount
  by_cases fits : retention.pluginCount ≤ maxPluginEntries
  · have within : countLivePluginStateEntries t o.pluginId now ≤ maxPluginEntries := by omega
    rw [shedPlugin, if_pos fits, shedPluginOverflow, if_pos within]
    refine ⟨rfl, fun s r done => ?_⟩
    cases done
    exact ⟨exact, rfl⟩
  · have overflows : ¬countLivePluginStateEntries t o.pluginId now ≤ maxPluginEntries := by omega
    have limit : (retention.pluginCount - maxPluginEntries).toNat =
        countLivePluginStateEntries t o.pluginId now - maxPluginEntries := by
      omega
    have after := exact_shed k exact (retention.pluginCount - maxPluginEntries)
    have left := after.pluginCount
    rw [shedPlugin, if_neg fits, shedPluginOverflow, if_neg overflows]
    simp only [shed, limit] at after left ⊢
    split
    case isTrue still =>
      rw [if_pos (by omega)]
      exact ⟨rfl, fun s r done => by cases done⟩
    case isFalse enough =>
      rw [if_neg (by omega)]
      refine ⟨rfl, fun s r done => ?_⟩
      cases done
      exact ⟨after, rfl⟩

theorem Exact.enforceLimits_spec (maxPluginEntries : Nat) (k : String)
    (exact : retention.Exact t o now) :
    (retention.enforceLimits maxPluginEntries t o now k).map Prod.fst =
        enforcePostRegisterLimits maxPluginEntries t o now k true ∧
      ∀ s r, retention.enforceLimits maxPluginEntries t o now k = .ok (s, r) →
        r.Exact s o now ∧ r.now = retention.now := by
  by_cases rejects : o.overflowPolicy = .rejectNew
  · rw [enforceLimits, enforcePostRegisterLimits, if_pos rejects, if_pos rejects]
    refine ⟨rfl, fun s r done => ?_⟩
    cases done
    exact ⟨exact, rfl⟩
  · obtain ⟨first, kept, time⟩ := shedNamespace_spec k exact
    obtain ⟨second, left⟩ := shedPlugin_spec maxPluginEntries k kept
    rw [enforceLimits, enforcePostRegisterLimits, if_neg rejects, if_neg rejects]
    simp only [if_true, ← first]
    refine ⟨second, fun s r done => ?_⟩
    obtain ⟨exact, same⟩ := left s r done
    exact ⟨exact, same.trans time⟩

end PluginStateRetention

/-- One row of a batch does what registering it does, and hands on exact counts. -/
theorem registerRetained_spec (maxPluginEntries : Nat) (entry : ImportEntry) (now : Int)
    (exact : retention.Exact t o retention.now) :
    (registerPluginStateEntryRetained maxPluginEntries t o entry retention now).map Prod.fst =
        (registerPluginStateEntry maxPluginEntries t o entry.key entry.valueJson entry.ttlMs
          entry.createdAtMs now).map Committed.store ∧
      ∀ s r, registerPluginStateEntryRetained maxPluginEntries t o entry retention now = .ok (s, r) →
        r.Exact s o r.now := by
  cases resolved : resolvePluginStateExpiresAtMs entry.ttlMs now with
  | error thrown =>
      rw [registerPluginStateEntryRetained, registerPluginStateEntry, resolved]
      exact ⟨rfl, fun s r done => by cases done⟩
  | ok expiresAt =>
      have fresh := PluginStateRetention.exact_refresh now exact
      have swept := PluginStateRetention.exact_sweep fresh
      have same := PluginStateRetention.sweep_eq fresh
      have live := live_of_resolved o entry.key entry.valueJson (entry.createdAtMs.getD now) resolved
      rw [registerPluginStateEntryRetained, registerPluginStateEntry, resolved]
      simp only [← same]
      rcases step : (retention.refresh t o now).sweep t o now with ⟨s, counts⟩
      rw [step] at swept
      have written := PluginStateRetention.exact_upsert swept live
      have checked := swept.assertCanInsert_eq maxPluginEntries
      obtain ⟨store, kept⟩ := written.enforceLimits_spec maxPluginEntries entry.key
      have exact_of : ∀ s r, PluginStateRetention.enforceLimits maxPluginEntries _ _ o now entry.key =
          .ok (s, r) → r.Exact s o r.now := fun s r done => by
        obtain ⟨exact, time⟩ := kept s r done
        exact time ▸ exact
      simp only [bind, Except.bind, pure, Except.pure, checked, ← store]
      generalize PluginStateRetention.enforceLimits maxPluginEntries _ _ o now entry.key = final
        at exact_of
      by_cases absent : (selectPluginStateEntry s o.pluginId o.ns entry.key now).isNone = true
      · simp only [if_pos absent]
        cases assertCanInsertPluginStateEntry maxPluginEntries s o now with
        | error thrown => exact ⟨rfl, fun s r done => by cases done⟩
        | ok _ => exact ⟨by cases final <;> rfl, exact_of⟩
      · simp only [if_neg absent]
        exact ⟨by cases final <;> rfl, exact_of⟩

theorem importRows_spec (maxPluginEntries : Nat) (exact : retention.Exact t o retention.now)
    (rows : List (ImportEntry × Int)) :
    (importRows maxPluginEntries o t retention rows).1 = (registerEach maxPluginEntries o t rows).1 ∧
      (importRows maxPluginEntries o t retention rows).2.2 =
        (registerEach maxPluginEntries o t rows).2 ∧
      ∀ s r, importRows maxPluginEntries o t retention rows = (s, r, .ok ()) → r.Exact s o r.now := by
  induction rows generalizing t retention with
  | nil =>
      refine ⟨rfl, rfl, fun s r done => ?_⟩
      cases done
      exact exact
  | cons row rest ih =>
      obtain ⟨entry, now⟩ := row
      obtain ⟨same, kept⟩ := registerRetained_spec maxPluginEntries entry now exact
      rw [importRows, registerEach]
      cases retained : registerPluginStateEntryRetained maxPluginEntries t o entry retention now with
      | error thrown =>
          rw [retained] at same
          cases plain : registerPluginStateEntry maxPluginEntries t o entry.key entry.valueJson
              entry.ttlMs entry.createdAtMs now with
          | error other =>
              rw [plain] at same
              cases same
              exact ⟨rfl, rfl, fun s r done => by cases done⟩
          | ok c => rw [plain] at same; cases same
      | ok pair =>
          obtain ⟨s, r⟩ := pair
          rw [retained] at same
          cases plain : registerPluginStateEntry maxPluginEntries t o entry.key entry.valueJson
              entry.ttlMs entry.createdAtMs now with
          | error other => rw [plain] at same; cases same
          | ok c =>
              rw [plain] at same
              cases same
              exact ih (kept c.store r retained)

end Exact

/-- A batch leaves what registering its rows leaves, and its counts are those of a recount. -/
theorem import_exact (maxPluginEntries : Nat) (t : Store) (o : OpenKeyedStoreOptions) (started : Int)
    (rows : List (ImportEntry × Int)) :
    pluginStateImportBatch maxPluginEntries t o started rows =
        (if PLUGIN_STATE_DOCTOR_IMPORT_BATCH_ROWS < rows.length then (t, .error .rowLimit)
        else ((registerEach maxPluginEntries o t rows).1,
          (registerEach maxPluginEntries o t rows).2.mapError .row)) ∧
      ∀ done entry now rest, rows = done ++ (entry, now) :: rest → ∀ s retention,
        importRows maxPluginEntries o t (readPluginStateRetention t o started) done =
            (s, retention, .ok ()) →
          (retention.refresh s o now).namespaceCount =
              countLivePluginStateNamespaceEntries s o.pluginId o.ns now ∧
            (retention.refresh s o now).pluginCount = countLivePluginStateEntries s o.pluginId now := by
  have start := PluginStateRetention.exact_read t o started
  refine ⟨?_, ?_⟩
  · cases rows with
    | nil => rfl
    | cons row rest =>
        obtain ⟨store, outcome, -⟩ := importRows_spec maxPluginEntries start (row :: rest)
        rw [pluginStateImportBatch]
        simp only [List.isEmpty_cons, Bool.false_eq_true, if_false, store, outcome]
  · intro done entry now rest _ s retention ran
    obtain ⟨-, -, kept⟩ := importRows_spec maxPluginEntries start done
    have exact := PluginStateRetention.exact_refresh now (kept s retention ran)
    exact ⟨exact.namespaceCount, exact.pluginCount⟩

/-- A batch of 501 rows is refused, although they can be registered one by one. -/
theorem import_refused : ∃ (o : OpenKeyedStoreOptions) (started : Int)
    (rows : List (ImportEntry × Int)),
    (pluginStateImportBatch 50000 Table.empty o started rows).1.rows.filter (Entry.live started) ≠
      (registerEach 50000 o Table.empty rows).1.rows.filter (Entry.live started) := by
  refine ⟨⟨"memory", "notes", 1000, .rejectNew, by decide⟩, 0,
    List.replicate 501 (⟨"first", "1", none, none⟩, 0), ?_⟩
  decide +kernel

end OpenClaw.PluginState
