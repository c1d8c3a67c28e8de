import OpenClaw.Lib.SqlTable

/-!
The table `plugin_state_entries` and its statements. A row is live until its expiry; an
expired row may stay behind, because one sweep removes a bounded batch. The order of the
rows in a table is the order in which a statement without `ORDER BY` meets them.
-/

namespace OpenClaw.PluginState

/-- A row of `plugin_state_entries`. -/
structure Entry where
  pluginId : String
  ns : String
  key : String
  valueJson : String
  createdAt : Int
  expiresAt : Option Int
deriving DecidableEq, Repr

namespace Entry

/-- `expires_at IS NULL OR expires_at > now`. -/
def live (now : Int) (e : Entry) : Bool :=
  match e.expiresAt with
  | none => true
  | some expiresAt => decide (now < expiresAt)

def inNamespace (pluginId ns : String) (e : Entry) : Bool :=
  e.pluginId == pluginId && e.ns == ns

def hasKey (pluginId ns key : String) (e : Entry) : Bool :=
  e.inNamespace pluginId ns && e.key == key

/-- `ORDER BY created_at ASC, entry_key ASC`. -/
def older (left right : Entry) : Bool :=
  left.createdAt < right.createdAt ||
    (left.createdAt == right.createdAt && left.key ≤ right.key)

theorem inNamespace_iff {p n : String} {e : Entry} :
    e.inNamespace p n = true ↔ e.pluginId = p ∧ e.ns = n := by
  simp [inNamespace]

theorem hasKey_iff {p n k : String} {e : Entry} :
    e.hasKey p n k = true ↔ e.pluginId = p ∧ e.ns = n ∧ e.key = k := by
  simp [hasKey, inNamespace_iff, and_assoc]

theorem older_iff {a b : Entry} :
    a.older b = true ↔ a.createdAt < b.createdAt ∨ a.createdAt = b.createdAt ∧ a.key ≤ b.key := by
  simp [older]

theorem older_trans (a b c : Entry) (ab : a.older b = true) (bc : b.older c = true) :
    a.older c = true := by
  rw [older_iff] at ab bc ⊢
  rcases ab with ab | ⟨ab, keysAB⟩ <;> rcases bc with bc | ⟨bc, keysBC⟩
  · exact .inl (by omega)
  · exact .inl (by omega)
  · exact .inl (by omega)
  · exact .inr ⟨by omega, keysAB.trans keysBC⟩

theorem older_total (a b : Entry) : (a.older b || b.older a) = true := by
  rw [Bool.or_eq_true, older_iff, older_iff]
  rcases lt_trichotomy a.createdAt b.createdAt with before | same | after
  · exact .inl (.inl before)
  · rcases le_total a.key b.key with keys | keys
    · exact .inl (.inr ⟨same, keys⟩)
    · exact .inr (.inr ⟨same.symm, keys⟩)
  · exact .inr (.inl after)

end Entry

/-- `PRIMARY KEY (plugin_id, namespace, entry_key)`. -/
def entries : Sql.Schema Entry where
  check _ := True
  apart a b := ¬ (a.pluginId = b.pluginId ∧ a.ns = b.ns ∧ a.key = b.key)
  symm _ _ apart same := apart ⟨same.1.symm, same.2.1.symm, same.2.2.symm⟩

abbrev Store := Sql.Table entries

def PLUGIN_STATE_EXPIRY_BATCH_ROWS : Nat := 1024

section Statements

/-- `INSERT … ON CONFLICT DO UPDATE`, which sets every column outside the key. -/
def upsertPluginStateEntry (t : Store) (row : Entry) : Store :=
  ⟨t.rows.filter (fun e => !e.hasKey row.pluginId row.ns row.key) ++ [row], by
    refine ⟨fun _ _ => trivial, List.pairwise_append.mpr
      ⟨t.admitted.2.sublist List.filter_sublist, List.pairwise_singleton _ _, ?_⟩⟩
    intro e mem r same
    rw [List.mem_singleton.mp same]
    have other := (List.mem_filter.mp mem).2
    rw [Bool.not_eq_true', Bool.eq_false_iff, ne_eq, Entry.hasKey_iff] at other
    exact other⟩

def selectPluginStateEntry (t : Store) (pluginId ns key : String) (now : Int) : Option Entry :=
  t.rows.find? fun e => e.hasKey pluginId ns key && e.live now

def selectPluginStateEntries (t : Store) (pluginId ns : String) (now : Int) : List Entry :=
  (t.rows.filter fun e => e.inNamespace pluginId ns && e.live now).mergeSort Entry.older

def selectPluginStateEntriesInKeyRange (t : Store) (pluginId ns keyStartInclusive
    keyEndExclusive : String) (limit : Nat) (ascending : Bool) (now : Int) : List Entry :=
  ((t.rows.filter fun e => e.inNamespace pluginId ns && decide (keyStartInclusive ≤ e.key) &&
      decide (e.key < keyEndExclusive) && e.live now).mergeSort fun a b =>
        if ascending then decide (a.key ≤ b.key) else decide (b.key ≤ a.key)).take limit

def deletePluginStateEntry (t : Store) (pluginId ns key : String) : Store × Nat :=
  (t.delete (Entry.hasKey pluginId ns key), t.rows.countP (Entry.hasKey pluginId ns key))

/-- One batch of the expired rows of a namespace. -/
def expiredBatch (t : Store) (now : Int) (pluginId ns : String) : List Entry :=
  (t.rows.filter fun e => e.inNamespace pluginId ns && !e.live now).take
    PLUGIN_STATE_EXPIRY_BATCH_ROWS

def deleteExpiredPluginStateEntries (t : Store) (now : Int) (pluginId ns : String) : Store :=
  t.delete fun e => (expiredBatch t now pluginId ns).contains e

def countLivePluginStateNamespaceEntries (t : Store) (pluginId ns : String) (now : Int) : Nat :=
  t.rows.countP fun e => e.inNamespace pluginId ns && e.live now

def countLivePluginStateEntries (t : Store) (pluginId : String) (now : Int) : Nat :=
  t.rows.countP fun e => e.pluginId == pluginId && e.live now

/-- The live rows of a namespace beside the protected key, the oldest `limit` of them. -/
def oldestNamespaceEntries (t : Store) (pluginId ns protectedKey : String) (now : Int)
    (limit : Nat) : List Entry :=
  ((t.rows.filter fun e => e.inNamespace pluginId ns && e.key != protectedKey &&
    e.live now).mergeSort Entry.older).take limit

def deleteOldestPluginStateNamespaceEntries (t : Store) (pluginId ns protectedKey : String)
    (now : Int) (limit : Nat) : Store :=
  t.delete fun e => (oldestNamespaceEntries t pluginId ns protectedKey now limit).contains e

/-- `MAX(created_at)` of a namespace, expired rows included. -/
def maxCreatedAt (t : Store) (pluginId ns : String) : Option Int :=
  ((t.rows.filter (Entry.inNamespace pluginId ns)).map Entry.createdAt).max?

end Statements

end OpenClaw.PluginState

/-!
The write paths of the plugin state store. Each is one immediate transaction over the
table: it reads the clock once, sweeps a batch of expired rows, checks the limits, writes
and sheds what overflows. A transaction that throws leaves the table as it was.
-/

namespace OpenClaw.PluginState

inductive PluginStateOverflowPolicy
  | rejectNew
  | evictOldest
deriving DecidableEq, Repr

inductive PluginStateStoreErrorCode
  | invalidInput
  | limitExceeded
  | writeFailed
  | readFailed
  | corrupt
deriving DecidableEq, Repr

structure PluginStateStoreError where
  code : PluginStateStoreErrorCode
  message : String
deriving DecidableEq, Repr

/-- An opened namespace; opening it has checked `maxEntries`. -/
structure OpenKeyedStoreOptions where
  pluginId : String
  ns : String
  maxEntries : Nat
  overflowPolicy : PluginStateOverflowPolicy
  positive : 1 ≤ maxEntries

def MAX_SAFE_INTEGER : Int := 9007199254740991
def MAX_DATE_TIMESTAMP_MS : Int := 8640000000000000

def isSafeInteger (value : Int) : Bool := decide (-MAX_SAFE_INTEGER ≤ value ∧ value ≤ MAX_SAFE_INTEGER)

def isDateTimestamp (value : Int) : Bool :=
  decide (-MAX_DATE_TIMESTAMP_MS ≤ value ∧ value ≤ MAX_DATE_TIMESTAMP_MS)

def resolveExpiresAtMsFromDurationMs (durationMs nowMs : Int) : Option Int :=
  if decide (0 < durationMs) && isSafeInteger durationMs && isDateTimestamp nowMs &&
      isSafeInteger (nowMs + durationMs) && isDateTimestamp (nowMs + durationMs) then
    some (nowMs + durationMs)
  else none

def resolvePluginStateExpiresAtMs (ttlMs : Option Int) (now : Int) :
    Except PluginStateStoreError (Option Int) :=
  match ttlMs with
  | none => .ok none
  | some ttl =>
      match resolveExpiresAtMsFromDurationMs ttl now with
      | some expiresAt => .ok (some expiresAt)
      | none => .error
          ⟨.invalidInput, "Plugin state ttlMs cannot produce a valid expiry timestamp."⟩

section Limits

variable (maxPluginEntries : Nat)

def assertCanInsertPluginStateEntry (t : Store) (o : OpenKeyedStoreOptions) (now : Int) :
    Except PluginStateStoreError Unit :=
  if o.overflowPolicy != .rejectNew then .ok ()
  else if o.maxEntries ≤ countLivePluginStateNamespaceEntries t o.pluginId o.ns now then
    .error ⟨.limitExceeded,
      s!"Plugin state namespace {o.ns} for {o.pluginId} reached its {o.maxEntries}-row limit."⟩
  else if maxPluginEntries ≤ countLivePluginStateEntries t o.pluginId now then
    .error ⟨.limitExceeded,
      s!"Plugin state for {o.pluginId} reached the {maxPluginEntries} live row limit."⟩
  else .ok ()

/-- The rows above the namespace's own limit. -/
def shedNamespaceOverflow (t : Store) (o : OpenKeyedStoreOptions) (now : Int)
    (protectedKey : String) : Store :=
  let namespaceCount := countLivePluginStateNamespaceEntries t o.pluginId o.ns now
  if o.maxEntries < namespaceCount then
    deleteOldestPluginStateNamespaceEntries t o.pluginId o.ns protectedKey now
      (namespaceCount - o.maxEntries)
  else t

/-- The rows above the plugin's limit, taken from the namespace that grew. -/
def shedPluginOverflow (t : Store) (o : OpenKeyedStoreOptions) (now : Int)
    (protectedKey : String) : Except PluginStateStoreError Store :=
  let pluginCount := countLivePluginStateEntries t o.pluginId now
  if pluginCount ≤ maxPluginEntries then .ok t
  else
    let shed := deleteOldestPluginStateNamespaceEntries t o.pluginId o.ns protectedKey now
      (pluginCount - maxPluginEntries)
    if maxPluginEntries < countLivePluginStateEntries shed o.pluginId now then
      .error ⟨.limitExceeded,
        s!"Plugin state for {o.pluginId} exceeds the {maxPluginEntries} live row limit."⟩
    else .ok shed

def enforcePostRegisterLimits (t : Store) (o : OpenKeyedStoreOptions) (now : Int)
    (protectedKey : String) (enforcePluginLimit : Bool) : Except PluginStateStoreError Store :=
  if o.overflowPolicy = .rejectNew then .ok t
  else
    let kept := shedNamespaceOverflow t o now protectedKey
    if enforcePluginLimit then shedPluginOverflow maxPluginEntries kept o now protectedKey
    else .ok kept

end Limits

/-- A row an operation has written, and the namespace it is written to. -/
structure Write where
  options : OpenKeyedStoreOptions
  row : Entry

/-- What a transaction commits and returns. -/
structure Committed (Answer : Type) where
  store : Store
  answer : Answer
  writes : List Write

def OpenKeyedStoreOptions.entry (o : OpenKeyedStoreOptions) (key valueJson : String)
    (createdAt : Int) (expiresAt : Option Int) : Entry :=
  ⟨o.pluginId, o.ns, key, valueJson, createdAt, expiresAt⟩

section Operations

variable (maxPluginEntries : Nat)

/-- `createdAtMs` is the age a migrated row keeps. -/
def registerPluginStateEntry (t : Store) (o : OpenKeyedStoreOptions) (key valueJson : String)
    (ttlMs createdAtMs : Option Int) (now : Int) :
    Except PluginStateStoreError (Committed Unit) := do
  let expiresAt ← resolvePluginStateExpiresAtMs ttlMs now
  let t := deleteExpiredPluginStateEntries t now o.pluginId o.ns
  let existing := selectPluginStateEntry t o.pluginId o.ns key now
  if existing.isNone then
    assertCanInsertPluginStateEntry maxPluginEntries t o now
  let row := o.entry key valueJson (createdAtMs.getD now) expiresAt
  let t ← enforcePostRegisterLimits maxPluginEntries (upsertPluginStateEntry t row) o now key true
  return ⟨t, (), [⟨o, row⟩]⟩

def pluginStateRegisterIfAbsent (t : Store) (o : OpenKeyedStoreOptions) (key valueJson : String)
    (ttlMs : Option Int) (now : Int) : Except PluginStateStoreError (Committed Bool) := do
  let expiresAt ← resolvePluginStateExpiresAtMs ttlMs now
  let t := deleteExpiredPluginStateEntries t now o.pluginId o.ns
  if (selectPluginStateEntry t o.pluginId o.ns key now).isSome then
    return ⟨t, false, []⟩
  -- the exact expired key can lie beyond this namespace's cleanup batch
  let t := (deletePluginStateEntry t o.pluginId o.ns key).1
  assertCanInsertPluginStateEntry maxPluginEntries t o now
  let row := o.entry key valueJson now expiresAt
  -- `INSERT OR IGNORE`: the key is free now
  let t ← enforcePostRegisterLimits maxPluginEntries (upsertPluginStateEntry t row) o now key true
  return ⟨t, true, [⟨o, row⟩]⟩

/-- `updateValueJson` is the caller's function with the stored text parsed for it; it may
throw, as parsing may. -/
def pluginStateUpdate (t : Store) (o : OpenKeyedStoreOptions) (key : String)
    (updateValueJson : Option String →
      Except PluginStateStoreError (Option (String × Option Int))) (now : Int) :
    Except PluginStateStoreError (Committed Bool) := do
  let t := deleteExpiredPluginStateEntries t now o.pluginId o.ns
  let existing := selectPluginStateEntry t o.pluginId o.ns key now
  match ← updateValueJson (existing.map Entry.valueJson) with
  | none => return ⟨t, false, []⟩
  | some (valueJson, ttlMs) =>
      if existing.isNone then
        assertCanInsertPluginStateEntry maxPluginEntries t o now
      let expiresAt ← resolvePluginStateExpiresAtMs ttlMs now
      let row := o.entry key valueJson now expiresAt
      let t ← enforcePostRegisterLimits maxPluginEntries (upsertPluginStateEntry t row) o now key
        true
      return ⟨t, true, [⟨o, row⟩]⟩

structure PreparedJournalEntry where
  cursorValueJson : String
  journalKey : String
  journalValueJson : String

/-- Both stores of a journal evict the oldest; a namespace has one limit. -/
structure JournalOptions where
  cursor : OpenKeyedStoreOptions
  journal : OpenKeyedStoreOptions
  samePlugin : cursor.pluginId = journal.pluginId
  sameLimit : cursor.ns = journal.ns → cursor.maxEntries = journal.maxEntries
  cursorEvicts : cursor.overflowPolicy = .evictOldest
  journalEvicts : journal.overflowPolicy = .evictOldest

def allocatePluginStateNamespaceCreatedAt (t : Store) (pluginId ns : String) (now : Int) :
    Except PluginStateStoreError Int :=
  let next := match maxCreatedAt t pluginId ns with
    | none => now
    | some previous => max now (previous + 1)
  if isSafeInteger next then .ok next
  else .error ⟨.writeFailed, "Failed to register sequenced plugin state journal entry."⟩

def pluginStateRegisterSequencedJournalEntry (t : Store) (o : JournalOptions)
    (cursorKey : String) (initialSequence : Int) (readCursorSequence : String → Option Int)
    (prepareEntry : Int → Except PluginStateStoreError PreparedJournalEntry) (now : Int) :
    Except PluginStateStoreError (Committed Int) := do
  let t := deleteExpiredPluginStateEntries t now o.cursor.pluginId o.cursor.ns
  let t := deleteExpiredPluginStateEntries t now o.journal.pluginId o.journal.ns
  let cursor := selectPluginStateEntry t o.cursor.pluginId o.cursor.ns cursorKey now
  let cursorSequence := cursor.bind fun row => readCursorSequence row.valueJson
  let sequence := max initialSequence (cursorSequence.getD 0) + 1
  if !isSafeInteger sequence then
    throw ⟨.writeFailed, "Failed to register sequenced plugin state journal entry."⟩
  let prepared ← prepareEntry sequence
  if (selectPluginStateEntry t o.journal.pluginId o.journal.ns prepared.journalKey now).isSome then
    throw ⟨.writeFailed, "Plugin state journal sequence already exists."⟩
  if cursor.isNone then
    assertCanInsertPluginStateEntry maxPluginEntries t o.cursor now
  assertCanInsertPluginStateEntry maxPluginEntries t o.journal now
  let cursorRow := o.cursor.entry cursorKey prepared.cursorValueJson now none
  let t ← enforcePostRegisterLimits maxPluginEntries (upsertPluginStateEntry t cursorRow) o.cursor
    now cursorKey false
  let createdAt ← allocatePluginStateNamespaceCreatedAt t o.journal.pluginId o.journal.ns now
  let journalRow := o.journal.entry prepared.journalKey prepared.journalValueJson createdAt none
  let t ← enforcePostRegisterLimits maxPluginEntries (upsertPluginStateEntry t journalRow)
    o.journal now prepared.journalKey true
  return ⟨t, sequence, [⟨o.cursor, cursorRow⟩, ⟨o.journal, journalRow⟩]⟩

/-- `parseStoredJson` fails on a corrupt value; the deletion is then rolled back too. -/
def pluginStateConsume {Json : Type} (parseStoredJson : String → Except PluginStateStoreError Json)
    (t : Store) (pluginId ns key : String) (now : Int) :
    Except PluginStateStoreError (Committed (Option Json)) :=
  match selectPluginStateEntry t pluginId ns key now with
  | none => .ok ⟨t, none, []⟩
  | some row => do
      let value ← parseStoredJson row.valueJson
      return ⟨(deletePluginStateEntry t pluginId ns key).1, some value, []⟩

def pluginStateDelete (t : Store) (pluginId ns key : String) : Committed Bool :=
  let deleted := deletePluginStateEntry t pluginId ns key
  ⟨deleted.1, decide (0 < deleted.2), []⟩

def pluginStateLookup {Json : Type} (parseStoredJson : String → Except PluginStateStoreError Json)
    (t : Store) (pluginId ns key : String) (now : Int) :
    Except PluginStateStoreError (Option Json) :=
  match selectPluginStateEntry t pluginId ns key now with
  | none => .ok none
  | some row => (parseStoredJson row.valueJson).map some

end Operations

end OpenClaw.PluginState
