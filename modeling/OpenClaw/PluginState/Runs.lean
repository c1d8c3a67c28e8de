import OpenClaw.PluginState.Transactions

/-!
Runs of the plugin state store: any operations of any plugins, each at its own reading of the
clock. Every transition upholds the limits of what it writes, changes nothing when it throws,
and never shows an expired row.
-/

namespace OpenClaw.PluginState

open Fallible

variable {Json : Type} {maxPluginEntries : Nat} {now : Int} {t : Store}
  {parseStoredJson : String → Except PluginStateStoreError Json}

inductive Operation
  | register (o : OpenKeyedStoreOptions) (key valueJson : String) (ttlMs createdAtMs : Option Int)
  | registerIfAbsent (o : OpenKeyedStoreOptions) (key valueJson : String) (ttlMs : Option Int)
  | update (o : OpenKeyedStoreOptions) (key : String)
      (updateValueJson : Option String →
        Except PluginStateStoreError (Option (String × Option Int)))
  | registerSequencedJournalEntry (o : JournalOptions) (cursorKey : String)
      (initialSequence : Int) (readCursorSequence : String → Option Int)
      (prepareEntry : Int → Except PluginStateStoreError PreparedJournalEntry)
  | consume (pluginId ns key : String)
  | delete (pluginId ns key : String)

inductive Answer (Json : Type)
  | done
  | flag (changed : Bool)
  | sequence (allocated : Int)
  | value (consumed : Option Json)

def Committed.map {A B : Type} (f : A → B) (c : Committed A) : Committed B :=
  ⟨c.store, f c.answer, c.writes⟩

namespace Operation

def run (maxPluginEntries : Nat) (parseStoredJson : String → Except PluginStateStoreError Json)
    (t : Store) (now : Int) : Operation → Except PluginStateStoreError (Committed (Answer Json))
  | register o key valueJson ttlMs createdAtMs =>
      (registerPluginStateEntry maxPluginEntries t o key valueJson ttlMs createdAtMs now).map
        (Committed.map fun _ => .done)
  | registerIfAbsent o key valueJson ttlMs =>
      (pluginStateRegisterIfAbsent maxPluginEntries t o key valueJson ttlMs now).map
        (Committed.map .flag)
  | update o key updateValueJson =>
      (pluginStateUpdate maxPluginEntries t o key updateValueJson now).map (Committed.map .flag)
  | registerSequencedJournalEntry o cursorKey initialSequence readCursorSequence prepareEntry =>
      (pluginStateRegisterSequencedJournalEntry maxPluginEntries t o cursorKey initialSequence
        readCursorSequence prepareEntry now).map (Committed.map .sequence)
  | consume pluginId ns key =>
      (pluginStateConsume parseStoredJson t pluginId ns key now).map (Committed.map .value)
  | delete pluginId ns key => .ok ((pluginStateDelete t pluginId ns key).map .flag)

/-- The keys that an operation with this answer has written. -/
def writtenKeys : Operation → Answer Json → List (OpenKeyedStoreOptions × String)
  | register o key _ _ _, _ => [(o, key)]
  | registerIfAbsent o key _ _, .flag true => [(o, key)]
  | update o key _, .flag true => [(o, key)]
  | registerSequencedJournalEntry o cursorKey _ _ prepareEntry, .sequence allocated =>
      match prepareEntry allocated with
      | .ok prepared => [(o.cursor, cursorKey), (o.journal, prepared.journalKey)]
      | .error _ => []
  | _, _ => []

/-- The key an operation takes out. -/
def takenKey : Operation → Option (String × String × String)
  | consume pluginId ns key => some (pluginId, ns, key)
  | delete pluginId ns key => some (pluginId, ns, key)
  | _ => none

end Operation

/-- One transaction of a run. -/
structure Transition (Json : Type) where
  before : Store
  operation : Operation
  now : Int
  outcome : Except PluginStateStoreError (Committed (Answer Json))
  after : Store

/-- A transaction that throws is rolled back. -/
def perform (maxPluginEntries : Nat) (parseStoredJson : String → Except PluginStateStoreError Json)
    (t : Store) (operation : Operation) (now : Int) : Transition Json where
  before := t
  operation
  now
  outcome := operation.run maxPluginEntries parseStoredJson t now
  after := match operation.run maxPluginEntries parseStoredJson t now with
    | .ok c => c.store
    | .error _ => t

def transcript (maxPluginEntries : Nat)
    (parseStoredJson : String → Except PluginStateStoreError Json) :
    Store → List (Operation × Int) → List (Transition Json)
  | _, [] => []
  | t, (operation, now) :: rest =>
      perform maxPluginEntries parseStoredJson t operation now ::
        transcript maxPluginEntries parseStoredJson
          (perform maxPluginEntries parseStoredJson t operation now).after rest

/-- What is read of a store, at any time. -/
structure ReadsLive (parseStoredJson : String → Except PluginStateStoreError Json) (t : Store) :
    Prop where
  lookup : ∀ pluginId ns key now value,
    pluginStateLookup parseStoredJson t pluginId ns key now = .ok (some value) →
      ∃ e ∈ t.rows, e.hasKey pluginId ns key = true ∧ e.live now = true ∧
        parseStoredJson e.valueJson = .ok value
  listed : ∀ pluginId ns now, ∀ e ∈ selectPluginStateEntries t pluginId ns now,
    e ∈ t.rows ∧ e.live now = true
  ranged : ∀ pluginId ns start stop limit ascending now,
    ∀ e ∈ selectPluginStateEntriesInKeyRange t pluginId ns start stop limit ascending now,
      e ∈ t.rows ∧ e.live now = true
  counted : ∀ s now o, SameLive now t s →
    namespaceCount now s o = namespaceCount now t o ∧ pluginCount now s o = pluginCount now t o

structure Upholds (maxPluginEntries : Nat)
    (parseStoredJson : String → Except PluginStateStoreError Json) (T : Transition Json) :
    Prop where
  failed : ∀ e, T.outcome = .error e → T.after = T.before
  keys : ∀ c, T.outcome = .ok c → c.keys = T.operation.writtenKeys c.answer
  respects : ∀ c, T.outcome = .ok c → T.operation.takenKey = none →
    Respects maxPluginEntries T.now T.before T.after c.writes
  taken : ∀ c pluginId ns key, T.outcome = .ok c →
    T.operation.takenKey = some (pluginId, ns, key) → ∀ e : Entry, e.live T.now = true →
      (e ∈ T.after.rows ↔ e ∈ T.before.rows ∧ e.hasKey pluginId ns key = false)
  consumed : ∀ c value, T.outcome = .ok c → c.answer = .value (some value) →
    ∃ e ∈ T.before.rows, e.live T.now = true ∧ parseStoredJson e.valueJson = .ok value ∧
      ∃ pluginId ns key, T.operation = .consume pluginId ns key ∧
        e.hasKey pluginId ns key = true
  absent : ∀ o key valueJson ttlMs, T.operation = .registerIfAbsent o key valueJson ttlMs →
    ((∃ c, T.outcome = .ok c ∧ c.answer = .flag false) ↔
      (∃ expiresAt, resolvePluginStateExpiresAtMs ttlMs T.now = .ok expiresAt) ∧
        (selectPluginStateEntry T.before o.pluginId o.ns key T.now).isSome = true) ∧
    ((∃ c, T.outcome = .ok c ∧ c.answer = .flag true) ↔
      (∃ expiresAt, resolvePluginStateExpiresAtMs ttlMs T.now = .ok expiresAt) ∧
        selectPluginStateEntry T.before o.pluginId o.ns key T.now = none ∧
          hasRoom maxPluginEntries T.now T.before o)
  reads : ReadsLive parseStoredJson T.after

section Reads

theorem readsLive (parseStoredJson : String → Except PluginStateStoreError Json) (t : Store) :
    ReadsLive parseStoredJson t where
  lookup p n k now value found := by
    simp only [pluginStateLookup] at found
    split at found
    case h_1 _ => cases found
    case h_2 row selected =>
      obtain ⟨mem, keyed, live⟩ := selectPluginStateEntry_eq_some selected
      cases parsed : parseStoredJson row.valueJson with
      | error e =>
          rw [parsed] at found
          cases found
      | ok v =>
          rw [parsed] at found
          cases found
          exact ⟨row, mem, keyed, live, parsed⟩
  listed p n now e mem := by
    have filtered := List.mem_filter.mp (List.mem_mergeSort.mp mem)
    rw [Bool.and_eq_true] at filtered
    exact ⟨filtered.1, filtered.2.2⟩
  ranged p n start stop limit ascending now e mem := by
    have filtered := List.mem_filter.mp (List.mem_mergeSort.mp (List.mem_of_mem_take mem))
    rw [Bool.and_eq_true] at filtered
    exact ⟨filtered.1, filtered.2.2⟩
  counted s now o same := ⟨same.namespaceCount_eq o, same.pluginCount_eq o⟩

end Reads

section Takes

variable {pluginId ns key : String}

theorem delete_taken (e : Entry) :
    e ∈ (pluginStateDelete t pluginId ns key).store.rows ↔
      e ∈ t.rows ∧ e.hasKey pluginId ns key = false :=
  Sql.Table.mem_delete

theorem consume_taken {c : Committed (Option Json)} {e : Entry} (live : e.live now = true)
    (ran : pluginStateConsume parseStoredJson t pluginId ns key now = .ok c) :
    e ∈ c.store.rows ↔ e ∈ t.rows ∧ e.hasKey pluginId ns key = false := by
  simp only [pluginStateConsume] at ran
  split at ran
  case h_1 absent =>
    cases ran
    refine (and_iff_left_of_imp fun mem => ?_).symm
    rw [Bool.eq_false_iff]
    intro keyed
    rw [selectPluginStateEntry_eq_none.mp absent e mem keyed] at live
    exact absurd live Bool.false_ne_true
  case h_2 row selected =>
    simp only [bind_eq_ok, pure_eq_ok] at ran
    obtain ⟨value, parsed, rfl⟩ := ran
    exact Sql.Table.mem_delete

theorem consume_value {c : Committed (Option Json)} {value : Json}
    (ran : pluginStateConsume parseStoredJson t pluginId ns key now = .ok c)
    (consumed : c.answer = some value) :
    ∃ e ∈ t.rows, e.live now = true ∧ parseStoredJson e.valueJson = .ok value ∧
      e.hasKey pluginId ns key = true := by
  simp only [pluginStateConsume] at ran
  split at ran
  case h_1 absent =>
    cases ran
    cases consumed
  case h_2 row selected =>
    simp only [bind_eq_ok, pure_eq_ok] at ran
    obtain ⟨v, parsed, rfl⟩ := ran
    cases consumed
    obtain ⟨mem, keyed, live⟩ := selectPluginStateEntry_eq_some selected
    exact ⟨row, mem, live, parsed, keyed⟩

end Takes

section Transitions

variable {operation : Operation} {c : Committed (Answer Json)}

theorem perform_outcome
    (ran : (perform maxPluginEntries parseStoredJson t operation now).outcome = .ok c) :
    operation.run maxPluginEntries parseStoredJson t now = .ok c ∧
      (perform maxPluginEntries parseStoredJson t operation now).after = c.store := by
  refine ⟨ran, ?_⟩
  have same : operation.run maxPluginEntries parseStoredJson t now = .ok c := ran
  simp only [perform, same]

theorem Operation.run_keys
    (ran : operation.run maxPluginEntries parseStoredJson t now = .ok c) :
    c.keys = operation.writtenKeys c.answer := by
  cases operation with
  | register o key valueJson ttlMs createdAtMs =>
      obtain ⟨inner, ok, rfl⟩ := map_eq_ok.mp ran
      exact (registerPluginStateEntry_respects ok).1
  | registerIfAbsent o key valueJson ttlMs =>
      obtain ⟨inner, ok, rfl⟩ := map_eq_ok.mp ran
      refine (pluginStateRegisterIfAbsent_respects ok).1.trans ?_
      simp only [Committed.map]
      cases inner.answer <;> rfl
  | update o key updateValueJson =>
      obtain ⟨inner, ok, rfl⟩ := map_eq_ok.mp ran
      refine (pluginStateUpdate_respects ok).1.trans ?_
      simp only [Committed.map]
      cases inner.answer <;> rfl
  | registerSequencedJournalEntry o cursorKey initialSequence readCursorSequence prepareEntry =>
      obtain ⟨inner, ok, rfl⟩ := map_eq_ok.mp ran
      obtain ⟨prepared, done, keys⟩ := (pluginStateRegisterSequencedJournalEntry_respects ok).1
      refine keys.trans ?_
      simp only [Operation.writtenKeys, Committed.map, done]
  | consume pluginId ns key =>
      obtain ⟨inner, ok, rfl⟩ := map_eq_ok.mp ran
      simp only [pluginStateConsume] at ok
      split at ok
      case h_1 absent =>
        cases ok
        rfl
      case h_2 row selected =>
        simp only [bind_eq_ok, pure_eq_ok] at ok
        obtain ⟨value, parsed, rfl⟩ := ok
        rfl
  | delete pluginId ns key =>
      cases ran
      rfl

theorem Operation.run_respects
    (ran : operation.run maxPluginEntries parseStoredJson t now = .ok c)
    (writes : operation.takenKey = none) :
    Respects maxPluginEntries now t c.store c.writes := by
  cases operation with
  | register o key valueJson ttlMs createdAtMs =>
      obtain ⟨inner, ok, rfl⟩ := map_eq_ok.mp ran
      exact (registerPluginStateEntry_respects ok).2
  | registerIfAbsent o key valueJson ttlMs =>
      obtain ⟨inner, ok, rfl⟩ := map_eq_ok.mp ran
      exact (pluginStateRegisterIfAbsent_respects ok).2
  | update o key updateValueJson =>
      obtain ⟨inner, ok, rfl⟩ := map_eq_ok.mp ran
      exact (pluginStateUpdate_respects ok).2
  | registerSequencedJournalEntry o cursorKey initialSequence readCursorSequence prepareEntry =>
      obtain ⟨inner, ok, rfl⟩ := map_eq_ok.mp ran
      exact (pluginStateRegisterSequencedJournalEntry_respects ok).2
  | consume pluginId ns key => cases writes
  | delete pluginId ns key => cases writes

theorem Operation.run_takes {pluginId ns key : String} {e : Entry}
    (ran : operation.run maxPluginEntries parseStoredJson t now = .ok c)
    (takes : operation.takenKey = some (pluginId, ns, key)) (live : e.live now = true) :
    e ∈ c.store.rows ↔ e ∈ t.rows ∧ e.hasKey pluginId ns key = false := by
  cases operation with
  | consume p n k =>
      cases takes
      obtain ⟨inner, ok, rfl⟩ := map_eq_ok.mp ran
      exact consume_taken live ok
  | delete p n k =>
      cases takes
      cases ran
      exact delete_taken e
  | register | registerIfAbsent | update | registerSequencedJournalEntry => cases takes

theorem Operation.run_consumed {value : Json}
    (ran : operation.run maxPluginEntries parseStoredJson t now = .ok c)
    (consumed : c.answer = .value (some value)) :
    ∃ e ∈ t.rows, e.live now = true ∧ parseStoredJson e.valueJson = .ok value ∧
      ∃ pluginId ns key, operation = .consume pluginId ns key ∧
        e.hasKey pluginId ns key = true := by
  cases operation with
  | consume p n k =>
      obtain ⟨inner, ok, rfl⟩ := map_eq_ok.mp ran
      obtain ⟨e, mem, live, parsed, keyed⟩ := consume_value ok (Answer.value.inj consumed)
      exact ⟨e, mem, live, parsed, p, n, k, rfl, keyed⟩
  | delete p n k =>
      cases ran
      cases consumed
  | register | registerIfAbsent | update | registerSequencedJournalEntry =>
      obtain ⟨inner, ok, rfl⟩ := map_eq_ok.mp ran
      cases consumed

theorem Operation.run_registerIfAbsent
    (parseStoredJson : String → Except PluginStateStoreError Json) {o : OpenKeyedStoreOptions} {key valueJson : String}
    {ttlMs : Option Int} {answer : Bool} :
    (∃ c, (registerIfAbsent o key valueJson ttlMs).run maxPluginEntries parseStoredJson t now =
        .ok c ∧ c.answer = .flag answer) ↔
      ∃ c, pluginStateRegisterIfAbsent maxPluginEntries t o key valueJson ttlMs now = .ok c ∧
        c.answer = answer := by
  simp only [run, map_eq_ok]
  constructor
  · rintro ⟨-, ⟨c, ok, rfl⟩, flagged⟩
    exact ⟨c, ok, Answer.flag.inj flagged⟩
  · rintro ⟨c, ok, rfl⟩
    exact ⟨_, ⟨c, ok, rfl⟩, rfl⟩

theorem perform_upholds (t : Store) (operation : Operation) (now : Int) :
    Upholds maxPluginEntries parseStoredJson
      (perform maxPluginEntries parseStoredJson t operation now) where
  failed e thrown := by
    have same : operation.run maxPluginEntries parseStoredJson t now = .error e := thrown
    simp only [perform, same]
  keys c ran := Operation.run_keys (perform_outcome ran).1
  respects c ran writes := by
    rw [(perform_outcome ran).2]
    exact Operation.run_respects (perform_outcome ran).1 writes
  taken c p n k ran takes e live := by
    rw [(perform_outcome ran).2]
    exact Operation.run_takes (perform_outcome ran).1 takes live
  consumed c value ran consumed := Operation.run_consumed (perform_outcome ran).1 consumed
  absent o key valueJson ttlMs asked := by
    have same : operation = .registerIfAbsent o key valueJson ttlMs := asked
    subst same
    have answers := pluginStateRegisterIfAbsent_answer maxPluginEntries now t o key valueJson ttlMs
    exact ⟨(Operation.run_registerIfAbsent parseStoredJson).trans answers.1,
      (Operation.run_registerIfAbsent parseStoredJson).trans answers.2⟩
  reads := readsLive parseStoredJson _

/-- Every transition of every run upholds the contract of the store. -/
theorem transcript_upholds (maxPluginEntries : Nat)
    (parseStoredJson : String → Except PluginStateStoreError Json) (t : Store)
    (steps : List (Operation × Int)) :
    ∀ T ∈ transcript maxPluginEntries parseStoredJson t steps,
      Upholds maxPluginEntries parseStoredJson T := by
  induction steps generalizing t with
  | nil => exact fun T mem => absurd mem List.not_mem_nil
  | cons step rest ih =>
      intro T mem
      rcases List.mem_cons.mp mem with rfl | later
      · exact perform_upholds t step.1 step.2
      · exact ih _ T later

/-- A store of one entry that evicts the oldest. -/
def single (ns : String) : OpenKeyedStoreOptions := ⟨"notes", ns, 1, .evictOldest, le_rfl⟩

theorem transcript_upholds_registered :
    ∃ T ∈ transcript 10 (fun value => .ok value) Sql.Table.empty
        [(.register (single "seen") "a" "1" none none, 5)],
      Upholds 10 (fun value => .ok value) T ∧ T.after.rows = [⟨"notes", "seen", "a", "1", 5, none⟩] :=
  ⟨_, List.mem_singleton_self _,
    transcript_upholds 10 _ Sql.Table.empty [(.register (single "seen") "a" "1" none none, 5)] _
      (List.mem_singleton_self _), by decide⟩

/-- A journal that keeps its cursor among its entries. -/
def mixed : JournalOptions := ⟨single "log", single "log", rfl, fun _ => rfl, rfl, rfl⟩

def mixedEntry : Operation := .registerSequencedJournalEntry mixed "cursor" 0 (fun _ => none)
  (fun _ => .ok ⟨"1", "entry", "x"⟩)

def cursorWrite : Write := ⟨mixed.cursor, mixed.cursor.entry "cursor" "1" 5 none⟩
def journalWrite : Write := ⟨mixed.journal, mixed.journal.entry "entry" "x" 6 none⟩

abbrev mixedStore : Store :=
  upsertPluginStateEntry (upsertPluginStateEntry Sql.Table.empty cursorWrite.row) journalWrite.row

theorem mixed_run : pluginStateRegisterSequencedJournalEntry 10 Sql.Table.empty mixed "cursor" 0
    (fun _ => none) (fun _ => .ok ⟨"1", "entry", "x"⟩) 5 =
      (enforcePostRegisterLimits 10 mixedStore mixed.journal 5 "entry" true >>= fun t =>
        .ok ⟨t, 1, [cursorWrite, journalWrite]⟩) := by
  rfl

theorem mixed_evicts {t : Store}
    (ran : enforcePostRegisterLimits 10 mixedStore mixed.journal 5 "entry" true = .ok t) :
    cursorWrite.row ∉ t.rows := by
  obtain ⟨gone, limits⟩ := enforcePostRegisterLimits_spec (by decide) ran
  have limit := limits.namespaceLimit (by decide)
  have journal : journalWrite.row ∈ t.rows :=
    (limits.shed.rows _).mpr ⟨by decide, fun taken => (limits.shed.inside _ taken).2.2.1 rfl⟩
  intro cursor
  have two : [cursorWrite.row, journalWrite.row].length ≤ (t.rows.filter fun e =>
      e.inNamespace mixed.journal.pluginId mixed.journal.ns && e.live 5).length := by
    refine List.Nodup.length_le_of_subset (by decide) fun e mem => List.mem_filter.mpr ?_
    rcases List.mem_pair.mp mem with rfl | rfl
    · exact ⟨cursor, by decide⟩
    · exact ⟨journal, by decide⟩
  rw [← List.countP_eq_length_filter] at two
  exact absurd (two.trans limit) (by decide)

/-- The journal row evicts the cursor row that the same operation has written. -/
theorem journal_evicts_cursor :
    ∃ T ∈ transcript 10 (fun value => .ok value) Sql.Table.empty [(mixedEntry, 5)],
      ∃ c, T.outcome = .ok c ∧ ∃ w ∈ c.writes, w.row ∉ T.after.rows := by
  have passes : ∃ t, enforcePostRegisterLimits 10 mixedStore mixed.journal 5 "entry" true = .ok t :=
    (enforcePostRegisterLimits_isOk (by decide) (by decide)).mpr (by decide)
  obtain ⟨t, ran⟩ := passes
  have run : mixedEntry.run 10 (fun value => .ok value) Sql.Table.empty 5 =
      (.ok ⟨t, .sequence 1, [cursorWrite, journalWrite]⟩ :
        Except PluginStateStoreError (Committed (Answer String))) := by
    simp only [mixedEntry, Operation.run, mixed_run, ran]
    rfl
  refine ⟨_, List.mem_singleton_self _, _, run, cursorWrite, by simp, ?_⟩
  simp only [perform, run]
  exact mixed_evicts ran

end Transitions

end OpenClaw.PluginState
