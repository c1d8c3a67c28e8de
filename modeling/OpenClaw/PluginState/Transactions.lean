import OpenClaw.PluginState.Journal
import OpenClaw.Lib.Fallible

/-!
Each writing operation against the contract, and when `registerIfAbsent` inserts.
-/

namespace OpenClaw.PluginState

open Sql Fallible

variable {maxPluginEntries : Nat} {now createdAt : Int} {t s s' t' : Store}
  {o : OpenKeyedStoreOptions} {e row : Entry} {p n key valueJson : String}
  {ttlMs createdAtMs expiresAt : Option Int} {enforced : Bool}

section Steps

theorem live_of_resolved (o : OpenKeyedStoreOptions) (key valueJson : String) (createdAt : Int)
    (resolved : resolvePluginStateExpiresAtMs ttlMs now = .ok expiresAt) :
    (o.entry key valueJson createdAt expiresAt).live now = true := by
  cases ttlMs with
  | none =>
      cases resolved
      rfl
  | some ttl =>
      simp only [resolvePluginStateExpiresAtMs, resolveExpiresAtMsFromDurationMs] at resolved
      by_cases valid : (decide (0 < ttl) && isSafeInteger ttl && isDateTimestamp now &&
          isSafeInteger (now + ttl) && isDateTimestamp (now + ttl)) = true
      · rw [if_pos valid] at resolved
        cases resolved
        simp only [Bool.and_eq_true, decide_eq_true_eq] at valid
        simp only [Entry.live, OpenKeyedStoreOptions.entry, decide_eq_true_eq]
        omega
      · rw [if_neg valid] at resolved
        cases resolved

theorem live_of_never (o : OpenKeyedStoreOptions) (key valueJson : String) (createdAt now : Int) :
    (o.entry key valueJson createdAt none).live now = true := rfl

theorem assertCanInsert_isOk :
    (∃ u, assertCanInsertPluginStateEntry maxPluginEntries t o now = .ok u) ↔
      (o.overflowPolicy = .rejectNew →
        namespaceCount now t o < o.maxEntries ∧ pluginCount now t o < maxPluginEntries) := by
  cases policy : o.overflowPolicy with
  | evictOldest => simp [assertCanInsertPluginStateEntry, policy]
  | rejectNew =>
      simp only [assertCanInsertPluginStateEntry, policy, bne_self_eq_false, Bool.false_eq_true,
        if_false, true_imp_iff]
      split
      case isTrue full =>
        exact iff_of_false (by simp) fun room => absurd full (Nat.not_le_of_lt room.1)
      case isFalse room =>
        split
        case isTrue full =>
          exact iff_of_false (by simp) fun room => absurd full (Nat.not_le_of_lt room.2)
        case isFalse room' =>
          exact iff_of_true ⟨(), rfl⟩ ⟨Nat.lt_of_not_le room, Nat.lt_of_not_le room'⟩

/-- Deleting a key with no live row is one more sweep. -/
theorem SameLive.delete (same : SameLive now t s)
    (absent : selectPluginStateEntry s p n key now = none) :
    SameLive now t (deletePluginStateEntry s p n key).1 := by
  intro e live
  rw [← same e live, deletePluginStateEntry, Table.mem_delete, and_iff_left_iff_imp]
  intro mem
  rw [Bool.eq_false_iff]
  intro keyed
  rw [selectPluginStateEntry_eq_none.mp absent e mem keyed] at live
  exact absurd live Bool.false_ne_true

theorem select_upsert (live : row.live now = true) :
    (selectPluginStateEntry (upsertPluginStateEntry s row) row.pluginId row.ns row.key
      now).isSome = true := by
  rw [Option.isSome_iff_ne_none, ne_eq, selectPluginStateEntry_eq_none]
  intro none
  have dead := none row (mem_upsert.mpr (.inl rfl)) (Entry.hasKey_iff.mpr ⟨rfl, rfl, rfl⟩)
  rw [live] at dead
  cases dead

theorem Wrote.of_enforced (live : (o.entry key valueJson createdAt expiresAt).live now = true)
    (room : o.overflowPolicy = .rejectNew → selectPluginStateEntry s o.pluginId o.ns key now = none →
      ∃ u, assertCanInsertPluginStateEntry maxPluginEntries s o now = .ok u)
    (ran : enforcePostRegisterLimits maxPluginEntries
      (upsertPluginStateEntry s (o.entry key valueJson createdAt expiresAt)) o now key enforced =
        .ok t') :
    ∃ gone, Wrote maxPluginEntries enforced now s ⟨o, o.entry key valueJson createdAt expiresAt⟩
      gone t' := by
  obtain ⟨gone, limits⟩ := enforcePostRegisterLimits_spec (select_upsert live) ran
  refine ⟨gone, rfl, rfl, live, limits, fun rejects new => ?_⟩
  by_cases absent : selectPluginStateEntry s o.pluginId o.ns key now = none
  · exact assertCanInsert_isOk.mp (room rejects absent) rejects
  · have present := Option.isSome_iff_ne_none.mpr absent
    simp [added, OpenKeyedStoreOptions.entry, present] at new

end Steps

section Commits

/-- The keys written, each with the store it is written through. -/
def Committed.keys {Answer : Type} (c : Committed Answer) : List (OpenKeyedStoreOptions × String) :=
  c.writes.map fun w => (w.options, w.row.key)

theorem registerPluginStateEntry_respects {c : Committed Unit}
    (ran : registerPluginStateEntry maxPluginEntries t o key valueJson ttlMs createdAtMs now =
      .ok c) :
    c.keys = [(o, key)] ∧ Respects maxPluginEntries now t c.store c.writes := by
  simp only [registerPluginStateEntry, guard_eq_ok, bind_eq_ok, pure_eq_ok] at ran
  obtain ⟨expiresAt, resolved, room, t', enforced, rfl⟩ := ran
  obtain ⟨gone, wrote⟩ := Wrote.of_enforced (live_of_resolved _ _ _ _ resolved)
    (fun _ absent => room (Option.isNone_iff_eq_none.mpr absent)) enforced
  exact ⟨rfl, wrote.respects ((SameLive.refl now t).sweep _ _)⟩

theorem pluginStateRegisterIfAbsent_respects {c : Committed Bool}
    (ran : pluginStateRegisterIfAbsent maxPluginEntries t o key valueJson ttlMs now = .ok c) :
    c.keys = (if c.answer then [(o, key)] else []) ∧
      Respects maxPluginEntries now t c.store c.writes := by
  simp only [pluginStateRegisterIfAbsent, bind_eq_ok] at ran
  obtain ⟨expiresAt, resolved, ran⟩ := ran
  have swept := (SameLive.refl now t).sweep o.pluginId o.ns
  by_cases present : (selectPluginStateEntry (deleteExpiredPluginStateEntries t now o.pluginId o.ns)
      o.pluginId o.ns key now).isSome = true
  · rw [if_pos present, pure_eq_ok] at ran
    subst ran
    exact ⟨rfl, swept.respects⟩
  · rw [if_neg present] at ran
    simp only [bind_eq_ok, pure_eq_ok] at ran
    obtain ⟨u, room, t', enforced, rfl⟩ := ran
    obtain ⟨gone, wrote⟩ := Wrote.of_enforced (live_of_resolved _ _ _ _ resolved)
      (fun _ _ => ⟨u, room⟩) enforced
    have absent := Option.not_isSome_iff_eq_none.mp present
    exact ⟨rfl, wrote.respects (swept.delete absent)⟩

theorem pluginStateUpdate_respects {c : Committed Bool}
    {updateValueJson : Option String → Except PluginStateStoreError (Option (String × Option Int))}
    (ran : pluginStateUpdate maxPluginEntries t o key updateValueJson now = .ok c) :
    c.keys = (if c.answer then [(o, key)] else []) ∧
      Respects maxPluginEntries now t c.store c.writes := by
  simp only [pluginStateUpdate, bind_eq_ok] at ran
  obtain ⟨next, updated, ran⟩ := ran
  have swept := (SameLive.refl now t).sweep o.pluginId o.ns
  cases next with
  | none =>
      simp only [pure_eq_ok] at ran
      subst ran
      exact ⟨rfl, swept.respects⟩
  | some update =>
      simp only [guard_eq_ok, bind_eq_ok, pure_eq_ok] at ran
      obtain ⟨room, expiresAt, resolved, t', enforced, rfl⟩ := ran
      obtain ⟨gone, wrote⟩ := Wrote.of_enforced (live_of_resolved _ _ _ _ resolved)
        (fun _ absent => room (Option.isNone_iff_eq_none.mpr absent)) enforced
      exact ⟨rfl, wrote.respects swept⟩

/-- The store of a journal entry after both of its namespaces have been swept. -/
abbrev sweptFor (t : Store) (o : JournalOptions) (now : Int) : Store :=
  deleteExpiredPluginStateEntries (deleteExpiredPluginStateEntries t now o.cursor.pluginId o.cursor.ns)
    now o.journal.pluginId o.journal.ns

section Sequenced

variable {o : JournalOptions} {initialSequence : Int} {readCursorSequence : String → Option Int}
  {prepareEntry : Int → Except PluginStateStoreError PreparedJournalEntry} {c : Committed Int}

/-- What a journal entry that is committed has read and written. -/
theorem pluginStateRegisterSequencedJournalEntry_ok
    (ran : pluginStateRegisterSequencedJournalEntry maxPluginEntries t o key initialSequence
      readCursorSequence prepareEntry now = .ok c) :
    ∃ prepared gone s' createdAt gone',
      c.answer = max initialSequence
        (((selectPluginStateEntry (sweptFor t o now) o.cursor.pluginId o.cursor.ns key now).bind
          fun row => readCursorSequence row.valueJson).getD 0) + 1 ∧
      prepareEntry c.answer = .ok prepared ∧
      allocatePluginStateNamespaceCreatedAt s' o.journal.pluginId o.journal.ns now = .ok createdAt ∧
      c.writes = [⟨o.cursor, o.cursor.entry key prepared.cursorValueJson now none⟩,
        ⟨o.journal, o.journal.entry prepared.journalKey prepared.journalValueJson createdAt none⟩] ∧
      Journaled maxPluginEntries now (sweptFor t o now)
        ⟨o.cursor, o.cursor.entry key prepared.cursorValueJson now none⟩ gone s'
        ⟨o.journal, o.journal.entry prepared.journalKey prepared.journalValueJson createdAt none⟩ gone'
        c.store := by
  simp only [pluginStateRegisterSequencedJournalEntry] at ran
  split at ran
  case isTrue _ => exact absurd ran (by rw [throw_bind_eq_ok]; exact not_false)
  case isFalse safe =>
    obtain ⟨prepared, done, ran⟩ := bind_eq_ok.mp ran
    split at ran
    case isTrue _ => exact absurd ran (by rw [throw_bind_eq_ok]; exact not_false)
    case isFalse fresh =>
      simp only [guard_eq_ok, bind_eq_ok, pure_eq_ok] at ran
      obtain ⟨roomCursor, -, -, s', enforced, createdAt, allocated, t', enforced', rfl⟩ := ran
      obtain ⟨gone, wrote⟩ := Wrote.of_enforced (live_of_never ..)
        (fun _ absent => roomCursor (Option.isNone_iff_eq_none.mpr absent)) enforced
      obtain ⟨gone', wrote'⟩ := Wrote.of_enforced (live_of_never ..)
        (fun rejects _ => absurd (o.journalEvicts.symm.trans rejects) (by simp)) enforced'
      exact ⟨prepared, gone, s', createdAt, gone', rfl, done, allocated, rfl, wrote, wrote',
        o.samePlugin, o.sameLimit, o.cursorEvicts, o.journalEvicts, if_neg fresh⟩

theorem pluginStateRegisterSequencedJournalEntry_respects
    (ran : pluginStateRegisterSequencedJournalEntry maxPluginEntries t o key initialSequence
      readCursorSequence prepareEntry now = .ok c) :
    (∃ prepared, prepareEntry c.answer = .ok prepared ∧
        c.keys = [(o.cursor, key), (o.journal, prepared.journalKey)]) ∧
      Respects maxPluginEntries now t c.store c.writes := by
  obtain ⟨prepared, gone, s', createdAt, gone', -, done, -, writes, both⟩ :=
    pluginStateRegisterSequencedJournalEntry_ok ran
  have swept := ((SameLive.refl now t).sweep o.cursor.pluginId o.cursor.ns).sweep
    o.journal.pluginId o.journal.ns
  refine ⟨⟨prepared, done, ?_⟩, ?_⟩
  · rw [Committed.keys, writes]
    rfl
  · rw [writes]
    exact both.respects swept

end Sequenced

end Commits

section Refusal

/-- The plugin's rows outside the namespace cannot be shed for it. -/
def hasRoom (maxPluginEntries : Nat) (now : Int) (t : Store) (o : OpenKeyedStoreOptions) : Prop :=
  if o.overflowPolicy = .rejectNew then
    namespaceCount now t o < o.maxEntries ∧ pluginCount now t o < maxPluginEntries
  else pluginCount now t o < maxPluginEntries + namespaceCount now t o

theorem shedPluginOverflow_isOk
    (present : (selectPluginStateEntry t o.pluginId o.ns key now).isSome = true) :
    (∃ t', shedPluginOverflow maxPluginEntries t o now key = .ok t') ↔
      pluginCount now t o < maxPluginEntries + namespaceCount now t o := by
  have others := countP_unprotected present
  have shed := Shedding.deleteOldest t o key now (pluginCount now t o - maxPluginEntries)
  have count := shed.countLivePlugin
  rw [length_oldest] at count
  simp only [shedPluginOverflow, pluginCount, namespaceCount] at *
  by_cases within : countLivePluginStateEntries t o.pluginId now ≤ maxPluginEntries
  · rw [if_pos within]
    exact ⟨fun _ => by omega, fun _ => ⟨t, rfl⟩⟩
  · rw [if_neg within]
    split
    case isTrue still =>
      refine ⟨fun passed => ?_, fun room => absurd still (by omega)⟩
      obtain ⟨_, impossible⟩ := passed
      cases impossible
    case isFalse fits => exact ⟨fun _ => by omega, fun _ => ⟨_, rfl⟩⟩

theorem enforcePostRegisterLimits_isOk
    (present : (selectPluginStateEntry t o.pluginId o.ns key now).isSome = true)
    (evicts : o.overflowPolicy ≠ .rejectNew) :
    (∃ t', enforcePostRegisterLimits maxPluginEntries t o now key true = .ok t') ↔
      pluginCount now t o < maxPluginEntries + namespaceCount now t o := by
  obtain ⟨gone, shed, length⟩ := shedNamespaceOverflow_spec t o now key present
  have namespaces := shed.countLiveNamespace
  have plugins := shed.countLivePlugin
  have kept : (selectPluginStateEntry (shedNamespaceOverflow t o now key) o.pluginId o.ns key
      now).isSome = true := by
    obtain ⟨r, found⟩ := Option.isSome_iff_exists.mp present
    obtain ⟨mem, keyed, live⟩ := selectPluginStateEntry_eq_some found
    rw [Option.isSome_iff_ne_none, ne_eq, selectPluginStateEntry_eq_none]
    intro none
    have stays : r ∈ (shedNamespaceOverflow t o now key).rows :=
      (shed.rows r).mpr ⟨mem, fun taken =>
        (shed.inside r taken).2.2.1 (Entry.hasKey_iff.mp keyed).2.2⟩
    rw [none r stays keyed] at live
    cases live
  simp only [enforcePostRegisterLimits, if_neg evicts, if_true]
  rw [shedPluginOverflow_isOk kept]
  simp only [pluginCount, namespaceCount]
  omega

theorem pluginStateRegisterIfAbsent_present
    (resolved : resolvePluginStateExpiresAtMs ttlMs now = .ok expiresAt)
    (present : (selectPluginStateEntry t o.pluginId o.ns key now).isSome = true) :
    pluginStateRegisterIfAbsent maxPluginEntries t o key valueJson ttlMs now =
      .ok ⟨deleteExpiredPluginStateEntries t now o.pluginId o.ns, false, []⟩ := by
  rw [← ((SameLive.refl now t).sweep o.pluginId o.ns).select_isSome] at present
  simp only [pluginStateRegisterIfAbsent, resolved]
  exact if_pos present

theorem pluginStateRegisterIfAbsent_absent (maxPluginEntries : Nat) (valueJson : String)
    (resolved : resolvePluginStateExpiresAtMs ttlMs now = .ok expiresAt)
    (absent : selectPluginStateEntry t o.pluginId o.ns key now = none) :
    ∃ s, SameLive now t s ∧
      pluginStateRegisterIfAbsent maxPluginEntries t o key valueJson ttlMs now =
        (assertCanInsertPluginStateEntry maxPluginEntries s o now >>= fun _ =>
          enforcePostRegisterLimits maxPluginEntries
              (upsertPluginStateEntry s (o.entry key valueJson now expiresAt)) o now key true >>=
            fun t' => .ok ⟨t', true, [⟨o, o.entry key valueJson now expiresAt⟩]⟩) := by
  have swept := (SameLive.refl now t).sweep o.pluginId o.ns
  have none : ¬ (selectPluginStateEntry (deleteExpiredPluginStateEntries t now o.pluginId o.ns)
      o.pluginId o.ns key now).isSome = true := by
    rw [swept.select_isSome, absent]
    exact Bool.false_ne_true
  refine ⟨_, swept.delete (Option.not_isSome_iff_eq_none.mp none), ?_⟩
  simp only [pluginStateRegisterIfAbsent, resolved]
  exact if_neg none

theorem pluginStateRegisterIfAbsent_isOk
    (resolved : resolvePluginStateExpiresAtMs ttlMs now = .ok expiresAt)
    (absent : selectPluginStateEntry t o.pluginId o.ns key now = none) :
    (∃ c, pluginStateRegisterIfAbsent maxPluginEntries t o key valueJson ttlMs now = .ok c ∧
      c.answer = true) ↔ hasRoom maxPluginEntries now t o := by
  obtain ⟨s, same, ran⟩ := pluginStateRegisterIfAbsent_absent maxPluginEntries valueJson resolved
    absent
  have live := live_of_resolved o key valueJson now resolved
  have missing : ¬ (selectPluginStateEntry s o.pluginId o.ns key now).isSome = true := by
    rw [same.select_isSome, absent]
    exact Bool.false_ne_true
  have namespaces : namespaceCount now (upsertPluginStateEntry s
      (o.entry key valueJson now expiresAt)) o = namespaceCount now t o + 1 := by
    rw [← same.namespaceCount_eq]
    refine (countP_upsert (liveCount_namespace _ _ now) ?_).trans (congrArg _ (if_neg missing))
    rw [live, Bool.and_true, Entry.inNamespace_iff]
    exact ⟨rfl, rfl⟩
  have plugins : pluginCount now (upsertPluginStateEntry s
      (o.entry key valueJson now expiresAt)) o = pluginCount now t o + 1 := by
    rw [← same.pluginCount_eq]
    refine (countP_upsert (liveCount_plugin _ now) ?_).trans (congrArg _ (if_neg missing))
    rw [live, Bool.and_true, beq_iff_eq]
    rfl
  have answered : (∃ c, pluginStateRegisterIfAbsent maxPluginEntries t o key valueJson ttlMs now =
      .ok c ∧ c.answer = true) ↔
        (∃ u, assertCanInsertPluginStateEntry maxPluginEntries s o now = .ok u) ∧
          ∃ t', enforcePostRegisterLimits maxPluginEntries (upsertPluginStateEntry s
            (o.entry key valueJson now expiresAt)) o now key true = .ok t' := by
    simp only [ran, bind_eq_ok]
    constructor
    · rintro ⟨c, ⟨u, room, t', enforced, -⟩, -⟩
      exact ⟨⟨u, room⟩, t', enforced⟩
    · rintro ⟨⟨u, room⟩, t', enforced⟩
      exact ⟨_, ⟨u, room, t', enforced, rfl⟩, rfl⟩
  rw [answered, assertCanInsert_isOk, same.namespaceCount_eq, same.pluginCount_eq, hasRoom]
  by_cases policy : o.overflowPolicy = .rejectNew
  · rw [if_pos policy, and_iff_left, forall_prop_of_true policy]
    exact ⟨_, if_pos policy⟩
  · have enforced : (∃ t', enforcePostRegisterLimits maxPluginEntries (upsertPluginStateEntry s
        (o.entry key valueJson now expiresAt)) o now key true = .ok t') ↔ _ :=
      enforcePostRegisterLimits_isOk (select_upsert live) policy
    rw [namespaces, plugins] at enforced
    rw [if_neg policy]
    refine (and_congr_right fun _ => enforced).trans ?_
    constructor
    · rintro ⟨-, room⟩
      omega
    · exact fun room => ⟨fun rejects => absurd rejects policy, by omega⟩

/-- `registerIfAbsent` goes by the live rows alone: it answers `false` for a live row of the
key, and inserts when there is room for one more. -/
theorem pluginStateRegisterIfAbsent_answer (maxPluginEntries : Nat) (now : Int) (t : Store)
    (o : OpenKeyedStoreOptions) (key valueJson : String) (ttlMs : Option Int) :
    ((∃ c, pluginStateRegisterIfAbsent maxPluginEntries t o key valueJson ttlMs now = .ok c ∧
        c.answer = false) ↔
      (∃ expiresAt, resolvePluginStateExpiresAtMs ttlMs now = .ok expiresAt) ∧
        (selectPluginStateEntry t o.pluginId o.ns key now).isSome = true) ∧
    ((∃ c, pluginStateRegisterIfAbsent maxPluginEntries t o key valueJson ttlMs now = .ok c ∧
        c.answer = true) ↔
      (∃ expiresAt, resolvePluginStateExpiresAtMs ttlMs now = .ok expiresAt) ∧
        selectPluginStateEntry t o.pluginId o.ns key now = none ∧
          hasRoom maxPluginEntries now t o) := by
  cases resolved : resolvePluginStateExpiresAtMs ttlMs now with
  | error e =>
      have failed : pluginStateRegisterIfAbsent maxPluginEntries t o key valueJson ttlMs now =
          .error e := by
        simp only [pluginStateRegisterIfAbsent, resolved]
        rfl
      simp [failed]
  | ok expiresAt =>
      by_cases absent : selectPluginStateEntry t o.pluginId o.ns key now = none
      · have inserted : (∃ c, pluginStateRegisterIfAbsent maxPluginEntries t o key valueJson ttlMs
            now = .ok c ∧ c.answer = true) ↔ hasRoom maxPluginEntries now t o :=
          pluginStateRegisterIfAbsent_isOk resolved absent
        refine ⟨iff_of_false ?_ ?_, inserted.trans ?_⟩
        · obtain ⟨s, -, ran⟩ := pluginStateRegisterIfAbsent_absent maxPluginEntries valueJson
            resolved absent
          rintro ⟨c, ok, refused⟩
          simp only [ran, bind_eq_ok] at ok
          obtain ⟨-, -, t', -, done⟩ := ok
          cases done
          cases refused
        · rw [absent]
          exact fun both => Bool.false_ne_true both.2
        · simp [absent]
      · have present := Option.isSome_iff_ne_none.mpr absent
        rw [pluginStateRegisterIfAbsent_present resolved present]
        simp [present, absent]

end Refusal

end OpenClaw.PluginState
