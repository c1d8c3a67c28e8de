import OpenClaw.PluginState.Sequenced
import OpenClaw.Lib.Transition

/-!
Runs of a sequenced journal. An operation changes rows of its own namespaces only, so those on
other namespaces leave the journal and its cursor alone; that includes the entries of another
journal that keeps its cursor in the same namespace.
-/

namespace OpenClaw.PluginState

open Sql Fallible

variable {Json : Type} {maxPluginEntries : Nat} {now : Int} {t s t' : Store} {e : Entry}
  {gone : List Entry}

/-- Only rows of the namespace have changed. -/
def Confined (pluginId ns : String) (before after : Store) : Prop :=
  ∀ e : Entry, e.inNamespace pluginId ns = false → (e ∈ after.rows ↔ e ∈ before.rows)

section Confined

variable {p n key valueJson : String} {o : OpenKeyedStoreOptions} {w : Write} {enforced : Bool}
  {ttlMs createdAtMs : Option Int}
  {parseStoredJson : String → Except PluginStateStoreError Json}

theorem Confined.refl (p n : String) (t : Store) : Confined p n t t := fun _ _ => Iff.rfl

theorem Confined.trans (first : Confined p n t s) (second : Confined p n s t') : Confined p n t t' :=
  fun e outside => (second e outside).trans (first e outside)

theorem confined_sweep (t : Store) (now : Int) (p n : String) :
    Confined p n t (deleteExpiredPluginStateEntries t now p n) := by
  intro e outside
  refine ⟨mem_sweep, fun mem => Table.mem_delete.mpr ⟨mem, ?_⟩⟩
  rw [Bool.eq_false_iff, ne_eq, List.contains_iff_mem]
  intro swept
  have filtered := (List.mem_filter.mp (List.mem_of_mem_take swept)).2
  rw [outside, Bool.false_and] at filtered
  cases filtered

theorem confined_delete (t : Store) (p n k : String) :
    Confined p n t (deletePluginStateEntry t p n k).1 := by
  intro e outside
  rw [deletePluginStateEntry, Table.mem_delete, Entry.hasKey, outside, Bool.false_and]
  exact and_iff_left rfl

theorem Wrote.confined (wrote : Wrote maxPluginEntries enforced now s w gone t') :
    Confined w.options.pluginId w.options.ns s t' := fun _ outside => wrote.mem_outside outside

theorem registerPluginStateEntry_confined {c : Committed Unit}
    (ran : registerPluginStateEntry maxPluginEntries t o key valueJson ttlMs createdAtMs now =
      .ok c) : Confined o.pluginId o.ns t c.store := by
  simp only [registerPluginStateEntry, guard_eq_ok, bind_eq_ok, pure_eq_ok] at ran
  obtain ⟨expiresAt, resolved, room, t', enforced, rfl⟩ := ran
  obtain ⟨gone, wrote⟩ := Wrote.of_enforced (live_of_resolved _ _ _ _ resolved)
    (fun _ absent => room (Option.isNone_iff_eq_none.mpr absent)) enforced
  exact (confined_sweep t now o.pluginId o.ns).trans wrote.confined

theorem pluginStateRegisterIfAbsent_confined {c : Committed Bool}
    (ran : pluginStateRegisterIfAbsent maxPluginEntries t o key valueJson ttlMs now = .ok c) :
    Confined o.pluginId o.ns t c.store := by
  simp only [pluginStateRegisterIfAbsent, bind_eq_ok] at ran
  obtain ⟨expiresAt, resolved, ran⟩ := ran
  have swept := confined_sweep t now o.pluginId o.ns
  by_cases present : (selectPluginStateEntry (deleteExpiredPluginStateEntries t now o.pluginId o.ns)
      o.pluginId o.ns key now).isSome = true
  · rw [if_pos present, pure_eq_ok] at ran
    subst ran
    exact swept
  · rw [if_neg present] at ran
    simp only [bind_eq_ok, pure_eq_ok] at ran
    obtain ⟨u, room, t', enforced, rfl⟩ := ran
    obtain ⟨gone, wrote⟩ := Wrote.of_enforced (live_of_resolved _ _ _ _ resolved)
      (fun _ _ => ⟨u, room⟩) enforced
    exact (swept.trans (confined_delete _ _ _ key)).trans wrote.confined

theorem pluginStateUpdate_confined {c : Committed Bool}
    {updateValueJson : Option String → Except PluginStateStoreError (Option (String × Option Int))}
    (ran : pluginStateUpdate maxPluginEntries t o key updateValueJson now = .ok c) :
    Confined o.pluginId o.ns t c.store := by
  simp only [pluginStateUpdate, bind_eq_ok] at ran
  obtain ⟨next, updated, ran⟩ := ran
  have swept := confined_sweep t now o.pluginId o.ns
  cases next with
  | none =>
      simp only [pure_eq_ok] at ran
      subst ran
      exact swept
  | some update =>
      simp only [guard_eq_ok, bind_eq_ok, pure_eq_ok] at ran
      obtain ⟨room, expiresAt, resolved, t', enforced, rfl⟩ := ran
      obtain ⟨gone, wrote⟩ := Wrote.of_enforced (live_of_resolved _ _ _ _ resolved)
        (fun _ absent => room (Option.isNone_iff_eq_none.mpr absent)) enforced
      exact swept.trans wrote.confined

theorem pluginStateConsume_confined {c : Committed (Option Json)}
    (ran : pluginStateConsume parseStoredJson t p n key now = .ok c) : Confined p n t c.store := by
  rw [pluginStateConsume] at ran
  split at ran
  · cases ran
    exact .refl p n t
  · simp only [bind_eq_ok, pure_eq_ok] at ran
    obtain ⟨value, -, rfl⟩ := ran
    exact confined_delete t p n key

end Confined

namespace SequencedJournal

variable {J : SequencedJournal} {run : JournalRun} {p n : String}

theorem Elsewhere.outside (elsewhere : J.Elsewhere p n) (inside : J.isEntry e = true ∨
    J.inCursors e = true) : e.inNamespace p n = false := by
  rw [Bool.eq_false_iff, ne_eq, Entry.inNamespace_iff]
  rintro ⟨rfl, rfl⟩
  rcases inside with inside | inside
  · exact elsewhere.2 (Entry.inNamespace_iff.mp inside)
  · exact elsewhere.1 (Entry.inNamespace_iff.mp inside)

theorem inCursors_of_isCursor (inside : J.isCursor e = true) : J.inCursors e = true := by
  obtain ⟨plugin, ns, -⟩ := Entry.hasKey_iff.mp inside
  exact Entry.inNamespace_iff.mpr ⟨plugin, ns⟩

theorem Sound.of_confined (sound : J.Sound run) (elsewhere : J.Elsewhere p n)
    (confined : Confined p n run.store t) : J.Undisturbed run.store t where
  entry e inside := confined e (elsewhere.outside (.inl inside))
  cursor e inside := confined e (elsewhere.outside (.inr (inCursors_of_isCursor inside)))
  keys e mem inside := sound.keys e ((confined e (elsewhere.outside (.inr inside))).mp mem) inside

theorem mem_sweptFor_outside {o : JournalOptions}
    (cursors : e.inNamespace o.cursor.pluginId o.cursor.ns = false)
    (entries : e.inNamespace o.journal.pluginId o.journal.ns = false) :
    e ∈ (sweptFor t o now).rows ↔ e ∈ t.rows :=
  (confined_sweep _ now _ _ e entries).trans (confined_sweep t now _ _ e cursors)

/-- An entry of another journal, which may keep its cursor beside this one's. -/
theorem Sound.of_journal (sound : J.Sound run) {o : JournalOptions} {key : String}
    {initialSequence : Int} {readCursorSequence : String → Option Int}
    {prepareEntry : Int → Except PluginStateStoreError PreparedJournalEntry} {c : Committed Int}
    (avoids : J.Avoids (.registerSequencedJournalEntry o key initialSequence readCursorSequence
      prepareEntry))
    (ran : pluginStateRegisterSequencedJournalEntry maxPluginEntries run.store o key initialSequence
      readCursorSequence prepareEntry now = .ok c) : J.Undisturbed run.store c.store := by
  obtain ⟨prepared, gone, s', createdAt, gone', -, -, -, -, both⟩ :=
    pluginStateRegisterSequencedJournalEntry_ok ran
  obtain ⟨journal, cursors | ⟨same, inUse, other⟩⟩ := avoids
  · have untouched : ∀ e, J.isEntry e = true ∨ J.inCursors e = true →
        (e ∈ c.store.rows ↔ e ∈ run.store.rows) := fun e inside =>
      (both.mem_elsewhere (cursors.outside inside) (journal.outside inside)).trans
        (mem_sweptFor_outside (cursors.outside inside) (journal.outside inside))
    exact ⟨fun e inside => untouched e (.inl inside),
      fun e inside => untouched e (.inr (inCursors_of_isCursor inside)),
      fun e mem inside => sound.keys e ((untouched e (.inr inside)).mp mem) inside⟩
  · have apart : o.cursor.ns ≠ o.journal.ns := fun together =>
      journal.1 ⟨o.samePlugin.symm.trans (congrArg _ same), together.symm.trans (congrArg _ same)⟩
    have within : ∀ e ∈ run.store.rows,
        e.inNamespace o.cursor.pluginId o.cursor.ns = true → e.key ∈ J.cursorKeys := by
      rw [same]
      exact sound.keys
    have none : gone = [] := by
      refine both.gone_eq_nil ?_ inUse fun e mem => within e (mem_of_mem_sweptFor mem)
      rw [same]
      exact J.room
    have own : ∀ e, J.inCursors e = true → e.inNamespace o.cursor.pluginId o.cursor.ns = true := by
      rw [same]
      exact fun e inside => inside
    refine ⟨fun e inside => ?_, fun e inside => ?_, fun e mem inside => ?_⟩
    · have cursors : e.inNamespace o.cursor.pluginId o.cursor.ns = false := by
        rw [same, Bool.eq_false_iff, ne_eq, Entry.inNamespace_iff]
        exact fun here => J.apart (here.2.symm.trans (Entry.inNamespace_iff.mp inside).2)
      have outside := journal.outside (.inl inside)
      exact (both.mem_elsewhere cursors outside).trans (mem_sweptFor_outside cursors outside)
    · rw [both.mem_cursors apart none (own e (inCursors_of_isCursor inside))]
      have keyed : e.key = J.cursorKey := (Entry.hasKey_iff.mp inside).2.2
      constructor
      · rintro (rfl | ⟨old, -⟩)
        · exact absurd keyed other
        · exact mem_of_mem_sweptFor old
      · intro mem
        refine .inr ⟨(mem_sweptFor (sound.never e mem inside)).mpr mem, fun taken => ?_⟩
        exact other (taken.symm.trans keyed)
    · rcases (both.mem_cursors apart none (own e inside)).mp mem with rfl | ⟨old, -⟩
      · exact inUse
      · exact within e (mem_of_mem_sweptFor old) (own e inside)

theorem Sound.operation (sound : J.Sound run) {operation : Operation} (avoids : J.Avoids operation)
    (parseStoredJson : String → Except PluginStateStoreError Json) :
    J.Undisturbed run.store
      (perform maxPluginEntries parseStoredJson run.store operation now).after := by
  have unchanged : J.Undisturbed run.store run.store :=
    ⟨fun _ _ => Iff.rfl, fun _ _ => Iff.rfl, sound.keys⟩
  rw [perform]
  cases ran : operation.run maxPluginEntries parseStoredJson run.store now with
  | error thrown => exact unchanged
  | ok c =>
      cases operation with
      | register o key valueJson ttlMs createdAtMs =>
          obtain ⟨d, done, rfl⟩ := map_eq_ok.mp ran
          exact sound.of_confined avoids (registerPluginStateEntry_confined done)
      | registerIfAbsent o key valueJson ttlMs =>
          obtain ⟨d, done, rfl⟩ := map_eq_ok.mp ran
          exact sound.of_confined avoids (pluginStateRegisterIfAbsent_confined done)
      | update o key updateValueJson =>
          obtain ⟨d, done, rfl⟩ := map_eq_ok.mp ran
          exact sound.of_confined avoids (pluginStateUpdate_confined done)
      | registerSequencedJournalEntry o key initialSequence readCursorSequence prepareEntry =>
          obtain ⟨d, done, rfl⟩ := map_eq_ok.mp ran
          exact sound.of_journal avoids done
      | consume p n key =>
          obtain ⟨d, done, rfl⟩ := map_eq_ok.mp ran
          exact sound.of_confined avoids (pluginStateConsume_confined done)
      | delete p n key =>
          cases ran
          exact sound.of_confined avoids (confined_delete run.store p n key)

/-- One step of a run. -/
theorem Sound.step {after : JournalRun} {label : JournalStep} (sound : J.Sound run)
    {parseStoredJson : String → Except PluginStateStoreError Json}
    (permitted : J.Permits run label)
    (taken : J.step maxPluginEntries parseStoredJson run label = some after) : J.Sound after := by
  cases label with
  | entry initialSequence prepareEntry now =>
      rw [SequencedJournal.step] at taken
      cases ran : pluginStateRegisterSequencedJournalEntry maxPluginEntries run.store J.options
          J.cursorKey initialSequence J.readCursorSequence prepareEntry now with
      | error thrown =>
          rw [ran] at taken
          cases taken
          exact sound
      | ok c =>
          rw [ran] at taken
          cases taken
          exact sound.entry permitted ran
  | operation operation now =>
      cases taken
      exact sound.undisturbed (sound.operation permitted parseStoredJson)
  | other after =>
      cases taken
      exact sound.undisturbed permitted

end SequencedJournal

/-- In every run a sequenced journal never reuses a sequence and keeps its newest entries; an
entry that throws changes nothing. -/
theorem journal_sequenced (J : SequencedJournal) (maxPluginEntries : Nat)
    (parseStoredJson : String → Except PluginStateStoreError Json) {t : Store} {run : JournalRun}
    (starts : J.Starts t)
    (reached : Transition.Reaches (J.step maxPluginEntries parseStoredJson) J.Permits ⟨t, []⟩ run) :
    J.Sequenced run ∧
      ∀ initialSequence prepareEntry now error,
        pluginStateRegisterSequencedJournalEntry maxPluginEntries run.store J.options J.cursorKey
            initialSequence J.readCursorSequence prepareEntry now = .error error →
          J.step maxPluginEntries parseStoredJson run (.entry initialSequence prepareEntry now) =
            some run := by
  have sound := reached.invariant (P := J.Sound) (SequencedJournal.sound_start starts)
    fun _ _ _ sound permitted taken => sound.step permitted taken
  refine ⟨sound.sequenced, fun initialSequence prepareEntry now error thrown => ?_⟩
  rw [SequencedJournal.step, thrown]

/-- A number as so many marks. -/
def marks (n : Int) : String :=
  String.ofList (List.replicate n.toNat 'a' ++ List.replicate (-n).toNat 'b')

def readMarks (text : String) : Option Int :=
  some (text.toList.count 'a' - text.toList.count 'b')

theorem readMarks_marks (n : Int) : readMarks (marks n) = some n := by
  simp only [readMarks, marks, String.toList_ofList, List.count_append, List.count_replicate]
  simp

theorem marks_injective : Function.Injective marks := by
  intro a b same
  have read := congrArg readMarks same
  rwa [readMarks_marks, readMarks_marks, Option.some.injEq] at read

theorem counting_cursors : 1 ≤ 1 := le_rfl

theorem counting_log : 1 ≤ 3 := by decide

theorem counting_apart : "cursors" ≠ "log" := by decide

theorem counting_sameLimit : "cursors" = "log" → 1 = 3 := fun same => absurd same counting_apart

/-- A journal whose cursor and keys spell the sequence in marks. -/
def counting : SequencedJournal where
  options := ⟨⟨"memory", "cursors", 1, .evictOldest, counting_cursors⟩,
    ⟨"memory", "log", 3, .evictOldest, counting_log⟩, rfl, counting_sameLimit, rfl, rfl⟩
  apart := counting_apart
  cursorKey := "cursor"
  cursorKeys := ["cursor"]
  inUse := List.mem_singleton_self _
  room := counting_cursors
  readCursorSequence := readMarks
  journalKey := marks
  injective := marks_injective

def countingEntry (now : Int) : JournalStep :=
  .entry 0 (fun sequence => .ok ⟨marks sequence, marks sequence, "entry"⟩) now

/-- The second entry is made at an earlier clock reading. -/
theorem journal_sequenced_backward : ∃ run : JournalRun, counting.Sequenced run ∧
    run.returned = [(0, 1), (0, 2)] := by
  have permitted : ∀ run now, counting.Permits run (countingEntry now) := by
    rintro run now sequence prepared ⟨⟩
    exact ⟨readMarks_marks sequence, rfl⟩
  obtain ⟨run, reached, returned⟩ := Transition.Reaches.exists_of_exec
    (counting.step 10 fun _ => .ok ()) counting.Permits ⟨Table.empty, []⟩
    (P := fun run => run.returned = [(0, 1), (0, 2)]) [countingEntry 9, countingEntry 5]
    (by decide +kernel) ⟨permitted _ _, fun _ _ => ⟨permitted _ _, fun _ _ => trivial⟩⟩
  have starts : counting.Starts Table.empty :=
    ⟨fun _ mem => absurd mem List.not_mem_nil, fun _ mem => absurd mem List.not_mem_nil,
      fun _ mem => absurd mem List.not_mem_nil⟩
  exact ⟨run, (journal_sequenced counting 10 _ starts reached).1, returned⟩

end OpenClaw.PluginState
