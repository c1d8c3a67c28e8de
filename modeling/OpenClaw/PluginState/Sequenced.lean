import OpenClaw.PluginState.Runs

/-!
A sequenced journal over its runs: entries with one cursor and one journal namespace, between
any other operations on other namespaces and at any clock readings. The order in which rows
are shed is that of the sequences, because a row is given an age above that of every row there
is, whatever the clock reads.
-/

namespace OpenClaw.PluginState

open Sql

variable {Json : Type} {maxPluginEntries : Nat} {now createdAt : Int} {t s s' t' : Store} {e : Entry}
  {cursor journal : Write} {gone gone' : List Entry}

/-- What the entries of one journal share, and the cursor keys in use beside its own. -/
structure SequencedJournal where
  options : JournalOptions
  apart : options.cursor.ns ≠ options.journal.ns
  cursorKey : String
  cursorKeys : List String
  inUse : cursorKey ∈ cursorKeys
  room : cursorKeys.length ≤ options.cursor.maxEntries
  readCursorSequence : String → Option Int
  journalKey : Int → String
  injective : Function.Injective journalKey

/-- A store, and for every entry that was returned what it started from and its sequence. -/
structure JournalRun where
  store : Store
  returned : List (Int × Int)

inductive JournalStep
  | entry (initialSequence : Int)
      (prepareEntry : Int → Except PluginStateStoreError PreparedJournalEntry) (now : Int)
  | operation (operation : Operation) (now : Int)
  /-- Any other change to the table. -/
  | other (after : Store)

namespace SequencedJournal

variable (J : SequencedJournal)

def isEntry (e : Entry) : Bool := e.inNamespace J.options.journal.pluginId J.options.journal.ns

def isCursor (e : Entry) : Bool :=
  e.hasKey J.options.cursor.pluginId J.options.cursor.ns J.cursorKey

def inCursors (e : Entry) : Bool := e.inNamespace J.options.cursor.pluginId J.options.cursor.ns

/-- A transaction that throws is rolled back. -/
def step (maxPluginEntries : Nat) (parseStoredJson : String → Except PluginStateStoreError Json)
    (run : JournalRun) : JournalStep → Option JournalRun
  | .entry initialSequence prepareEntry now =>
      match pluginStateRegisterSequencedJournalEntry maxPluginEntries run.store J.options J.cursorKey
        initialSequence J.readCursorSequence prepareEntry now with
      | .ok c => some ⟨c.store, run.returned ++ [(initialSequence, c.answer)]⟩
      | .error _ => some run
  | .operation operation now =>
      some { run with
        store := (perform maxPluginEntries parseStoredJson run.store operation now).after }
  | .other after => some { run with store := after }

/-- A namespace that is neither the cursor's nor the journal's. -/
def Elsewhere (pluginId ns : String) : Prop :=
  ¬(pluginId = J.options.cursor.pluginId ∧ ns = J.options.cursor.ns) ∧
    ¬(pluginId = J.options.journal.pluginId ∧ ns = J.options.journal.ns)

/-- An operation on other namespaces. Another journal may share the cursor namespace. -/
def Avoids : Operation → Prop
  | .register o .. | .registerIfAbsent o .. | .update o .. => J.Elsewhere o.pluginId o.ns
  | .registerSequencedJournalEntry o cursorKey .. =>
      J.Elsewhere o.journal.pluginId o.journal.ns ∧
        (J.Elsewhere o.cursor.pluginId o.cursor.ns ∨
          o.cursor = J.options.cursor ∧ cursorKey ∈ J.cursorKeys ∧ cursorKey ≠ J.cursorKey)
  | .consume pluginId ns _ | .delete pluginId ns _ => J.Elsewhere pluginId ns

/-- A change that leaves the journal and its cursor alone and takes no further cursor key. -/
structure Undisturbed (before after : Store) : Prop where
  entry : ∀ e, J.isEntry e = true → (e ∈ after.rows ↔ e ∈ before.rows)
  cursor : ∀ e, J.isCursor e = true → (e ∈ after.rows ↔ e ∈ before.rows)
  keys : ∀ e ∈ after.rows, J.inCursors e = true → e.key ∈ J.cursorKeys

def Permits (run : JournalRun) : JournalStep → Prop
  | .entry _ prepareEntry _ => ∀ sequence prepared, prepareEntry sequence = .ok prepared →
      J.readCursorSequence prepared.cursorValueJson = some sequence ∧
        prepared.journalKey = J.journalKey sequence
  | .operation operation _ => J.Avoids operation
  | .other after => J.Undisturbed run.store after

/-- A store in which the journal has no entry yet. -/
structure Starts (t : Store) : Prop where
  entry : ∀ e ∈ t.rows, J.isEntry e = false
  cursor : ∀ e ∈ t.rows, J.isCursor e = true → e.expiresAt = none
  keys : ∀ e ∈ t.rows, J.inCursors e = true → e.key ∈ J.cursorKeys

/-- What is expected of a sequenced journal. -/
structure Sequenced (run : JournalRun) : Prop where
  increasing : (run.returned.map Prod.snd).Pairwise (· < ·)
  above : ∀ entry ∈ run.returned, entry.1 < entry.2
  cursor : ∀ entry ∈ run.returned, ∃ row ∈ run.store.rows, J.isCursor row = true ∧
    ∃ stored ∈ J.readCursorSequence row.valueJson, entry.2 ≤ stored
  newest : ∃ kept, kept <:+ run.returned.map Prod.snd ∧
    kept.length ≤ J.options.journal.maxEntries ∧ (run.returned ≠ [] → kept ≠ []) ∧
      ∀ key, (∃ e ∈ run.store.rows, J.isEntry e = true ∧ e.key = key) ↔
        ∃ sequence ∈ kept, key = J.journalKey sequence

end SequencedJournal

section Writes

theorem mem_of_mem_sweptFor {o : JournalOptions} (mem : e ∈ (sweptFor t o now).rows) : e ∈ t.rows :=
  mem_sweep (mem_sweep mem)

theorem mem_sweptFor {o : JournalOptions} (never : e.expiresAt = none) :
    e ∈ (sweptFor t o now).rows ↔ e ∈ t.rows := by
  have live : e.live now = true := by rw [Entry.live, never]
  rw [live_mem_sweep live, live_mem_sweep live]

/-- A namespace has at most as many live rows as keys in use. -/
theorem countLive_le_keys {p n : String} {keys : List String}
    (within : ∀ e ∈ t.rows, e.inNamespace p n = true → e.key ∈ keys) :
    countLivePluginStateNamespaceEntries t p n now ≤ keys.length := by
  have nodup : ((t.rows.filter fun e => e.inNamespace p n && e.live now).map Entry.key).Nodup := by
    refine List.Nodup.map_on ?_ ((t.nodup entries_irrefl).filter _)
    intro e mem r other same
    obtain ⟨mem, counted⟩ := List.mem_filter.mp mem
    obtain ⟨other, counted'⟩ := List.mem_filter.mp other
    have inside := Entry.inNamespace_iff.mp (Bool.and_eq_true_iff.mp counted).1
    have inside' := Entry.inNamespace_iff.mp (Bool.and_eq_true_iff.mp counted').1
    exact eq_of_hasKey mem other (Entry.hasKey_iff.mpr ⟨inside.1, inside.2, same⟩)
      (Entry.hasKey_iff.mpr ⟨inside'.1, inside'.2, rfl⟩)
  have bounded := nodup.length_le_of_subset fun key listed => by
    obtain ⟨e, row, rfl⟩ := List.mem_map.mp listed
    obtain ⟨mem, counted⟩ := List.mem_filter.mp row
    exact within e mem (Bool.and_eq_true_iff.mp counted).1
  rwa [List.length_map, ← List.countP_eq_length_filter] at bounded

/-- An allocated age is above that of every row of the namespace. -/
theorem lt_of_allocated {p n : String}
    (allocated : allocatePluginStateNamespaceCreatedAt t p n now = .ok createdAt)
    (mem : e ∈ t.rows) (inside : e.inNamespace p n = true) : e.createdAt < createdAt := by
  have listed : e.createdAt ∈ (t.rows.filter (Entry.inNamespace p n)).map Entry.createdAt :=
    List.mem_map_of_mem (List.mem_filter.mpr ⟨mem, inside⟩)
  cases greatest : maxCreatedAt t p n with
  | none =>
      rw [maxCreatedAt, List.max?_eq_none_iff] at greatest
      rw [greatest] at listed
      nomatch listed
  | some previous =>
      have atMost : e.createdAt ≤ previous := (List.max?_eq_some_iff.mp greatest).2 _ listed
      simp only [allocatePluginStateNamespaceCreatedAt, greatest] at allocated
      by_cases safe : isSafeInteger (max now (previous + 1)) = true
      · rw [if_pos safe] at allocated
        cases allocated
        exact (Int.lt_add_one_of_le atMost).trans_le (le_max_right _ _)
      · rw [if_neg safe] at allocated
        cases allocated

/-- A write changes no row outside its namespace. -/
theorem Wrote.mem_outside {enforced : Bool} {w : Write}
    (wrote : Wrote maxPluginEntries enforced now s w gone t')
    (outside : e.inNamespace w.options.pluginId w.options.ns = false) :
    e ∈ t'.rows ↔ e ∈ s.rows := by
  have other : e ≠ w.row := by
    rintro rfl
    rw [wrote.inNamespace] at outside
    cases outside
  have unkeyed : e.hasKey w.row.pluginId w.row.ns w.row.key = false := by
    rw [Bool.eq_false_iff, ne_eq, Entry.inNamespace_iff] at outside
    rw [Bool.eq_false_iff, ne_eq, Entry.hasKey_iff]
    exact fun same => outside ⟨same.1.trans wrote.plugin, same.2.1.trans wrote.ns⟩
  have kept : e ∉ gone := fun taken => by
    rw [wrote.gone_inNamespace taken] at outside
    cases outside
  rw [wrote.mem]
  exact ⟨fun mem => (mem.1.resolve_left other).1, fun mem => ⟨.inr ⟨mem, unkeyed⟩, kept⟩⟩

namespace Journaled

variable (both : Journaled maxPluginEntries now s cursor gone s' journal gone' t')

include both

/-- The cursor's write sheds nothing as long as there is room for its keys. -/
theorem gone_eq_nil {keys : List String} (room : keys.length ≤ cursor.options.maxEntries)
    (key : cursor.row.key ∈ keys)
    (within : ∀ e ∈ s.rows, e.inNamespace cursor.options.pluginId cursor.options.ns = true →
      e.key ∈ keys) : gone = [] := by
  have count : countLivePluginStateNamespaceEntries (upsertPluginStateEntry s cursor.row)
      cursor.options.pluginId cursor.options.ns now ≤ keys.length := by
    refine countLive_le_keys fun e mem inside => ?_
    rcases mem_upsert.mp mem with rfl | ⟨old, -⟩
    · exact key
    · exact within e old inside
  have bounded := both.cursorWrote.limits.bounded
  rw [overflow, if_neg Bool.false_ne_true] at bounded
  exact List.length_eq_zero_iff.mp (by omega)

theorem mem_first (none : gone = []) :
    e ∈ s'.rows ↔ e = cursor.row ∨
      e ∈ s.rows ∧ e.hasKey cursor.row.pluginId cursor.row.ns cursor.row.key = false := by
  rw [both.cursorWrote.mem, none]
  exact and_iff_left List.not_mem_nil

theorem mem_cursors (apart : cursor.options.ns ≠ journal.options.ns) (none : gone = [])
    (inside : e.inNamespace cursor.options.pluginId cursor.options.ns = true) :
    e ∈ t'.rows ↔ e = cursor.row ∨ e ∈ s.rows ∧ e.key ≠ cursor.row.key := by
  obtain ⟨plugin, ns⟩ := Entry.inNamespace_iff.mp inside
  have keyed : e.hasKey cursor.row.pluginId cursor.row.ns cursor.row.key = false ↔
      e.key ≠ cursor.row.key := by
    rw [Bool.eq_false_iff, ne_eq, Entry.hasKey_iff, both.cursorWrote.plugin, both.cursorWrote.ns]
    simp [plugin, ns]
  have other : e ≠ journal.row := by
    rintro rfl
    exact apart (ns.symm.trans both.journalWrote.ns)
  have unkeyed : e.hasKey journal.row.pluginId journal.row.ns journal.row.key = false := by
    rw [Bool.eq_false_iff, ne_eq, Entry.hasKey_iff]
    exact fun same => apart (ns.symm.trans (same.2.1.trans both.journalWrote.ns))
  have kept : e ∉ gone' := fun taken =>
    apart (ns.symm.trans (Entry.inNamespace_iff.mp (both.journalWrote.gone_inNamespace taken)).2)
  rw [both.journalWrote.mem, both.mem_first none, keyed]
  exact ⟨fun mem => (mem.1.resolve_left other).1, fun mem => ⟨.inr ⟨mem, unkeyed⟩, kept⟩⟩

theorem mem_entries (apart : cursor.options.ns ≠ journal.options.ns) (none : gone = [])
    (inside : e.inNamespace journal.options.pluginId journal.options.ns = true) :
    e ∈ t'.rows ↔ (e = journal.row ∨ e ∈ s.rows ∧ e.key ≠ journal.row.key) ∧ e ∉ gone' := by
  obtain ⟨plugin, ns⟩ := Entry.inNamespace_iff.mp inside
  have keyed : e.hasKey journal.row.pluginId journal.row.ns journal.row.key = false ↔
      e.key ≠ journal.row.key := by
    rw [Bool.eq_false_iff, ne_eq, Entry.hasKey_iff, both.journalWrote.plugin, both.journalWrote.ns]
    simp [plugin, ns]
  have other : e ≠ cursor.row := by
    rintro rfl
    exact apart (both.cursorWrote.ns.symm.trans ns)
  have unkeyed : e.hasKey cursor.row.pluginId cursor.row.ns cursor.row.key = false := by
    rw [Bool.eq_false_iff, ne_eq, Entry.hasKey_iff]
    exact fun same => apart (both.cursorWrote.ns.symm.trans (same.2.1.symm.trans ns))
  have first : e ∈ s'.rows ↔ e ∈ s.rows := by
    rw [both.mem_first none]
    exact ⟨fun mem => (mem.resolve_left other).1, fun mem => .inr ⟨mem, unkeyed⟩⟩
  rw [both.journalWrote.mem, first, keyed]

theorem mem_elsewhere
    (cursors : e.inNamespace cursor.options.pluginId cursor.options.ns = false)
    (entries : e.inNamespace journal.options.pluginId journal.options.ns = false) :
    e ∈ t'.rows ↔ e ∈ s.rows := by
  rw [both.journalWrote.mem_outside entries, both.cursorWrote.mem_outside cursors]

end Journaled
end Writes

/-- Of an increasing list, the elements from one on. -/
theorem filter_suffix {p : Int → Bool} {sequences : List Int} (increasing : sequences.Pairwise (· < ·))
    (upward : ∀ a ∈ sequences, ∀ b ∈ sequences, a < b → p a = true → p b = true) :
    sequences.filter p <:+ sequences := by
  induction sequences with
  | nil => exact List.suffix_rfl
  | cons a rest ih =>
      obtain ⟨first, increasing⟩ := List.pairwise_cons.mp increasing
      cases kept : p a with
      | true =>
          have all : (a :: rest).filter p = a :: rest := by
            refine List.filter_eq_self.mpr fun b mem => ?_
            rcases List.mem_cons.mp mem with rfl | later
            · exact kept
            · exact upward a List.mem_cons_self b mem (first b later) kept
          rw [all]
      | false =>
          rw [List.filter_cons_of_neg (by rw [kept]; exact Bool.false_ne_true)]
          exact (ih increasing fun a left b right =>
            upward a (List.mem_cons_of_mem _ left) b (List.mem_cons_of_mem _ right)).trans
              (List.suffix_cons a rest)

namespace SequencedJournal

variable {J : SequencedJournal} {kept : List Int} {run : JournalRun}

/-- The journal's rows are those of the sequences kept, and their ages are in that order. -/
structure Holds (J : SequencedJournal) (t : Store) (kept : List Int) : Prop where
  row : ∀ e ∈ t.rows, J.isEntry e = true →
    e.expiresAt = none ∧ ∃ sequence ∈ kept, e.key = J.journalKey sequence
  present : ∀ sequence ∈ kept, ∃ e ∈ t.rows, J.isEntry e = true ∧ e.key = J.journalKey sequence
  ordered : ∀ e ∈ t.rows, ∀ r ∈ t.rows, J.isEntry e = true → J.isEntry r = true →
    ∀ a b, e.key = J.journalKey a → r.key = J.journalKey b → a < b → e.createdAt < r.createdAt

structure Sound (J : SequencedJournal) (run : JournalRun) : Prop where
  keys : ∀ e ∈ run.store.rows, J.inCursors e = true → e.key ∈ J.cursorKeys
  never : ∀ e ∈ run.store.rows, J.isCursor e = true → e.expiresAt = none
  increasing : (run.returned.map Prod.snd).Pairwise (· < ·)
  above : ∀ entry ∈ run.returned, entry.1 < entry.2
  cursor : ∀ entry ∈ run.returned, ∃ row ∈ run.store.rows, J.isCursor row = true ∧
    ∃ stored ∈ J.readCursorSequence row.valueJson, entry.2 ≤ stored
  newest : ∃ kept, J.Holds run.store kept ∧ kept <:+ run.returned.map Prod.snd ∧
    kept.length ≤ J.options.journal.maxEntries ∧ (run.returned ≠ [] → kept ≠ [])

theorem Sound.sequenced (sound : J.Sound run) : J.Sequenced run := by
  obtain ⟨kept, holds, suffix, length, nonempty⟩ := sound.newest
  refine ⟨sound.increasing, sound.above, sound.cursor, kept, suffix, length, nonempty, fun key => ?_⟩
  constructor
  · rintro ⟨e, mem, inside, rfl⟩
    exact (holds.row e mem inside).2
  · rintro ⟨sequence, mem, rfl⟩
    exact holds.present sequence mem

theorem sound_start (starts : J.Starts t) : J.Sound ⟨t, []⟩ where
  keys := starts.keys
  never := starts.cursor
  increasing := .nil
  above _ mem := nomatch mem
  cursor _ mem := nomatch mem
  newest := by
    refine ⟨[], ⟨fun e mem inside => ?_, fun _ mem => absurd mem List.not_mem_nil,
        fun e mem r _ inside => ?_⟩,
      List.suffix_rfl, Nat.zero_le _, fun some => absurd rfl some⟩
    · rw [starts.entry e mem] at inside
      cases inside
    · rw [starts.entry e mem] at inside
      cases inside

/-- What leaves the journal alone keeps what is known of it. -/
theorem Sound.undisturbed (sound : J.Sound run) {after : Store}
    (undisturbed : J.Undisturbed run.store after) : J.Sound { run with store := after } where
  keys := undisturbed.keys
  never e mem inside := sound.never e ((undisturbed.cursor e inside).mp mem) inside
  increasing := sound.increasing
  above := sound.above
  cursor entry mem := by
    obtain ⟨row, old, inside, stored⟩ := sound.cursor entry mem
    exact ⟨row, (undisturbed.cursor row inside).mpr old, inside, stored⟩
  newest := by
    obtain ⟨kept, holds, rest⟩ := sound.newest
    refine ⟨kept, ⟨fun e mem inside => ?_, fun sequence mem => ?_, ?_⟩, rest⟩
    · exact holds.row e ((undisturbed.entry e inside).mp mem) inside
    · obtain ⟨e, old, inside, key⟩ := holds.present sequence mem
      exact ⟨e, (undisturbed.entry e inside).mpr old, inside, key⟩
    · intro e mem r other inside inside'
      exact holds.ordered e ((undisturbed.entry e inside).mp mem) r
        ((undisturbed.entry r inside').mp other) inside inside'

/-- A committed entry: the row written and the rows shed, over the rows there were. -/
structure Committing (J : SequencedJournal) (before after : Store) (row : Entry) (gone : List Entry) :
    Prop where
  mem : ∀ e, J.isEntry e = true →
    (e ∈ after.rows ↔ (e = row ∨ e ∈ before.rows ∧ e.key ≠ row.key) ∧ e ∉ gone)
  inside : J.isEntry row = true
  never : row.expiresAt = none
  kept : row ∉ gone
  later : ∀ e ∈ before.rows, J.isEntry e = true → e.createdAt < row.createdAt
  oldest : ∀ e ∈ gone, ∀ r ∈ after.rows, J.isEntry r = true → r.key ≠ row.key →
    r.expiresAt = none → e.createdAt ≤ r.createdAt
  limit : ∀ keys : List String, keys.Nodup → (∀ key ∈ keys, ∃ e ∈ after.rows, J.isEntry e = true ∧
    e.key = key ∧ e.expiresAt = none) → keys.length ≤ J.options.journal.maxEntries

namespace Committing

variable {before after : Store} {row : Entry} {sequences : List Int} {sequence : Int}

theorem row_mem (committing : J.Committing before after row gone) : row ∈ after.rows :=
  (committing.mem row committing.inside).mpr ⟨.inl rfl, committing.kept⟩

/-- The new row is the last in the order of the sequences and in that of the ages. -/
theorem ordered (committing : J.Committing before after row gone) (holds : J.Holds before kept)
    (last : ∀ a ∈ kept, a < sequence) (key : row.key = J.journalKey sequence) :
    ∀ e r, J.isEntry e = true → J.isEntry r = true → (e = row ∨ e ∈ before.rows) →
      (r = row ∨ r ∈ before.rows) → ∀ a b, e.key = J.journalKey a → r.key = J.journalKey b → a < b →
        e.createdAt < r.createdAt := by
  intro e r inside inside' either either' a b keyA keyB less
  rcases either' with rfl | old'
  · rcases either with rfl | old
    · exact absurd (J.injective (keyA.symm.trans keyB)) less.ne
    · exact committing.later e old inside
  · rcases either with rfl | old
    · obtain ⟨-, b', mem, keyB'⟩ := holds.row r old' inside'
      have := last b' mem
      have := J.injective (keyA.symm.trans key)
      have := J.injective (keyB.symm.trans keyB')
      omega
    · exact holds.ordered e old r old' inside inside' a b keyA keyB less

theorem holds (committing : J.Committing before after row gone) (holds : J.Holds before kept)
    (suffix : kept <:+ sequences) (increasing : (sequences ++ [sequence]).Pairwise (· < ·))
    (key : row.key = J.journalKey sequence) :
    ∃ kept', J.Holds after kept' ∧ kept' <:+ sequences ++ [sequence] ∧
      kept'.length ≤ J.options.journal.maxEntries ∧ kept' ≠ [] := by
  have extended : kept ++ [sequence] <:+ sequences ++ [sequence] := by
    obtain ⟨front, rfl⟩ := suffix
    exact ⟨front, (List.append_assoc ..).symm⟩
  have sorted := increasing.sublist extended.sublist
  have last : ∀ a ∈ kept, a < sequence := fun a mem =>
    (List.pairwise_append.mp sorted).2.2 a mem sequence (List.mem_singleton_self _)
  have ordered := committing.ordered holds last key
  have of_mem : ∀ e ∈ after.rows, J.isEntry e = true → e = row ∨ e ∈ before.rows :=
    fun e mem inside => ((committing.mem e inside).mp mem).1.imp_right And.left
  have row_of : ∀ e ∈ after.rows, J.isEntry e = true →
      e.expiresAt = none ∧ ∃ a ∈ kept ++ [sequence], e.key = J.journalKey a := by
    intro e mem inside
    rcases of_mem e mem inside with rfl | old
    · exact ⟨committing.never, sequence, by simp, key⟩
    · obtain ⟨never, a, left, keyA⟩ := holds.row e old inside
      exact ⟨never, a, List.mem_append_left _ left, keyA⟩
  -- the sequences whose rows are still there
  let present (a : Int) : Bool := after.rows.any fun e => J.isEntry e && e.key == J.journalKey a
  have present_iff : ∀ a, present a = true ↔
      ∃ e ∈ after.rows, J.isEntry e = true ∧ e.key = J.journalKey a := by
    intro a
    simp only [present, List.any_eq_true, Bool.and_eq_true, beq_iff_eq]
  have upward : ∀ a ∈ kept ++ [sequence], ∀ b ∈ kept ++ [sequence], a < b → present a = true →
      present b = true := by
    intro a _ b memB less there
    rw [present_iff] at there ⊢
    obtain ⟨e, left, inside, keyA⟩ := there
    rcases List.mem_append.mp memB with old | new
    · obtain ⟨r, there, inside', keyB⟩ := holds.present b old
      refine ⟨r, ?_, inside', keyB⟩
      have differs : ∀ {x : Entry} {c : Int}, x.key = J.journalKey c → c < sequence →
          x.key ≠ row.key := fun keyX below same =>
        absurd (J.injective (keyX.symm.trans (same.trans key))) below.ne
      by_contra shed
      have taken : r ∈ gone := by
        by_contra untouched
        exact shed ((committing.mem r inside').mpr
          ⟨.inr ⟨there, differs keyB (last b old)⟩, untouched⟩)
      have older := committing.oldest r taken e left inside
        (differs keyA (less.trans (last b old))) (row_of e left inside).1
      have := ordered e r inside inside' (of_mem e left inside) (.inr there) a b keyA keyB less
      omega
    · rw [List.mem_singleton.mp new]
      exact ⟨row, committing.row_mem, committing.inside, key⟩
  refine ⟨(kept ++ [sequence]).filter present, ⟨?_, ?_, ?_⟩,
    (filter_suffix sorted upward).trans extended, ?_, ?_⟩
  · intro e mem inside
    obtain ⟨never, a, left, keyA⟩ := row_of e mem inside
    exact ⟨never, a, List.mem_filter.mpr ⟨left, (present_iff a).mpr ⟨e, mem, inside, keyA⟩⟩, keyA⟩
  · exact fun a mem => (present_iff a).mp (List.mem_filter.mp mem).2
  · intro e mem r mem' inside inside'
    exact ordered e r inside inside' (of_mem e mem inside) (of_mem r mem' inside')
  · have nodup : (((kept ++ [sequence]).filter present).map J.journalKey).Nodup :=
      List.Nodup.map J.injective (List.Nodup.filter _ (sorted.imp ne_of_lt))
    have bounded := committing.limit _ nodup fun key listed => by
      obtain ⟨a, left, rfl⟩ := List.mem_map.mp listed
      obtain ⟨e, mem, inside, keyA⟩ := (present_iff a).mp (List.mem_filter.mp left).2
      exact ⟨e, mem, inside, keyA, (row_of e mem inside).1⟩
    rwa [List.length_map] at bounded
  · refine List.ne_nil_of_mem (a := sequence) (List.mem_filter.mpr ⟨by simp, ?_⟩)
    exact (present_iff sequence).mpr ⟨row, committing.row_mem, committing.inside, key⟩

end Committing

section Entries

variable {cursorKey : String} {initialSequence : Int} {readCursorSequence : String → Option Int}
  {prepareEntry : Int → Except PluginStateStoreError PreparedJournalEntry} {c : Committed Int}

theorem Sound.live (sound : J.Sound run) (mem : e ∈ run.store.rows) (inside : J.isEntry e = true) :
    e.expiresAt = none := by
  obtain ⟨kept, holds, -⟩ := sound.newest
  exact (holds.row e mem inside).1

/-- The cursor's own row is read whenever it is there. -/
theorem select_of_cursor {row : Entry} (mem : row ∈ (sweptFor t J.options now).rows)
    (inside : J.isCursor row = true) (never : row.expiresAt = none) :
    selectPluginStateEntry (sweptFor t J.options now) J.options.cursor.pluginId J.options.cursor.ns
      J.cursorKey now = some row := by
  have live : row.live now = true := by rw [Entry.live, never]
  cases found : selectPluginStateEntry (sweptFor t J.options now) J.options.cursor.pluginId
      J.options.cursor.ns J.cursorKey now with
  | none =>
      rw [selectPluginStateEntry_eq_none.mp found row mem inside] at live
      cases live
  | some other =>
      obtain ⟨mem', keyed, -⟩ := selectPluginStateEntry_eq_some found
      rw [eq_of_hasKey mem' mem keyed inside]

theorem Sound.committing (sound : J.Sound run) {cursorRow row : Entry} {after : Store}
    (none : gone = [])
    (allocated : allocatePluginStateNamespaceCreatedAt s' J.options.journal.pluginId
      J.options.journal.ns now = .ok row.createdAt)
    (both : Journaled maxPluginEntries now (sweptFor run.store J.options now)
      ⟨J.options.cursor, cursorRow⟩ gone s' ⟨J.options.journal, row⟩ gone' after)
    (never : row.expiresAt = .none) : J.Committing run.store after row gone' where
  mem e inside := by
    rw [both.mem_entries J.apart none inside]
    have swept : e ∈ (sweptFor run.store J.options now).rows ↔ e ∈ run.store.rows :=
      ⟨mem_of_mem_sweptFor, fun mem => (mem_sweptFor (sound.live mem inside)).mpr mem⟩
    rw [swept]
  inside := both.journalWrote.inNamespace
  never := never
  kept taken := (both.journalWrote.limits.shed.inside row taken).2.2.1 rfl
  later e mem inside := by
    refine lt_of_allocated allocated ((both.mem_first none).mpr (.inr ⟨?_, ?_⟩)) inside
    · exact (mem_sweptFor (sound.live mem inside)).mpr mem
    · rw [Bool.eq_false_iff, ne_eq, Entry.hasKey_iff]
      exact fun same => J.apart (both.cursorWrote.ns.symm.trans
        (same.2.1.symm.trans (Entry.inNamespace_iff.mp inside).2))
  oldest e taken r left inside other expires := by
    have live : r.live now = true := by rw [Entry.live, expires]
    have unkeyed : r.hasKey row.pluginId row.ns row.key = false := by
      rw [Bool.eq_false_iff, ne_eq, Entry.hasKey_iff]
      exact fun same => other same.2.2
    rcases Entry.older_iff.mp (both.journalWrote.older taken left inside unkeyed live) with
      before | same
    · exact before.le
    · exact same.1.le
  limit keys nodup listed := by
    refine le_trans ?_ both.journalLimit
    have bounded := nodup.length_le_of_subset (fun key mem => by
      obtain ⟨e, there, inside, rfl, expires⟩ := listed key mem
      have live : e.live now = true := by rw [Entry.live, expires]
      exact List.mem_map_of_mem (f := Entry.key) (List.mem_filter.mpr
        ⟨there, Bool.and_eq_true_iff.mpr ⟨inside, live⟩⟩))
    rwa [List.length_map, ← List.countP_eq_length_filter] at bounded

/-- An entry that is committed. -/
theorem Sound.entry (sound : J.Sound run)
    (permitted : J.Permits run (.entry initialSequence prepareEntry now))
    (ran : pluginStateRegisterSequencedJournalEntry maxPluginEntries run.store J.options J.cursorKey
      initialSequence J.readCursorSequence prepareEntry now = .ok c) :
    J.Sound ⟨c.store, run.returned ++ [(initialSequence, c.answer)]⟩ := by
  obtain ⟨prepared, gone, s', createdAt, gone', answer, done, allocated, -, both⟩ :=
    pluginStateRegisterSequencedJournalEntry_ok ran
  obtain ⟨stored, key⟩ := permitted c.answer prepared done
  have none : gone = [] := both.gone_eq_nil J.room J.inUse fun e mem inside =>
    sound.keys e (mem_of_mem_sweptFor mem) inside
  have above : ∀ entry ∈ run.returned, entry.2 < c.answer := by
    intro entry mem
    obtain ⟨row, there, inside, value, read, atMost⟩ := sound.cursor entry mem
    have never := sound.never row there inside
    rw [answer, select_of_cursor ((mem_sweptFor never).mpr there) inside never, Option.bind_some,
      Option.mem_def.mp read, Option.getD_some]
    omega
  have committing : J.Committing run.store c.store
      (J.options.journal.entry prepared.journalKey prepared.journalValueJson createdAt .none) gone' :=
    sound.committing none allocated both rfl
  have increasing : ((run.returned ++ [(initialSequence, c.answer)]).map Prod.snd).Pairwise
      (· < ·) := by
    rw [List.map_append, List.pairwise_append]
    refine ⟨sound.increasing, List.pairwise_singleton _ _, fun a known b last => ?_⟩
    obtain ⟨entry, mem, rfl⟩ := List.mem_map.mp known
    rw [List.mem_singleton.mp last]
    exact above entry mem
  refine ⟨?_, ?_, increasing, ?_, ?_, ?_⟩
  · intro e mem inside
    rcases (both.mem_cursors J.apart none inside).mp mem with rfl | ⟨old, -⟩
    · exact J.inUse
    · exact sound.keys e (mem_of_mem_sweptFor old) inside
  · intro e mem inside
    obtain ⟨plugin, ns, same⟩ := Entry.hasKey_iff.mp inside
    rcases (both.mem_cursors J.apart none (Entry.inNamespace_iff.mpr ⟨plugin, ns⟩)).mp mem with
      rfl | ⟨-, other⟩
    · rfl
    · exact absurd same other
  · intro entry mem
    rcases List.mem_append.mp mem with old | new
    · exact sound.above entry old
    · rw [List.mem_singleton.mp new, answer]
      exact Int.lt_add_one_of_le (le_max_left _ _)
  · intro entry mem
    refine ⟨_, both.cursor_mem J.apart, Entry.hasKey_iff.mpr ⟨rfl, rfl, rfl⟩, c.answer, stored, ?_⟩
    rcases List.mem_append.mp mem with old | new
    · exact (above entry old).le
    · rw [List.mem_singleton.mp new]
  · obtain ⟨kept, holds, suffix, -, -⟩ := sound.newest
    rw [List.map_append] at increasing ⊢
    obtain ⟨kept', holds', suffix', length, nonempty⟩ :=
      committing.holds holds suffix increasing key
    exact ⟨kept', holds', suffix', length, fun _ => nonempty⟩

end Entries

end SequencedJournal

end OpenClaw.PluginState
