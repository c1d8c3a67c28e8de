import OpenClaw.PluginState.Store

/-!
What one write does to the live rows: the row written is there, and the rows shed to make
room are the oldest of its own namespace, no more of them than overflow.
-/

namespace OpenClaw.PluginState

open Sql

variable {t t' : Store} {o : OpenKeyedStoreOptions} {row e s : Entry} {now : Int} {k : String}

theorem entries_irrefl (e : Entry) : ¬ entries.apart e e := fun apart => apart ⟨rfl, rfl, rfl⟩

theorem eq_of_hasKey {p n : String} (left : e ∈ t.rows) (right : s ∈ t.rows)
    (keyed : e.hasKey p n k = true) (keyed' : s.hasKey p n k = true) : e = s := by
  rw [Entry.hasKey_iff] at keyed keyed'
  refine t.eq_of_not_apart left right fun apart => apart ⟨?_, ?_, ?_⟩
  · exact keyed.1.trans keyed'.1.symm
  · exact keyed.2.1.trans keyed'.2.1.symm
  · exact keyed.2.2.trans keyed'.2.2.symm

/-- Counts that only look at live rows and do not tell the rows of one key apart. -/
structure LiveCount (now : Int) (counted : Entry → Bool) : Prop where
  live : ∀ e, counted e = true → e.live now = true
  keyed : ∀ e s : Entry, e.pluginId = s.pluginId → e.ns = s.ns → s.live now = true →
    counted e = true → counted s = true

theorem liveCount_namespace (p n : String) (now : Int) :
    LiveCount now fun e => e.inNamespace p n && e.live now where
  live _ counted := (Bool.and_eq_true_iff.mp counted).2
  keyed e s plugin ns live counted := by
    rw [Bool.and_eq_true, Entry.inNamespace_iff] at counted ⊢
    exact ⟨⟨plugin ▸ counted.1.1, ns ▸ counted.1.2⟩, live⟩

theorem liveCount_plugin (p : String) (now : Int) :
    LiveCount now fun e => e.pluginId == p && e.live now where
  live _ counted := (Bool.and_eq_true_iff.mp counted).2
  keyed e s plugin ns live counted := by
    rw [Bool.and_eq_true, beq_iff_eq] at counted ⊢
    exact ⟨plugin ▸ counted.1, live⟩

section Sweep

variable {p n : String}

theorem mem_expiredBatch (mem : e ∈ expiredBatch t now p n) :
    e ∈ t.rows ∧ e.live now = false := by
  have filtered := List.mem_filter.mp (List.mem_of_mem_take mem)
  rw [Bool.and_eq_true, Bool.not_eq_true'] at filtered
  exact ⟨filtered.1, filtered.2.2⟩

theorem mem_sweep (mem : e ∈ (deleteExpiredPluginStateEntries t now p n).rows) : e ∈ t.rows :=
  (Table.mem_delete.mp mem).1

/-- A sweep takes no live row. -/
theorem live_mem_sweep (live : e.live now = true) :
    e ∈ (deleteExpiredPluginStateEntries t now p n).rows ↔ e ∈ t.rows := by
  refine ⟨mem_sweep, fun mem => Table.mem_delete.mpr ⟨mem, ?_⟩⟩
  rw [Bool.eq_false_iff, ne_eq, List.contains_iff_mem]
  intro swept
  rw [(mem_expiredBatch swept).2] at live
  exact absurd live Bool.false_ne_true

theorem countP_sweep {counted : Entry → Bool} (counts : LiveCount now counted) :
    (deleteExpiredPluginStateEntries t now p n).rows.countP counted = t.rows.countP counted := by
  refine Table.countP_delete_of_not fun e _ swept => ?_
  rw [List.contains_iff_mem] at swept
  rw [Bool.eq_false_iff]
  intro counted
  have live := counts.live e counted
  rw [(mem_expiredBatch swept).2] at live
  exact absurd live Bool.false_ne_true

end Sweep

section Select

variable {p n : String}

theorem selectPluginStateEntry_eq_some
    (found : selectPluginStateEntry t p n k now = some e) :
    e ∈ t.rows ∧ e.hasKey p n k = true ∧ e.live now = true := by
  have holds := List.find?_some found
  rw [Bool.and_eq_true] at holds
  exact ⟨List.mem_of_find?_eq_some found, holds⟩

theorem selectPluginStateEntry_eq_none :
    selectPluginStateEntry t p n k now = none ↔
      ∀ e ∈ t.rows, e.hasKey p n k = true → e.live now = false := by
  rw [selectPluginStateEntry, List.find?_eq_none]
  refine forall₂_congr fun e mem => ?_
  cases e.hasKey p n k <;> cases e.live now <;> simp

end Select

section Upsert

theorem mem_upsert :
    e ∈ (upsertPluginStateEntry t row).rows ↔
      e = row ∨ (e ∈ t.rows ∧ e.hasKey row.pluginId row.ns row.key = false) := by
  simp only [upsertPluginStateEntry, List.mem_append, List.mem_filter, Bool.not_eq_true',
    List.mem_singleton]
  exact or_comm

/-- What a count sees of the key before it is written. -/
theorem countP_keyed {p n : String} {counted : Entry → Bool} (counts : LiveCount now counted)
    (same : ∀ e : Entry, e.hasKey p n k = true → e.live now = true → counted e = true) :
    (t.rows.filter (Entry.hasKey p n k)).countP counted =
      if (selectPluginStateEntry t p n k now).isSome then 1 else 0 := by
  cases found : selectPluginStateEntry t p n k now with
  | none =>
      refine List.countP_eq_zero.mpr fun e mem countedE => ?_
      have kept := List.mem_filter.mp mem
      have live := counts.live e countedE
      rw [selectPluginStateEntry_eq_none.mp found e kept.1 kept.2] at live
      exact absurd live Bool.false_ne_true
  | some r =>
      obtain ⟨mem, keyed, live⟩ := selectPluginStateEntry_eq_some found
      have only : t.rows.filter (Entry.hasKey p n k) = [r] := by
        refine List.perm_singleton.mp ((List.perm_ext_iff_of_nodup
          ((t.nodup entries_irrefl).filter _) (List.nodup_singleton r)).mpr fun e => ?_)
        rw [List.mem_filter, List.mem_singleton]
        refine ⟨fun both => eq_of_hasKey both.1 mem both.2 keyed, ?_⟩
        rintro rfl
        exact ⟨mem, keyed⟩
      simp only [only, List.countP_singleton, same r keyed live, if_true, Option.isSome_some]

/-- Writing a row counts once more, unless a live row of the key is replaced. -/
theorem countP_upsert {counted : Entry → Bool} (counts : LiveCount now counted)
    (countedRow : counted row = true) :
    (upsertPluginStateEntry t row).rows.countP counted =
      t.rows.countP counted +
        if (selectPluginStateEntry t row.pluginId row.ns row.key now).isSome then 0 else 1 := by
  have split : t.rows.countP counted =
      (t.rows.filter fun e => !e.hasKey row.pluginId row.ns row.key).countP counted +
        (t.rows.filter (Entry.hasKey row.pluginId row.ns row.key)).countP counted :=
    t.countP_delete (Entry.hasKey row.pluginId row.ns row.key) counted
  have written : (upsertPluginStateEntry t row).rows.countP counted =
      (t.rows.filter fun e => !e.hasKey row.pluginId row.ns row.key).countP counted + 1 := by
    simp only [upsertPluginStateEntry, List.countP_append, List.countP_singleton, countedRow,
      if_true]
  have replaced := countP_keyed (t := t) (k := row.key) counts fun e keyed live =>
    counts.keyed row e (Entry.hasKey_iff.mp keyed).1.symm (Entry.hasKey_iff.mp keyed).2.1.symm
      live countedRow
  rw [written, split, replaced]
  split_ifs <;> rfl

end Upsert

section Oldest

variable {p n : String} {limit : Nat}

theorem mem_oldest (mem : e ∈ oldestNamespaceEntries t p n k now limit) :
    e ∈ t.rows ∧ e.inNamespace p n = true ∧ e.key ≠ k ∧ e.live now = true := by
  have filtered := List.mem_filter.mp (List.mem_mergeSort.mp (List.mem_of_mem_take mem))
  simp only [Bool.and_eq_true, bne_iff_ne, ne_eq] at filtered
  exact ⟨filtered.1, filtered.2.1.1, filtered.2.1.2, filtered.2.2⟩

theorem oldest_nodup : (oldestNamespaceEntries t p n k now limit).Nodup :=
  ((List.mergeSort_perm _ _).nodup_iff.mpr ((t.nodup entries_irrefl).filter _)).sublist
    (List.take_sublist _ _)

theorem length_oldest :
    (oldestNamespaceEntries t p n k now limit).length =
      min limit (t.rows.countP fun e => e.inNamespace p n && e.key != k && e.live now) := by
  rw [oldestNamespaceEntries, List.length_take, List.length_mergeSort, List.countP_eq_length_filter]

/-- The rows taken come before every row left. -/
theorem oldest_older (mem : e ∈ oldestNamespaceEntries t p n k now limit) (left : s ∈ t.rows)
    (within : s.inNamespace p n = true) (unprotected : s.key ≠ k) (live : s.live now = true)
    (kept : s ∉ oldestNamespaceEntries t p n k now limit) : e.older s = true := by
  have sorted := List.pairwise_mergeSort Entry.older_trans Entry.older_total
    (t.rows.filter fun e => e.inNamespace p n && e.key != k && e.live now)
  rw [← List.take_append_drop limit (List.mergeSort _ _)] at sorted
  refine (List.pairwise_append.mp sorted).2.2 e mem s ?_
  have listed : s ∈ (t.rows.filter fun e => e.inNamespace p n && e.key != k &&
      e.live now).mergeSort Entry.older := by
    rw [List.mem_mergeSort, List.mem_filter]
    exact ⟨left, by simp [within, unprotected, live]⟩
  rw [← List.take_append_drop limit (List.mergeSort _ _), List.mem_append] at listed
  exact listed.resolve_left kept

/-- With the protected row live, all the others may go. -/
theorem countP_unprotected
    (present : (selectPluginStateEntry t p n k now).isSome = true) :
    (t.rows.countP fun e => e.inNamespace p n && e.key != k && e.live now) + 1 =
      countLivePluginStateNamespaceEntries t p n now := by
  have keyed := countP_keyed (t := t) (k := k) (liveCount_namespace p n now)
    fun e keyed live => by
      rw [Entry.hasKey, Bool.and_eq_true] at keyed
      rw [keyed.1, live, Bool.true_and]
  have others : (t.delete (Entry.hasKey p n k)).rows.countP
      (fun e => e.inNamespace p n && e.live now) =
        t.rows.countP fun e => e.inNamespace p n && e.key != k && e.live now := by
    rw [Table.delete, List.countP_filter]
    refine List.countP_congr fun e _ => ?_
    simp only [Entry.hasKey, bne]
    cases e.inNamespace p n <;> cases e.live now <;> cases e.key == k <;> simp
  have split := t.countP_delete (Entry.hasKey p n k) fun e => e.inNamespace p n && e.live now
  rw [others, keyed, if_pos present] at split
  exact split.symm

end Oldest

/-- A namespace loses its oldest rows beside the protected one. -/
structure Shedding (o : OpenKeyedStoreOptions) (k : String) (now : Int) (t : Store)
    (gone : List Entry) (t' : Store) : Prop where
  rows : ∀ e, e ∈ t'.rows ↔ e ∈ t.rows ∧ e ∉ gone
  nodup : gone.Nodup
  inside : ∀ e ∈ gone, e ∈ t.rows ∧ e.inNamespace o.pluginId o.ns = true ∧ e.key ≠ k ∧
    e.live now = true
  oldest : ∀ e ∈ gone, ∀ s ∈ t'.rows, s.inNamespace o.pluginId o.ns = true → s.key ≠ k →
    s.live now = true → e.older s = true

namespace Shedding

variable {gone gone' : List Entry} {t'' : Store}

theorem refl (t : Store) : Shedding o k now t [] t where
  rows _ := by simp
  nodup := List.nodup_nil
  inside _ mem := absurd mem List.not_mem_nil
  oldest _ mem := absurd mem List.not_mem_nil

theorem trans (first : Shedding o k now t gone t') (second : Shedding o k now t' gone' t'') :
    Shedding o k now t (gone ++ gone') t'' where
  rows e := by rw [second.rows, first.rows, List.mem_append, not_or, and_assoc]
  nodup := List.nodup_append'.mpr ⟨first.nodup, second.nodup, fun e left right =>
    ((first.rows e).mp (second.inside e right).1).2 left⟩
  inside e mem := by
    rcases List.mem_append.mp mem with left | right
    · exact first.inside e left
    · exact ⟨((first.rows e).mp (second.inside e right).1).1, (second.inside e right).2⟩
  oldest e mem s kept within unprotected live := by
    rcases List.mem_append.mp mem with left | right
    · exact first.oldest e left s ((second.rows s).mp kept).1 within unprotected live
    · exact second.oldest e right s kept within unprotected live

theorem deleteOldest (t : Store) (o : OpenKeyedStoreOptions) (k : String) (now : Int)
    (limit : Nat) :
    Shedding o k now t (oldestNamespaceEntries t o.pluginId o.ns k now limit)
      (deleteOldestPluginStateNamespaceEntries t o.pluginId o.ns k now limit) := by
  have rows : ∀ e, e ∈ (deleteOldestPluginStateNamespaceEntries t o.pluginId o.ns k now limit).rows ↔
      e ∈ t.rows ∧ e ∉ oldestNamespaceEntries t o.pluginId o.ns k now limit := by
    intro e
    rw [deleteOldestPluginStateNamespaceEntries, Table.mem_delete, Bool.eq_false_iff, ne_eq,
      List.contains_iff_mem]
  refine ⟨rows, oldest_nodup, fun e => mem_oldest, ?_⟩
  intro e mem s kept within unprotected live
  exact oldest_older mem ((rows s).mp kept).1 within unprotected live ((rows s).mp kept).2

theorem countP (shed : Shedding o k now t gone t') {counted : Entry → Bool}
    (counts : ∀ e ∈ gone, counted e = true) :
    t'.rows.countP counted + gone.length = t.rows.countP counted := by
  have perm : t'.rows.Perm (t.delete fun e => gone.contains e).rows := by
    refine (List.perm_ext_iff_of_nodup (t'.nodup entries_irrefl)
      (Table.nodup _ entries_irrefl)).mpr fun e => ?_
    rw [shed.rows, Table.mem_delete, Bool.eq_false_iff, ne_eq, List.contains_iff_mem]
  rw [perm.countP_eq]
  exact Table.countP_delete_batch entries_irrefl shed.nodup
    fun e mem => ⟨(shed.inside e mem).1, counts e mem⟩

theorem countLiveNamespace (shed : Shedding o k now t gone t') :
    countLivePluginStateNamespaceEntries t' o.pluginId o.ns now + gone.length =
      countLivePluginStateNamespaceEntries t o.pluginId o.ns now :=
  shed.countP fun e mem => by
    rw [(shed.inside e mem).2.1, (shed.inside e mem).2.2.2, Bool.true_and]

theorem countLivePlugin (shed : Shedding o k now t gone t') :
    countLivePluginStateEntries t' o.pluginId now + gone.length =
      countLivePluginStateEntries t o.pluginId now :=
  shed.countP fun e mem => by
    have inside := shed.inside e mem
    rw [beq_iff_eq.mpr (Entry.inNamespace_iff.mp inside.2.1).1, inside.2.2.2, Bool.true_and]

end Shedding

section Enforcement

variable {maxPluginEntries : Nat} {enforced : Bool}

theorem shedNamespaceOverflow_spec (t : Store) (o : OpenKeyedStoreOptions) (now : Int) (k : String)
    (present : (selectPluginStateEntry t o.pluginId o.ns k now).isSome = true) :
    ∃ gone, Shedding o k now t gone (shedNamespaceOverflow t o now k) ∧
      gone.length = countLivePluginStateNamespaceEntries t o.pluginId o.ns now - o.maxEntries := by
  by_cases exceeds : o.maxEntries < countLivePluginStateNamespaceEntries t o.pluginId o.ns now
  · refine ⟨oldestNamespaceEntries t o.pluginId o.ns k now
      (countLivePluginStateNamespaceEntries t o.pluginId o.ns now - o.maxEntries), ?_, ?_⟩
    · rw [shedNamespaceOverflow, if_pos exceeds]
      exact Shedding.deleteOldest t o k now _
    · have others := countP_unprotected present
      have positive := o.positive
      rw [length_oldest]
      omega
  · refine ⟨[], ?_, ?_⟩
    · rw [shedNamespaceOverflow, if_neg exceeds]
      exact Shedding.refl t
    · rw [List.length_nil]
      omega

theorem shedPluginOverflow_spec
    (enforced : shedPluginOverflow maxPluginEntries t o now k = .ok t') :
    ∃ gone, Shedding o k now t gone t' ∧
      gone.length ≤ countLivePluginStateEntries t o.pluginId now - maxPluginEntries ∧
      countLivePluginStateEntries t' o.pluginId now ≤ maxPluginEntries := by
  simp only [shedPluginOverflow] at enforced
  split at enforced
  case isTrue within =>
    cases enforced
    exact ⟨[], Shedding.refl t, Nat.zero_le _, within⟩
  case isFalse _ =>
    split at enforced
    case isTrue still => cases enforced
    case isFalse fits =>
      cases enforced
      refine ⟨_, Shedding.deleteOldest t o k now _, ?_, by omega⟩
      rw [length_oldest]
      exact Nat.min_le_left _ _

/-- What limits a write sheds by: its namespace's, and the plugin's where it is enforced. -/
def overflow (maxPluginEntries : Nat) (enforced : Bool) (t : Store) (o : OpenKeyedStoreOptions)
    (now : Int) : Nat :=
  max (countLivePluginStateNamespaceEntries t o.pluginId o.ns now - o.maxEntries)
    (if enforced then countLivePluginStateEntries t o.pluginId now - maxPluginEntries else 0)

structure Enforced (maxPluginEntries : Nat) (enforced : Bool) (o : OpenKeyedStoreOptions)
    (k : String) (now : Int) (t : Store) (gone : List Entry) (t' : Store) : Prop where
  shed : Shedding o k now t gone t'
  rejects : o.overflowPolicy = .rejectNew → gone = []
  bounded : gone.length ≤ overflow maxPluginEntries enforced t o now
  namespaceLimit : o.overflowPolicy ≠ .rejectNew →
    countLivePluginStateNamespaceEntries t' o.pluginId o.ns now ≤ o.maxEntries
  pluginLimit : o.overflowPolicy ≠ .rejectNew → enforced = true →
    countLivePluginStateEntries t' o.pluginId now ≤ maxPluginEntries

theorem enforcePostRegisterLimits_spec
    (present : (selectPluginStateEntry t o.pluginId o.ns k now).isSome = true)
    (ran : enforcePostRegisterLimits maxPluginEntries t o now k enforced = .ok t') :
    ∃ gone, Enforced maxPluginEntries enforced o k now t gone t' := by
  simp only [enforcePostRegisterLimits] at ran
  split at ran
  case isTrue rejects =>
    cases ran
    exact ⟨[], Shedding.refl t, fun _ => rfl, Nat.zero_le _, fun not => absurd rejects not,
      fun not => absurd rejects not⟩
  case isFalse evicts =>
    obtain ⟨gone, shed, length⟩ := shedNamespaceOverflow_spec t o now k present
    have counted := shed.countLiveNamespace
    cases enforced with
    | false =>
        cases ran
        refine ⟨gone, shed, fun rejects => absurd rejects evicts, ?_, fun _ => by omega,
          fun _ off => absurd off Bool.false_ne_true⟩
        exact length ▸ le_max_left _ _
    | true =>
        obtain ⟨gone', shed', bounded, fits⟩ := shedPluginOverflow_spec ran
        have counted' := shed'.countLiveNamespace
        have plugin := shed.countLivePlugin
        refine ⟨gone ++ gone', shed.trans shed', fun rejects => absurd rejects evicts, ?_,
          fun _ => by omega, fun _ _ => fits⟩
        rw [overflow, if_pos rfl, List.length_append]
        omega

end Enforcement

end OpenClaw.PluginState
