import OpenClaw.PluginState.Limits

/-!
The contract of an operation on the live rows, and why one write, or the two writes of a
journal entry, meet it. Sweeping expired rows does not show in the contract.
-/

namespace OpenClaw.PluginState

open Sql

variable {maxPluginEntries : Nat} {now : Int} {t s s' t' : Store} {w : Write} {writes : List Write}
  {e r : Entry} {gone gone' : List Entry}

/-- The operation has written the row's key. -/
def rewritten (writes : List Write) (e : Entry) : Bool :=
  writes.any fun w => e.hasKey w.row.pluginId w.row.ns w.row.key

/-- The live rows an operation has taken away to make room. -/
def evicted (now : Int) (t t' : Store) (writes : List Write) : List Entry :=
  t.rows.filter fun e => e.live now && !t'.rows.contains e && !rewritten writes e

/-- A written row is a live row more, unless it replaces one. -/
def added (now : Int) (t : Store) (w : Write) : Nat :=
  if (selectPluginStateEntry t w.row.pluginId w.row.ns w.row.key now).isSome then 0 else 1

abbrev namespaceCount (now : Int) (t : Store) (o : OpenKeyedStoreOptions) : Nat :=
  countLivePluginStateNamespaceEntries t o.pluginId o.ns now

abbrev pluginCount (now : Int) (t : Store) (o : OpenKeyedStoreOptions) : Nat :=
  countLivePluginStateEntries t o.pluginId now

/-- The rows that the writes add to the namespace. -/
def addedTo (now : Int) (t : Store) (writes : List Write) (o : OpenKeyedStoreOptions) : Nat :=
  ((writes.filter fun w => w.options.ns == o.ns).map (added now t)).sum

structure Respects (maxPluginEntries : Nat) (now : Int) (t t' : Store) (writes : List Write) :
    Prop where
  live : ∀ w ∈ writes, w.row.live now = true
  last : ∀ w ∈ writes.getLast?, w.row ∈ t'.rows
  written : ∀ w ∈ writes, (∀ v ∈ writes, v.options.ns = w.options.ns → v = w) → w.row ∈ t'.rows
  namespaceLimit : ∀ w ∈ writes, namespaceCount now t w.options ≤ w.options.maxEntries →
    namespaceCount now t' w.options ≤ w.options.maxEntries
  pluginLimit : ∀ w ∈ writes, pluginCount now t w.options ≤ maxPluginEntries →
    pluginCount now t' w.options ≤ maxPluginEntries
  ownNamespace : ∀ e ∈ evicted now t t' writes, ∃ w ∈ writes,
    w.options.overflowPolicy = .evictOldest ∧
      e.inNamespace w.options.pluginId w.options.ns = true
  oldestFirst : ∀ e ∈ evicted now t t' writes, ∀ r ∈ t'.rows, r.live now = true →
    r.inNamespace e.pluginId e.ns = true → rewritten writes r = false → e.older r = true
  bounded : ∀ w ∈ writes,
    ((evicted now t t' writes).filter
        (Entry.inNamespace w.options.pluginId w.options.ns)).length ≤
      max (namespaceCount now t w.options + addedTo now t writes w.options - w.options.maxEntries)
        (pluginCount now t w.options + (writes.map (added now t)).sum - maxPluginEntries)
  kept : ∀ r ∈ t'.rows, r.live now = true → r ∈ t.rows ∨ ∃ w ∈ writes, r = w.row

theorem countP_eq_of_mem_iff {counted : Entry → Bool}
    (same : ∀ e, counted e = true → (e ∈ s.rows ↔ e ∈ t.rows)) :
    s.rows.countP counted = t.rows.countP counted := by
  rw [List.countP_eq_length_filter, List.countP_eq_length_filter]
  refine ((List.perm_ext_iff_of_nodup ((s.nodup entries_irrefl).filter _)
    ((t.nodup entries_irrefl).filter _)).mpr fun e => ?_).length_eq
  rw [List.mem_filter, List.mem_filter]
  exact and_congr_left (same e)

theorem countP_le_of_mem {counted : Entry → Bool}
    (within : ∀ e, counted e = true → e ∈ s.rows → e ∈ t.rows) :
    s.rows.countP counted ≤ t.rows.countP counted := by
  rw [List.countP_eq_length_filter, List.countP_eq_length_filter]
  refine ((s.nodup entries_irrefl).filter _).length_le_of_subset fun e mem => ?_
  rw [List.mem_filter] at mem ⊢
  exact ⟨within e mem.2 mem.1, mem.2⟩

/-- Two stores with the same live rows. -/
def SameLive (now : Int) (t s : Store) : Prop :=
  ∀ e : Entry, e.live now = true → (e ∈ s.rows ↔ e ∈ t.rows)

namespace SameLive

theorem refl (now : Int) (t : Store) : SameLive now t t := fun _ _ => Iff.rfl

theorem sweep (p n : String) (same : SameLive now t s) :
    SameLive now t (deleteExpiredPluginStateEntries s now p n) :=
  fun e live => (live_mem_sweep live).trans (same e live)

theorem countP (same : SameLive now t s) {counted : Entry → Bool} (counts : LiveCount now counted) :
    s.rows.countP counted = t.rows.countP counted :=
  countP_eq_of_mem_iff fun e counted => same e (counts.live e counted)

theorem namespaceCount_eq (same : SameLive now t s) (o : OpenKeyedStoreOptions) :
    namespaceCount now s o = namespaceCount now t o :=
  same.countP (liveCount_namespace _ _ now)

theorem pluginCount_eq (same : SameLive now t s) (o : OpenKeyedStoreOptions) :
    pluginCount now s o = pluginCount now t o :=
  same.countP (liveCount_plugin _ now)

theorem select_isSome (same : SameLive now t s) (p n k : String) :
    (selectPluginStateEntry s p n k now).isSome = (selectPluginStateEntry t p n k now).isSome := by
  rw [Bool.eq_iff_iff, ← not_iff_not, Bool.not_eq_true, Bool.not_eq_true, Option.isSome_eq_false_iff,
    Option.isSome_eq_false_iff, Option.isNone_iff_eq_none, Option.isNone_iff_eq_none,
    selectPluginStateEntry_eq_none, selectPluginStateEntry_eq_none]
  have swap : ∀ {t s : Store}, SameLive now t s →
      (∀ e ∈ s.rows, e.hasKey p n k = true → e.live now = false) →
      ∀ e ∈ t.rows, e.hasKey p n k = true → e.live now = false := by
    intro t s same none e mem keyed
    rw [Bool.eq_false_iff]
    intro live
    exact absurd (none e ((same e live).mpr mem) keyed) (by simp [live])
  exact ⟨swap same, swap fun e live => (same e live).symm⟩

theorem added_eq (same : SameLive now t s) (w : Write) : added now s w = added now t w := by
  rw [added, added, same.select_isSome]

end SameLive

/-- One write into a store and what it sheds. -/
structure Wrote (maxPluginEntries : Nat) (enforced : Bool) (now : Int) (s : Store) (w : Write)
    (gone : List Entry) (t' : Store) : Prop where
  plugin : w.row.pluginId = w.options.pluginId
  ns : w.row.ns = w.options.ns
  live : w.row.live now = true
  limits : Enforced maxPluginEntries enforced w.options w.row.key now
    (upsertPluginStateEntry s w.row) gone t'
  admitted : w.options.overflowPolicy = .rejectNew → added now s w = 1 →
    namespaceCount now s w.options < w.options.maxEntries ∧
      pluginCount now s w.options < maxPluginEntries

namespace Wrote

variable {enforced : Bool}

theorem inNamespace (wrote : Wrote maxPluginEntries enforced now s w gone t') :
    w.row.inNamespace w.options.pluginId w.options.ns = true :=
  Entry.inNamespace_iff.mpr ⟨wrote.plugin, wrote.ns⟩

theorem mem (wrote : Wrote maxPluginEntries enforced now s w gone t') :
    e ∈ t'.rows ↔
      (e = w.row ∨ e ∈ s.rows ∧ e.hasKey w.row.pluginId w.row.ns w.row.key = false) ∧
        e ∉ gone := by
  rw [wrote.limits.shed.rows, mem_upsert]

theorem row_mem (wrote : Wrote maxPluginEntries enforced now s w gone t') : w.row ∈ t'.rows :=
  wrote.mem.mpr ⟨.inl rfl, fun mem => (wrote.limits.shed.inside w.row mem).2.2.1 rfl⟩

theorem gone_inNamespace (wrote : Wrote maxPluginEntries enforced now s w gone t')
    (mem : e ∈ gone) : e.inNamespace w.options.pluginId w.options.ns = true :=
  (wrote.limits.shed.inside e mem).2.1

theorem gone_mem (wrote : Wrote maxPluginEntries enforced now s w gone t') (mem : e ∈ gone) :
    e ∈ s.rows := by
  have inside := wrote.limits.shed.inside e mem
  rcases mem_upsert.mp inside.1 with rfl | old
  · exact absurd rfl inside.2.2.1
  · exact old.1

/-- A row that is neither written nor there any more has been shed. -/
theorem mem_gone (wrote : Wrote maxPluginEntries enforced now s w gone t') (before : e ∈ s.rows)
    (other : e.hasKey w.row.pluginId w.row.ns w.row.key = false) (after : e ∉ t'.rows) :
    e ∈ gone := by
  by_contra kept
  exact after (wrote.mem.mpr ⟨.inr ⟨before, other⟩, kept⟩)

theorem key_ne (wrote : Wrote maxPluginEntries enforced now s w gone t')
    (within : e.inNamespace w.options.pluginId w.options.ns = true)
    (other : e.hasKey w.row.pluginId w.row.ns w.row.key = false) : e.key ≠ w.row.key := by
  intro same
  rw [Bool.eq_false_iff, ne_eq, Entry.hasKey_iff] at other
  rw [Entry.inNamespace_iff] at within
  exact other ⟨within.1.trans wrote.plugin.symm, within.2.trans wrote.ns.symm, same⟩

theorem older (wrote : Wrote maxPluginEntries enforced now s w gone t') (mem : e ∈ gone)
    (kept : r ∈ t'.rows) (within : r.inNamespace w.options.pluginId w.options.ns = true)
    (other : r.hasKey w.row.pluginId w.row.ns w.row.key = false) (live : r.live now = true) :
    e.older r = true :=
  wrote.limits.shed.oldest e mem r kept within (wrote.key_ne within other) live

theorem evicts (wrote : Wrote maxPluginEntries enforced now s w gone t') (mem : e ∈ gone) :
    w.options.overflowPolicy = .evictOldest := by
  cases policy : w.options.overflowPolicy with
  | evictOldest => rfl
  | rejectNew =>
      rw [wrote.limits.rejects policy] at mem
      exact absurd mem List.not_mem_nil

theorem upsert_namespaceCount (wrote : Wrote maxPluginEntries enforced now s w gone t') :
    namespaceCount now (upsertPluginStateEntry s w.row) w.options =
      namespaceCount now s w.options + added now s w :=
  countP_upsert (liveCount_namespace _ _ now) (by rw [wrote.inNamespace, wrote.live, Bool.true_and])

theorem upsert_pluginCount (wrote : Wrote maxPluginEntries enforced now s w gone t') :
    pluginCount now (upsertPluginStateEntry s w.row) w.options =
      pluginCount now s w.options + added now s w :=
  countP_upsert (liveCount_plugin _ now) (by
    rw [beq_iff_eq.mpr wrote.plugin, wrote.live, Bool.true_and])

theorem namespaceCount_add (wrote : Wrote maxPluginEntries enforced now s w gone t') :
    namespaceCount now t' w.options + gone.length =
      namespaceCount now s w.options + added now s w :=
  wrote.limits.shed.countLiveNamespace.trans wrote.upsert_namespaceCount

theorem pluginCount_add (wrote : Wrote maxPluginEntries enforced now s w gone t') :
    pluginCount now t' w.options + gone.length = pluginCount now s w.options + added now s w :=
  wrote.limits.shed.countLivePlugin.trans wrote.upsert_pluginCount

theorem added_le (now : Int) (s : Store) (w : Write) : added now s w ≤ 1 := by
  unfold added
  split <;> omega

theorem namespaceLimit (wrote : Wrote maxPluginEntries enforced now s w gone t')
    (before : namespaceCount now s w.options ≤ w.options.maxEntries) :
    namespaceCount now t' w.options ≤ w.options.maxEntries := by
  by_cases policy : w.options.overflowPolicy = .rejectNew
  · have count := wrote.namespaceCount_add
    have small := added_le now s w
    have room := wrote.admitted policy
    by_cases new : added now s w = 1
    · have := (room new).1
      omega
    · omega
  · exact wrote.limits.namespaceLimit policy

theorem pluginLimit (wrote : Wrote maxPluginEntries true now s w gone t')
    (before : pluginCount now s w.options ≤ maxPluginEntries) :
    pluginCount now t' w.options ≤ maxPluginEntries := by
  by_cases policy : w.options.overflowPolicy = .rejectNew
  · have count := wrote.pluginCount_add
    have small := added_le now s w
    have room := wrote.admitted policy
    by_cases new : added now s w = 1
    · have := (room new).2
      omega
    · omega
  · exact wrote.limits.pluginLimit policy rfl

theorem bounded (wrote : Wrote maxPluginEntries enforced now s w gone t') :
    gone.length ≤ max (namespaceCount now s w.options + added now s w - w.options.maxEntries)
      (pluginCount now s w.options + added now s w - maxPluginEntries) := by
  have bounded := wrote.limits.bounded
  have namespaces := wrote.upsert_namespaceCount
  have plugins := wrote.upsert_pluginCount
  dsimp only [namespaceCount, pluginCount] at namespaces plugins ⊢
  rw [overflow, namespaces, plugins] at bounded
  refine bounded.trans (max_le_max le_rfl ?_)
  split
  · exact le_rfl
  · exact Nat.zero_le _

end Wrote

theorem evicted_nodup : (evicted now t t' writes).Nodup := (t.nodup entries_irrefl).filter _

theorem mem_evicted :
    e ∈ evicted now t t' writes ↔
      e ∈ t.rows ∧ e.live now = true ∧ e ∉ t'.rows ∧ rewritten writes e = false := by
  simp [evicted, and_assoc]

/-- An operation that only sweeps meets the contract, as no live row changes. -/
theorem SameLive.respects (same : SameLive now t s) : Respects maxPluginEntries now t s [] where
  live _ mem := absurd mem List.not_mem_nil
  last _ mem := absurd mem (Option.not_mem_none _)
  written _ mem := absurd mem List.not_mem_nil
  namespaceLimit _ mem := absurd mem List.not_mem_nil
  pluginLimit _ mem := absurd mem List.not_mem_nil
  ownNamespace e mem :=
    absurd ((same e (mem_evicted.mp mem).2.1).mpr (mem_evicted.mp mem).1) (mem_evicted.mp mem).2.2.1
  oldestFirst e mem :=
    absurd ((same e (mem_evicted.mp mem).2.1).mpr (mem_evicted.mp mem).1) (mem_evicted.mp mem).2.2.1
  bounded _ mem := absurd mem List.not_mem_nil
  kept r mem live := .inl ((same r live).mp mem)

/-- One write meets the contract. -/
theorem Wrote.respects (same : SameLive now t s)
    (wrote : Wrote maxPluginEntries true now s w gone t') :
    Respects maxPluginEntries now t t' [w] := by
  have shed : ∀ e ∈ evicted now t t' [w], e ∈ gone := by
    intro e mem
    obtain ⟨before, live, after, other⟩ := mem_evicted.mp mem
    refine wrote.mem_gone ((same e live).mpr before) ?_ after
    simpa [rewritten] using other
  refine ⟨?_, ?_, ?_, ?_, ?_, ?_, ?_, ?_, ?_⟩
  · intro w' mem
    obtain rfl := List.mem_singleton.mp mem
    exact wrote.live
  · intro w' mem
    obtain rfl := Option.mem_some_iff.mp mem
    exact wrote.row_mem
  · intro w' mem _
    obtain rfl := List.mem_singleton.mp mem
    exact wrote.row_mem
  · intro w' mem before
    obtain rfl := List.mem_singleton.mp mem
    exact wrote.namespaceLimit ((same.namespaceCount_eq _).trans_le before)
  · intro w' mem before
    obtain rfl := List.mem_singleton.mp mem
    exact wrote.pluginLimit ((same.pluginCount_eq _).trans_le before)
  · intro e mem
    exact ⟨w, List.mem_singleton_self w, wrote.evicts (shed e mem),
      wrote.gone_inNamespace (shed e mem)⟩
  · intro e mem r kept live within other
    have inside := Entry.inNamespace_iff.mp (wrote.gone_inNamespace (shed e mem))
    rw [inside.1, inside.2] at within
    refine wrote.older (shed e mem) kept within ?_ live
    simpa [rewritten] using other
  · intro w' mem
    obtain rfl := List.mem_singleton.mp mem
    have fewer : ((evicted now t t' [w']).filter
        (Entry.inNamespace w'.options.pluginId w'.options.ns)).length ≤ gone.length :=
      (evicted_nodup.filter _).length_le_of_subset fun e mem => shed e (List.mem_filter.mp mem).1
    refine fewer.trans ?_
    have bounded := wrote.bounded
    rw [same.namespaceCount_eq, same.pluginCount_eq, same.added_eq] at bounded
    simpa [addedTo] using bounded
  · intro r kept live
    rcases (wrote.mem.mp kept).1 with rfl | old
    · exact .inr ⟨w, List.mem_singleton_self w, rfl⟩
    · exact .inl ((same r live).mp old.1)

end OpenClaw.PluginState
