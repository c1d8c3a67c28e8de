import OpenClaw.PluginState.Writes

/-!
The two writes of a sequenced journal entry: the cursor, whose write leaves the plugin's limit
to the second, and the journal row. The second write protects only its own key, so a journal
that keeps its cursor among its entries may lose it there.
-/

namespace OpenClaw.PluginState

variable {maxPluginEntries : Nat} {now : Int} {t s s' t' : Store} {cursor journal : Write}
  {e r : Entry} {gone gone' : List Entry}

structure Journaled (maxPluginEntries : Nat) (now : Int) (s : Store) (cursor : Write)
    (gone : List Entry) (s' : Store) (journal : Write) (gone' : List Entry) (t' : Store) :
    Prop where
  cursorWrote : Wrote maxPluginEntries false now s cursor gone s'
  journalWrote : Wrote maxPluginEntries true now s' journal gone' t'
  samePlugin : cursor.options.pluginId = journal.options.pluginId
  sameLimit : cursor.options.ns = journal.options.ns →
    cursor.options.maxEntries = journal.options.maxEntries
  cursorEvicts : cursor.options.overflowPolicy = .evictOldest
  journalEvicts : journal.options.overflowPolicy = .evictOldest
  fresh : added now s journal = 1

namespace Journaled

variable (both : Journaled maxPluginEntries now s cursor gone s' journal gone' t')

include both

theorem namespaceCount_eq (apart : cursor.options.ns ≠ journal.options.ns) :
    namespaceCount now s' journal.options = namespaceCount now s journal.options := by
  refine countP_eq_of_mem_iff fun e counted => ?_
  have inside := Entry.inNamespace_iff.mp (Bool.and_eq_true_iff.mp counted).1
  rw [both.cursorWrote.mem]
  constructor
  · rintro ⟨rfl | old, -⟩
    · exact absurd (both.cursorWrote.ns.symm.trans inside.2) apart
    · exact old.1
  · intro mem
    refine ⟨.inr ⟨mem, ?_⟩, fun taken => ?_⟩
    · rw [Bool.eq_false_iff, ne_eq, Entry.hasKey_iff]
      rintro ⟨-, ns, -⟩
      exact apart (both.cursorWrote.ns.symm.trans (ns.symm.trans inside.2))
    · have own := Entry.inNamespace_iff.mp (both.cursorWrote.gone_inNamespace taken)
      exact apart (own.2.symm.trans inside.2)

/-- The second write does not add to the cursor's namespace. -/
theorem cursorCount_le (apart : cursor.options.ns ≠ journal.options.ns) :
    namespaceCount now t' cursor.options ≤ namespaceCount now s' cursor.options := by
  refine countP_le_of_mem fun e counted mem => ?_
  have inside := Entry.inNamespace_iff.mp (Bool.and_eq_true_iff.mp counted).1
  rcases (both.journalWrote.mem.mp mem).1 with rfl | old
  · exact absurd (inside.2.symm.trans both.journalWrote.ns) apart
  · exact old.1

theorem pluginCount_add :
    pluginCount now s' journal.options + gone.length =
      pluginCount now s journal.options + added now s cursor := by
  have count := both.cursorWrote.pluginCount_add
  dsimp only [pluginCount] at count ⊢
  rw [both.samePlugin] at count
  exact count

theorem cursor_mem (apart : cursor.options.ns ≠ journal.options.ns) : cursor.row ∈ t'.rows := by
  have written := both.cursorWrote.row_mem
  refine both.journalWrote.mem.mpr ⟨.inr ⟨written, ?_⟩, fun taken => ?_⟩
  · rw [Bool.eq_false_iff, ne_eq, Entry.hasKey_iff]
    rintro ⟨-, ns, -⟩
    exact apart (both.cursorWrote.ns.symm.trans (ns.trans both.journalWrote.ns))
  · have own := Entry.inNamespace_iff.mp (both.journalWrote.gone_inNamespace taken)
    exact apart (both.cursorWrote.ns.symm.trans own.2)

theorem mem_gone (same : SameLive now t s) (mem : e ∈ evicted now t t' [cursor, journal]) :
    e ∈ gone ∨ e ∈ gone' := by
  obtain ⟨before, live, after, other⟩ := mem_evicted.mp mem
  simp only [rewritten, List.any_cons, List.any_nil, Bool.or_false, Bool.or_eq_false_iff] at other
  by_cases kept : e ∈ s'.rows
  · exact .inr (both.journalWrote.mem_gone kept other.2 after)
  · exact .inl (both.cursorWrote.mem_gone ((same e live).mpr before) other.1 kept)

theorem cursorLimit : namespaceCount now s' cursor.options ≤ cursor.options.maxEntries :=
  both.cursorWrote.limits.namespaceLimit (by rw [both.cursorEvicts]; exact nofun)

theorem journalLimit : namespaceCount now t' journal.options ≤ journal.options.maxEntries :=
  both.journalWrote.limits.namespaceLimit (by rw [both.journalEvicts]; exact nofun)

theorem pluginLimit : pluginCount now t' journal.options ≤ maxPluginEntries :=
  both.journalWrote.limits.pluginLimit (by rw [both.journalEvicts]; exact nofun) rfl

theorem gone_length_le :
    gone.length ≤ namespaceCount now s cursor.options + added now s cursor -
      cursor.options.maxEntries := by
  have bounded := both.cursorWrote.limits.bounded
  have namespaces := both.cursorWrote.upsert_namespaceCount
  dsimp only [namespaceCount] at namespaces ⊢
  rw [overflow, namespaces] at bounded
  simpa using bounded

/-- What the journal's write sheds, in terms of the rows there were before the cursor's. -/
theorem gone'_length_le (apart : cursor.options.ns ≠ journal.options.ns) :
    gone'.length ≤ max
      (namespaceCount now s journal.options + 1 - journal.options.maxEntries)
      (pluginCount now s journal.options + (added now s cursor + 1) - maxPluginEntries) := by
  have bounded := both.journalWrote.bounded
  have plugins := both.pluginCount_add
  have small := Wrote.added_le now s' journal
  rw [both.namespaceCount_eq apart] at bounded
  omega

theorem gone_add_gone'_length_le (together : cursor.options.ns = journal.options.ns) :
    gone.length + gone'.length ≤ max
      (namespaceCount now s journal.options + (added now s cursor + 1) -
        journal.options.maxEntries)
      (pluginCount now s journal.options + (added now s cursor + 1) - maxPluginEntries) := by
  have first := both.gone_length_le
  have bounded := both.journalWrote.bounded
  have plugins := both.pluginCount_add
  have namespaces := both.cursorWrote.namespaceCount_add
  have small := Wrote.added_le now s' journal
  dsimp only [namespaceCount] at first bounded namespaces ⊢
  rw [both.samePlugin, together] at first namespaces
  rw [both.sameLimit together] at first
  omega

theorem evicted_subset (same : SameLive now t s) :
    evicted now t t' [cursor, journal] ⊆ gone ++ gone' := fun _ mem =>
  List.mem_append.mpr (both.mem_gone same mem)

theorem evicted_own (same : SameLive now t s) (apart : cursor.options.ns ≠ journal.options.ns) :
    (evicted now t t' [cursor, journal]).filter
        (Entry.inNamespace cursor.options.pluginId cursor.options.ns) ⊆ gone ∧
      (evicted now t t' [cursor, journal]).filter
        (Entry.inNamespace journal.options.pluginId journal.options.ns) ⊆ gone' := by
  refine ⟨fun e mem => ?_, fun e mem => ?_⟩
  · have inside := Entry.inNamespace_iff.mp (List.mem_filter.mp mem).2
    refine (both.mem_gone same (List.mem_filter.mp mem).1).resolve_right fun taken => ?_
    have own := Entry.inNamespace_iff.mp (both.journalWrote.gone_inNamespace taken)
    exact apart (inside.2.symm.trans own.2)
  · have inside := Entry.inNamespace_iff.mp (List.mem_filter.mp mem).2
    refine (both.mem_gone same (List.mem_filter.mp mem).1).resolve_left fun taken => ?_
    have own := Entry.inNamespace_iff.mp (both.cursorWrote.gone_inNamespace taken)
    exact apart (own.2.symm.trans inside.2)

theorem bounded (same : SameLive now t s) :
    ∀ w ∈ [cursor, journal],
      ((evicted now t t' [cursor, journal]).filter
        (Entry.inNamespace w.options.pluginId w.options.ns)).length ≤
      max (namespaceCount now t w.options + addedTo now t [cursor, journal] w.options -
          w.options.maxEntries)
        (pluginCount now t w.options + ([cursor, journal].map (added now t)).sum -
          maxPluginEntries) := by
  have fresh := both.fresh
  by_cases together : cursor.options.ns = journal.options.ns
  · intro w mem
    have length := ((evicted_nodup.filter (Entry.inNamespace w.options.pluginId w.options.ns)
      ).length_le_of_subset fun e mem => both.evicted_subset same (List.mem_filter.mp mem).1)
    have total := both.gone_add_gone'_length_le together
    rw [List.length_append] at length
    rw [same.namespaceCount_eq, same.pluginCount_eq, same.added_eq] at total
    rw [same.added_eq] at fresh
    refine (length.trans total).trans_eq ?_
    rcases List.mem_pair.mp mem with rfl | rfl
    · simp [addedTo, together, fresh, both.samePlugin, both.sameLimit together, namespaceCount,
        pluginCount]
    · simp [addedTo, together, fresh]
  · have own := both.evicted_own same together
    rw [same.added_eq] at fresh
    intro w mem
    rcases List.mem_pair.mp mem with rfl | rfl
    · have length := (evicted_nodup.filter _).length_le_of_subset own.1
      refine (length.trans both.gone_length_le).trans ((le_max_left _ _).trans' ?_)
      rw [same.namespaceCount_eq, same.added_eq]
      simp [addedTo, Ne.symm together]
    · have length := (evicted_nodup.filter _).length_le_of_subset own.2
      refine (length.trans (both.gone'_length_le together)).trans_eq ?_
      rw [same.namespaceCount_eq, same.pluginCount_eq, same.added_eq]
      simp [addedTo, together, fresh]

theorem oldestFirst (same : SameLive now t s) (mem : e ∈ evicted now t t' [cursor, journal])
    (kept : r ∈ t'.rows) (live : r.live now = true)
    (within : r.inNamespace e.pluginId e.ns = true)
    (other : rewritten [cursor, journal] r = false) : e.older r = true := by
  simp only [rewritten, List.any_cons, List.any_nil, Bool.or_false, Bool.or_eq_false_iff] at other
  rcases both.mem_gone same mem with first | second
  · have inside := Entry.inNamespace_iff.mp (both.cursorWrote.gone_inNamespace first)
    rw [inside.1, inside.2] at within
    refine both.cursorWrote.older first ?_ within other.1 live
    rcases (both.journalWrote.mem.mp kept).1 with rfl | old
    · exact absurd (Entry.hasKey_iff.mpr ⟨rfl, rfl, rfl⟩) (Bool.eq_false_iff.mp other.2)
    · exact old.1
  · have inside := Entry.inNamespace_iff.mp (both.journalWrote.gone_inNamespace second)
    rw [inside.1, inside.2] at within
    exact both.journalWrote.older second kept within other.2 live

/-- The two writes of a journal entry meet the contract. -/
theorem respects (same : SameLive now t s) :
    Respects maxPluginEntries now t t' [cursor, journal] := by
  refine ⟨?_, ?_, ?_, ?_, ?_, ?_, ?_, both.bounded same, ?_⟩
  · intro w mem
    rcases List.mem_pair.mp mem with rfl | rfl
    · exact both.cursorWrote.live
    · exact both.journalWrote.live
  · intro w mem
    obtain rfl := Option.mem_some_iff.mp mem
    exact both.journalWrote.row_mem
  · intro w mem alone
    rcases List.mem_pair.mp mem with rfl | rfl
    · by_cases together : w.options.ns = journal.options.ns
      · obtain rfl := alone journal (by simp) together.symm
        exact both.journalWrote.row_mem
      · exact both.cursor_mem together
    · exact both.journalWrote.row_mem
  · intro w mem _
    rcases List.mem_pair.mp mem with rfl | rfl
    · by_cases together : w.options.ns = journal.options.ns
      · have limit := both.journalLimit
        dsimp only [namespaceCount] at limit ⊢
        rw [both.samePlugin, together, both.sameLimit together]
        exact limit
      · exact (both.cursorCount_le together).trans both.cursorLimit
    · exact both.journalLimit
  · intro w mem _
    rcases List.mem_pair.mp mem with rfl | rfl
    · have limit := both.pluginLimit
      dsimp only [pluginCount] at limit ⊢
      rw [both.samePlugin]
      exact limit
    · exact both.pluginLimit
  · intro e mem
    rcases both.mem_gone same mem with first | second
    · exact ⟨cursor, by simp, both.cursorEvicts, both.cursorWrote.gone_inNamespace first⟩
    · exact ⟨journal, by simp, both.journalEvicts, both.journalWrote.gone_inNamespace second⟩
  · intro e mem r kept live within other
    exact both.oldestFirst same mem kept live within other
  · intro r kept live
    rcases (both.journalWrote.mem.mp kept).1 with rfl | old
    · exact .inr ⟨journal, by simp, rfl⟩
    · rcases (both.cursorWrote.mem.mp old.1).1 with rfl | older
      · exact .inr ⟨cursor, by simp, rfl⟩
      · exact .inl ((same r live).mp older.1)

end Journaled

end OpenClaw.PluginState
