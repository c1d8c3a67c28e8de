import OpenClaw.Followup.EnqueueMoves

/-!
What a delivery relies on while it is in flight. Its sources stay active, so that
nothing evicts them or the compact copies they are elided to, and the entry it drains
only grows at its end. Reserved items stay out of reach of the drop policy.
-/

namespace Followup
namespace State

variable {norm : Normalizers} {allowed : Permission → Prop} {added : RunId → Prop} {s t : State}

/-- An entry after a removal of sources. -/
structure KeptFrom (lost : RunId → Prop) (entry old : Elision) : Prop where
  id : entry.id = old.id
  contextKey : entry.contextKey = old.contextKey
  references : entry.sourceRefs = old.sourceRefs
  sources : ∃ keep : RunId → Bool, entry.sources = old.sources.filter keep
  lost : ∀ source ∈ old.sources, source ∉ entry.sources → lost source

theorem KeptFrom.refl (lost : RunId → Prop) (entry : Elision) : KeptFrom lost entry entry :=
  ⟨rfl, rfl, rfl, ⟨fun _ => true, (List.filter_true _).symm⟩, fun _ mem out => absurd mem out⟩

theorem KeptFrom.keep {lost : RunId → Prop} {keep : RunId → Bool} {old : Elision}
    (removed : ∀ source ∈ old.sources, keep source = false → lost source) :
    KeptFrom lost (old.keep keep) old := by
  refine ⟨rfl, rfl, rfl, ⟨keep, rfl⟩, fun source mem out => ?_⟩
  cases kept : keep source with
  | true => exact absurd (List.mem_filter.mpr ⟨mem, kept⟩) out
  | false => exact removed source mem kept

/-- What no move changes, and what it may only extend. -/
structure Frame (allowed : Permission → Prop) (s t : State) : Prop where
  nextRun : s.nextRun ≤ t.nextRun
  nextElision : s.nextElision ≤ t.nextElision
  origin : ∀ id, id < s.nextRun → t.history.origin id = s.history.origin id
  prompted : s.history.prompted ⊆ t.history.prompted
  active : s.activeSummarySources ⊆ t.activeSummarySources ∨ allowed .release

theorem elideHead_active (item : RunId) (line : String) (sources : List RunId)
    (lines : List String) : (s.elideHead norm item line sources lines).activeSummarySources =
      if item ∈ s.activeSummarySources then insert s.nextRun s.activeSummarySources
      else s.activeSummarySources := by
  rw [elideHead, appendElision_eq]

theorem Move.frame (move : Move norm allowed added s t) : Frame allowed s t := by
  have updated : ∀ value id, id < s.nextRun →
      Function.update s.history.origin s.nextRun value id = s.history.origin id :=
    fun _ _ known => Function.update_of_ne (Nat.ne_of_lt known) ..
  cases move with
  | aside ledger nodup items active reserved keys =>
      simp only [State.ledger, LedgerFields.mk.injEq] at ledger
      obtain ⟨-, -, -, -, -, history, nextRun, nextElision⟩ := ledger
      exact ⟨nextRun.ge, nextElision.ge, fun _ _ => by rw [history], by rw [history]; exact List.Subset.refl _,
        active⟩
  | receive run execution _ =>
      cases execution <;> exact ⟨Nat.le_succ _, le_rfl, fun _ _ => rfl, List.Subset.refl _, .inl subset_rfl⟩
  | elide item line sources lines head headLine =>
      obtain ⟨-, -, -, -, -, nextRun, history⟩ := elideHead_frame s norm item line sources lines
      refine ⟨nextRun ▸ Nat.le_succ _, ?_, fun id known => ?_, ?_, .inl ?_⟩
      · rw [elideHead, appendElision_eq, extendedElisions]
        dsimp only
        split
        · split
          · exact le_rfl
          · exact Nat.le_succ _
        · exact Nat.le_succ _
      · rw [history]
        exact updated _ id known
      · rw [history]
        exact List.Subset.refl _
      · rw [elideHead_active]
        split
        · exact Finset.subset_insert _ _
        · exact subset_rfl
  | retry source mem consuming =>
      rw [releaseForRetry_of_mem mem]
      exact ⟨Nat.le_succ _, le_rfl, updated _, List.Subset.refl _, .inl subset_rfl⟩
  | prompt sources =>
      exact ⟨le_rfl, le_rfl, fun _ _ => rfl, List.subset_append_left _ _, .inl subset_rfl⟩
  | refresh | drop | evict | discard | forget | clear | build =>
      exact ⟨le_rfl, le_rfl, fun _ _ => rfl, List.Subset.refl _, .inl subset_rfl⟩

/-- Where the entries after a move come from. -/
theorem Move.entry (move : Move norm allowed added s t) {entry : Elision}
    (mem : entry ∈ t.summaryElisions) :
    (∃ old ∈ s.summaryElisions,
      KeptFrom (fun source => source ∉ s.activeSummarySources ∨ allowed .consume) entry old) ∨
    ∃ item ∈ s.summarySources, ∃ line,
      (∃ sources lines, t = s.elideHead norm item line sources lines) ∧
      ((∃ old ∈ s.summaryElisions, old.contextKey = s.contextKey norm item ∧
          entry = old.append item s.nextRun line) ∨
        entry = s.newElision (s.contextKey norm item) item s.nextRun line) := by
  have same : entry ∈ s.summaryElisions → ∃ old ∈ s.summaryElisions,
      KeptFrom (fun source => source ∉ s.activeSummarySources ∨ allowed .consume) entry old :=
    fun known => ⟨entry, known, .refl _ entry⟩
  cases move with
  | aside ledger nodup items active reserved keys =>
      have elisions : t.summaryElisions = s.summaryElisions :=
        congrArg LedgerFields.summaryElisions ledger
      exact .inl (same (elisions ▸ mem))
  | receive run execution _ => cases execution <;> exact .inl (same mem)
  | elide item line sources lines head headLine =>
      rcases mem_appendElision mem with kept | extended
      · exact .inl (same kept)
      · exact .inr ⟨item, head ▸ List.mem_cons_self, line, ⟨sources, lines, rfl⟩, extended⟩
  | evict source inElided inactive =>
      obtain ⟨old, known, rfl, -⟩ := mem_keepEntries mem
      refine .inl ⟨old, known, .keep fun other _ removed => .inl ?_⟩
      rw [not_not.mp (of_decide_eq_false removed)]
      exact inactive
  | discard keep settlement consuming notEvicted delivered =>
      obtain ⟨old, known, rfl, -⟩ := mem_keepEntries mem
      exact .inl ⟨old, known, .keep fun _ _ _ => .inr consuming⟩
  | retry source inSources consuming =>
      rw [releaseForRetry_of_mem inSources] at mem
      exact .inl (same mem)
  | clear => cases mem
  | refresh | drop | forget | build | prompt => exact .inl (same mem)

/-- The sources of a delivery that was not admitted. -/
structure Protected (s : State) (sources : List RunId) : Prop where
  known : ∀ source ∈ sources, source < s.nextRun
  origins : (sources.map s.history.origin).Nodup
  active : ∀ source ∈ sources, source ∈ s.activeSummarySources
  live : ∀ entry ∈ s.summaryElisions, ∀ source ∈ sources, ∀ compact,
    entry.reference source = some compact →
      compact ∈ entry.sources ∧ compact ∈ s.activeSummarySources

theorem Protected.move {sources : List RunId} (prot : s.Protected sources)
    (move : Move norm allowed added s t) (keepsActive : ¬ allowed .release)
    (keepsHeld : ¬ allowed .consume) : t.Protected sources := by
  obtain ⟨nextRun, -, origin, -, active⟩ := move.frame
  have active := active.resolve_right keepsActive
  refine ⟨fun source mem => Nat.lt_of_lt_of_le (prot.known source mem) nextRun, ?_,
    fun source mem => active (prot.active source mem), ?_⟩
  · rw [List.map_congr_left fun source mem => origin source (prot.known source mem)]
    exact prot.origins
  · intro entry mem source protectedSource compact reference
    rcases move.entry mem with ⟨old, known, kept⟩ | ⟨item, -, line, ⟨rest, restLines, elides⟩, extended⟩
    · rw [Elision.reference, kept.references] at reference
      obtain ⟨inOld, isActive⟩ := prot.live old known source protectedSource compact reference
      refine ⟨not_not.mp fun out => ?_, active isActive⟩
      cases kept.lost compact inOld out with
      | inl inactive => exact inactive isActive
      | inr consuming => exact keepsHeld consuming
    · have introduced : source = item → compact = s.nextRun →
          compact ∈ t.activeSummarySources := by
        rintro rfl rfl
        rw [elides, elideHead_active, if_pos (prot.active source protectedSource)]
        exact Finset.mem_insert_self _ _
      rcases extended with ⟨old, known, -, rfl⟩ | rfl
      · rw [reference_append] at reference
        split at reference
        case isTrue same =>
          have isNew := (Option.some.inj reference).symm
          exact ⟨isNew ▸ List.mem_append_right _ (List.mem_singleton_self _), introduced same isNew⟩
        case isFalse =>
          obtain ⟨inOld, isActive⟩ := prot.live old known source protectedSource compact reference
          exact ⟨List.mem_append_left _ inOld, active isActive⟩
      · by_cases same : source = item
        · have isNew : compact = s.nextRun := by
            simpa [Elision.reference, newElision, same] using reference.symm
          exact ⟨isNew ▸ List.mem_singleton_self _, introduced same isNew⟩
        · simp [Elision.reference, newElision, beq_eq_false_iff_ne.mpr same] at reference

theorem Protected.moves {sources : List RunId} (prot : s.Protected sources)
    (moves : Moves norm allowed added s t) (keepsActive : ¬ allowed .release)
    (keepsHeld : ¬ allowed .consume) : t.Protected sources := by
  induction moves with
  | refl => exact prot
  | tail _ move ih => exact ih.move move keepsActive keepsHeld

/-- The entry a delivery drains: what is left of the delivered sources comes first. -/
structure Front (s : State) (id : ElisionId) (delivered : List RunId) : Prop where
  known : id < s.nextElision
  sources : ∀ source ∈ delivered, source < s.nextRun
  split : ∀ entry ∈ s.summaryElisions, entry.id = id → ∃ older newer,
    entry.sources = older ++ newer ∧ older ⊆ delivered ∧ ∀ source ∈ newer, source ∉ delivered

theorem Front.move {id : ElisionId} {delivered : List RunId} (front : s.Front id delivered)
    (move : Move norm allowed added s t) : t.Front id delivered := by
  obtain ⟨nextRun, nextElision, -, -, -⟩ := move.frame
  refine ⟨Nat.lt_of_lt_of_le front.known nextElision,
    fun source mem => Nat.lt_of_lt_of_le (front.sources source mem) nextRun, ?_⟩
  intro entry mem same
  rcases move.entry mem with ⟨old, known, kept⟩ | ⟨item, -, line, -, extended⟩
  · obtain ⟨older, newer, sources, first, last⟩ := front.split old known (kept.id ▸ same)
    obtain ⟨keep, remaining⟩ := kept.sources
    refine ⟨older.filter keep, newer.filter keep, ?_, ?_, fun source inNewer => ?_⟩
    · rw [remaining, sources, List.filter_append]
    · exact List.Subset.trans (List.filter_sublist.subset) first
    · exact last source (List.mem_filter.mp inNewer).1
  · rcases extended with ⟨old, known, -, rfl⟩ | rfl
    · obtain ⟨older, newer, sources, first, last⟩ := front.split old known same
      refine ⟨older, newer ++ [s.nextRun], ?_, first, fun source inNewer => ?_⟩
      · rw [← List.append_assoc, ← sources]
        rfl
      · cases List.mem_append.mp inNewer with
        | inl before => exact last source before
        | inr new =>
            rw [List.mem_singleton.mp new]
            exact fun now => Nat.lt_irrefl _ (front.sources _ now)
    · exact absurd same (Nat.ne_of_gt front.known)

theorem Front.moves {id : ElisionId} {delivered : List RunId} (front : s.Front id delivered)
    (moves : Moves norm allowed added s t) : t.Front id delivered := by
  induction moves with
  | refl => exact front
  | tail _ move ih => exact ih.move move

theorem Shown.move {source : RunId} (shown : s.Shown source) (known : source < s.nextRun)
    (move : Move norm allowed added s t) : t.Shown source := by
  obtain ⟨sources, prompted, other, mem, otherKnown, same⟩ := shown
  obtain ⟨nextRun, -, origin, grown, -⟩ := move.frame
  exact ⟨sources, grown prompted, other, mem, Nat.lt_of_lt_of_le otherKnown nextRun, by
    rw [origin other otherKnown, origin source known, same]⟩

theorem Shown.moves {source : RunId} (shown : s.Shown source) (known : source < s.nextRun)
    (moves : Moves norm allowed added s t) : t.Shown source ∧ source < t.nextRun := by
  induction moves with
  | refl => exact ⟨shown, known⟩
  | tail _ move ih =>
      exact ⟨ih.1.move ih.2 move, Nat.lt_of_lt_of_le ih.2 move.frame.nextRun⟩

/-- Items that a drain took out for delivery but may put back. -/
structure Reserved (s : State) (items : List RunId) : Prop where
  nodup : items.Nodup
  inFlight : s.registered = true → ∀ item ∈ items, item ∈ s.inFlight ∧ s.Undropped item

theorem Reserved.move {items : List RunId} (reserved : s.Reserved items)
    (move : Move norm allowed added s t) (keepsReserved : ¬ allowed .release)
    (keepsHeld : ¬ allowed .consume) : t.Reserved items := by
  refine ⟨reserved.nodup, fun registered item mem => ?_⟩
  cases move with
  | aside ledger nodup _ active flight keys =>
      obtain ⟨before, grown⟩ := flight registered
      obtain ⟨mine, undropped⟩ := reserved.inFlight before item mem
      simp only [State.ledger, LedgerFields.mk.injEq] at ledger
      obtain ⟨-, -, -, -, -, history, nextRun, -⟩ := ledger
      rw [Undropped, history, nextRun]
      exact ⟨grown.resolve_right keepsReserved mine, undropped⟩
  | receive run execution _ =>
      cases execution <;>
      · obtain ⟨mine, known, fresh⟩ := reserved.inFlight registered item mem
        exact ⟨mine, Nat.lt_succ_of_lt known, fresh⟩
  | drop dropped kept split unreserved =>
      obtain ⟨mine, known, origin, fresh⟩ := reserved.inFlight registered item mem
      refine ⟨mine, known, origin, fun now => ?_⟩
      cases List.mem_append.mp now with
      | inl before => exact fresh before
      | inr new => exact unreserved item new mine
  | elide source line sources lines head headLine =>
      obtain ⟨-, -, -, -, -, nextRun, history⟩ := elideHead_frame s norm source line sources lines
      rw [elideHead, appendElision_eq] at registered
      obtain ⟨mine, known, origin, fresh⟩ := reserved.inFlight registered item mem
      rw [Undropped, nextRun, history]
      refine ⟨?_, Nat.lt_succ_of_lt known, ?_, fresh⟩
      · rw [elideHead, appendElision_eq]
        exact mine
      · exact (Function.update_of_ne (Nat.ne_of_lt known) ..).trans origin
  | discard keep settlement consuming => exact absurd consuming keepsHeld
  | retry source mem consuming => exact absurd consuming keepsHeld
  | clear => cases registered
  | refresh | evict | forget | build | prompt => exact reserved.inFlight registered item mem

theorem Reserved.moves {items : List RunId} (reserved : s.Reserved items)
    (moves : Moves norm allowed added s t) (keepsReserved : ¬ allowed .release)
    (keepsHeld : ¬ allowed .consume) : t.Reserved items := by
  induction moves with
  | refl => exact reserved
  | tail _ move ih => exact ih.move move keepsReserved keepsHeld

end State
end Followup
