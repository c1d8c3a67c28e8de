import OpenClaw.Followup.Moves

/-!
Enqueueing is a chain of moves: trimming evicts inactive elided sources one by one, and
the drop policy drops items and then elides the oldest retained sources one by one.
-/

namespace Followup
namespace State

variable {norm : Normalizers} {allowed : Permission → Prop} {added : RunId → Prop} {s t : State}

theorem evictOne_spec {active : Finset RunId} {entries rest : List Elision} {source : RunId}
    (formed : ∀ entry ∈ entries, entry.Formed) (nodup : (entries.flatMap (·.sources)).Nodup)
    (found : evictOne active entries = some (source, rest)) :
    source ∈ entries.flatMap (·.sources) ∧ source ∉ active ∧
      rest = keepEntries (· ≠ source) entries := by
  induction entries generalizing rest with
  | nil => cases found
  | cons entry entries ih =>
      obtain ⟨headNodup, tailNodup, disjoint⟩ := List.nodup_append.mp (List.flatMap_cons ▸ nodup)
      rw [evictOne] at found
      split at found
      case h_1 =>
        obtain ⟨⟨other, tail⟩, inTail, same⟩ := Option.map_eq_some_iff.mp found
        obtain ⟨rfl, rfl⟩ := Prod.mk.inj same
        obtain ⟨mem, inactive, result⟩ := ih
          (fun other known => formed other (List.mem_cons_of_mem _ known)) tailNodup inTail
        have notHead : other ∉ entry.sources := fun here => disjoint other here other mem rfl
        rw [keepEntries_ne_tail (formed entry List.mem_cons_self) notHead, ← result]
        exact ⟨List.mem_flatMap.mpr ((List.mem_flatMap.mp mem).imp fun _ known =>
          ⟨List.mem_cons_of_mem _ known.1, known.2⟩), inactive, rfl⟩
      case h_2 index atIndex =>
        obtain ⟨below, inactive, -⟩ := List.findIdx?_eq_some_iff_getElem.mp atIndex
        obtain ⟨same, rfl⟩ := Prod.mk.inj (Option.some.inj found)
        have here : entry.sources[index] = source := by
          rw [← same, List.getD_eq_getElem _ _ below]
        have mem : source ∈ entry.sources := here ▸ List.getElem_mem below
        have position : entry.sources.idxOf source = index := by
          rw [← here]
          exact headNodup.idxOf_getElem index below
        refine ⟨List.mem_flatMap.mpr ⟨entry, List.mem_cons_self, mem⟩, ?_, ?_⟩
        · rw [← here]
          simpa using inactive
        · rw [keepEntries_ne_head formed nodup mem, position]
          rfl

theorem Sound.elided_nodup (sound : s.Sound) : s.elided.Nodup :=
  (List.nodup_append.mp sound.custody.held_nodup).2.1

theorem discardEvicted_eq (sound : s.Sound) {source : RunId} (mem : source ∈ s.elided) :
    s.discardEvicted source = ({ s with
      summaryElisions := keepEntries (· ≠ source) s.summaryElisions
      evictedSummaryCount := s.evictedSummaryCount + 1 }.settle source .evicted) := by
  rw [discardEvicted, discard_elided sound.custody sound.accounted mem]
  rfl

theorem Moves.evict (sound : s.Sound) (n : Nat) : Moves norm allowed added s (s.evict n) := by
  induction n generalizing s with
  | zero => exact .refl
  | succ n ih =>
      rw [State.evict]
      split
      case h_1 => exact .refl
      case h_2 source entries found =>
        obtain ⟨mem, inactive, same⟩ :=
          evictOne_spec sound.accounted.formed sound.elided_nodup found
        have move : Move norm allowed added s (s.discardEvicted source) :=
          .evict source mem inactive
        have next := sound.move move
        rw [discardEvicted_eq sound mem, ← same] at move next
        exact .head move (ih next)

theorem Moves.trim (sound : s.Sound) : Moves norm allowed added s s.trimSummaryElisionsToCap := by
  rw [trimSummaryElisionsToCap]
  split
  · exact Moves.evict sound _
  · exact .refl

/-- A change outside of the ledger that keeps the items. -/
theorem Moves.settings (sound : s.Sound) {t : State} (ledger : t.ledger = s.ledger)
    (items : t.items = s.items) (active : t.activeSummarySources = s.activeSummarySources)
    (registered : t.registered = s.registered) (inFlight : t.inFlight = s.inFlight)
    (keys : s.SameRuns norm t) : Moves norm allowed added s t :=
  .single (.aside ledger (items ▸ sound.custody.items_nodup) (fun _ mem => .inl (items ▸ mem))
    (.inl active.ge) (fun now => ⟨registered ▸ now, .inl inFlight.ge⟩) keys)

theorem Moves.getQueue (sound : s.Sound) (settings : QueueSettings) :
    Moves norm allowed added s (s.getFollowupQueue settings) := by
  have applied : Moves norm allowed added s (s.applyQueueRuntimeSettings settings) :=
    Moves.settings sound rfl rfl rfl rfl rfl ⟨fun _ => rfl, fun _ => rfl, rfl⟩
  exact applied.trans (Moves.trim (sound.moves applied))

theorem evict_none (nothing : evictOne s.activeSummarySources s.summaryElisions = none) (n : Nat) :
    s.evict (n + 1) = s := by
  rw [State.evict, nothing]

theorem evict_some {source : RunId} {entries : List Elision}
    (found : evictOne s.activeSummarySources s.summaryElisions = some (source, entries)) (n : Nat) :
    s.evict (n + 1) = (({ s with
      summaryElisions := entries
      evictedSummaryCount := s.evictedSummaryCount + 1 } : State).settle source .evicted).evict n := by
  rw [State.evict, found]

section Elide

variable {item : RunId} {line : String} {sources : List RunId} {lines : List String}

/-- The retained sources and lines, replaced. -/
def withRetained (s : State) (sources : List RunId) (lines : List String) : State :=
  { s with summarySources := sources, summaryLines := lines }

theorem evict_withRetained (n : Nat) :
    (s.withRetained sources lines).evict n = (s.evict n).withRetained sources lines := by
  induction n generalizing s with
  | zero => rfl
  | succ n ih =>
      cases found : evictOne s.activeSummarySources s.summaryElisions with
      | none =>
          rw [evict_none found]
          exact evict_none (s := s.withRetained sources lines) found n
      | some result =>
          rw [evict_some found, ← ih]
          exact evict_some (s := s.withRetained sources lines) found n

theorem trim_withRetained : (s.withRetained sources lines).trimSummaryElisionsToCap =
    s.trimSummaryElisionsToCap.withRetained sources lines := by
  cases cap : s.cap with
  | fin limit =>
      have plain : s.trimSummaryElisionsToCap = s.evict (s.inactiveElided - limit) := by
        rw [trimSummaryElisionsToCap, cap]
      have replaced : (s.withRetained sources lines).trimSummaryElisionsToCap =
          (s.withRetained sources lines).evict (s.inactiveElided - limit) := by
        rw [trimSummaryElisionsToCap, show (s.withRetained sources lines).cap = .fin limit from cap]
        rfl
      rw [plain, replaced, evict_withRetained]
  | inf =>
      rw [trimSummaryElisionsToCap, trimSummaryElisionsToCap, cap,
        show (s.withRetained sources lines).cap = .inf from cap]
  | nan =>
      rw [trimSummaryElisionsToCap, trimSummaryElisionsToCap, cap,
        show (s.withRetained sources lines).cap = .nan from cap]

/-- The entries after an elision, and the next entry's id. -/
def extendedElisions (norm : Normalizers) (s : State) (item : RunId) (line : String) :
    List Elision × ElisionId :=
  let opened := (s.summaryElisions ++ [s.newElision (s.contextKey norm item) item s.nextRun line],
    s.nextElision + 1)
  match s.summaryElisions.getLast? with
  | some entry =>
      if entry.contextKey = s.contextKey norm item then
        (s.summaryElisions.dropLast ++ [entry.append item s.nextRun line], s.nextElision)
      else opened
  | none => opened

theorem appendElision_eq : s.appendElision norm item line = { (s.copySource item).2 with
    summaryElisions := (s.extendedElisions norm item line).1
    nextElision := (s.extendedElisions norm item line).2
    activeSummarySources := if item ∈ s.activeSummarySources then
      insert s.nextRun s.activeSummarySources else s.activeSummarySources } := by
  have elisions : (s.copySource item).2.summaryElisions = s.summaryElisions := rfl
  simp only [appendElision, markActiveLike, extendedElisions, elisions]
  cases s.summaryElisions.getLast? with
  | none => by_cases active : item ∈ s.activeSummarySources <;> simp [copySource, allocate, active] <;> rfl
  | some entry =>
      by_cases same : entry.contextKey = s.contextKey norm item <;>
        by_cases active : item ∈ s.activeSummarySources <;>
        simp [copySource, allocate, active, same] <;> rfl

theorem appendElision_withRetained :
    (s.withRetained sources lines).appendElision norm item line =
      (s.appendElision norm item line).withRetained sources lines := by
  rw [appendElision_eq, appendElision_eq]
  rfl

theorem elideSource_withRetained :
    (s.withRetained sources lines).elideSource norm item line =
      (s.elideSource norm item line).withRetained sources lines := by
  rw [elideSource, appendElision_withRetained, trim_withRetained]
  rfl

theorem Moves.elideSource (sound : s.Sound) (head : s.summarySources = item :: sources)
    (headLine : s.summaryLines = line :: lines) : Moves norm allowed added s
      ((s.withRetained sources lines).elideSource norm item line) := by
  have move : Move norm allowed added s (s.elideHead norm item line sources lines) :=
    .elide item line sources lines head headLine
  exact .head move (Moves.trim (sound.move move))

/-- Eliding the oldest retained sources one by one. -/
theorem Moves.elideEach (sound : s.Sound) {removed : List RunId} {removedLines : List String}
    (aligned : removedLines.length = removed.length)
    (before : s.summarySources = removed ++ sources)
    (beforeLines : s.summaryLines = removedLines ++ lines) :
    Moves norm allowed added s ((removed.zip removedLines).foldl
      (fun s pair => s.elideSource norm pair.1 pair.2) (s.withRetained sources lines)) := by
  induction removed generalizing s removedLines with
  | nil =>
      cases removedLines with
      | nil =>
          have same : s.withRetained sources lines = s := by
            rw [withRetained, ← List.nil_append sources, ← before, ← List.nil_append lines,
              ← beforeLines]
          rw [same]
          exact .refl
      | cons => simp at aligned
  | cons item removed ih =>
      cases removedLines with
      | nil => simp at aligned
      | cons line removedLines =>
          have first : Moves norm allowed added s
              ((s.withRetained (removed ++ sources) (removedLines ++ lines)).elideSource norm item
                line) := Moves.elideSource sound before beforeLines
          have next := sound.moves first
          rw [elideSource_withRetained] at first next
          have rest := ih next (by simpa using aligned) rfl rfl
          refine first.trans ?_
          rw [List.zip_cons_cons, List.foldl_cons, elideSource_withRetained]
          exact rest

end Elide

theorem elideSources_nil (sound : s.Sound) : s.elideSources norm [] = s := by
  have none : s.summarySources.length - s.summaryLines.length = 0 := by
    rw [sound.accounted.aligned, Nat.sub_self]
  simp [State.elideSources, none]

theorem Moves.elideSources (sound : s.Sound) :
    Moves norm allowed added s (s.elideLines.2.elideSources norm s.elideLines.1) := by
  rw [elideLines]
  split
  case h_1 limit cap =>
    have aligned := sound.accounted.aligned
    have overflow : s.summarySources.length - (s.summaryLines.drop
        (s.summaryLines.length - limit)).length = s.summaryLines.length - limit := by
      rw [List.length_drop]
      omega
    simp only [State.elideSources, overflow]
    refine Moves.elideEach sound ?_ (List.take_append_drop _ _).symm (List.take_append_drop _ _).symm
    rw [List.length_take, List.length_take, aligned]
  case h_2 =>
    exact (elideSources_nil sound).symm ▸ .refl

section Drop

variable {p : RunId → Bool}

theorem takeVictims_perm (n : Nat) (items : List RunId) :
    ((takeVictims p n items).1 ++ (takeVictims p n items).2).Perm items := by
  induction items generalizing n with
  | nil => cases n <;> exact .refl _
  | cons item items ih =>
      cases n with
      | zero => exact .refl _
      | succ n =>
          rw [takeVictims]
          split
          · exact (ih n).cons item
          · exact List.perm_middle.trans ((ih (n + 1)).cons item)

theorem of_mem_takeVictims {n : Nat} {items : List RunId} {item : RunId}
    (mem : item ∈ (takeVictims p n items).1) : p item = true := by
  induction items generalizing n with
  | nil => cases n <;> cases mem
  | cons head items ih =>
      cases n with
      | zero => cases mem
      | succ n =>
          rw [takeVictims] at mem
          split at mem
          case isTrue victim =>
            cases List.mem_cons.mp mem with
            | inl same => exact same ▸ victim
            | inr later => exact ih later
          case isFalse => exact ih mem

/-- What the drop policy can do: nothing, take items away, or move them to the summary. -/
theorem applyQueueDropPolicy_cases :
    (∃ shouldEnqueue, s.applyQueueDropPolicy = (shouldEnqueue, [], s)) ∨
    ∃ dropped kept, (dropped ++ kept).Perm s.items ∧ (∀ item ∈ dropped, item ∉ s.inFlight) ∧
      (s.dropPolicy ≠ .summarize ∧ s.applyQueueDropPolicy = (true, [], { s with items := kept }) ∨
        s.dropPolicy = .summarize ∧
          s.applyQueueDropPolicy = (true, (s.dropItems dropped kept).elideLines)) := by
  rw [applyQueueDropPolicy]
  split
  case h_1 cap _ =>
    dsimp only
    split
    · exact .inl ⟨_, rfl⟩
    · split
      · exact .inl ⟨_, rfl⟩
      · split
        · exact .inl ⟨_, rfl⟩
        · refine .inr ⟨_, _, takeVictims_perm (p := s.isVictim) (s.countPendingQueueItems - cap + 1)
            s.items, fun item mem => ?_, ?_⟩
          · have victim := of_mem_takeVictims mem
            simp only [isVictim, Bool.and_eq_true, decide_eq_true_eq] at victim
            exact victim.1
          · split
            case isTrue summarizes => exact .inr ⟨summarizes, rfl⟩
            case isFalse otherwise => exact .inl ⟨otherwise, rfl⟩
  case h_2 => exact .inl ⟨_, rfl⟩

end Drop

/-- The state after the drop policy and the elision of the sources that lost their line. -/
def applyOverflowPolicy (norm : Normalizers) (s : State) : State :=
  if s.applyQueueDropPolicy.2.2.dropPolicy = .summarize then
    s.applyQueueDropPolicy.2.2.elideSources norm s.applyQueueDropPolicy.2.1
  else s.applyQueueDropPolicy.2.2

theorem elideLines_dropPolicy : s.elideLines.2.dropPolicy = s.dropPolicy := by
  rw [elideLines]
  split <;> rfl

theorem Moves.overflow (sound : s.Sound) :
    Moves norm allowed added s (s.applyOverflowPolicy norm) := by
  rcases applyQueueDropPolicy_cases (s := s) with ⟨shouldEnqueue, result⟩ |
    ⟨dropped, kept, split, unreserved, ⟨otherwise, result⟩ | ⟨summarizes, result⟩⟩
  · have same : s.applyOverflowPolicy norm = s := by
      rw [applyOverflowPolicy, result, elideSources_nil sound, ite_self]
    exact same.symm ▸ .refl
  · rw [applyOverflowPolicy, result, if_neg otherwise]
    refine .single (.aside rfl ?_ (fun item mem => .inl ?_) (.inl subset_rfl)
      (fun now => ⟨now, .inl subset_rfl⟩) ⟨fun _ => rfl, fun _ => rfl, rfl⟩)
    · exact (List.nodup_append.mp (split.nodup_iff.mpr sound.custody.items_nodup)).2.1
    · exact split.subset (List.mem_append_right _ mem)
  · have first : Move norm allowed added s (s.dropItems dropped kept) :=
      .drop dropped kept split unreserved
    have summarizing : (s.dropItems dropped kept).elideLines.2.dropPolicy = .summarize :=
      elideLines_dropPolicy.trans summarizes
    rw [applyOverflowPolicy, result]
    dsimp only
    rw [if_pos summarizing]
    exact .head first (Moves.elideSources (sound.move first))

section Enqueue

variable {id : RunId}

theorem SameRuns.setRun {run : FollowupRun} (same : run.run = (s.runs id).run)
    (key : ∀ execution, resolveFollowupDeliveryContextKey norm run execution =
      resolveFollowupDeliveryContextKey norm (s.runs id) execution) :
    s.SameRuns norm (s.setRun id run) := by
  refine ⟨fun other => ?_, fun other => ?_, rfl⟩
  · by_cases here : other = id
    · subst here
      rw [contextKey, contextKey, execution, execution]
      simp only [State.setRun, Function.update_self]
      rw [same, key]
    · rw [contextKey, contextKey, execution, execution]
      simp only [State.setRun, Function.update_of_ne here]
  · by_cases here : other = id
    · subst here
      simpa only [State.setRun, Function.update_self] using same
    · simp only [State.setRun, Function.update_of_ne here]

/-- A change of fields of a run that its key does not read. -/
theorem Moves.setRun (sound : s.Sound) {run : FollowupRun} (same : run.run = (s.runs id).run)
    (key : ∀ execution, resolveFollowupDeliveryContextKey norm run execution =
      resolveFollowupDeliveryContextKey norm (s.runs id) execution) :
    Moves norm allowed added s (s.setRun id run) :=
  Moves.settings sound rfl rfl rfl rfl rfl (.setRun same key)

theorem Moves.appendQueueItem (sound : s.Sound) (undropped : s.Undropped id) (notMem : id ∉ s.items)
    (front : Bool) : Moves norm allowed (· = id) s (s.appendQueueItem id front) := by
  have flagged : Moves norm allowed (· = id) s
      (s.setRun id { s.runs id with queueAbortSignal := some .queue }) :=
    Moves.setRun sound rfl fun _ => rfl
  have nodup := List.nodup_cons.mpr ⟨notMem, sound.custody.items_nodup⟩
  refine flagged.tail (.aside rfl ?_ (fun item mem => ?_) (.inl subset_rfl)
    (fun now => ⟨now, .inl subset_rfl⟩) ⟨fun _ => rfl, fun _ => rfl, rfl⟩)
  · cases front with
    | true => exact nodup
    | false => exact (List.perm_append_singleton id s.items).nodup_iff.mpr nodup
  · have cases_mem : item = id ∨ item ∈ s.items := by
      cases front with
      | true => exact List.mem_cons.mp mem
      | false => exact List.mem_cons.mp ((List.perm_append_singleton id s.items).mem_iff.mp mem)
    exact cases_mem.symm.imp_right fun same => ⟨same, same ▸ undropped⟩

theorem Moves.enqueueFollowupRun (sound : s.Sound) (undropped : s.Undropped id)
    (notMem : id ∉ s.items) (options : EnqueueOptions) :
    Moves norm allowed (· = id) s (s.enqueueFollowupRun norm id options).2 := by
  have lift : ∀ {t : State}, Moves norm allowed (fun _ => False) s t →
      Moves norm allowed (· = id) s t := fun moves => moves.mono (fun _ given => given) fun _ => False.elim
  -- The run can be appended wherever it was not added before.
  have append : ∀ {t : State} (front : Bool), Moves norm allowed (fun _ => False) s t →
      Moves norm allowed (· = id) s (t.appendQueueItem id front) := by
    intro t front moves
    obtain ⟨still, outside⟩ := undropped.moves notMem not_false moves
    exact (lift moves).trans (Moves.appendQueueItem (sound.moves moves) still outside front)
  rw [State.enqueueFollowupRun]
  split
  · exact .refl
  · have flagged : Moves norm allowed (fun _ => False) s (s.setRun id { s.runs id with
        protectFromQueueOverflow := (s.runs id).protectFromQueueOverflow || options.front
        steerAnchor := (s.runs id).steerAnchor || options.steerCandidate }) :=
      Moves.setRun sound rfl fun _ => rfl
    dsimp only
    split
    · exact lift flagged
    · have queued := flagged.trans (Moves.getQueue (sound.moves flagged) options.settings)
      generalize (s.setRun id _).getFollowupQueue options.settings = t at queued ⊢
      split
      · exact lift queued
      · split
        · split
          · exact lift queued
          · exact append options.front (queued.trans
              (Moves.setRun (sound.moves queued) rfl fun _ => rfl))
        · split
          · split
            · exact lift queued
            · exact append false queued
          · split
            · exact lift queued
            · split
              · exact lift queued
              · have room := queued.trans (Moves.overflow (sound.moves queued))
                split
                · exact append options.front room
                · exact lift room

end Enqueue

/-- Enqueueing runs one by one; the runs still to come stay outside of the items. -/
theorem Moves.enqueueAll (sound : s.Sound) {runs : List RunId} (nodup : runs.Nodup)
    (outside : ∀ id ∈ runs, s.Undropped id ∧ id ∉ s.items) (options : EnqueueOptions) :
    Moves norm allowed (· ∈ runs) s
      (runs.foldl (fun s item => (s.enqueueFollowupRun norm item options).2) s) := by
  induction runs generalizing s with
  | nil => exact .refl
  | cons id runs ih =>
      obtain ⟨notMem, tailNodup⟩ := List.nodup_cons.mp nodup
      obtain ⟨undropped, notItem⟩ := outside id List.mem_cons_self
      have first : Moves norm allowed (· = id) s (s.enqueueFollowupRun norm id options).2 :=
        Moves.enqueueFollowupRun sound undropped notItem options
      have rest := ih (sound.moves first) tailNodup fun other mem =>
        (outside other (List.mem_cons_of_mem _ mem)).1.moves
          (outside other (List.mem_cons_of_mem _ mem)).2 (fun same : other = id => notMem (same ▸ mem)) first
      exact (first.mono (fun _ given => given) fun _ same => by rw [same]; exact List.mem_cons_self).trans
        (rest.mono (fun _ given => given) fun _ mem => List.mem_cons_of_mem _ mem)

/-- Items may be taken away without a trace. -/
theorem Moves.dropQuietly (sound : s.Sound) {kept : List RunId} (sublist : kept.Sublist s.items) :
    Moves norm allowed added s { s with items := kept } :=
  .single (.aside rfl (sublist.nodup sound.custody.items_nodup)
    (fun _ mem => .inl (sublist.subset mem)) (.inl subset_rfl) (fun now => ⟨now, .inl subset_rfl⟩)
    ⟨fun _ => rfl, fun _ => rfl, rfl⟩)

theorem Moves.reapplyDeferredOverflow (sound : s.Sound) :
    Moves norm allowed (· ∈ s.items) s (s.reapplyDeferredOverflow norm) := by
  rw [State.reapplyDeferredOverflow]
  split
  · exact .refl
  · dsimp only
    generalize (s.items.reverse.dropWhile fun item => !(s.runs item).steerAnchor).length = anchored
    split
    · exact .refl
    · have kept : Moves norm allowed (· ∈ s.items) s { s with items := s.items.take anchored } :=
        Moves.dropQuietly sound (List.take_sublist anchored s.items)
      obtain ⟨-, suffixNodup, disjoint⟩ := List.nodup_append.mp
        ((List.take_append_drop anchored s.items).symm ▸ sound.custody.items_nodup)
      have outside : ∀ id ∈ s.items.drop anchored, State.Undropped
          { s with items := s.items.take anchored } id ∧ id ∉ s.items.take anchored :=
        fun id mem => ⟨sound.custody.items id (List.mem_of_mem_drop mem),
          fun here => disjoint id here id mem rfl⟩
      generalize EnqueueOptions.mk _ _ _ _ _ _ = options
      have again := kept.trans ((Moves.enqueueAll (sound.moves kept) suffixNodup outside options).mono
        (fun _ given => given) fun _ mem => List.mem_of_mem_drop mem)
      exact again.trans (Moves.settings (sound.moves again) rfl rfl rfl rfl rfl ⟨fun _ => rfl, fun _ => rfl, rfl⟩)

theorem Moves.settleSteer (sound : s.Sound) (item : RunId) (accepted : Bool) :
    Moves norm allowed (· ∈ s.items) s (s.settleParkedSteerAcceptance norm item accepted) := by
  rw [State.settleParkedSteerAcceptance]
  split
  · exact .refl
  · have settled : Moves norm allowed (· ∈ s.items) s
        (s.setRun item { s.runs item with steerPending := false }) :=
      Moves.setRun sound rfl fun _ => rfl
    exact settled.trans (Moves.reapplyDeferredOverflow (sound.moves settled))

theorem Moves.consumeSteer (sound : s.Sound) (item : RunId) :
    Moves norm allowed (· ∈ s.items) s (s.consumeParkedFollowupRun norm item) := by
  rw [State.consumeParkedFollowupRun]
  split
  · exact .refl
  · have taken : Moves norm allowed (· ∈ s.items) s { s with items := s.items.erase item } :=
      Moves.dropQuietly sound List.erase_sublist
    have settled : Moves norm allowed (· ∈ s.items) s
        (({ s with items := s.items.erase item } : State).setRun item { s.runs item with
          steerPending := false
          protectFromQueueOverflow := false
          steerAnchor := false }) :=
      taken.trans (Moves.setRun (sound.moves taken) rfl fun _ => rfl)
    exact settled.trans ((Moves.reapplyDeferredOverflow (sound.moves settled)).mono
      (fun _ given => given) fun _ mem => List.erase_subset mem)

end State
end Followup
