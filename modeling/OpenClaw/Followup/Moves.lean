import OpenClaw.Followup.Custody

/-!
The kinds of change the queue operations are made of. A chain of moves names what it
may do besides keeping the ledger: release active sources, consume held ones, consume
sources no prompt has shown, reroute elided sources, or build a run from sources of
different contexts. Operations of the environment of a drain need none of these.
-/

namespace Followup

inductive Permission where
  | release
  | consume
  | swallow
  | refresh
  | reroute
  | mix
  deriving DecidableEq

namespace State

/-- The source was in the prompt of a synthetic run that was admitted or succeeded. -/
def Shown (s : State) (source : RunId) : Prop :=
  ∃ sources ∈ s.history.prompted, ∃ shown ∈ sources,
    shown < s.nextRun ∧ s.history.origin shown = s.history.origin source

/-- A refresh that keeps provider and model of every elided source. -/
def KeepsElidedRoutes (s : State) (refresh : SessionRefresh) : Prop :=
  ∀ source ∈ s.elided,
    (rewriteRun refresh (s.execution source)).provider = (s.execution source).provider ∧
    (rewriteRun refresh (s.execution source)).model = (s.execution source).model

def Alike (norm : Normalizers) (s : State) (sources : List RunId) : Prop :=
  ∀ left ∈ sources, ∀ right ∈ sources, s.contextKey norm left = s.contextKey norm right

/-- Runs keep their delivery contexts and their execution records. -/
structure SameRuns (norm : Normalizers) (s t : State) : Prop where
  keys : ∀ id, t.contextKey norm id = s.contextKey norm id
  runs : ∀ id, (t.runs id).run = (s.runs id).run
  nextExecution : t.nextExecution = s.nextExecution

/-- One move. Only the runs in `added` may become items. -/
inductive Move (norm : Normalizers) (allowed : Permission → Prop) (added : RunId → Prop)
    (s : State) : State → Prop
  | aside {t : State} (ledger : t.ledger = s.ledger) (nodup : t.items.Nodup)
      (items : ∀ item ∈ t.items, item ∈ s.items ∨ added item ∧ s.Undropped item)
      (active : s.activeSummarySources ⊆ t.activeSummarySources ∨ allowed .release)
      (reserved : t.registered = true → s.registered = true ∧
        (s.inFlight ⊆ t.inFlight ∨ allowed .release))
      (keys : s.SameRuns norm t) : Move norm allowed added s t
  | receive (run : FollowupRun) (execution : ExecutionSource)
      (known : ∀ id, execution = .shared id → id < s.nextExecution) :
      Move norm allowed added s (s.receive run execution).2
  | refresh (refresh : SessionRefresh) (refreshing : allowed .refresh)
      (harmless : s.KeepsElidedRoutes refresh ∨ allowed .reroute) :
      Move norm allowed added s (s.refreshQueuedFollowupSession refresh)
  | drop (dropped kept : List RunId) (split : (dropped ++ kept).Perm s.items)
      (unreserved : ∀ item ∈ dropped, item ∉ s.inFlight) :
      Move norm allowed added s (s.dropItems dropped kept)
  | elide (item : RunId) (line : String) (sources : List RunId) (lines : List String)
      (head : s.summarySources = item :: sources) (headLine : s.summaryLines = line :: lines) :
      Move norm allowed added s (s.elideHead norm item line sources lines)
  | evict (source : RunId) (mem : source ∈ s.elided) (inactive : source ∉ s.activeSummarySources) :
      Move norm allowed added s (s.discardEvicted source)
  | discard (keep : RunId → Bool) (settlement : Settlement) (consuming : allowed .consume)
      (notEvicted : settlement ≠ .evicted)
      (delivered : settlement = .delivered →
        (∀ source ∈ s.held, keep source = false → s.Shown source) ∨ allowed .swallow) :
      Move norm allowed added s (s.discardCounted keep settlement)
  | retry (source : RunId) (mem : source ∈ s.summarySources) (consuming : allowed .consume) :
      Move norm allowed added s (s.releaseForRetry source)
  | forget : Move norm allowed added s s.forgetEvicted
  | clear : Move norm allowed added s s.clearFollowupQueue
  | build (sources : List RunId) (alike : s.Alike norm sources ∨ allowed .mix) :
      Move norm allowed added s (s.recordBuilt norm sources)
  | prompt (sources : List RunId) : Move norm allowed added s (s.recordPrompted sources)

abbrev Moves (norm : Normalizers) (allowed : Permission → Prop) (added : RunId → Prop) :
    State → State → Prop :=
  Relation.ReflTransGen (Move norm allowed added)

variable {norm : Normalizers} {allowed allowed' : Permission → Prop} {added added' : RunId → Prop}
  {s t : State} {id : RunId}

theorem Move.mono (move : Move norm allowed added s t) (weaker : ∀ p, allowed p → allowed' p)
    (larger : ∀ id, added id → added' id) : Move norm allowed' added' s t := by
  cases move with
  | aside ledger nodup items active reserved keys =>
      exact .aside ledger nodup (fun item mem => (items item mem).imp_right (.imp_left (larger item)))
        (active.imp_right (weaker _)) (fun now => (reserved now).imp_right (.imp_right (weaker _)))
        keys
  | receive run execution known => exact .receive run execution known
  | refresh refresh refreshing harmless =>
      exact .refresh refresh (weaker _ refreshing) (harmless.imp_right (weaker _))
  | drop dropped kept split unreserved => exact .drop dropped kept split unreserved
  | elide item line sources lines head headLine => exact .elide item line sources lines head headLine
  | evict source mem inactive => exact .evict source mem inactive
  | discard keep settlement consuming notEvicted delivered =>
      exact .discard keep settlement (weaker _ consuming) notEvicted
        fun isDelivered => (delivered isDelivered).imp_right (weaker _)
  | retry source mem consuming => exact .retry source mem (weaker _ consuming)
  | forget => exact .forget
  | clear => exact .clear
  | build sources alike => exact .build sources (alike.imp_right (weaker _))
  | prompt sources => exact .prompt sources

theorem Moves.mono (moves : Moves norm allowed added s t) (weaker : ∀ p, allowed p → allowed' p)
    (larger : ∀ id, added id → added' id) : Moves norm allowed' added' s t := by
  induction moves with
  | refl => exact .refl
  | tail _ move ih => exact ih.tail (move.mono weaker larger)

/-- The ledger keeps its accounts and identities. -/
structure Sound (s : State) : Prop where
  custody : s.Custody
  accounted : s.Accounted

theorem Sound.move (sound : s.Sound) (move : Move norm allowed added s t) : t.Sound := by
  obtain ⟨custody, accounted⟩ := sound
  cases move with
  | aside ledger nodup items active reserved keys =>
      refine ⟨custody.of_ledger ledger nodup fun item mem => ?_, accounted.of_ledger ledger⟩
      cases items item mem with
      | inl old => exact custody.items item old
      | inr new => exact new.2
  | receive run execution known => exact ⟨custody.receive run execution, accounted.receive run execution⟩
  | refresh refresh refreshing harmless =>
      exact ⟨custody.of_ledger rfl custody.items_nodup custody.items, accounted.of_ledger rfl⟩
  | drop dropped kept split unreserved =>
      exact ⟨custody.dropItems split, accounted.dropItems custody split⟩
  | elide item line sources lines head headLine =>
      exact ⟨custody.elideHead head, accounted.elideHead head custody headLine⟩
  | evict source mem inactive =>
      have evicted := custody.discard (· ≠ source) .evicted
      exact ⟨⟨evicted.items_nodup, evicted.items, evicted.held, evicted.origins, evicted.references,
        evicted.fresh, evicted.entries_nodup, evicted.entries⟩,
        accounted.discardEvicted custody (List.mem_append_right _ mem)⟩
  | discard keep settlement consuming notEvicted delivered =>
      have discarded := custody.discard keep settlement
      exact ⟨⟨discarded.items_nodup, discarded.items, discarded.held, discarded.origins,
        discarded.references, discarded.fresh, discarded.entries_nodup, discarded.entries⟩,
        accounted.discardCounted keep settlement⟩
  | retry source mem consuming =>
      exact ⟨custody.releaseForRetry mem, accounted.releaseForRetry custody mem⟩
  | forget => exact ⟨custody.forgetEvicted, accounted.forgetEvicted⟩
  | clear => exact ⟨custody.clear, Accounted.clear⟩
  | build sources alike =>
      exact ⟨⟨custody.items_nodup, custody.items, custody.held, custody.origins, custody.references,
        custody.fresh, custody.entries_nodup, custody.entries⟩,
        ⟨accounted.lines, accounted.entries, accounted.dropped⟩⟩
  | prompt sources =>
      exact ⟨⟨custody.items_nodup, custody.items, custody.held, custody.origins, custody.references,
        custody.fresh, custody.entries_nodup, custody.entries⟩,
        ⟨accounted.lines, accounted.entries, accounted.dropped⟩⟩

theorem Sound.moves (sound : s.Sound) (moves : Moves norm allowed added s t) : t.Sound := by
  induction moves with
  | refl => exact sound
  | tail _ move ih => exact ih.move move

theorem Sound.recordBuilt (sound : s.Sound) (norm : Normalizers) (sources : List RunId) :
    (s.recordBuilt norm sources).Sound := by
  have built : Move norm (fun _ => True) (fun _ => True) s (s.recordBuilt norm sources) :=
    .build sources (.inr trivial)
  exact sound.move built

/-- A run outside the items stays undropped while it is not added. -/
theorem Undropped.move (undropped : s.Undropped id) (notMem : id ∉ s.items)
    (notAdded : ¬ added id) (move : Move norm allowed added s t) :
    t.Undropped id ∧ id ∉ t.items := by
  obtain ⟨known, origin, fresh⟩ := undropped
  have copied : ∀ value, Function.update s.history.origin s.nextRun value id = id := fun value =>
    (Function.update_of_ne (Nat.ne_of_lt known) ..).trans origin
  cases move with
  | aside ledger nodup items active reserved keys =>
      have nextRun := congrArg LedgerFields.nextRun ledger
      have history := congrArg LedgerFields.history ledger
      simp only [State.ledger] at nextRun history
      rw [Undropped, nextRun, history]
      refine ⟨⟨known, origin, fresh⟩, fun now => ?_⟩
      cases items id now with
      | inl old => exact notMem old
      | inr new => exact notAdded new.1
  | receive run execution _ =>
      cases execution <;> exact ⟨⟨Nat.lt_succ_of_lt known, origin, fresh⟩, notMem⟩
  | refresh refresh refreshing harmless => exact ⟨⟨known, origin, fresh⟩, notMem⟩
  | drop dropped kept split unreserved =>
      have notSplit : id ∉ dropped ++ kept := fun mem => notMem (split.subset mem)
      refine ⟨⟨known, origin, fun now => ?_⟩, fun now => notSplit (List.mem_append_right _ now)⟩
      cases List.mem_append.mp now with
      | inl before => exact fresh before
      | inr new => exact notSplit (List.mem_append_left _ new)
  | elide item line sources lines head headLine =>
      obtain ⟨-, -, items, -, -, nextRun, history⟩ := elideHead_frame s norm item line
        sources lines
      rw [Undropped, items, nextRun, history]
      exact ⟨⟨Nat.lt_succ_of_lt known, copied _, fresh⟩, notMem⟩
  | evict source mem inactive => exact ⟨⟨known, origin, fresh⟩, notMem⟩
  | discard keep settlement consuming notEvicted delivered => exact ⟨⟨known, origin, fresh⟩, notMem⟩
  | retry source mem consuming =>
      rw [releaseForRetry_of_mem mem]
      exact ⟨⟨Nat.lt_succ_of_lt known, copied _, fresh⟩, notMem⟩
  | forget => exact ⟨⟨known, origin, fresh⟩, notMem⟩
  | clear => exact ⟨⟨known, origin, fresh⟩, List.not_mem_nil⟩
  | build sources alike => exact ⟨⟨known, origin, fresh⟩, notMem⟩
  | prompt sources => exact ⟨⟨known, origin, fresh⟩, notMem⟩

theorem Undropped.moves (undropped : s.Undropped id) (notMem : id ∉ s.items)
    (notAdded : ¬ added id) (moves : Moves norm allowed added s t) :
    t.Undropped id ∧ id ∉ t.items := by
  induction moves with
  | refl => exact ⟨undropped, notMem⟩
  | tail _ move ih => exact ih.1.move ih.2 notAdded move

end State
end Followup
