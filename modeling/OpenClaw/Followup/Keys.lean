import OpenClaw.Followup.InFlight

/-!
Delivery contexts under moves. Only a session refresh changes the key of a run that
exists. An elided copy has the key its entry was opened with, but for the staged images
flag, which copies do not carry.
-/

namespace Followup

/-- The key of a copy of a run: the staged images flag is not copied. -/
def unprepared (key : List KeyPart) : List KeyPart := key.set 1 (.flag false)

namespace State

variable {norm : Normalizers} {allowed : Permission → Prop} {added : RunId → Prop} {s t : State}

/-- Runs have an execution record, and elided sources the key of their entry. -/
structure Keyed (norm : Normalizers) (s : State) : Prop where
  executions : ∀ id, id < s.nextRun → (s.runs id).run < s.nextExecution
  entries : ∀ entry ∈ s.summaryElisions, ∀ source ∈ entry.sources,
    s.contextKey norm source = unprepared entry.contextKey

theorem unprepared_unprepared (key : List KeyPart) : unprepared (unprepared key) = unprepared key :=
  List.set_set ..

theorem contextKey_copy (source : FollowupRun) (execution : Execution) :
    resolveFollowupDeliveryContextKey norm (createOverflowSummaryRetrySource source) execution =
      unprepared (resolveFollowupDeliveryContextKey norm source execution) := rfl

theorem contextKey_copySource {source : RunId} :
    (s.copySource source).2.contextKey norm s.nextRun = unprepared (s.contextKey norm source) := by
  rw [contextKey, contextKey, execution, execution]
  change resolveFollowupDeliveryContextKey norm (Function.update s.runs s.nextRun
    (createOverflowSummaryRetrySource (s.runs source)) s.nextRun) (s.executions
      (Function.update s.runs s.nextRun (createOverflowSummaryRetrySource (s.runs source))
        s.nextRun).run) = _
  rw [Function.update_self]
  exact contextKey_copy _ _

theorem contextKey_copySource_of_ne {source id : RunId} (known : id < s.nextRun) :
    (s.copySource source).2.contextKey norm id = s.contextKey norm id := by
  rw [contextKey, contextKey, execution, execution]
  change resolveFollowupDeliveryContextKey norm (Function.update s.runs s.nextRun
    (createOverflowSummaryRetrySource (s.runs source)) id) (s.executions
      (Function.update s.runs s.nextRun (createOverflowSummaryRetrySource (s.runs source)) id).run) = _
  rw [Function.update_of_ne (Nat.ne_of_lt known)]

theorem contextKey_receive {run : FollowupRun} {execution : ExecutionSource} {id : RunId}
    (known : id < s.nextRun) (executed : (s.runs id).run < s.nextExecution) :
    (s.receive run execution).2.contextKey norm id = s.contextKey norm id := by
  have other : ∀ new, Function.update s.runs s.nextRun new id = s.runs id := fun _ =>
    Function.update_of_ne (Nat.ne_of_lt known) ..
  cases execution with
  | new execution =>
      change resolveFollowupDeliveryContextKey norm (Function.update s.runs s.nextRun _ id)
        (Function.update s.executions s.nextExecution execution
          (Function.update s.runs s.nextRun _ id).run) = _
      rw [other, Function.update_of_ne (Nat.ne_of_lt executed)]
      rfl
  | shared shared =>
      change resolveFollowupDeliveryContextKey norm (Function.update s.runs s.nextRun _ id)
        (s.executions (Function.update s.runs s.nextRun _ id).run) = _
      rw [other]
      rfl

/-- Only a refresh changes the key of a run that exists. -/
theorem Keyed.move_keys (keyed : s.Keyed norm) (move : Move norm allowed added s t)
    (unrefreshed : ¬ allowed .refresh) {id : RunId} (known : id < s.nextRun) :
    t.contextKey norm id = s.contextKey norm id := by
  cases move with
  | aside ledger nodup items active reserved same => exact same.keys id
  | receive run execution _ => exact contextKey_receive known (keyed.executions id known)
  | refresh refresh refreshing harmless => exact absurd refreshing unrefreshed
  | elide item line sources lines head headLine =>
      rw [elideHead, appendElision_eq]
      exact contextKey_copySource_of_ne
        (s := { s with summarySources := sources, summaryLines := lines }) known
  | retry source mem consuming =>
      rw [releaseForRetry_of_mem mem]
      exact contextKey_copySource_of_ne known
  | drop | evict | discard | forget | clear | build | prompt => rfl

theorem executions_copySource (executions : ∀ id, id < s.nextRun → (s.runs id).run < s.nextExecution)
    {source id : RunId} (sourceKnown : source < s.nextRun) (known : id < s.nextRun + 1) :
    ((s.copySource source).2.runs id).run < s.nextExecution := by
  change (Function.update s.runs s.nextRun (createOverflowSummaryRetrySource (s.runs source))
    id).run < _
  by_cases new : id = s.nextRun
  · rw [new, Function.update_self]
    exact executions source sourceKnown
  · rw [Function.update_of_ne new]
    exact executions id (Nat.lt_of_le_of_ne (Nat.le_of_lt_succ known) new)

theorem Move.executions (sound : s.Sound) (move : Move norm allowed added s t)
    (executions : ∀ id, id < s.nextRun → (s.runs id).run < s.nextExecution) :
    ∀ id, id < t.nextRun → (t.runs id).run < t.nextExecution := by
  intro id known
  have heldKnown : ∀ source ∈ s.summarySources, source < s.nextRun := fun source mem =>
    (sound.custody.held source (List.mem_append_left _ mem)).1
  cases move with
  | aside ledger nodup items active reserved same =>
      have nextRun : t.nextRun = s.nextRun := congrArg LedgerFields.nextRun ledger
      rw [same.runs, same.nextExecution]
      exact executions id (nextRun ▸ known)
  | receive run execution valid =>
      have old : id ≠ s.nextRun → id < s.nextRun := fun different => by
        refine Nat.lt_of_le_of_ne (Nat.le_of_lt_succ ?_) different
        cases execution <;> exact known
      by_cases new : id = s.nextRun
      · cases execution with
        | new execution =>
            change (Function.update s.runs s.nextRun _ id).run < s.nextExecution + 1
            rw [new, Function.update_self]
            exact Nat.lt_succ_self _
        | shared shared =>
            change (Function.update s.runs s.nextRun _ id).run < s.nextExecution
            rw [new, Function.update_self]
            exact valid shared rfl
      · have before := executions id (old new)
        cases execution with
        | new execution =>
            change (Function.update s.runs s.nextRun _ id).run < s.nextExecution + 1
            rw [Function.update_of_ne new]
            exact Nat.lt_succ_of_lt before
        | shared shared =>
            change (Function.update s.runs s.nextRun _ id).run < s.nextExecution
            rw [Function.update_of_ne new]
            exact before
  | elide item line sources lines head headLine =>
      have frame := (elideHead_frame s norm item line sources lines).2.2.2.2.2.1
      rw [frame] at known
      rw [elideHead, appendElision_eq]
      exact executions_copySource executions (heldKnown item (head ▸ List.mem_cons_self)) known
  | retry source mem consuming =>
      rw [releaseForRetry_of_mem mem] at known ⊢
      exact executions_copySource executions (heldKnown source mem) known
  | refresh | drop | evict | discard | forget | clear | build | prompt => exact executions id known

/-- Of what the key reads, a refresh rewrites the provider and the model only. -/
theorem key_rewriteRun (refresh : SessionRefresh) (run : FollowupRun) (execution : Execution) :
    resolveFollowupDeliveryContextKey norm run (rewriteRun refresh execution) =
      resolveFollowupDeliveryContextKey norm run { execution with
        provider := (rewriteRun refresh execution).provider
        model := (rewriteRun refresh execution).model } := by
  rw [rewriteRun]
  split
  · dsimp only
    split <;> rfl
  · rfl

theorem contextKey_refresh {refresh : SessionRefresh} {id : RunId}
    (provider : (rewriteRun refresh (s.execution id)).provider = (s.execution id).provider)
    (model : (rewriteRun refresh (s.execution id)).model = (s.execution id).model) :
    (s.refreshQueuedFollowupSession refresh).contextKey norm id = s.contextKey norm id := by
  have after : (s.refreshQueuedFollowupSession refresh).execution id =
      if (s.runs id).run ∈ s.refreshed then rewriteRun refresh (s.execution id)
      else s.execution id := rfl
  rw [contextKey, contextKey, after]
  split
  · exact (key_rewriteRun refresh (s.runs id) (s.execution id)).trans (by rw [provider, model])
  · rfl

section Elided

variable (sound : s.Sound) (keyed : s.Keyed norm) (harmless : ¬ allowed .reroute)
include sound keyed harmless

/-- Elided sources keep their key unless a refresh reroutes them. -/
theorem Keyed.move_elided (move : Move norm allowed added s t) {source : RunId}
    (elided : source ∈ s.elided) : t.contextKey norm source = s.contextKey norm source := by
  have known := (sound.custody.held source (List.mem_append_right _ elided)).1
  cases move with
  | refresh refresh refreshing routes =>
      obtain ⟨provider, model⟩ := routes.resolve_right harmless source elided
      exact contextKey_refresh provider model
  | aside ledger nodup items active reserved same => exact same.keys source
  | receive run execution _ => exact contextKey_receive known (keyed.executions source known)
  | elide item line sources lines head headLine =>
      rw [elideHead, appendElision_eq]
      exact contextKey_copySource_of_ne
        (s := { s with summarySources := sources, summaryLines := lines }) known
  | retry source mem consuming =>
      rw [releaseForRetry_of_mem mem]
      exact contextKey_copySource_of_ne known
  | drop | evict | discard | forget | clear | build | prompt => rfl

theorem Keyed.move (move : Move norm allowed added s t) : t.Keyed norm := by
  refine ⟨move.executions sound keyed.executions, fun entry mem source inSources => ?_⟩
  have kept_key : ∀ old ∈ s.summaryElisions, source ∈ old.sources →
      t.contextKey norm source = unprepared old.contextKey := by
    intro old known here
    have elided : source ∈ s.elided := List.mem_flatMap.mpr ⟨old, known, here⟩
    rw [keyed.move_elided sound harmless move elided, keyed.entries old known source here]
  rcases move.entry mem with ⟨old, known, kept⟩ | ⟨item, -, line, ⟨rest, lines, elides⟩, extended⟩
  · obtain ⟨keep, sources⟩ := kept.sources
    rw [kept.contextKey]
    exact kept_key old known (List.mem_filter.mp (sources ▸ inSources)).1
  · have new_key : t.contextKey norm s.nextRun = unprepared (s.contextKey norm item) := by
      rw [elides, elideHead, appendElision_eq]
      exact contextKey_copySource (s := { s with summarySources := rest, summaryLines := lines })
    rcases extended with ⟨old, known, same, rfl⟩ | rfl
    · cases List.mem_append.mp inSources with
      | inl before => exact kept_key old known before
      | inr new =>
          rw [List.mem_singleton.mp new, new_key]
          exact congrArg unprepared same.symm
    · rw [List.mem_singleton.mp inSources]
      exact new_key

theorem Keyed.moves (moves : Moves norm allowed added s t) : t.Keyed norm := by
  induction moves with
  | refl => exact keyed
  | tail before move ih => exact ih.move (sound.moves before) harmless move

end Elided

end State
end Followup
