import OpenClaw.FileMutationQueue.Queue

/-!
Every step keeps a queue sound. A new operation is the last of all its keys, a new call the last
of its scope; what a handler changes about one of them follows from what it has waited for, and
a tail goes out of the map when everyone up to it is through.
-/

namespace OpenClaw.FileMutationQueue

open KeyedTails

variable {μ κ ε τ : Type} [DecidableEq μ] [LinearOrder κ] {queue after : Queue μ κ ε τ}
  {id index : Nat} {operation : Operation κ ε τ} {call : Call μ κ ε τ}

namespace Queue

section Changes

variable {f : Operation κ ε τ → Operation κ ε τ} {g : Call μ κ ε τ → Call μ κ ε τ}

theorem Grows.modifyOperation (found : queue.operations[id]? = some operation)
    (kept : KeepsOperation operation (f operation))
    (operations : after.operations = queue.operations.modify id f)
    (calls : after.calls = queue.calls) : queue.Grows after where
  operation other held there := by
    rw [operations]
    refine ⟨_, List.getElem?_modify_eq_some.mpr ⟨held, there, rfl⟩, ?_⟩
    split
    case isTrue same =>
      subst same
      obtain rfl := Option.some.inj (found.symm.trans there)
      exact kept
    case isFalse => exact ⟨rfl, rfl, fun _ same => same⟩
  call other held there := by
    rw [calls]
    exact ⟨held, there, rfl, fun _ same => same, fun _ same => same⟩

theorem Grows.modifyCall (found : queue.calls[index]? = some call)
    (kept : KeepsCall call (g call)) (operations : after.operations = queue.operations)
    (calls : after.calls = queue.calls.modify index g) : queue.Grows after where
  operation other held there := by
    rw [operations]
    exact ⟨held, there, rfl, rfl, fun _ same => same⟩
  call other held there := by
    rw [calls]
    refine ⟨_, List.getElem?_modify_eq_some.mpr ⟨held, there, rfl⟩, ?_⟩
    split
    case isTrue same =>
      subst same
      obtain rfl := Option.some.inj (found.symm.trans there)
      exact kept
    case isFalse => exact ⟨rfl, fun _ same => same, fun _ same => same⟩

theorem map_modify_of_kept {α β : Type} {items : List α} {i : Nat} {h : α → α} {item : α}
    (found : items[i]? = some item) {p : α → β} (same : p (h item) = p item) :
    (items.modify i h).map p = items.map p := by
  refine List.ext_getElem? fun j => ?_
  rw [List.getElem?_map, List.getElem?_map, List.getElem?_modify]
  by_cases here : i = j
  · subst here
    rw [found]
    simp [same]
  · simp [here]

/-- One operation changes, and perhaps its tail goes out of the map. -/
theorem Sound.modifyOperation (sound : queue.Sound) (found : queue.operations[id]? = some operation)
    (kept : KeepsOperation operation (f operation)) (changed : queue.OperationSound id (f operation))
    (operations : after.operations = queue.operations.modify id f)
    (calls : after.calls = queue.calls) (admissions : after.keyAdmissions = queue.keyAdmissions)
    (files : Ordered after.fileMutationTails queue.entries queue.Settled)
    (uncleaned : ∀ key other, after.fileMutationTails.get? key = some other →
      queue.fileMutationTails.get? key = some other ∧
        (other = id → (f operation).cleanedUp = false)) : after.Sound := by
  have grows : queue.Grows after := .modifyOperation found kept operations calls
  have entries : after.entries = queue.entries := by
    rw [Queue.entries, operations]
    exact map_modify_of_kept found kept.waits
  have inside : ∀ {i held}, queue.operations[i]? = some held → i ≤ queue.operations.length :=
    fun there => (List.getElem?_eq_some_iff.mp there).1.le
  refine ⟨?_, ?_, fun other held there => ?_, fun other held there => ?_,
    fun key other there held here => ?_, ?_, ?_⟩
  · rw [entries]
    exact files.mono fun _ => grows.settled
  · rw [admissions, Queue.admissions, calls]
    exact sound.admissions.mono fun _ => grows.admitted
  · rw [operations] at there
    obtain ⟨old, here, rfl⟩ := List.getElem?_modify_eq_some.mp there
    split
    case isTrue same =>
      subst same
      obtain rfl := Option.some.inj (found.symm.trans here)
      exact changed.mono grows (inside here)
    case isFalse => exact (sound.operation other old here).mono grows (inside here)
  · rw [calls] at there
    exact (sound.call other held there).mono grows (List.getElem?_eq_some_iff.mp there).1.le
  · rw [operations] at here
    obtain ⟨old, here', rfl⟩ := List.getElem?_modify_eq_some.mp here
    obtain ⟨before, cleared⟩ := uncleaned key other there
    split
    case isTrue same =>
      subst same
      obtain rfl := Option.some.inj (found.symm.trans here')
      exact cleared rfl
    case isFalse => exact sound.uncleaned key other before old here'
  · rw [admissions, calls]
    exact sound.uncleared
  · rw [calls]
    exact sound.inOrder

/-- One call changes, and perhaps its admission goes out of the map. -/
theorem Sound.modifyCall (sound : queue.Sound) (found : queue.calls[index]? = some call)
    (kept : KeepsCall call (g call)) (changed : queue.CallSound index (g call))
    (operations : after.operations = queue.operations)
    (calls : after.calls = queue.calls.modify index g)
    (files : after.fileMutationTails = queue.fileMutationTails)
    (admissions : Ordered after.keyAdmissions queue.admissions queue.Admitted)
    (uncleared : ∀ scope other, after.keyAdmissions.get? scope = some other →
      queue.keyAdmissions.get? scope = some other ∧ (other = index → (g call).cleanedUp = false))
    (admitted : (g call).admission = call.admission ∨ call.admission = none ∧
      ∀ id, (g call).admission = some (.ok id) → ∀ (other : Nat) held earlier,
        queue.calls[other]? = some held → held.admission = some (.ok earlier) → earlier < id) :
    after.Sound := by
  have grows : queue.Grows after := .modifyCall found kept operations calls
  have entries : after.admissions = queue.admissions := by
    rw [Queue.admissions, calls]
    exact map_modify_of_kept found kept.waits
  have scopes : (g call).scopes = call.scopes := by rw [Call.scopes, kept.waits, Call.scopes]
  refine ⟨?_, ?_, fun other held there => ?_, fun other held there => ?_, ?_,
    fun scope other there held here => ?_, fun i j first second here there below => ?_⟩
  · rw [files, Queue.entries, operations]
    exact sound.files.mono fun _ => grows.settled
  · rw [entries]
    exact admissions.mono fun _ => grows.admitted
  · rw [operations] at there
    exact (sound.operation other held there).mono grows (List.getElem?_eq_some_iff.mp there).1.le
  · rw [calls] at there
    obtain ⟨old, here, rfl⟩ := List.getElem?_modify_eq_some.mp there
    have inside := (List.getElem?_eq_some_iff.mp here).1.le
    split
    case isTrue same =>
      subst same
      obtain rfl := Option.some.inj (found.symm.trans here)
      exact changed.mono grows inside
    case isFalse => exact (sound.call other old here).mono grows inside
  · rw [files, operations]
    exact sound.uncleaned
  · rw [calls] at here
    obtain ⟨old, here', rfl⟩ := List.getElem?_modify_eq_some.mp here
    obtain ⟨before, cleared⟩ := uncleared scope other there
    split
    case isTrue same =>
      subst same
      obtain rfl := Option.some.inj (found.symm.trans here')
      exact cleared rfl
    case isFalse => exact sound.uncleared scope other before old here'
  · rw [calls] at here there
    obtain ⟨one, here', rfl⟩ := List.getElem?_modify_eq_some.mp here
    obtain ⟨two, there', rfl⟩ := List.getElem?_modify_eq_some.mp there
    have before := sound.inOrder i j one two here' there' below
    by_cases first : index = i
    · subst first
      obtain rfl := Option.some.inj (found.symm.trans here')
      rw [if_pos rfl, if_neg below.ne, scopes]
      intro scope mine other earlier later new old
      rcases admitted with same | ⟨open_, -⟩
      · exact before scope mine other earlier later (same ▸ new) old
      · -- the later call of the scope is admitted behind this one
        have clear := (sound.call j two there').clear (by rw [old, Option.isSome_some]) scope other
        obtain ⟨_, found', some⟩ := clear index below (holds_admissions.mpr ⟨call, found, mine⟩)
        obtain rfl := Option.some.inj (found.symm.trans found')
        rw [open_] at some
        cases some
    · rw [if_neg first]
      by_cases second : index = j
      · subst second
        obtain rfl := Option.some.inj (found.symm.trans there')
        rw [if_pos rfl, scopes]
        intro scope mine other earlier later old new
        rcases admitted with same | ⟨-, above⟩
        · exact before scope mine other earlier later old (same ▸ new)
        · exact above later new i one earlier here' old
      · rw [if_neg second]
        exact before

end Changes

section Additions

variable {caller : Nat} {queueKeys : List κ}

theorem mem_keys_enqueued {key : κ} {tails : JsMap κ Nat} :
    key ∈ (behind tails (JsArray.toSorted (fun left right => left < right) queueKeys.dedup)).map
      Behind.key ↔ key ∈ queueKeys := by
  rw [map_key_behind, JsArray.mem_toSorted, List.mem_dedup]

theorem enqueue_grows : queue.Grows (queue.enqueueFileMutationQueueKeys caller queueKeys) where
  operation _ held there :=
    ⟨held, List.getElem?_concat_eq_some.mpr (.inl there), rfl, rfl, fun _ same => same⟩
  call _ held there := ⟨held, there, rfl, fun _ same => same, fun _ same => same⟩

theorem enqueue_operations : ∃ operation,
    (queue.enqueueFileMutationQueueKeys caller queueKeys).operations =
      queue.operations ++ [operation] ∧ operation.caller = caller ∧ operation.started = false ∧
        operation.result = none ∧ operation.tailSettled = false ∧ operation.cleanedUp = false ∧
          ∀ key, key ∈ operation.keys ↔ key ∈ queueKeys :=
  ⟨_, rfl, rfl, rfl, rfl, rfl, rfl, fun _ => mem_keys_enqueued⟩

theorem Sound.enqueue (sound : queue.Sound) :
    (queue.enqueueFileMutationQueueKeys caller queueKeys).Sound := by
  have grows := @enqueue_grows _ _ _ _ _ _ queue caller queueKeys
  have files := (sound.files.enter
    (JsArray.toSorted (fun left right => left < right) queueKeys.dedup)).mono fun _ => grows.settled
  rw [Queue.entries, List.length_map] at files
  refine ⟨?_, sound.admissions.mono fun _ => grows.admitted, fun other held there => ?_,
    fun other held there => ?_, fun key other there held here => ?_, sound.uncleared, sound.inOrder⟩
  · rw [Queue.entries, enqueueFileMutationQueueKeys, List.map_append, List.map_singleton]
    exact files
  · rcases List.getElem?_concat_eq_some.mp there with old | ⟨rfl, rfl⟩
    · exact (sound.operation other held old).mono grows (List.getElem?_eq_some_iff.mp old).1.le
    · exact ⟨fun no => (by cases no), fun no => (by cases no), fun no => (by cases no),
        fun no => (by cases no)⟩
  · exact (sound.call other held there).mono grows (List.getElem?_eq_some_iff.mp there).1.le
  · rcases List.getElem?_concat_eq_some.mp here with old | ⟨rfl, rfl⟩
    · refine sound.uncleaned key other ?_ held old
      rw [enqueueFileMutationQueueKeys, get?_putTail] at there
      split at there
      case isTrue =>
        have inside := (List.getElem?_eq_some_iff.mp old).1
        cases there
        exact absurd inside (Nat.lt_irrefl _)
      case isFalse => exact there
    · rfl

/-- A call is put behind the others. -/
theorem Sound.call_concat (sound : queue.Sound) (operations : after.operations = queue.operations)
    (calls : after.calls = queue.calls ++ [call])
    (files : after.fileMutationTails = queue.fileMutationTails)
    (admissions : Ordered after.keyAdmissions (queue.admissions ++ [call.waits]) queue.Admitted)
    (new : after.CallSound queue.calls.length call)
    (uncleared : ∀ scope other, after.keyAdmissions.get? scope = some other →
      queue.keyAdmissions.get? scope = some other ∨
        other = queue.calls.length ∧ call.cleanedUp = false)
    (open_ : call.waits ≠ [] → call.admission = none) : after.Sound := by
  have grows : queue.Grows after := by
    refine ⟨fun other held there => ?_, fun other held there => ?_⟩
    · exact ⟨held, operations ▸ there, rfl, rfl, fun _ same => same⟩
    · refine ⟨held, ?_, rfl, fun _ same => same, fun _ same => same⟩
      rw [calls]
      exact List.getElem?_concat_eq_some.mpr (.inl there)
  refine ⟨?_, ?_, fun other held there => ?_, fun other held there => ?_, ?_,
    fun scope other there held here => ?_, fun i j first second here there below => ?_⟩
  · rw [files, Queue.entries, operations]
    exact sound.files.mono fun _ => grows.settled
  · rw [Queue.admissions, calls, List.map_append, List.map_singleton]
    exact admissions.mono fun _ => grows.admitted
  · rw [operations] at there
    exact (sound.operation other held there).mono grows (List.getElem?_eq_some_iff.mp there).1.le
  · rw [calls] at there
    rcases List.getElem?_concat_eq_some.mp there with old | ⟨rfl, rfl⟩
    · exact (sound.call other held old).mono grows (List.getElem?_eq_some_iff.mp old).1.le
    · exact new
  · rw [files, operations]
    exact sound.uncleaned
  · rw [calls] at here
    rcases uncleared scope other there with before | ⟨rfl, fresh⟩
    · rcases List.getElem?_concat_eq_some.mp here with old | ⟨rfl, rfl⟩
      · exact sound.uncleared scope other before held old
      · have inside := (sound.admissions.last scope _ before).1.lt
        rw [Queue.admissions, List.length_map] at inside
        exact absurd inside (Nat.lt_irrefl _)
    · rcases List.getElem?_concat_eq_some.mp here with old | ⟨-, rfl⟩
      · exact absurd (List.getElem?_eq_some_iff.mp old).1 (Nat.lt_irrefl _)
      · exact fresh
  · rw [calls] at here there
    rcases List.getElem?_concat_eq_some.mp there with old | ⟨rfl, rfl⟩
    · rcases List.getElem?_concat_eq_some.mp here with old' | ⟨rfl, rfl⟩
      · exact sound.inOrder i j first second old' old below
      · have inside := (List.getElem?_eq_some_iff.mp old).1
        omega
    · intro scope _ mine _ later _ admitted
      obtain ⟨wait, held, -⟩ := List.mem_map.mp mine
      rw [open_ (List.ne_nil_of_mem held)] at admitted
      cases admitted

theorem Sound.withFileMutationQueueKeysResolution (sound : queue.Sound) (scope : Option μ) :
    (queue.withFileMutationQueueKeysResolution scope).Sound := by
  have admissions := sound.admissions.enter [scope]
  rw [Queue.admissions, List.length_map] at admissions
  refine sound.call_concat rfl rfl rfl admissions ?_ (fun key other there => ?_) fun _ => rfl
  · exact ⟨le_rfl, fun no => (by cases no), fun no => (by cases no), fun no => (by cases no),
      fun _ no => (by cases no), fun _ no => (by cases no), fun _ no => (by cases no)⟩
  · rw [Queue.withFileMutationQueueKeysResolution, get?_putTail] at there
    split at there
    case isTrue =>
      cases there
      exact .inr ⟨rfl, rfl⟩
    case isFalse => exact .inl there

theorem Sound.withFileMutationQueues (sound : queue.Sound) (queueKeys : Except ε (List κ)) :
    (queue.withFileMutationQueues queueKeys).Sound := by
  cases queueKeys with
  | error error =>
      refine sound.call_concat rfl rfl rfl (sound.admissions.enter []) ?_ (fun _ _ => .inl)
        fun some => absurd rfl some
      exact ⟨Nat.zero_le _, fun _ => rfl, fun _ => rfl, fun _ _ no => (by cases no),
        fun _ same => by cases same; rfl, fun _ no => (by cases no), fun _ no => (by cases no)⟩
  | ok keys =>
      refine sound.enqueue.call_concat rfl rfl rfl (sound.admissions.enter []) ?_ (fun _ _ => .inl)
        fun some => absurd rfl some
      refine ⟨Nat.zero_le _, fun _ => rfl, fun _ => rfl, fun _ _ no => (by cases no),
        fun _ no => (by cases no), fun id same => ?_, fun _ no => (by cases no)⟩
      cases same
      exact ⟨_, keys, List.getElem?_concat_eq_some.mpr (.inr ⟨rfl, rfl⟩), rfl, rfl,
        fun _ => mem_keys_enqueued⟩

end Additions

section Handlers

theorem Sound.uncleaned_of (sound : queue.Sound) (found : queue.operations[id]? = some operation)
    {later : Operation κ ε τ} (same : later.cleanedUp = operation.cleanedUp) (key : κ) (other : Nat)
    (there : queue.fileMutationTails.get? key = some other) :
    queue.fileMutationTails.get? key = some other ∧ (other = id → later.cleanedUp = false) := by
  refine ⟨there, ?_⟩
  rintro rfl
  exact same.trans (sound.uncleaned key other there operation found)

theorem Sound.uncleared_of (sound : queue.Sound) (found : queue.calls[index]? = some call)
    {later : Call μ κ ε τ} (same : later.cleanedUp = call.cleanedUp) (scope : Option μ)
    (other : Nat) (there : queue.keyAdmissions.get? scope = some other) :
    queue.keyAdmissions.get? scope = some other ∧ (other = index → later.cleanedUp = false) := by
  refine ⟨there, ?_⟩
  rintro rfl
  exact same.trans (sound.uncleared scope other there call found)

theorem Sound.settle (sound : queue.Sound) (found : queue.operations[id]? = some operation)
    (running : operation.isRunning = true) (result : Except ε τ) :
    (queue.modifyOperation id fun operation => { operation with result := some result }).Sound := by
  simp only [Operation.isRunning, Bool.and_eq_true, Option.isNone_iff_eq_none] at running
  have known := sound.operation id operation found
  refine sound.modifyOperation found ⟨rfl, rfl, fun _ same => ?_⟩ ?_ rfl rfl rfl sound.files
    (sound.uncleaned_of found rfl)
  · rw [running.2] at same
    cases same
  · exact ⟨fun _ => running.1, fun _ => rfl, known.cleaned, known.clear⟩

theorem Sound.start (sound : queue.Sound) (found : queue.operations[id]? = some operation)
    (fulfilled : allFulfilled queue.tailSettled operation.waits = true) :
    (queue.modifyOperation id fun operation => { operation with started := true }).Sound := by
  have known := sound.operation id operation found
  refine sound.modifyOperation found (.mk rfl rfl fun _ same => same) ?_ rfl rfl rfl sound.files
    (sound.uncleaned_of found rfl)
  exact ⟨fun _ => rfl, known.tail, known.cleaned,
    fun _ _ mem => sound.clear_of_fulfilled found fulfilled mem⟩

theorem Sound.settleTail (sound : queue.Sound) (found : queue.operations[id]? = some operation)
    (done : operation.result.isSome = true) :
    (queue.modifyOperation id fun operation => { operation with tailSettled := true }).Sound := by
  have known := sound.operation id operation found
  refine sound.modifyOperation found (.mk rfl rfl fun _ same => same) ?_ rfl rfl rfl sound.files
    (sound.uncleaned_of found rfl)
  exact ⟨known.ran, fun _ => done, fun _ => rfl, known.clear⟩

theorem Sound.clear_succ (sound : queue.Sound) (found : queue.operations[id]? = some operation)
    (done : operation.result.isSome = true) {key : κ} (mem : key ∈ operation.keys) :
    Clear queue.entries queue.Settled key (id + 1) := by
  have known := sound.operation id operation found
  intro earlier below held
  rcases Nat.lt_succ_iff_lt_or_eq.mp below with less | rfl
  · exact known.clear (known.ran done) key mem earlier less held
  · exact ⟨operation, found, done⟩

theorem Sound.cleanUp (sound : queue.Sound) (found : queue.operations[id]? = some operation)
    (settled : operation.tailSettled = true) :
    Sound { queue.modifyOperation id fun operation => { operation with cleanedUp := true } with
      fileMutationTails := dropTail id operation.keys queue.fileMutationTails } := by
  have known := sound.operation id operation found
  refine sound.modifyOperation found (.mk rfl rfl fun _ same => same) ?_ rfl rfl rfl ?_
    fun key other there => ?_
  · exact ⟨known.ran, known.tail, fun _ => settled, known.clear⟩
  · exact sound.files.leave fun key mem => sound.clear_succ found (known.tail settled) mem
  · obtain ⟨before, gone⟩ := get?_dropTail_eq_some there
    refine ⟨before, ?_⟩
    rintro rfl
    obtain ⟨_, same, mem⟩ := holds_entries.mp (sound.files.last key other before).1
    obtain rfl := Option.some.inj (found.symm.trans same)
    exact absurd mem (gone rfl)

theorem Sound.resolveKeys (sound : queue.Sound) (found : queue.calls[index]? = some call)
    (open_ : call.keysResolution = none) (keys : Except ε (List κ)) :
    (queue.modifyCall index fun call => { call with keysResolution := some keys }).Sound := by
  have known := sound.call index call found
  refine sound.modifyCall found ⟨rfl, fun _ same => ?_, fun _ same => same⟩ ?_ rfl rfl rfl
    sound.admissions (sound.uncleared_of found rfl) (.inl rfl)
  · rw [open_] at same
    cases same
  · refine ⟨known.single, known.tail, known.cleaned, known.clear, fun error same => ?_, fun id same => ?_,
      known.told⟩
    · have resolved := known.failed error same
      rw [open_] at resolved
      cases resolved
    · obtain ⟨_, _, -, -, resolved, -⟩ := known.enqueued id same
      rw [open_] at resolved
      cases resolved

theorem Sound.settleAdmission (sound : queue.Sound) (found : queue.calls[index]? = some call)
    (done : call.admission.isSome = true) :
    (queue.modifyCall index fun call => { call with tailSettled := true }).Sound := by
  have known := sound.call index call found
  refine sound.modifyCall found (.mk rfl (fun _ same => same) fun _ same => same) ?_ rfl rfl rfl
    sound.admissions (sound.uncleared_of found rfl) (.inl rfl)
  exact ⟨known.single, fun _ => done, fun _ => rfl, known.clear, known.failed, known.enqueued, known.told⟩

theorem Sound.cleanUpAdmission (sound : queue.Sound) (found : queue.calls[index]? = some call)
    (settled : call.tailSettled = true) :
    Sound { queue.modifyCall index fun call => { call with cleanedUp := true } with
      keyAdmissions := dropTail index call.scopes queue.keyAdmissions } := by
  have known := sound.call index call found
  have done := known.tail settled
  refine sound.modifyCall found (.mk rfl (fun _ same => same) fun _ same => same) ?_ rfl rfl rfl
    ?_ (fun scope other there => ?_) (.inl rfl)
  · exact ⟨known.single, known.tail, fun _ => settled, known.clear, known.failed, known.enqueued,
      known.told⟩
  · refine sound.admissions.leave fun scope mem earlier below held => ?_
    rcases Nat.lt_succ_iff_lt_or_eq.mp below with less | rfl
    · exact known.clear done scope mem earlier less held
    · exact ⟨call, found, done⟩
  · obtain ⟨before, gone⟩ := get?_dropTail_eq_some there
    refine ⟨before, ?_⟩
    rintro rfl
    obtain ⟨_, same, mem⟩ := holds_admissions.mp (sound.admissions.last scope other before).1
    obtain rfl := Option.some.inj (found.symm.trans same)
    exact absurd mem (gone rfl)

theorem Sound.answer (sound : queue.Sound) (found : queue.calls[index]? = some call)
    {result : Except ε τ} (told : queue.outcome call = some result) :
    (queue.modifyCall index fun call => { call with result := some result }).Sound := by
  have known := sound.call index call found
  refine sound.modifyCall found (.mk rfl (fun _ same => same) fun _ same => same) ?_ rfl rfl rfl
    sound.admissions (sound.uncleared_of found rfl) (.inl rfl)
  refine ⟨known.single, known.tail, known.cleaned, known.clear, known.failed, known.enqueued,
    fun _ same => ?_⟩
  cases same
  exact told

theorem Sound.runAdmission (sound : queue.Sound) (found : queue.calls[index]? = some call)
    (admits : queue.admits call = true) {keys : Except ε (List κ)}
    (resolved : call.keysResolution = some keys) : (queue.runAdmission index keys).Sound := by
  simp only [Queue.admits, Bool.and_eq_true, Option.isNone_iff_eq_none] at admits
  obtain ⟨open_, fulfilled⟩ := admits
  have known := sound.call index call found
  have kept : KeepsCall call
      { call with admission := some (keys.map fun _ => queue.operations.length) } := by
    refine ⟨rfl, fun _ same => same, fun _ same => ?_⟩
    rw [open_] at same
    cases same
  have untold : ∀ result, call.result = some result → False := fun result same => by
    have told := known.told result same
    rw [outcome, open_] at told
    cases told
  cases keys with
  | error error =>
      refine sound.modifyCall found kept ?_ rfl rfl rfl sound.admissions (sound.uncleared_of found rfl)
        (.inr ⟨open_, fun _ no => (by cases no)⟩)
      refine ⟨known.single, fun _ => rfl, known.cleaned,
        fun _ _ mem => sound.clear_of_admits found fulfilled mem,
        fun _ same => ?_, fun _ no => (by cases no), fun result same => (untold result same).elim⟩
      cases same
      exact resolved
  | ok keys =>
      refine sound.enqueue.modifyCall found kept ?_ rfl rfl rfl sound.enqueue.admissions
        (sound.enqueue.uncleared_of found rfl) (.inr ⟨open_, fun id same other held earlier there old => ?_⟩)
      · refine ⟨known.single, fun _ => rfl, known.cleaned, fun _ _ mem => ?_, fun _ no => (by cases no),
          fun id same => ?_, fun result same => (untold result same).elim⟩
        · exact enqueue_grows.clear_admissions (List.getElem?_eq_some_iff.mp found).1.le
            (sound.clear_of_admits found fulfilled mem)
        · cases same
          exact ⟨_, keys, List.getElem?_concat_eq_some.mpr (.inr ⟨rfl, rfl⟩), rfl, resolved,
            fun _ => mem_keys_enqueued⟩
      · cases same
        obtain ⟨operation, -, before, -⟩ := (sound.call other held there).enqueued earlier old
        exact (List.getElem?_eq_some_iff.mp before).1

end Handlers

end Queue
end OpenClaw.FileMutationQueue
