import OpenClaw.FileMutationQueue.Steps

/-!
Runs of a queue. Its contract holds in every state that calls, settled promises and their
handlers lead to, and an operation whose earlier rivals are settled is never kept waiting again.
-/

namespace OpenClaw.FileMutationQueue

open KeyedTails

variable {μ κ ε τ : Type} [DecidableEq μ] [LinearOrder κ] {queue after : Queue μ κ ε τ}
  {id index : Nat} {operation : Operation κ ε τ} {call : Call μ κ ε τ}

namespace Queue

section Guards

variable {α β : Type} {found : Option α} {p : α → Bool}

theorem of_if_any {value result : β}
    (taken : (if found.any p = true then some value else none) = some result) :
    (∃ item, found = some item ∧ p item = true) ∧ value = result := by
  split at taken
  case isTrue holds => exact ⟨(Option.any_eq_true _ _).mp holds, Option.some.inj taken⟩
  case isFalse => cases taken

theorem of_bind_if {f : α → Option β} {result : β}
    (taken : (found.bind fun item => if p item = true then f item else none) = some result) :
    ∃ item, found = some item ∧ p item = true ∧ f item = some result := by
  obtain ⟨item, same, rest⟩ := Option.bind_eq_some_iff.mp taken
  split at rest
  case isTrue holds => exact ⟨item, same, holds, rest⟩
  case isFalse => cases rest

end Guards

theorem Sound.step (sound : queue.Sound) {label : Step μ κ ε τ}
    (taken : queue.step label = some after) : after.Sound := by
  cases label with
  | withFileMutationQueueKeysResolution scope =>
      cases taken
      exact sound.withFileMutationQueueKeysResolution scope
  | withFileMutationQueue key =>
      cases taken
      exact sound.withFileMutationQueues _
  | resolveKeys index keys =>
      obtain ⟨⟨call, found, open_⟩, rfl⟩ := of_if_any taken
      exact sound.resolveKeys found (Option.isNone_iff_eq_none.mp open_) keys
  | settle id result =>
      obtain ⟨⟨operation, found, running⟩, rfl⟩ := of_if_any taken
      exact sound.settle found running result
  | runAdmission index =>
      obtain ⟨call, found, admits, rest⟩ := of_bind_if taken
      obtain ⟨keys, resolved, rfl⟩ := Option.map_eq_some_iff.mp rest
      exact sound.runAdmission found admits resolved
  | settleAdmission index =>
      obtain ⟨⟨call, found, both⟩, rfl⟩ := of_if_any taken
      exact sound.settleAdmission found (Bool.and_eq_true_iff.mp both).2
  | cleanUpAdmission index =>
      obtain ⟨call, found, both, rest⟩ := of_bind_if taken
      cases rest
      exact sound.cleanUpAdmission found (Bool.and_eq_true_iff.mp both).1
  | start id =>
      obtain ⟨⟨operation, found, both⟩, rfl⟩ := of_if_any taken
      exact sound.start found (Bool.and_eq_true_iff.mp both).2
  | settleTail id =>
      obtain ⟨⟨operation, found, both⟩, rfl⟩ := of_if_any taken
      exact sound.settleTail found (Bool.and_eq_true_iff.mp both).2
  | cleanUp id =>
      obtain ⟨operation, found, both, rest⟩ := of_bind_if taken
      cases rest
      exact sound.cleanUp found (Bool.and_eq_true_iff.mp both).1
  | answer index =>
      obtain ⟨call, found, -, rest⟩ := of_bind_if taken
      obtain ⟨result, told, rfl⟩ := Option.map_eq_some_iff.mp rest
      exact sound.answer found told

theorem grows_concat (operations : after.operations = queue.operations)
    (calls : after.calls = queue.calls ++ [call]) : queue.Grows after where
  operation _ held there := ⟨held, operations ▸ there, rfl, rfl, fun _ same => same⟩
  call _ held there :=
    ⟨held, calls ▸ List.getElem?_concat_eq_some.mpr (.inl there), rfl, fun _ same => same,
      fun _ same => same⟩

theorem step_grows {label : Step μ κ ε τ} (taken : queue.step label = some after) :
    queue.Grows after := by
  cases label with
  | withFileMutationQueueKeysResolution scope =>
      cases taken
      exact grows_concat rfl rfl
  | withFileMutationQueue key =>
      cases taken
      cases key with
      | error error => exact grows_concat rfl rfl
      | ok key => exact enqueue_grows.trans (grows_concat rfl rfl)
  | resolveKeys index keys =>
      obtain ⟨⟨call, found, open_⟩, rfl⟩ := of_if_any taken
      refine .modifyCall found ⟨rfl, fun _ same => ?_, fun _ same => same⟩ rfl rfl
      rw [Option.isNone_iff_eq_none.mp open_] at same
      cases same
  | settle id result =>
      obtain ⟨⟨operation, found, running⟩, rfl⟩ := of_if_any taken
      refine .modifyOperation found ⟨rfl, rfl, fun _ same => ?_⟩ rfl rfl
      rw [Option.isNone_iff_eq_none.mp (Bool.and_eq_true_iff.mp running).2] at same
      cases same
  | runAdmission index =>
      obtain ⟨call, found, admits, rest⟩ := of_bind_if taken
      obtain ⟨keys, -, rfl⟩ := Option.map_eq_some_iff.mp rest
      have open_ := Option.isNone_iff_eq_none.mp (Bool.and_eq_true_iff.mp admits).1
      have kept : KeepsCall call
          { call with admission := some (keys.map fun _ => queue.operations.length) } :=
        ⟨rfl, fun _ same => same, fun _ same => by cases open_.symm.trans same⟩
      cases keys with
      | error error => exact .modifyCall found kept rfl rfl
      | ok keys => exact enqueue_grows.trans (.modifyCall found kept rfl rfl)
  | settleAdmission index =>
      obtain ⟨⟨call, found, -⟩, rfl⟩ := of_if_any taken
      exact .modifyCall found (.mk rfl (fun _ same => same) fun _ same => same) rfl rfl
  | cleanUpAdmission index =>
      obtain ⟨call, found, -, rest⟩ := of_bind_if taken
      cases rest
      exact .modifyCall found (.mk rfl (fun _ same => same) fun _ same => same) rfl rfl
  | start id | settleTail id =>
      obtain ⟨⟨operation, found, -⟩, rfl⟩ := of_if_any taken
      exact .modifyOperation found (.mk rfl rfl fun _ same => same) rfl rfl
  | cleanUp id =>
      obtain ⟨operation, found, -, rest⟩ := of_bind_if taken
      cases rest
      exact .modifyOperation found (.mk rfl rfl fun _ same => same) rfl rfl
  | answer index =>
      obtain ⟨call, found, -, rest⟩ := of_bind_if taken
      obtain ⟨result, -, rfl⟩ := Option.map_eq_some_iff.mp rest
      exact .modifyCall found (.mk rfl (fun _ same => same) fun _ same => same) rfl rfl

theorem work_lt_of_operation {f : Operation κ ε τ → Operation κ ε τ}
    (found : queue.operations[id]? = some operation) (less : (f operation).work < operation.work)
    (operations : after.operations = queue.operations.modify id f)
    (calls : after.calls = queue.calls) : after.work < queue.work := by
  have sum := @List.sum_map_modify _ _ f Operation.work _ _ found
  rw [work, work, operations, calls]
  omega

theorem work_lt_of_call {f : Call μ κ ε τ → Call μ κ ε τ} (found : queue.calls[index]? = some call)
    (less : (f call).work + (after.operations.map Operation.work).sum <
      call.work + (queue.operations.map Operation.work).sum)
    (calls : after.calls = queue.calls.modify index f) : after.work < queue.work := by
  have sum := @List.sum_map_modify _ _ f Call.work _ _ found
  rw [work, work, calls]
  omega

theorem work_lt {label : Step μ κ ε τ} (internal : label.isInternal = true)
    (taken : queue.step label = some after) : after.work < queue.work := by
  cases label with
  | withFileMutationQueueKeysResolution | withFileMutationQueue | resolveKeys | settle =>
      cases internal
  | runAdmission index =>
      obtain ⟨call, found, admits, rest⟩ := of_bind_if taken
      obtain ⟨keys, -, rfl⟩ := Option.map_eq_some_iff.mp rest
      have open_ := Option.isNone_iff_eq_none.mp (Bool.and_eq_true_iff.mp admits).1
      cases keys with
      | error error => exact work_lt_of_call found (by simp [Call.work, open_, runAdmission, modifyCall]) rfl
      | ok keys =>
          refine work_lt_of_call found ?_ rfl
          simp only [Call.work, open_, runAdmission, modifyCall, enqueueFileMutationQueueKeys,
            List.map_append, List.map_singleton, List.sum_append, List.sum_singleton,
            Operation.work, Option.isNone_some, Option.isNone_none, Bool.toNat_false,
            Bool.toNat_true, Bool.not_false]
          omega
  | settleAdmission index =>
      obtain ⟨⟨call, found, both⟩, rfl⟩ := of_if_any taken
      have open_ := (Bool.and_eq_true_iff.mp both).1
      exact work_lt_of_call found (by simp_all [Call.work, modifyCall]) rfl
  | cleanUpAdmission index =>
      obtain ⟨call, found, both, rest⟩ := of_bind_if taken
      cases rest
      have open_ := (Bool.and_eq_true_iff.mp both).2
      exact work_lt_of_call found (by simp_all [Call.work, modifyCall]) rfl
  | start id | settleTail id =>
      obtain ⟨⟨operation, found, both⟩, rfl⟩ := of_if_any taken
      have open_ := (Bool.and_eq_true_iff.mp both).1
      exact work_lt_of_operation found (by simp_all [Operation.work]) rfl rfl
  | cleanUp id =>
      obtain ⟨operation, found, both, rest⟩ := of_bind_if taken
      cases rest
      have open_ := (Bool.and_eq_true_iff.mp both).2
      exact work_lt_of_operation found (by simp_all [Operation.work]) rfl rfl
  | answer index =>
      obtain ⟨call, found, open_, rest⟩ := of_bind_if taken
      obtain ⟨result, -, rfl⟩ := Option.map_eq_some_iff.mp rest
      exact work_lt_of_call found (by simp_all [Call.work, modifyCall]) rfl

/-- When the handlers have run, the tails of settled operations are settled and cleaned up. -/
theorem Idle.cleaned (idle : queue.Idle)
    (found : queue.operations[id]? = some operation) (done : operation.result.isSome = true) :
    operation.tailSettled = true ∧ operation.cleanedUp = true := by
  have settled : operation.tailSettled = true := by
    by_contra no
    have blocked := idle (.settleTail id) rfl
    rw [Queue.step, found, if_pos (by simp [no, done])] at blocked
    cases blocked
  refine ⟨settled, ?_⟩
  by_contra no
  have blocked := idle (.cleanUp id) rfl
  rw [Queue.step, found, Option.bind_some, if_pos (by simp [no, settled])] at blocked
  cases blocked

theorem Idle.cleared (idle : queue.Idle) (found : queue.calls[index]? = some call)
    (done : call.admission.isSome = true) : call.tailSettled = true ∧ call.cleanedUp = true := by
  have settled : call.tailSettled = true := by
    by_contra no
    have blocked := idle (.settleAdmission index) rfl
    rw [Queue.step, found, if_pos (by simp [no, done])] at blocked
    cases blocked
  refine ⟨settled, ?_⟩
  by_contra no
  have blocked := idle (.cleanUpAdmission index) rfl
  rw [Queue.step, found, Option.bind_some, if_pos (by simp [no, settled])] at blocked
  cases blocked

theorem Idle.started (idle : queue.Idle)
    (found : queue.operations[id]? = some operation)
    (settled : ∀ wait ∈ operation.waits, ∀ previous ∈ wait.predecessor, queue.Settled previous) :
    operation.started = true := by
  by_contra no
  have fulfilled : allFulfilled queue.tailSettled operation.waits = true := by
    refine List.all_eq_true.mpr fun wait mem => (Option.all_eq_true _ _).mpr fun previous before => ?_
    obtain ⟨other, there, done⟩ := settled wait mem previous before
    rw [tailSettled, there, Option.any_some]
    exact (idle.cleaned there done).1
  have blocked := idle (.start id) rfl
  rw [Queue.step, found, if_pos (by simp [no, fulfilled])] at blocked
  cases blocked

theorem CallSound.scope_unique (known : queue.CallSound index call) {one other : Option μ}
    (mem : one ∈ call.scopes) (mem' : other ∈ call.scopes) : one = other := by
  obtain ⟨wait, held, rfl⟩ := List.mem_map.mp mem
  obtain ⟨wait', held', rfl⟩ := List.mem_map.mp mem'
  obtain ⟨only, same⟩ := List.length_eq_one_iff.mp
    (Nat.le_antisymm known.single (List.length_pos_of_mem held))
  rw [same, List.mem_singleton] at held held'
  rw [held, held']

theorem Idle.admitted (idle : queue.Idle) (sound : queue.Sound)
    (found : queue.calls[index]? = some call) (resolved : call.keysResolution.isSome = true)
    (earlier : ∀ i < index, ∀ other, queue.calls[i]? = some other →
      (∃ scope ∈ other.scopes, scope ∈ call.scopes) → other.keysResolution.isSome = true) :
    call.admission.isSome = true := by
  induction index using Nat.strong_induction_on generalizing call with
  | _ index ih =>
      by_contra open_
      have fulfilled : allFulfilled queue.admissionSettled call.waits = true := by
        refine List.all_eq_true.mpr fun wait mem => ?_
        refine (Option.all_eq_true _ _).mpr fun previous before => ?_
        have waited := waits_admissions found mem
        rw [Option.mem_def.mp before] at waited
        obtain ⟨held, below, -⟩ := sound.admissions.next index _ previous waited
        obtain ⟨other, there, scope⟩ := holds_admissions.mp held
        have mine : wait.key ∈ call.scopes := List.mem_map.mpr ⟨wait, mem, rfl⟩
        -- a call has one scope, so those before the other one are before this one too
        have admitted := ih previous below there (earlier previous below other there ⟨_, scope, mine⟩)
          fun i less third here ⟨shared, one, two⟩ => earlier i (less.trans below) third here
            ⟨shared, one, (sound.call previous other there).scope_unique two scope ▸ mine⟩
        rw [admissionSettled, there, Option.any_some]
        exact (idle.cleared there admitted).1
      obtain ⟨keys, same⟩ := Option.isSome_iff_exists.mp resolved
      have blocked := idle (.runAdmission index) rfl
      rw [Queue.step, found, Option.bind_some, if_pos (by simpa [admits, fulfilled] using open_), same]
        at blocked
      cases blocked

/-- Behind settled operations every operation has started, so the first to run would be running. -/
theorem Idle.settled (idle : queue.Idle) (sound : queue.Sound)
    (quiet : ∀ operation ∈ queue.operations, operation.isRunning = false)
    (found : queue.operations[id]? = some operation) : operation.result.isSome = true := by
  induction id using Nat.strong_induction_on generalizing operation with
  | _ id ih =>
      have started := idle.started found fun wait mem previous before => by
        have waited := waits_entries found mem
        rw [Option.mem_def.mp before] at waited
        obtain ⟨held, below, -⟩ := sound.files.next id _ previous waited
        obtain ⟨other, there, -⟩ := holds_entries.mp held
        exact ⟨other, there, ih previous below there⟩
      have done := quiet operation (List.mem_of_getElem? found)
      simpa [Operation.isRunning, started] using done

theorem Idle.answered (idle : queue.Idle) (found : queue.calls[index]? = some call)
    {result : Except ε τ} (told : queue.outcome call = some result) : call.result.isSome = true := by
  by_contra open_
  have blocked := idle (.answer index) rfl
  rw [Queue.step, found, Option.bind_some, if_pos (by simpa using open_), told] at blocked
  cases blocked

theorem Sound.clear_of_unblocked (sound : queue.Sound)
    (found : queue.operations[id]? = some operation) (unblocked : queue.Unblocked id) {wait : Behind κ}
    (mem : wait ∈ operation.waits) {previous : Nat} (before : previous ∈ wait.predecessor) :
    queue.Settled previous := by
  have waited := waits_entries found mem
  rw [Option.mem_def.mp before] at waited
  obtain ⟨held, below, -⟩ := sound.files.next id _ previous waited
  obtain ⟨other, there, mine⟩ := holds_entries.mp held
  exact ⟨other, there, unblocked operation found previous below other there
    ⟨wait.key, mine, List.mem_map.mpr ⟨wait, mem, rfl⟩⟩⟩

theorem Sound.rivals (sound : queue.Sound) {i j : Nat} {first second : Operation κ ε τ}
    (here : queue.operations[i]? = some first) (there : queue.operations[j]? = some second)
    (below : i < j) (started : second.started = true) {key : κ} (mine : key ∈ first.keys)
    (other : key ∈ second.keys) : first.result.isSome = true := by
  have clear := (sound.operation j second there).clear started key other
  obtain ⟨_, same, done⟩ := clear i below (holds_entries.mpr ⟨first, here, mine⟩)
  obtain rfl := Option.some.inj (here.symm.trans same)
  exact done

theorem Sound.exclusive (sound : queue.Sound) {i j : Nat} {first second : Operation κ ε τ}
    (here : queue.operations[i]? = some first) (there : queue.operations[j]? = some second)
    (running : first.isRunning = true) (running' : second.isRunning = true) {key : κ}
    (mine : key ∈ first.keys) (other : key ∈ second.keys) : i = j := by
  simp only [Operation.isRunning, Bool.and_eq_true, Option.isNone_iff_eq_none] at running running'
  rcases Nat.lt_trichotomy i j with below | same | above
  · have done := sound.rivals here there below running'.1 mine other
    rw [running.2] at done
    cases done
  · exact same
  · have done := sound.rivals there here above running.1 other mine
    rw [running'.2] at done
    cases done

theorem outcome_ok (same : call.admission = some (.ok id)) :
    queue.outcome call = (queue.operations[id]?).bind Operation.result := by
  rw [outcome, same]
  rfl

theorem Sound.own (sound : queue.Sound) (found : queue.calls[index]? = some call)
    {result : Except ε τ} (told : queue.outcome call = some result) :
    (∃ error, call.keysResolution = some (.error error) ∧ result = .error error) ∨
      ∃ id operation, call.admission = some (.ok id) ∧ queue.operations[id]? = some operation ∧
        operation.caller = index ∧ operation.result = some result := by
  have known := sound.call index call found
  obtain ⟨admission, same, rest⟩ := Option.bind_eq_some_iff.mp told
  cases admission with
  | error error =>
      cases rest
      exact .inl ⟨error, known.failed error same, rfl⟩
  | ok id =>
      obtain ⟨operation, there, done⟩ := Option.bind_eq_some_iff.mp rest
      obtain ⟨_, _, there', caller, -⟩ := known.enqueued id same
      obtain rfl := Option.some.inj (there.symm.trans there')
      exact .inr ⟨id, operation, same, there, caller, done⟩

theorem Sound.contract (sound : queue.Sound) : queue.Contract where
  exclusive _ _ _ _ here there running running' _ mine other :=
    sound.exclusive here there running running' mine other
  admitted index call found id same := (sound.call index call found).enqueued id same
  inCallOrder i j first second here there below scope mine other later admitted := by
    have clear := (sound.call j second there).clear (by rw [admitted, Option.isSome_some]) scope other
    obtain ⟨_, same, done⟩ := clear i below (holds_admissions.mpr ⟨first, here, mine⟩)
    obtain rfl := Option.some.inj (here.symm.trans same)
    refine ⟨done, fun earlier old => ?_⟩
    have less := sound.inOrder i j first second here there below scope mine other earlier later old
      admitted
    exact ⟨less, fun one two one' two' ⟨key, held, held'⟩ started =>
      sound.rivals one' two' less started held held'⟩
  acyclic id operation found wait mem previous before := by
    have waited := waits_entries found mem
    rw [Option.mem_def.mp before] at waited
    exact (sound.files.next id _ previous waited).2.1
  startable idle _ _ found settled := idle.started found settled
  admissible idle _ _ found resolved earlier := idle.admitted sound found resolved earlier
  finite _ _ internal taken := work_lt internal taken
  live idle quiet resolved call mem := by
    obtain ⟨index, found⟩ := List.mem_iff_getElem?.mp mem
    have known := sound.call index call found
    have admitted := idle.admitted sound found (resolved call mem) fun _ _ other there _ =>
      resolved other (List.mem_of_getElem? there)
    obtain ⟨admission, same⟩ := Option.isSome_iff_exists.mp admitted
    cases admission with
    | error error =>
        exact idle.answered found (show queue.outcome call = some (.error error) by
          rw [outcome, same]
          rfl)
    | ok id =>
        obtain ⟨operation, _, there, -⟩ := known.enqueued id same
        obtain ⟨result, done⟩ := Option.isSome_iff_exists.mp (idle.settled sound quiet there)
        exact idle.answered found (show queue.outcome call = some result by
          rw [outcome_ok same, there, Option.bind_some, done])
  own index call found result same := sound.own found ((sound.call index call found).told result same)
  emptied idle settled := by
    refine List.eq_nil_iff_forall_not_mem.mpr ?_
    rintro ⟨key, id⟩ mem
    have there := JsMap.get?_eq_some.mpr mem
    obtain ⟨operation, found, -⟩ := holds_entries.mp (sound.files.last key id there).1
    have cleaned := idle.cleaned found (settled operation (List.mem_of_getElem? found))
    have uncleaned := sound.uncleaned key id there operation found
    rw [cleaned.2] at uncleaned
    cases uncleaned
  cleared idle resolved := by
    refine List.eq_nil_iff_forall_not_mem.mpr ?_
    rintro ⟨scope, index⟩ mem
    have there := JsMap.get?_eq_some.mpr mem
    obtain ⟨call, found, -⟩ := holds_admissions.mp (sound.admissions.last scope index there).1
    have admitted := idle.admitted sound found (resolved call (List.mem_of_getElem? found))
      fun _ _ other there _ => resolved other (List.mem_of_getElem? there)
    have uncleared := sound.uncleared scope index there call found
    rw [(idle.cleared found admitted).2] at uncleared
    cases uncleared

theorem sound_of_reaches (run : Transition.Reaches step Transition.Any create queue) : queue.Sound :=
  run.invariant sound_create fun _ _ _ sound _ taken => sound.step taken

theorem reaches_grows (run : Transition.Reaches step Transition.Any queue after) :
    queue.Grows after :=
  run.relates .refl (fun _ _ _ => .trans) fun _ _ _ _ => step_grows

omit [LinearOrder κ] in
theorem KeepsOperation.keys {later : Operation κ ε τ} (kept : KeepsOperation operation later) :
    later.keys = operation.keys := by
  rw [Operation.keys, kept.waits, Operation.keys]

theorem Grows.unblocked (grows : queue.Grows after) (below : id < queue.operations.length)
    (unblocked : queue.Unblocked id) : after.Unblocked id := by
  intro operation found earlier less other there shared
  have inside := less.trans below
  obtain ⟨_, found', kept⟩ := grows.operation id _ (List.getElem?_eq_getElem below)
  obtain ⟨_, there', kept'⟩ := grows.operation earlier _ (List.getElem?_eq_getElem inside)
  obtain rfl := Option.some.inj (found.symm.trans found')
  obtain rfl := Option.some.inj (there.symm.trans there')
  rw [kept.keys, kept'.keys] at shared
  have done := unblocked _ (List.getElem?_eq_getElem below) earlier less _
    (List.getElem?_eq_getElem inside) shared
  obtain ⟨result, same⟩ := Option.isSome_iff_exists.mp done
  rw [kept'.result result same, Option.isSome_some]

end Queue

end OpenClaw.FileMutationQueue
