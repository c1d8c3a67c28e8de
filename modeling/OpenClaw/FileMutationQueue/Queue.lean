import OpenClaw.Lib.KeyedTails
import OpenClaw.Lib.Transition

/-!
The per-file mutation queue. Calls made for one assistant message are admitted in their order,
each once its keys are resolved; an admitted operation runs behind the tails of all its keys and
leaves its own under each of them. Handlers of settled promises run in any order here: nothing
below rests on the order in which the microtasks are taken.
-/

namespace OpenClaw.FileMutationQueue

open KeyedTails

variable {μ κ ε τ : Type} [DecidableEq μ] [LinearOrder κ]

/-- An operation and its tail, which settles after it and is then cleaned up. -/
structure Operation (κ ε τ : Type) where
  caller : Nat
  waits : List (Behind κ)
  started : Bool
  result : Option (Except ε τ)
  tailSettled : Bool
  cleanedUp : Bool

/-- A call, with the operation that it was admitted with. The scope is the assistant message it
is made for, or the fallback. A call for a file path has none and nothing to resolve. -/
structure Call (μ κ ε τ : Type) where
  waits : List (Behind (Option μ))
  keysResolution : Option (Except ε (List κ))
  admission : Option (Except ε Nat)
  tailSettled : Bool
  cleanedUp : Bool
  result : Option (Except ε τ)

/-- Calls and operations are known by their places. -/
structure Queue (μ κ ε τ : Type) [DecidableEq μ] [LinearOrder κ] where
  fileMutationTails : JsMap κ Nat
  keyAdmissions : JsMap (Option μ) Nat
  operations : List (Operation κ ε τ)
  calls : List (Call μ κ ε τ)

inductive Step (μ κ ε τ : Type)
  | withFileMutationQueueKeysResolution (assistantMessage : Option μ)
  | withFileMutationQueue (key : Except ε κ)
  /-- The keys that a call was made with, and what an operation has come to. -/
  | resolveKeys (call : Nat) (keys : Except ε (List κ))
  | settle (operation : Nat) (result : Except ε τ)
  /-- Handlers of promises. -/
  | runAdmission (call : Nat)
  | settleAdmission (call : Nat)
  | cleanUpAdmission (call : Nat)
  | start (operation : Nat)
  | settleTail (operation : Nat)
  | cleanUp (operation : Nat)
  | answer (call : Nat)

def Step.isInternal : Step μ κ ε τ → Bool
  | .runAdmission _ | .settleAdmission _ | .cleanUpAdmission _ | .start _ | .settleTail _ | .cleanUp _
  | .answer _ => true
  | _ => false

/-- Whether every promise that is waited for is fulfilled. -/
def allFulfilled {ι : Type} (fulfilled : Nat → Bool) (waits : List (Behind ι)) : Bool :=
  waits.all fun wait => wait.predecessor.all fulfilled

def Operation.isRunning (operation : Operation κ ε τ) : Bool :=
  operation.started && operation.result.isNone

def Operation.keys (operation : Operation κ ε τ) : List κ := operation.waits.map Behind.key

def Operation.work (operation : Operation κ ε τ) : Nat :=
  (!operation.started).toNat + (!operation.tailSettled).toNat + (!operation.cleanedUp).toNat

/-- An admission brings the handlers of an operation with it. -/
def Call.work (call : Call μ κ ε τ) : Nat :=
  4 * call.admission.isNone.toNat + (!call.tailSettled).toNat + (!call.cleanedUp).toNat +
    call.result.isNone.toNat

/-- The scope of a call that is admitted in its turn. -/
def Call.scopes (call : Call μ κ ε τ) : List (Option μ) := call.waits.map Behind.key

namespace Queue

def create : Queue μ κ ε τ where
  fileMutationTails := .empty
  keyAdmissions := .empty
  operations := []
  calls := []

def enqueueFileMutationQueueKeys (queue : Queue μ κ ε τ) (caller : Nat) (queueKeys : List κ) :
    Queue μ κ ε τ :=
  let keys := JsArray.toSorted (fun left right => left < right) queueKeys.dedup
  { queue with
    operations := queue.operations ++
      [{ caller, waits := behind queue.fileMutationTails keys, started := false, result := none
         tailSettled := false, cleanedUp := false }]
    fileMutationTails := putTail queue.operations.length keys queue.fileMutationTails }

def withFileMutationQueueKeysResolution (queue : Queue μ κ ε τ) (assistantMessage : Option μ) :
    Queue μ κ ε τ :=
  { queue with
    calls := queue.calls ++
      [{ waits := behind queue.keyAdmissions [assistantMessage], keysResolution := none
         admission := none, tailSettled := false, cleanedUp := false, result := none }]
    keyAdmissions := putTail queue.calls.length [assistantMessage] queue.keyAdmissions }

/-- A call that queues its operation up itself: it makes no admission. -/
def withFileMutationQueues (queue : Queue μ κ ε τ) (queueKeys : Except ε (List κ)) :
    Queue μ κ ε τ :=
  let enqueued :=
    match queueKeys with
    | .error _ => queue
    | .ok keys => queue.enqueueFileMutationQueueKeys queue.calls.length keys
  { enqueued with
    calls := queue.calls ++
      [{ waits := [], keysResolution := some queueKeys
         admission := some (queueKeys.map fun _ => queue.operations.length)
         tailSettled := true, cleanedUp := true, result := none }] }

def withFileMutationQueue (queue : Queue μ κ ε τ) (key : Except ε κ) : Queue μ κ ε τ :=
  queue.withFileMutationQueues (key.map fun key => [key])

def modifyCall (queue : Queue μ κ ε τ) (index : Nat) (f : Call μ κ ε τ → Call μ κ ε τ) :
    Queue μ κ ε τ :=
  { queue with calls := queue.calls.modify index f }

def modifyOperation (queue : Queue μ κ ε τ) (index : Nat)
    (f : Operation κ ε τ → Operation κ ε τ) : Queue μ κ ε τ :=
  { queue with operations := queue.operations.modify index f }

def tailSettled (queue : Queue μ κ ε τ) (id : Nat) : Bool :=
  (queue.operations[id]?).any Operation.tailSettled

def admissionSettled (queue : Queue μ κ ε τ) (id : Nat) : Bool :=
  (queue.calls[id]?).any Call.tailSettled

/-- Behind the admission before it, a call goes on when its keys have been resolved. -/
def admits (queue : Queue μ κ ε τ) (call : Call μ κ ε τ) : Bool :=
  call.admission.isNone && allFulfilled queue.admissionSettled call.waits

def runAdmission (queue : Queue μ κ ε τ) (index : Nat) (keys : Except ε (List κ)) : Queue μ κ ε τ :=
  let enqueued :=
    match keys with
    | .error _ => queue
    | .ok keys => queue.enqueueFileMutationQueueKeys index keys
  enqueued.modifyCall index fun call =>
    { call with admission := some (keys.map fun _ => queue.operations.length) }

/-- What the caller is told, once its own promises have settled. -/
def outcome (queue : Queue μ κ ε τ) (call : Call μ κ ε τ) : Option (Except ε τ) :=
  call.admission.bind fun
    | .error error => some (.error error)
    | .ok id => (queue.operations[id]?).bind Operation.result

def step (queue : Queue μ κ ε τ) : Step μ κ ε τ → Option (Queue μ κ ε τ)
  | .withFileMutationQueueKeysResolution assistantMessage =>
      some (queue.withFileMutationQueueKeysResolution assistantMessage)
  | .withFileMutationQueue key => some (queue.withFileMutationQueue key)
  | .resolveKeys index keys =>
      if (queue.calls[index]?).any fun call => call.keysResolution.isNone then
        some (queue.modifyCall index fun call => { call with keysResolution := some keys })
      else none
  | .settle id result =>
      if (queue.operations[id]?).any Operation.isRunning then
        some (queue.modifyOperation id fun operation => { operation with result := some result })
      else none
  | .runAdmission index =>
      (queue.calls[index]?).bind fun call =>
        if queue.admits call then call.keysResolution.map (queue.runAdmission index) else none
  | .settleAdmission index =>
      if (queue.calls[index]?).any fun call => !call.tailSettled && call.admission.isSome then
        some (queue.modifyCall index fun call => { call with tailSettled := true })
      else none
  | .cleanUpAdmission index =>
      (queue.calls[index]?).bind fun call =>
        if call.tailSettled && !call.cleanedUp then
          some { queue.modifyCall index fun call => { call with cleanedUp := true } with
            keyAdmissions := dropTail index call.scopes queue.keyAdmissions }
        else none
  | .start id =>
      if (queue.operations[id]?).any fun operation =>
          !operation.started && allFulfilled queue.tailSettled operation.waits then
        some (queue.modifyOperation id fun operation => { operation with started := true })
      else none
  | .settleTail id =>
      if (queue.operations[id]?).any fun operation =>
          !operation.tailSettled && operation.result.isSome then
        some (queue.modifyOperation id fun operation => { operation with tailSettled := true })
      else none
  | .cleanUp id =>
      (queue.operations[id]?).bind fun operation =>
        if operation.tailSettled && !operation.cleanedUp then
          some { queue.modifyOperation id fun operation => { operation with cleanedUp := true } with
            fileMutationTails := dropTail id operation.keys queue.fileMutationTails }
        else none
  | .answer index =>
      (queue.calls[index]?).bind fun call =>
        if call.result.isNone then
          (queue.outcome call).map fun result =>
            queue.modifyCall index fun call => { call with result := some result }
        else none

/-- No handler is left to run. -/
def Idle (queue : Queue μ κ ε τ) : Prop :=
  ∀ label : Step μ κ ε τ, label.isInternal = true → queue.step label = none

def Settled (queue : Queue μ κ ε τ) (id : Nat) : Prop :=
  ∃ operation, queue.operations[id]? = some operation ∧ operation.result.isSome = true

def Admitted (queue : Queue μ κ ε τ) (index : Nat) : Prop :=
  ∃ call, queue.calls[index]? = some call ∧ call.admission.isSome = true

def Resolved (queue : Queue μ κ ε τ) (index : Nat) : Prop :=
  ∃ call, queue.calls[index]? = some call ∧ call.keysResolution.isSome = true

/-- The operations that `id` may have to wait for are settled. -/
def Unblocked (queue : Queue μ κ ε τ) (id : Nat) : Prop :=
  ∀ operation, queue.operations[id]? = some operation → ∀ earlier < id, ∀ other,
    queue.operations[earlier]? = some other → (∃ key ∈ other.keys, key ∈ operation.keys) →
      other.result.isSome = true

/-- The handlers that may still run before the next call. -/
def work (queue : Queue μ κ ε τ) : Nat :=
  (queue.operations.map Operation.work).sum + (queue.calls.map Call.work).sum

/-- What is expected of a queue in every state. -/
structure Contract (queue : Queue μ κ ε τ) : Prop where
  exclusive : ∀ (i j : Nat) first second, queue.operations[i]? = some first →
    queue.operations[j]? = some second → first.isRunning = true → second.isRunning = true →
      ∀ key ∈ first.keys, key ∈ second.keys → i = j
  /-- The operation of a call holds the keys it was made with, and is its alone. -/
  admitted : ∀ (index : Nat) call, queue.calls[index]? = some call → ∀ id, call.admission = some (.ok id) →
    ∃ operation keys, queue.operations[id]? = some operation ∧ operation.caller = index ∧
      call.keysResolution = some (.ok keys) ∧ ∀ key, key ∈ operation.keys ↔ key ∈ keys
  inCallOrder : ∀ (i j : Nat) first second, queue.calls[i]? = some first →
    queue.calls[j]? = some second → i < j → ∀ scope ∈ first.scopes, scope ∈ second.scopes →
      ∀ later, second.admission = some (.ok later) → first.admission.isSome = true ∧
        ∀ earlier, first.admission = some (.ok earlier) → earlier < later ∧
          ∀ one other, queue.operations[earlier]? = some one → queue.operations[later]? = some other →
            (∃ key ∈ one.keys, key ∈ other.keys) → other.started = true → one.result.isSome = true
  /-- Operations wait for earlier ones only. -/
  acyclic : ∀ (id : Nat) operation, queue.operations[id]? = some operation →
    ∀ wait ∈ operation.waits, ∀ previous ∈ wait.predecessor, previous < id
  startable : queue.Idle → ∀ (id : Nat) operation, queue.operations[id]? = some operation →
    (∀ wait ∈ operation.waits, ∀ previous ∈ wait.predecessor, queue.Settled previous) →
      operation.started = true
  /-- A call whose keys are resolved is admitted behind calls with theirs resolved. -/
  admissible : queue.Idle → ∀ (index : Nat) call, queue.calls[index]? = some call →
    call.keysResolution.isSome = true →
    (∀ earlier < index, ∀ other, queue.calls[earlier]? = some other →
      (∃ scope ∈ other.scopes, scope ∈ call.scopes) → other.keysResolution.isSome = true) →
        call.admission.isSome = true
  finite : ∀ label after, label.isInternal = true → queue.step label = some after →
    after.work < queue.work
  /-- Where nothing runs and nothing is to be resolved, nobody is kept waiting. -/
  live : queue.Idle → (∀ operation ∈ queue.operations, operation.isRunning = false) →
    (∀ call ∈ queue.calls, call.keysResolution.isSome = true) →
      ∀ call ∈ queue.calls, call.result.isSome = true
  /-- A caller is told of its own keys and its own operation. -/
  own : ∀ (index : Nat) call, queue.calls[index]? = some call → ∀ result, call.result = some result →
    (∃ error, call.keysResolution = some (.error error) ∧ result = .error error) ∨
      ∃ id operation, call.admission = some (.ok id) ∧ queue.operations[id]? = some operation ∧
        operation.caller = index ∧ operation.result = some result
  emptied : queue.Idle → (∀ operation ∈ queue.operations, operation.result.isSome = true) →
    queue.fileMutationTails.entries = []
  cleared : queue.Idle → (∀ call ∈ queue.calls, call.keysResolution.isSome = true) →
    queue.keyAdmissions.entries = []

end Queue

end OpenClaw.FileMutationQueue

/-!
What a queue keeps. Operations and calls stay at their places with all that has been decided
about them; the maps of tails are ordered, and an operation that has started is behind settled
ones only. A step either changes one operation, or one call, or puts new ones behind the others.
-/

namespace OpenClaw.FileMutationQueue

open KeyedTails

variable {μ κ ε τ : Type} [DecidableEq μ] [LinearOrder κ] {queue middle after : Queue μ κ ε τ}
  {id index n : Nat} {key : κ} {scope : Option μ} {operation : Operation κ ε τ}
  {call : Call μ κ ε τ}

namespace Queue

def entries (queue : Queue μ κ ε τ) : List (List (Behind κ)) :=
  queue.operations.map Operation.waits

def admissions (queue : Queue μ κ ε τ) : List (List (Behind (Option μ))) :=
  queue.calls.map Call.waits

theorem holds_entries : Holds queue.entries id key ↔
    ∃ operation, queue.operations[id]? = some operation ∧ key ∈ operation.keys := by
  simp only [Holds, Waits, entries, List.getElem?_map, Option.map_eq_some_iff, Operation.keys,
    List.mem_map]
  constructor
  · rintro ⟨before, _, ⟨operation, found, rfl⟩, mem⟩
    exact ⟨operation, found, _, mem, rfl⟩
  · rintro ⟨operation, found, ⟨_, before⟩, mem, rfl⟩
    exact ⟨before, _, ⟨operation, found, rfl⟩, mem⟩

theorem holds_admissions : Holds queue.admissions index scope ↔
    ∃ call, queue.calls[index]? = some call ∧ scope ∈ call.scopes := by
  simp only [Holds, Waits, admissions, List.getElem?_map, Option.map_eq_some_iff, Call.scopes,
    List.mem_map]
  constructor
  · rintro ⟨before, _, ⟨call, found, rfl⟩, mem⟩
    exact ⟨call, found, _, mem, rfl⟩
  · rintro ⟨call, found, ⟨_, before⟩, mem, rfl⟩
    exact ⟨before, _, ⟨call, found, rfl⟩, mem⟩

theorem waits_entries (found : queue.operations[id]? = some operation) {wait : Behind κ}
    (mem : wait ∈ operation.waits) : Waits queue.entries id wait.key wait.predecessor :=
  ⟨operation.waits, by rw [entries, List.getElem?_map, found, Option.map_some], mem⟩

theorem waits_admissions (found : queue.calls[index]? = some call) {wait : Behind (Option μ)}
    (mem : wait ∈ call.waits) : Waits queue.admissions index wait.key wait.predecessor :=
  ⟨call.waits, by rw [admissions, List.getElem?_map, found, Option.map_some], mem⟩

/-- Whether an operation is at its place after a step, as far as it was decided before. -/
structure KeepsOperation (operation later : Operation κ ε τ) : Prop where
  waits : later.waits = operation.waits
  caller : later.caller = operation.caller
  result : ∀ result, operation.result = some result → later.result = some result

structure KeepsCall (call later : Call μ κ ε τ) : Prop where
  waits : later.waits = call.waits
  keysResolution : ∀ keys, call.keysResolution = some keys → later.keysResolution = some keys
  admission : ∀ admission, call.admission = some admission → later.admission = some admission

structure Grows (queue after : Queue μ κ ε τ) : Prop where
  operation : ∀ (id : Nat) operation, queue.operations[id]? = some operation →
    ∃ later, after.operations[id]? = some later ∧ KeepsOperation operation later
  call : ∀ (index : Nat) call, queue.calls[index]? = some call →
    ∃ later, after.calls[index]? = some later ∧ KeepsCall call later

theorem Grows.refl (queue : Queue μ κ ε τ) : queue.Grows queue where
  operation _ operation found := ⟨operation, found, rfl, rfl, fun _ same => same⟩
  call _ call found := ⟨call, found, rfl, fun _ same => same, fun _ same => same⟩

theorem Grows.trans (first : queue.Grows middle) (second : middle.Grows after) :
    queue.Grows after where
  operation id operation found := by
    obtain ⟨between, there, early⟩ := first.operation id operation found
    obtain ⟨later, here, late⟩ := second.operation id between there
    exact ⟨later, here, late.waits.trans early.waits, late.caller.trans early.caller,
      fun result same => late.result result (early.result result same)⟩
  call index call found := by
    obtain ⟨between, there, early⟩ := first.call index call found
    obtain ⟨later, here, late⟩ := second.call index between there
    exact ⟨later, here, late.waits.trans early.waits,
      fun keys same => late.keysResolution keys (early.keysResolution keys same),
      fun admission same => late.admission admission (early.admission admission same)⟩

theorem Grows.settled (grows : queue.Grows after) (settled : queue.Settled id) :
    after.Settled id := by
  obtain ⟨operation, found, done⟩ := settled
  obtain ⟨later, here, kept⟩ := grows.operation id operation found
  obtain ⟨result, same⟩ := Option.isSome_iff_exists.mp done
  exact ⟨later, here, by rw [kept.result result same, Option.isSome_some]⟩

theorem Grows.admitted (grows : queue.Grows after) (admitted : queue.Admitted index) :
    after.Admitted index := by
  obtain ⟨call, found, done⟩ := admitted
  obtain ⟨later, here, kept⟩ := grows.call index call found
  obtain ⟨admission, same⟩ := Option.isSome_iff_exists.mp done
  exact ⟨later, here, by rw [kept.admission admission same, Option.isSome_some]⟩

theorem Grows.outcome (grows : queue.Grows after) {later : Call μ κ ε τ}
    (kept : KeepsCall call later) {result : Except ε τ}
    (told : queue.outcome call = some result) : after.outcome later = some result := by
  obtain ⟨admission, same, rest⟩ := Option.bind_eq_some_iff.mp told
  rw [Queue.outcome, kept.admission admission same, Option.bind_some]
  cases admission with
  | error error => exact rest
  | ok id =>
      obtain ⟨operation, found, done⟩ := Option.bind_eq_some_iff.mp rest
      obtain ⟨there, here, same⟩ := grows.operation id operation found
      show (after.operations[id]?).bind Operation.result = some result
      rw [here, Option.bind_some]
      exact same.result result done

theorem Grows.holds_entries (grows : queue.Grows after) (below : id < queue.operations.length) :
    Holds after.entries id key ↔ Holds queue.entries id key := by
  rw [Queue.holds_entries, Queue.holds_entries]
  have found := List.getElem?_eq_getElem below
  obtain ⟨later, here, kept⟩ := grows.operation id _ found
  rw [here, found]
  simp only [Option.some.injEq, exists_eq_left', Operation.keys, kept.waits]

theorem Grows.holds_admissions (grows : queue.Grows after) (below : index < queue.calls.length) :
    Holds after.admissions index scope ↔ Holds queue.admissions index scope := by
  rw [Queue.holds_admissions, Queue.holds_admissions]
  have found := List.getElem?_eq_getElem below
  obtain ⟨later, here, kept⟩ := grows.call index _ found
  rw [here, found]
  simp only [Option.some.injEq, exists_eq_left', Call.scopes, kept.waits]

theorem Grows.clear (grows : queue.Grows after) (upTo : n ≤ queue.operations.length)
    (clear : Clear queue.entries queue.Settled key n) :
    Clear after.entries after.Settled key n := fun earlier below holds =>
  grows.settled (clear earlier below ((grows.holds_entries (below.trans_le upTo)).mp holds))

theorem Grows.clear_admissions (grows : queue.Grows after) (upTo : n ≤ queue.calls.length)
    (clear : Clear queue.admissions queue.Admitted scope n) :
    Clear after.admissions after.Admitted scope n := fun earlier below holds =>
  grows.admitted (clear earlier below ((grows.holds_admissions (below.trans_le upTo)).mp holds))

structure OperationSound (queue : Queue μ κ ε τ) (id : Nat) (operation : Operation κ ε τ) :
    Prop where
  ran : operation.result.isSome = true → operation.started = true
  tail : operation.tailSettled = true → operation.result.isSome = true
  cleaned : operation.cleanedUp = true → operation.tailSettled = true
  clear : operation.started = true → ∀ key ∈ operation.keys,
    Clear queue.entries queue.Settled key id

structure CallSound (queue : Queue μ κ ε τ) (index : Nat) (call : Call μ κ ε τ) : Prop where
  single : call.waits.length ≤ 1
  tail : call.tailSettled = true → call.admission.isSome = true
  cleaned : call.cleanedUp = true → call.tailSettled = true
  clear : call.admission.isSome = true → ∀ scope ∈ call.scopes,
    Clear queue.admissions queue.Admitted scope index
  failed : ∀ error, call.admission = some (.error error) →
    call.keysResolution = some (.error error)
  enqueued : ∀ id, call.admission = some (.ok id) →
    ∃ operation keys, queue.operations[id]? = some operation ∧ operation.caller = index ∧
      call.keysResolution = some (.ok keys) ∧ ∀ key, key ∈ operation.keys ↔ key ∈ keys
  told : ∀ result, call.result = some result → queue.outcome call = some result

structure Sound (queue : Queue μ κ ε τ) : Prop where
  files : Ordered queue.fileMutationTails queue.entries queue.Settled
  admissions : Ordered queue.keyAdmissions queue.admissions queue.Admitted
  operation : ∀ (id : Nat) operation, queue.operations[id]? = some operation →
    queue.OperationSound id operation
  call : ∀ (index : Nat) call, queue.calls[index]? = some call → queue.CallSound index call
  uncleaned : ∀ key id, queue.fileMutationTails.get? key = some id →
    ∀ operation, queue.operations[id]? = some operation → operation.cleanedUp = false
  uncleared : ∀ scope index, queue.keyAdmissions.get? scope = some index →
    ∀ call, queue.calls[index]? = some call → call.cleanedUp = false
  inOrder : ∀ (i j : Nat) first second, queue.calls[i]? = some first →
    queue.calls[j]? = some second → i < j → ∀ scope ∈ first.scopes, scope ∈ second.scopes →
      ∀ earlier later, first.admission = some (.ok earlier) →
        second.admission = some (.ok later) → earlier < later

theorem sound_create : Sound (create : Queue μ κ ε τ) where
  files := ordered_empty
  admissions := ordered_empty
  operation _ _ found := by cases found
  call _ _ found := by cases found
  uncleaned _ _ found := by cases found
  uncleared _ _ found := by cases found
  inOrder _ _ _ _ found := by cases found

theorem OperationSound.mono (sound : queue.OperationSound id operation)
    (grows : queue.Grows after) (upTo : id ≤ queue.operations.length) :
    after.OperationSound id operation where
  ran := sound.ran
  tail := sound.tail
  cleaned := sound.cleaned
  clear started key mem := grows.clear upTo (sound.clear started key mem)

theorem CallSound.mono (sound : queue.CallSound index call) (grows : queue.Grows after)
    (upTo : index ≤ queue.calls.length) : after.CallSound index call where
  single := sound.single
  tail := sound.tail
  cleaned := sound.cleaned
  clear admitted scope mem := grows.clear_admissions upTo (sound.clear admitted scope mem)
  failed := sound.failed
  enqueued id same := by
    obtain ⟨operation, keys, found, caller, resolved, held⟩ := sound.enqueued id same
    obtain ⟨later, here, kept⟩ := grows.operation id operation found
    refine ⟨later, keys, here, kept.caller.trans caller, resolved, fun key => ?_⟩
    rw [Operation.keys, kept.waits]
    exact held key
  told result same := grows.outcome ⟨rfl, fun _ same => same, fun _ same => same⟩ (sound.told result same)

/-- The tails that an operation waits for tell of all the earlier ones of their keys. -/
theorem Sound.clear_of_fulfilled (sound : queue.Sound)
    (found : queue.operations[id]? = some operation)
    (fulfilled : allFulfilled queue.tailSettled operation.waits = true)
    (mem : key ∈ operation.keys) : Clear queue.entries queue.Settled key id := by
  obtain ⟨wait, held, rfl⟩ := List.mem_map.mp mem
  refine sound.files.clear (waits_entries found held) fun previous before => ?_
  have settled := List.all_eq_true.mp fulfilled wait held
  obtain ⟨other, there, tail⟩ :=
    (Option.any_eq_true _ _).mp ((Option.all_eq_true _ _).mp settled previous before)
  have known := sound.operation previous other there
  refine ⟨⟨other, there, known.tail tail⟩, fun holds => ?_⟩
  obtain ⟨same, here, mine⟩ := holds_entries.mp holds
  obtain rfl := Option.some.inj (there.symm.trans here)
  exact known.clear (known.ran (known.tail tail)) _ mine

theorem Sound.clear_of_admits (sound : queue.Sound) (found : queue.calls[index]? = some call)
    (fulfilled : allFulfilled queue.admissionSettled call.waits = true)
    (mem : scope ∈ call.scopes) : Clear queue.admissions queue.Admitted scope index := by
  obtain ⟨wait, held, rfl⟩ := List.mem_map.mp mem
  refine sound.admissions.clear (waits_admissions found held) fun previous before => ?_
  have settled := List.all_eq_true.mp fulfilled wait held
  obtain ⟨other, there, tail⟩ :=
    (Option.any_eq_true _ _).mp ((Option.all_eq_true _ _).mp settled previous before)
  have known := sound.call previous other there
  refine ⟨⟨other, there, known.tail tail⟩, fun holds => ?_⟩
  obtain ⟨same, here, mine⟩ := holds_admissions.mp holds
  obtain rfl := Option.some.inj (there.symm.trans here)
  exact known.clear (known.tail tail) _ mine

end Queue
end OpenClaw.FileMutationQueue
