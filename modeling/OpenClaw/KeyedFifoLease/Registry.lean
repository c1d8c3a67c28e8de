import OpenClaw.Lib.JsCollections
import OpenClaw.Lib.Transition

/-!
A registry of leases over sets of keys. A lease queues behind the tail promise of each of its
keys and puts a tail of its own in its place, which settles once that predecessor has settled
and the lease is completed. Handlers of settled promises run in any order here: nothing below
rests on the order in which the microtasks are taken.
-/

namespace OpenClaw.KeyedFifoLease

variable {κ : Type} [LinearOrder κ]

/-- A key of a lease, and the lease whose tail was found under it. -/
structure Owned (κ : Type) where
  key : κ
  predecessor : Option Nat
  deriving DecidableEq, Repr

structure Wait where
  lease : Nat
  /-- Whether the signal has aborted, where there is one. -/
  signal : Option Bool
  result : Option Bool
  deriving DecidableEq, Repr

/-- A lease is known by its place among the reserved ones, a tail by its lease and its key. -/
structure Registry (κ : Type) [LinearOrder κ] where
  tails : JsMap κ Nat
  releases : List Nat
  leases : List (List (Owned κ))
  completed : List Nat
  /-- The tails chained to a predecessor that have settled. -/
  settled : List (Nat × κ)
  /-- The handlers that are to take a settled tail out of the map. -/
  cleanups : List (Nat × κ)
  waits : List Wait

inductive Step (κ : Type)
  | reserve (inputKeys : List κ)
  | wait (lease : Nat) (signal : Option Bool)
  | abort (wait : Nat)
  | release (lease : Nat)
  | close
  /-- Handlers of promises: a chained tail settles, is cleaned up, a wait finds itself ready. -/
  | settleTail (lease : Nat) (key : κ)
  | cleanUp (lease : Nat) (key : κ)
  | ready (wait : Nat)

def Step.isInternal : Step κ → Bool
  | .settleTail .. | .cleanUp .. | .ready _ => true
  | _ => false

namespace Registry

def create : Registry κ where
  tails := .empty
  releases := []
  leases := []
  completed := []
  settled := []
  cleanups := []
  waits := []

/-- Queue lease `id` up for each of the keys in turn. -/
def own (id : Nat) : List κ → JsMap κ Nat → JsMap κ Nat × List (Owned κ)
  | [], tails => (tails, [])
  | key :: rest, tails =>
      let (others, owned) := own id rest (tails.set key id)
      (others, ⟨key, tails.get? key⟩ :: owned)

/-- No lease is made for an empty list. -/
def reserve (registry : Registry κ) (inputKeys : List κ) : Registry κ :=
  let keys := JsArray.toSorted (fun left right => left < right) inputKeys.dedup
  if keys.length = 0 then registry
  else
    let (tails, owned) := own registry.leases.length keys registry.tails
    { registry with
      tails, leases := registry.leases ++ [owned], releases := registry.releases ++ [registry.leases.length] }

def release (registry : Registry κ) (id : Nat) : Registry κ :=
  if id ∈ registry.releases then
    { registry with
      releases := registry.releases.filter fun other => other ≠ id
      completed := registry.completed ++ [id]
      cleanups := registry.cleanups ++
        ((registry.leases[id]?).getD []).map fun own => (id, own.key) }
  else registry

def close (registry : Registry κ) : Registry κ :=
  { registry.releases.foldl release registry with tails := .empty }

/-- A tail without a predecessor is the promise that its lease completes. -/
def isSettled (registry : Registry κ) (id : Nat) (key : κ) : Bool :=
  (id, key) ∈ registry.settled ||
    id ∈ registry.completed && (registry.leases[id]?).any fun owned => ⟨key, none⟩ ∈ owned

/-- A chained tail settles when its predecessor has settled and its lease is completed. -/
def settlesTail (registry : Registry κ) (id : Nat) (key : κ) : Bool :=
  id ∈ registry.completed && (id, key) ∉ registry.settled &&
    ((registry.leases[id]?).getD []).any fun own =>
      own.key = key && own.predecessor.any fun predecessor => registry.isSettled predecessor key

/-- Every promise that a wait was given is fulfilled. -/
def isReady (registry : Registry κ) (id : Nat) : Bool :=
  ((registry.leases[id]?).getD []).all fun own =>
    own.predecessor.all fun predecessor => registry.isSettled predecessor own.key

/-- A promise is resolved once. -/
def resolve (registry : Registry κ) (index : Nat) (value : Bool) : Registry κ :=
  { registry with
    waits := registry.waits.modify index fun wait => { wait with result := wait.result.or (some value) } }

def step (registry : Registry κ) : Step κ → Option (Registry κ)
  | .reserve inputKeys => some (registry.reserve inputKeys)
  | .wait lease signal =>
      if lease < registry.leases.length then
        let result := if signal = some true then some false else none
        some { registry with waits := registry.waits ++ [{ lease, signal, result }] }
      else none
  | .abort index =>
      if (registry.waits[index]?).any fun wait => wait.signal = some false then
        let aborted :=
          { registry with
            waits := registry.waits.modify index fun wait => { wait with signal := some true } }
        some (aborted.resolve index false)
      else none
  | .release id => some (registry.release id)
  | .close => some registry.close
  | .settleTail id key =>
      if registry.settlesTail id key then
        some { registry with settled := registry.settled ++ [(id, key)] }
      else none
  | .cleanUp id key =>
      if (id, key) ∈ registry.cleanups ∧ registry.isSettled id key then
        some { registry with
          cleanups := registry.cleanups.erase (id, key)
          tails :=
            if registry.tails.get? key = some id then registry.tails.delete key else registry.tails }
      else none
  | .ready index =>
      if (registry.waits[index]?).any fun wait =>
          wait.result.isNone && registry.isReady wait.lease then
        some (registry.resolve index true)
      else none

/-- No handler is left to run. -/
def Idle (registry : Registry κ) : Prop :=
  ∀ label : Step κ, label.isInternal = true → registry.step label = none

def Holds (registry : Registry κ) (id : Nat) (key : κ) : Prop :=
  ∃ owned, registry.leases[id]? = some owned ∧ ∃ own ∈ owned, own.key = key

def Shares (registry : Registry κ) (first second : Nat) : Prop :=
  ∃ key, registry.Holds first key ∧ registry.Holds second key

/-- The handlers that may still run before the next call. -/
def work (registry : Registry κ) : Nat :=
  (registry.waits.countP fun wait => wait.result.isNone) + registry.cleanups.length +
    (registry.leases.zipIdx.flatMap fun lease => lease.1.map fun own => (lease.2, own.key)).countP
      fun tail => tail ∉ registry.settled

/-- What is expected of a registry in every state. -/
structure Contract (registry : Registry κ) : Prop where
  reserved : ∀ inputKeys key, inputKeys ≠ [] →
    ((registry.reserve inputKeys).Holds registry.leases.length key ↔ key ∈ inputKeys)
  exclusive : ∀ wait ∈ registry.waits, wait.result = some true →
    ∀ earlier < wait.lease, registry.Shares earlier wait.lease → earlier ∈ registry.completed
  /-- Behind completed leases only, a wait is decided when the handlers have run. -/
  unblocked : registry.Idle → ∀ wait ∈ registry.waits, wait.signal ≠ some true →
    (∀ earlier < wait.lease, registry.Shares earlier wait.lease → earlier ∈ registry.completed) →
      wait.result = some true
  finite : ∀ label after, label.isInternal = true → registry.step label = some after →
    after.work < registry.work
  emptied : registry.Idle → (∀ id < registry.leases.length, id ∈ registry.completed) →
    registry.tails.entries = []

end Registry

end OpenClaw.KeyedFifoLease

/-!
Who is before whom. Under each key the tail in the map belongs to the last lease of that key,
and a lease queues behind the last one before it; where a lease finds no tail, those before it
are completed. So a settled tail tells of every earlier lease of its key.
-/

namespace OpenClaw.KeyedFifoLease

variable {κ : Type} [LinearOrder κ] {registry after : Registry κ} {id : Nat} {key : κ}
  {before : Option Nat}

namespace Registry

def Owns (registry : Registry κ) (id : Nat) (key : κ) (before : Option Nat) : Prop :=
  ∃ owned, registry.leases[id]? = some owned ∧ ⟨key, before⟩ ∈ owned

theorem holds_iff : registry.Holds id key ↔ ∃ before, registry.Owns id key before := by
  constructor
  · rintro ⟨owned, found, ⟨_, before⟩, mem, rfl⟩
    exact ⟨before, owned, found, mem⟩
  · rintro ⟨before, owned, found, mem⟩
    exact ⟨owned, found, _, mem, rfl⟩

theorem Owns.lt (owns : registry.Owns id key before) : id < registry.leases.length := by
  obtain ⟨owned, found, -⟩ := owns
  exact (List.getElem?_eq_some_iff.mp found).1

theorem Holds.lt (holds : registry.Holds id key) : id < registry.leases.length :=
  let ⟨_, owns⟩ := holds_iff.mp holds
  owns.lt

/-- The earlier leases of a key are completed. -/
def Clear (registry : Registry κ) (key : κ) (id : Nat) : Prop :=
  ∀ earlier < id, registry.Holds earlier key → earlier ∈ registry.completed

structure Ordered (registry : Registry κ) : Prop where
  live : ∀ id < registry.leases.length, id ∈ registry.completed ↔ id ∉ registry.releases
  made : ∀ id, id ∈ registry.completed ∨ id ∈ registry.releases → id < registry.leases.length
  first : ∀ id key, registry.Owns id key none → registry.Clear key id
  next : ∀ id key previous, registry.Owns id key (some previous) →
    registry.Holds previous key ∧ previous < id ∧
      ∀ between, previous < between → between < id → ¬registry.Holds between key
  last : ∀ key id, registry.tails.get? key = some id →
    registry.Holds id key ∧ ∀ later, id < later → ¬registry.Holds later key
  free : ∀ key, registry.tails.get? key = none → registry.Clear key registry.leases.length
  settles : ∀ id key, (id, key) ∈ registry.settled →
    id < registry.leases.length ∧ registry.Clear key (id + 1)
  cleaned : ∀ key id, registry.tails.get? key = some id → id ∈ registry.completed →
    (id, key) ∈ registry.cleanups
  waits : ∀ wait ∈ registry.waits, wait.lease < registry.leases.length ∧
    (wait.result = some true → ∀ key, registry.Holds wait.lease key → registry.Clear key wait.lease) ∧
      (wait.result = some false → wait.signal = some true)

theorem ordered_create : Ordered (create : Registry κ) where
  live _ below := absurd below (Nat.not_lt_zero _)
  made _ either := by rcases either with ⟨⟨⟩⟩ | ⟨⟨⟩⟩
  first _ _ owns := absurd owns.lt (Nat.not_lt_zero _)
  next _ _ _ owns := absurd owns.lt (Nat.not_lt_zero _)
  last _ _ found := by cases found
  free _ _ _ below := absurd below (Nat.not_lt_zero _)
  settles _ _ mem := by cases mem
  cleaned _ _ found := by cases found
  waits _ mem := by cases mem

theorem holds_congr (leases : after.leases = registry.leases) :
    after.Holds id key ↔ registry.Holds id key := by
  rw [Holds, Holds, leases]

theorem owns_congr (leases : after.leases = registry.leases) :
    after.Owns id key before ↔ registry.Owns id key before := by
  rw [Owns, Owns, leases]

theorem Clear.mono (clear : registry.Clear key id) (leases : after.leases = registry.leases)
    (completed : registry.completed ⊆ after.completed) : after.Clear key id :=
  fun earlier below holds => completed (clear earlier below ((holds_congr leases).mp holds))

theorem Clear.of_last (clear : registry.Clear key (id + 1))
    (last : ∀ later, id < later → ¬registry.Holds later key) (n : Nat) : registry.Clear key n := by
  intro earlier _ holds
  by_cases below : earlier < id + 1
  · exact clear earlier below holds
  · exact absurd holds (last earlier (by omega))

/-- A settled tail tells of the leases up to its own. -/
theorem Ordered.clear_of_isSettled (ordered : registry.Ordered)
    (settled : registry.isSettled id key = true) : registry.Clear key (id + 1) := by
  simp only [isSettled, Bool.or_eq_true, Bool.and_eq_true, decide_eq_true_eq, Option.any_eq_true]
    at settled
  rcases settled with settled | ⟨completed, owned, found, mem⟩
  · exact (ordered.settles id key settled).2
  · have clear := ordered.first id key ⟨owned, found, mem⟩
    intro earlier below holds
    rcases Nat.lt_succ_iff_lt_or_eq.mp below with before | rfl
    · exact clear earlier before holds
    · exact completed

/-- Behind a lease whose predecessor's tail has settled, only completed leases are left. -/
theorem Ordered.clear_of_predecessor (ordered : registry.Ordered)
    (owns : registry.Owns id key before)
    (settled : ∀ previous ∈ before, registry.isSettled previous key = true) :
    registry.Clear key id := by
  cases before with
  | none => exact ordered.first id key owns
  | some previous =>
      obtain ⟨-, -, between⟩ := ordered.next id key previous owns
      have clear := ordered.clear_of_isSettled (settled previous rfl)
      intro earlier below holds
      by_cases upTo : earlier < previous + 1
      · exact clear earlier upTo holds
      · exact absurd holds (between earlier (by omega) below)

theorem Ordered.clear_of_settlesTail (ordered : registry.Ordered)
    (settles : registry.settlesTail id key = true) :
    id ∈ registry.completed ∧ registry.Clear key (id + 1) := by
  simp only [settlesTail, Bool.and_eq_true, decide_eq_true_eq, List.any_eq_true,
    Option.any_eq_true] at settles
  obtain ⟨⟨completed, -⟩, ⟨held, before⟩, mem, same, previous, here, settled⟩ := settles
  subst same here
  refine ⟨completed, fun earlier below holds => ?_⟩
  have owns : registry.Owns id held (some previous) := by
    cases found : registry.leases[id]? with
    | none =>
        rw [found] at mem
        cases mem
    | some owned =>
        rw [found] at mem
        exact ⟨owned, found, mem⟩
  rcases Nat.lt_succ_iff_lt_or_eq.mp below with before | rfl
  · refine ordered.clear_of_predecessor owns (fun other same => ?_) earlier before holds
    obtain rfl := Option.mem_some_iff.mp same
    exact settled
  · exact completed

theorem Ordered.clear_of_isReady (ordered : registry.Ordered) (ready : registry.isReady id = true)
    (holds : registry.Holds id key) : registry.Clear key id := by
  obtain ⟨before, owned, found, mem⟩ := holds_iff.mp holds
  rw [isReady, found, Option.getD_some, List.all_eq_true] at ready
  refine ordered.clear_of_predecessor ⟨owned, found, mem⟩ fun previous here => ?_
  exact (Option.all_eq_true _ _).mp (ready _ mem) previous here

/-- What only concerns the promises leaves the leases and the map as they are. -/
theorem Ordered.congr (ordered : registry.Ordered) (tails : after.tails = registry.tails)
    (releases : after.releases = registry.releases) (leases : after.leases = registry.leases)
    (completed : after.completed = registry.completed) (cleanups : after.cleanups = registry.cleanups)
    (settles : ∀ id key, (id, key) ∈ after.settled →
      id < registry.leases.length ∧ registry.Clear key (id + 1))
    (waits : ∀ wait ∈ after.waits, wait.lease < registry.leases.length ∧
      (wait.result = some true → ∀ key, registry.Holds wait.lease key →
        registry.Clear key wait.lease) ∧
        (wait.result = some false → wait.signal = some true)) : after.Ordered := by
  have clear : ∀ {key id}, registry.Clear key id → after.Clear key id := fun clear =>
    clear.mono leases (by rw [completed]; exact List.Subset.refl _)
  refine ⟨?_, ?_, ?_, ?_, ?_, ?_, ?_, ?_, ?_⟩
  · rw [leases, completed, releases]
    exact ordered.live
  · rw [leases, completed, releases]
    exact ordered.made
  · exact fun id key owns => clear (ordered.first id key ((owns_congr leases).mp owns))
  · simp only [holds_congr leases, owns_congr leases]
    exact ordered.next
  · simp only [tails, holds_congr leases]
    exact ordered.last
  · rw [tails, leases]
    exact fun key absent => clear (ordered.free key absent)
  · rw [leases]
    exact fun id key mem => (settles id key mem).imp_right clear
  · rw [tails, completed, cleanups]
    exact ordered.cleaned
  · rw [leases]
    simp only [holds_congr leases]
    intro wait mem
    obtain ⟨below, granted, refused⟩ := waits wait mem
    exact ⟨below, fun result key holds => clear (granted result key holds), refused⟩

end Registry
end OpenClaw.KeyedFifoLease
