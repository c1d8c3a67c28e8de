import Mathlib.Data.List.Nodup
import OpenClaw.CommandQueue.LaneRing
import OpenClaw.CommandQueue.Settlement

/-!
The lane queue over its three rings is a stable priority queue. `StableQueue` is the purpose:
the queued entries in order of arrival, served by highest priority and then by age. The rings
refine the three lists of `LaneQueue`, and these are the arrivals of each priority, so any
sequence of operations gives the answers of the stable queue. The callbacks that detach an
abort listener are left out.
-/

namespace CommandQueue

/-- Three fixed FIFO rings, one for each supported priority, and their common counter. -/
structure RingLaneQueue where
  background : QueueRing EntryId := .createQueueRing
  normal : QueueRing EntryId := .createQueueRing
  foreground : QueueRing EntryId := .createQueueRing
  length : Int := 0
  deriving DecidableEq

/-- A queue and the `queued` flag of every entry object. -/
structure RingLane where
  queue : RingLaneQueue := {}
  queued : EntryId → Bool := fun _ => false

inductive LaneOperation
  | enqueue (entry : EntryId)
  | dequeue
  | peek
  | remove (entry : EntryId)

inductive LaneAnswer
  | queuedAhead (count : Nat)
  | entry (entry : Option EntryId)
  | removed (found : Bool)
  deriving DecidableEq

namespace RingLaneQueue

def getPriorityRing (queue : RingLaneQueue) : QueuePriority → QueueRing EntryId
  | .foreground => queue.foreground
  | .background => queue.background
  | .normal => queue.normal

def setPriorityRing (queue : RingLaneQueue) (ring : QueueRing EntryId) :
    QueuePriority → RingLaneQueue
  | .foreground => { queue with foreground := ring }
  | .background => { queue with background := ring }
  | .normal => { queue with normal := ring }

@[simp] theorem getPriorityRing_setPriorityRing (queue : RingLaneQueue) (ring : QueueRing EntryId)
    (priority other : QueuePriority) :
    (queue.setPriorityRing ring priority).getPriorityRing other =
      if other = priority then ring else queue.getPriorityRing other := by
  cases priority <;> cases other <;> rfl

@[simp] theorem getPriorityRing_length (queue : RingLaneQueue) (length : Int)
    (priority : QueuePriority) :
    ({ queue with length } : RingLaneQueue).getPriorityRing priority =
      queue.getPriorityRing priority := by
  cases priority <;> rfl

/-- Each ring stores the list of its priority. -/
def Holds (queue : RingLaneQueue) (lists : LaneQueue) : Prop :=
  ∀ priority, (queue.getPriorityRing priority).Holds (lists.getPriorityRing priority)

end RingLaneQueue

namespace RingLane

variable (priority : EntryId → QueuePriority)

def enqueueLaneQueue (lane : RingLane) (entry : EntryId) : Nat × RingLane :=
  let queue := lane.queue
  let ring := queue.getPriorityRing (priority entry)
  let queuedAhead := ring.length +
    (if (priority entry).value ≤ 0 then queue.foreground.length else 0) +
    (if (priority entry).value < 0 then queue.normal.length else 0)
  (queuedAhead,
    { queue := { queue.setPriorityRing (ring.appendQueueRing (some entry)) (priority entry) with
        length := queue.length + 1 }
      queued := Function.update lane.queued entry true })

def peekLaneQueue (lane : RingLane) : Option EntryId :=
  (lane.queue.foreground.peekQueueRing.or lane.queue.normal.peekQueueRing).or
    lane.queue.background.peekQueueRing

/-- The first ring that gives an entry up, in the order the rings are asked. -/
def dequeueFirst (queue : RingLaneQueue) : List QueuePriority → Option EntryId × RingLaneQueue
  | [] => (none, queue)
  | p :: rest =>
      let (entry, ring) := (queue.getPriorityRing p).dequeueQueueRing
      match entry with
      | some entry => (some entry, queue.setPriorityRing ring p)
      | none => dequeueFirst (queue.setPriorityRing ring p) rest

def dequeueLaneQueue (lane : RingLane) : Option EntryId × RingLane :=
  match dequeueFirst lane.queue [.foreground, .normal, .background] with
  | (some entry, queue) =>
      (some entry,
        { queue := { queue with length := queue.length - 1 }
          queued := Function.update lane.queued entry false })
  | (none, queue) => (none, { lane with queue })

def removeLaneQueueEntry (lane : RingLane) (entry : EntryId) : Bool × RingLane :=
  if lane.queued entry then
    let ring := lane.queue.getPriorityRing (priority entry)
    let queue := lane.queue.setPriorityRing (ring.rotate entry ring.length) (priority entry)
    (true,
      { queue := { queue with length := queue.length - 1 }
        queued := Function.update lane.queued entry false })
  else (false, lane)

def perform (lane : RingLane) : LaneOperation → LaneAnswer × RingLane
  | .enqueue entry =>
      let (ahead, lane) := lane.enqueueLaneQueue priority entry
      (.queuedAhead ahead, lane)
  | .dequeue =>
      let (entry, lane) := lane.dequeueLaneQueue
      (.entry entry, lane)
  | .peek => (.entry lane.peekLaneQueue, lane)
  | .remove entry =>
      let (found, lane) := lane.removeLaneQueueEntry priority entry
      (.removed found, lane)

/-- An entry object is created for one enqueue: none is enqueued while it is queued. -/
def permits (lane : RingLane) : LaneOperation → Bool
  | .enqueue entry => !lane.queued entry
  | _ => true

end RingLane

/-- The answers to a sequence of operations, and what they leave. -/
def answers {σ : Type} (perform : σ → LaneOperation → LaneAnswer × σ) :
    List LaneOperation → σ → List LaneAnswer × σ
  | [], s => ([], s)
  | op :: ops, s =>
      let (answer, next) := perform s op
      let (rest, last) := answers perform ops next
      (answer :: rest, last)

/-- Every operation of the sequence is permitted when its turn comes. -/
def RingLane.permitsAll (priority : EntryId → QueuePriority) :
    List LaneOperation → RingLane → Bool
  | [], _ => true
  | op :: ops, lane => lane.permits op && permitsAll priority ops (lane.perform priority op).2

/-! ### The abstract queue: entries in order of arrival -/

namespace StableQueue

variable (priority : EntryId → QueuePriority)

/-- The oldest entry of the highest priority that occurs. -/
def next (arrivals : List EntryId) : Option EntryId :=
  (arrivals.filter fun x => ∀ y ∈ arrivals, (priority y).value ≤ (priority x).value).head?

def dequeue (arrivals : List EntryId) : Option EntryId × List EntryId :=
  match next priority arrivals with
  | some entry => (some entry, arrivals.erase entry)
  | none => (none, arrivals)

/-- The entries in the order `count` dequeues would return them. -/
def served : Nat → List EntryId → List EntryId
  | 0, _ => []
  | count + 1, arrivals =>
      match next priority arrivals with
      | some entry => entry :: served count (arrivals.erase entry)
      | none => []

/-- How many entries would be dequeued before a new one if nothing else were enqueued. -/
def ahead (arrivals : List EntryId) (entry : EntryId) : Nat :=
  (served priority (arrivals.length + 1) (arrivals ++ [entry])).idxOf entry

def perform (arrivals : List EntryId) : LaneOperation → LaneAnswer × List EntryId
  | .enqueue entry => (.queuedAhead (ahead priority arrivals entry), arrivals ++ [entry])
  | .dequeue =>
      let (entry, rest) := dequeue priority arrivals
      (.entry entry, rest)
  | .peek => (.entry (next priority arrivals), arrivals)
  | .remove entry => (.removed (entry ∈ arrivals), arrivals.erase entry)

end StableQueue

/-! ### The rings refine the lists -/

namespace RingLaneQueue

variable {queue : RingLaneQueue} {lists : LaneQueue} {ring : QueueRing EntryId}
  {xs : List EntryId} {p : QueuePriority}

theorem Holds.setPriorityRing (holds : queue.Holds lists) (stored : ring.Holds xs) :
    (queue.setPriorityRing ring p).Holds (lists.setPriorityRing xs p) := by
  intro other
  rw [getPriorityRing_setPriorityRing, LaneQueue.getPriorityRing_setPriorityRing]
  split
  · exact stored
  · exact holds other

theorem Holds.length (holds : queue.Holds lists) (p : QueuePriority) :
    (queue.getPriorityRing p).length = (lists.getPriorityRing p).length := (holds p).length

theorem setPriorityRing_self (queue : RingLaneQueue) (p : QueuePriority) :
    queue.setPriorityRing (queue.getPriorityRing p) p = queue := by
  cases p <;> rfl

/-- Asking the rings in turn takes the head of the first list that has one. -/
theorem Holds.dequeueFirst (holds : queue.Holds lists) (order : List QueuePriority) :
    (∃ p entry rest, p ∈ order ∧ lists.getPriorityRing p = entry :: rest ∧
      (∀ q ∈ order.takeWhile (· ≠ p), lists.getPriorityRing q = []) ∧
      ∃ queue', RingLane.dequeueFirst queue order = (some entry, queue') ∧
        queue'.length = queue.length ∧ queue'.Holds (lists.setPriorityRing rest p)) ∨
    (∀ q ∈ order, lists.getPriorityRing q = []) ∧
      RingLane.dequeueFirst queue order = (none, queue) := by
  induction order with
  | nil => exact .inr ⟨fun _ mem => absurd mem List.not_mem_nil, rfl⟩
  | cons p order ih =>
      cases list : lists.getPriorityRing p with
      | cons entry rest =>
          have stored := holds p
          rw [list] at stored
          obtain ⟨taken, kept⟩ := stored.dequeueQueueRing_cons
          refine .inl ⟨p, entry, rest, List.mem_cons_self, list, ?_, _, ?_, ?_,
            holds.setPriorityRing kept⟩
          · simp
          · simp [RingLane.dequeueFirst, taken]
          · cases p <;> rfl
      | nil =>
          have stored := holds p
          rw [list] at stored
          have idle := stored.dequeueQueueRing_nil
          have step : RingLane.dequeueFirst queue (p :: order) = RingLane.dequeueFirst queue order := by
            simp [RingLane.dequeueFirst, idle, setPriorityRing_self]
          rw [step]
          rcases ih with ⟨q, entry, rest, mem, head, before, found⟩ | ⟨empty, none⟩
          · refine .inl ⟨q, entry, rest, List.mem_cons_of_mem _ mem, head, ?_, found⟩
            intro r earlier
            have differs : p ≠ q := by
              rintro rfl
              simp [list] at head
            simp only [List.takeWhile_cons, differs, ne_eq, not_false_eq_true, decide_true,
              if_true, List.mem_cons] at earlier
            rcases earlier with rfl | earlier
            · exact list
            · exact before r earlier
          · refine .inr ⟨?_, none⟩
            intro r mem
            rcases List.mem_cons.mp mem with rfl | mem
            · exact list
            · exact empty r mem

end RingLaneQueue

/-! ### The lists are the arrivals of each priority -/

namespace StableQueue

variable {priority : EntryId → QueuePriority} {arrivals : List EntryId} {entry : EntryId}
  {p : QueuePriority}

def ofPriority (priority : EntryId → QueuePriority) (arrivals : List EntryId)
    (p : QueuePriority) : List EntryId :=
  arrivals.filter fun x => priority x = p

def lists (priority : EntryId → QueuePriority) (arrivals : List EntryId) : LaneQueue where
  background := ofPriority priority arrivals .background
  normal := ofPriority priority arrivals .normal
  foreground := ofPriority priority arrivals .foreground

@[simp] theorem getPriorityRing_lists :
    (lists priority arrivals).getPriorityRing p = ofPriority priority arrivals p := by
  cases p <;> rfl

def order (priority : EntryId → QueuePriority) (arrivals : List EntryId) : List EntryId :=
  ofPriority priority arrivals .foreground ++ ofPriority priority arrivals .normal ++
    ofPriority priority arrivals .background

theorem order_perm (arrivals : List EntryId) : (order priority arrivals).Perm arrivals := by
  induction arrivals with
  | nil => exact .nil
  | cons x xs ih =>
      have grown : (order priority (x :: xs)).Perm (x :: order priority xs) := by
        cases at_ : priority x
        all_goals
          simp only [order, ofPriority, List.filter_cons, at_, reduceCtorEq, decide_true,
            decide_false, if_true, Bool.false_eq_true, if_false, List.cons_append]
        case background => exact List.perm_middle
        case normal =>
          rw [List.append_assoc, List.cons_append, List.append_assoc]
          exact List.perm_middle
        case foreground => exact .rfl
      exact grown.trans (ih.cons x)

theorem value_injective {p q : QueuePriority} (same : p.value = q.value) : p = q := by
  cases p <;> cases q <;> first | rfl | exact absurd same (by decide)

/-- The oldest entry of highest priority heads the list of the highest priority in use. -/
theorem next_of_highest (used : ofPriority priority arrivals p ≠ [])
    (highest : ∀ y ∈ arrivals, (priority y).value ≤ p.value) :
    next priority arrivals = (ofPriority priority arrivals p).head? := by
  obtain ⟨top, mem⟩ := List.exists_mem_of_ne_nil _ used
  obtain ⟨arrived, at_⟩ := List.mem_filter.mp mem
  have at_ : priority top = p := by simpa using at_
  unfold next ofPriority
  congr 1
  refine List.filter_congr fun x arrives => decide_eq_decide.mpr ⟨fun above => ?_, ?_⟩
  · exact value_injective (le_antisymm (highest x arrives) (at_ ▸ above top arrived))
  · rintro rfl y arrives
    exact highest y arrives

theorem priority_ne_of_ofPriority_nil (unused : ofPriority priority arrivals p = []) :
    ∀ y ∈ arrivals, priority y ≠ p := by
  simpa [ofPriority, List.filter_eq_nil_iff] using unused

theorem next_eq_head (arrivals : List EntryId) :
    next priority arrivals = (order priority arrivals).head? := by
  by_cases foreground : ofPriority priority arrivals .foreground = []
  · by_cases normal : ofPriority priority arrivals .normal = []
    · have only : ∀ y ∈ arrivals, priority y = .background := by
        intro y mem
        have := priority_ne_of_ofPriority_nil foreground y mem
        have := priority_ne_of_ofPriority_nil normal y mem
        cases at_ : priority y <;> simp_all
      by_cases background : ofPriority priority arrivals .background = []
      · have none : arrivals = [] := List.eq_nil_iff_forall_not_mem.mpr fun y mem =>
          priority_ne_of_ofPriority_nil background y mem (only y mem)
        subst none
        rfl
      · rw [next_of_highest background fun y mem => by rw [only y mem]]
        simp [order, foreground, normal]
    · rw [next_of_highest normal fun y mem => ?_]
      · obtain ⟨first, rest, eq⟩ := List.exists_cons_of_ne_nil normal
        simp [order, foreground, eq]
      · have := priority_ne_of_ofPriority_nil foreground y mem
        cases at_ : priority y <;> first | decide | exact absurd at_ this
  · rw [next_of_highest foreground fun y mem => by cases priority y <;> decide]
    obtain ⟨first, rest, eq⟩ := List.exists_cons_of_ne_nil foreground
    simp [order, eq]

theorem ofPriority_erase (nodup : arrivals.Nodup) (entry : EntryId) (p : QueuePriority) :
    ofPriority priority (arrivals.erase entry) p =
      (ofPriority priority arrivals p).filter (· ≠ entry) := by
  simp only [ofPriority, nodup.erase_eq_filter, List.filter_filter, Bool.and_comm, bne,
    beq_eq_decide, ne_eq, decide_not]

theorem order_erase (nodup : arrivals.Nodup) (entry : EntryId) :
    order priority (arrivals.erase entry) = (order priority arrivals).erase entry := by
  rw [((order_perm arrivals).nodup_iff.mpr nodup).erase_eq_filter]
  simp only [order, ofPriority_erase nodup, List.filter_append, bne, beq_eq_decide, ne_eq,
    decide_not]

/-- Serving entry by entry runs through the arrivals by priority and then by age. -/
theorem served_eq (nodup : arrivals.Nodup) (count : Nat) :
    served priority count arrivals = (order priority arrivals).take count := by
  induction count generalizing arrivals with
  | zero => rfl
  | succ count ih =>
      rw [served, next_eq_head]
      cases ordered : order priority arrivals with
      | nil => rfl
      | cons first rest =>
          simp only [List.head?_cons, List.take_succ_cons]
          rw [ih (nodup.erase first), order_erase nodup, ordered, List.erase_cons_head]

theorem ahead_eq (nodup : arrivals.Nodup) (fresh : entry ∉ arrivals) :
    ahead priority arrivals entry = (order priority (arrivals ++ [entry])).idxOf entry := by
  have larger : (arrivals ++ [entry]).Nodup :=
    List.nodup_append.mpr ⟨nodup, List.nodup_singleton _, fun a mem b single => by
      rw [List.mem_singleton.mp single]
      exact fun same => fresh (same ▸ mem)⟩
  rw [ahead, served_eq larger, List.take_of_length_le]
  rw [(order_perm _).length_eq]
  simp

theorem ahead_eq_queuedAhead (nodup : arrivals.Nodup) (fresh : entry ∉ arrivals) :
    ahead priority arrivals entry =
      (lists priority arrivals).queuedAhead (priority entry) := by
  have outside : ∀ p, entry ∉ ofPriority priority arrivals p :=
    fun p mem => fresh (List.mem_filter.mp mem).1
  rw [ahead_eq nodup fresh]
  cases at_ : priority entry
  all_goals
    have appended : ∀ p, ofPriority priority (arrivals ++ [entry]) p =
        ofPriority priority arrivals p ++ if priority entry = p then [entry] else [] := by
      intro p
      by_cases same : priority entry = p <;> simp [ofPriority, same]
    simp only [order, appended, at_, reduceCtorEq, if_true, if_false, List.append_nil,
      List.append_assoc, List.singleton_append, List.idxOf_append_of_notMem (outside _),
      List.idxOf_cons_self]
  case background =>
    simp [LaneQueue.queuedAhead, QueuePriority.value, lists, LaneQueue.getPriorityRing]
    omega
  case normal =>
    simp [LaneQueue.queuedAhead, QueuePriority.value, lists, LaneQueue.getPriorityRing]
    omega
  case foreground =>
    simp [LaneQueue.queuedAhead, QueuePriority.value, lists, LaneQueue.getPriorityRing]

end StableQueue

/-! ### Every sequence of operations -/

namespace RingLane

open StableQueue (lists ofPriority)

variable {priority : EntryId → QueuePriority} {lane : RingLane} {arrivals : List EntryId}

/-- The lane holds these arrivals: ring by ring, by its counter, and by the entries' flags. -/
structure Represents (priority : EntryId → QueuePriority) (lane : RingLane)
    (arrivals : List EntryId) : Prop where
  rings : lane.queue.Holds (lists priority arrivals)
  length : lane.queue.length = arrivals.length
  queued : ∀ entry, lane.queued entry = true ↔ entry ∈ arrivals
  nodup : arrivals.Nodup

theorem represents_create : Represents priority {} [] where
  rings p := by cases p <;> exact QueueRing.holds_create
  length := rfl
  queued _ := by simp
  nodup := List.nodup_nil

theorem Represents.rings_of_eq {queue : RingLaneQueue} {old : LaneQueue} {new : List EntryId}
    (holds : queue.Holds old)
    (same : ∀ p, old.getPriorityRing p = ofPriority priority new p) :
    queue.Holds (lists priority new) := by
  intro p
  rw [StableQueue.getPriorityRing_lists, ← same]
  exact holds p

theorem Represents.enqueue (represents : Represents priority lane arrivals) {entry : EntryId}
    (fresh : lane.queued entry = false) :
    (lane.enqueueLaneQueue priority entry).1 = StableQueue.ahead priority arrivals entry ∧
      Represents priority (lane.enqueueLaneQueue priority entry).2 (arrivals ++ [entry]) := by
  have outside : entry ∉ arrivals := by
    rw [← represents.queued, fresh]
    decide
  have ring := represents.rings (priority entry)
  refine ⟨?_, ⟨?_, ?_, ?_, ?_⟩⟩
  · rw [StableQueue.ahead_eq_queuedAhead represents.nodup outside, LaneQueue.queuedAhead]
    simp only [enqueueLaneQueue, represents.rings.length (priority entry)]
    exact congrArg₂ _ (congrArg₂ _ rfl (congrArg₂ _ (represents.rings.length .foreground) rfl))
      (congrArg₂ _ (represents.rings.length .normal) rfl)
  · have stored := represents.rings.setPriorityRing (p := priority entry) (ring.appendQueueRing entry)
    intro p
    rw [enqueueLaneQueue, RingLaneQueue.getPriorityRing_length]
    refine Represents.rings_of_eq stored (fun q => ?_) p
    rw [LaneQueue.getPriorityRing_setPriorityRing, StableQueue.getPriorityRing_lists,
      StableQueue.getPriorityRing_lists]
    by_cases same : q = priority entry
    · subst same
      simp [ofPriority]
    · simp [ofPriority, same, Ne.symm same]
  · simp [enqueueLaneQueue, represents.length]
  · intro other
    by_cases same : other = entry
    · subst same
      simp [enqueueLaneQueue]
    · simp [enqueueLaneQueue, represents.queued, same]
  · exact List.nodup_append.mpr ⟨represents.nodup, List.nodup_singleton _,
      fun a mem b single same => outside (List.mem_singleton.mp single ▸ same ▸ mem)⟩

theorem Represents.peek (represents : Represents priority lane arrivals) :
    lane.peekLaneQueue = StableQueue.next priority arrivals := by
  have ring : ∀ p, (lane.queue.getPriorityRing p).peekQueueRing =
      (ofPriority priority arrivals p).head? := fun p => by
    rw [(represents.rings p).peekQueueRing, StableQueue.getPriorityRing_lists]
  rw [StableQueue.next_eq_head, StableQueue.order, List.head?_append, List.head?_append,
    ← ring, ← ring, ← ring]
  rfl

/-- Taking one entry out of the list of its priority is taking it out of the arrivals. -/
theorem Represents.erase (represents : Represents priority lane arrivals) {entry : EntryId}
    {queue : RingLaneQueue} (mem : entry ∈ arrivals) (counter : queue.length = lane.queue.length)
    (rings : ∀ p, (queue.getPriorityRing p).Holds
      ((ofPriority priority arrivals p).filter (· ≠ entry))) :
    Represents priority
      { queue := { queue with length := queue.length - 1 }
        queued := Function.update lane.queued entry false } (arrivals.erase entry) := by
  refine ⟨fun p => ?_, ?_, fun other => ?_, represents.nodup.erase entry⟩
  · rw [RingLaneQueue.getPriorityRing_length, StableQueue.getPriorityRing_lists,
      StableQueue.ofPriority_erase represents.nodup]
    exact rings p
  · have positive := List.length_pos_of_mem mem
    have length := represents.length
    have erased := List.length_erase_of_mem mem
    dsimp only
    omega
  · by_cases same : other = entry
    · subst same
      simp [represents.nodup.mem_erase_iff]
    · simp [represents.queued, represents.nodup.mem_erase_iff, same]

theorem Represents.dequeue (represents : Represents priority lane arrivals) :
    (lane.dequeueLaneQueue).1 = (StableQueue.dequeue priority arrivals).1 ∧
      Represents priority (lane.dequeueLaneQueue).2 (StableQueue.dequeue priority arrivals).2 := by
  have rings := represents.rings
  rcases rings.dequeueFirst [.foreground, .normal, .background] with
    ⟨p, entry, rest, -, head, before, queue, taken, counter, kept⟩ | ⟨empty, idle⟩
  · rw [StableQueue.getPriorityRing_lists] at head
    have front : StableQueue.next priority arrivals = some entry := by
      rw [StableQueue.next_eq_head, StableQueue.order]
      simp only [StableQueue.getPriorityRing_lists] at before
      cases p <;> simp_all [List.takeWhile]
    have arrived : entry ∈ arrivals := by
      have inside : entry ∈ ofPriority priority arrivals p := head ▸ List.mem_cons_self
      exact (List.mem_filter.mp inside).1
    have at_ : priority entry = p := by
      have inside : entry ∈ ofPriority priority arrivals p := head ▸ List.mem_cons_self
      simpa using (List.mem_filter.mp inside).2
    simp only [dequeueLaneQueue, taken, StableQueue.dequeue, front, true_and]
    refine represents.erase arrived counter fun q => ?_
    have stored := kept q
    rw [LaneQueue.getPriorityRing_setPriorityRing, StableQueue.getPriorityRing_lists] at stored
    have distinct : (ofPriority priority arrivals p).Nodup := represents.nodup.filter _
    by_cases same : q = p
    · subst same
      rw [if_pos rfl] at stored
      rw [head] at distinct ⊢
      have outside := (List.nodup_cons.mp distinct).1
      rw [List.filter_cons_of_neg (by simp), List.filter_eq_self.mpr fun x mem => ?_]
      · exact stored
      · simpa using fun eq : x = entry => outside (eq ▸ mem)
    · rw [if_neg same] at stored
      rw [List.filter_eq_self.mpr fun x mem => ?_]
      · exact stored
      · have found : priority x = q := by simpa using (List.mem_filter.mp mem).2
        simpa using fun eq : x = entry => same (by rw [← found, eq, at_])
  · have none : StableQueue.next priority arrivals = none := by
      have foreground := empty .foreground (by simp)
      have normal := empty .normal (by simp)
      have background := empty .background (by simp)
      rw [StableQueue.getPriorityRing_lists] at foreground normal background
      rw [StableQueue.next_eq_head, StableQueue.order, foreground, normal, background]
      rfl
    simp only [dequeueLaneQueue, idle, StableQueue.dequeue, none, true_and]
    exact represents

theorem Represents.remove (represents : Represents priority lane arrivals) (entry : EntryId) :
    (lane.removeLaneQueueEntry priority entry).1 = decide (entry ∈ arrivals) ∧
      Represents priority (lane.removeLaneQueueEntry priority entry).2 (arrivals.erase entry) := by
  by_cases queued : lane.queued entry = true
  · have arrived := (represents.queued entry).mp queued
    simp only [removeLaneQueueEntry, queued, if_true, arrived, decide_true, true_and]
    have ring := represents.rings (priority entry)
    rw [StableQueue.getPriorityRing_lists] at ring
    refine represents.erase arrived (by cases priority entry <;> rfl) fun q => ?_
    rw [RingLaneQueue.getPriorityRing_setPriorityRing]
    by_cases same : q = priority entry
    · subst same
      rw [if_pos rfl, ring.length]
      have all : (lane.queue.getPriorityRing (priority entry)).Holds
          (ofPriority priority arrivals (priority entry) ++ []) := by simpa using ring
      have rotated : QueueRing.Holds _ ([] ++ List.filter (· ≠ entry) _) := all.rotate
      simpa using rotated
    · rw [if_neg same, List.filter_eq_self.mpr fun x mem => ?_]
      · have stored := represents.rings q
        rwa [StableQueue.getPriorityRing_lists] at stored
      · have found : priority x = q := by simpa using (List.mem_filter.mp mem).2
        simpa using fun eq : x = entry => same (by rw [← found, eq])
  · have absent : entry ∉ arrivals := fun mem => queued ((represents.queued entry).mpr mem)
    simp only [removeLaneQueueEntry, queued, Bool.false_eq_true, if_false, absent, decide_false,
      true_and, List.erase_of_not_mem absent]
    exact represents

/-- One operation: the same answer, and the arrivals it leaves are again represented. -/
theorem Represents.perform (represents : Represents priority lane arrivals)
    {op : LaneOperation} (permitted : lane.permits op = true) :
    (lane.perform priority op).1 = (StableQueue.perform priority arrivals op).1 ∧
      Represents priority (lane.perform priority op).2
        (StableQueue.perform priority arrivals op).2 := by
  cases op with
  | enqueue entry =>
      obtain ⟨answer, next⟩ := represents.enqueue (by simpa [permits] using permitted)
      exact ⟨congrArg LaneAnswer.queuedAhead answer, next⟩
  | dequeue =>
      obtain ⟨answer, next⟩ := represents.dequeue
      exact ⟨congrArg LaneAnswer.entry answer, next⟩
  | peek => exact ⟨congrArg LaneAnswer.entry represents.peek, represents⟩
  | remove entry =>
      obtain ⟨answer, next⟩ := represents.remove entry
      exact ⟨congrArg LaneAnswer.removed answer, next⟩

theorem Represents.answers (represents : Represents priority lane arrivals)
    (ops : List LaneOperation) (permitted : permitsAll priority ops lane = true) :
    (CommandQueue.answers (RingLane.perform priority) ops lane).1 =
        (CommandQueue.answers (StableQueue.perform priority) ops arrivals).1 ∧
      Represents priority (CommandQueue.answers (RingLane.perform priority) ops lane).2
        (CommandQueue.answers (StableQueue.perform priority) ops arrivals).2 := by
  induction ops generalizing lane arrivals with
  | nil => exact ⟨rfl, represents⟩
  | cons op ops ih =>
      obtain ⟨now, later⟩ := Bool.and_eq_true_iff.mp permitted
      obtain ⟨answer, next⟩ := represents.perform now
      obtain ⟨rest, last⟩ := ih next later
      exact ⟨congrArg₂ List.cons answer rest, last⟩

/-- A lane that starts empty answers as the stable priority queue does, whatever is enqueued,
dequeued, peeked at and removed, and its counter and its entries' flags follow. -/
theorem laneQueue_refines_stableQueue (priority : EntryId → QueuePriority)
    (ops : List LaneOperation) (permitted : permitsAll priority ops {} = true) :
    let rings := CommandQueue.answers (perform priority) ops {}
    let stable := CommandQueue.answers (StableQueue.perform priority) ops []
    rings.1 = stable.1 ∧ rings.2.queue.length = stable.2.length ∧
      ∀ entry, rings.2.queued entry = true ↔ entry ∈ stable.2 := by
  obtain ⟨same, last⟩ := represents_create.answers ops permitted
  exact ⟨same, last.length, last.queued⟩

/-- Entries 2 and 4 are foreground work, 5 is background work. -/
theorem laneQueue_refines_mixed :
    let priority : EntryId → QueuePriority := fun entry =>
      if entry = 5 then .background else if entry % 2 = 0 then .foreground else .normal
    let ops : List LaneOperation :=
      [.enqueue 1, .enqueue 2, .enqueue 5, .enqueue 3, .remove 1, .enqueue 4, .dequeue, .peek]
    (CommandQueue.answers (perform priority) ops {}).1 =
      [.queuedAhead 0, .queuedAhead 0, .queuedAhead 2, .queuedAhead 2, .removed true,
        .queuedAhead 1, .entry (some 2), .entry (some 4)] := by
  intro priority ops
  rw [(laneQueue_refines_stableQueue priority ops (by decide)).1]
  decide

end RingLane
end CommandQueue
