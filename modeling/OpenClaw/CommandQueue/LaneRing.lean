import Mathlib.Data.List.Basic
import Mathlib.Data.Nat.ModEq

/-!
The growable ring buffer behind each priority of a lane queue. `Holds ring xs` says
which FIFO list a ring stores: `head` and `length` delimit the occupied slots, so a
slot outside them may keep anything. Growing unwraps the ring, and taking the last
entry gives its backing array back.
-/

namespace CommandQueue

structure QueueRing (α : Type*) where
  entries : List (Option α) := []
  head : Nat := 0
  length : Nat := 0
  deriving DecidableEq

namespace QueueRing

variable {α : Type*} {ring : QueueRing α} {x : α} {xs ys : List α}

def INITIAL_QUEUE_RING_CAPACITY : Nat := 16

def createQueueRing : QueueRing α := {}

/-- The slot `offset` places behind the head, reading `undefined` outside the array. -/
def at_ (ring : QueueRing α) (offset : Nat) : Option α :=
  (ring.entries[(ring.head + offset) % ring.entries.length]?).join

/-- A full ring moves to the front of an array of twice its size. -/
def grown (ring : QueueRing α) : QueueRing α :=
  let nextCapacity := max INITIAL_QUEUE_RING_CAPACITY (ring.length * 2)
  { ring with
    entries := (List.range ring.length).map ring.at_ ++
      List.replicate (nextCapacity - ring.length) none
    head := 0 }

def appendQueueRing (ring : QueueRing α) (entry : Option α) : QueueRing α :=
  let ring := if ring.length = ring.entries.length then ring.grown else ring
  { ring with
    entries := ring.entries.set ((ring.head + ring.length) % ring.entries.length) entry
    length := ring.length + 1 }

def peekQueueRing (ring : QueueRing α) : Option α :=
  if 0 < ring.length then (ring.entries[ring.head]?).join else none

def dequeueQueueRing (ring : QueueRing α) : Option α × QueueRing α :=
  if ring.length = 0 then (none, ring)
  else
    let entry := (ring.entries[ring.head]?).join
    let entries := ring.entries.set ring.head none
    if ring.length - 1 = 0 then (entry, {})
    else (entry, { entries, head := (ring.head + 1) % entries.length, length := ring.length - 1 })

/-- `count` rounds of the removal loop: every other entry goes back behind the rest. -/
def rotate [DecidableEq α] (entry : α) : Nat → QueueRing α → QueueRing α
  | 0, ring => ring
  | count + 1, ring =>
      let (candidate, ring) := ring.dequeueQueueRing
      rotate entry count (if candidate ≠ some entry then ring.appendQueueRing candidate else ring)

structure Holds (ring : QueueRing α) (xs : List α) : Prop where
  length : ring.length = xs.length
  fits : xs.length ≤ ring.entries.length
  head : ring.entries ≠ [] → ring.head < ring.entries.length
  slots : ∀ i (inside : i < xs.length),
    ring.entries[(ring.head + i) % ring.entries.length]? = some (some (xs.get ⟨i, inside⟩))

theorem holds_create : (createQueueRing : QueueRing α).Holds [] :=
  ⟨rfl, le_rfl, fun nonempty => absurd rfl nonempty, fun _ inside => absurd inside (Nat.not_lt_zero _)⟩

/-- Different offsets within the capacity name different slots. -/
theorem slot_injective {head i j capacity : Nat} (hi : i < capacity) (hj : j < capacity)
    (same : (head + i) % capacity = (head + j) % capacity) : i = j :=
  (Nat.ModEq.add_left_cancel' head same).eq_of_lt_of_lt hi hj

theorem Holds.at_ (holds : ring.Holds xs) {i : Nat} (inside : i < xs.length) :
    ring.at_ i = some (xs.get ⟨i, inside⟩) := by
  rw [QueueRing.at_, holds.slots i inside, Option.join_some]

/-- Growing keeps the list and leaves a free slot. -/
theorem Holds.grown (holds : ring.Holds xs) :
    ring.grown.Holds xs ∧ xs.length < ring.grown.entries.length := by
  have size : ring.grown.entries.length =
      ring.length + (max INITIAL_QUEUE_RING_CAPACITY (ring.length * 2) - ring.length) := by
    simp [QueueRing.grown]
  have room : xs.length < ring.grown.entries.length := by
    rw [size, holds.length, INITIAL_QUEUE_RING_CAPACITY]
    omega
  refine ⟨⟨holds.length, room.le, fun _ => ?_, fun i inside => ?_⟩, room⟩
  · exact (Nat.zero_le _).trans_lt room
  · have moved : i < ring.length := holds.length ▸ inside
    change ring.grown.entries[(0 + i) % ring.grown.entries.length]? = _
    rw [Nat.zero_add, Nat.mod_eq_of_lt (inside.trans room), QueueRing.grown,
      List.getElem?_append_left (by simpa using moved), List.getElem?_map,
      List.getElem?_range moved, Option.map_some, holds.at_ inside]

theorem Holds.appendQueueRing (holds : ring.Holds xs) (x : α) :
    (ring.appendQueueRing (some x)).Holds (xs ++ [x]) := by
  obtain ⟨roomy, room, holds⟩ : ∃ roomy : QueueRing α, xs.length < roomy.entries.length ∧
      roomy.Holds xs ∧ ring.appendQueueRing (some x) = { roomy with
        entries := roomy.entries.set ((roomy.head + roomy.length) % roomy.entries.length) (some x)
        length := roomy.length + 1 } := by
    by_cases full : ring.length = ring.entries.length
    · exact ⟨ring.grown, holds.grown.2, holds.grown.1, by simp only [QueueRing.appendQueueRing, full, if_true]⟩
    · refine ⟨ring, ?_, holds, by simp only [QueueRing.appendQueueRing, full, if_false]⟩
      have := holds.length
      have := holds.fits
      omega
  obtain ⟨holds, eq⟩ := holds
  have positive : 0 < roomy.entries.length := (Nat.zero_le _).trans_lt room
  have last := Nat.mod_lt (roomy.head + roomy.length) positive
  rw [eq]
  refine ⟨by simp [holds.length], by simpa using Nat.succ_le_of_lt room, fun _ => ?_, fun i inside => ?_⟩
  · simpa using holds.head (List.ne_nil_of_length_pos positive)
  · simp only [List.length_set]
    rcases Nat.lt_or_ge i xs.length with old | new
    · have other : (roomy.head + roomy.length) % roomy.entries.length ≠
          (roomy.head + i) % roomy.entries.length := fun same =>
        absurd (slot_injective (holds.length ▸ room) (old.trans room) same)
          (by rw [holds.length]; exact Nat.ne_of_gt old)
      rw [List.getElem?_set_ne other, holds.slots i old]
      simp [List.getElem_append_left old]
    · have eq : i = roomy.length := by
        have := holds.length
        simp only [List.length_append, List.length_singleton] at inside
        omega
      subst eq
      rw [List.getElem?_set_self last]
      simp [holds.length]

theorem Holds.dequeueQueueRing_nil (holds : ring.Holds ([] : List α)) :
    ring.dequeueQueueRing = (none, ring) := by
  simp [QueueRing.dequeueQueueRing, holds.length]

theorem Holds.first (holds : ring.Holds (x :: xs)) : ring.entries[ring.head]? = some (some x) := by
  have nonempty : ring.entries ≠ [] := by
    intro empty
    have := holds.fits
    simp [empty] at this
  have slot := holds.slots 0 (Nat.succ_pos _)
  rwa [Nat.add_zero, Nat.mod_eq_of_lt (holds.head nonempty)] at slot

theorem Holds.peekQueueRing (holds : ring.Holds xs) : ring.peekQueueRing = xs.head? := by
  cases xs with
  | nil => simp [QueueRing.peekQueueRing, holds.length]
  | cons x xs => simp [QueueRing.peekQueueRing, holds.length, holds.first]

theorem Holds.dequeueQueueRing_cons (holds : ring.Holds (x :: xs)) :
    (ring.dequeueQueueRing).1 = some x ∧ (ring.dequeueQueueRing).2.Holds xs := by
  have occupied : ring.length ≠ 0 := by simp [holds.length]
  simp only [QueueRing.dequeueQueueRing, occupied, if_false, holds.first, Option.join_some]
  have count : ring.length - 1 = xs.length := by simp [holds.length]
  cases xs with
  | nil =>
      simp only [count, List.length_nil, if_true, true_and]
      exact holds_create
  | cons y ys =>
      have left : ring.length - 1 ≠ 0 := by simp [count]
      simp only [left, if_false, true_and]
      have fits : ys.length + 2 ≤ ring.entries.length := holds.fits
      have positive : 0 < ring.entries.length := by omega
      have headed := holds.head (List.ne_nil_of_length_pos positive)
      refine ⟨count, by simpa using holds.fits.trans' (Nat.le_succ _), fun _ => ?_, fun i inside => ?_⟩
      · simpa using Nat.mod_lt _ positive
      · simp only [List.length_set, List.length_cons] at inside ⊢
        have next := holds.slots (i + 1) (by simpa using inside)
        have place : ((ring.head + 1) % ring.entries.length + i) % ring.entries.length =
            (ring.head + (i + 1)) % ring.entries.length := by
          rw [Nat.mod_add_mod, Nat.add_assoc, Nat.add_comm 1 i]
        have other : ring.head ≠ (ring.head + (i + 1)) % ring.entries.length := by
          intro same
          have zero : (ring.head + 0) % ring.entries.length =
              (ring.head + (i + 1)) % ring.entries.length := by
            rw [Nat.add_zero, Nat.mod_eq_of_lt headed, ← same]
          exact absurd (slot_injective positive (by omega) zero) (Nat.succ_ne_zero i).symm
        rw [place, List.getElem?_set_ne other, next]
        rfl

theorem Holds.rotate [DecidableEq α] {entry : α} (holds : ring.Holds (xs ++ ys)) :
    (rotate entry xs.length ring).Holds (ys ++ xs.filter (· ≠ entry)) := by
  induction xs generalizing ring ys with
  | nil => simpa [QueueRing.rotate] using holds
  | cons x xs ih =>
      rw [List.cons_append] at holds
      obtain ⟨taken, rest⟩ := holds.dequeueQueueRing_cons
      simp only [List.length_cons, QueueRing.rotate, taken]
      by_cases same : x = entry
      · subst same
        simpa using ih rest
      · have back := rest.appendQueueRing x
        rw [List.append_assoc] at back
        simpa [same] using ih back

end QueueRing
end CommandQueue
