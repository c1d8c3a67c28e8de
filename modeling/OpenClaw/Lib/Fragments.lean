import Mathlib

/-!
Messages cut into fragments of one size. A fragment carries the number of its message, its own
number and whether it is the last; a message has at least one fragment. The fragments of messages
in order are read back by collecting data up to a last fragment, and what has been read from the
front of a transmission stays what it is when more of it arrives.
-/

namespace Fragments

variable {α : Type*} {size id : Nat}

structure Fragment (α : Type*) where
  message : Nat
  index : Nat
  last : Bool
  data : List α
  deriving DecidableEq

/-- How many fragments a message has. -/
def count (size : Nat) (message : List α) : Nat := max 1 ((message.length + size - 1) / size)

def fragment (size id : Nat) (message : List α) (index : Nat) : Fragment α where
  message := id
  index := index
  last := index + 1 = count size message
  data := (message.drop (index * size)).take size

def fragments (size id : Nat) (message : List α) : List (Fragment α) :=
  (List.range (count size message)).map (fragment size id message)

/-- The fragments of some messages, numbered from one on. -/
def framing (size : Nat) : Nat → List (List α) → List (Fragment α)
  | _, [] => []
  | id, message :: rest => fragments size id message ++ framing size (id + 1) rest

/-- The messages that some fragments complete; `begun` is the data of an unfinished one. -/
def assemble : List α → List (Fragment α) → List (List α)
  | _, [] => []
  | begun, fragment :: rest =>
      if fragment.last then (begun ++ fragment.data) :: assemble [] rest
      else assemble (begun ++ fragment.data) rest

/-- The data of the message that some fragments leave unfinished. -/
def unfinished : List α → List (Fragment α) → List α
  | begun, [] => begun
  | begun, fragment :: rest =>
      if fragment.last then unfinished [] rest else unfinished (begun ++ fragment.data) rest

theorem count_pos (message : List α) : 0 < count size message := by
  unfold count
  omega

theorem framing_append (first : List (List α)) (rest : List (List α)) :
    framing size id (first ++ rest) =
      framing size id first ++ framing size (id + first.length) rest := by
  induction first generalizing id with
  | nil => rfl
  | cons message first ih =>
      simp only [List.cons_append, framing, ih, List.append_assoc, List.length_cons]
      rw [Nat.add_right_comm, Nat.add_assoc]

theorem assemble_append (begun : List α) (first rest : List (Fragment α)) :
    assemble begun (first ++ rest) =
      assemble begun first ++ assemble (unfinished begun first) rest := by
  induction first generalizing begun with
  | nil => rfl
  | cons fragment first ih =>
      simp only [List.cons_append, assemble, unfinished]
      split
      · rw [ih, List.cons_append]
      · rw [ih]

/-- What was read stays read. -/
theorem assemble_prefix {first all : List (Fragment α)} (part : first <+: all) :
    assemble [] first <+: assemble [] all := by
  obtain ⟨rest, rfl⟩ := part
  rw [assemble_append]
  exact List.prefix_append _ _

theorem assemble_of_no_last {begun : List α} {part : List (Fragment α)}
    (none : ∀ fragment ∈ part, fragment.last = false) : assemble begun part = [] := by
  induction part generalizing begun with
  | nil => rfl
  | cons fragment part ih =>
      have here := none fragment List.mem_cons_self
      rw [assemble, here, if_neg Bool.false_ne_true]
      exact ih fun other mem => none other (List.mem_cons_of_mem _ mem)

/-- The data of the first fragments is the front of the message. -/
theorem flatten_data_take (message : List α) (n : Nat) :
    ((List.range n).flatMap fun index => (fragment size id message index).data) =
      message.take (n * size) := by
  induction n with
  | zero => simp
  | succ n ih =>
      rw [List.range_succ, List.flatMap_append, ih, List.flatMap_singleton, fragment, Nat.succ_mul,
        List.take_add]

theorem length_le_count_mul (message : List α) (positive : 0 < size) :
    message.length ≤ count size message * size := by
  have enough := Nat.div_add_mod (message.length + size - 1) size
  have rest := Nat.mod_lt (message.length + size - 1) positive
  have more : (message.length + size - 1) / size ≤ count size message := Nat.le_max_right _ _
  calc
    message.length ≤ size * ((message.length + size - 1) / size) := by omega
    _ ≤ size * count size message := Nat.mul_le_mul_left _ more
    _ = _ := Nat.mul_comm _ _

theorem assemble_range {begun : List α} (message : List α) (n : Nat)
    (short : n < count size message)
    (rest : List (Fragment α)) :
    assemble begun ((List.range n).map (fragment size id message) ++ rest) =
      assemble (begun ++ message.take (n * size)) rest := by
  rw [assemble_append, assemble_of_no_last, List.nil_append, ← @flatten_data_take _ _ id]
  · congr 1
    have none : ∀ index ∈ List.range n, (fragment size id message index).last = false :=
      fun index mem => by
        have below := List.mem_range.mp mem
        simp only [fragment, decide_eq_false_iff_not]
        omega
    generalize List.range n = indexes at none
    induction indexes generalizing begun with
    | nil => simp [unfinished]
    | cons index indexes ih =>
        have here := none index List.mem_cons_self
        rw [List.map_cons, unfinished, here, if_neg Bool.false_ne_true,
          ih fun other mem => none other (List.mem_cons_of_mem _ mem), List.flatMap_cons,
          List.append_assoc]
  · intro fragment_ mem
    obtain ⟨index, inside, rfl⟩ := List.mem_map.mp mem
    have below := List.mem_range.mp inside
    simp only [fragment, decide_eq_false_iff_not]
    omega

theorem assemble_fragments (positive : 0 < size) (message : List α) (rest : List (Fragment α)) :
    assemble [] (fragments size id message ++ rest) = message :: assemble [] rest := by
  obtain ⟨n, last⟩ := Nat.exists_eq_succ_of_ne_zero (@count_pos _ size message).ne'
  rw [fragments, last, List.range_succ, List.map_append, List.append_assoc,
    assemble_range message n (by omega)]
  have whole : message.take (n * size) ++ (fragment size id message n).data = message := by
    rw [fragment, ← List.take_add, ← Nat.succ_mul, ← last]
    exact List.take_of_length_le (length_le_count_mul message positive)
  rw [List.map_singleton, List.singleton_append, assemble, if_pos (by simp [fragment, last]),
    List.nil_append, whole]

/-- The fragments of messages in order are read back as the messages. -/
theorem assemble_framing (positive : 0 < size) (messages : List (List α))
    (rest : List (Fragment α)) :
    assemble [] (framing size id messages ++ rest) = messages ++ assemble [] rest := by
  induction messages generalizing id with
  | nil => rfl
  | cons message messages ih =>
      rw [framing, List.append_assoc, assemble_fragments positive, ih, List.cons_append]

/-- The fragments that carry some pieces of one message, none of them the last. -/
def pieces (id : Nat) (chunks : List (List α)) : List (Fragment α) :=
  chunks.zipIdx.map fun entry => ⟨id, entry.2, false, entry.1⟩

theorem assemble_pieces (chunks : List (List α)) : assemble [] (pieces id chunks) = [] := by
  refine assemble_of_no_last fun fragment mem => ?_
  obtain ⟨entry, -, rfl⟩ := List.mem_map.mp mem
  rfl

theorem pieces_concat (chunks : List (List α)) (chunk : List α) :
    pieces id (chunks ++ [chunk]) = pieces id chunks ++ [⟨id, chunks.length, false, chunk⟩] := by
  simp [pieces, List.zipIdx_append]

theorem drop_flatten {chunks : List (List α)} (full : ∀ chunk ∈ chunks, chunk.length = size)
    (tail : List α) (n : Nat) (within : n ≤ chunks.length) :
    (chunks.flatten ++ tail).drop (n * size) = (chunks.drop n).flatten ++ tail := by
  induction chunks generalizing n with
  | nil =>
      cases Nat.le_zero.mp within
      simp
  | cons chunk chunks ih =>
      cases n with
      | zero => simp
      | succ n =>
          have here := full chunk List.mem_cons_self
          have size_ : (n + 1) * size = chunk.length + n * size := by
            rw [here, Nat.succ_mul, Nat.add_comm]
          rw [List.flatten_cons, List.append_assoc, size_, ← List.drop_drop, List.drop_left,
            ih (fun other mem => full other (List.mem_cons_of_mem _ mem)) n (by simpa using within),
            List.drop_succ_cons]

/-- Pieces of full size and a last one are the fragments of the message that they make up. -/
theorem fragments_of_pieces (positive : 0 < size) {chunks : List (List α)} {tail : List α}
    (full : ∀ chunk ∈ chunks, chunk.length = size) (short : tail.length ≤ size)
    (some_ : tail ≠ [] ∨ chunks = []) :
    fragments size id (chunks.flatten ++ tail) =
      pieces id chunks ++ [⟨id, chunks.length, true, tail⟩] := by
  have long : chunks.flatten.length = chunks.length * size := by
    rw [List.length_flatten, List.map_congr_left full, List.map_const', List.sum_replicate,
      smul_eq_mul]
  have number : count size (chunks.flatten ++ tail) = chunks.length + 1 := by
    rw [count, List.length_append, long]
    rcases some_ with nonempty | rfl
    · have pos := List.length_pos_iff.mpr nonempty
      have shape : chunks.length * size + tail.length + size - 1 =
          (tail.length - 1) + (chunks.length + 1) * size := by
        rw [Nat.succ_mul]
        omega
      rw [shape, Nat.add_mul_div_right _ _ positive, Nat.div_eq_of_lt (by omega)]
      omega
    · have little : (tail.length + size - 1) / size ≤ 1 := by
        have bound : tail.length + size - 1 < 2 * size := by omega
        have := Nat.div_lt_of_lt_mul (by rwa [Nat.mul_comm] : tail.length + size - 1 < size * 2)
        omega
      simp only [List.length_nil, Nat.zero_mul, Nat.zero_add]
      omega
  rw [fragments, number, List.range_succ, List.map_append, List.map_singleton]
  congr 1
  · refine List.ext_getElem (by simp [pieces]) fun i left right => ?_
    have inside : i < chunks.length := by simpa using left
    have data : ((chunks.flatten ++ tail).drop (i * size)).take size = chunks[i] := by
      rw [drop_flatten full tail i inside.le, List.drop_eq_getElem_cons inside, List.flatten_cons,
        List.append_assoc, List.take_left' (full _ (List.getElem_mem inside))]
    simp only [pieces, List.getElem_map, List.getElem_range, List.getElem_zipIdx, fragment, data,
      number, Nat.zero_add]
    simpa using inside.ne
  · have data : ((chunks.flatten ++ tail).drop (chunks.length * size)).take size = tail := by
      rw [drop_flatten full tail _ le_rfl, List.drop_length, List.flatten_nil, List.nil_append,
        List.take_of_length_le short]
    simp [fragment, number, data]

/-! The place of a fragment. -/

/-- The message and the number that the fragment after some others has. -/
def next : Nat × Nat → List (Fragment α) → Nat × Nat
  | place, [] => place
  | _, fragment :: rest =>
      next (if fragment.last then (fragment.message + 1, 0) else (fragment.message, fragment.index + 1))
        rest

theorem next_append (place : Nat × Nat) (first rest : List (Fragment α)) :
    next place (first ++ rest) = next (next place first) rest := by
  induction first generalizing place with
  | nil => rfl
  | cons fragment first ih => rw [List.cons_append, next, next, ih]

theorem next_fragments (place : Nat × Nat) (message : List α) :
    next place (fragments size id message) = (id + 1, 0) := by
  obtain ⟨n, last⟩ := Nat.exists_eq_succ_of_ne_zero (@count_pos _ size message).ne'
  rw [fragments, last, List.range_succ, List.map_append, next_append, List.map_singleton,
    next, next,
    if_pos (by simp [fragment, last])]
  rfl

theorem next_framing (messages : List (List α)) :
    next (id, 0) (framing size id messages) = (id + messages.length, 0) := by
  induction messages generalizing id with
  | nil => rfl
  | cons message messages ih =>
      rw [framing, next_append, next_fragments, ih, List.length_cons, Nat.add_right_comm,
        Nat.add_assoc]

theorem next_pieces (chunks : List (List α)) :
    next (id, 0) (pieces id chunks) = (id, chunks.length) := by
  induction chunks using List.reverseRecOn with
  | nil => rfl
  | append_singleton chunks chunk =>
      rw [pieces_concat, next_append, next, next, if_neg Bool.false_ne_true, List.length_append,
        List.length_singleton]

/-- The fragments of a message from one on, and those of later messages. -/
def remaining (size id : Nat) (message : List α) (rest : List (List α)) (index : Nat) :
    List (Fragment α) :=
  (List.range' index (count size message - index)).map (fragment size id message) ++
    framing size (id + 1) rest

theorem framing_cons (message : List α) (rest : List (List α)) :
    framing size id (message :: rest) = remaining size id message rest 0 := by
  rw [framing, remaining, fragments, List.range_eq_range', Nat.sub_zero]

theorem remaining_eq_cons {message : List α} {rest : List (List α)} {index : Nat}
    (inside : index < count size message) :
    remaining size id message rest index =
      fragment size id message index :: remaining size id message rest (index + 1) := by
  have more : count size message - index = (count size message - (index + 1)) + 1 := by omega
  rw [remaining, more, List.range'_succ]
  rfl

theorem remaining_of_le {message : List α} {rest : List (List α)} {index : Nat}
    (outside : count size message ≤ index) :
    remaining size id message rest index = framing size (id + 1) rest := by
  rw [remaining, Nat.sub_eq_zero_of_le outside]
  rfl

/-- In the framing of messages each fragment has the place that those before it leave. -/
theorem place_of_remaining {message : List α} {rest : List (List α)} {index : Nat}
    {before : List (Fragment α)} {after : Fragment α} (inside : index < count size message)
    (part : before ++ [after] <+: remaining size id message rest index) :
    (after.message, after.index) = next (id, index) before := by
  induction before generalizing id message rest index with
  | nil =>
      rw [remaining_eq_cons inside] at part
      have first : after = _ := (List.cons_prefix_cons.mp part).1
      rw [first]
      rfl
  | cons head before ih =>
      rw [remaining_eq_cons inside] at part
      obtain ⟨first, part⟩ := List.cons_prefix_cons.mp part
      rw [next, first]
      by_cases last : index + 1 = count size message
      · rw [remaining_of_le last.ge] at part
        rw [if_pos (by simp [fragment, last])]
        cases rest with
        | nil => simp [framing] at part
        | cons message' rest =>
            rw [framing_cons] at part
            exact ih (count_pos _) part
      · rw [if_neg (by simp [fragment, last])]
        have further : index + 1 < count size message := by omega
        exact ih further part

theorem place_of_framing {messages : List (List α)} {before : List (Fragment α)}
    {after : Fragment α} (part : before ++ [after] <+: framing size id messages) :
    (after.message, after.index) = next (id, 0) before := by
  cases messages with
  | nil => simp [framing] at part
  | cons message rest =>
      rw [framing_cons] at part
      exact place_of_remaining (count_pos _) part

/-- Every fragment of a framing is one of its message. -/
theorem eq_fragment_of_mem {messages : List (List α)} {fragment_ : Fragment α}
    (mem : fragment_ ∈ framing size id messages) :
    ∃ message, fragment_ = fragment size fragment_.message message fragment_.index ∧
      fragment_.index < count size message := by
  induction messages generalizing id with
  | nil => exact absurd mem List.not_mem_nil
  | cons message rest ih =>
      obtain here | later := List.mem_append.mp mem
      · obtain ⟨index, inside, rfl⟩ := List.mem_map.mp here
        exact ⟨message, rfl, List.mem_range.mp inside⟩
      · exact ih later

theorem mul_lt_of_lt_count (positive : 0 < size) {message : List α} {index : Nat}
    (inside : index < count size message) (some_ : index ≠ 0) : index * size < message.length := by
  have few : index < (message.length + size - 1) / size := by
    unfold count at inside
    omega
  have below := (Nat.le_div_iff_mul_le positive).mp (Nat.succ_le_of_lt few)
  rw [Nat.succ_mul] at below
  omega

/-- A fragment ends within its message. -/
theorem fragment_end_le (positive : 0 < size) {message : List α} {index : Nat}
    (inside : index < count size message) :
    index * size + (fragment size id message index).data.length ≤ message.length := by
  rw [fragment, List.length_take, List.length_drop]
  by_cases first : index = 0
  · rw [first, Nat.zero_mul]
    omega
  · have before := mul_lt_of_lt_count positive inside first
    omega

/-- Only the last fragment of a message is short, and only the first one may be empty. -/
theorem fragment_size (positive : 0 < size) {message : List α} {index : Nat}
    (inside : index < count size message) :
    ((fragment size id message index).last = false →
      (fragment size id message index).data.length = size) ∧
    ((fragment size id message index).data = [] → index = 0) := by
  refine ⟨fun more => ?_, fun empty => ?_⟩
  · have next_ : index + 1 ≠ count size message := by simpa [fragment] using more
    have below := mul_lt_of_lt_count positive (by omega : index + 1 < count size message)
      (Nat.succ_ne_zero index)
    rw [Nat.succ_mul] at below
    rw [fragment, List.length_take, List.length_drop]
    omega
  · by_contra some_
    have bound := mul_lt_of_lt_count positive inside some_
    have none : ((message.drop (index * size)).take size).length = 0 :=
      List.length_eq_zero_iff.mpr empty
    rw [List.length_take, List.length_drop] at none
    omega

end Fragments
