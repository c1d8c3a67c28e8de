import OpenClaw.NodeDuplex.Channel

/-!
The frames of the other end pass every check: an open endpoint that has room for a message takes the
next frame of the wire.
-/

namespace OpenClaw.NodeDuplex

open Fragments

variable {options : Options} {parse : List Char → Option Json} {endpoint : Endpoint}

theorem isSafeInteger_of_isNumber {n : Nat} {value : Option Json}
    (number : isNumber (n : ℚ) value = true) (small : n ≤ MAX_SAFE_INTEGER) :
    isSafeInteger value = true := by
  unfold isNumber at number
  split at number
  · have same := of_decide_eq_true number
    rw [same]
    simp only [isSafeInteger, Rat.den_natCast, Rat.num_natCast, decide_eq_true_eq, true_and]
    rw [abs_of_nonneg (Int.natCast_nonneg n)]
    exact_mod_cast small
  · cases number

theorem isText_ready_of_data {value : Option Json} (data : isText "data" value = true) :
    isText "ready" value = false := by
  unfold isText at data
  split at data
  · rw [of_decide_eq_true data]
    rfl
  · cases data

namespace Endpoint

/-- What is left to check of a fragment in its place. -/
structure Admits (options : Options) (fragment : Fragment UInt8) (endpoint : Endpoint) : Prop where
  message : endpoint.incomingMessage = fragment.message
  index : endpoint.incomingFragment = fragment.index
  safe : IsSafe fragment
  short : fragment.data.length ≤ NODE_DUPLEX_FRAGMENT_BYTES
  full : fragment.last = false → fragment.data.length = NODE_DUPLEX_FRAGMENT_BYTES
  nonempty : fragment.data = [] → fragment.index = 0
  total : fragment.index * NODE_DUPLEX_FRAGMENT_BYTES + fragment.data.length ≤
    options.maxMessageBytes
  pending : endpoint.listener.isNone = true → (endpoint.pendingMessages.map List.length).sum +
    (fragment.index * NODE_DUPLEX_FRAGMENT_BYTES + fragment.data.length) ≤ MAX_PENDING_BYTES

theorem acceptData_of_admits {parsed : Json} {fragment : Fragment UInt8} (answer : Answer)
    (data : IsData parsed fragment) (admits : Admits options fragment endpoint) :
    endpoint.acceptData options parsed answer =
      endpoint.acceptFragment options fragment.last fragment.data answer := by
  have decoded : Base64Url.decode (String.ofList (toBase64 fragment.data)).toList =
      fragment.data := by
    rw [String.toList_ofList, decode_toBase64]
  rw [acceptData, data.last, data.data]
  simp only [decoded]
  rw [if_neg, if_neg, if_neg, if_neg, if_neg]
  · rintro ⟨deaf, large⟩
    have small := admits.pending deaf
    rw [admits.index] at large
    omega
  · rw [admits.index]
    exact not_lt.mpr admits.total
  · rw [String.toList_ofList]
    rintro (bad | bad | ⟨more, bad⟩ | ⟨-, empty, later⟩)
    · exact bad rfl
    · exact absurd admits.short (not_le.mpr bad)
    · exact bad (admits.full more)
    · have first := admits.nonempty (List.length_eq_zero_iff.mp empty)
      rw [admits.index, first] at later
      exact absurd later (lt_irrefl 0)
  · rw [admits.message, admits.index, data.message, data.index]
    simp
  · rw [data.keys, isSafeInteger_of_isNumber data.message admits.safe.1,
      isSafeInteger_of_isNumber data.index admits.safe.2]
    simp

theorem receiveOpen_of_admits {frame : List Char} {fragment : Fragment UInt8} (answer : Answer)
    (spells : Spells parse frame fragment) (fits : Outcomes.byteLength frame ≤ FRAME_BYTES)
    (announced : options.requireReady = true → endpoint.readyReceived = true)
    (admits : Admits options fragment endpoint) :
    endpoint.receiveOpen options parse frame answer =
      endpoint.acceptFragment options fragment.last fragment.data answer := by
  obtain ⟨parsed, parsed_, data⟩ := spells
  rw [receiveOpen, if_neg (not_lt.mpr fits), parsed_]
  dsimp only
  rw [data.record, data.version, if_neg (by simp), isText_ready_of_data data.kind,
    if_neg Bool.false_ne_true, data.kind, if_neg ?_]
  · exact acceptData_of_admits answer data admits
  · rintro (bad | ⟨required, unready⟩)
    · cases bad
    · exact absurd ((announced required).symm.trans unready) (by simp)

theorem receiveOpen_of_announces {frame : List Char} (answer : Answer)
    (announces : Announces parse frame) (fits : Outcomes.byteLength frame ≤ FRAME_BYTES)
    (unready : endpoint.readyReceived = false) (message : endpoint.incomingMessage = 0)
    (index : endpoint.incomingFragment = 0) :
    endpoint.receiveOpen options parse frame answer =
      ({ endpoint with readyReceived := true }, false) := by
  obtain ⟨parsed, parsed_, ready⟩ := announces
  rw [receiveOpen, if_neg (not_lt.mpr fits), parsed_]
  dsimp only
  rw [ready.record, ready.version, if_neg (by simp), ready.kind, if_pos rfl, if_neg ?_]
  rw [ready.keys, unready, message, index]
  simp

theorem Reading.at_start (reading : endpoint.Reading options parse)
    (nothing : endpoint.readFragments = []) :
    endpoint.incomingMessage = 0 ∧ endpoint.incomingFragment = 0 := by
  have messages := assemble_readFragments endpoint
  rw [nothing] at messages
  have none := congrArg List.length (List.append_eq_nil_iff.mp nothing).2
  rw [pieces, List.length_map, List.length_zipIdx] at none
  rw [reading.number, reading.fragment, ← messages, none]
  exact ⟨rfl, rfl⟩

/-- A frame that passes every check leaves the endpoint open. -/
theorem receive_stays_open {frame : List Char} {answer : Answer} (opened : endpoint.closed = false)
    (nonempty : frame ≠ [])
    (passes : ({ endpoint with received := endpoint.received ++ [frame] }.receiveOpen options parse
      frame answer).2 = false) :
    (endpoint.receive options parse frame answer).closed = false := by
  have quiet := @quietPart_receiveOpen options parse frame answer
    { endpoint with received := endpoint.received ++ [frame] }
  simp only [quietPart, Prod.mk.injEq] at quiet
  rw [receive, if_neg (by simp [opened, nonempty]), caught, passes, if_neg Bool.false_ne_true,
    quiet.2.1, opened]

/-- An endpoint that can take another message of some size. -/
def HasRoom (options : Options) (bytes : Nat) (endpoint : Endpoint) : Prop :=
  if endpoint.listener.isSome then
    endpoint.activeDeliveries.length < MAX_PENDING_MESSAGES ∧
      endpoint.activeDeliveryBytes + bytes ≤ options.maxOutstandingDeliveryBytes
  else
    endpoint.pendingMessages.length < MAX_PENDING_MESSAGES ∧
      (endpoint.pendingMessages.map List.length).sum + bytes ≤ MAX_PENDING_BYTES

theorem acceptFragment_of_hasRoom {bytes : Nat} {data : Bytes} {answer : Answer} (last : Bool)
    (room : HasRoom options bytes endpoint) (fits : (endpoint.incomingFragments.flatten ++
      data).length ≤ bytes) (returns : answer ≠ .throws) :
    (endpoint.acceptFragment options last data answer).2 = false := by
  unfold HasRoom at room
  unfold acceptFragment
  cases last with
  | false => rfl
  | true =>
      simp only [if_true, List.flatten_concat]
      by_cases listening : endpoint.listener.isSome = true
      · rw [if_pos listening] at room
        rw [if_pos listening, observeListener, if_neg ?_]
        · cases answer with
          | returns => rfl
          | promises => rfl
          | throws => exact absurd rfl returns
        · rintro (full | large)
          · exact absurd room.1 (not_lt.mpr full)
          · dsimp only at large
            omega
      · rw [if_neg listening] at room
        rw [if_neg listening, if_neg (not_le.mpr room.1)]

end Endpoint
/-- The next fragment on a wire is the one that an open endpoint waits for. -/
theorem place_of_next {messages : List Bytes} {fragments_ : List (Fragment UInt8)}
    {fragment_ : Fragment UInt8} (reading : endpoint.Reading options parse)
    (part : fragments_ <+: framing NODE_DUPLEX_FRAGMENT_BYTES 0 messages)
    (next_ : endpoint.readFragments ++ [fragment_] <+: fragments_) :
    endpoint.incomingMessage = fragment_.message ∧ endpoint.incomingFragment = fragment_.index ∧
      (fragment_.last = false → fragment_.data.length = NODE_DUPLEX_FRAGMENT_BYTES) ∧
      (fragment_.data = [] → fragment_.index = 0) := by
  have place := place_of_framing (next_.trans part)
  rw [Endpoint.readFragments, next_append, next_framing, Nat.zero_add, ← reading.number,
    next_pieces,
    ← reading.fragment, Prod.mk.injEq] at place
  have listed : fragment_ ∈ framing NODE_DUPLEX_FRAGMENT_BYTES 0 messages :=
    (next_.trans part).subset (List.mem_append_right _ List.mem_cons_self)
  obtain ⟨message, same, inside⟩ := eq_fragment_of_mem listed
  refine ⟨place.1.symm, place.2.symm, ?_⟩
  rw [same]
  exact fragment_size (by decide) inside

theorem forall₂_spells_next (parses : ParsesFrames parse) {n : Nat} {read : List (List Char)}
    {fragments_ all : List (Fragment UInt8)} {frame : List Char}
    (safe : ∀ fragment ∈ all, IsSafe fragment) (front : read = (dataFrames all).take n)
    (spell : List.Forall₂ (Spells parse) read fragments_)
    (next_ : (dataFrames all)[n]? = some frame) :
    ∃ fragment_, frame = dataFrame fragment_ ∧ fragments_ ++ [fragment_] <+: all := by
  rw [dataFrames, List.getElem?_map, Option.map_eq_some_iff] at next_
  obtain ⟨fragment_, here, rfl⟩ := next_
  obtain ⟨inside, at_⟩ := List.getElem?_eq_some_iff.mp here
  rw [front, dataFrames_take] at spell
  have same := forall₂_spells_unique parses
    (fun other mem => safe other (List.mem_of_mem_take mem)) spell
  refine ⟨fragment_, rfl, ?_⟩
  rw [same, ← at_, ← List.take_succ_eq_append_getElem inside]
  exact List.take_prefix _ _

/-- The frame after those that were read is the one of the next fragment, or announces readiness to
an endpoint that has read nothing. -/
theorem Reads.next_frame (parses : ParsesFrames parse) {readiness : Bool} {n : Nat}
    {read ready : List (List Char)} {fragments_ all : List (Fragment UInt8)} {frame : List Char}
    (reads : Reads parse readiness read fragments_)
    (readiness_ : ready = [] ∨ ready = [readyFrame]) (safe : ∀ fragment ∈ all, IsSafe fragment)
    (front : read = (ready ++ dataFrames all).take n)
    (next_ : (ready ++ dataFrames all)[n]? = some frame) :
    (frame = readyFrame ∧ readiness = false ∧ fragments_ = []) ∨
    ∃ fragment_, frame = dataFrame fragment_ ∧ fragments_ ++ [fragment_] <+: all ∧
      (ready = [readyFrame] → readiness = true) := by
  obtain rfl | rfl := readiness_
  · cases readiness with
    | false =>
        obtain ⟨fragment_, same, part⟩ := forall₂_spells_next parses safe front reads next_
        exact .inr ⟨fragment_, same, part, fun bad => absurd bad.symm (List.cons_ne_nil _ _)⟩
    | true =>
        cases read with
        | nil => exact reads.elim
        | cons first read =>
            have mem : first ∈ dataFrames all := by
              rw [List.nil_append] at front
              have taken : first ∈ (dataFrames all).take n := front ▸ List.mem_cons_self
              exact List.mem_of_mem_take taken
            obtain ⟨fragment_, listed, rfl⟩ := List.mem_map.mp mem
            have here := safe fragment_ listed
            exact absurd reads.1 (parses.spells here.1 here.2).not_announces
  · cases n with
    | zero =>
        rw [List.take_zero] at front
        rw [front] at reads
        have first : frame = readyFrame := (Option.some.inj next_).symm
        cases readiness with
        | false => exact .inl ⟨first, rfl, List.forall₂_nil_left_iff.mp reads⟩
        | true => exact reads.elim
    | succ n =>
        rw [List.singleton_append, List.take_succ_cons] at front
        rw [front] at reads
        cases readiness with
        | false =>
            cases reads with
            | cons spells _ => exact absurd parses.announces spells.not_announces
        | true =>
            obtain ⟨fragment_, same, part⟩ := forall₂_spells_next parses safe rfl reads.2 next_
            exact .inr ⟨fragment_, same, part, fun _ => rfl⟩

/-- A wire that begins with readiness has it before its fragments. -/
theorem ready_of_head {ready : List (List Char)} {fragments_ : List (Fragment UInt8)}
    (readiness : ready = [] ∨ ready = [readyFrame])
    (head : (ready ++ dataFrames fragments_).head? = some readyFrame) : ready = [readyFrame] := by
  obtain rfl | same := readiness
  · rw [List.nil_append, dataFrames, List.head?_map, Option.map_eq_some_iff] at head
    obtain ⟨other, -, bad⟩ := head
    exact absurd bad (dataFrame_ne_readyFrame other)
  · exact same

end OpenClaw.NodeDuplex
