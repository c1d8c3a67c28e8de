import OpenClaw.NodeDuplex.Endpoint

/-!
The receiving half of an endpoint. An open one has read readiness, if any, and then exactly the
canonical frames of the messages it handed out or keeps, and of the unfinished one; everything else
closes it. What it keeps and what its listener owes stays within the limits.
-/

namespace OpenClaw.NodeDuplex

open Fragments

variable {options : Options} {parse : List Char → Option Json} {endpoint : Endpoint}

/-- The value of a data frame of a fragment. -/
structure IsData (parsed : Json) (fragment : Fragment UInt8) : Prop where
  record : isRecord parsed = true
  version : isNumber 1 (parsed.field? "v") = true
  kind : isText "data" (parsed.field? "kind") = true
  keys : keyCount parsed = 6
  message : isNumber fragment.message (parsed.field? "message") = true
  index : isNumber fragment.index (parsed.field? "index") = true
  last : parsed.field? "last" = some (.boolean fragment.last)
  data : parsed.field? "data" = some (.string (String.ofList (toBase64 fragment.data)))

structure IsReady (parsed : Json) : Prop where
  record : isRecord parsed = true
  version : isNumber 1 (parsed.field? "v") = true
  kind : isText "ready" (parsed.field? "kind") = true
  keys : keyCount parsed = 2

/-- A frame whose text is canonical up to its JSON spelling. -/
def Spells (parse : List Char → Option Json) (frame : List Char) (fragment : Fragment UInt8) :
    Prop :=
  ∃ parsed, parse frame = some parsed ∧ IsData parsed fragment

def Announces (parse : List Char → Option Json) (frame : List Char) : Prop :=
  ∃ parsed, parse frame = some parsed ∧ IsReady parsed

/-- Frames that announce readiness, if they do, and then spell some fragments. -/
def Reads (parse : List Char → Option Json) :
    Bool → List (List Char) → List (Fragment UInt8) → Prop
  | false, frames, fragments => List.Forall₂ (Spells parse) frames fragments
  | true, [], _ => False
  | true, frame :: frames, fragments =>
      Announces parse frame ∧ List.Forall₂ (Spells parse) frames fragments

theorem Reads.concat {readiness : Bool} {frames : List (List Char)}
    {fragments : List (Fragment UInt8)} {frame : List Char} {fragment : Fragment UInt8}
    (reads : Reads parse readiness frames fragments) (spells : Spells parse frame fragment) :
    Reads parse readiness (frames ++ [frame]) (fragments ++ [fragment]) := by
  have one : List.Forall₂ (Spells parse) [frame] [fragment] := .cons spells .nil
  cases readiness with
  | false => exact List.rel_append reads one
  | true =>
      cases frames with
      | nil => exact reads.elim
      | cons first frames => exact ⟨reads.1, List.rel_append reads.2 one⟩

namespace Endpoint

/-- The fragments an open endpoint has read. -/
def readFragments (endpoint : Endpoint) : List (Fragment UInt8) :=
  framing NODE_DUPLEX_FRAGMENT_BYTES 0 (endpoint.delivered ++ endpoint.pendingMessages) ++
    pieces endpoint.incomingMessage endpoint.incomingFragments

/-- How far an open endpoint is with what it has received. -/
structure Reading (options : Options) (parse : List Char → Option Json) (endpoint : Endpoint) :
    Prop where
  reads : Reads parse endpoint.readyReceived endpoint.received endpoint.readFragments
  number : endpoint.incomingMessage = (endpoint.delivered ++ endpoint.pendingMessages).length
  fragment : endpoint.incomingFragment = endpoint.incomingFragments.length
  full : ∀ chunk ∈ endpoint.incomingFragments, chunk.length = NODE_DUPLEX_FRAGMENT_BYTES
  announced : options.requireReady = true → endpoint.readyReceived = false →
    endpoint.received = []

/-- The messages handed out are those that the front of what was received completes. -/
def Faithful (options : Options) (parse : List Char → Option Json) (endpoint : Endpoint) : Prop :=
  ∃ readiness read fragments, read <+: endpoint.received ∧ Reads parse readiness read fragments ∧
    endpoint.delivered <+: assemble [] fragments ∧
    (options.requireReady = true → readiness = false → endpoint.delivered = [])

/-- The bookkeeping of the promises that the listener returned. -/
structure Deliveries (options : Options) (endpoint : Endpoint) : Prop where
  bytes : endpoint.activeDeliveryBytes = (endpoint.unsettled.map Prod.snd).sum
  bounded : endpoint.activeDeliveryBytes ≤ options.maxOutstandingDeliveryBytes
  handed : ∀ entry ∈ endpoint.unsettled,
    (endpoint.delivered[entry.1]?).map List.length = some entry.2
  keys : (endpoint.unsettled.map Prod.fst).Nodup
  few : endpoint.activeDeliveries.length ≤ MAX_PENDING_MESSAGES
  listed : endpoint.closed = false → endpoint.activeDeliveries = endpoint.unsettled.map Prod.fst

/-- The limits of what is kept. -/
structure Buffers (options : Options) (endpoint : Endpoint) : Prop where
  few : endpoint.pendingMessages.length ≤ MAX_PENDING_MESSAGES
  small : (endpoint.pendingMessages.map List.length).sum ≤ MAX_PENDING_BYTES
  unfinished : endpoint.incomingFragments.flatten.length ≤ options.maxMessageBytes
  messages : ∀ message ∈ endpoint.delivered ++ endpoint.pendingMessages,
    message.length ≤ options.maxMessageBytes
  listening : endpoint.listener.isSome = true → endpoint.pendingMessages = []
  cleared : endpoint.closed = true → endpoint.listener = none ∧ endpoint.incomingFragments = [] ∧
    endpoint.pendingMessages = [] ∧ endpoint.activeDeliveries = []

/-- The invariant of the receiving half. -/
structure ReceiveSound (options : Options) (parse : List Char → Option Json) (endpoint : Endpoint) :
    Prop where
  faithful : Faithful options parse endpoint
  reading : endpoint.closed = false → Reading options parse endpoint
  deliveries : Deliveries options endpoint
  buffers : Buffers options endpoint

/-- The part of an endpoint that the bookkeeping of deliveries is about. -/
def deliveryPart (endpoint : Endpoint) :=
  (endpoint.closed, endpoint.delivered, endpoint.activeDeliveryBytes, endpoint.activeDeliveries,
    endpoint.unsettled)

def readingPart (endpoint : Endpoint) :=
  (endpoint.readyReceived, endpoint.received, endpoint.delivered, endpoint.pendingMessages,
    endpoint.incomingMessage, endpoint.incomingFragment, endpoint.incomingFragments)

theorem Deliveries.congr {endpoint' : Endpoint} (deliveries : Deliveries options endpoint)
    (same : endpoint'.deliveryPart = endpoint.deliveryPart) : Deliveries options endpoint' := by
  simp only [deliveryPart, Prod.mk.injEq] at same
  obtain ⟨closed, delivered, bytes, active, unsettled⟩ := same
  refine ⟨?_, ?_, ?_, ?_, ?_, ?_⟩
  · rw [bytes, unsettled, deliveries.bytes]
  · rw [bytes]
    exact deliveries.bounded
  · rw [unsettled, delivered]
    exact deliveries.handed
  · rw [unsettled]
    exact deliveries.keys
  · rw [active]
    exact deliveries.few
  · rw [closed, active, unsettled]
    exact deliveries.listed

theorem Reading.congr {endpoint' : Endpoint} (reading : Reading options parse endpoint)
    (same : endpoint'.readingPart = endpoint.readingPart) : Reading options parse endpoint' := by
  simp only [readingPart, Prod.mk.injEq] at same
  obtain ⟨ready, received, delivered, pending, message, fragment, fragments⟩ := same
  refine ⟨?_, ?_, ?_, ?_, ?_⟩
  · rw [ready, received, readFragments, delivered, pending, message, fragments]
    exact reading.reads
  · rw [message, delivered, pending, reading.number]
  · rw [fragment, fragments, reading.fragment]
  · rw [fragments]
    exact reading.full
  · rw [ready, received]
    exact reading.announced

/-- The messages read at an open endpoint. -/
theorem assemble_readFragments (endpoint : Endpoint) :
    assemble [] endpoint.readFragments = endpoint.delivered ++ endpoint.pendingMessages := by
  rw [readFragments, assemble_framing (by decide), assemble_pieces, List.append_nil]

theorem Reading.faithful (reading : Reading options parse endpoint) :
    Faithful options parse endpoint := by
  refine ⟨_, _, _, List.prefix_refl _, reading.reads, ?_, fun required unready => ?_⟩
  · rw [assemble_readFragments]
    exact List.prefix_append _ _
  · have nothing := reading.reads
    rw [reading.announced required unready, unready] at nothing
    have none : endpoint.readFragments = [] := List.forall₂_nil_left_iff.mp nothing
    have messages := assemble_readFragments endpoint
    rw [none] at messages
    exact (List.append_eq_nil_iff.mp messages.symm).1

/-- What is received later does not matter, and neither does a closing. -/
theorem Faithful.mono {endpoint' : Endpoint} (faithful : Faithful options parse endpoint)
    (received : endpoint.received <+: endpoint'.received)
    (delivered : endpoint'.delivered = endpoint.delivered) : Faithful options parse endpoint' := by
  obtain ⟨readiness, read, fragments, front, reads, assembled, announced⟩ := faithful
  exact ⟨readiness, read, fragments, front.trans received, reads, delivered ▸ assembled,
    delivered ▸ announced⟩

/-! Closing. -/

theorem Deliveries.close (deliveries : Deliveries options endpoint) :
    Deliveries options endpoint.close where
  bytes := deliveries.bytes
  bounded := deliveries.bounded
  handed := deliveries.handed
  keys := deliveries.keys
  few := Nat.zero_le _
  listed := fun opened => absurd opened (by simp [Endpoint.close])

theorem Buffers.close (small : ∀ message ∈ endpoint.delivered,
    message.length ≤ options.maxMessageBytes) : Buffers options endpoint.close where
  few := Nat.zero_le _
  small := Nat.zero_le _
  unfinished := Nat.zero_le _
  messages := fun message mem => small message (by simpa [Endpoint.close] using mem)
  listening := fun _ => rfl
  cleared := fun _ => ⟨rfl, rfl, rfl, rfl⟩

theorem ReceiveSound.close (faithful : Faithful options parse endpoint)
    (deliveries : Deliveries options endpoint)
    (small : ∀ message ∈ endpoint.delivered, message.length ≤ options.maxMessageBytes) :
    ReceiveSound options parse endpoint.close where
  faithful := faithful
  reading := fun opened => absurd opened (by simp [Endpoint.close])
  deliveries := deliveries.close
  buffers := .close small

theorem ReceiveSound.small (sound : ReceiveSound options parse endpoint) :
    ∀ message ∈ endpoint.delivered, message.length ≤ options.maxMessageBytes :=
  fun message mem => sound.buffers.messages message (List.mem_append_left _ mem)

theorem ReceiveSound.fail (sound : ReceiveSound options parse endpoint) :
    ReceiveSound options parse endpoint.fail := by
  unfold Endpoint.fail
  split
  · exact sound
  · exact .close sound.faithful sound.deliveries sound.small

/-! Handing out. -/

/-- What a call of the listener, if it happens, changes. -/
theorem observeListener_cases (message : Bytes) (answer : Answer) (endpoint : Endpoint) :
    endpoint.observeListener options message answer = (endpoint, true) ∨
    endpoint.observeListener options message answer =
      ({ endpoint with delivered := endpoint.delivered ++ [message] }, decide (answer = .throws)) ∨
    endpoint.activeDeliveries.length < MAX_PENDING_MESSAGES ∧
      endpoint.activeDeliveryBytes + message.length ≤ options.maxOutstandingDeliveryBytes ∧
      endpoint.observeListener options message answer =
        ({ endpoint with
            delivered := endpoint.delivered ++ [message]
            activeDeliveryBytes := endpoint.activeDeliveryBytes + message.length
            activeDeliveries := endpoint.activeDeliveries ++ [endpoint.delivered.length]
            unsettled := endpoint.unsettled ++ [(endpoint.delivered.length, message.length)] },
          false) := by
  unfold observeListener
  split
  · exact .inl rfl
  · next room =>
      obtain ⟨few, bytes⟩ := not_or.mp room
      cases answer with
      | returns => exact .inr (.inl rfl)
      | throws => exact .inr (.inl rfl)
      | promises => exact .inr (.inr ⟨not_le.mp few, not_lt.mp bytes, rfl⟩)

theorem Deliveries.key_lt (deliveries : Deliveries options endpoint) {entry : Nat × Nat}
    (mem : entry ∈ endpoint.unsettled) : entry.1 < endpoint.delivered.length := by
  have before := deliveries.handed entry mem
  by_contra outside
  simp [List.getElem?_eq_none (not_lt.mp outside)] at before

/-- A message is handed out without a promise. -/
theorem Deliveries.hand (deliveries : Deliveries options endpoint) (message : Bytes) :
    Deliveries options { endpoint with delivered := endpoint.delivered ++ [message] } where
  bytes := deliveries.bytes
  bounded := deliveries.bounded
  handed := fun entry mem => by
    rw [← deliveries.handed entry mem, List.getElem?_append_left (deliveries.key_lt mem)]
  keys := deliveries.keys
  few := deliveries.few
  listed := deliveries.listed

/-- A message is handed out and its promise is kept. -/
theorem Deliveries.promise (deliveries : Deliveries options endpoint) {message : Bytes}
    (room : endpoint.activeDeliveries.length < MAX_PENDING_MESSAGES)
    (fits : endpoint.activeDeliveryBytes + message.length ≤ options.maxOutstandingDeliveryBytes) :
    Deliveries options { endpoint with
      delivered := endpoint.delivered ++ [message]
      activeDeliveryBytes := endpoint.activeDeliveryBytes + message.length
      activeDeliveries := endpoint.activeDeliveries ++ [endpoint.delivered.length]
      unsettled := endpoint.unsettled ++ [(endpoint.delivered.length, message.length)] } where
  bytes := by simp [deliveries.bytes]
  bounded := fits
  handed := fun entry mem => by
    rcases List.mem_append.mp mem with old | new
    · exact (deliveries.hand message).handed entry old
    · rw [List.mem_singleton.mp new]
      simp
  keys := by
    rw [List.map_append, List.nodup_append]
    refine ⟨deliveries.keys, List.nodup_singleton _, fun key old other new => ?_⟩
    obtain ⟨entry, mem, rfl⟩ := List.mem_map.mp old
    rw [List.mem_singleton.mp new]
    exact (deliveries.key_lt mem).ne
  few := by simpa using room
  listed := fun opened => by simp [deliveries.listed opened]

/-- The first of the pending messages is handed out. -/
theorem Reading.shift {message : Bytes} {rest : List Bytes}
    (reading : Reading options parse endpoint)
    (pending : endpoint.pendingMessages = message :: rest) :
    Reading options parse { endpoint with
      delivered := endpoint.delivered ++ [message]
      pendingMessages := rest } := by
  have same : endpoint.delivered ++ [message] ++ rest =
      endpoint.delivered ++ endpoint.pendingMessages := by
    rw [pending, List.append_assoc, List.singleton_append]
  refine ⟨?_, ?_, reading.fragment, reading.full, reading.announced⟩
  · have reads := reading.reads
    rw [readFragments, ← same] at reads
    exact reads
  · rw [reading.number, ← same]

theorem Buffers.shift {message : Bytes} {rest : List Bytes}
    (buffers : Buffers options { endpoint with listener := none })
    (pending : endpoint.pendingMessages = message :: rest) (opened : endpoint.closed = false) :
    Buffers options { endpoint with
      delivered := endpoint.delivered ++ [message]
      pendingMessages := rest
      listener := none } := by
  have few : endpoint.pendingMessages.length ≤ MAX_PENDING_MESSAGES := buffers.few
  have small : (endpoint.pendingMessages.map List.length).sum ≤ MAX_PENDING_BYTES := buffers.small
  have messages : ∀ other ∈ endpoint.delivered ++ endpoint.pendingMessages,
    other.length ≤ options.maxMessageBytes := buffers.messages
  rw [pending] at few small messages
  refine ⟨?_, ?_, buffers.unfinished, fun other mem => messages other ?_, fun bad => ?_,
    fun closed => absurd (opened.symm.trans closed) (by simp)⟩
  · exact (Nat.le_succ _).trans few
  · rw [List.map_cons, List.sum_cons] at small
    exact (Nat.le_add_left _ _).trans small
  · rwa [← List.singleton_append, ← List.append_assoc]
  · cases bad

theorem Buffers.of_no_pending (buffers : Buffers options { endpoint with listener := none })
    (opened : endpoint.closed = false) (none : endpoint.pendingMessages = []) :
    Buffers options endpoint :=
  ⟨buffers.few, buffers.small, buffers.unfinished, buffers.messages, fun _ => none,
    fun closed => absurd (opened.symm.trans closed) (by simp)⟩

/-- The pending messages are handed out one after another; the induction is on what is left. -/
theorem drainPending_sound (answers : Nat → Answer) (pending : List Bytes) (endpoint : Endpoint)
    (kept : endpoint.pendingMessages = pending) (opened : endpoint.closed = false)
    (reading : Reading options parse endpoint) (deliveries : Deliveries options endpoint)
    (buffers : Buffers options { endpoint with listener := none }) :
    ReceiveSound options parse (caught (drainPending options answers pending endpoint)) := by
  induction pending generalizing endpoint with
  | nil => exact ⟨reading.faithful, fun _ => reading, deliveries, buffers.of_no_pending opened kept⟩
  | cons message rest ih =>
      have shifted := reading.shift kept
      have limits := buffers.shift kept opened
      have small : ∀ other ∈ endpoint.delivered ++ [message],
          other.length ≤ options.maxMessageBytes :=
        fun other mem => limits.messages other (List.mem_append_left _ mem)
      rw [drainPending]
      obtain handed | handed | ⟨few, fits, handed⟩ := @observeListener_cases options message
        (answers endpoint.delivered.length) { endpoint with pendingMessages := rest }
      · rw [handed, if_pos rfl, caught, if_pos rfl, Endpoint.fail, if_neg (by simp [opened])]
        exact .close (reading.faithful.mono (List.prefix_refl _) rfl)
          (deliveries.congr rfl)
          fun other mem => small other (List.mem_append_left _ mem)
      · have promised : Deliveries options { endpoint with
            delivered := endpoint.delivered ++ [message], pendingMessages := rest } :=
          (deliveries.hand message).congr rfl
        rw [handed]
        dsimp only
        split
        · next throws =>
            rw [caught, if_pos throws, Endpoint.fail, if_neg (by simp [opened])]
            exact .close shifted.faithful promised small
        · exact ih _ rfl opened shifted promised limits
      · rw [handed, if_neg Bool.false_ne_true]
        exact ih _ rfl opened (shifted.congr rfl) ((deliveries.promise few fits).congr rfl)
          ⟨limits.few, limits.small, limits.unfinished, limits.messages, limits.listening,
            fun closed => absurd (opened.symm.trans closed) (by simp)⟩

theorem onMessage_sound (sound : ReceiveSound options parse endpoint) (callback : Nat)
    (answers : Nat → Answer) :
    ReceiveSound options parse (endpoint.onMessage options callback answers) := by
  unfold onMessage
  split
  · exact sound
  · next free =>
      have opened : endpoint.closed = false := by
        cases closed : endpoint.closed with
        | false => rfl
        | true => exact absurd (.inl closed) free
      have reading := sound.reading opened
      have deliveries := sound.deliveries
      have buffers := sound.buffers
      refine drainPending_sound answers _ _ rfl opened
        (reading.congr rfl) (deliveries.congr rfl)
        ⟨buffers.few, buffers.small, buffers.unfinished, buffers.messages, fun bad => ?_,
          fun closed => absurd (opened.symm.trans closed) (by simp)⟩
      cases bad

theorem unsubscribe_sound (sound : ReceiveSound options parse endpoint) (callback : Nat) :
    ReceiveSound options parse (endpoint.unsubscribe callback) := by
  have buffers := sound.buffers
  unfold unsubscribe
  split
  · exact ⟨sound.faithful,
      fun opened => (sound.reading opened).congr rfl, sound.deliveries.congr rfl,
      ⟨buffers.few, buffers.small, buffers.unfinished, buffers.messages, (fun bad => by cases bad),
        fun closed => ⟨rfl, (buffers.cleared closed).2⟩⟩⟩
  · exact sound

/-- Erasing the entry of a key leaves the other keys. -/
theorem map_fst_erase {entries : List (Nat × Nat)} (keys : (entries.map Prod.fst).Nodup)
    {key value : Nat} (mem : (key, value) ∈ entries) :
    (entries.erase (key, value)).map Prod.fst =
      (entries.map Prod.fst).filter fun other => other ≠ key := by
  have same : (entries.erase (key, value)).map Prod.fst = (entries.map Prod.fst).erase key := by
    induction entries with
    | nil => rfl
    | cons entry entries ih =>
        rw [List.map_cons, List.nodup_cons] at keys
        by_cases first : entry = (key, value)
        · rw [first, List.erase_cons_head, List.map_cons, List.erase_cons_head]
        · have inside : (key, value) ∈ entries := (List.mem_cons.mp mem).resolve_left (Ne.symm first)
          have other : entry.1 ≠ key := fun equal =>
            keys.1 (equal ▸ List.mem_map_of_mem inside)
          rw [List.erase_cons_tail (by simpa using first), List.map_cons, ih keys.2 inside,
            List.map_cons, List.erase_cons_tail (by simpa using other)]
  rw [same, keys.erase_eq_filter]
  simp only [ne_eq, decide_not]
  rfl

theorem Deliveries.settle (deliveries : Deliveries options endpoint) {delivery bytes : Nat}
    (owed : (delivery, bytes) ∈ endpoint.unsettled) :
    Deliveries options { endpoint with
      unsettled := endpoint.unsettled.erase (delivery, bytes)
      activeDeliveries := endpoint.activeDeliveries.filter fun other => other ≠ delivery
      activeDeliveryBytes := endpoint.activeDeliveryBytes - bytes } where
  bytes := by
    have sum := ((List.perm_cons_erase owed).map Prod.snd).sum_eq
    rw [List.map_cons, List.sum_cons] at sum
    have all := deliveries.bytes
    dsimp only
    omega
  bounded := (Nat.sub_le _ _).trans deliveries.bounded
  handed := fun entry mem => deliveries.handed entry (List.mem_of_mem_erase mem)
  keys := deliveries.keys.sublist ((List.erase_sublist).map _)
  few := (List.length_filter_le _ _).trans deliveries.few
  listed := fun opened => by
    dsimp only
    rw [deliveries.listed opened, map_fst_erase deliveries.keys owed]

theorem settleDelivery_sound (sound : ReceiveSound options parse endpoint) {delivery bytes : Nat}
    (owed : (delivery, bytes) ∈ endpoint.unsettled) (ok : Bool) :
    ReceiveSound options parse (endpoint.settleDelivery delivery bytes ok) := by
  have buffers := sound.buffers
  have settled : ReceiveSound options parse { endpoint with
      unsettled := endpoint.unsettled.erase (delivery, bytes)
      activeDeliveries := endpoint.activeDeliveries.filter fun other => other ≠ delivery
      activeDeliveryBytes := endpoint.activeDeliveryBytes - bytes } :=
    ⟨sound.faithful,
      fun opened => (sound.reading opened).congr rfl,
      sound.deliveries.settle owed,
      ⟨buffers.few, buffers.small, buffers.unfinished, buffers.messages, buffers.listening,
        fun closed => by
          obtain ⟨listener, fragments, pending, active⟩ := buffers.cleared closed
          exact ⟨listener, fragments, pending, by simp [active]⟩⟩⟩
  unfold settleDelivery
  cases ok with
  | true => exact settled
  | false => exact settled.fail

/-! Receiving. -/

/-- The checks that a data frame has passed. -/
structure Accepts (options : Options) (parsed : Json) (last : Bool) (data : Bytes)
    (endpoint : Endpoint) : Prop where
  shape : IsData parsed ⟨endpoint.incomingMessage, endpoint.incomingFragment, last, data⟩
  size : data.length ≤ NODE_DUPLEX_FRAGMENT_BYTES
  full : last = false → data.length = NODE_DUPLEX_FRAGMENT_BYTES
  nonempty : last = true → data = [] → endpoint.incomingFragment = 0
  total : endpoint.incomingFragment * NODE_DUPLEX_FRAGMENT_BYTES + data.length ≤
    options.maxMessageBytes
  pending : endpoint.listener = none →
    (endpoint.pendingMessages.map List.length).sum +
      endpoint.incomingFragment * NODE_DUPLEX_FRAGMENT_BYTES + data.length ≤ MAX_PENDING_BYTES

theorem acceptData_cases {parsed : Json} (answer : Answer) (record : isRecord parsed = true)
    (version : isNumber 1 (parsed.field? "v") = true)
    (kind : isText "data" (parsed.field? "kind") = true) :
    endpoint.acceptData options parsed answer = (endpoint, true) ∨
    ∃ last data, Accepts options parsed last data endpoint ∧
      endpoint.acceptData options parsed answer =
        endpoint.acceptFragment options last data answer := by
  unfold acceptData
  split
  · next last data last_ data_ =>
      split
      · exact .inl rfl
      · next shape =>
          split
          · exact .inl rfl
          · next order =>
              simp only []
              split
              · exact .inl rfl
              · next size =>
                  split
                  · exact .inl rfl
                  · next total =>
                      split
                      · exact .inl rfl
                      · next pending =>
                          refine .inr ⟨last, Base64Url.decode data.toList, ?_, rfl⟩
                          simp only [not_or, ne_eq, not_not, Bool.not_eq_false, not_and, not_lt]
                            at shape order size
                          obtain ⟨canonical, short, full, nonempty⟩ := size
                          refine ⟨⟨record, version, kind, shape.1, order.1, order.2, last_, ?_⟩, short,
                            full, fun final empty => ?_, not_lt.mp total, fun deaf => ?_⟩
                          · rw [data_, canonical, String.ofList_toList]
                          · exact Nat.le_zero.mp (nonempty final (List.length_eq_zero_iff.mpr empty))
                          · have small := mt (And.intro (by simp [deaf])) pending
                            exact not_lt.mp small
  · exact .inl rfl

theorem receiveOpen_cases (frame : List Char) (answer : Answer) :
    endpoint.receiveOpen options parse frame answer = (endpoint, true) ∨
    (Announces parse frame ∧ endpoint.readyReceived = false ∧ endpoint.incomingMessage = 0 ∧
      endpoint.incomingFragment = 0 ∧
      endpoint.receiveOpen options parse frame answer =
        ({ endpoint with readyReceived := true }, false)) ∨
    ∃ parsed last data, parse frame = some parsed ∧ Accepts options parsed last data endpoint ∧
      (options.requireReady = true → endpoint.readyReceived = true) ∧
      endpoint.receiveOpen options parse frame answer =
        endpoint.acceptFragment options last data answer := by
  unfold receiveOpen
  split
  · exact .inl rfl
  · split
    · exact .inl rfl
    · next parsed parsed_ =>
        split
        · exact .inl rfl
        · next shape =>
            obtain ⟨record, version⟩ : isRecord parsed = true ∧
                isNumber 1 (parsed.field? "v") = true := by
              simpa using shape
            split
            · next kind =>
                split
                · exact .inl rfl
                · next first =>
                    simp only [not_or, ne_eq, not_not, Bool.not_eq_true, not_lt, Nat.le_zero] at first
                    exact .inr (.inl ⟨⟨parsed, parsed_, record, version, kind, first.1⟩, first.2.1,
                      first.2.2.1, first.2.2.2, rfl⟩)
            · split
              · exact .inl rfl
              · next data =>
                  simp only [not_or, Bool.not_eq_false, not_and] at data
                  obtain same | ⟨last, bytes, accepts, same⟩ :=
                    @acceptData_cases options endpoint _ answer record version data.1
                  · exact .inl same
                  · exact .inr (.inr ⟨parsed, last, bytes, parsed_, accepts, data.2, same⟩)

theorem Accepts.spells {parsed : Json} {last : Bool} {data : Bytes} {frame : List Char}
    (accepts : Accepts options parsed last data endpoint) (parsed_ : parse frame = some parsed) :
    Spells parse frame ⟨endpoint.incomingMessage, endpoint.incomingFragment, last, data⟩ :=
  ⟨parsed, parsed_, accepts.shape⟩

/-- The chunks that are kept have the size that the code computes. -/
theorem Reading.length_flatten (reading : Reading options parse endpoint) :
    endpoint.incomingFragments.flatten.length =
      endpoint.incomingFragment * NODE_DUPLEX_FRAGMENT_BYTES := by
  rw [List.length_flatten, List.map_congr_left reading.full, List.map_const', List.sum_replicate,
    smul_eq_mul, reading.fragment]

/-- A fragment that is not the last is kept. -/
theorem Reading.keep {frame : List Char} {parsed : Json} {data : Bytes}
    (reading : Reading options parse endpoint) (parsed_ : parse frame = some parsed)
    (accepts : Accepts options parsed false data endpoint)
    (announced : options.requireReady = true → endpoint.readyReceived = true) :
    Reading options parse { endpoint with
      received := endpoint.received ++ [frame]
      incomingFragments := endpoint.incomingFragments ++ [data]
      incomingFragment := endpoint.incomingFragment + 1 } where
  reads := by
    have reads := reading.reads.concat (accepts.spells parsed_)
    rw [readFragments, List.append_assoc, reading.fragment, ← pieces_concat] at reads
    exact reads
  number := reading.number
  fragment := by simp [reading.fragment]
  full := fun chunk mem => by
    rcases List.mem_append.mp mem with old | new
    · exact reading.full chunk old
    · rw [List.mem_singleton.mp new]
      exact accepts.full rfl
  announced := fun required unready => absurd ((announced required).symm.trans unready) (by simp)

/-- The last fragment completes a message, which is handed out or kept. -/
theorem Reading.complete {frame : List Char} {parsed : Json} {data : Bytes}
    (reading : Reading options parse endpoint) (parsed_ : parse frame = some parsed)
    (accepts : Accepts options parsed true data endpoint)
    (announced : options.requireReady = true → endpoint.readyReceived = true)
    {delivered pending : List Bytes}
    (all : delivered ++ pending = endpoint.delivered ++ endpoint.pendingMessages ++
      [endpoint.incomingFragments.flatten ++ data]) :
    Reading options parse { endpoint with
      received := endpoint.received ++ [frame]
      incomingFragments := []
      incomingFragment := 0
      incomingMessage := endpoint.incomingMessage + 1
      delivered := delivered
      pendingMessages := pending } where
  reads := by
    have some_ : data ≠ [] ∨ endpoint.incomingFragments = [] := by
      by_cases empty : data = []
      · refine .inr (List.length_eq_zero_iff.mp ?_)
        rw [← reading.fragment, accepts.nonempty rfl empty]
      · exact .inl empty
    have reads := reading.reads.concat (accepts.spells parsed_)
    have message := @fragments_of_pieces _ _ endpoint.incomingMessage (by decide) _ _ reading.full
      accepts.size some_
    rw [readFragments, List.append_assoc, reading.fragment, ← message, reading.number,
      ← framing_concat, ← all] at reads
    have same : (framing NODE_DUPLEX_FRAGMENT_BYTES 0 (delivered ++ pending)) ++
        pieces (endpoint.incomingMessage + 1) ([] : List Bytes) =
          framing NODE_DUPLEX_FRAGMENT_BYTES 0 (delivered ++ pending) := List.append_nil _
    rw [← same] at reads
    exact reads
  number := by
    rw [all, List.length_append, ← reading.number]
    rfl
  fragment := rfl
  full := fun chunk mem => absurd mem List.not_mem_nil
  announced := fun required unready => absurd ((announced required).symm.trans unready) (by simp)

/-- A frame is received that does not pass, or whose message cannot be taken. -/
theorem ReceiveSound.reject {endpoint' : Endpoint} (sound : ReceiveSound options parse endpoint)
    (received : endpoint.received <+: endpoint'.received)
    (delivered : endpoint'.delivered = endpoint.delivered)
    (deliveries : Deliveries options endpoint') (opened : endpoint'.closed = false) :
    ReceiveSound options parse (caught (endpoint', true)) := by
  rw [caught, if_pos rfl, Endpoint.fail, if_neg (by simp [opened])]
  exact .close (sound.faithful.mono received delivered) deliveries (delivered ▸ sound.small)

/-- The message that a last fragment completes goes to the listener. -/
theorem observeListener_sound {frame : List Char} {parsed : Json} {data : Bytes} (answer : Answer)
    (sound : ReceiveSound options parse endpoint) (opened : endpoint.closed = false)
    (parsed_ : parse frame = some parsed) (accepts : Accepts options parsed true data endpoint)
    (announced : options.requireReady = true → endpoint.readyReceived = true)
    (listening : endpoint.listener.isSome = true)
    (short : (endpoint.incomingFragments.flatten ++ data).length ≤ options.maxMessageBytes) :
    ReceiveSound options parse (caught ({ endpoint with
      received := endpoint.received ++ [frame]
      incomingFragments := []
      incomingFragment := 0
      incomingMessage := endpoint.incomingMessage + 1 }.observeListener options
        (endpoint.incomingFragments.flatten ++ data) answer)) := by
  have reading := sound.reading opened
  have buffers := sound.buffers
  have none := buffers.listening listening
  have handed : Reading options parse { endpoint with
      received := endpoint.received ++ [frame]
      incomingFragments := []
      incomingFragment := 0
      incomingMessage := endpoint.incomingMessage + 1
      delivered := endpoint.delivered ++ [endpoint.incomingFragments.flatten ++ data]
      pendingMessages := endpoint.pendingMessages } :=
    reading.complete parsed_ accepts announced (by simp [none])
  have limits : Buffers options { endpoint with
      received := endpoint.received ++ [frame]
      incomingFragments := []
      incomingFragment := 0
      incomingMessage := endpoint.incomingMessage + 1
      delivered := endpoint.delivered ++ [endpoint.incomingFragments.flatten ++ data]
      pendingMessages := endpoint.pendingMessages } := by
    refine ⟨buffers.few, buffers.small, Nat.zero_le _, fun message mem => ?_, buffers.listening,
      fun closed => absurd (opened.symm.trans closed) (by simp)⟩
    have listed : message ∈ (endpoint.delivered ++
      [endpoint.incomingFragments.flatten ++ data]) ++ endpoint.pendingMessages := mem
    rw [none, List.append_nil] at listed
    rcases List.mem_append.mp listed with old | new
    · exact sound.small message old
    · rwa [List.mem_singleton.mp new]
  obtain same | same | ⟨few, fits, same⟩ := @observeListener_cases options
    (endpoint.incomingFragments.flatten ++ data) answer { endpoint with
      received := endpoint.received ++ [frame]
      incomingFragments := []
      incomingFragment := 0
      incomingMessage := endpoint.incomingMessage + 1 }
  · rw [same]
    exact sound.reject (List.prefix_append _ _) rfl (sound.deliveries.congr rfl) opened
  · rw [same, caught]
    have whole : ReceiveSound options parse { endpoint with
        received := endpoint.received ++ [frame]
        incomingFragments := []
        incomingFragment := 0
        incomingMessage := endpoint.incomingMessage + 1
        delivered := endpoint.delivered ++ [endpoint.incomingFragments.flatten ++ data] } :=
      ⟨handed.faithful, fun _ => handed, (sound.deliveries.hand _).congr rfl, limits⟩
    split
    · exact whole.fail
    · exact whole
  · rw [same]
    exact ⟨handed.faithful, fun _ => handed.congr rfl,
      (sound.deliveries.promise few fits).congr rfl, limits.few, limits.small, limits.unfinished,
      limits.messages, limits.listening, fun closed => absurd (opened.symm.trans closed) (by simp)⟩

/-- The message that a last fragment completes waits for a listener. -/
theorem pendingMessage_sound {frame : List Char} {parsed : Json} {data : Bytes}
    (sound : ReceiveSound options parse endpoint) (opened : endpoint.closed = false)
    (parsed_ : parse frame = some parsed) (accepts : Accepts options parsed true data endpoint)
    (announced : options.requireReady = true → endpoint.readyReceived = true)
    (deaf : ¬ endpoint.listener.isSome = true)
    (room : endpoint.pendingMessages.length < MAX_PENDING_MESSAGES)
    (short : (endpoint.incomingFragments.flatten ++ data).length ≤ options.maxMessageBytes) :
    ReceiveSound options parse { endpoint with
      received := endpoint.received ++ [frame]
      incomingFragments := []
      incomingFragment := 0
      incomingMessage := endpoint.incomingMessage + 1
      pendingMessages :=
        endpoint.pendingMessages ++ [endpoint.incomingFragments.flatten ++ data] } where
  faithful := sound.faithful.mono (List.prefix_append _ _) rfl
  reading := fun _ =>
    (sound.reading opened).complete parsed_ accepts announced (List.append_assoc _ _ _).symm
  deliveries := sound.deliveries.congr rfl
  buffers := by
    refine ⟨?_, ?_, Nat.zero_le _, fun message mem => ?_, fun listening => absurd listening deaf,
      fun closed => absurd (opened.symm.trans closed) (by simp)⟩
    · change (endpoint.pendingMessages ++ [_]).length ≤ _
      rw [List.length_append, List.length_singleton]
      exact room
    · have small := accepts.pending (Option.not_isSome_iff_eq_none.mp deaf)
      change ((endpoint.pendingMessages ++ [_]).map List.length).sum ≤ _
      rw [List.map_append, List.sum_append, List.map_singleton, List.sum_singleton,
        List.length_append, (sound.reading opened).length_flatten, ← Nat.add_assoc]
      exact small
    · have listed : message ∈ endpoint.delivered ++ (endpoint.pendingMessages ++
        [endpoint.incomingFragments.flatten ++ data]) := mem
      rw [← List.append_assoc] at listed
      rcases List.mem_append.mp listed with old | new
      · exact sound.buffers.messages message old
      · rwa [List.mem_singleton.mp new]

theorem acceptFragment_sound {frame : List Char} {parsed : Json} {last : Bool} {data : Bytes}
    (answer : Answer) (sound : ReceiveSound options parse endpoint)
    (opened : endpoint.closed = false)
    (parsed_ : parse frame = some parsed) (accepts : Accepts options parsed last data endpoint)
    (announced : options.requireReady = true → endpoint.readyReceived = true) :
    ReceiveSound options parse (caught ({ endpoint with
      received := endpoint.received ++ [frame] }.acceptFragment options last data answer)) := by
  have reading := sound.reading opened
  have buffers := sound.buffers
  have short : (endpoint.incomingFragments.flatten ++ data).length ≤ options.maxMessageBytes := by
    rw [List.length_append, reading.length_flatten]
    exact accepts.total
  unfold acceptFragment
  cases last with
  | false =>
      refine ⟨sound.faithful.mono (List.prefix_append _ _) rfl,
        fun _ => reading.keep parsed_ accepts announced, sound.deliveries.congr rfl, buffers.few,
        buffers.small, ?_, buffers.messages, buffers.listening,
        fun closed => absurd (opened.symm.trans closed) (by simp)⟩
      change (endpoint.incomingFragments ++ [data]).flatten.length ≤ _
      rwa [List.flatten_concat]
  | true =>
      simp only [if_true, List.flatten_concat]
      split
      · next listening =>
          exact observeListener_sound answer sound opened parsed_ accepts announced listening short
      · next deaf =>
          split
          · exact sound.reject (List.prefix_append _ _) rfl (sound.deliveries.congr rfl) opened
          · next room =>
              exact pendingMessage_sound sound opened parsed_ accepts announced deaf (not_le.mp room)
                short

theorem receive_sound (sound : ReceiveSound options parse endpoint) (frame : List Char)
    (answer : Answer) :
    ReceiveSound options parse (endpoint.receive options parse frame answer) := by
  unfold receive
  split
  · exact sound
  · next reads =>
      have opened : endpoint.closed = false := Bool.eq_false_iff.mpr (not_or.mp reads).2
      have reading := sound.reading opened
      have grown : endpoint.received <+: endpoint.received ++ [frame] := List.prefix_append _ _
      obtain same | ⟨announces, unready, number, fragment, same⟩ |
        ⟨parsed, last, data, parsed_, accepts, announced, same⟩ := @receiveOpen_cases options parse
          { endpoint with received := endpoint.received ++ [frame] } frame answer
      · rw [same]
        exact sound.reject grown rfl (sound.deliveries.congr rfl) opened
      · have buffers := sound.buffers
        have nothing : endpoint.readFragments = [] := by
          have messages : endpoint.delivered ++ endpoint.pendingMessages = [] :=
            List.length_eq_zero_iff.mp (reading.number.symm.trans number)
          have chunks : endpoint.incomingFragments = [] :=
            List.length_eq_zero_iff.mp (reading.fragment.symm.trans fragment)
          rw [readFragments, messages, chunks]
          rfl
        have first : endpoint.received = [] := by
          have reads := reading.reads
          rw [nothing, unready] at reads
          exact List.forall₂_nil_right_iff.mp reads
        rw [same]
        refine ⟨sound.faithful.mono grown rfl, fun _ => ⟨?_, reading.number, reading.fragment,
            reading.full, fun _ ready => by cases ready⟩, sound.deliveries.congr rfl,
          ⟨buffers.few, buffers.small, buffers.unfinished, buffers.messages, buffers.listening,
            buffers.cleared⟩⟩
        change Reads parse true (endpoint.received ++ [frame]) endpoint.readFragments
        rw [first, nothing]
        exact ⟨announces, .nil⟩
      · rw [same]
        exact acceptFragment_sound answer sound opened parsed_
          ⟨accepts.shape, accepts.size, accepts.full, accepts.nonempty, accepts.total,
            accepts.pending⟩ announced

/-! Sending does not touch what the receiving half is about. -/

theorem ReceiveSound.congr {endpoint' : Endpoint} (sound : ReceiveSound options parse endpoint)
    (reading : endpoint'.readingPart = endpoint.readingPart)
    (delivery : endpoint'.deliveryPart = endpoint.deliveryPart)
    (listener : endpoint'.listener = endpoint.listener) : ReceiveSound options parse endpoint' := by
  have buffers := sound.buffers
  have reading_ := reading
  have delivery_ := delivery
  simp only [readingPart, deliveryPart, Prod.mk.injEq] at reading_ delivery_
  obtain ⟨-, received, delivered, pending, -, -, fragments⟩ := reading_
  obtain ⟨closed, -, -, active, -⟩ := delivery_
  refine ⟨sound.faithful.mono (by rw [received]) delivered,
    fun opened => (sound.reading (closed ▸ opened)).congr reading, sound.deliveries.congr delivery,
    ?_, ?_, ?_, ?_, ?_, ?_⟩
  · rw [pending]
    exact buffers.few
  · rw [pending]
    exact buffers.small
  · rw [fragments]
    exact buffers.unfinished
  · rw [delivered, pending]
    exact buffers.messages
  · rw [listener, pending]
    exact buffers.listening
  · rw [closed, listener, fragments, pending, active]
    exact buffers.cleared

theorem sendFragment_receiveSound (sound : ReceiveSound options parse endpoint) (message : Nat)
    (bytes : Bytes) (index : Nat) (taken : Bool) :
    ReceiveSound options parse (endpoint.sendFragment message bytes index taken) := by
  unfold sendFragment
  split
  · exact sound.congr rfl rfl rfl
  · cases taken <;> exact sound.congr rfl rfl rfl

theorem startTask_receiveSound (sound : ReceiveSound options parse endpoint) (taken : Bool)
    (task : SendTask) : ReceiveSound options parse (endpoint.startTask options taken task) := by
  unfold startTask
  cases task with
  | data message =>
      dsimp only
      split
      · exact sound.fail
      · split
        · exact sound.fail
        · have counted : ReceiveSound options parse { endpoint with
              nextOutgoingMessage := endpoint.nextOutgoingMessage + 1 } := sound.congr rfl rfl rfl
          exact sendFragment_receiveSound counted _ _ _ _
  | ready =>
      dsimp only
      split
      · exact sound
      · split
        · exact sound.fail
        · cases taken <;> exact sound.congr rfl rfl rfl

theorem resume_receiveSound (sound : ReceiveSound options parse endpoint) (ok taken : Bool)
    (sending : Sending) : ReceiveSound options parse (endpoint.resume ok taken sending) := by
  have stopped : ReceiveSound options parse { endpoint with sending := none } :=
    sound.congr rfl rfl rfl
  cases ok with
  | false => cases sending <;> exact stopped.fail
  | true =>
      cases sending with
      | ready was => exact stopped
      | fragment message bytes index was =>
          simp only [resume, if_true]
          split
          · exact sendFragment_receiveSound sound _ _ _ _
          · exact stopped

theorem receiveSound_start : ReceiveSound options parse {} where
  faithful := ⟨false, [], [], List.nil_prefix, .nil, List.nil_prefix, fun _ _ => rfl⟩
  reading := fun _ => ⟨.nil, rfl, rfl, fun _ mem => absurd mem List.not_mem_nil, fun _ _ => rfl⟩
  deliveries := ⟨rfl, Nat.zero_le _, fun _ mem => absurd mem List.not_mem_nil, List.nodup_nil,
    Nat.zero_le _, fun _ => rfl⟩
  buffers := ⟨Nat.zero_le _, Nat.zero_le _, Nat.zero_le _, fun _ mem => absurd mem List.not_mem_nil,
    fun _ => rfl, fun _ => ⟨rfl, rfl, rfl, rfl⟩⟩

/-- Every event keeps the invariant, whatever text is received. -/
theorem ReceiveSound.step {endpoint' : Endpoint} {label : Label}
    (sound : ReceiveSound options parse endpoint)
    (taken : endpoint.step options parse label = some endpoint') :
    ReceiveSound options parse endpoint' := by
  cases label with
  | send message =>
      cases taken
      exact sound.congr rfl rfl rfl
  | sendReady =>
      cases taken
      exact sound.congr rfl rfl rfl
  | start taken_ =>
      rw [Endpoint.step] at taken
      split at taken
      · next task rest _ _ =>
          cases taken
          have popped : ReceiveSound options parse { endpoint with sendQueue := rest } :=
            sound.congr rfl rfl rfl
          exact startTask_receiveSound popped taken_ task
      · cases taken
  | resume ok taken_ =>
      rw [Endpoint.step] at taken
      split at taken
      · next sending _ =>
          split at taken
          · cases taken
          · cases taken
            exact resume_receiveSound sound ok taken_ sending
      · cases taken
  | receive frame answer =>
      cases taken
      exact receive_sound sound frame answer
  | onMessage callback answers =>
      cases taken
      exact onMessage_sound sound callback answers
  | unsubscribe callback =>
      cases taken
      exact unsubscribe_sound sound callback
  | settleDelivery delivery bytes ok =>
      rw [Endpoint.step] at taken
      split at taken
      · next owed =>
          cases taken
          exact settleDelivery_sound sound owed ok
      · cases taken
  | close =>
      cases taken
      exact .close sound.faithful sound.deliveries sound.small

end Endpoint
end OpenClaw.NodeDuplex
