import OpenClaw.Lib.Fragments
import OpenClaw.Outcomes.Cursor
import OpenClaw.Lib.Transition

/-!
The wire of a node duplex channel: JSON texts that carry readiness or one fragment of a binary
message in base64. What is sent is read back as it was, and it fits the transport limit.
-/

namespace OpenClaw.NodeDuplex

open Fragments (Fragment fragments framing framing_append)
open Outcomes (byteLength byteLength_append byteLength_cons byteLength_nil byteLength_quote
  byteLength_integer_le byteLength_flatMap_le byteLength_singleton)

abbrev Bytes := List UInt8

def NODE_DUPLEX_FRAGMENT_BYTES : Nat := 8 * 1024

def NODE_DUPLEX_MAX_MESSAGE_BYTES : Nat := 100 * 1024 * 1024

def MAX_PENDING_MESSAGES : Nat := 8

def MAX_PENDING_BYTES : Nat := 1024 * 1024

/-- The transport limit of one frame. -/
def FRAME_BYTES : Nat := 16 * 1024

def MAX_SAFE_INTEGER : Nat := 2 ^ 53 - 1

/-! The fragments of messages in order. -/

theorem framing_concat (done : List Bytes) (message : Bytes) :
    framing NODE_DUPLEX_FRAGMENT_BYTES 0 (done ++ [message]) =
      framing NODE_DUPLEX_FRAGMENT_BYTES 0 done ++
        fragments NODE_DUPLEX_FRAGMENT_BYTES done.length message := by
  rw [framing_append, Nat.zero_add, framing, framing, List.append_nil]

/-! Base64 with padding. -/

def base64Digit (n : Nat) : Char :=
  if n = 62 then '+' else if n = 63 then '/' else Base64Url.digit n

/-- `buffer.toString("base64")`. -/
def toBase64 (buffer : Bytes) : List Char :=
  (Base64Url.sextets buffer).map base64Digit ++ List.replicate ((3 - buffer.length % 3) % 3) '='

theorem digitValue_base64Digit {n : Nat} (below : n < 64) :
    Base64Url.digitValue (base64Digit n) = some n := by
  interval_cases n <;> decide

theorem base64Digit_ne_pad {n : Nat} (below : n < 64) : base64Digit n ≠ '=' := by
  interval_cases n <;> decide

/-- `Buffer.from(text, "base64")` reads what it wrote. -/
theorem decode_toBase64 (buffer : Bytes) : Base64Url.decode (toBase64 buffer) = buffer := by
  have below := Base64Url.sextets_lt buffer
  have digits : ∀ c ∈ (Base64Url.sextets buffer).map base64Digit, decide (c ≠ '=') = true :=
    fun c mem => by
      obtain ⟨n, inside, rfl⟩ := List.mem_map.mp mem
      simpa using base64Digit_ne_pad (below n inside)
  have whole : (toBase64 buffer).takeWhile (fun c => c ≠ '=') =
      (Base64Url.sextets buffer).map base64Digit := by
    rw [toBase64, List.takeWhile_append_of_pos digits]
    have stops : (List.replicate ((3 - buffer.length % 3) % 3) '=').takeWhile
        (fun c => decide (c ≠ '=')) = [] := by
      cases (3 - buffer.length % 3) % 3 with
      | zero => rfl
      | succ n => simp [List.replicate_succ]
    rw [stops, List.append_nil]
  have values : ((Base64Url.sextets buffer).map base64Digit).filterMap Base64Url.digitValue =
      Base64Url.sextets buffer := by
    rw [List.filterMap_map]
    calc (Base64Url.sextets buffer).filterMap (Base64Url.digitValue ∘ base64Digit)
        = (Base64Url.sextets buffer).filterMap some :=
          List.filterMap_congr fun n inside => digitValue_base64Digit (below n inside)
      _ = Base64Url.sextets buffer := List.filterMap_some
  rw [Base64Url.decode, whole, values, Base64Url.bytes_sextets]

theorem toBase64_injective : Function.Injective toBase64 := fun left right same => by
  rw [← decode_toBase64 left, same, decode_toBase64]

theorem length_toBase64_le (buffer : Bytes) :
    3 * (toBase64 buffer).length ≤ 4 * buffer.length + 8 := by
  have digits := Base64Url.length_encode buffer
  rw [Base64Url.encode, List.length_map] at digits
  rw [toBase64, List.length_append, List.length_map, List.length_replicate]
  omega

/-! The frames. -/

def booleanText (value : Bool) : List Char := if value then "true".toList else "false".toList

def readyFields : List Json.Field :=
  [⟨"v", Json.integer 1, .number (1 : Int)⟩, ⟨"kind", Json.quote "ready", .string "ready"⟩]

/-- The frame of `sendReady`. -/
def readyFrame : List Char := Json.objectText readyFields

def dataFields (fragment : Fragment UInt8) : List Json.Field :=
  [⟨"v", Json.integer 1, .number (1 : Int)⟩,
    ⟨"kind", Json.quote "data", .string "data"⟩,
    ⟨"message", Json.integer fragment.message, .number (fragment.message : Int)⟩,
    ⟨"index", Json.integer fragment.index, .number (fragment.index : Int)⟩,
    ⟨"last", booleanText fragment.last, .boolean fragment.last⟩,
    ⟨"data", Json.quote (String.ofList (toBase64 fragment.data)),
      .string (String.ofList (toBase64 fragment.data))⟩]

/-- The frame of one fragment. -/
def dataFrame (fragment : Fragment UInt8) : List Char := Json.objectText (dataFields fragment)

def objectOf (fields : List Json.Field) : Json :=
  .object (fields.map fun field => (field.name, field.value))

theorem spells_booleanText (value : Bool) : Json.Spells (booleanText value) (.boolean value) := by
  intro bound rest _
  cases value with
  | true => rfl
  | false => rfl

theorem parse_readyFrame : Json.parse readyFrame = some (objectOf readyFields) := by
  refine Json.parse_objectText (by simp [readyFields]) fun field mem => ?_
  simp only [readyFields, List.mem_cons, List.not_mem_nil, or_false] at mem
  rcases mem with rfl | rfl
  · exact Json.spells_integer 1
  · exact Json.spells_quote _

theorem parse_dataFrame (fragment : Fragment UInt8) :
    Json.parse (dataFrame fragment) = some (objectOf (dataFields fragment)) := by
  refine Json.parse_objectText (by simp [dataFields]) fun field mem => ?_
  simp only [dataFields, List.mem_cons, List.not_mem_nil, or_false] at mem
  rcases mem with rfl | rfl | rfl | rfl | rfl | rfl
  · exact Json.spells_integer 1
  · exact Json.spells_quote _
  · exact Json.spells_integer (fragment.message : Int)
  · exact Json.spells_integer (fragment.index : Int)
  · exact spells_booleanText _
  · exact Json.spells_quote _

/-- A frame has one fragment. -/
theorem dataFrame_injective : Function.Injective dataFrame := fun left right same => by
  have parsed := parse_dataFrame left
  rw [same, parse_dataFrame right] at parsed
  simp only [objectOf, dataFields, List.map_cons, List.map_nil, Option.some.injEq,
    Json.object.injEq, List.cons.injEq, Prod.mk.injEq, Json.number.injEq, Json.boolean.injEq,
    Json.string.injEq, true_and, and_true, Int.cast_natCast, Nat.cast_inj] at parsed
  obtain ⟨message, index, last, data⟩ := parsed
  have bytes := toBase64_injective (String.ofList_injective data)
  cases left
  cases right
  simp_all

theorem dataFrame_ne_readyFrame (fragment : Fragment UInt8) : dataFrame fragment ≠ readyFrame :=
  fun same => by
    have parsed := parse_dataFrame fragment
    rw [same, parse_readyFrame] at parsed
    simp [objectOf, readyFields, dataFields] at parsed

theorem byteLength_escape_toBase64 {buffer : Bytes} {c : Char} (mem : c ∈ toBase64 buffer) :
    byteLength (Json.escape c) ≤ 1 := by
  rcases List.mem_append.mp mem with digit | pad
  · obtain ⟨n, inside, rfl⟩ := List.mem_map.mp digit
    have below := Base64Url.sextets_lt buffer n inside
    interval_cases n <;> decide
  · cases (List.mem_replicate.mp pad).2
    decide

/-- A frame of a fragment fits the transport. -/
theorem byteLength_dataFrame_le {fragment : Fragment UInt8}
    (short : fragment.data.length ≤ NODE_DUPLEX_FRAGMENT_BYTES)
    (message : fragment.message < 10 ^ 16) (index : fragment.index < 10 ^ 16) :
    byteLength (dataFrame fragment) ≤ FRAME_BYTES := by
  have digits := byteLength_flatMap_le (f := Json.escape) 1 (toBase64 fragment.data)
    fun c mem => byteLength_escape_toBase64 mem
  have size := length_toBase64_le fragment.data
  have message_ := @byteLength_integer_le fragment.message _ message (by decide)
  have index_ := @byteLength_integer_le fragment.index _ index (by decide)
  have last : byteLength (booleanText fragment.last) ≤ 5 := by cases fragment.last <;> decide
  have names : byteLength (Json.quote "v") = 3 ∧ byteLength (Json.quote "kind") = 6 ∧
      byteLength (Json.quote "message") = 9 ∧ byteLength (Json.quote "index") = 7 ∧
      byteLength (Json.quote "last") = 6 ∧ byteLength (Json.quote "data") = 6 ∧
      byteLength (Json.integer 1) = 1 := by decide
  have marks : ','.utf8Size = 1 ∧ ':'.utf8Size = 1 ∧ '\x7b'.utf8Size = 1 ∧ '\x7d'.utf8Size = 1 := by
    decide
  unfold NODE_DUPLEX_FRAGMENT_BYTES at short
  simp only [dataFrame, dataFields, Json.objectText, Json.Field.members, Json.Field.member,
    byteLength_cons, byteLength_append, byteLength_nil, names, marks]
  rw [byteLength_quote (String.ofList _), String.toList_ofList]
  unfold FRAME_BYTES
  omega

theorem byteLength_readyFrame_le : byteLength readyFrame ≤ FRAME_BYTES := by decide

theorem readyFrame_ne_nil : readyFrame ≠ [] := List.cons_ne_nil _ _

theorem dataFrame_ne_nil (fragment : Fragment UInt8) : dataFrame fragment ≠ [] :=
  List.cons_ne_nil _ _

end OpenClaw.NodeDuplex

/-!
One endpoint of a node duplex channel and a link of two. Sends wait for each other in a queue and
emit one fragment after another; what is received is checked, collected and handed to the listener
or kept until there is one. Any check that fails closes the endpoint. The endpoint keeps three
histories beside its own variables: the calls of `send`, the frames it has put on the wire and the
messages it has handed out.
-/

namespace OpenClaw.NodeDuplex

open Fragments (Fragment fragment fragments)
open Outcomes (byteLength)

/-- The options of `createNodeDuplexEndpoint`, as its checks leave them. -/
structure Options where
  requireReady : Bool
  maxMessageBytes : Nat
  maxOutstandingDeliveryBytes : Nat
  positive : 1 ≤ maxMessageBytes
  bounded : maxMessageBytes ≤ maxOutstandingDeliveryBytes
  limited : maxOutstandingDeliveryBytes ≤ NODE_DUPLEX_MAX_MESSAGE_BYTES

/-- A task of the send queue. -/
inductive SendTask where
  | data (message : Bytes)
  | ready
  deriving DecidableEq

/-- The frame whose `sendFrame` is awaited; `taken` tells whether the transport took it. -/
inductive Sending where
  | fragment (message : Nat) (bytes : Bytes) (index : Nat) (taken : Bool)
  | ready (taken : Bool)
  deriving DecidableEq

/-- What a call of the listener does: it returns, returns a promise, or throws. -/
inductive Answer where
  | returns
  | promises
  | throws
  deriving DecidableEq

structure Endpoint where
  closed : Bool := false
  readySent : Bool := false
  readyReceived : Bool := false
  nextOutgoingMessage : Nat := 0
  /-- `incoming.message`. -/
  incomingMessage : Nat := 0
  /-- `incoming.fragment`. -/
  incomingFragment : Nat := 0
  activeDeliveryBytes : Nat := 0
  listener : Option Nat := none
  sendQueue : List SendTask := []
  sending : Option Sending := none
  incomingFragments : List Bytes := []
  pendingMessages : List Bytes := []
  /-- The deliveries of the set, by the number of messages handed out before. -/
  activeDeliveries : List Nat := []
  /-- The promises of deliveries that are not settled, with the bytes of their messages. -/
  unsettled : List (Nat × Nat) := []
  sent : List Bytes := []
  emitted : List (List Char) := []
  received : List (List Char) := []
  delivered : List Bytes := []
  deriving DecidableEq

namespace Endpoint

variable (options : Options) (parse : List Char → Option Json)

def close (endpoint : Endpoint) : Endpoint :=
  { endpoint with
    closed := true
    listener := none
    incomingFragments := []
    pendingMessages := []
    activeDeliveries := [] }

def fail (endpoint : Endpoint) : Endpoint := if endpoint.closed then endpoint else endpoint.close

/-! Sending. -/

/-- `sendFrame` is called with a frame that the transport takes or not. -/
def emit (taken : Bool) (frame : List Char) (endpoint : Endpoint) : Endpoint :=
  if taken then { endpoint with emitted := endpoint.emitted ++ [frame] } else endpoint

/-- One turn of the loop over the fragments, up to its first `await`. -/
def sendFragment (message : Nat) (bytes : Bytes) (index : Nat) (taken : Bool)
    (endpoint : Endpoint) : Endpoint :=
  if endpoint.closed then { endpoint with sending := none }
  else
    { endpoint.emit taken (dataFrame (fragment NODE_DUPLEX_FRAGMENT_BYTES message bytes index)) with
      sending := some (.fragment message bytes index taken) }

/-- The first task of the queue starts. -/
def startTask (taken : Bool) (endpoint : Endpoint) : SendTask → Endpoint
  | .data message =>
      if options.maxMessageBytes < message.length then endpoint.fail
      else if MAX_SAFE_INTEGER < endpoint.nextOutgoingMessage then endpoint.fail
      else
        { endpoint with nextOutgoingMessage := endpoint.nextOutgoingMessage + 1 }.sendFragment
          endpoint.nextOutgoingMessage message 0 taken
  | .ready =>
      if endpoint.closed then endpoint
      else if endpoint.readySent ∨ 0 < endpoint.nextOutgoingMessage then endpoint.fail
      else
        { endpoint with readySent := true }.emit taken readyFrame |> fun emitted =>
          { emitted with sending := some (.ready taken) }

/-- The awaited `sendFrame` is done; the loop goes on or the task ends. -/
def resume (ok taken : Bool) (endpoint : Endpoint) : Sending → Endpoint
  | .ready _ =>
      if ok then { endpoint with sending := none }
      else { endpoint with sending := none }.fail
  | .fragment message bytes index _ =>
      if ok then
        if index + 1 < Fragments.count NODE_DUPLEX_FRAGMENT_BYTES bytes then
          endpoint.sendFragment message bytes (index + 1) taken
        else { endpoint with sending := none }
      else { endpoint with sending := none }.fail

/-! Receiving. A function that throws answers with `true`. -/

def observeListener (message : Bytes) (answer : Answer) (endpoint : Endpoint) : Endpoint × Bool :=
  if MAX_PENDING_MESSAGES ≤ endpoint.activeDeliveries.length ∨
      options.maxOutstandingDeliveryBytes < endpoint.activeDeliveryBytes + message.length then
    (endpoint, true)
  else
    let handed := { endpoint with delivered := endpoint.delivered ++ [message] }
    match answer with
    | .throws => (handed, true)
    | .returns => (handed, false)
    | .promises =>
        ({ handed with
            activeDeliveryBytes := endpoint.activeDeliveryBytes + message.length
            activeDeliveries := endpoint.activeDeliveries ++ [endpoint.delivered.length]
            unsettled := endpoint.unsettled ++ [(endpoint.delivered.length, message.length)] }, false)

/-- A fragment that passed the checks is kept; the last one completes the message. -/
def acceptFragment (last : Bool) (data : Bytes) (answer : Answer) (endpoint : Endpoint) :
    Endpoint × Bool :=
  let kept := { endpoint with
    incomingFragments := endpoint.incomingFragments ++ [data]
    incomingFragment := endpoint.incomingFragment + 1 }
  if last then
    let message := kept.incomingFragments.flatten
    let complete := { kept with
      incomingFragments := []
      incomingFragment := 0
      incomingMessage := endpoint.incomingMessage + 1 }
    if endpoint.listener.isSome then complete.observeListener options message answer
    else if MAX_PENDING_MESSAGES ≤ endpoint.pendingMessages.length then (complete, true)
    else ({ complete with pendingMessages := endpoint.pendingMessages ++ [message] }, false)
  else (kept, false)

end Endpoint

/-- `Object.keys(value).length` of a parsed object. -/
def keyCount : Json → Nat
  | .object fields => (fields.map Prod.fst).dedup.length
  | _ => 0

def isRecord : Json → Bool
  | .object _ => true
  | _ => false

def isNumber (value : ℚ) : Option Json → Bool
  | some (.number found) => found = value
  | _ => false

def isText (text : String) : Option Json → Bool
  | some (.string found) => found = text
  | _ => false

/-- `Number.isSafeInteger`. -/
def isSafeInteger : Option Json → Bool
  | some (.number value) => value.den = 1 ∧ |value.num| ≤ (MAX_SAFE_INTEGER : Int)
  | _ => false

namespace Endpoint

variable (options : Options) (parse : List Char → Option Json)

def acceptData (frame : Json) (answer : Answer) (endpoint : Endpoint) : Endpoint × Bool :=
  match frame.field? "last", frame.field? "data" with
  | some (.boolean last), some (.string data) =>
      if keyCount frame ≠ 6 ∨ isSafeInteger (frame.field? "message") = false ∨
          isSafeInteger (frame.field? "index") = false then (endpoint, true)
      else if isNumber endpoint.incomingMessage (frame.field? "message") = false ∨
          isNumber endpoint.incomingFragment (frame.field? "index") = false then (endpoint, true)
      else
        let fragment := Base64Url.decode data.toList
        if toBase64 fragment ≠ data.toList ∨ NODE_DUPLEX_FRAGMENT_BYTES < fragment.length ∨
            (last = false ∧ fragment.length ≠ NODE_DUPLEX_FRAGMENT_BYTES) ∨
            (last = true ∧ fragment.length = 0 ∧ 0 < endpoint.incomingFragment) then (endpoint, true)
        else
          let incomingBytes := endpoint.incomingFragment * NODE_DUPLEX_FRAGMENT_BYTES
          if options.maxMessageBytes < incomingBytes + fragment.length then (endpoint, true)
          else
            let pendingBytes := (endpoint.pendingMessages.map List.length).sum
            if endpoint.listener.isNone ∧
                MAX_PENDING_BYTES < pendingBytes + incomingBytes + fragment.length then
              (endpoint, true)
            else endpoint.acceptFragment options last fragment answer
  | _, _ => (endpoint, true)

/-- The checks of a frame that is not empty, at an open endpoint. -/
def receiveOpen (frame : List Char) (answer : Answer) (endpoint : Endpoint) : Endpoint × Bool :=
  if FRAME_BYTES < byteLength frame then (endpoint, true)
  else
    match parse frame with
    | none => (endpoint, true)
    | some parsed =>
        if isRecord parsed = false ∨ isNumber 1 (parsed.field? "v") = false then (endpoint, true)
        else if isText "ready" (parsed.field? "kind") then
          if keyCount parsed ≠ 2 ∨ endpoint.readyReceived ∨ 0 < endpoint.incomingMessage ∨
              0 < endpoint.incomingFragment then (endpoint, true)
          else ({ endpoint with readyReceived := true }, false)
        else if isText "data" (parsed.field? "kind") = false ∨
            (options.requireReady ∧ endpoint.readyReceived = false) then (endpoint, true)
        else endpoint.acceptData options parsed answer

/-- `fail` catches what is thrown. -/
def caught (result : Endpoint × Bool) : Endpoint := if result.2 then result.1.fail else result.1

def receive (frame : List Char) (answer : Answer) (endpoint : Endpoint) : Endpoint :=
  if frame = [] ∨ endpoint.closed then endpoint
  else caught ({ endpoint with received := endpoint.received ++ [frame] }.receiveOpen options parse
    frame answer)

/-- The pending messages go to the new listener, which answers one after another. -/
def drainPending (answers : Nat → Answer) : List Bytes → Endpoint → Endpoint × Bool
  | [], endpoint => (endpoint, false)
  | message :: rest, endpoint =>
      let handed := { endpoint with pendingMessages := rest }.observeListener options message
        (answers endpoint.delivered.length)
      if handed.2 then handed else drainPending answers rest handed.1

def onMessage (callback : Nat) (answers : Nat → Answer) (endpoint : Endpoint) : Endpoint :=
  if endpoint.closed ∨ endpoint.listener.isSome then endpoint
  else caught (drainPending options answers endpoint.pendingMessages
    { endpoint with listener := some callback })

/-- The function that `onMessage` returns. -/
def unsubscribe (callback : Nat) (endpoint : Endpoint) : Endpoint :=
  if endpoint.listener = some callback then { endpoint with listener := none } else endpoint

/-- The promise of a delivery is settled. -/
def settleDelivery (delivery : Nat) (bytes : Nat) (ok : Bool) (endpoint : Endpoint) : Endpoint :=
  let settled := { endpoint with
    unsettled := endpoint.unsettled.erase (delivery, bytes)
    activeDeliveries := endpoint.activeDeliveries.filter fun other => other ≠ delivery
    activeDeliveryBytes := endpoint.activeDeliveryBytes - bytes }
  if ok then settled else settled.fail

end Endpoint

/-- What can happen at an endpoint; `receive` takes the frame from the wire. -/
inductive Label where
  | send (message : Bytes)
  | sendReady
  | start (taken : Bool)
  | resume (ok taken : Bool)
  | receive (frame : List Char) (answer : Answer)
  | onMessage (callback : Nat) (answers : Nat → Answer)
  | unsubscribe (callback : Nat)
  | settleDelivery (delivery bytes : Nat) (ok : Bool)
  | close

def Sending.wasTaken : Sending → Bool
  | .fragment _ _ _ taken | .ready taken => taken

/-- One event at an endpoint. A frame that the transport did not take is not resolved. -/
def Endpoint.step (options : Options) (parse : List Char → Option Json) (endpoint : Endpoint) :
    Label → Option Endpoint
  | .send message => some { endpoint with
      sendQueue := endpoint.sendQueue ++ [.data message]
      sent := endpoint.sent ++ [message] }
  | .sendReady => some { endpoint with sendQueue := endpoint.sendQueue ++ [.ready] }
  | .start taken =>
      match endpoint.sending, endpoint.sendQueue with
      | none, task :: rest => some ({ endpoint with sendQueue := rest }.startTask options taken task)
      | _, _ => none
  | .resume ok taken =>
      match endpoint.sending with
      | some sending =>
          if ok ∧ sending.wasTaken = false then none else some (endpoint.resume ok taken sending)
      | none => none
  | .receive frame answer => some (endpoint.receive options parse frame answer)
  | .onMessage callback answers => some (endpoint.onMessage options callback answers)
  | .unsubscribe callback => some (endpoint.unsubscribe callback)
  | .settleDelivery delivery bytes ok =>
      if (delivery, bytes) ∈ endpoint.unsettled then some (endpoint.settleDelivery delivery bytes ok)
      else none
  | .close => some endpoint.close

/-- Two endpoints; `taken` counts the frames of each that the other one has received. -/
structure Link where
  ends : Bool → Endpoint
  taken : Bool → Nat

def Link.start : Link := ⟨fun _ => {}, fun _ => 0⟩

/-- An event at one end; a received frame is the next one on the wire from the other end. -/
def Link.step (options : Bool → Options) (parse : List Char → Option Json) (link : Link) :
    Bool × Label → Option Link
  | (side, .receive frame answer) =>
      if (link.ends (!side)).emitted[link.taken (!side)]? = some frame then
        ((link.ends side).step (options side) parse (.receive frame answer)).map fun endpoint =>
          ⟨Function.update link.ends side endpoint,
            Function.update link.taken (!side) (link.taken (!side) + 1)⟩
      else none
  | (side, label) =>
      ((link.ends side).step (options side) parse label).map fun endpoint =>
        { link with ends := Function.update link.ends side endpoint }

end OpenClaw.NodeDuplex
