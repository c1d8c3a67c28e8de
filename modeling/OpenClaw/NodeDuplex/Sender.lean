import OpenClaw.NodeDuplex.Endpoint

/-!
The sending half of an endpoint. What it has put on the wire is readiness, if any, and the
fragments of the messages that were sent, in order and up to some fragment; while it is open, what
is missing of them is in the queue or behind the frame that is awaited.
-/

namespace OpenClaw.NodeDuplex

open Fragments

variable {options : Options} {parse : List Char → Option Json} {endpoint endpoint' : Endpoint}

/-- The messages of the tasks of a queue. -/
def queuedMessages (queue : List SendTask) : List Bytes :=
  queue.filterMap fun task =>
    match task with
    | .data message => some message
    | .ready => none

/-- The frames of some fragments. -/
def dataFrames (fragments : List (Fragment UInt8)) : List (List Char) := fragments.map dataFrame

/-- The part of an endpoint that sending reads and writes. -/
def Endpoint.sendPart (endpoint : Endpoint) :=
  (endpoint.readySent, endpoint.nextOutgoingMessage, endpoint.sendQueue, endpoint.sending,
    endpoint.sent, endpoint.emitted)

/-- How far an open endpoint is with the messages whose tasks have begun. -/
def Running (options : Options) (emitted ready : List (List Char)) (begun : List Bytes) :
    Option Sending → Prop
  | none => emitted = ready ++ dataFrames (framing NODE_DUPLEX_FRAGMENT_BYTES 0 begun)
  | some (.ready _) => begun = [] ∧ emitted = ready
  | some (.fragment id message index taken) => ∃ done, begun = done ++ [message] ∧
      id = done.length ∧ index < count NODE_DUPLEX_FRAGMENT_BYTES message ∧
      message.length ≤ options.maxMessageBytes ∧ id ≤ MAX_SAFE_INTEGER ∧
      emitted = ready ++ dataFrames (framing NODE_DUPLEX_FRAGMENT_BYTES 0 done ++
        (fragments NODE_DUPLEX_FRAGMENT_BYTES id message).take (index + if taken then 1 else 0))

/-- The frames on the wire: readiness at most once, then a front of the framing of messages that
were sent first. -/
def Emits (emitted : List (List Char)) (sent : List Bytes) : Prop :=
  ∃ ready fragments_ messages, (ready = [] ∨ ready = [readyFrame]) ∧
    emitted = ready ++ dataFrames fragments_ ∧
    fragments_ <+: framing NODE_DUPLEX_FRAGMENT_BYTES 0 messages ∧ messages <+: sent

/-- A frame that a sender makes. -/
def Proper (options : Options) (frame : List Char) : Prop :=
  frame = readyFrame ∨ ∃ fragment, frame = dataFrame fragment ∧
    fragment.data.length ≤ NODE_DUPLEX_FRAGMENT_BYTES ∧ fragment.message ≤ MAX_SAFE_INTEGER ∧
    fragment.index ≤ MAX_SAFE_INTEGER ∧
    fragment.index * NODE_DUPLEX_FRAGMENT_BYTES + fragment.data.length ≤ options.maxMessageBytes

theorem Proper.byteLength_le {frame : List Char} (proper : Proper options frame) :
    Outcomes.byteLength frame ≤ FRAME_BYTES := by
  have small : MAX_SAFE_INTEGER < 10 ^ 16 := by decide
  obtain rfl | ⟨fragment, rfl, short, message, index, -⟩ := proper
  · exact byteLength_readyFrame_le
  · exact byteLength_dataFrame_le short (message.trans_lt small) (index.trans_lt small)

theorem Proper.ne_nil {frame : List Char} (proper : Proper options frame) : frame ≠ [] := by
  obtain rfl | ⟨fragment, rfl, -⟩ := proper
  · exact readyFrame_ne_nil
  · exact dataFrame_ne_nil fragment

namespace Endpoint

/-- The invariant of the sending half. -/
structure SendSound (options : Options) (endpoint : Endpoint) : Prop where
  proper : ∀ frame ∈ endpoint.emitted, Proper options frame
  emits : Emits endpoint.emitted endpoint.sent
  running : endpoint.closed = false → ∃ ready begun, (ready = [] ∨ ready = [readyFrame]) ∧
    (endpoint.readySent = false → ready = []) ∧
    endpoint.sent = begun ++ queuedMessages endpoint.sendQueue ∧
    endpoint.nextOutgoingMessage = begun.length ∧
    Running options endpoint.emitted ready begun endpoint.sending

end Endpoint

theorem Running.emits {emitted ready : List (List Char)} {begun more : List Bytes}
    {sending : Option Sending} (readiness : ready = [] ∨ ready = [readyFrame])
    (running : Running options emitted ready begun sending) : Emits emitted (begun ++ more) := by
  cases sending with
  | none =>
      exact ⟨ready, _, begun, readiness, running, List.prefix_refl _, List.prefix_append _ _⟩
  | some sending =>
      cases sending with
      | ready taken =>
          obtain ⟨rfl, same⟩ := running
          exact ⟨ready, [], [], readiness, same.trans (List.append_nil _).symm,
            List.prefix_refl _, List.nil_prefix⟩
      | fragment id message index taken =>
          obtain ⟨done, rfl, rfl, -, -, -, same⟩ := running
          refine ⟨ready, _, done ++ [message], readiness, same, ?_, List.prefix_append _ _⟩
          rw [framing_concat]
          exact (List.prefix_append_right_inj _).mpr (List.take_prefix _ _)

theorem Emits.mono {emitted : List (List Char)} {sent : List Bytes} (emits : Emits emitted sent)
    (more : List Bytes) : Emits emitted (sent ++ more) := by
  obtain ⟨ready, fragments_, messages, readiness, same, part, front⟩ := emits
  exact ⟨ready, fragments_, messages, readiness, same, part, front.trans (List.prefix_append _ _)⟩

namespace Endpoint.SendSound

/-- An event that leaves the sending half alone, but may close the endpoint. -/
theorem of_sendPart (sound : endpoint.SendSound options)
    (same : endpoint'.sendPart = endpoint.sendPart)
    (stays : endpoint'.closed = false → endpoint.closed = false) : endpoint'.SendSound options := by
  simp only [Endpoint.sendPart, Prod.mk.injEq] at same
  obtain ⟨readySent, next, queue, sending, sent, emitted⟩ := same
  refine ⟨emitted ▸ sound.proper, emitted ▸ sent ▸ sound.emits, fun opened => ?_⟩
  rw [readySent, next, queue, sending, sent, emitted]
  exact sound.running (stays opened)

/-- A closed endpoint sends nothing more. -/
theorem of_closed (proper : ∀ frame ∈ endpoint.emitted, Proper options frame)
    (emits : Emits endpoint.emitted endpoint.sent) (closed : endpoint.closed = true) :
    endpoint.SendSound options :=
  ⟨proper, emits, fun opened => absurd (closed.symm.trans opened) (by simp)⟩

theorem fail (proper : ∀ frame ∈ endpoint.emitted, Proper options frame)
    (emits : Emits endpoint.emitted endpoint.sent) : endpoint.fail.SendSound options := by
  unfold Endpoint.fail
  split
  · next closed => exact of_closed proper emits closed
  · exact of_closed proper emits rfl

end Endpoint.SendSound

theorem dataFrames_append (first rest : List (Fragment UInt8)) :
    dataFrames (first ++ rest) = dataFrames first ++ dataFrames rest := List.map_append

theorem take_fragments_succ {message : Bytes} {id index : Nat}
    (inside : index < count NODE_DUPLEX_FRAGMENT_BYTES message) :
    (fragments NODE_DUPLEX_FRAGMENT_BYTES id message).take (index + 1) =
      (fragments NODE_DUPLEX_FRAGMENT_BYTES id message).take index ++
        [fragment NODE_DUPLEX_FRAGMENT_BYTES id message index] := by
  have long : index < (fragments NODE_DUPLEX_FRAGMENT_BYTES id message).length := by
    rwa [fragments, List.length_map, List.length_range]
  rw [List.take_succ_eq_append_getElem long]
  simp [fragments]

/-- A message of a permitted size has few fragments. -/
theorem count_le {message : Bytes} (short : message.length ≤ options.maxMessageBytes) :
    count NODE_DUPLEX_FRAGMENT_BYTES message ≤ MAX_SAFE_INTEGER := by
  have bounded := options.bounded
  have limited := options.limited
  have few : (message.length + NODE_DUPLEX_FRAGMENT_BYTES - 1) / NODE_DUPLEX_FRAGMENT_BYTES ≤
      message.length + NODE_DUPLEX_FRAGMENT_BYTES := (Nat.div_le_self _ _).trans (Nat.sub_le _ _)
  unfold NODE_DUPLEX_MAX_MESSAGE_BYTES at limited
  unfold count MAX_SAFE_INTEGER
  unfold NODE_DUPLEX_FRAGMENT_BYTES at few ⊢
  omega

namespace Endpoint.SendSound

/-- The next fragment of a message goes out. -/
theorem sendFragment {id index : Nat} {message : Bytes} {taken : Bool}
    (proper : ∀ frame ∈ endpoint.emitted, Proper options frame)
    (emits : Emits endpoint.emitted endpoint.sent)
    (at_ : endpoint.closed = false → ∃ ready done, (ready = [] ∨ ready = [readyFrame]) ∧
      (endpoint.readySent = false → ready = []) ∧
      endpoint.sent = (done ++ [message]) ++ queuedMessages endpoint.sendQueue ∧
      endpoint.nextOutgoingMessage = (done ++ [message]).length ∧ id = done.length ∧
      index < count NODE_DUPLEX_FRAGMENT_BYTES message ∧ message.length ≤ options.maxMessageBytes ∧
      id ≤ MAX_SAFE_INTEGER ∧ endpoint.emitted = ready ++ dataFrames
        (framing NODE_DUPLEX_FRAGMENT_BYTES 0 done ++
          (fragments NODE_DUPLEX_FRAGMENT_BYTES id message).take index)) :
    (endpoint.sendFragment id message index taken).SendSound options := by
  unfold Endpoint.sendFragment
  by_cases closed : endpoint.closed = true
  · rw [if_pos closed]
    exact ⟨proper, emits, fun opened => absurd (closed.symm.trans opened) (by simp)⟩
  · rw [if_neg closed]
    obtain ⟨ready, done, readiness, unready, sent, next, number, inside, short, safe, emitted⟩ :=
      at_ (Bool.eq_false_iff.mpr closed)
    have running : Running options (endpoint.emit taken
        (dataFrame (fragment NODE_DUPLEX_FRAGMENT_BYTES id message index))).emitted ready
        (done ++ [message]) (some (.fragment id message index taken)) := by
      refine ⟨done, rfl, number, inside, short, safe, ?_⟩
      cases taken with
      | false => exact emitted
      | true =>
          change endpoint.emitted ++ [_] = _
          rw [if_pos rfl, take_fragments_succ inside, ← List.append_assoc, dataFrames_append,
            ← List.append_assoc, ← emitted]
          rfl
    have same : (endpoint.emit taken
        (dataFrame (fragment NODE_DUPLEX_FRAGMENT_BYTES id message index))).sent =
          endpoint.sent := by
      cases taken <;> rfl
    refine ⟨fun frame mem => ?_, ?_, fun _ =>
      ⟨ready, done ++ [message], readiness, ?_, ?_, ?_, running⟩⟩
    · cases taken with
      | false => exact proper frame mem
      | true =>
          rcases List.mem_append.mp mem with old | new
          · exact proper frame old
          · rw [List.mem_singleton.mp new]
            exact .inr ⟨_, rfl, List.length_take_le _ _, safe, inside.le.trans (count_le short),
              (fragment_end_le (by decide) inside).trans short⟩
    · change Emits _ (endpoint.emit taken _).sent
      rw [same, sent]
      exact running.emits readiness
    · cases taken <;> exact unready
    · change (endpoint.emit taken _).sent = _
      rw [same, sent]
      cases taken <;> rfl
    · cases taken <;> exact next

theorem startTask {task : SendTask} {rest : List SendTask} {taken : Bool}
    (sound : endpoint.SendSound options) (idle : endpoint.sending = none)
    (queue : endpoint.sendQueue = task :: rest) :
    ({ endpoint with sendQueue := rest }.startTask options taken task).SendSound options := by
  unfold Endpoint.startTask
  cases task with
  | data message =>
      dsimp only
      split
      · exact fail sound.proper sound.emits
      · next short =>
          split
          · exact fail sound.proper sound.emits
          · next safe =>
              refine sendFragment sound.proper sound.emits fun opened => ?_
              obtain ⟨ready, begun, readiness, unready, sent, next, running⟩ := sound.running opened
              rw [idle] at running
              refine ⟨ready, begun, readiness, unready, ?_, ?_, next, count_pos _, not_lt.mp short,
                not_lt.mp safe, ?_⟩
              · rw [queue] at sent
                rw [List.append_assoc]
                exact sent
              · rw [List.length_append, List.length_singleton, ← next]
              · rw [List.take_zero, List.append_nil]
                exact running
  | ready =>
      dsimp only
      split
      · next closed => exact of_closed sound.proper sound.emits closed
      · next opened =>
          split
          · exact fail sound.proper sound.emits
          · next first =>
              obtain ⟨ready, begun, readiness, unready, sent, next, running⟩ :=
                sound.running (Bool.eq_false_iff.mpr opened)
              rw [idle] at running
              have none : endpoint.readySent = false ∧ endpoint.nextOutgoingMessage = 0 := by
                simpa using first
              have nothing : ready = [] := unready none.1
              have unsent : begun = [] := List.length_eq_zero_iff.mp (next.symm.trans none.2)
              have silent : endpoint.emitted = [] := by
                rw [running, nothing, unsent]
                rfl
              cases taken with
              | false =>
                  refine ⟨sound.proper, sound.emits, fun _ =>
                    ⟨[], [], .inl rfl, fun _ => rfl, ?_, none.2,
                    rfl, silent⟩⟩
                  rw [queue, unsent] at sent
                  exact sent
              | true =>
                  have emitted : endpoint.emitted ++ [readyFrame] = [readyFrame] := by rw [silent]; rfl
                  refine ⟨fun frame mem => ?_, ?_, fun _ =>
                    ⟨[readyFrame], [], .inr rfl, fun unready_ => ?_,
                    ?_, none.2, rfl, emitted⟩⟩
                  · have listed : frame ∈ endpoint.emitted ++ [readyFrame] := mem
                    rw [emitted, List.mem_singleton] at listed
                    exact .inl listed
                  · exact ⟨[readyFrame], [], [], .inr rfl, emitted, List.prefix_refl _, List.nil_prefix⟩
                  · cases unready_
                  · rw [queue, unsent] at sent
                    exact sent

theorem resume {sending : Sending} {ok taken : Bool} (sound : endpoint.SendSound options)
    (busy : endpoint.sending = some sending) (resolves : ¬ (ok = true ∧ sending.wasTaken = false)) :
    (endpoint.resume ok taken sending).SendSound options := by
  cases ok with
  | false => cases sending <;> exact fail sound.proper sound.emits
  | true =>
      have wasTaken : sending.wasTaken = true := by simpa using resolves
      cases sending with
      | ready was =>
          refine ⟨sound.proper, sound.emits, fun opened => ?_⟩
          obtain ⟨ready, begun, readiness, unready, sent, next, running⟩ := sound.running opened
          rw [busy] at running
          obtain ⟨rfl, emitted⟩ := running
          exact ⟨ready, [], readiness, unready, sent, next, emitted.trans (List.append_nil _).symm⟩
      | fragment id message index was =>
          cases wasTaken
          simp only [Endpoint.resume, if_true]
          split
          · next more =>
              refine sendFragment sound.proper sound.emits fun opened => ?_
              obtain ⟨ready, begun, readiness, unready, sent, next, running⟩ := sound.running opened
              rw [busy] at running
              obtain ⟨done, rfl, number, -, short, safe, emitted⟩ := running
              exact ⟨ready, done, readiness, unready, sent, next, number, more, short, safe, emitted⟩
          · next last =>
              refine ⟨sound.proper, sound.emits, fun opened => ?_⟩
              obtain ⟨ready, begun, readiness, unready, sent, next, running⟩ := sound.running opened
              rw [busy] at running
              obtain ⟨done, rfl, rfl, inside, -, -, emitted⟩ := running
              refine ⟨ready, done ++ [message], readiness, unready, sent, next, ?_⟩
              have whole : (fragments NODE_DUPLEX_FRAGMENT_BYTES done.length message).take
                  (index + if true = true then 1 else 0) =
                    fragments NODE_DUPLEX_FRAGMENT_BYTES done.length message := by
                refine List.take_of_length_le ?_
                rw [fragments, List.length_map, List.length_range, if_pos rfl]
                omega
              rw [whole, ← framing_concat] at emitted
              exact emitted

end Endpoint.SendSound

end OpenClaw.NodeDuplex
