import OpenClaw.NodeDuplex.Acceptance

/-!
What a node duplex channel promises over every run. A channel loses, repeats and reorders no
message; an endpoint that receives arbitrary texts hands out only messages whose canonical frames it
has read, and keeps what it buffers and what its listener owes within its limits.
-/

namespace OpenClaw.NodeDuplex

open Fragments

variable {options : Options} {parse : List Char → Option Json} {endpoint endpoint' : Endpoint}

theorem parsesFrames_parse : ParsesFrames Json.parse :=
  ⟨parse_readyFrame, fun fragment _ _ => parse_dataFrame fragment⟩

/-- Readiness is required, and messages have at most a hundred bytes. -/
def smallOptions : Options where
  requireReady := true
  maxMessageBytes := 100
  maxOutstandingDeliveryBytes := 100
  positive := by decide
  bounded := by decide
  limited := by decide

/-- Each side hands out a front of what the other side has sent, in order, each message once and
unchanged, and every frame fits the transport. When a sender is done and all its frames were taken,
an open receiver has handed out or keeps all of its messages. -/
theorem messages_arrive {options : Bool → Options} (parses : ParsesFrames parse) {link : Link}
    (run : Transition.Reaches (Link.step options parse) Transition.Any Link.start link)
    (side : Bool) :
    (link.ends side).delivered <+: (link.ends (!side)).sent ∧
    (∀ frame ∈ (link.ends side).emitted, Outcomes.byteLength frame ≤ FRAME_BYTES) ∧
    ((link.ends side).closed = false → (link.ends (!side)).closed = false →
      (link.ends (!side)).sendQueue = [] → (link.ends (!side)).sending = none →
      link.taken (!side) = (link.ends (!side)).emitted.length →
      (link.ends side).delivered ++ (link.ends side).pendingMessages =
        (link.ends (!side)).sent) := by
  have sound := Link.sound_of_reaches run
  have sends := sound.sends (!side)
  refine ⟨?_, fun frame mem => ((sound.sends side).proper frame mem).byteLength_le,
    fun opened opened_ queue idle all => ?_⟩
  · obtain ⟨ready, fragments, messages, readiness, emitted, part, first⟩ := sends.emits
    obtain ⟨_, read, fragments_, front, reads, delivered, -⟩ := (sound.receives side).faithful
    have wire : read <+: ready ++ dataFrames fragments := by
      rw [← emitted]
      exact front.trans ((sound.front side).trans (List.take_prefix _ _))
    have same := (reads.fragments_prefix parses readiness (sends.isSafe emitted) wire).1
    calc (link.ends side).delivered
        <+: assemble [] fragments_ := delivered
      _ <+: assemble [] (framing NODE_DUPLEX_FRAGMENT_BYTES 0 messages) :=
          assemble_prefix (same.trans part)
      _ = messages := assemble_framing_self messages
      _ <+: (link.ends (!side)).sent := first
  · have reading := (sound.receives side).reading opened
    obtain ⟨ready, begun, readiness, -, sent, -, running⟩ := sends.running opened_
    rw [idle] at running
    have received : (link.ends side).received = (link.ends (!side)).emitted := by
      rw [sound.whole side opened, all, List.take_length]
    rw [running] at received
    have same := (reading.reads.fragments_prefix parses readiness (sends.isSafe running)
      (by rw [received])).2 received
    rw [← Endpoint.assemble_readFragments, same, assemble_framing_self, sent, queue]
    exact (List.append_nil _).symm

/-- One message of three bytes, sent after readiness and handed out on the other side. -/
theorem messages_arrive_run :
    ∃ link, Transition.Reaches (Link.step (fun _ => smallOptions) Json.parse) Transition.Any
        Link.start link ∧ (link.ends true).delivered = [[1, 2, 3]] ∧
      (link.ends true).delivered <+: (link.ends false).sent := by
  obtain ⟨link, run, delivered⟩ := Transition.Reaches.exists_of_exec
    (Link.step (fun _ => smallOptions) Json.parse) Transition.Any Link.start
    (P := fun link => (link.ends true).delivered = [[1, 2, 3]])
    [(true, .onMessage 0 fun _ => .returns), (false, .sendReady), (false, .start true),
      (true, .receive readyFrame .returns), (false, .resume true false), (false, .send [1, 2, 3]),
      (false, .start true), (true, .receive (dataFrame ⟨0, 0, true, [1, 2, 3]⟩) .returns)]
    (by decide +kernel) (by decide +kernel)
  exact ⟨link, run, delivered, (messages_arrive parsesFrames_parse run true).1⟩

namespace Endpoint

theorem sendSound_of_reaches
    (run : Transition.Reaches (Endpoint.step options parse) Transition.Any {} endpoint) :
    endpoint.SendSound options :=
  run.invariant .start_ fun _ _ _ sound _ taken => sound.step taken

theorem receiveSound_of_reaches
    (run : Transition.Reaches (Endpoint.step options parse) Transition.Any {} endpoint) :
    endpoint.ReceiveSound options parse :=
  run.invariant receiveSound_start fun _ _ _ sound _ taken => sound.step taken

end Endpoint

/-- Whatever texts are received, the messages handed out are those that the canonical frames at the
front complete, after readiness if it is required; an open endpoint has read such frames of exactly
the messages that it has handed out or keeps, and of an unfinished one, and nothing else. -/
theorem reception_canonical
    (run : Transition.Reaches (Endpoint.step options parse) Transition.Any {} endpoint) :
    (∃ readiness read fragments, read <+: endpoint.received ∧
      Reads parse readiness read fragments ∧ endpoint.delivered <+: assemble [] fragments ∧
      (options.requireReady = true → readiness = false → endpoint.delivered = [])) ∧
    (endpoint.closed = false →
      Reads parse endpoint.readyReceived endpoint.received
        (framing NODE_DUPLEX_FRAGMENT_BYTES 0 (endpoint.delivered ++ endpoint.pendingMessages) ++
          pieces (endpoint.delivered ++ endpoint.pendingMessages).length
            endpoint.incomingFragments)) := by
  have sound := Endpoint.receiveSound_of_reaches run
  refine ⟨sound.faithful, fun opened => ?_⟩
  have reading := sound.reading opened
  rw [← reading.number]
  exact reading.reads

/-- A text that is not a frame closes the endpoint for good. -/
theorem reception_canonical_run :
    ∃ endpoint, Transition.Reaches (Endpoint.step smallOptions Json.parse) Transition.Any
        {} endpoint ∧
      endpoint.received = [readyFrame, dataFrame ⟨0, 0, true, [1, 2, 3]⟩, ['x']] ∧
      ∃ readiness read fragments, read <+: endpoint.received ∧
        Reads Json.parse readiness read fragments ∧
        endpoint.delivered <+: assemble [] fragments ∧
        (smallOptions.requireReady = true → readiness = false → endpoint.delivered = []) := by
  obtain ⟨endpoint, run, received⟩ := Transition.Reaches.exists_of_exec
    (Endpoint.step smallOptions Json.parse) Transition.Any {}
    (P := fun endpoint =>
      endpoint.received = [readyFrame, dataFrame ⟨0, 0, true, [1, 2, 3]⟩, ['x']])
    [.onMessage 0 fun _ => .returns, .receive readyFrame .returns,
      .receive (dataFrame ⟨0, 0, true, [1, 2, 3]⟩) .returns, .receive ['x'] .returns,
      .receive readyFrame .returns]
    (by decide +kernel) (by decide +kernel)
  exact ⟨endpoint, run, received, (reception_canonical run).1⟩

/-- Sends do not interleave: the wire carries readiness at most once and then a front of the
fragments of the messages in the order of their calls, all of them when an open endpoint is idle. -/
theorem sends_in_order
    (run : Transition.Reaches (Endpoint.step options parse) Transition.Any {} endpoint) :
    (∃ ready fragments_, (ready = [] ∨ ready = [readyFrame]) ∧
      endpoint.emitted = ready ++ dataFrames fragments_ ∧
      fragments_ <+: framing NODE_DUPLEX_FRAGMENT_BYTES 0 endpoint.sent) ∧
    (endpoint.closed = false → endpoint.sendQueue = [] → endpoint.sending = none →
      ∃ ready, (ready = [] ∨ ready = [readyFrame]) ∧
        endpoint.emitted =
          ready ++ dataFrames (framing NODE_DUPLEX_FRAGMENT_BYTES 0 endpoint.sent)) := by
  have sound := Endpoint.sendSound_of_reaches run
  refine ⟨?_, fun opened queue idle => ?_⟩
  · obtain ⟨ready, fragments_, messages, readiness, emitted, part, front⟩ := sound.emits
    obtain ⟨rest, sent⟩ := front
    refine ⟨ready, fragments_, readiness, emitted, part.trans ?_⟩
    rw [← sent, framing_append]
    exact List.prefix_append _ _
  · obtain ⟨ready, begun, readiness, -, sent, -, running⟩ := sound.running opened
    rw [idle] at running
    have all : endpoint.sent = begun := by
      rw [sent, queue]
      exact List.append_nil _
    exact ⟨ready, readiness, all ▸ running⟩

/-- Two messages are queued while the first is on its way. -/
theorem sends_in_order_run :
    ∃ endpoint, Transition.Reaches (Endpoint.step smallOptions Json.parse) Transition.Any
        {} endpoint ∧
      endpoint.sent = [[1], [2, 3]] ∧ endpoint.emitted.length = 2 ∧
      ∃ ready, (ready = [] ∨ ready = [readyFrame]) ∧
        endpoint.emitted =
          ready ++ dataFrames (framing NODE_DUPLEX_FRAGMENT_BYTES 0 endpoint.sent) := by
  obtain ⟨endpoint, run, ⟨sent, emitted, opened, queue, idle⟩⟩ := Transition.Reaches.exists_of_exec
    (Endpoint.step smallOptions Json.parse) Transition.Any {}
    (P := fun endpoint => endpoint.sent = [[1], [2, 3]] ∧ endpoint.emitted.length = 2 ∧
      endpoint.closed = false ∧ endpoint.sendQueue = [] ∧ endpoint.sending = none)
    [.send [1], .start true, .send [2, 3], .resume true false, .start true, .resume true false]
    (by decide +kernel) (by decide +kernel)
  exact ⟨endpoint, run, sent, emitted, (sends_in_order run).2 opened queue idle⟩

/-- A closed endpoint stays closed; it sends, takes and hands out nothing more. -/
theorem closed_is_final (closed : endpoint.closed = true)
    (run : Transition.Reaches (Endpoint.step options parse) Transition.Any endpoint endpoint') :
    endpoint'.closed = true ∧ endpoint'.emitted = endpoint.emitted ∧
      endpoint'.received = endpoint.received ∧ endpoint'.delivered = endpoint.delivered := by
  refine run.invariant (P := fun later => later.closed = true ∧ later.emitted = endpoint.emitted ∧
    later.received = endpoint.received ∧ later.delivered = endpoint.delivered)
    ⟨closed, rfl, rfl, rfl⟩ fun state label later frozen _ taken => ?_
  obtain ⟨closed_, emitted, received, delivered⟩ := Endpoint.step_of_closed frozen.1 taken
  exact ⟨closed_, emitted.trans frozen.2.1, received.trans frozen.2.2.1,
    delivered.trans frozen.2.2.2⟩

/-- A call of `send` after `close` puts nothing on the wire. -/
theorem closed_is_final_run :
    ∃ endpoint, Transition.Reaches (Endpoint.step smallOptions Json.parse) Transition.Any
        ({ closed := true } : Endpoint) endpoint ∧ endpoint.sent = [[1]] ∧
      endpoint.emitted = [] := by
  obtain ⟨endpoint, run, sent⟩ := Transition.Reaches.exists_of_exec
    (Endpoint.step smallOptions Json.parse) Transition.Any ({ closed := true } : Endpoint)
    (P := fun endpoint => endpoint.sent = [[1]]) [.send [1], .start true]
    (by decide +kernel) (by decide +kernel)
  exact ⟨endpoint, run, sent, (closed_is_final rfl run).2.1⟩

end OpenClaw.NodeDuplex
