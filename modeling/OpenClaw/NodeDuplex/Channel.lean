import OpenClaw.NodeDuplex.Receiver
import OpenClaw.NodeDuplex.Sender

/-!
What one event does to the two halves of an endpoint, and the invariant of two endpoints that take
each other's frames in order. What is read from the front of a wire are the fragments that were put
on it.
-/

namespace OpenClaw.NodeDuplex

open Fragments

variable {options : Options} {parse : List Char → Option Json} {endpoint endpoint' : Endpoint}

/-- The events that neither send nor receive. -/
def Label.IsQuiet : Label → Prop
  | .onMessage _ _ | .unsubscribe _ | .settleDelivery _ _ _ | .close => True
  | _ => False

/-! What receiving leaves alone. -/

namespace Endpoint

/-- The sending half, whether the endpoint is closed, and what it has received. -/
def quietPart (endpoint : Endpoint) := (endpoint.sendPart, endpoint.closed, endpoint.received)

theorem quietPart_observeListener (message : Bytes) (answer : Answer) (endpoint : Endpoint) :
    (endpoint.observeListener options message answer).1.quietPart = endpoint.quietPart := by
  obtain same | same | ⟨-, -, same⟩ :=
    @observeListener_cases options message answer endpoint <;> rw [same] <;> rfl

theorem quietPart_acceptFragment (last : Bool) (data : Bytes) (answer : Answer)
    (endpoint : Endpoint) :
    (endpoint.acceptFragment options last data answer).1.quietPart = endpoint.quietPart := by
  unfold acceptFragment
  dsimp only
  split
  · split
    · exact quietPart_observeListener _ _ _
    · split <;> rfl
  · rfl

theorem quietPart_receiveOpen (frame : List Char) (answer : Answer) (endpoint : Endpoint) :
    (endpoint.receiveOpen options parse frame answer).1.quietPart = endpoint.quietPart := by
  obtain same | ⟨-, -, -, -, same⟩ | ⟨parsed, last, data, -, -, -, same⟩ :=
    @receiveOpen_cases options parse endpoint frame answer
  · rw [same]
  · rw [same]
    rfl
  · rw [same, quietPart_acceptFragment]

theorem quietPart_drainPending (answers : Nat → Answer) (pending : List Bytes)
    (endpoint : Endpoint) :
    (drainPending options answers pending endpoint).1.quietPart = endpoint.quietPart := by
  induction pending generalizing endpoint with
  | nil => rfl
  | cons message rest ih =>
      rw [drainPending]
      split
      · exact quietPart_observeListener _ _ _
      · rw [ih, quietPart_observeListener]
        rfl

/-- A later state that may be closed but sends nothing else and has received the same. -/
structure Settles (endpoint endpoint' : Endpoint) : Prop where
  sendPart : endpoint'.sendPart = endpoint.sendPart
  received : endpoint'.received = endpoint.received
  closed : endpoint.closed = true → endpoint'.closed = true

theorem Settles.of_quietPart (same : endpoint'.quietPart = endpoint.quietPart) :
    endpoint.Settles endpoint' := by
  simp only [quietPart, Prod.mk.injEq] at same
  exact ⟨same.1, same.2.2, same.2.1.trans⟩

theorem Settles.fail (settles : endpoint.Settles endpoint') : endpoint.Settles endpoint'.fail := by
  unfold Endpoint.fail
  split
  · exact settles
  · exact ⟨settles.sendPart, settles.received, fun _ => rfl⟩

theorem Settles.caught {result : Endpoint × Bool} (settles : endpoint.Settles result.1) :
    endpoint.Settles (caught result) := by
  unfold Endpoint.caught
  split
  · exact settles.fail
  · exact settles

theorem receive_settles (open_ : endpoint.closed = false) {frame : List Char}
    (nonempty : frame ≠ [])
    (answer : Answer) :
    { endpoint with received := endpoint.received ++ [frame] }.Settles
      (endpoint.receive options parse frame answer) := by
  rw [receive, if_neg (by simp [open_, nonempty])]
  exact Settles.caught (.of_quietPart (quietPart_receiveOpen _ _ _))

theorem receive_closed (closed : endpoint.closed = true) (frame : List Char) (answer : Answer) :
    endpoint.receive options parse frame answer = endpoint := if_pos (.inr closed)

theorem settles_of_isQuiet {label : Label}
    (taken : endpoint.step options parse label = some endpoint') (quiet : label.IsQuiet) :
    endpoint.Settles endpoint' := by
  cases label with
  | onMessage callback answers =>
      cases taken
      unfold onMessage
      split
      · exact ⟨rfl, rfl, id⟩
      · exact Settles.caught (.of_quietPart (quietPart_drainPending _ _ _))
  | unsubscribe callback =>
      cases taken
      unfold unsubscribe
      split
      · exact ⟨rfl, rfl, id⟩
      · exact ⟨rfl, rfl, id⟩
  | settleDelivery delivery bytes ok =>
      rw [Endpoint.step] at taken
      split at taken
      · cases taken
        unfold settleDelivery
        cases ok with
        | true => exact ⟨rfl, rfl, id⟩
        | false => exact Settles.fail ⟨rfl, rfl, id⟩
      · cases taken
  | close =>
      cases taken
      exact ⟨rfl, rfl, fun _ => rfl⟩
  | send _ | sendReady | start _ | resume _ _ | receive _ _ => exact quiet.elim

/-! What sending leaves alone. -/

/-- More frames are on the wire, and nothing else was received. -/
structure Grows (endpoint endpoint' : Endpoint) : Prop where
  emitted : endpoint.emitted <+: endpoint'.emitted
  received : endpoint'.received = endpoint.received
  closed : endpoint.closed = true → endpoint'.closed = true

theorem Settles.grows (settles : endpoint.Settles endpoint') : endpoint.Grows endpoint' := by
  have same := settles.sendPart
  simp only [Endpoint.sendPart, Prod.mk.injEq] at same
  exact ⟨by rw [same.2.2.2.2.2], settles.received, settles.closed⟩

theorem Grows.fail (grows : endpoint.Grows endpoint') : endpoint.Grows endpoint'.fail := by
  unfold Endpoint.fail
  split
  · exact grows
  · exact ⟨grows.emitted, grows.received, fun _ => rfl⟩

theorem sendFragment_grows (message : Nat) (bytes : Bytes) (index : Nat) (taken : Bool)
    (endpoint : Endpoint) : endpoint.Grows (endpoint.sendFragment message bytes index taken) := by
  unfold sendFragment
  split
  · exact ⟨List.prefix_refl _, rfl, id⟩
  · cases taken with
    | false => exact ⟨List.prefix_refl _, rfl, id⟩
    | true => exact ⟨List.prefix_append _ _, rfl, id⟩

theorem startTask_grows (taken : Bool) (task : SendTask) (endpoint : Endpoint) :
    endpoint.Grows (endpoint.startTask options taken task) := by
  have same : endpoint.Grows endpoint := ⟨List.prefix_refl _, rfl, id⟩
  unfold startTask
  cases task with
  | data message =>
      dsimp only
      split
      · exact same.fail
      · split
        · exact same.fail
        · have sent := sendFragment_grows endpoint.nextOutgoingMessage message 0 taken
            { endpoint with nextOutgoingMessage := endpoint.nextOutgoingMessage + 1 }
          exact ⟨sent.emitted, sent.received, sent.closed⟩
  | ready =>
      dsimp only
      split
      · exact same
      · split
        · exact same.fail
        · cases taken with
          | false => exact ⟨List.prefix_refl _, rfl, id⟩
          | true => exact ⟨List.prefix_append _ _, rfl, id⟩

theorem resume_grows (ok taken : Bool) (sending : Sending) (endpoint : Endpoint) :
    endpoint.Grows (endpoint.resume ok taken sending) := by
  have stopped : endpoint.Grows { endpoint with sending := none } := ⟨List.prefix_refl _, rfl, id⟩
  cases ok with
  | false => cases sending <;> exact stopped.fail
  | true =>
      cases sending with
      | ready was => exact stopped
      | fragment message bytes index was =>
          simp only [resume, if_true]
          split
          · exact sendFragment_grows _ _ _ _ _
          · exact stopped

/-- Only `receive` takes a frame from the wire. -/
theorem step_grows {label : Label} (taken : endpoint.step options parse label = some endpoint')
    (other : ∀ frame answer, label ≠ .receive frame answer) : endpoint.Grows endpoint' := by
  cases label with
  | send message =>
      cases taken
      exact ⟨List.prefix_refl _, rfl, id⟩
  | sendReady =>
      cases taken
      exact ⟨List.prefix_refl _, rfl, id⟩
  | start taken_ =>
      rw [Endpoint.step] at taken
      split at taken
      · next task rest _ _ =>
          cases taken
          have started := @startTask_grows options taken_ task
            { endpoint with sendQueue := rest }
          exact ⟨started.emitted, started.received, started.closed⟩
      · cases taken
  | resume ok taken_ =>
      rw [Endpoint.step] at taken
      split at taken
      · split at taken
        · cases taken
        · cases taken
          exact resume_grows ok taken_ _ endpoint
      · cases taken
  | receive frame answer => exact absurd rfl (other frame answer)
  | onMessage _ _ | unsubscribe _ | settleDelivery _ _ _ | close =>
      exact (settles_of_isQuiet taken trivial).grows

/-- What happens at a closed endpoint is neither sent, received nor handed out. -/
theorem step_of_closed {label : Label} (closed : endpoint.closed = true)
    (taken : endpoint.step options parse label = some endpoint') :
    endpoint'.closed = true ∧ endpoint'.emitted = endpoint.emitted ∧
      endpoint'.received = endpoint.received ∧ endpoint'.delivered = endpoint.delivered := by
  cases label with
  | send message =>
      cases taken
      exact ⟨closed, rfl, rfl, rfl⟩
  | sendReady =>
      cases taken
      exact ⟨closed, rfl, rfl, rfl⟩
  | start taken_ =>
      rw [Endpoint.step] at taken
      split at taken
      · next task rest _ _ =>
          cases taken
          cases task with
          | data message =>
              rw [startTask, Endpoint.fail, if_pos closed, sendFragment, if_pos closed]
              split
              · exact ⟨closed, rfl, rfl, rfl⟩
              · split
                · exact ⟨closed, rfl, rfl, rfl⟩
                · exact ⟨closed, rfl, rfl, rfl⟩
          | ready =>
              rw [startTask, if_pos closed]
              exact ⟨closed, rfl, rfl, rfl⟩
      · cases taken
  | resume ok taken_ =>
      rw [Endpoint.step] at taken
      split at taken
      · next sending _ =>
          split at taken
          · cases taken
          · cases taken
            have stopped : ({ endpoint with sending := none } : Endpoint).fail =
                { endpoint with sending := none } := if_pos closed
            have silent : ∀ message bytes index, endpoint.sendFragment message bytes index taken_ =
                { endpoint with sending := none } := fun _ _ _ => if_pos closed
            have same : endpoint.resume ok taken_ sending = { endpoint with sending := none } := by
              cases ok with
              | false =>
                  cases sending with
                  | ready was => exact stopped
                  | fragment message bytes index was => exact stopped
              | true =>
                  cases sending with
                  | ready was => rfl
                  | fragment message bytes index was =>
                      simp only [resume, if_true, silent, ite_self]
            rw [same]
            exact ⟨closed, rfl, rfl, rfl⟩
      · cases taken
  | receive frame answer =>
      cases taken
      rw [receive_closed closed]
      exact ⟨closed, rfl, rfl, rfl⟩
  | onMessage callback answers =>
      cases taken
      rw [onMessage, if_pos (.inl closed)]
      exact ⟨closed, rfl, rfl, rfl⟩
  | unsubscribe callback =>
      cases taken
      unfold unsubscribe
      split
      · exact ⟨closed, rfl, rfl, rfl⟩
      · exact ⟨closed, rfl, rfl, rfl⟩
  | settleDelivery delivery bytes ok =>
      rw [Endpoint.step] at taken
      split at taken
      · cases taken
        unfold settleDelivery
        cases ok with
        | true => exact ⟨closed, rfl, rfl, rfl⟩
        | false =>
            simp only [Endpoint.fail, closed, if_true]
            exact ⟨rfl, rfl, rfl, rfl⟩
      · cases taken
  | close =>
      cases taken
      exact ⟨rfl, rfl, rfl, rfl⟩

/-! The sending half over every event. -/

namespace SendSound

theorem of_settles (sound : endpoint.SendSound options) (settles : endpoint.Settles endpoint') :
    endpoint'.SendSound options := by
  refine sound.of_sendPart settles.sendPart fun opened => Bool.eq_false_iff.mpr fun closed => ?_
  exact absurd ((settles.closed closed).symm.trans opened) (by simp)

theorem queue {message : Bytes} (sound : endpoint.SendSound options) :
    { endpoint with
      sendQueue := endpoint.sendQueue ++ [SendTask.data message]
      sent := endpoint.sent ++ [message] }.SendSound options := by
  refine ⟨sound.proper, sound.emits.mono [message], fun opened => ?_⟩
  obtain ⟨ready, begun, readiness, unready, sent, next, running⟩ := sound.running opened
  refine ⟨ready, begun, readiness, unready, ?_, next, running⟩
  change endpoint.sent ++ [message] =
    begun ++ queuedMessages (endpoint.sendQueue ++ [SendTask.data message])
  rw [sent, queuedMessages, queuedMessages, List.filterMap_append, List.append_assoc]
  rfl

theorem queueReady (sound : endpoint.SendSound options) :
    { endpoint with sendQueue := endpoint.sendQueue ++ [SendTask.ready] }.SendSound options := by
  refine ⟨sound.proper, sound.emits, fun opened => ?_⟩
  obtain ⟨ready, begun, readiness, unready, sent, next, running⟩ := sound.running opened
  refine ⟨ready, begun, readiness, unready, ?_, next, running⟩
  have same : queuedMessages (endpoint.sendQueue ++ [SendTask.ready]) =
      queuedMessages endpoint.sendQueue := by
    rw [queuedMessages, List.filterMap_append]
    exact List.append_nil _
  exact sent.trans (congrArg (begun ++ ·) same.symm)

theorem start_ : ({} : Endpoint).SendSound options where
  proper := fun _ mem => absurd mem List.not_mem_nil
  emits := ⟨[], [], [], .inl rfl, rfl, List.nil_prefix, List.nil_prefix⟩
  running := fun _ => ⟨[], [], .inl rfl, fun _ => rfl, rfl, rfl, rfl⟩

theorem step {label : Label} (sound : endpoint.SendSound options)
    (taken : endpoint.step options parse label = some endpoint') : endpoint'.SendSound options := by
  cases label with
  | send message =>
      cases taken
      exact sound.queue
  | sendReady =>
      cases taken
      exact sound.queueReady
  | start taken_ =>
      rw [Endpoint.step] at taken
      split at taken
      · next task rest idle queued =>
          cases taken
          exact sound.startTask idle queued
      · cases taken
  | resume ok taken_ =>
      rw [Endpoint.step] at taken
      split at taken
      · next sending busy =>
          split at taken
          · cases taken
          · next resolves =>
              cases taken
              exact sound.resume busy resolves
      · cases taken
  | receive frame answer =>
      cases taken
      by_cases ignored : frame = [] ∨ endpoint.closed = true
      · rw [receive, if_pos ignored]
        exact sound
      · obtain ⟨nonempty, opened⟩ := not_or.mp ignored
        have took : { endpoint with received := endpoint.received ++ [frame] }.SendSound options :=
          sound.of_sendPart rfl id
        exact took.of_settles (receive_settles (Bool.eq_false_iff.mpr opened) nonempty answer)
  | onMessage _ _ | unsubscribe _ | settleDelivery _ _ _ | close =>
      exact sound.of_settles (settles_of_isQuiet taken trivial)

end SendSound

end Endpoint
/-! Reading back what was sent. -/

/-- `JSON.parse` reads what `JSON.stringify` has written for a frame. -/
structure ParsesFrames (parse : List Char → Option Json) : Prop where
  ready : parse readyFrame = some (objectOf readyFields)
  data : ∀ fragment : Fragment UInt8, fragment.message ≤ MAX_SAFE_INTEGER →
    fragment.index ≤ MAX_SAFE_INTEGER →
    parse (dataFrame fragment) = some (objectOf (dataFields fragment))

theorem IsData.unique {parsed : Json} {left right : Fragment UInt8} (left_ : IsData parsed left)
    (right_ : IsData parsed right) : left = right := by
  have number : ∀ {a b : Nat} {value : Option Json}, isNumber (a : ℚ) value = true →
      isNumber (b : ℚ) value = true → a = b := fun {a b value} first second => by
    unfold isNumber at first second
    split at first
    · have first_ := of_decide_eq_true first
      have second_ := of_decide_eq_true second
      exact Nat.cast_injective (first_.symm.trans second_)
    · cases first
  have last := Option.some.inj (left_.last.symm.trans right_.last)
  have data := Option.some.inj (left_.data.symm.trans right_.data)
  have message := number left_.message right_.message
  have index := number left_.index right_.index
  have bytes := toBase64_injective (String.ofList_injective (Json.string.inj data))
  cases left
  cases right
  simp_all

theorem Spells.unique {frame : List Char} {left right : Fragment UInt8}
    (left_ : Spells parse frame left) (right_ : Spells parse frame right) : left = right := by
  obtain ⟨parsed, same, first⟩ := left_
  obtain ⟨parsed', same', second⟩ := right_
  cases Option.some.inj (same.symm.trans same')
  exact first.unique second

theorem Spells.not_announces {frame : List Char} {fragment : Fragment UInt8}
    (spells : Spells parse frame fragment) : ¬ Announces parse frame := fun announces => by
  obtain ⟨parsed, same, data⟩ := spells
  obtain ⟨parsed', same', ready⟩ := announces
  cases Option.some.inj (same.symm.trans same')
  have keys := data.keys.symm.trans ready.keys
  cases keys

namespace ParsesFrames

theorem announces (parses : ParsesFrames parse) : Announces parse readyFrame :=
  ⟨_, parses.ready, by decide, by decide, by decide, by decide⟩

theorem spells (parses : ParsesFrames parse) {fragment : Fragment UInt8}
    (message : fragment.message ≤ MAX_SAFE_INTEGER) (index : fragment.index ≤ MAX_SAFE_INTEGER) :
    Spells parse (dataFrame fragment) fragment := by
  refine ⟨_, parses.data fragment message index, rfl, ?_, ?_, ?_, ?_, ?_, ?_, ?_⟩ <;>
    simp [isNumber, isText, keyCount, Json.field?, objectOf, dataFields]

end ParsesFrames

/-- A fragment whose numbers JavaScript keeps exactly. -/
def IsSafe (fragment : Fragment UInt8) : Prop :=
  fragment.message ≤ MAX_SAFE_INTEGER ∧ fragment.index ≤ MAX_SAFE_INTEGER

/-- The frames of safe fragments spell these and no others. -/
theorem forall₂_spells_unique (parses : ParsesFrames parse) {part fragments : List (Fragment UInt8)}
    (safe : ∀ fragment ∈ part, IsSafe fragment)
    (spell : List.Forall₂ (Spells parse) (dataFrames part) fragments) : fragments = part := by
  induction part generalizing fragments with
  | nil => exact List.forall₂_nil_left_iff.mp spell
  | cons fragment part ih =>
      cases spell with
      | cons first rest =>
          have here := safe fragment List.mem_cons_self
          rw [first.unique (parses.spells here.1 here.2),
            ih (fun other mem => safe other (List.mem_cons_of_mem _ mem)) rest]

theorem dataFrames_take (fragments : List (Fragment UInt8)) (n : Nat) :
    (dataFrames fragments).take n = dataFrames (fragments.take n) := List.map_take.symm

/-- What is read from the front of a wire are the first of the fragments sent on it. -/
theorem Reads.fragments_prefix (parses : ParsesFrames parse) {readiness : Bool}
    {read ready : List (List Char)} {fragments all : List (Fragment UInt8)}
    (reads : Reads parse readiness read fragments) (readiness_ : ready = [] ∨ ready = [readyFrame])
    (safe : ∀ fragment ∈ all, IsSafe fragment) (front : read <+: ready ++ dataFrames all) :
    fragments <+: all ∧ (read = ready ++ dataFrames all → fragments = all) := by
  have whole : ∀ {frames : List (List Char)}, frames <+: dataFrames all →
      List.Forall₂ (Spells parse) frames fragments →
      fragments <+: all ∧ (frames = dataFrames all → fragments = all) := fun {frames} part spell => by
    refine ⟨?_, fun same => forall₂_spells_unique parses safe (same ▸ spell)⟩
    have cut : frames = dataFrames (all.take frames.length) := by
      rw [← dataFrames_take]
      exact List.prefix_iff_eq_take.mp part
    rw [cut] at spell
    rw [forall₂_spells_unique parses (fun other mem => safe other (List.mem_of_mem_take mem)) spell]
    exact List.take_prefix _ _
  obtain rfl | rfl := readiness_
  · cases readiness with
    | false => exact whole front reads
    | true =>
        cases read with
        | nil => exact reads.elim
        | cons frame read =>
            obtain ⟨announces, -⟩ := reads
            cases all with
            | nil => exact absurd (List.prefix_nil.mp front) (List.cons_ne_nil _ _)
            | cons fragment all =>
                have first : frame = dataFrame fragment := (List.cons_prefix_cons.mp front).1
                have here := safe fragment List.mem_cons_self
                rw [first] at announces
                exact absurd announces (parses.spells here.1 here.2).not_announces
  · cases readiness with
    | false =>
        cases read with
        | nil =>
            cases reads
            exact ⟨List.nil_prefix, fun same => absurd same.symm (List.cons_ne_nil _ _)⟩
        | cons frame read =>
            have first : frame = readyFrame := (List.cons_prefix_cons.mp front).1
            cases reads with
            | cons spells _ =>
                rw [first] at spells
                exact absurd parses.announces spells.not_announces
    | true =>
        cases read with
        | nil => exact reads.elim
        | cons frame read =>
            obtain ⟨-, spell⟩ := reads
            have rest := whole (List.cons_prefix_cons.mp front).2 spell
            exact ⟨rest.1, fun same => rest.2 (List.cons_eq_cons.mp same).2⟩

/-! Runs. -/

namespace Link

variable {options : Bool → Options} {link link' : Link}

/-- The invariant of two endpoints: what one has received is the front of what the other has put on
the wire, all that was taken from there while it is open. -/
structure Sound (options : Bool → Options) (parse : List Char → Option Json) (link : Link) :
    Prop where
  sends : ∀ side, (link.ends side).SendSound (options side)
  receives : ∀ side, (link.ends side).ReceiveSound (options side) parse
  within : ∀ side, link.taken side ≤ (link.ends side).emitted.length
  front : ∀ side, (link.ends side).received <+:
    (link.ends (!side)).emitted.take (link.taken (!side))
  whole : ∀ side, (link.ends side).closed = false →
    (link.ends side).received = (link.ends (!side)).emitted.take (link.taken (!side))

theorem sound_start : Sound options parse start where
  sends := fun _ => .start_
  receives := fun _ => Endpoint.receiveSound_start
  within := fun _ => Nat.zero_le _
  front := fun _ => List.nil_prefix
  whole := fun _ _ => rfl

/-- An event at one end that takes nothing from the wire. -/
theorem Sound.grow {side : Bool} {endpoint : Endpoint} (sound : Sound options parse link)
    (sends : endpoint.SendSound (options side))
    (receives : endpoint.ReceiveSound (options side) parse)
    (grows : (link.ends side).Grows endpoint) :
    Sound options parse { link with ends := Function.update link.ends side endpoint } := by
  have grown : ∀ other, (link.ends other).Grows (Function.update link.ends side endpoint other) :=
    (Function.forall_update_iff link.ends fun other later => (link.ends other).Grows later).mpr
      ⟨grows, fun other _ => ⟨List.prefix_refl _, rfl, id⟩⟩
  have taken : ∀ other, (Function.update link.ends side endpoint other).emitted.take
      (link.taken other) = (link.ends other).emitted.take (link.taken other) := fun other => by
    obtain ⟨more, same⟩ := (grown other).emitted
    rw [← same, List.take_append_of_le_length (sound.within other)]
  refine ⟨(Function.forall_update_iff link.ends fun other later =>
      later.SendSound (options other)).mpr ⟨sends, fun other _ => sound.sends other⟩,
    (Function.forall_update_iff link.ends fun other later =>
      later.ReceiveSound (options other) parse).mpr ⟨receives, fun other _ => sound.receives other⟩,
    fun other => (sound.within other).trans (grown other).emitted.length_le, fun other => ?_,
    fun other opened => ?_⟩
  · rw [(grown other).received, taken]
    exact sound.front other
  · rw [(grown other).received, taken]
    refine sound.whole other (Bool.eq_false_iff.mpr fun closed => ?_)
    exact absurd (((grown other).closed closed).symm.trans opened) (by simp)

/-- The next frame is taken from the wire. -/
theorem Sound.take {side : Bool} {frame : List Char} {answer : Answer}
    (sound : Sound options parse link)
    (next : (link.ends (!side)).emitted[link.taken (!side)]? = some frame) :
    Sound options parse ⟨Function.update link.ends side
      ((link.ends side).receive (options side) parse frame answer),
        Function.update link.taken (!side) (link.taken (!side) + 1)⟩ := by
  obtain ⟨inside, here_⟩ := List.getElem?_eq_some_iff.mp next
  have nonempty := ((sound.sends (!side)).proper frame (here_ ▸ List.getElem_mem inside)).ne_nil
  have more : (link.ends (!side)).emitted.take (link.taken (!side) + 1) =
      (link.ends (!side)).emitted.take (link.taken (!side)) ++ [frame] := by
    rw [List.take_succ_eq_append_getElem inside, here_]
  -- What the receiving end becomes.
  have sends := @Endpoint.SendSound.step _ parse _ _ (.receive frame answer) (sound.sends side) rfl
  have receives :=
    @Endpoint.ReceiveSound.step _ _ _ _ (.receive frame answer) (sound.receives side) rfl
  have emitted : ((link.ends side).receive (options side) parse frame answer).emitted =
      (link.ends side).emitted := by
    by_cases closed : (link.ends side).closed = true
    · rw [Endpoint.receive_closed closed]
    · have same := (@Endpoint.receive_settles (options side) parse _
        (Bool.eq_false_iff.mpr closed) _ nonempty answer).sendPart
      simp only [Endpoint.sendPart, Prod.mk.injEq] at same
      exact same.2.2.2.2.2
  have wires : ∀ other, (Function.update link.ends side
      ((link.ends side).receive (options side) parse frame answer) other).emitted =
        (link.ends other).emitted :=
    (Function.forall_update_iff link.ends fun other later =>
      later.emitted = (link.ends other).emitted).mpr ⟨emitted, fun _ _ => rfl⟩
  have received : (link.ends side).closed = false →
      ((link.ends side).receive (options side) parse frame answer).received =
        (link.ends side).received ++ [frame] := fun opened =>
    (Endpoint.receive_settles opened nonempty answer).received
  refine ⟨(Function.forall_update_iff link.ends fun other later =>
      later.SendSound (options other)).mpr ⟨sends, fun other _ => sound.sends other⟩,
    (Function.forall_update_iff link.ends fun other later =>
      later.ReceiveSound (options other) parse).mpr ⟨receives, fun other _ => sound.receives other⟩,
    fun other => ?_, fun other => ?_, fun other opened => ?_⟩
  · rw [wires]
    exact (Function.forall_update_iff link.taken fun other later =>
      later ≤ (link.ends other).emitted.length).mpr ⟨inside, fun at_ _ => sound.within at_⟩ other
  · rw [wires]
    dsimp only
    by_cases at_ : other = side
    · rw [at_, Function.update_self, Function.update_self, more]
      by_cases closed : (link.ends side).closed = true
      · rw [Endpoint.receive_closed closed]
        exact (sound.front side).trans (List.prefix_append _ _)
      · have opened := Bool.eq_false_iff.mpr closed
        rw [received opened, sound.whole side opened]
    · have back : (!other) ≠ !side := fun same => at_ (Bool.not_inj same)
      rw [Function.update_of_ne at_, Function.update_of_ne back]
      exact sound.front other
  · rw [wires]
    dsimp only at opened ⊢
    by_cases at_ : other = side
    · rw [at_, Function.update_self] at opened
      rw [at_, Function.update_self, Function.update_self, more]
      have before : (link.ends side).closed = false := Bool.eq_false_iff.mpr fun closed => by
        rw [Endpoint.receive_closed closed, closed] at opened
        cases opened
      rw [received before, sound.whole side before]
    · have back : (!other) ≠ !side := fun same => at_ (Bool.not_inj same)
      rw [Function.update_of_ne at_] at opened
      rw [Function.update_of_ne at_, Function.update_of_ne back]
      exact sound.whole other opened

theorem Sound.step {label : Bool × Label} (sound : Sound options parse link)
    (taken : link.step options parse label = some link') : Sound options parse link' := by
  obtain ⟨side, label⟩ := label
  cases label with
  | receive frame answer =>
      rw [Link.step] at taken
      split at taken
      · next next_ =>
          cases taken
          exact sound.take next_
      · cases taken
  | send _ | sendReady | start _ | resume _ _ | onMessage _ _ | unsubscribe _
  | settleDelivery _ _ _ | close =>
      have moves := taken
      simp only [Link.step, Option.map_eq_some_iff] at moves
      obtain ⟨endpoint, moved, rfl⟩ := moves
      exact sound.grow ((sound.sends side).step moved) ((sound.receives side).step moved)
        (Endpoint.step_grows moved fun _ _ same => by cases same)

theorem sound_of_reaches
    (run : Transition.Reaches (Link.step options parse) Transition.Any start link) :
    Sound options parse link :=
  run.invariant sound_start fun _ _ _ sound _ taken => sound.step taken

end Link

theorem Proper.of_dataFrame {fragment : Fragment UInt8}
    (proper : Proper options (dataFrame fragment)) :
    IsSafe fragment ∧ fragment.data.length ≤ NODE_DUPLEX_FRAGMENT_BYTES ∧
      fragment.index * NODE_DUPLEX_FRAGMENT_BYTES + fragment.data.length ≤
        options.maxMessageBytes := by
  obtain bad | ⟨other, frame, short, message, index, end_⟩ := proper
  · exact absurd bad (dataFrame_ne_readyFrame fragment)
  · cases dataFrame_injective frame
    exact ⟨⟨message, index⟩, short, end_⟩

/-- The fragments on the wire have numbers that JavaScript keeps. -/
theorem Endpoint.SendSound.isSafe (sound : endpoint.SendSound options) {ready : List (List Char)}
    {fragments : List (Fragment UInt8)} (same : endpoint.emitted = ready ++ dataFrames fragments) :
    ∀ fragment ∈ fragments, IsSafe fragment := fun fragment mem => by
  have listed : dataFrame fragment ∈ endpoint.emitted := by
    rw [same]
    exact List.mem_append_right _ (List.mem_map_of_mem mem)
  exact (sound.proper _ listed).of_dataFrame.1

theorem assemble_framing_self (messages : List Bytes) :
    assemble [] (framing NODE_DUPLEX_FRAGMENT_BYTES 0 messages) = messages := by
  have whole := @assemble_framing _ NODE_DUPLEX_FRAGMENT_BYTES 0 (by decide) messages []
  rwa [List.append_nil, assemble, List.append_nil] at whole

end OpenClaw.NodeDuplex
