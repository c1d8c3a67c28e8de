import OpenClaw.ReasoningTags.Streaming

/-!
Emission up to a limit. Whatever branch is taken, the partitioner stays sound, and it
stops before the limit only while it holds text; the parser may be asked about any part
of the text, and reports no code there.
-/

namespace OpenClaw.ReasoningTags

open JsUnits Partitioner

/-- The parser reports no code span for any part of the text. -/
def NoCode (parse : Text → MarkdownOwnership) (total : Text) : Prop :=
  ∀ part, part <:+: total → (parse part).codeSpans = []

/-- `q` came from `p` by showing text up to a limit at most; when it holds nothing, all. -/
structure EmitsUpTo (total : Text) (before : List (DeltaKind × UInt16)) (p : Partitioner)
    (limit : Nat) (q : Partitioner) : Prop where
  sound : Sound total before q
  source : q.source = p.source
  ahead : p.emitted ≤ q.emitted
  within : q.emitted ≤ limit
  free : q.holdStart = none → q.emitted = limit ∧ q.reduction.depth = 0

variable {parse : Text → MarkdownOwnership} {total : Text}
  {before : List (DeltaKind × UInt16)} {p q : Partitioner}

theorem NoCode.take (noCode : NoCode parse total) (sound : Sound total before p) (limit : Nat) :
    (parse (p.source.take limit)).codeSpans = [] :=
  noCode _ ((List.take_prefix limit p.source).isInfix.trans sound.source.isInfix)

theorem NoCode.source (noCode : NoCode parse total) (sound : Sound total before p) :
    (parse p.source).codeSpans = [] := noCode _ sound.source.isInfix

theorem Sound.hold (sound : Sound total before p) :
    Sound total before { p with holdStart := some p.emitted } :=
  ⟨sound.visible, sound.source, sound.bound, sound.block, .inr rfl, sound.spans, sound.grouped,
    sound.shown⟩

theorem Sound.release (sound : Sound total before p) :
    Sound total before { p with holdStart := none } :=
  ⟨sound.visible, sound.source, sound.bound, sound.block, .inl rfl, sound.spans, sound.grouped,
    sound.shown⟩

theorem Sound.holdStart_getD (sound : Sound total before p) :
    p.holdStart.getD p.emitted = p.emitted := by
  rcases sound.held with none | some
  · rw [none, Option.getD_none]
  · rw [some, Option.getD_some]

theorem settled_end {text : Text} {start limit : Nat} (ahead : start ≤ limit)
    (inside : limit ≤ text.length) :
    (((scanReasoningTags (slice text start limit) false).pendingStart.map (start + ·)).getD limit) =
      start + settledLength (slice text start limit) := by
  have length := @slice_length text start limit inside
  unfold settledLength
  cases (scanReasoningTags (slice text start limit) false).pendingStart with
  | none =>
      simp only [Option.map_none, Option.getD_none]
      omega
  | some pending => rfl

theorem Sound.emitInsideReasoning (sound : Sound total before p) {limit : Nat}
    (ahead : p.emitted ≤ limit) (inside : limit ≤ p.source.length) :
    EmitsUpTo total before p limit (p.emitInsideReasoning limit) := by
  unfold Partitioner.emitInsideReasoning
  simp only [sound.holdStart_getD]
  split
  · exact ⟨sound.hold, rfl, Nat.le_refl _, ahead, nofun⟩
  · have reduceEnd := settled_end ahead inside
    have short := settledLength_le (slice p.source p.emitted limit)
    have length := @slice_length p.source p.emitted limit inside
    rw [reduceEnd]
    cases pending : (scanReasoningTags (slice p.source p.emitted limit) false).pendingStart with
    | some start =>
        refine ⟨(sound.reduce ahead inside rfl (.inr rfl)).of_essence ?_, rfl, ?_, ?_, ?_⟩
        · simp [essence, beginProbe, reduceInto]
        · simp [beginProbe]
        · simp only [Option.isSome_some, if_true, beginProbe]
          omega
        · simp
    | none =>
        have all : p.emitted + settledLength (slice p.source p.emitted limit) = limit := by
          rw [settledLength, pending, Option.getD_none]
          omega
        simp only [Option.isSome_none, Bool.false_eq_true, if_false, or_false]
        refine ⟨(sound.reduce ahead inside rfl ?_).of_essence rfl, rfl, ?_, ?_, ?_⟩
        · split
          · exact .inr rfl
          · exact .inl rfl
        · exact Nat.le_add_right ..
        · exact all.le
        · intro free
          refine ⟨all, ?_⟩
          by_contra inside
          rw [if_pos (Nat.pos_of_ne_zero inside)] at free
          cases free

section FastPath

theorem Sound.checkFastPath (sound : Sound total before p) (noCode : NoCode parse total)
    (special limit : Nat) :
    Sound total before (p.checkFastPath parse special limit).1 ∧
      (p.checkFastPath parse special limit).1.source = p.source ∧
      (p.checkFastPath parse special limit).1.emitted = p.emitted ∧
      (p.checkFastPath parse special limit).1.holdStart = p.holdStart ∧
      (p.checkFastPath parse special limit).1.reduction = p.reduction := by
  have parsed := noCode.take sound limit
  unfold Partitioner.checkFastPath
  simp only [parsed]
  split
  · split
    · exact ⟨sound, rfl, rfl, rfl, rfl⟩
    · exact ⟨⟨sound.visible, sound.source, sound.bound, sound.block, sound.held, .inr rfl,
        sound.grouped, sound.shown⟩, rfl, rfl, rfl, rfl⟩
  · exact ⟨sound, rfl, rfl, rfl, rfl⟩

/-- Where the fast path ends at the latest: no line break or backtick is passed. -/
theorem safeLimit_bounds {text : Text} {special limit : Nat} {u : UInt16}
    (before : special < limit) (inside : limit ≤ text.length) (here : text[special]? = some u)
    (plain : breaksFastPath u = false) :
    special < (((slice text special limit).findIdx? breaksFastPath).map (special + ·)).getD limit ∧
      (((slice text special limit).findIdx? breaksFastPath).map (special + ·)).getD limit ≤ limit := by
  have length := @slice_length text special limit inside
  cases found : (slice text special limit).findIdx? breaksFastPath with
  | none => simpa using before
  | some distance =>
      obtain ⟨short, breaks, -⟩ := List.findIdx?_eq_some_iff_getElem.mp found
      have positive : distance ≠ 0 := by
        rintro rfl
        have first : (slice text special limit)[0]? = some u := by
          rw [slice, List.getElem?_drop, Nat.add_zero, List.getElem?_take, if_pos before, here]
        rw [List.getElem?_eq_getElem short, Option.some.injEq] at first
        rw [first, plain] at breaks
        cases breaks
      simp only [Option.map_some, Option.getD_some]
      omega

/-- A complete tag where the partitioner holds is reduced, with what is settled behind it. -/
theorem Sound.emitTag (sound : Sound total before p) (noCode : NoCode parse total)
    {special limit : Nat} (emitted : p.emitted = special) (holding : p.holdStart = some special)
    (ahead : special < limit) (inside : limit ≤ p.source.length)
    (here : p.source[special]? = some lessThan) :
    Sound total before (p.emitTag parse special limit) ∧
      (p.emitTag parse special limit).source = p.source ∧
      special ≤ (p.emitTag parse special limit).emitted ∧
      (p.emitTag parse special limit).emitted ≤ limit ∧
      ((p.emitTag parse special limit).holdStart = none →
        special < (p.emitTag parse special limit).emitted ∧
          (p.emitTag parse special limit).reduction.depth = 0) := by
  have stays : Sound total before p ∧ p.source = p.source ∧ special ≤ p.emitted ∧
      p.emitted ≤ limit ∧ (p.holdStart = none → special < p.emitted ∧ p.reduction.depth = 0) :=
    ⟨sound, rfl, emitted.ge, by omega, fun none => by simp [holding] at none⟩
  unfold Partitioner.emitTag
  split
  · exact stays
  · have checks := sound.checkFastPath noCode special limit
    rcases found : p.checkFastPath parse special limit with ⟨checked, safe⟩
    rw [found] at checks
    obtain ⟨checkedSound, source, emitted', holding', reduction⟩ := checks
    dsimp only at source emitted' holding' reduction
    cases safe with
    | false =>
        dsimp only
        rw [source, emitted', holding', reduction]
        exact ⟨checkedSound, stays.2⟩
    | true =>
        rw [← source] at inside here ⊢
        obtain ⟨progress, within⟩ := safeLimit_bounds ahead inside here (by decide)
        dsimp only
        generalize (((slice checked.source special limit).findIdx? breaksFastPath).map
          (special + ·)).getD limit = safeLimit at progress within
        have start : checked.emitted = special := emitted'.trans emitted
        have room : safeLimit ≤ checked.source.length := within.trans inside
        have reduceEnd := settled_end progress.le room
        have short := settledLength_le (slice checked.source special safeLimit)
        have length := @slice_length checked.source special safeLimit room
        have reduced : ∀ hold, _ → _ := fun hold held =>
          @Sound.reduce _ _ _ checkedSound safeLimit
            (special + settledLength (slice checked.source special safeLimit))
            (start.trans_le progress.le) room (by rw [start]) hold held
        simp only [start] at reduced
        rw [reduceEnd]
        cases pending : (scanReasoningTags (slice checked.source special safeLimit) false).pendingStart with
        | some pendingAt =>
            refine ⟨(reduced _ (.inr rfl)).of_essence ?_, ?_, ?_, ?_, ?_⟩
            · simp [essence, beginProbe, reduceInto]
            · rfl
            · simp [beginProbe]
            · simp only [Option.isSome_some, if_true, beginProbe]
              omega
            · simp [beginProbe]
        | none =>
            have all : special + settledLength (slice checked.source special safeLimit) = safeLimit := by
              rw [settledLength, pending, Option.getD_none]
              omega
            simp only [Option.isSome_none, Bool.false_eq_true, if_false]
            refine ⟨(reduced _ ?_).of_essence rfl, rfl, ?_, ?_, ?_⟩
            · split
              · exact .inr rfl
              · exact .inl rfl
            · exact Nat.le_add_right ..
            · exact all.le.trans within
            · intro free
              refine ⟨by omega, ?_⟩
              by_contra deep
              rw [if_pos (Nat.pos_of_ne_zero deep)] at free
              cases free

end FastPath

section Visible

theorem EmitsUpTo.stay (sound : Sound total before p) {limit : Nat} (ahead : p.emitted ≤ limit)
    (free : p.holdStart = none → p.emitted = limit ∧ p.reduction.depth = 0) :
    EmitsUpTo total before p limit p := ⟨sound, rfl, Nat.le_refl _, ahead, free⟩

theorem EmitsUpTo.trans {r : Partitioner} {limit : Nat} (source : q.source = p.source)
    (ahead : p.emitted ≤ q.emitted) (rest : EmitsUpTo total before q limit r) :
    EmitsUpTo total before p limit r :=
  ⟨rest.sound, rest.source.trans source, ahead.trans rest.ahead, rest.within, rest.free⟩

theorem plain_slice {text : Text} {start stop : Nat} (le : start ≤ stop)
    (plain : lessThan ∉ slice text start stop) (more : Text) :
    itemsFrom 0 (text.drop start ++ more) =
      (slice text start stop).map .char ++ itemsFrom 0 (text.drop stop ++ more) := by
  rw [drop_append_slice le, itemsFrom_plain _ plain]

theorem slice_succ_self {text : Text} {start : Nat} {u : UInt16} (here : text[start]? = some u) :
    slice text start (start + 1) = [u] := by
  obtain ⟨inside, rfl⟩ := List.getElem?_eq_some_iff.mp here
  rw [slice_cons (Nat.lt_succ_self _) inside, slice_eq_nil (Nat.le_refl _)]

/-- An angle bracket that cannot start a tag is a character, whatever follows. -/
theorem invalid_slice {text : Text} {special limit : Nat} (ahead : special < limit)
    (inside : limit ≤ text.length) (here : text[special]? = some lessThan)
    (invalid : parseReasoningTagAt false (slice text special limit) = .invalid) (more : Text) :
    itemsFrom 0 (text.drop special ++ more) =
      (slice text special (special + 1)).map .char ++
        itemsFrom 0 (text.drop (special + 1) ++ more) := by
  have nonempty : slice text special limit ≠ [] := by
    intro none
    have length := @slice_length text special limit inside
    rw [none, List.length_nil] at length
    omega
  have stays := parse_invalid_append nonempty invalid true (text.drop limit ++ more)
  rw [← drop_append_slice ahead.le] at stays
  have first : text.drop special = lessThan :: text.drop (special + 1) := by
    obtain ⟨short, same⟩ := List.getElem?_eq_some_iff.mp here
    rw [List.drop_eq_getElem_cons short, same]
  rw [first, List.cons_append] at stays
  rw [slice_succ_self here, first, List.cons_append]
  simp [itemsFrom, stays]

/-- The first angle bracket or backtick of a text, and the plain text before it. -/
theorem special_of_findIdx? {text : Text} {start limit distance : Nat} (inside : limit ≤ text.length)
    (found : (slice text start limit).findIdx? (fun u => u == lessThan || u == backtick) =
      some distance) :
    start + distance < limit ∧ lessThan ∉ slice text start (start + distance) ∧
      (text[start + distance]? ≠ some backtick → text[start + distance]? = some lessThan) := by
  obtain ⟨short, isSpecial, earlier⟩ := List.findIdx?_eq_some_iff_getElem.mp found
  have length := @slice_length text start limit inside
  have near : start + distance < limit := by omega
  have at_ : text[start + distance]? = some (slice text start limit)[distance] := by
    rw [← List.getElem?_eq_getElem short, slice, List.getElem?_drop, List.getElem?_take, if_pos near]
  refine ⟨near, fun mem => ?_, fun notBacktick => ?_⟩
  · rw [← slice_take near.le] at mem
    obtain ⟨position, before, same⟩ := List.mem_take_iff_getElem.mp mem
    have := earlier position (by omega)
    simp [same] at this
  · rw [at_] at notBacktick ⊢
    simp only [ne_eq, Option.some.injEq] at notBacktick ⊢
    simpa [notBacktick] using isSpecial

/-- The plain text up to a position is shown, and nothing is held. -/
theorem Sound.showText (sound : Sound total before p) (free : p.holdStart = none)
    (outside : p.reduction.depth = 0) {stop : Nat} (ahead : p.emitted ≤ stop)
    (inside : stop ≤ p.source.length)
    (plain : ∀ more, itemsFrom 0 (p.source.drop p.emitted ++ more) =
      (slice p.source p.emitted stop).map .char ++ itemsFrom 0 (p.source.drop stop ++ more)) :
    ∃ q : Partitioner, { (p.emitText (slice p.source p.emitted stop)) with emitted := stop } = q ∧
      Sound total before q ∧ q.source = p.source ∧ q.emitted = stop ∧ q.holdStart = none ∧
      q.reduction.depth = 0 := by
  refine ⟨_, rfl, (sound.text outside ahead inside (.inl rfl) plain).of_essence ?_, ?_, rfl, ?_, ?_⟩
  · simp [essence, emitText_eq, free]
  · rw [emitText_eq]
  · rw [emitText_eq]
    exact free
  · rw [emitText_eq]
    exact outside

/-- One round at an angle bracket: the text before it is shown, then the bracket decides. -/
theorem emitVisible_special {limit rounds distance : Nat} (less : p.emitted < limit)
    (free : p.holdStart = none) (found : (slice p.source p.emitted limit).findIdx?
      (fun u => u == lessThan || u == backtick) = some distance)
    (notBacktick : p.source[p.emitted + distance]? ≠ some backtick)
    (same : { (p.emitText (slice p.source p.emitted (p.emitted + distance))) with
      emitted := p.emitted + distance } = q) :
    p.emitVisible parse limit (rounds + 1) =
      match parseReasoningTagAt false (slice q.source (p.emitted + distance) limit) with
      | .invalid => emitVisible parse limit rounds
          { (q.emitText [lessThan]) with emitted := p.emitted + distance + 1 }
      | .pending => ({ q with holdStart := some (p.emitted + distance) }).beginProbe
          (p.emitted + distance) limit
      | .tag _ => emitVisible parse limit rounds
          (({ q with holdStart := some (p.emitted + distance) }).emitTag parse
            (p.emitted + distance) limit) := by
  subst same
  rw [Partitioner.emitVisible, if_pos ⟨less, free⟩, found]
  dsimp only
  exact (if_neg notBacktick).trans rfl

theorem Sound.emitVisible (noCode : NoCode parse total) {limit : Nat} (rounds : Nat)
    (sound : Sound total before p) (inside : limit ≤ p.source.length) (ahead : p.emitted ≤ limit)
    (enough : p.holdStart = none → limit ≤ p.emitted + rounds)
    (outside : p.holdStart = none → p.reduction.depth = 0) :
    EmitsUpTo total before p limit (p.emitVisible parse limit rounds) := by
  induction rounds generalizing p with
  | zero =>
      refine .stay sound ahead fun free => ⟨?_, outside free⟩
      have := enough free
      omega
  | succ rounds ih =>
      by_cases more : p.emitted < limit ∧ p.holdStart = none
      case neg =>
        rw [Partitioner.emitVisible, if_neg more]
        refine .stay sound ahead fun free => ⟨?_, outside free⟩
        by_contra less
        exact more ⟨by omega, free⟩
      case pos =>
        have ⟨less, free⟩ := more
        have depth := outside free
        cases found : (slice p.source p.emitted limit).findIdx?
            (fun u => u == lessThan || u == backtick) with
        | none =>
            have plain : lessThan ∉ slice p.source p.emitted limit := by
              intro mem
              have := List.findIdx?_eq_none_iff.mp found lessThan mem
              simp at this
            obtain ⟨q, same, shown, source, emitted, stillFree, stillOutside⟩ :=
              sound.showText free depth ahead inside (plain_slice ahead plain)
            rw [Partitioner.emitVisible, if_pos more, found]
            dsimp only
            rw [same]
            exact ⟨shown, source, by omega, emitted.le, fun _ => ⟨emitted, stillOutside⟩⟩
        | some distance =>
            obtain ⟨near, plain, angle⟩ := special_of_findIdx? inside found
            by_cases isBacktick : p.source[p.emitted + distance]? = some backtick
            · rw [Partitioner.emitVisible, if_pos more, found]
              dsimp only
              rw [if_pos isBacktick]
              exact ⟨sound.hold.of_essence rfl, rfl, Nat.le_refl _, ahead, nofun⟩
            · have here := angle isBacktick
              obtain ⟨q, same, shown, source, emitted, stillFree, stillOutside⟩ :=
                sound.showText free depth (Nat.le_add_right ..) (near.le.trans inside)
                  (plain_slice (Nat.le_add_right ..) plain)
              rw [emitVisible_special less free found isBacktick same]
              rw [← source] at here inside
              have holding : Sound total before { q with holdStart := some (p.emitted + distance) } :=
                shown.hold.of_essence (by simp [essence, emitted])
              cases parsed : parseReasoningTagAt false (slice q.source (p.emitted + distance) limit) with
              | invalid =>
                  have bracket := slice_succ_self here
                  have read := invalid_slice near inside here parsed
                  rw [← emitted] at bracket read near
                  obtain ⟨r, same', shown', source', emitted', free', outside'⟩ :=
                    shown.showText stillFree stillOutside (Nat.le_succ _) (near.trans_le inside) read
                  rw [bracket, emitted] at same'
                  rw [same']
                  have further : p.emitted ≤ r.emitted := by omega
                  refine .trans (source'.trans source) further (ih shown' (source' ▸ inside)
                    (by omega) ?_ fun _ => outside')
                  have := enough free
                  omega
              | pending =>
                  dsimp only
                  exact ⟨holding.of_essence rfl, source, by simp [beginProbe, emitted], by
                    simpa [beginProbe, emitted] using near.le, fun none => by
                      simp [beginProbe] at none⟩
              | tag shape =>
                  obtain ⟨tagSound, tagSource, tagAhead, tagWithin, tagFree⟩ :=
                    holding.emitTag noCode emitted rfl near inside here
                  exact .trans (tagSource.trans source) ((Nat.le_add_right ..).trans tagAhead)
                    (ih tagSound (by rwa [tagSource]) tagWithin (fun free' => by
                      have := enough free
                      have := (tagFree free').1
                      omega) fun free' => (tagFree free').2)

end Visible

end OpenClaw.ReasoningTags
