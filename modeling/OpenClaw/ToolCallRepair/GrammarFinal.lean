import OpenClaw.Lib.TextScan
import OpenClaw.ToolCallRepair.Grammar

/-!
What the XML-like scanner has decided stays decided when text follows. An opening that
has been read is read again, an invalid one stays invalid unless its line break may
still come, and a body that was closed is closed at the same place.
-/

namespace OpenClaw.ToolCallRepair

open JsUnits TextScan

section Markers

theorem startsWithAsciiMarkerIgnoreCase_eq (marker rest : Text) :
    startsWithAsciiMarkerIgnoreCase marker rest =
      marker.isPrefixOf (rest.map asciiLowerCase) := by
  rw [Bool.eq_iff_iff, List.isPrefixOf_iff_prefix, List.prefix_iff_eq_take,
    startsWithAsciiMarkerIgnoreCase, beq_iff_eq, List.map_take, eq_comm]

theorem isAsciiMarkerPrefixIgnoreCase_eq (marker rest : Text) :
    isAsciiMarkerPrefixIgnoreCase marker rest = isCut marker (rest.map asciiLowerCase) := by
  simp only [isAsciiMarkerPrefixIgnoreCase, isCut, List.length_map, List.length_take, List.map_take]
  by_cases short : rest.length < marker.length
  · rw [List.take_of_length_le (by rw [List.length_map]; omega), Nat.min_eq_right (by omega)]
  · have long : ¬min marker.length rest.length < marker.length := by omega
    simp [short, long]

theorem marker_append {marker rest : Text}
    (settled : isAsciiMarkerPrefixIgnoreCase marker rest = false) (more : Text) :
    startsWithAsciiMarkerIgnoreCase marker (rest ++ more) =
        startsWithAsciiMarkerIgnoreCase marker rest ∧
      isAsciiMarkerPrefixIgnoreCase marker (rest ++ more) = false := by
  rw [isAsciiMarkerPrefixIgnoreCase_eq] at settled
  rw [startsWithAsciiMarkerIgnoreCase_eq, startsWithAsciiMarkerIgnoreCase_eq,
    isAsciiMarkerPrefixIgnoreCase_eq, List.map_append]
  exact ⟨isPrefixOf_append settled _, isCut_append settled _⟩

theorem marker_settled {marker rest : Text}
    (found : startsWithAsciiMarkerIgnoreCase marker rest = true) :
    isAsciiMarkerPrefixIgnoreCase marker rest = false := by
  rw [startsWithAsciiMarkerIgnoreCase_eq] at found
  rw [isAsciiMarkerPrefixIgnoreCase_eq]
  exact isCut_of_isPrefixOf found

theorem marker_absent {marker rest : Text}
    (cut : isAsciiMarkerPrefixIgnoreCase marker rest = true) :
    startsWithAsciiMarkerIgnoreCase marker rest = false := by
  cases found : startsWithAsciiMarkerIgnoreCase marker rest with
  | false => rfl
  | true =>
      rw [marker_settled found] at cut
      cases cut

theorem marker_length_le {marker rest : Text}
    (found : startsWithAsciiMarkerIgnoreCase marker rest = true) :
    marker.length ≤ rest.length := by
  rw [startsWithAsciiMarkerIgnoreCase_eq, List.isPrefixOf_iff_prefix] at found
  simpa using found.length_le

theorem literal_append {literal rest : Text} (settled : isLiteralPrefixAt literal rest = false)
    (more : Text) :
    startsWith literal (rest ++ more) = startsWith literal rest ∧
      isLiteralPrefixAt literal (rest ++ more) = false :=
  ⟨isPrefixOf_append settled more, isCut_append settled more⟩

theorem literal_settled {literal rest : Text} (found : startsWith literal rest = true) :
    isLiteralPrefixAt literal rest = false := isCut_of_isPrefixOf found

theorem indexOf_bound {marker : Text} {rest : Text} {distance : Nat}
    (found : indexOfAsciiMarkerIgnoreCase marker rest = some distance) :
    distance + marker.length ≤ rest.length := by
  induction rest generalizing distance with
  | nil => cases found
  | cons u us ih =>
      simp only [indexOfAsciiMarkerIgnoreCase] at found
      split at found
      case isTrue here =>
        cases found
        rw [Nat.zero_add]
        exact marker_length_le here.2
      · obtain ⟨earlier, later, rfl⟩ := Option.map_eq_some_iff.mp found
        have := ih later
        simp only [List.length_cons]
        omega

theorem indexOf_append {marker rest : Text} {distance : Nat}
    (found : indexOfAsciiMarkerIgnoreCase marker rest = some distance) (more : Text) :
    indexOfAsciiMarkerIgnoreCase marker (rest ++ more) = some distance := by
  induction rest generalizing distance with
  | nil => cases found
  | cons u us ih =>
      have bound := indexOf_bound found
      have settled : isAsciiMarkerPrefixIgnoreCase marker (u :: us) = false := by
        rw [isAsciiMarkerPrefixIgnoreCase_eq, isCut, Bool.and_eq_false_iff]
        refine .inl (decide_eq_false ?_)
        simp only [List.length_map]
        omega
      have same := (marker_append settled more).1
      simp only [List.cons_append] at same
      simp only [indexOfAsciiMarkerIgnoreCase, List.cons_append, same] at found ⊢
      split at found
      · rw [if_pos (by assumption)]
        exact found
      · rw [if_neg (by assumption)]
        obtain ⟨earlier, later, rfl⟩ := Option.map_eq_some_iff.mp found
        rw [ih later]
        rfl

end Markers

section Names

theorem nameChars_append {isNameChar : UInt16 → Bool} {rest : Text}
    (decided : 120 < (nameChars isNameChar rest).length ∨
      rest.drop (nameChars isNameChar rest).length ≠ []) (more : Text) :
    nameChars isNameChar (rest ++ more) = nameChars isNameChar rest := by
  by_cases ended : rest.dropWhile isNameChar = []
  · -- the whole text is a name so far, which is decided by its length alone
    have all : rest.takeWhile isNameChar = rest := by
      have split := List.takeWhile_append_dropWhile (p := isNameChar) (l := rest)
      rwa [ended, List.append_nil] at split
    have long : 121 ≤ rest.length := by
      simp only [nameChars, all, List.length_take, ne_eq, List.drop_eq_nil_iff] at decided
      omega
    rw [nameChars, nameChars, List.takeWhile_append, if_pos (congrArg List.length all), all,
      List.take_append_of_le_length long]
  · rw [nameChars, nameChars, takeWhile_append_of_ne_nil more ended]

end Names

section Openings

/-- The same opening with more text behind it. -/
def XmlishOpening.extend (more : Text) : XmlishOpening → XmlishOpening
  | .ended scan => .ended scan
  | .opened syntaxKind name cursor rest => .opened syntaxKind name cursor (rest ++ more)

/-- The opening waits for nothing, and something stands behind one that was read. -/
def XmlishOpening.Decided : XmlishOpening → Prop
  | .ended (.callPrefix _ _) => False
  | .ended _ => True
  | .opened _ _ _ rest => rest ≠ []

/-- What an opening leaves is the text at its cursor. -/
def XmlishOpening.At (text : Text) : XmlishOpening → Prop
  | .ended _ => True
  | .opened _ _ cursor rest => rest = text.drop cursor

theorem closeName_append {closing : UInt16} {syntaxKind : XmlishSyntax} {nameStart : Nat}
    {name rest : Text} (decided : (closeName closing syntaxKind nameStart name rest).Decided)
    (more : Text) :
    closeName closing syntaxKind nameStart name (rest ++ more) =
      (closeName closing syntaxKind nameStart name rest).extend more := by
  cases rest with
  | nil => exact decided.elim
  | cons u us =>
      simp only [closeName, List.cons_append]
      split <;> rfl

theorem closeName_at {text : Text} {closing : UInt16} {syntaxKind : XmlishSyntax} {nameStart : Nat}
    {name rest : Text} (at_ : rest = text.drop (nameStart + name.length)) :
    (closeName closing syntaxKind nameStart name rest).At text := by
  cases rest with
  | nil => trivial
  | cons u us =>
      simp only [closeName]
      split
      · trivial
      · rw [XmlishOpening.At, ← List.drop_drop, ← at_]
        rfl

theorem ne_nil_of_closeName {closing : UInt16} {syntaxKind : XmlishSyntax} {nameStart : Nat}
    {name rest : Text} (decided : (closeName closing syntaxKind nameStart name rest).Decided) :
    rest ≠ [] := by
  rintro rfl
  exact decided

theorem scanClosedName_append {isNameChar : UInt16 → Bool} {closing : UInt16}
    {syntaxKind : XmlishSyntax} {nameStart : Nat} {rest : Text}
    (decided : (scanClosedName isNameChar closing syntaxKind nameStart rest).Decided)
    (more : Text) :
    scanClosedName isNameChar closing syntaxKind nameStart (rest ++ more) =
      (scanClosedName isNameChar closing syntaxKind nameStart rest).extend more := by
  unfold scanClosedName at decided ⊢
  by_cases long : 120 < (nameChars isNameChar rest).length
  · simp only [nameChars_append (.inl long) more, long, if_true]
    rfl
  · simp only [long, if_false] at decided
    have left := ne_nil_of_closeName decided
    simp only [nameChars_append (.inr left) more, long, if_false, drop_append_of_ne_nil more left]
    exact closeName_append decided more

theorem scanClosedName_at {text : Text} {isNameChar : UInt16 → Bool} {closing : UInt16}
    {syntaxKind : XmlishSyntax} {nameStart : Nat} {rest : Text} (at_ : rest = text.drop nameStart) :
    (scanClosedName isNameChar closing syntaxKind nameStart rest).At text := by
  unfold scanClosedName
  dsimp only
  split
  · trivial
  · exact closeName_at (by rw [at_, List.drop_drop])

theorem scanFunctionOpening_append {start : Nat} {rest : Text}
    (decided : (scanFunctionOpening start rest).Decided) (more : Text) :
    scanFunctionOpening start (rest ++ more) = (scanFunctionOpening start rest).extend more := by
  unfold scanFunctionOpening at decided ⊢
  cases cut : isAsciiMarkerPrefixIgnoreCase functionOpen rest with
  | true =>
      have short : rest.length < functionOpen.length := by
        rw [isAsciiMarkerPrefixIgnoreCase_eq, isCut, Bool.and_eq_true_iff] at cut
        simpa using of_decide_eq_true cut.1
      simp [cut, short, XmlishOpening.Decided] at decided
  | false =>
      obtain ⟨same, settled⟩ := marker_append cut more
      rw [cut] at decided
      rw [same, settled]
      cases found : startsWithAsciiMarkerIgnoreCase functionOpen rest with
      | false => rfl
      | true =>
          have long := marker_length_le found
          have longer : functionOpen.length ≤ (rest ++ more).length := by
            rw [List.length_append]
            omega
          simp only [found, Bool.not_true, Bool.false_and, Bool.false_eq_true, if_false,
            long.not_gt, longer.not_gt] at decided ⊢
          rw [List.drop_append_of_le_length long]
          exact scanClosedName_append decided more

/-- A bracketed name ends in horizontal whitespace so far: its line break may still come. -/
def AwaitsLineBreak (start : Nat) (rest : Text) : Prop :=
  rest.head? = some (unit '[') ∧ ∃ name cursor u us, scanBracketName start rest = .opened .namedBracket name cursor (u :: us) ∧
    (u :: us).dropWhile isHorizontal = []

theorem scanBracketName_append {start : Nat} {rest : Text}
    (decided : (scanBracketName start rest).Decided) (more : Text) :
    scanBracketName start (rest ++ more) = (scanBracketName start rest).extend more := by
  have nonempty : rest ≠ [] := by
    rintro rfl
    exact decided
  have first : (rest ++ more).drop 1 = rest.drop 1 ++ more := by
    cases rest with
    | nil => exact absurd rfl nonempty
    | cons u us => rfl
  unfold scanBracketName at decided ⊢
  rw [first]
  by_cases long : 120 < (nameChars isPlainTextToolNameChar (rest.drop 1)).length
  · simp only [nameChars_append (.inl long) more, long, if_true]
    rfl
  · simp only [long, if_false] at decided
    have left : (rest.drop 1).drop (nameChars isPlainTextToolNameChar (rest.drop 1)).length ≠ [] := by
      intro none
      simp only [none, true_and, List.head?_nil, reduceCtorEq, false_and, if_false] at decided
      split at decided
      · exact decided
      · exact ne_nil_of_closeName decided rfl
    simp only [left, false_and, if_false] at decided
    simp only [nameChars_append (.inr left) more, long, if_false, drop_append_of_ne_nil more left,
      List.append_eq_nil_iff, left, false_and]
    obtain ⟨u, us, split⟩ := List.exists_cons_of_ne_nil left
    simp only [split, List.cons_append, List.head?_cons, List.drop_succ_cons, List.drop_zero] at decided ⊢
    split
    case isTrue tool =>
      rw [if_pos tool] at decided
      exact scanClosedName_append decided more
    case isFalse named =>
      rw [if_neg named] at decided
      exact closeName_append decided more

theorem consumeLineBreak_append {u : UInt16} {us : Text} {result : Option Nat}
    (found : consumeLineBreak (u :: us) = result)
    (behind : ∀ length, result = some length → (u :: us).drop length ≠ []) (more : Text) :
    consumeLineBreak (u :: us ++ more) = result := by
  subst found
  simp only [List.cons_append, consumeLineBreak] at behind ⊢
  split
  case isTrue carriage =>
    rw [if_pos carriage] at behind
    cases us with
    | nil => exact absurd rfl (behind 1 (by simp))
    | cons v vs => rfl
  · rfl

theorem lineBreak_blank (cursor : Nat) {rest : Text} (blank : rest.dropWhile isHorizontal = []) :
    consumeStructuralLineBreakAfterHorizontalWhitespace [] cursor rest = none := by
  simp only [consumeStructuralLineBreakAfterHorizontalWhitespace, drop_takeWhile_length, blank,
    consumeLineBreak, Option.map_eq_none_iff, List.find?_eq_none]
  simp

theorem lineBreak_append {cursor : Nat} {rest : Text}
    (settled : rest.dropWhile isHorizontal ≠ [])
    (behind : ∀ after left, consumeStructuralLineBreakAfterHorizontalWhitespace [] cursor rest =
      some (after, left) → left ≠ []) (more : Text) :
    consumeStructuralLineBreakAfterHorizontalWhitespace [] cursor (rest ++ more) =
      (consumeStructuralLineBreakAfterHorizontalWhitespace [] cursor rest).map
        fun next => (next.1, next.2 ++ more) := by
  have drop := drop_takeWhile_length isHorizontal rest
  have left : rest.drop (rest.takeWhile isHorizontal).length ≠ [] := by rwa [drop]
  have none : ∀ blanks, ((List.range (blanks + 1)).find? fun n =>
      ([] : List Nat).contains (cursor + n)) = none := fun blanks => by simp
  unfold consumeStructuralLineBreakAfterHorizontalWhitespace at behind ⊢
  simp only [takeWhile_append_of_ne_nil more settled, drop_append_of_ne_nil more left, none,
    Option.map_none] at behind ⊢
  obtain ⟨u, us, split⟩ := List.exists_cons_of_ne_nil left
  rw [split] at behind ⊢
  cases found : consumeLineBreak (u :: us) with
  | none =>
      rw [consumeLineBreak_append found (by simp) more]
      rfl
  | some length =>
      have remains : rest.drop ((rest.takeWhile isHorizontal).length + length) ≠ [] :=
        behind _ _ (by rw [found])
      have ahead : (u :: us).drop length ≠ [] := by rwa [← split, List.drop_drop]
      rw [consumeLineBreak_append found (fun other same => Option.some.inj same ▸ ahead) more]
      simp only [drop_append_of_ne_nil more remains, Option.map_some]

theorem breakNamedBracket_append {opening : XmlishOpening}
    (decided : (breakNamedBracket [] opening).Decided)
    (settled : ∀ name cursor rest, opening = .opened .namedBracket name cursor rest →
      rest.dropWhile isHorizontal ≠ []) (more : Text) :
    opening.Decided ∧ breakNamedBracket [] (opening.extend more) =
      (breakNamedBracket [] opening).extend more := by
  cases opening with
  | ended scan => exact ⟨decided, rfl⟩
  | opened syntaxKind name cursor rest =>
      cases syntaxKind with
      | function => exact ⟨decided, rfl⟩
      | toolBracket => exact ⟨decided, rfl⟩
      | namedBracket =>
          cases rest with
          | nil => exact decided.elim
          | cons u us =>
              refine ⟨List.cons_ne_nil u us, ?_⟩
              have behind : ∀ after left, consumeStructuralLineBreakAfterHorizontalWhitespace []
                  cursor (u :: us) = some (after, left) → left ≠ [] := by
                intro after left found
                simp only [breakNamedBracket, found] at decided
                exact decided
              have later := lineBreak_append (settled name cursor (u :: us) rfl) behind more
              rw [List.cons_append] at later
              simp only [XmlishOpening.extend, List.cons_append, breakNamedBracket, later]
              cases consumeStructuralLineBreakAfterHorizontalWhitespace [] cursor (u :: us) with
              | none => rfl
              | some next => rfl

theorem scanXmlishOpening_append {start : Nat} {rest : Text}
    (decided : (scanXmlishOpening [] start rest).Decided) (nonempty : rest ≠ [])
    (settled : ¬AwaitsLineBreak start rest) (more : Text) :
    scanXmlishOpening [] start (rest ++ more) = (scanXmlishOpening [] start rest).extend more := by
  have head : (rest ++ more).head? = rest.head? := List.head?_append_of_ne_nil rest nonempty
  unfold scanXmlishOpening at decided ⊢
  rw [head]
  by_cases tag : rest.head? = some (unit '<')
  · rw [if_pos tag] at decided
    rw [if_pos tag, if_pos tag]
    exact scanFunctionOpening_append decided more
  · by_cases bracket : rest.head? = some (unit '[')
    · rw [if_neg tag, if_pos bracket] at decided
      rw [if_neg tag, if_pos bracket, if_neg tag, if_pos bracket]
      have broken := breakNamedBracket_append decided (fun name cursor left opened ended => by
        cases left with
        | nil => simp [opened, breakNamedBracket, unfinishedName, XmlishOpening.Decided] at decided
        | cons v vs => exact settled ⟨bracket, name, cursor, v, vs, opened, ended⟩) more
      rw [scanBracketName_append broken.1 more]
      exact broken.2
    · rw [if_neg tag, if_neg bracket, if_neg tag, if_neg bracket]
      rfl

theorem scanBracketName_at {text : Text} {start : Nat} {rest : Text} (at_ : rest = text.drop start) :
    (scanBracketName start rest).At text := by
  unfold scanBracketName
  dsimp only
  split
  · trivial
  · split
    · trivial
    · split
      · refine scanClosedName_at ?_
        simp only [at_, List.drop_drop, Nat.add_assoc]
      · refine closeName_at ?_
        simp only [at_, List.drop_drop, Nat.add_assoc]

theorem lineBreak_at {text : Text} {lineBreakOffsets : List Nat} {cursor after : Nat}
    {rest left : Text} (at_ : rest = text.drop cursor)
    (found : consumeStructuralLineBreakAfterHorizontalWhitespace lineBreakOffsets cursor rest =
      some (after, left)) : left = text.drop after := by
  unfold consumeStructuralLineBreakAfterHorizontalWhitespace at found
  dsimp only at found
  split at found
  · cases found
    rw [at_, List.drop_drop, Nat.add_assoc]
  · obtain ⟨n, -, same⟩ := Option.map_eq_some_iff.mp found
    cases same
    rw [at_, List.drop_drop]

theorem scanXmlishOpening_at {text : Text} {lineBreakOffsets : List Nat} {start : Nat} {rest : Text}
    (at_ : rest = text.drop start) : (scanXmlishOpening lineBreakOffsets start rest).At text := by
  unfold scanXmlishOpening
  split
  · unfold scanFunctionOpening
    split
    · trivial
    · split
      · trivial
      · refine scanClosedName_at ?_
        rw [at_, List.drop_drop]
  · split
    · have named := scanBracketName_at at_
      unfold breakNamedBracket
      split
      · trivial
      case h_2 opened =>
        rw [opened] at named
        split
        · trivial
        case h_2 found => exact lineBreak_at named found
      · exact named
    · trivial

end Openings

section Body

/-- From an offset on the text has a parameter opener whose name is empty, too long or not
closed by its bracket. -/
def MalformedParameterOpener (text : Text) (offset : Nat) : Prop :=
  startsWithAsciiMarkerIgnoreCase parameterOpen (text.drop offset) = true ∧
    scanParameterOpening ((text.drop offset).drop parameterOpen.length) = .malformed

/-- What a call that was complete up to `stop` may become when text follows. -/
def StaysFinal (text : Text) (call : XmlishCandidate) (stop : Nat) : XmlishToolCallScan → Prop
  | .invalid offset _ =>
      call.syntaxKind = .toolBracket ∧ stop ≤ offset ∧ MalformedParameterOpener text offset
  | .callPrefix _ _ => call.syntaxKind = .toolBracket
  | .complete later laterStop =>
      stop ≤ laterStop ∧ later.name = call.name ∧
        later.payload.map (·.start) = call.payload.map (·.start) ∧
        call.parameters <+: later.parameters ∧
        (call.syntaxKind ≠ .toolBracket → later = call ∧ laterStop = stop)

theorem scanParameterOpening_append {rest : Text} (decided : scanParameterOpening rest ≠ .unfinished)
    (more : Text) :
    scanParameterOpening (rest ++ more) =
      match scanParameterOpening rest with
      | .opened nameLength value => .opened nameLength (value ++ more)
      | opening => opening := by
  unfold scanParameterOpening at decided ⊢
  by_cases long : 120 < (nameChars isXmlishNameChar rest).length
  · simp only [nameChars_append (.inl long) more, long, if_true]
  · simp only [long, if_false] at decided
    have left : rest.drop (nameChars isXmlishNameChar rest).length ≠ [] := by
      intro none
      rw [none] at decided
      exact decided rfl
    simp only [nameChars_append (.inr left) more, long, if_false, drop_append_of_ne_nil more left]
    obtain ⟨u, us, split⟩ := List.exists_cons_of_ne_nil left
    rw [split]
    simp only [List.cons_append]
    split <;> rfl

theorem scanParameterOpening_opened {rest value : Text} {nameLength : Nat}
    (opened : scanParameterOpening rest = .opened nameLength value) :
    value = rest.drop (nameLength + 1) ∧ nameLength + 1 ≤ rest.length := by
  unfold scanParameterOpening at opened
  dsimp only at opened
  split at opened
  · cases opened
  · split at opened
    · cases opened
    case h_2 u us split =>
      split at opened
      · cases opened
      · cases opened
        have length := congrArg List.length split
        simp only [List.length_drop, List.length_cons] at length
        refine ⟨?_, by omega⟩
        rw [← List.drop_drop, split]
        rfl

theorem StaysFinal.refl (text : Text) (call : XmlishCandidate) (stop : Nat) :
    StaysFinal text call stop (.complete call stop) :=
  ⟨Nat.le_refl _, rfl, rfl, List.prefix_refl _, fun _ => ⟨rfl, rfl⟩⟩

theorem drop_blanks {text rest : Text} {cursor : Nat} (at_ : rest = text.drop cursor) :
    rest.dropWhile isWhitespace = text.drop (cursor + (rest.takeWhile isWhitespace).length) := by
  rw [← drop_takeWhile_length, ← List.drop_drop, ← at_]

/-- A parameter that is read leaves a shorter text, further on in the same one. -/
theorem parameter_rest {text rest value : Text} {cursor nameLength distance : Nat}
    (at_ : rest = text.drop cursor)
    (found : startsWithAsciiMarkerIgnoreCase parameterOpen (rest.dropWhile isWhitespace) = true)
    (opened : scanParameterOpening ((rest.dropWhile isWhitespace).drop parameterOpen.length) =
      .opened nameLength value) :
    value.drop (distance + parameterClose.length) =
        text.drop (cursor + (rest.takeWhile isWhitespace).length + parameterOpen.length +
          nameLength + 1 + distance + parameterClose.length) ∧
      (value.drop (distance + parameterClose.length)).length < rest.length := by
  obtain ⟨rfl, fits⟩ := scanParameterOpening_opened opened
  have long := marker_length_le found
  have shorter := (List.dropWhile_sublist (p := isWhitespace) (l := rest)).length_le
  refine ⟨?_, ?_⟩
  · rw [drop_blanks at_, List.drop_drop, List.drop_drop, List.drop_drop]
    congr 1
    omega
  · simp only [List.length_drop] at fits ⊢
    have : 0 < parameterOpen.length := by decide
    omega

/-- Behind a closed parameter of a tool bracket a scan fails only at a malformed opener. -/
theorem scanXmlishBody_toolBracket {text : Text} {name : Span} {bodyStart rounds cursor : Nat}
    {rest : Text} {parameters : List ParameterSpan} {lastEnd : Nat}
    (at_ : rest = text.drop cursor) (closed : parameters ≠ []) (last : lastEnd ≤ cursor)
    (enough : rest.length < rounds) {call : XmlishCandidate} {stop : Nat}
    (kind : call.syntaxKind = .toolBracket) (named : call.name = name)
    (body : call.payload.map (·.start) = some bodyStart) (before : stop ≤ lastEnd)
    (grown : call.parameters <+: parameters) :
    StaysFinal text call stop
      (scanXmlishBody .toolBracket name bodyStart rounds cursor rest parameters (some lastEnd)) := by
  induction rounds generalizing cursor rest parameters lastEnd with
  | zero => omega
  | succ rounds ih =>
      have complete : ∀ payloadEnd later, stop ≤ later → StaysFinal text call stop (.complete
          ⟨none, name, true, parameters, some ⟨bodyStart, payloadEnd⟩, .toolBracket⟩ later) :=
        fun payloadEnd later le =>
          ⟨le, named.symm, body.symm, grown, fun other => absurd kind other⟩
      rw [scanXmlishBody]
      simp only [if_true]
      split
      · exact complete _ _ before
      · split
        · rw [if_neg (fun both => closed both.2)]
          exact complete _ _ (by omega)
        · split
          · exact kind
          · split
            case isTrue found =>
              split
              case h_1 malformed =>
                refine ⟨kind, by omega, ?_⟩
                rw [MalformedParameterOpener, ← drop_blanks at_]
                exact ⟨found, malformed⟩
              · exact kind
              case h_3 nameLength value opened =>
                split
                · exact kind
                case h_2 distance _ =>
                  have next := @parameter_rest _ _ _ _ _ distance at_ found opened
                  exact ih next.1 (by simp) (Nat.le_refl _) (by omega) (by omega)
                    (grown.trans (List.prefix_append _ _))
            · split
              · exact kind
              · exact complete _ _ before

/-- What a verdict allows the scan of the longer text to say. -/
def Continues (text : Text) : XmlishToolCallScan → XmlishToolCallScan → Prop
  | .invalid offset candidate, later => later = .invalid offset candidate
  | .callPrefix _ _, _ => True
  | .complete call stop, later => StaysFinal text call stop later

theorem Continues.refl (text : Text) (scan : XmlishToolCallScan) : Continues text scan scan := by
  cases scan with
  | invalid offset candidate => rfl
  | callPrefix candidate completeEnd => trivial
  | complete call stop => exact StaysFinal.refl text call stop

theorem scanXmlishBody_append {text more : Text} {syntaxKind : XmlishSyntax} {name : Span}
    {bodyStart rounds rounds' cursor : Nat} {rest : Text} {parameters : List ParameterSpan}
    {lastEnd : Option Nat} (at_ : rest ++ more = text.drop cursor)
    (enough : rest.length < rounds) (enough' : (rest ++ more).length < rounds')
    (last : ∀ stop, lastEnd = some stop → stop ≤ cursor ∧ parameters ≠ []) :
    Continues text
      (scanXmlishBody syntaxKind name bodyStart rounds cursor rest parameters lastEnd)
      (scanXmlishBody syntaxKind name bodyStart rounds' cursor (rest ++ more) parameters
        lastEnd) := by
  induction rounds generalizing rounds' cursor rest parameters lastEnd with
  | zero => omega
  | succ rounds ih =>
      by_cases blank : rest.dropWhile isWhitespace = []
      · rw [scanXmlishBody]
        simp only [blank, if_true]
        split
        case h_1 stop ended =>
          obtain ⟨kind, same⟩ := Option.ite_none_right_eq_some.mp ended
          subst kind same
          obtain ⟨before, closed⟩ := last stop rfl
          exact scanXmlishBody_toolBracket at_ closed before enough' rfl rfl rfl (Nat.le_refl _)
            (List.prefix_refl _)
        · trivial
      · obtain ⟨rounds', rfl⟩ : ∃ n, rounds' = n + 1 := ⟨rounds' - 1, by omega⟩
        have longer : rest.dropWhile isWhitespace ++ more ≠ [] := by simp [blank]
        rw [scanXmlishBody, scanXmlishBody]
        simp only [dropWhile_append_of_ne_nil more blank, takeWhile_append_of_ne_nil more blank,
          blank, longer, if_false]
        generalize marker : rest.dropWhile isWhitespace = behind at *
        cases cutClose : isAsciiMarkerPrefixIgnoreCase functionClose behind with
        | true =>
            simp only [marker_absent cutClose, Bool.false_eq_true, if_false, if_true]
            trivial
        | false =>
            obtain ⟨sameClose, settledClose⟩ := marker_append cutClose more
            simp only [sameClose, settledClose, Bool.false_eq_true, if_false]
            by_cases close : startsWithAsciiMarkerIgnoreCase functionClose behind = true
            · simp only [close, if_true]
              exact .refl ..
            · simp only [close]
              cases cutOpen : isAsciiMarkerPrefixIgnoreCase parameterOpen behind with
              | true =>
                  simp only [marker_absent cutOpen, Bool.false_eq_true, if_false, if_true]
                  trivial
              | false =>
                  obtain ⟨sameOpen, settledOpen⟩ := marker_append cutOpen more
                  simp only [sameOpen, settledOpen, Bool.false_eq_true, if_false]
                  by_cases found : startsWithAsciiMarkerIgnoreCase parameterOpen behind = true
                  · simp only [found, if_true]
                    rw [List.drop_append_of_le_length (marker_length_le found)]
                    cases opened : scanParameterOpening (behind.drop parameterOpen.length) with
                    | unfinished => trivial
                    | malformed =>
                        rw [scanParameterOpening_append (by simp [opened]), opened]
                        exact .refl ..
                    | opened nameLength value =>
                        rw [scanParameterOpening_append (by simp [opened]), opened]
                        dsimp only
                        cases closing : indexOfAsciiMarkerIgnoreCase parameterClose value with
                        | none => trivial
                        | some distance =>
                            have fits := indexOf_bound closing
                            rw [indexOf_append closing more]
                            dsimp only
                            rw [List.drop_append_of_le_length fits]
                            subst marker
                            have short := @parameter_rest rest rest _ 0 _ distance rfl found opened
                            have long := @parameter_rest text (rest ++ more) (value ++ more) cursor
                              nameLength distance at_
                            rw [dropWhile_append_of_ne_nil more blank,
                              takeWhile_append_of_ne_nil more blank, sameOpen,
                              List.drop_append_of_le_length (marker_length_le found),
                              scanParameterOpening_append (by simp [opened]), opened,
                              List.drop_append_of_le_length fits] at long
                            obtain ⟨further, fewer⟩ := long found rfl
                            refine ih further (by omega) (by omega) fun stop same => ?_
                            cases same
                            exact ⟨Nat.le_refl _, by simp⟩
                  · simp only [found]
                    exact .refl ..

theorem opening_of_awaitsLineBreak {start : Nat} {rest : Text} (awaits : AwaitsLineBreak start rest) :
    ∃ offset, scanXmlishOpening [] start rest = .ended (.invalid offset none) := by
  obtain ⟨bracket, name, cursor, u, us, opened, blank⟩ := awaits
  have other : rest.head? ≠ some (unit '<') := by
    rw [bracket]
    decide
  refine ⟨cursor, ?_⟩
  rw [scanXmlishOpening, if_neg other, if_pos bracket, opened]
  simp only [breakNamedBracket, lineBreak_blank cursor blank]

/-- The scan of a longer text, for a text that neither ends before the call nor in front of the
line break of a bracketed name. -/
theorem scanXmlishToolCall_append {text : Text} {start : Nat} (inside : start < text.length)
    (settled : ¬AwaitsLineBreak start (text.drop start)) (more : Text) :
    Continues (text ++ more) (scanXmlishToolCall text start [])
      (scanXmlishToolCall (text ++ more) start []) := by
  have nonempty : text.drop start ≠ [] := by simpa using inside
  have opening := fun decided =>
    @scanXmlishOpening_append start (text.drop start) decided nonempty settled more
  have place := @scanXmlishOpening_at (text ++ more) [] start (text.drop start ++ more)
    (List.drop_append_of_le_length inside.le).symm
  unfold scanXmlishToolCall
  rw [List.drop_append_of_le_length inside.le]
  cases opened : scanXmlishOpening [] start (text.drop start) with
  | ended scan =>
      rw [opened] at opening
      cases scan with
      | callPrefix candidate completeEnd => trivial
      | invalid offset candidate =>
          rw [opening trivial]
          exact .refl ..
      | complete call stop =>
          rw [opening trivial]
          exact .refl ..
  | opened syntaxKind name cursor rest =>
      rw [opened] at opening
      cases rest with
      | nil => cases syntaxKind <;> trivial
      | cons u us =>
          have again := opening (List.cons_ne_nil u us)
          rw [again] at place ⊢
          exact scanXmlishBody_append place (Nat.lt_succ_self _) (Nat.lt_succ_self _)
            fun stop none => by cases none

end Body

end OpenClaw.ToolCallRepair
