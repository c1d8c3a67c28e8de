import OpenClaw.ToolCallRepair.GrammarFinal

/-!
What the scanner for JSON calls has decided stays decided when text follows. Its
openings are read again as they were, the JSON object ends at the same brace, and only
an optional closing marker may still be joined to the call.
-/

namespace OpenClaw.ToolCallRepair

open JsUnits TextScan

section Openings

/-- The same opening with more text behind it. -/
def JsonOpening.extend (more : Text) : JsonOpening → JsonOpening
  | .ended scan => .ended scan
  | .opened value cursor rest => .opened value cursor (rest ++ more)

/-- The opening waits for nothing, and something stands behind one that was read. -/
def JsonOpening.Decided : JsonOpening → Prop
  | .ended (.callPrefix _) => False
  | .ended _ => True
  | .opened _ _ rest => rest ≠ []

/-- The name an opening has read lies in the text. -/
def JsonOpening.Named (length : Nat) : JsonOpening → Prop
  | .ended _ => True
  | .opened value _ _ => value.name.stop ≤ length

theorem literal_absent {literal rest : Text} (cut : isLiteralPrefixAt literal rest = true) :
    startsWith literal rest = false := by
  cases found : startsWith literal rest with
  | false => rfl
  | true =>
      rw [literal_settled found] at cut
      cases cut

theorem literal_length_le {literal rest : Text} (found : startsWith literal rest = true) :
    literal.length ≤ rest.length :=
  (List.isPrefixOf_iff_prefix.mp found).length_le

/-- A text with one literal at its start waits for no literal that does not begin so. -/
theorem literal_apart {literal other rest : Text} (found : startsWith literal rest = true)
    (apart : literal.isPrefixOf other = false) : isLiteralPrefixAt other rest = false := by
  cases cut : isLiteralPrefixAt other rest with
  | false => rfl
  | true =>
      have inner := List.isPrefixOf_iff_prefix.mp (Bool.and_eq_true_iff.mp cut).2
      have outer := (List.isPrefixOf_iff_prefix.mp found).trans inner
      rw [List.isPrefixOf_iff_prefix.mpr outer] at apart
      cases apart

theorem scanToolName_append {syntaxKind : JsonSyntax} {follows : UInt16 → Bool} {nameStart : Nat}
    {rest : Text} (decided : (scanToolName syntaxKind follows nameStart rest).Decided)
    (more : Text) :
    scanToolName syntaxKind follows nameStart (rest ++ more) =
      (scanToolName syntaxKind follows nameStart rest).extend more := by
  unfold scanToolName scanToolNameEnd at decided ⊢
  by_cases long : 120 < (rest.takeWhile isPlainTextToolNameChar).length
  · have longer : 120 < ((rest ++ more).takeWhile isPlainTextToolNameChar).length := by
      rw [List.takeWhile_append]
      split
      case isTrue all =>
        rw [List.length_append]
        omega
      · exact long
    simp only [long, longer, if_true]
    rfl
  · simp only [long, if_false, drop_takeWhile_length] at decided ⊢
    have left : rest.dropWhile isPlainTextToolNameChar ≠ [] := by
      intro none
      rw [none] at decided
      exact decided
    have drop := drop_takeWhile_length isPlainTextToolNameChar (rest ++ more)
    rw [takeWhile_append_of_ne_nil more left] at drop
    simp only [takeWhile_append_of_ne_nil more left, long, if_false, drop,
      dropWhile_append_of_ne_nil more left]
    obtain ⟨u, us, split⟩ := List.exists_cons_of_ne_nil left
    rw [split]
    simp only [List.cons_append]
    split <;> rfl

theorem scanToolName_opened {syntaxKind : JsonSyntax} {follows : UInt16 → Bool}
    {nameStart cursor : Nat} {rest behind : Text} {value : JsonCandidate}
    (opened : scanToolName syntaxKind follows nameStart rest = .opened value cursor behind) :
    behind ≠ [] ∧ value.name.stop + behind.length = nameStart + rest.length ∧
      value.syntaxKind = syntaxKind := by
  unfold scanToolName scanToolNameEnd at opened
  dsimp only at opened
  split at opened
  · cases opened
  case h_2 length ended =>
    split at opened
    · cases opened
    case h_2 u us split =>
      split at opened
      · cases opened
      · cases opened
        have fits := congrArg List.length split
        simp only [List.length_drop, List.length_cons] at fits
        refine ⟨List.cons_ne_nil u us, ?_, rfl⟩
        simp only [nameCandidate, List.length_cons]
        omega

theorem drop_one_append {rest : Text} (nonempty : rest ≠ []) (more : Text) :
    (rest ++ more).drop 1 = rest.drop 1 ++ more := by
  cases rest with
  | nil => exact absurd rfl nonempty
  | cons u us => rfl

theorem scanNamedBracket_append {nameStart : Nat} {rest : Text}
    (decided : (scanNamedBracket [] nameStart rest).Decided) (more : Text) :
    scanNamedBracket [] nameStart (rest ++ more) =
      (scanNamedBracket [] nameStart rest).extend more := by
  unfold scanNamedBracket at decided ⊢
  cases opened : scanToolName .namedBracket (· == unit ']') nameStart rest with
  | ended scan =>
      rw [opened] at decided
      have again := scanToolName_append (by rw [opened]; exact decided) more
      rw [again, opened]
      rfl
  | opened value cursor behind =>
      obtain ⟨nonempty, -, -⟩ := scanToolName_opened opened
      have again := scanToolName_append (by rw [opened]; exact nonempty) more
      rw [again, opened]
      rw [opened] at decided
      simp only [JsonOpening.extend, drop_one_append nonempty more] at decided ⊢
      by_cases blank : (behind.drop 1).dropWhile isHorizontal = []
      · rw [if_pos blank] at decided
        exact decided.elim
      · have longer : (behind.drop 1).dropWhile isHorizontal ++ more ≠ [] :=
          fun none => blank (List.append_eq_nil_iff.mp none).1
        rw [if_neg blank] at decided
        have later := lineBreak_append blank (fun after left found => by
          rw [found] at decided
          exact decided) more
        simp only [dropWhile_append_of_ne_nil more blank, takeWhile_append_of_ne_nil more blank,
          blank, longer, if_false, later]
        cases consumeStructuralLineBreakAfterHorizontalWhitespace [] (cursor + 1)
          (behind.drop 1) with
        | none => rfl
        | some next => rfl

theorem scanToolBracket_append {nameStart : Nat} {rest : Text}
    (decided : (scanToolBracket nameStart rest).Decided) (more : Text) :
    scanToolBracket nameStart (rest ++ more) = (scanToolBracket nameStart rest).extend more := by
  unfold scanToolBracket at decided ⊢
  cases opened : scanToolName .toolBracket (· == unit ']') nameStart rest with
  | ended scan =>
      rw [opened] at decided
      have again := scanToolName_append (by rw [opened]; exact decided) more
      rw [again, opened]
      rfl
  | opened value cursor behind =>
      obtain ⟨nonempty, -, -⟩ := scanToolName_opened opened
      have again := scanToolName_append (by rw [opened]; exact nonempty) more
      rw [again, opened]
      simp only [JsonOpening.extend, drop_one_append nonempty more]

theorem scanBracketOpening_append {start : Nat} {rest : Text}
    (decided : (scanBracketOpening [] start rest).Decided) (nonempty : rest ≠ []) (more : Text) :
    scanBracketOpening [] start (rest ++ more) =
      (scanBracketOpening [] start rest).extend more := by
  unfold scanBracketOpening at decided ⊢
  rw [drop_one_append nonempty more]
  cases cut : isLiteralPrefixAt (lit "tool:") (rest.drop 1) with
  | true =>
      simp only [literal_absent cut, cut, Bool.false_eq_true, if_false, if_true] at decided
      exact decided.elim
  | false =>
      obtain ⟨same, settled⟩ := literal_append cut more
      simp only [cut, same, settled, Bool.false_eq_true, if_false] at decided ⊢
      cases found : startsWith (lit "tool:") (rest.drop 1) with
      | true =>
          simp only [found, if_true] at decided ⊢
          rw [List.drop_append_of_le_length (literal_length_le found)]
          exact scanToolBracket_append decided more
      | false =>
          simp only [found, Bool.false_eq_true, if_false] at decided ⊢
          exact scanNamedBracket_append decided more

theorem scanHarmonyCode_append {value : JsonCandidate} {cursor : Nat} {rest : Text}
    (decided : (scanHarmonyCode value cursor rest).Decided) (more : Text) :
    scanHarmonyCode value cursor (rest ++ more) =
      (scanHarmonyCode value cursor rest).extend more := by
  have ahead : rest.dropWhile isHorizontal ≠ [] := by
    intro none
    unfold scanHarmonyCode at decided
    rw [none] at decided
    exact decided
  unfold scanHarmonyCode at decided ⊢
  simp only [dropWhile_append_of_ne_nil more ahead, takeWhile_append_of_ne_nil more ahead]
  generalize rest.dropWhile isHorizontal = code at *
  cases cut : isLiteralPrefixAt (lit "code") code with
  | true =>
      simp only [literal_absent cut, cut, if_true] at decided
      exact decided.elim
  | false =>
      obtain ⟨same, settled⟩ := literal_append cut more
      simp only [cut, same, settled, Bool.false_eq_true, if_false] at decided ⊢
      cases found : startsWith (lit "code") code with
      | false =>
          simp only [if_true]
          rfl
      | true =>
          simp only [found, Bool.true_eq_false, if_false] at decided ⊢
          rw [List.drop_append_of_le_length (literal_length_le found)]
          have behind : (code.drop (lit "code").length).dropWhile isWhitespace ≠ [] := by
            intro none
            rw [none] at decided
            exact decided
          simp only [dropWhile_append_of_ne_nil more behind, takeWhile_append_of_ne_nil more behind]
          generalize (code.drop (lit "code").length).dropWhile isWhitespace = message at *
          cases cutMessage : isLiteralPrefixAt harmonyMessageMarker message with
          | true =>
              simp only [literal_absent cutMessage, cutMessage, Bool.false_eq_true, if_false,
                if_true] at decided
              exact decided.elim
          | false =>
              obtain ⟨sameMessage, settledMessage⟩ := literal_append cutMessage more
              have head : (message ++ more).head? = message.head? :=
                List.head?_append_of_ne_nil message behind
              simp only [cutMessage, sameMessage, settledMessage, Bool.false_eq_true, if_false, head]
                at decided ⊢
              cases marked : startsWith harmonyMessageMarker message with
              | false =>
                  simp only [Bool.false_eq_true, if_false]
                  split <;> rfl
              | true =>
                  simp only [marked, if_true] at decided ⊢
                  rw [List.drop_append_of_le_length (literal_length_le marked)]
                  rw [dropWhile_append_of_ne_nil more decided,
                    takeWhile_append_of_ne_nil more decided]
                  rfl

theorem scanHarmonyRecipient_append {cursor : Nat} {rest : Text}
    (decided : (scanHarmonyRecipient cursor rest).Decided) (more : Text) :
    scanHarmonyRecipient cursor (rest ++ more) =
      (scanHarmonyRecipient cursor rest).extend more := by
  unfold scanHarmonyRecipient at decided ⊢
  cases cut : isLiteralPrefixAt (lit "to=") rest with
  | true =>
      simp only [literal_absent cut, cut, if_true] at decided
      exact decided.elim
  | false =>
      obtain ⟨same, settled⟩ := literal_append cut more
      simp only [cut, same, settled, Bool.false_eq_true, if_false] at decided ⊢
      cases found : startsWith (lit "to=") rest with
      | false =>
          simp only [if_true]
          rfl
      | true =>
          simp only [found, Bool.true_eq_false, if_false] at decided ⊢
          rw [List.drop_append_of_le_length (literal_length_le found)]
          cases opened : scanToolName .harmony isHorizontal (cursor + (lit "to=").length)
              (rest.drop (lit "to=").length) with
          | ended scan =>
              rw [opened] at decided
              rw [scanToolName_append (by rw [opened]; exact decided) more, opened]
              rfl
          | opened value next behind =>
              obtain ⟨nonempty, -, -⟩ := scanToolName_opened opened
              rw [opened] at decided
              rw [scanToolName_append (by rw [opened]; exact nonempty) more, opened]
              exact scanHarmonyCode_append decided more

/-- No channel begins another one. -/
theorem harmonyChannels_apart : ∀ channel ∈ harmonyChannels, ∀ other ∈ harmonyChannels,
    channel ≠ other → channel.isPrefixOf other = false := by decide

theorem channel_append {rest : Text}
    (settled : ∀ channel ∈ harmonyChannels, isLiteralPrefixAt channel rest = false) (more : Text) :
    harmonyChannels.find? (startsWith · (rest ++ more)) =
        harmonyChannels.find? (startsWith · rest) ∧
      harmonyChannels.any (isLiteralPrefixAt · (rest ++ more)) = false := by
  refine ⟨?_, List.any_eq_false.mpr fun channel mem => ?_⟩
  · exact List.find?_congr fun channel mem => (literal_append (settled channel mem) more).1
  · simp [(literal_append (settled channel mem) more).2]

theorem scanHarmonyChannel_append {cursor : Nat} {rest : Text}
    (decided : (scanHarmonyChannel cursor rest).Decided) (more : Text) :
    scanHarmonyChannel cursor (rest ++ more) =
      (scanHarmonyChannel cursor rest).extend more := by
  have settled : ∀ channel ∈ harmonyChannels, isLiteralPrefixAt channel rest = false := by
    intro channel mem
    cases cut : isLiteralPrefixAt channel rest with
    | false => rfl
    | true =>
        exfalso
        unfold scanHarmonyChannel at decided
        cases found : harmonyChannels.find? (startsWith · rest) with
        | none =>
            have any : harmonyChannels.any (isLiteralPrefixAt · rest) = true :=
              List.any_eq_true.mpr ⟨channel, mem, cut⟩
            rw [found] at decided
            simp only [any, if_true] at decided
            exact decided
        | some first =>
            have starts := List.find?_some found
            have apart : first.isPrefixOf channel = false := by
              refine harmonyChannels_apart first (List.mem_of_find?_eq_some found) channel mem ?_
              rintro rfl
              rw [literal_settled starts] at cut
              cases cut
            rw [literal_apart starts apart] at cut
            cases cut
  obtain ⟨same, noCut⟩ := channel_append settled more
  unfold scanHarmonyChannel at decided ⊢
  rw [same]
  cases found : harmonyChannels.find? (startsWith · rest) with
  | none =>
      have none : harmonyChannels.any (isLiteralPrefixAt · rest) = false :=
        List.any_eq_false.mpr fun channel mem => by simp [settled channel mem]
      simp only [none, noCut, Bool.false_eq_true, if_false]
      rfl
  | some channel =>
      have starts := List.find?_some found
      rw [found] at decided
      dsimp only at decided ⊢
      rw [List.drop_append_of_le_length (literal_length_le starts)]
      cases behind : rest.drop channel.length with
      | nil =>
          rw [behind] at decided
          exact decided.elim
      | cons u us =>
          rw [behind] at decided
          simp only [List.cons_append] at decided ⊢
          split
          · rfl
          case isFalse blank =>
            rw [if_neg blank] at decided
            have ahead : (u :: us).dropWhile isHorizontal ≠ [] := by
              intro none
              rw [none] at decided
              exact decided
            rw [← List.cons_append, dropWhile_append_of_ne_nil more ahead,
              takeWhile_append_of_ne_nil more ahead]
            exact scanHarmonyRecipient_append decided more

theorem scanHarmonyOpening_append {start : Nat} {rest : Text}
    (decided : (scanHarmonyOpening start rest).Decided) (nonempty : rest ≠ []) (more : Text) :
    scanHarmonyOpening start (rest ++ more) = (scanHarmonyOpening start rest).extend more := by
  unfold scanHarmonyOpening at decided ⊢
  have head : (rest ++ more).head? = rest.head? := List.head?_append_of_ne_nil rest nonempty
  rw [head]
  cases cut : isLiteralPrefixAt harmonyChannelMarker rest with
  | true =>
      simp only [literal_absent cut, cut, Bool.false_eq_true, if_false, if_true] at decided
      exact decided.elim
  | false =>
      obtain ⟨same, settled⟩ := literal_append cut more
      simp only [cut, same, settled, Bool.false_eq_true, if_false] at decided ⊢
      cases found : startsWith harmonyChannelMarker rest with
      | true =>
          simp only [found, if_true] at decided ⊢
          rw [List.drop_append_of_le_length (literal_length_le found)]
          exact scanHarmonyChannel_append decided more
      | false =>
          simp only [found, Bool.false_eq_true, if_false] at decided ⊢
          by_cases tag : rest.head? = some (unit '<')
          · rw [if_pos tag, if_pos tag]
            rfl
          · rw [if_neg tag] at decided
            rw [if_neg tag, if_neg tag]
            exact scanHarmonyChannel_append decided more

theorem scanJsonOpening_append {start : Nat} {rest : Text}
    (decided : (scanJsonOpening [] start rest).Decided) (nonempty : rest ≠ []) (more : Text) :
    scanJsonOpening [] start (rest ++ more) = (scanJsonOpening [] start rest).extend more := by
  have head : (rest ++ more).head? = rest.head? := List.head?_append_of_ne_nil rest nonempty
  unfold scanJsonOpening at decided ⊢
  rw [head]
  by_cases bracket : rest.head? = some (unit '[')
  · rw [if_pos bracket] at decided
    rw [if_pos bracket, if_pos bracket]
    exact scanBracketOpening_append decided nonempty more
  · rw [if_neg bracket] at decided
    rw [if_neg bracket, if_neg bracket]
    exact scanHarmonyOpening_append decided nonempty more

end Openings

section Names

variable {length : Nat}

theorem takeWhile_dropWhile_length (p : UInt16 → Bool) (rest : Text) :
    (rest.takeWhile p).length + (rest.dropWhile p).length = rest.length := by
  rw [← List.length_append, List.takeWhile_append_dropWhile]

theorem scanToolName_named {syntaxKind : JsonSyntax} {follows : UInt16 → Bool} {nameStart : Nat}
    {rest : Text} (total : nameStart + rest.length = length) :
    (scanToolName syntaxKind follows nameStart rest).Named length := by
  cases opened : scanToolName syntaxKind follows nameStart rest with
  | ended scan => trivial
  | opened value cursor behind =>
      have := (scanToolName_opened opened).2.1
      simp only [JsonOpening.Named]
      omega

theorem scanNamedBracket_named {nameStart : Nat} {rest : Text}
    (total : nameStart + rest.length = length) :
    (scanNamedBracket [] nameStart rest).Named length := by
  have named := @scanToolName_named length .namedBracket (· == unit ']') nameStart rest total
  unfold scanNamedBracket
  split
  · trivial
  case h_2 opened =>
    rw [opened] at named
    dsimp only
    split
    · trivial
    · split
      · trivial
      · exact named

theorem scanToolBracket_named {nameStart : Nat} {rest : Text}
    (total : nameStart + rest.length = length) :
    (scanToolBracket nameStart rest).Named length := by
  have named := @scanToolName_named length .toolBracket (· == unit ']') nameStart rest total
  unfold scanToolBracket
  split
  · trivial
  case h_2 opened =>
    rw [opened] at named
    exact named

theorem scanBracketOpening_named {start : Nat} {rest : Text} (nonempty : rest ≠ [])
    (total : start + rest.length = length) :
    (scanBracketOpening [] start rest).Named length := by
  have behind : start + 1 + (rest.drop 1).length = length := by
    have := List.length_pos_of_ne_nil nonempty
    rw [List.length_drop]
    omega
  unfold scanBracketOpening
  dsimp only
  split
  case isTrue found =>
    have fits := literal_length_le found
    refine scanToolBracket_named ?_
    rw [List.length_drop (i := (lit "tool:").length)]
    omega
  · split
    · trivial
    · exact scanNamedBracket_named behind

theorem scanHarmonyCode_named {value : JsonCandidate} {cursor : Nat} {rest : Text}
    (named : value.name.stop ≤ length) : (scanHarmonyCode value cursor rest).Named length := by
  unfold scanHarmonyCode
  dsimp only
  split
  · split <;> trivial
  · split
    · exact named
    · split
      · trivial
      · split
        · trivial
        · exact named

theorem scanHarmonyChannel_named {cursor : Nat} {rest : Text}
    (total : cursor + rest.length = length) : (scanHarmonyChannel cursor rest).Named length := by
  unfold scanHarmonyChannel
  split
  · split <;> trivial
  case h_2 channel found =>
    have starts := List.find?_some found
    have fits := literal_length_le starts
    split
    · trivial
    case h_2 u us split =>
      have behind := congrArg List.length split
      rw [List.length_drop] at behind
      have blanks := takeWhile_dropWhile_length isHorizontal (u :: us)
      split
      · trivial
      · unfold scanHarmonyRecipient
        split
        · split <;> trivial
        case isFalse recipient =>
          have long := literal_length_le (Bool.of_not_eq_false recipient)
          split
          · trivial
          case h_2 value next after opened =>
            refine scanHarmonyCode_named ?_
            have spans := (scanToolName_opened opened).2.1
            rw [List.length_drop] at spans
            omega

theorem scanHarmonyOpening_named {start : Nat} {rest : Text}
    (total : start + rest.length = length) : (scanHarmonyOpening start rest).Named length := by
  unfold scanHarmonyOpening
  split
  case isTrue found =>
    have fits := literal_length_le found
    refine scanHarmonyChannel_named ?_
    rw [List.length_drop]
    omega
  · split
    · trivial
    · split
      · trivial
      · exact scanHarmonyChannel_named total

theorem scanJsonOpening_named {start : Nat} {rest : Text} (nonempty : rest ≠ [])
    (total : start + rest.length = length) : (scanJsonOpening [] start rest).Named length := by
  unfold scanJsonOpening
  split
  · exact scanBracketOpening_named nonempty total
  · exact scanHarmonyOpening_named total

end Names

section Payload

theorem scanJsonObject_append {index : Nat} {state : JsonState} {rest : Text}
    (ended : (scanJsonObject index state rest).isComplete = true) (more : Text) :
    scanJsonObject index state (rest ++ more) =
      { (scanJsonObject index state rest) with
        rest := (scanJsonObject index state rest).rest ++ more } := by
  induction rest generalizing index state with
  | nil => cases ended
  | cons u us ih =>
      simp only [List.cons_append, scanJsonObject] at ended ⊢
      split
      · rfl
      case isFalse goesOn =>
        rw [if_neg goesOn] at ended
        exact ih ended

theorem scanClosings_append {closings : List Text} {rest : Text}
    (decided : scanClosings closings rest ≠ .cut) (more : Text) :
    scanClosings closings (rest ++ more) = scanClosings closings rest := by
  induction closings with
  | nil => rfl
  | cons closing closings ih =>
      simp only [scanClosings] at decided ⊢
      cases cut : isLiteralPrefixAt closing rest with
      | true => simp [literal_absent cut, cut] at decided
      | false =>
          obtain ⟨same, settled⟩ := literal_append cut more
          simp only [cut, same, settled, Bool.false_eq_true, if_false] at decided ⊢
          split
          · rfl
          case isFalse absent =>
            rw [if_neg absent] at decided
            exact ih decided

/-- What a verdict allows the scan of the longer text to say. -/
def JsonContinues : PlainTextJsonToolCallScan → PlainTextJsonToolCallScan → Prop
  | .invalid offset candidate, later => later = .invalid offset candidate
  | .callPrefix _, _ => True
  | .complete _ _, .invalid _ _ => False
  | .complete call _, .callPrefix _ => call.syntaxKind ≠ .namedBracket
  | .complete call stop, .complete later laterStop =>
      stop ≤ laterStop ∧ later = call ∧ (call.syntaxKind = .namedBracket → laterStop = stop)

theorem JsonContinues.refl (scan : PlainTextJsonToolCallScan) : JsonContinues scan scan := by
  cases scan with
  | invalid offset candidate => rfl
  | callPrefix candidate => trivial
  | complete call stop => exact ⟨Nat.le_refl _, rfl, fun _ => rfl⟩

/-- Where the closing marker is optional, the call is complete or may still get one. -/
theorem closeJsonCall_optional {value : JsonCandidate} (optional : value.syntaxKind ≠ .namedBracket)
    (name : Text) (object : JsonObjectScan) :
    JsonContinues (.complete { value with json := none } object.stop)
      (closeJsonCall value name object) := by
  have complete : ∀ stop, object.stop ≤ stop → JsonContinues
      (.complete { value with json := none } object.stop)
      (.complete { value with json := none } stop) :=
    fun stop le => ⟨le, rfl, fun kind => absurd kind optional⟩
  unfold closeJsonCall
  simp only [optional, if_false]
  split
  · exact complete _ (Nat.le_refl _)
  · split
    · exact complete _ (by omega)
    · exact optional
    · exact complete _ (Nat.le_refl _)

theorem closeJsonCall_append (value : JsonCandidate) (name : Text) (object : JsonObjectScan)
    (more : Text) :
    JsonContinues (closeJsonCall value name object)
      (closeJsonCall value name { object with rest := object.rest ++ more }) := by
  by_cases blank : object.rest.dropWhile isWhitespace = []
  · by_cases kind : value.syntaxKind = .namedBracket
    · simp only [closeJsonCall, kind, if_true, blank]
      trivial
    · have open_ : closeJsonCall value name object =
          .complete { value with json := none } object.stop := by
        simp only [closeJsonCall, kind, if_false, blank, if_true]
      rw [open_]
      exact closeJsonCall_optional kind name { object with rest := object.rest ++ more }
  · have longer : object.rest.dropWhile isWhitespace ++ more ≠ [] :=
      fun none => blank (List.append_eq_nil_iff.mp none).1
    simp only [closeJsonCall, dropWhile_append_of_ne_nil more blank,
      takeWhile_append_of_ne_nil more blank, blank, longer, if_false]
    have settle : ∀ closings, scanClosings closings (object.rest.dropWhile isWhitespace) = .cut ∨
        scanClosings closings (object.rest.dropWhile isWhitespace ++ more) =
          scanClosings closings (object.rest.dropWhile isWhitespace) := by
      intro closings
      by_cases cut : scanClosings closings (object.rest.dropWhile isWhitespace) = .cut
      · exact .inl cut
      · exact .inr (scanClosings_append cut more)
    split
    · rcases settle [endToolRequest, nameClosing name] with cut | same
      · rw [cut]
        trivial
      · rw [same]
        exact .refl _
    · rcases settle [harmonyCallMarker, endToolRequest, nameClosing name] with cut | same
      · rw [cut]
        trivial
      · rw [same]
        exact .refl _

theorem scanPlainTextJsonToolCall_append {text : Text} {start : Nat} (inside : start < text.length)
    (more : Text) :
    JsonContinues (scanPlainTextJsonToolCall text start [])
      (scanPlainTextJsonToolCall (text ++ more) start []) := by
  have nonempty : text.drop start ≠ [] := by simpa using inside
  have total : start + (text.drop start).length = text.length := by
    rw [List.length_drop]
    omega
  have named := scanJsonOpening_named nonempty total
  have again := fun decided => @scanJsonOpening_append start _ decided nonempty more
  unfold scanPlainTextJsonToolCall
  rw [List.drop_append_of_le_length inside.le]
  cases opened : scanJsonOpening [] start (text.drop start) with
  | ended scan =>
      rw [opened] at again
      cases scan with
      | callPrefix candidate => trivial
      | invalid offset candidate =>
          rw [again trivial]
          exact .refl _
      | complete call stop =>
          rw [again trivial]
          exact .refl _
  | opened value cursor rest =>
      rw [opened] at again named
      cases behind : rest.dropWhile isWhitespace with
      | nil =>
          simp only [behind]
          trivial
      | cons u us =>
          have ahead : rest.dropWhile isWhitespace ≠ [] := by simp [behind]
          have some : rest ≠ [] := by
            rintro rfl
            exact ahead rfl
          rw [again some]
          simp only [JsonOpening.extend, dropWhile_append_of_ne_nil more ahead,
            takeWhile_append_of_ne_nil more ahead, behind, List.cons_append]
          split
          · exact .refl _
          · cases ended : (scanJsonObject (cursor + (rest.takeWhile isWhitespace).length)
                ⟨0, false, false⟩ (u :: us)).isComplete with
            | false =>
                simp only [Bool.false_eq_true, if_false]
                trivial
            | true =>
                have object := scanJsonObject_append ended more
                rw [List.cons_append] at object
                have name : (text ++ more).take value.name.stop = text.take value.name.stop :=
                  List.take_append_of_le_length named
                simp only [object, ended, if_true, name]
                exact closeJsonCall_append ..

end Payload

end OpenClaw.ToolCallRepair
