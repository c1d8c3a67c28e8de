import OpenClaw.ToolCallRepair.PayloadFinal

/-!
Both scanners on a text that goes on. Where the XML-like scanner rejects a bracketed
name only because its line break has not come yet, the JSON scanner is still waiting
for it, so a text that both reject stays rejected; a complete call stays complete but
for its optional closers and, behind a tool bracket, a malformed parameter.
-/

namespace OpenClaw.ToolCallRepair

open JsUnits TextScan

section Waiting

/-- Past the end of the text the JSON scanner waits for a call to begin. -/
theorem scanPlainTextJsonToolCall_past {text : Text} {start : Nat} (past : text.length ≤ start) :
    scanPlainTextJsonToolCall text start [] = .callPrefix none := by
  rw [scanPlainTextJsonToolCall, List.drop_eq_nil_of_le past]
  rfl

theorem scanXmlishToolCall_past {text : Text} {start : Nat} (past : text.length ≤ start) :
    scanXmlishToolCall text start [] = .invalid start none := by
  rw [scanXmlishToolCall, List.drop_eq_nil_of_le past]
  rfl

/-- A named bracket is read when its name is the run of name characters behind the bracket. -/
theorem scanBracketName_opened {start cursor : Nat} {rest behind : Text} {name : Span}
    (opened : scanBracketName start rest = .opened .namedBracket name cursor behind) :
    (rest.drop 1).takeWhile isPlainTextToolNameChar ≠ [] ∧
      ((rest.drop 1).takeWhile isPlainTextToolNameChar).length ≤ 120 ∧
      (rest.drop 1).dropWhile isPlainTextToolNameChar = unit ']' :: behind := by
  unfold scanBracketName at opened
  dsimp only at opened
  split at opened
  · cases opened
  case isFalse short =>
    have all : nameChars isPlainTextToolNameChar (rest.drop 1) =
        (rest.drop 1).takeWhile isPlainTextToolNameChar := by
      simp only [nameChars, List.length_take] at short ⊢
      exact List.take_of_length_le (by omega)
    rw [all] at short opened
    rw [drop_takeWhile_length] at opened
    split at opened
    · cases opened
    · split at opened
      · unfold scanClosedName closeName at opened
        dsimp only at opened
        split at opened
        · cases opened
        · split at opened
          · cases opened
          · split at opened <;> cases opened
      · unfold closeName at opened
        dsimp only at opened
        split at opened
        · cases opened
        case h_2 u us split =>
          split at opened
          · cases opened
          case isFalse closed =>
            cases opened
            simp only [not_or, not_not] at closed
            exact ⟨closed.1, by omega, by rw [split, closed.2]⟩

/-- Where a line break may still come, the JSON scanner waits for it. -/
theorem scanPlainTextJsonToolCall_awaits {text : Text} {start : Nat}
    (awaits : AwaitsLineBreak start (text.drop start)) :
    ∃ candidate, scanPlainTextJsonToolCall text start [] = .callPrefix candidate := by
  obtain ⟨bracket, name, cursor, u, us, opened, blank⟩ := awaits
  obtain ⟨named, short, closed⟩ := scanBracketName_opened opened
  unfold scanPlainTextJsonToolCall scanJsonOpening
  generalize text.drop start = rest at *
  have split := List.takeWhile_append_dropWhile (p := isPlainTextToolNameChar) (l := rest.drop 1)
  have noTool : startsWith (lit "tool:") (rest.drop 1) = false := by
    cases found : startsWith (lit "tool:") (rest.drop 1) with
    | false => rfl
    | true =>
        obtain ⟨tail, same⟩ := List.isPrefixOf_iff_prefix.mp found
        rw [← same] at closed
        have colon : (lit "tool:" ++ tail).dropWhile isPlainTextToolNameChar =
            unit ':' :: tail := rfl
        rw [colon, List.cons.injEq] at closed
        exact absurd closed.1 (by decide)
  have noCut : isLiteralPrefixAt (lit "tool:") (rest.drop 1) = false := by
    cases cut : isLiteralPrefixAt (lit "tool:") (rest.drop 1) with
    | false => rfl
    | true =>
        have begins := List.isPrefixOf_iff_prefix.mp (Bool.and_eq_true_iff.mp cut).2
        have mem : unit ']' ∈ lit "tool:" := by
          refine begins.subset ?_
          rw [← split, closed]
          simp
        exact absurd mem (by decide)
  have some : ((rest.drop 1).takeWhile isPlainTextToolNameChar).length ≠ 0 := by
    simpa using named
  have read : scanToolName .namedBracket (· == unit ']') (start + 1) (rest.drop 1) =
      .opened (nameCandidate .namedBracket ⟨start + 1,
        start + 1 + ((rest.drop 1).takeWhile isPlainTextToolNameChar).length⟩ true)
        (start + 1 + ((rest.drop 1).takeWhile isPlainTextToolNameChar).length)
        (unit ']' :: u :: us) := by
    simp only [scanToolName, scanToolNameEnd, short.not_gt, if_false, drop_takeWhile_length, closed,
      some, beq_self_eq_true, Bool.true_eq_false, or_self]
  rw [if_pos bracket, scanBracketOpening]
  simp only [noTool, noCut, Bool.false_eq_true, if_false, scanNamedBracket, read,
    List.drop_succ_cons, List.drop_zero, blank, if_true]
  exact ⟨_, rfl⟩

end Waiting

/-- For every text, start and continuation: what both scanners reject they reject with the
text behind it too; a complete call of either scanner goes on as `StaysFinal` and
`JsonContinues` say. -/
theorem scan_verdicts_final (text more : Text) (start : Nat) :
    (∀ offset candidate offset' candidate',
        scanXmlishToolCall text start [] = .invalid offset candidate →
        scanPlainTextJsonToolCall text start [] = .invalid offset' candidate' →
        scanXmlishToolCall (text ++ more) start [] = .invalid offset candidate ∧
          scanPlainTextJsonToolCall (text ++ more) start [] = .invalid offset' candidate') ∧
      (∀ call stop, scanXmlishToolCall text start [] = .complete call stop →
        StaysFinal (text ++ more) call stop (scanXmlishToolCall (text ++ more) start [])) ∧
      (∀ call stop, scanPlainTextJsonToolCall text start [] = .complete call stop →
        JsonContinues (.complete call stop)
          (scanPlainTextJsonToolCall (text ++ more) start [])) := by
  by_cases inside : start < text.length
  · have json := scanPlainTextJsonToolCall_append inside more
    by_cases awaits : AwaitsLineBreak start (text.drop start)
    · obtain ⟨candidate, waiting⟩ := scanPlainTextJsonToolCall_awaits awaits
      obtain ⟨offset, opening⟩ := opening_of_awaitsLineBreak awaits
      have rejected : scanXmlishToolCall text start [] = .invalid offset none := by
        rw [scanXmlishToolCall, opening]
      refine ⟨fun _ _ _ _ _ invalid => ?_, fun _ _ complete => ?_, fun _ _ complete => ?_⟩
      · rw [waiting] at invalid
        cases invalid
      · rw [rejected] at complete
        cases complete
      · rw [waiting] at complete
        cases complete
    · have xmlish := scanXmlishToolCall_append inside awaits more
      refine ⟨fun _ _ _ _ first second => ?_, fun _ _ complete => ?_, fun _ _ complete => ?_⟩
      · rw [first] at xmlish
        rw [second] at json
        exact ⟨xmlish, json⟩
      · rwa [complete] at xmlish
      · rwa [complete] at json
  · have waiting := scanPlainTextJsonToolCall_past (Nat.le_of_not_lt inside)
    have rejected := scanXmlishToolCall_past (Nat.le_of_not_lt inside)
    refine ⟨fun _ _ _ _ _ invalid => ?_, fun _ _ complete => ?_, fun _ _ complete => ?_⟩
    · rw [waiting] at invalid
      cases invalid
    · rw [rejected] at complete
      cases complete
    · rw [waiting] at complete
      cases complete

/-- Behind the closed parameter of a tool bracket, a parameter without a name takes the
verdict back. -/
theorem malformed_parameter_revokes_tool_bracket :
    let call : XmlishCandidate :=
      ⟨none, ⟨6, 9⟩, true, [⟨⟨21, 22⟩, ⟨23, 24⟩⟩], some ⟨10, 36⟩, .toolBracket⟩
    scanXmlishToolCall (lit "[tool:foo]<parameter=a>v</parameter>") 0 [] = .complete call 36 ∧
      scanXmlishToolCall (lit "[tool:foo]<parameter=a>v</parameter>" ++ lit "<parameter=>") 0 [] =
        .invalid 36 (some call) := by
  decide

end OpenClaw.ToolCallRepair
