import OpenClaw.Lib.JsUnits

/-!
The scanner for XML-like tool calls: a function tag, or a bracketed name with a body of
parameters. A scan reads from a position of the text on; it is given that position and
the rest of the text there, so that every reported offset is one of the whole text.
-/

namespace OpenClaw.ToolCallRepair

open JsUnits

section Characters

/-- `/[A-Za-z0-9_-]/`. -/
def isPlainTextToolNameChar (u : UInt16) : Bool :=
  (0x30 ≤ u.toNat && u.toNat ≤ 0x39) || (0x41 ≤ u.toNat && u.toNat ≤ 0x5A) ||
    (0x61 ≤ u.toNat && u.toNat ≤ 0x7A) || u == unit '_' || u == unit '-'

/-- `/[A-Za-z0-9_.:-]/`. -/
def isXmlishNameChar (u : UInt16) : Bool :=
  isPlainTextToolNameChar u || u == unit '.' || u == unit ':'

/-- `toLowerCase` where the result is compared with an ASCII marker. Of the other characters
only U+0130 and U+212A have a lower case with an ASCII letter in it; the first becomes two
units and the second a letter that no marker has, so neither ever compares equal. -/
def asciiLowerCase (u : UInt16) : UInt16 :=
  if 0x41 ≤ u.toNat ∧ u.toNat ≤ 0x5A then u + 0x20 else u

def startsWithAsciiMarkerIgnoreCase (marker rest : Text) : Bool :=
  (rest.take marker.length).map asciiLowerCase == marker

def isAsciiMarkerPrefixIgnoreCase (marker rest : Text) : Bool :=
  let lowered := (rest.take marker.length).map asciiLowerCase
  lowered.length < marker.length && lowered.isPrefixOf marker

/-- The distance of the first marker, which begins with an angle bracket. -/
def indexOfAsciiMarkerIgnoreCase (marker : Text) : Text → Option Nat
  | [] => none
  | u :: us =>
      if u = unit '<' ∧ startsWithAsciiMarkerIgnoreCase marker (u :: us) then some 0
      else (indexOfAsciiMarkerIgnoreCase marker us).map (· + 1)

/-- The length of a line break at the start of the text. -/
def consumeLineBreak : Text → Option Nat
  | [] => none
  | u :: us =>
      if u = carriageReturn then some (if us.head? = some lineFeed then 2 else 1)
      else if u = lineFeed then some 1
      else none

/-- Where the text goes on behind a line break, or behind an offset that is known to be one. -/
def consumeStructuralLineBreakAfterHorizontalWhitespace (lineBreakOffsets : List Nat)
    (cursor : Nat) (rest : Text) : Option (Nat × Text) :=
  let blanks := (rest.takeWhile isHorizontal).length
  match consumeLineBreak (rest.drop blanks) with
  | some length => some (cursor + blanks + length, rest.drop (blanks + length))
  | none =>
      ((List.range (blanks + 1)).find? fun n => lineBreakOffsets.contains (cursor + n)).map
        fun n => (cursor + n, rest.drop n)

end Characters

section Scan

structure Span where
  start : Nat
  stop : Nat
  deriving DecidableEq, Repr

structure ParameterSpan where
  name : Span
  value : Span
  deriving DecidableEq, Repr

inductive XmlishSyntax
  | function
  | namedBracket
  | toolBracket
  deriving DecidableEq, Repr

structure XmlishCandidate where
  activeParameterOpenEnd : Option Nat
  name : Span
  nameComplete : Bool
  parameters : List ParameterSpan
  payload : Option Span
  syntaxKind : XmlishSyntax
  deriving DecidableEq, Repr

/-- The verdict; `callPrefix` is the kind `"prefix"`. -/
inductive XmlishToolCallScan
  | invalid (offset : Nat) (candidate : Option XmlishCandidate)
  | callPrefix (candidate : Option XmlishCandidate) (completeEnd : Option Nat)
  | complete (candidate : XmlishCandidate) (stop : Nat)
  deriving DecidableEq, Repr

def functionOpen : Text := lit "<function="
def functionClose : Text := lit "</function>"
def parameterOpen : Text := lit "<parameter="
def parameterClose : Text := lit "</parameter>"

/-- The characters of a name, one more than allowed at most. -/
def nameChars (isNameChar : UInt16 → Bool) (rest : Text) : Text :=
  (rest.takeWhile isNameChar).take 121

/-- The scan up to the body, which may decide it. -/
inductive XmlishOpening
  | ended (scan : XmlishToolCallScan)
  | opened (syntaxKind : XmlishSyntax) (name : Span) (cursor : Nat) (rest : Text)
  deriving DecidableEq, Repr

def unfinishedName (syntaxKind : XmlishSyntax) (name : Span) (nameComplete : Bool) :
    XmlishOpening :=
  .ended (.callPrefix (some ⟨none, name, nameComplete, [], none, syntaxKind⟩) none)

/-- The end of a name, at the character that has to close it. -/
def closeName (closing : UInt16) (syntaxKind : XmlishSyntax) (nameStart : Nat) (name rest : Text) :
    XmlishOpening :=
  let cursor := nameStart + name.length
  match rest with
  | [] => unfinishedName syntaxKind ⟨nameStart, cursor⟩ false
  | u :: us =>
      if name = [] ∨ u ≠ closing then .ended (.invalid cursor none)
      else .opened syntaxKind ⟨nameStart, cursor⟩ (cursor + 1) us

/-- A name and the character that closes it. -/
def scanClosedName (isNameChar : UInt16 → Bool) (closing : UInt16) (syntaxKind : XmlishSyntax)
    (nameStart : Nat) (rest : Text) : XmlishOpening :=
  let name := nameChars isNameChar rest
  if 120 < name.length then .ended (.invalid (nameStart + name.length) none)
  else closeName closing syntaxKind nameStart name (rest.drop name.length)

def scanFunctionOpening (start : Nat) (rest : Text) : XmlishOpening :=
  if !startsWithAsciiMarkerIgnoreCase functionOpen rest &&
      !isAsciiMarkerPrefixIgnoreCase functionOpen rest then
    .ended (.invalid start none)
  else if rest.length < functionOpen.length then .ended (.callPrefix none none)
  else
    scanClosedName isXmlishNameChar (unit '>') .function (start + functionOpen.length)
      (rest.drop functionOpen.length)

/-- The name in brackets, with the bracket that closes it. -/
def scanBracketName (start : Nat) (rest : Text) : XmlishOpening :=
  let behind := rest.drop 1
  let firstName := nameChars isPlainTextToolNameChar behind
  let cursor := start + 1 + firstName.length
  let next := behind.drop firstName.length
  if 120 < firstName.length then .ended (.invalid cursor none)
  else if next = [] ∧ firstName.isPrefixOf (lit "tool") then .ended (.callPrefix none none)
  else if next.head? = some (unit ':') ∧ firstName = lit "tool" then
    scanClosedName isPlainTextToolNameChar (unit ']') .toolBracket (cursor + 1) (next.drop 1)
  else closeName (unit ']') .namedBracket (start + 1) firstName next

/-- Behind a bracketed name of its own a line break has to follow. -/
def breakNamedBracket (lineBreakOffsets : List Nat) : XmlishOpening → XmlishOpening
  | .opened .namedBracket name _ [] => unfinishedName .namedBracket name true
  | .opened .namedBracket name cursor (u :: us) =>
      match consumeStructuralLineBreakAfterHorizontalWhitespace lineBreakOffsets cursor (u :: us) with
      | none => .ended (.invalid cursor none)
      | some (afterLineBreak, rest) => .opened .namedBracket name afterLineBreak rest
  | opening => opening

def scanXmlishOpening (lineBreakOffsets : List Nat) (start : Nat) (rest : Text) : XmlishOpening :=
  if rest.head? = some (unit '<') then scanFunctionOpening start rest
  else if rest.head? = some (unit '[') then
    breakNamedBracket lineBreakOffsets (scanBracketName start rest)
  else .ended (.invalid start none)

inductive ParameterOpening
  | malformed
  | unfinished
  | opened (nameLength : Nat) (value : Text)
  deriving DecidableEq, Repr

/-- The name of a parameter, from behind its opener on. -/
def scanParameterOpening (rest : Text) : ParameterOpening :=
  let name := nameChars isXmlishNameChar rest
  if 120 < name.length then .malformed
  else
    match rest.drop name.length with
    | [] => .unfinished
    | u :: value =>
        if name = [] ∨ u ≠ unit '>' then .malformed else .opened name.length value

/-- The loop over the body. Every round consumes a parameter, so one round more than the text
is long is enough. -/
def scanXmlishBody (syntaxKind : XmlishSyntax) (name : Span) (bodyStart : Nat) :
    Nat → Nat → Text → List ParameterSpan → Option Nat → XmlishToolCallScan
  | 0, _, _, _, _ => .callPrefix none none
  | rounds + 1, cursor, rest, parameters, lastParameterEnd =>
      let markerStart := cursor + (rest.takeWhile isWhitespace).length
      let marker := rest.dropWhile isWhitespace
      let candidate (payloadEnd : Nat) (activeParameterOpenEnd : Option Nat) : XmlishCandidate :=
        ⟨activeParameterOpenEnd, name, true, parameters, some ⟨bodyStart, payloadEnd⟩, syntaxKind⟩
      let completeEnd := if syntaxKind = .toolBracket then lastParameterEnd else none
      if marker = [] then
        match completeEnd with
        | some stop => .complete (candidate stop none) stop
        | none => .callPrefix (some (candidate markerStart none)) none
      else if startsWithAsciiMarkerIgnoreCase functionClose marker then
        if syntaxKind ≠ .function ∧ parameters = [] then
          .invalid markerStart (some (candidate markerStart none))
        else .complete (candidate markerStart none) (markerStart + functionClose.length)
      else if isAsciiMarkerPrefixIgnoreCase functionClose marker then
        .callPrefix (some (candidate markerStart none)) completeEnd
      else if startsWithAsciiMarkerIgnoreCase parameterOpen marker then
        let nameStart := markerStart + parameterOpen.length
        match scanParameterOpening (marker.drop parameterOpen.length) with
        | .malformed => .invalid markerStart (some (candidate markerStart none))
        | .unfinished => .callPrefix (some (candidate markerStart none)) completeEnd
        | .opened nameLength value =>
            let valueStart := nameStart + nameLength + 1
            match indexOfAsciiMarkerIgnoreCase parameterClose value with
            | none =>
                .callPrefix (some (candidate (valueStart + value.length) (some valueStart)))
                  completeEnd
            | some distance =>
                let closeStart := valueStart + distance
                let stop := closeStart + parameterClose.length
                scanXmlishBody syntaxKind name bodyStart rounds stop
                  (value.drop (distance + parameterClose.length))
                  (parameters ++ [⟨⟨nameStart, nameStart + nameLength⟩, ⟨valueStart, closeStart⟩⟩])
                  (some stop)
      else if isAsciiMarkerPrefixIgnoreCase parameterOpen marker then
        .callPrefix (some (candidate markerStart none)) completeEnd
      else
        match completeEnd with
        | some stop => .complete (candidate stop none) stop
        | none => .invalid markerStart (some (candidate markerStart none))

/-- `scanXmlishToolCall`, with the offsets that are known to be line breaks. -/
def scanXmlishToolCall (text : Text) (start : Nat) (lineBreakOffsets : List Nat) :
    XmlishToolCallScan :=
  match scanXmlishOpening lineBreakOffsets start (text.drop start) with
  | .ended scan => scan
  | .opened syntaxKind name cursor rest =>
      scanXmlishBody syntaxKind name cursor (rest.length + 1) cursor rest [] none

end Scan

end OpenClaw.ToolCallRepair

/-!
The scanner for plain-text tool calls with a JSON payload: a bracketed name or a Harmony
header, then one JSON object, then a closing marker that only a named bracket needs.
-/

namespace OpenClaw.ToolCallRepair

open JsUnits

inductive JsonSyntax
  | harmony
  | namedBracket
  | toolBracket
  deriving DecidableEq, Repr

structure JsonState where
  depth : Int
  escaped : Bool
  inString : Bool
  deriving DecidableEq, Repr

structure JsonCandidate where
  json : Option JsonState
  name : Span
  nameComplete : Bool
  payload : Option Span
  syntaxKind : JsonSyntax
  deriving DecidableEq, Repr

/-- The verdict; `callPrefix` is the kind `"prefix"`. -/
inductive PlainTextJsonToolCallScan
  | invalid (offset : Nat) (candidate : Option JsonCandidate)
  | callPrefix (candidate : Option JsonCandidate)
  | complete (candidate : JsonCandidate) (stop : Nat)
  deriving DecidableEq, Repr

inductive JsonOpening
  | ended (scan : PlainTextJsonToolCallScan)
  | opened (value : JsonCandidate) (cursor : Nat) (rest : Text)
  deriving DecidableEq, Repr

section Opening

def harmonyChannelMarker : Text := lit "<|channel|>"
def harmonyMessageMarker : Text := lit "<|message|>"
def harmonyCallMarker : Text := lit "<|call|>"
def endToolRequest : Text := lit "[END_TOOL_REQUEST]"
def harmonyChannels : List Text := ["commentary", "analysis", "final"].map lit

/-- `text.startsWith(literal, cursor)`. -/
def startsWith (literal rest : Text) : Bool := literal.isPrefixOf rest

def isLiteralPrefixAt (literal rest : Text) : Bool :=
  rest.length < literal.length && rest.isPrefixOf literal

/-- The length of a tool name. -/
def scanToolNameEnd (rest : Text) : Option Nat :=
  let length := (rest.takeWhile isPlainTextToolNameChar).length
  if 120 < length then none else some length

def nameCandidate (syntaxKind : JsonSyntax) (name : Span) (nameComplete : Bool) : JsonCandidate :=
  ⟨none, name, nameComplete, none, syntaxKind⟩

/-- A tool name and the character behind it, which has to be one that may follow. -/
def scanToolName (syntaxKind : JsonSyntax) (follows : UInt16 → Bool) (nameStart : Nat)
    (rest : Text) : JsonOpening :=
  match scanToolNameEnd rest with
  | none => .ended (.invalid (nameStart + 120) none)
  | some length =>
      let cursor := nameStart + length
      match rest.drop length with
      | [] =>
          .ended (.callPrefix (if length = 0 then none
            else some (nameCandidate syntaxKind ⟨nameStart, cursor⟩ false)))
      | u :: us =>
          if length = 0 ∨ follows u = false then .ended (.invalid cursor none)
          else .opened (nameCandidate syntaxKind ⟨nameStart, cursor⟩ true) cursor (u :: us)

/-- A bracketed name and what stands behind it. -/
def scanNamedBracket (lineBreakOffsets : List Nat) (nameStart : Nat) (rest : Text) : JsonOpening :=
  match scanToolName .namedBracket (· == unit ']') nameStart rest with
  | .ended scan => .ended scan
  | .opened value cursor rest =>
      let behind := rest.drop 1
      let horizontalEnd := cursor + 1 + (behind.takeWhile isHorizontal).length
      if behind.dropWhile isHorizontal = [] then .ended (.callPrefix (some value))
      else
        match consumeStructuralLineBreakAfterHorizontalWhitespace lineBreakOffsets (cursor + 1)
          behind with
        | none => .ended (.invalid horizontalEnd (some value))
        | some (afterLineBreak, rest) => .opened value afterLineBreak rest

def scanToolBracket (nameStart : Nat) (rest : Text) : JsonOpening :=
  match scanToolName .toolBracket (· == unit ']') nameStart rest with
  | .ended scan => .ended scan
  | .opened value cursor rest => .opened value (cursor + 1) (rest.drop 1)

def scanBracketOpening (lineBreakOffsets : List Nat) (start : Nat) (rest : Text) : JsonOpening :=
  let behind := rest.drop 1
  if startsWith (lit "tool:") behind then
    scanToolBracket (start + 1 + (lit "tool:").length) (behind.drop (lit "tool:").length)
  else if isLiteralPrefixAt (lit "tool:") behind then .ended (.callPrefix none)
  else scanNamedBracket lineBreakOffsets (start + 1) behind

/-- Behind the name of a Harmony header: the word `code`, and perhaps the message marker. -/
def scanHarmonyCode (value : JsonCandidate) (cursor : Nat) (rest : Text) : JsonOpening :=
  let codeStart := cursor + (rest.takeWhile isHorizontal).length
  let code := rest.dropWhile isHorizontal
  if startsWith (lit "code") code = false then
    if isLiteralPrefixAt (lit "code") code then .ended (.callPrefix (some value))
    else .ended (.invalid codeStart (some value))
  else
    let behind := code.drop (lit "code").length
    let messageStart := codeStart + (lit "code").length + (behind.takeWhile isWhitespace).length
    let message := behind.dropWhile isWhitespace
    if startsWith harmonyMessageMarker message then
      let body := message.drop harmonyMessageMarker.length
      .opened value (messageStart + harmonyMessageMarker.length +
        (body.takeWhile isWhitespace).length) (body.dropWhile isWhitespace)
    else if isLiteralPrefixAt harmonyMessageMarker message then .ended (.callPrefix (some value))
    else if message.head? = some (unit '<') then .ended (.invalid messageStart (some value))
    else .opened value messageStart message

/-- A Harmony header from its recipient on. -/
def scanHarmonyRecipient (cursor : Nat) (rest : Text) : JsonOpening :=
  if startsWith (lit "to=") rest = false then
    if isLiteralPrefixAt (lit "to=") rest then .ended (.callPrefix none)
    else .ended (.invalid cursor none)
  else
    match scanToolName .harmony isHorizontal (cursor + (lit "to=").length)
      (rest.drop (lit "to=").length) with
    | .ended scan => .ended scan
    | .opened value cursor rest => scanHarmonyCode value cursor rest

/-- A Harmony header from its channel on. -/
def scanHarmonyChannel (cursor : Nat) (rest : Text) : JsonOpening :=
  match harmonyChannels.find? (startsWith · rest) with
  | none =>
      if harmonyChannels.any (isLiteralPrefixAt · rest) then .ended (.callPrefix none)
      else .ended (.invalid cursor none)
  | some channel =>
      match rest.drop channel.length with
      | [] => .ended (.callPrefix none)
      | u :: us =>
          if isHorizontal u = false then .ended (.invalid (cursor + channel.length) none)
          else
            scanHarmonyRecipient
              (cursor + channel.length + ((u :: us).takeWhile isHorizontal).length)
              ((u :: us).dropWhile isHorizontal)

def scanHarmonyOpening (start : Nat) (rest : Text) : JsonOpening :=
  if startsWith harmonyChannelMarker rest then
    scanHarmonyChannel (start + harmonyChannelMarker.length)
      (rest.drop harmonyChannelMarker.length)
  else if isLiteralPrefixAt harmonyChannelMarker rest then .ended (.callPrefix none)
  else if rest.head? = some (unit '<') then .ended (.invalid start none)
  else scanHarmonyChannel start rest

end Opening

section Object

/-- One character of a JSON object. -/
def JsonState.step (state : JsonState) (u : UInt16) : JsonState :=
  if state.inString then
    if state.escaped then { state with escaped := false }
    else if u = 0x5C then { state with escaped := true }
    else if u = unit '"' then { state with inString := false }
    else state
  else if u = unit '"' then { state with inString := true }
  else if u = unit '\x7b' then { state with depth := state.depth + 1 }
  else if u = unit '\x7d' then { state with depth := state.depth - 1 }
  else state

structure JsonObjectScan where
  stop : Nat
  isComplete : Bool
  state : JsonState
  rest : Text
  deriving DecidableEq, Repr

/-- `scanJsonObject`, with the state before the character at the index. -/
def scanJsonObject (index : Nat) (state : JsonState) : Text → JsonObjectScan
  | [] => ⟨index, false, state, []⟩
  | u :: us =>
      if state.inString = false ∧ u = unit '\x7d' ∧ (state.step u).depth = 0 then
        ⟨index + 1, true, state.step u, us⟩
      else scanJsonObject (index + 1) (state.step u) us

end Object

section Scan

inductive Closing
  | found (length : Nat)
  | cut
  | absent
  deriving DecidableEq, Repr

/-- The first of the closing markers that the text has or may still get. -/
def scanClosings : List Text → Text → Closing
  | [], _ => .absent
  | closing :: closings, rest =>
      if startsWith closing rest then .found closing.length
      else if isLiteralPrefixAt closing rest then .cut
      else scanClosings closings rest

/-- `[/name]`, for the name the opening spells. -/
def nameClosing (name : Text) : Text := lit "[/" ++ name ++ [unit ']']

/-- Behind the JSON object: the closing marker, which only a named bracket needs. -/
def closeJsonCall (value : JsonCandidate) (name : Text) (object : JsonObjectScan) :
    PlainTextJsonToolCallScan :=
  let closingStart := object.stop + (object.rest.takeWhile isWhitespace).length
  let closing := object.rest.dropWhile isWhitespace
  let finished : JsonCandidate := { value with json := none }
  if value.syntaxKind = .namedBracket then
    if closing = [] then .callPrefix (some value)
    else
      match scanClosings [endToolRequest, nameClosing name] closing with
      | .found length => .complete finished (closingStart + length)
      | .cut => .callPrefix (some value)
      | .absent => .invalid closingStart (some value)
  else if closing = [] then .complete finished object.stop
  else
    match scanClosings [harmonyCallMarker, endToolRequest, nameClosing name] closing with
    | .found length => .complete finished (closingStart + length)
    | .cut => .callPrefix (some value)
    | .absent => .complete finished object.stop

def scanJsonOpening (lineBreakOffsets : List Nat) (start : Nat) (rest : Text) : JsonOpening :=
  if rest.head? = some (unit '[') then scanBracketOpening lineBreakOffsets start rest
  else scanHarmonyOpening start rest

/-- `scanPlainTextJsonToolCall`, with the offsets that are known to be line breaks. -/
def scanPlainTextJsonToolCall (text : Text) (start : Nat) (lineBreakOffsets : List Nat) :
    PlainTextJsonToolCallScan :=
  match scanJsonOpening lineBreakOffsets start (text.drop start) with
  | .ended scan => scan
  | .opened value cursor rest =>
      let payloadStart := cursor + (rest.takeWhile isWhitespace).length
      match rest.dropWhile isWhitespace with
      | [] => .callPrefix (some value)
      | u :: us =>
          if u ≠ unit '\x7b' then .invalid payloadStart (some value)
          else
            let object := scanJsonObject payloadStart ⟨0, false, false⟩ (u :: us)
            let candidate : JsonCandidate := { value with
              json := some object.state
              payload := some ⟨payloadStart, object.stop⟩ }
            if object.isComplete then
              closeJsonCall candidate ((text.take value.name.stop).drop value.name.start) object
            else .callPrefix (some candidate)

end Scan

end OpenClaw.ToolCallRepair
