import OpenClaw.Lib.JsUnits

/-!
Shell words. A scan over the units of a command knows in which quotes it stands: one scan
collects the words, another looks for a control operator outside of quotes. A word is rendered
as it is if it is made of plain units, and else in single quotes.
-/

namespace OpenClaw.Shell

open JsUnits

def singleQuote : UInt16 := 0x27
def doubleQuote : UInt16 := 0x22
def backslash : UInt16 := 0x5C
def numberSign : UInt16 := 0x23
def ampersand : UInt16 := 0x26

/-- Where a scan stands. Behind a backslash that escapes in double quotes it is at `doubleEscape`. -/
inductive Quoting
  | plain
  | escaped
  | single
  | double
  | doubleEscape
  deriving DecidableEq, Repr

/-- The units of `\\`, `"`, `$`, a backtick and the line breaks. -/
def DOUBLE_QUOTE_ESCAPES : Text :=
  [backslash, doubleQuote, 0x24, 0x60, lineFeed, carriageReturn]

/-- The units of `;`, `&`, `|` and the line breaks. -/
def controlOperators : Text := [0x3B, ampersand, 0x7C, lineFeed, carriageReturn]

/-- The next unit is one that a backslash escapes in double quotes. -/
def isDoubleQuoteEscape (next : Option UInt16) : Bool :=
  next.any DOUBLE_QUOTE_ESCAPES.contains

def controlOperatorFrom : Text → Quoting → (wordStart : Bool) → (previous : Option UInt16) → Bool
  | [], _, _, _ => false
  | ch :: rest, .escaped, _, _ => controlOperatorFrom rest .plain false (some ch)
  | ch :: rest, .single, wordStart, _ =>
      controlOperatorFrom rest (if ch = singleQuote then .plain else .single) wordStart (some ch)
  | ch :: rest, .double, wordStart, _ =>
      if ch = backslash ∧ isDoubleQuoteEscape rest.head? then
        controlOperatorFrom rest .doubleEscape wordStart (some ch)
      else controlOperatorFrom rest (if ch = doubleQuote then .plain else .double) wordStart (some ch)
  | ch :: rest, .doubleEscape, wordStart, _ => controlOperatorFrom rest .double wordStart (some ch)
  | ch :: rest, .plain, wordStart, previous =>
      if ch = backslash then controlOperatorFrom rest .escaped wordStart (some ch)
      else if ch = singleQuote then controlOperatorFrom rest .single false (some ch)
      else if ch = doubleQuote then controlOperatorFrom rest .double false (some ch)
      else if ch = numberSign ∧ wordStart then
        rest.any fun unit => unit == carriageReturn || unit == lineFeed
      else if ch = ampersand ∧ (previous = some 0x3E ∨ previous = some 0x3C) then
        controlOperatorFrom rest .plain false (some ch)
      else if ch ∈ controlOperators then true
      else controlOperatorFrom rest .plain (isWhitespace ch) (some ch)

def hasTopLevelShellControlOperator (raw : Text) : Bool :=
  controlOperatorFrom raw .plain true none

/-- `pushToken`: an empty word is not collected. -/
def pushToken (tokens : List Text) (buf : Text) : List Text :=
  if 0 < buf.length then tokens ++ [buf] else tokens

def splitFrom : Text → Quoting → (tokens : List Text) → (buf : Text) → Option (List Text)
  | [], .plain, tokens, buf => some (pushToken tokens buf)
  | [], _, _, _ => none
  | ch :: rest, .escaped, tokens, buf => splitFrom rest .plain tokens (buf ++ [ch])
  | ch :: rest, .single, tokens, buf =>
      if ch = singleQuote then splitFrom rest .plain tokens buf
      else splitFrom rest .single tokens (buf ++ [ch])
  | ch :: rest, .double, tokens, buf =>
      if ch = backslash ∧ isDoubleQuoteEscape rest.head? then splitFrom rest .doubleEscape tokens buf
      else if ch = doubleQuote then splitFrom rest .plain tokens buf
      else splitFrom rest .double tokens (buf ++ [ch])
  | ch :: rest, .doubleEscape, tokens, buf => splitFrom rest .double tokens (buf ++ [ch])
  | ch :: rest, .plain, tokens, buf =>
      if ch = backslash then splitFrom rest .escaped tokens buf
      else if ch = singleQuote then splitFrom rest .single tokens buf
      else if ch = doubleQuote then splitFrom rest .double tokens buf
      -- A comment begins where no word does.
      else if ch = numberSign ∧ buf.length = 0 then some (pushToken tokens buf)
      else if isWhitespace ch then splitFrom rest .plain (pushToken tokens buf) []
      else splitFrom rest .plain tokens (buf ++ [ch])

def splitShellArgs (raw : Text) : Option (List Text) := splitFrom raw .plain [] []

/-- The units of `_`, `@`, `%`, `+`, `=`, `:`, `,`, `.`, `/` and the hyphen. -/
def bareShellMarks : Text := [0x5F, 0x40, 0x25, 0x2B, 0x3D, 0x3A, 0x2C, 0x2E, 0x2F, 0x2D]

/-- The units of `SHELL_BARE_TOKEN_PATTERN`. -/
def isBareShellUnit (unit : UInt16) : Bool :=
  (0x41 ≤ unit.toNat && unit.toNat ≤ 0x5A) || (0x61 ≤ unit.toNat && unit.toNat ≤ 0x7A) ||
    (0x30 ≤ unit.toNat && unit.toNat ≤ 0x39) || bareShellMarks.contains unit

def singleQuoteEscape : Text := [singleQuote, doubleQuote, singleQuote, doubleQuote, singleQuote]

/-- The units of a value between single quotes. -/
def escapeSingleQuotes (value : Text) : Text :=
  value.flatMap fun unit => if unit = singleQuote then singleQuoteEscape else [unit]

def shellEscapeSingleArg (value : Text) : Text :=
  [singleQuote] ++ escapeSingleQuotes value ++ [singleQuote]

def renderBareShellToken (value : Text) : Text :=
  if 0 < value.length ∧ value.all isBareShellUnit then value else shellEscapeSingleArg value

def renderSourcePreservingArgv (argv : List Text) : Text :=
  List.intercalate [space] (argv.map renderBareShellToken)

end OpenClaw.Shell

/-!
Splitting what was rendered. Each rendered word is read back as its units, whatever stands
behind it, and no control operator stands outside of its quotes; only an empty word, rendered
as a pair of quotes, is not collected again.
-/

namespace OpenClaw.Shell

open JsUnits

variable {value rest buf : Text} {tokens : List Text} {wordStart : Bool} {previous : Option UInt16}

theorem isBareShellUnit_range {unit : UInt16} (bare : isBareShellUnit unit = true) :
    0x25 ≤ unit.toNat ∧ unit.toNat ≤ 0x7A := by
  have listed : (bareShellMarks.all fun mark => 0x25 ≤ mark.toNat && mark.toNat ≤ 0x7A) = true := rfl
  simp only [isBareShellUnit, Bool.or_eq_true, Bool.and_eq_true, decide_eq_true_eq,
    List.contains_iff_mem] at bare
  rcases bare with ((letter | letter) | digit) | mark
  · omega
  · omega
  · omega
  · simpa using List.all_eq_true.mp listed unit mark

theorem isBareShellUnit_plain {unit : UInt16} (bare : isBareShellUnit unit = true) :
    unit ≠ backslash ∧ unit ≠ singleQuote ∧ unit ≠ doubleQuote ∧ unit ≠ numberSign ∧
      unit ≠ ampersand ∧ isWhitespace unit = false ∧ unit ∉ controlOperators := by
  have never : ∀ {other : UInt16}, isBareShellUnit other = false → unit ≠ other := by
    rintro _ special rfl
    rw [special] at bare
    cases bare
  have operators : (controlOperators.all fun operator => !isBareShellUnit operator) = true := rfl
  obtain ⟨low, high⟩ := isBareShellUnit_range bare
  refine ⟨never (by decide), never (by decide), never (by decide), never (by decide),
    never (by decide), ?_, fun operator => never ?_ rfl⟩
  · rw [Bool.eq_false_iff]
    intro blank
    simp [isWhitespace] at blank
    omega
  · simpa using List.all_eq_true.mp operators unit operator

theorem splitFrom_bare (bare : value.all isBareShellUnit = true) :
    splitFrom (value ++ rest) .plain tokens buf = splitFrom rest .plain tokens (buf ++ value) := by
  induction value generalizing buf with
  | nil => rw [List.nil_append, List.append_nil]
  | cons unit units ih =>
      rw [List.all_cons, Bool.and_eq_true] at bare
      obtain ⟨escape, single, double, comment, _, space, _⟩ := isBareShellUnit_plain bare.1
      rw [List.cons_append, splitFrom, if_neg escape, if_neg single, if_neg double,
        if_neg (fun both => comment both.1), space, if_neg (by decide), ih bare.2]
      rw [List.append_assoc, List.singleton_append]

/-- A quote between single quotes is written between double quotes. -/
theorem splitFrom_singleQuoteEscape :
    splitFrom (singleQuoteEscape ++ rest) .single tokens buf =
      splitFrom rest .single tokens (buf ++ [singleQuote]) := rfl

theorem splitFrom_single :
    splitFrom (escapeSingleQuotes value ++ singleQuote :: rest) .single tokens buf =
      splitFrom rest .plain tokens (buf ++ value) := by
  induction value generalizing buf with
  | nil => rw [escapeSingleQuotes, List.flatMap_nil, List.nil_append, splitFrom, if_pos rfl,
      List.append_nil]
  | cons unit units ih =>
      rw [escapeSingleQuotes, List.flatMap_cons, ← escapeSingleQuotes]
      split
      case isTrue quote =>
        rw [List.append_assoc, splitFrom_singleQuoteEscape, ih, quote, List.append_assoc,
          List.singleton_append]
      case isFalse plain =>
        rw [List.singleton_append, List.cons_append, splitFrom, if_neg plain, ih, List.append_assoc,
          List.singleton_append]

/-- A rendered word is read back. -/
theorem splitFrom_renderBareShellToken :
    splitFrom (renderBareShellToken value ++ rest) .plain tokens [] =
      splitFrom rest .plain tokens value := by
  unfold renderBareShellToken
  split
  case isTrue bare =>
    rw [splitFrom_bare bare.2, List.nil_append]
  case isFalse =>
    have opened : shellEscapeSingleArg value ++ rest =
        singleQuote :: (escapeSingleQuotes value ++ singleQuote :: rest) := by
      simp [shellEscapeSingleArg]
    rw [opened, splitFrom, if_neg (by decide), if_pos rfl, splitFrom_single, List.nil_append]

theorem renderSourcePreservingArgv_cons (value next : Text) (argv : List Text) :
    renderSourcePreservingArgv (value :: next :: argv) =
      renderBareShellToken value ++ space :: renderSourcePreservingArgv (next :: argv) := by
  simp [renderSourcePreservingArgv, List.intercalate]

theorem pushToken_eq (tokens : List Text) (value : Text) :
    pushToken tokens value = tokens ++ [value].filter (· ≠ []) := by
  cases value with
  | nil => simp [pushToken]
  | cons => simp [pushToken]

theorem splitFrom_render (argv : List Text) :
    splitFrom (renderSourcePreservingArgv argv) .plain tokens [] =
      some (tokens ++ argv.filter (· ≠ [])) := by
  induction argv generalizing tokens with
  | nil => simp [renderSourcePreservingArgv, splitFrom, pushToken]
  | cons value argv ih =>
      cases argv with
      | nil =>
          have alone : renderSourcePreservingArgv [value] = renderBareShellToken value ++ [] := by
            simp [renderSourcePreservingArgv]
          rw [alone, splitFrom_renderBareShellToken, splitFrom, pushToken_eq]
      | cons next argv =>
          rw [renderSourcePreservingArgv_cons, splitFrom_renderBareShellToken, splitFrom,
            if_neg (by decide), if_neg (by decide), if_neg (by decide),
            if_neg (fun both => absurd both.1 (by decide)), if_pos (by decide), ih, pushToken_eq, List.append_assoc, ← List.filter_append,
            List.singleton_append]

/-- Splitting reads back the words that are not empty. -/
theorem splitShellArgs_render (argv : List Text) :
    splitShellArgs (renderSourcePreservingArgv argv) = some (argv.filter (· ≠ [])) := by
  rw [splitShellArgs, splitFrom_render, List.nil_append]

theorem controlOperatorFrom_bare (bare : value.all isBareShellUnit = true)
    (after : ∀ wordStart previous, controlOperatorFrom rest .plain wordStart previous = false) :
    controlOperatorFrom (value ++ rest) .plain wordStart previous = false := by
  induction value generalizing wordStart previous with
  | nil => exact after _ _
  | cons unit units ih =>
      rw [List.all_cons, Bool.and_eq_true] at bare
      obtain ⟨escape, single, double, comment, and_, _, operator⟩ := isBareShellUnit_plain bare.1
      rw [List.cons_append, controlOperatorFrom, if_neg escape, if_neg single, if_neg double,
        if_neg (fun both => comment both.1), if_neg (fun both => and_ both.1), if_neg operator]
      exact ih bare.2

theorem controlOperatorFrom_single
    (after : ∀ wordStart previous, controlOperatorFrom rest .plain wordStart previous = false) :
    controlOperatorFrom (escapeSingleQuotes value ++ singleQuote :: rest) .single wordStart previous =
      false := by
  induction value generalizing wordStart previous with
  | nil =>
      rw [escapeSingleQuotes, List.flatMap_nil, List.nil_append, controlOperatorFrom, if_pos rfl]
      exact after _ _
  | cons unit units ih =>
      rw [escapeSingleQuotes, List.flatMap_cons, ← escapeSingleQuotes]
      split
      case isTrue =>
        have escaped : controlOperatorFrom (singleQuoteEscape ++
            (escapeSingleQuotes units ++ singleQuote :: rest)) .single wordStart previous =
          controlOperatorFrom (escapeSingleQuotes units ++ singleQuote :: rest) .single false
            (some singleQuote) := rfl
        rw [List.append_assoc, escaped]
        exact ih
      case isFalse plain =>
        rw [List.singleton_append, List.cons_append, controlOperatorFrom, if_neg plain]
        exact ih

theorem controlOperatorFrom_renderBareShellToken
    (after : ∀ wordStart previous, controlOperatorFrom rest .plain wordStart previous = false) :
    controlOperatorFrom (renderBareShellToken value ++ rest) .plain wordStart previous = false := by
  unfold renderBareShellToken
  split
  case isTrue bare => exact controlOperatorFrom_bare bare.2 after
  case isFalse =>
    have opened : shellEscapeSingleArg value ++ rest =
        singleQuote :: (escapeSingleQuotes value ++ singleQuote :: rest) := by
      simp [shellEscapeSingleArg]
    rw [opened, controlOperatorFrom, if_neg (by decide), if_pos rfl]
    exact controlOperatorFrom_single after

theorem controlOperatorFrom_render (argv : List Text) :
    controlOperatorFrom (renderSourcePreservingArgv argv) .plain wordStart previous = false := by
  induction argv generalizing wordStart previous with
  | nil => rfl
  | cons value argv ih =>
      cases argv with
      | nil =>
          have alone : renderSourcePreservingArgv [value] = renderBareShellToken value ++ [] := by
            simp [renderSourcePreservingArgv]
          rw [alone]
          exact controlOperatorFrom_renderBareShellToken fun _ _ => rfl
      | cons next argv =>
          rw [renderSourcePreservingArgv_cons]
          refine controlOperatorFrom_renderBareShellToken fun _ _ => ?_
          rw [controlOperatorFrom, if_neg (by decide), if_neg (by decide), if_neg (by decide),
            if_neg (fun both => absurd both.1 (by decide)),
            if_neg (fun both => absurd both.1 (by decide)), if_neg (by decide)]
          exact ih

/-- Rendered words are split into themselves, and no operator is found in them, exactly if no
word is empty. -/
theorem split_inverts_quoting_iff (argv : List Text) :
    (splitShellArgs (renderSourcePreservingArgv argv) = some argv ∧
        hasTopLevelShellControlOperator (renderSourcePreservingArgv argv) = false) ↔
      [] ∉ argv := by
  rw [splitShellArgs_render, hasTopLevelShellControlOperator, controlOperatorFrom_render]
  simp only [Option.some.injEq, and_true, List.filter_eq_self, decide_eq_true_eq]
  exact ⟨fun every mem => every [] mem rfl, fun none_ value mem same => none_ (same ▸ mem)⟩

/-- An empty word is lost. -/
theorem not_split_inverts_quoting :
    splitShellArgs (renderSourcePreservingArgv [lit "printf", [], lit "a"]) ≠
      some [lit "printf", [], lit "a"] := by
  decide

end OpenClaw.Shell
