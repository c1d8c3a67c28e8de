import OpenClaw.OcPath.Segments
import OpenClaw.Lib.Fallible

/-!
Parsing and formatting of `oc://` paths. Segments of a deep JSON path are folded into
the section, so a parsed path has at most a file and three slots. Canonical composition
is given by a normalization, which leaves the units of the path grammar alone.
-/

namespace OpenClaw.OcPaths

open JsUnits NormalizationCore

def GRAMMAR_UNITS : List UInt16 :=
  [unit '/', unit '.', unit '"', unit '[', unit ']', unit '{', unit '}', unit '?', unit '&',
    unit '%', unit '\\']

/-- The units of the grammar and the control characters. -/
def isGrammarUnit (u : UInt16) : Bool := u ∈ GRAMMAR_UNITS || isControlChar u

/-- `normalize("NFC")`. Units of the grammar take part in no composition, no other character
is normalized to one of them, and white space stays white space. -/
structure Normalization where
  nfc : Text → Text
  idempotent : ∀ text, nfc (nfc text) = nfc text
  ascii : ∀ text, (∀ u ∈ text, u.toNat < 0x80) → nfc text = text
  inert : ∀ before u after, isGrammarUnit u = true →
    nfc (before ++ u :: after) = nfc before ++ u :: nfc after
  plain : ∀ text, (∀ u ∈ text, isGrammarUnit u = false) → ∀ u ∈ nfc text, isGrammarUnit u = false
  blank : ∀ text, (nfc text).any isWhitespace = text.any isWhitespace
  occupied : ∀ text, text ≠ [] → nfc text ≠ []

/-- `Buffer.byteLength(text, "utf8")`: an unpaired surrogate takes three bytes. -/
def byteLength : Text → Nat
  | [] => 0
  | [u] => if u.toNat < 0x80 then 1 else if u.toNat < 0x800 then 2 else 3
  | u :: v :: rest =>
      if isHighSurrogate u && isLowSurrogate v then 4 + byteLength rest
      else (if u.toNat < 0x80 then 1 else if u.toNat < 0x800 then 2 else 3) + byteLength (v :: rest)

def OC_SCHEME : Text := lit "oc://"
def MAX_PATH_LENGTH : Nat := 4096
def MAX_SUB_SEGMENTS_PER_SLOT : Nat := 64
def MAX_TRAVERSAL_DEPTH : Nat := 256
def BOM : UInt16 := 0xFEFF
def REDACTED_SENTINEL : Text := lit "__OPENCLAW_REDACTED__"

def decimal (n : Nat) : Text := lit (toString n)

structure OcPath where
  file : Text
  section_ : Option Text := none
  item : Option Text := none
  field : Option Text := none
  session : Option Text := none
  deriving DecidableEq

/-- `toLowerCase` on the letters of `.jsonc`, which no other character is lowered to. -/
def asciiLower (u : UInt16) : UInt16 := if 0x41 ≤ u.toNat ∧ u.toNat ≤ 0x5A then u + 0x20 else u

def isJsonPathFile (file : Text) : Bool :=
  lit ".json" <:+ file.map asciiLower || lit ".jsonc" <:+ file.map asciiLower

/-- The path segments of a deep JSON path, behind its file. -/
def normalizeDeepJsonPathSegments (fileSeg : Text) (pathSegments : List Text) (file input : Text) :
    Except Thrown (List Text) := do
  if pathSegments.length ≤ 3 || !isJsonPathFile file then return fileSeg :: pathSegments
  if pathSegments.length > MAX_TRAVERSAL_DEPTH then
    throw (.path (lit "JSON oc:// path exceeds " ++ decimal MAX_TRAVERSAL_DEPTH ++
      lit " nested segments: " ++ printable input) input .tooDeep)
  let head := pathSegments.take (pathSegments.length - 2)
  let section_ := (lit ".").intercalate head
  return fileSeg :: section_ :: pathSegments.drop (pathSegments.length - 2)

/-- The pairs of a query, up to the first session. -/
def sessionOf (input : Text) : List Text → Except Thrown (Option Text)
  | [] => .ok none
  | pair :: rest =>
      let key := pair.takeWhile (· ≠ unit '=')
      let value := (pair.dropWhile (· ≠ unit '=')).tail
      if unit '=' ∉ pair then sessionOf input rest
      else if key = lit "session" ∧ value.length > 0 then do
        validateSessionSlot value input
        return some value
      else sessionOf input rest

def extractSession (queryPart input : Text) : Except Thrown (Option Text) :=
  if queryPart.length = 0 then .ok none else sessionOf input (queryPart.splitOn (unit '&'))

/-- The checks of one segment and of its dotted sub-segments. -/
def validateSegment (input seg : Text) : Except Thrown Unit := do
  validateBrackets seg input
  let subs ← splitRespectingBrackets seg (unit '.') (some input)
  if subs.length > MAX_SUB_SEGMENTS_PER_SLOT then
    throw (.path (lit "Sub-segment count exceeds " ++ decimal MAX_SUB_SEGMENTS_PER_SLOT ++
      lit " in segment \"" ++ seg ++ lit "\": " ++ printable input) input .tooDeep)
  subs.forM fun sub => validateSubSegment sub input

def tooLong (message : Text) (bytes : Nat) (text : Text) : Thrown :=
  .path (lit "oc:// path exceeds " ++ decimal MAX_PATH_LENGTH ++ message ++ decimal bytes ++ lit ")")
    (truncateUtf16Safe text 80 ++ lit "…") .tooLong

variable (N : Normalization)

def parseOcPath (input : Text) : Except Thrown OcPath := do
  if byteLength input > MAX_PATH_LENGTH then
    throw (tooLong (lit " bytes (length: ") (byteLength input) input)
  let normalized := N.nfc (if input.head? = some BOM then input.tail else input)
  if byteLength normalized > MAX_PATH_LENGTH then
    throw (tooLong (lit " bytes after NFC (length: ") (byteLength normalized) input)
  if ¬ OC_SCHEME <+: normalized then
    throw (.path (lit "Missing oc:// scheme: " ++ printable input) input .missingScheme)
  if hasControlChar normalized then
    throw (.path (lit "Control character in oc:// path: " ++ printable input) input .controlChar)
  let afterScheme := normalized.drop OC_SCHEME.length
  let queryIndex ← indexOfTopLevel afterScheme (unit '?')
  let pathPart := match queryIndex with
    | none => afterScheme
    | some index => afterScheme.take index
  let queryPart := match queryIndex with
    | none => []
    | some index => afterScheme.drop (index + 1)
  if pathPart.length = 0 then
    throw (.path (lit "Empty oc:// path: " ++ printable input) input .empty)
  let rawSegments ← splitRespectingBrackets pathPart (unit '/') (some input)
  if rawSegments.any (·.length = 0) then
    throw (.path (lit "Empty segment in oc:// path: " ++ printable input) input .emptySegment)
  let fileSeg := rawSegments.headD []
  let file := if isQuotedSeg fileSeg then unquoteSeg fileSeg else fileSeg
  validateFileSlot file input
  let segments ← normalizeDeepJsonPathSegments fileSeg rawSegments.tail file input
  if segments.length > 4 then
    throw (.path (lit "Too many segments in oc:// path (max 4): " ++ printable input) input .tooDeep)
  segments.forM (validateSegment input)
  let session ← extractSession queryPart input
  return {
    file
    section_ := segments[1]?
    item := segments[2]?
    field := segments[3]?
    session }

/-- A quoted, bracketed or braced sub-segment is written as it is. -/
def isStructural (sub : Text) : Bool :=
  isQuotedSeg sub || (startsWith sub (unit '[') && endsWith sub (unit ']')) ||
    (startsWith sub (unit '{') && endsWith sub (unit '}'))

def formatSubSegment (sub : Text) : Except Thrown Text :=
  if isStructural sub then .ok sub else quoteSeg sub

def validateSubForFormat (file sub slotName : Text) : Except Thrown Unit := do
  if sub.length = 0 then
    throw (.path (lit "Empty dotted sub-segment in OcPath." ++ slotName) file .emptySubSegment)
  if hasControlChar sub then
    throw (.path (lit "Control character in OcPath." ++ slotName ++ lit " sub-segment \"" ++
      printable sub ++ lit "\"") file .controlChar)

def formatSlot (file slot slotName : Text) : Except Thrown Text := do
  let subs ← splitRespectingBrackets slot (unit '.')
  subs.forM fun sub => validateSubForFormat file sub slotName
  let formatted ← subs.mapM formatSubSegment
  return (lit ".").intercalate formatted

/-- An optional slot behind its slash. -/
def formatOptionalSlot (file : Text) (slot : Option Text) (slotName : Text) : Except Thrown Text :=
  match slot with
  | none => .ok []
  | some slot => do
      let formatted ← formatSlot file slot slotName
      return lit "/" ++ formatted

/-- `fileNeedsQuote`: the class `[/[\]{}?&%"\s]`. -/
def fileNeedsQuote (file : Text) : Bool :=
  file.any fun u => u ∈ [unit '/', unit '[', unit ']', unit '{', unit '}', unit '?', unit '&',
    unit '%', unit '"'] || isWhitespace u

/-- Dots are normal in a file, so fewer characters quote it than a sub-segment. -/
def formatFile (file : Text) : Except Thrown Text :=
  if fileNeedsQuote file then quoteSeg file else .ok file

def formatQuery (file : Text) : Option Text → Except Thrown Text
  | none => .ok []
  | some session => do
      validateSessionSlot session file
      return lit "?session=" ++ session

/-- The formatted string, before it is measured. -/
def composeOcPath (path : OcPath) : Except Thrown Text := do
  if path.file.length = 0 then
    throw (.path (lit "oc:// path requires a file") [] .fileRequired)
  validateFileSlot path.file path.file
  if path.item.isSome && path.section_.isNone then
    throw (.path (lit "Structural nesting violation: item requires section") path.file .nesting)
  if path.field.isSome && path.item.isNone then
    throw (.path (lit "Structural nesting violation: field requires item") path.file .nesting)
  let formattedFile ← formatFile path.file
  let section_ ← formatOptionalSlot path.file path.section_ (lit "section")
  let item ← formatOptionalSlot path.file path.item (lit "item")
  let field ← formatOptionalSlot path.file path.field (lit "field")
  let query ← formatQuery path.file path.session
  return OC_SCHEME ++ formattedFile ++ section_ ++ item ++ field ++ query

def formatOcPath (path : OcPath) : Except Thrown Text := do
  let out ← composeOcPath path
  if byteLength out > MAX_PATH_LENGTH then
    throw (.path (lit "Formatted oc:// exceeds " ++ decimal MAX_PATH_LENGTH ++
      lit " bytes (length: " ++ decimal (byteLength out) ++ lit ")")
      (truncateUtf16Safe out 80 ++ lit "…") .tooLong)
  if REDACTED_SENTINEL <:+: out then throw (.emitSentinel out)
  return out

end OpenClaw.OcPaths

/-!
What the checks of a path accept. Whether a check passes depends on the text it reads and
not on the string it reports, so accepted sub-segments and segments are predicates; what is
known of an accepted path is collected from its checks.
-/

namespace OpenClaw.OcPaths

open JsUnits

variable {sub seg file input slot : Text} {u : Unit}

/-- The checks of an unquoted sub-segment. -/
structure UnquotedOk (sub : Text) : Prop where
  reserved : ¬ (!startsWith sub (unit '[') && !startsWith sub (unit '{') &&
    sub.any isReservedChar) = true
  blank : ¬ (!startsWith sub (unit '[') && !startsWith sub (unit '{') &&
    sub.any isWhitespace) = true
  brackets : ¬ startsWith sub (unit '[') ≠ endsWith sub (unit ']')
  literal : ¬ (startsWith sub (unit '[') && endsWith sub (unit ']') &&
    (inner sub).length = 0) = true
  predicate : ¬ (startsWith sub (unit '[') && endsWith sub (unit ']') &&
    PREDICATE_OPS.any (fun op => op <:+: inner sub) &&
    (parsePredicateSeg sub).all fun parsed => parsed.key.length = 0 || parsed.value.length = 0) =
      true
  braces : ¬ startsWith sub (unit '{') ≠ endsWith sub (unit '}')
  alternative : ¬ (startsWith sub (unit '{') && endsWith sub (unit '}') &&
    (inner sub).length = 0) = true
  alternatives : ¬ (startsWith sub (unit '{') && endsWith sub (unit '}') &&
    ((inner sub).splitOn (unit ',')).any (·.length = 0)) = true

theorem validateUnquoted_eq_ok : validateUnquoted sub input = .ok u ↔ UnquotedOk sub := by
  simp only [validateUnquoted, ↓Fallible.check_eq_ok, ↓Fallible.last_check_eq_ok]
  exact ⟨fun ⟨a, b, c, d, e, f, g, h⟩ => ⟨a, b, c, d, e, f, g, h⟩,
    fun ⟨a, b, c, d, e, f, g, h⟩ => ⟨a, b, c, d, e, f, g, h⟩⟩

structure SubOk (sub : Text) : Prop where
  occupied : sub ≠ []
  control : hasControlChar sub = false
  content : isQuotedSeg sub = true → isUnquotable (inner sub) = false
  unquoted : isQuotedSeg sub = false → UnquotedOk sub

theorem validateSubSegment_eq_ok : validateSubSegment sub input = .ok u ↔ SubOk sub := by
  simp only [validateSubSegment, ↓Fallible.check_eq_ok, List.length_eq_zero_iff, Bool.not_eq_true]
  cases quoted : isQuotedSeg sub with
  | true =>
      simp only [if_true, Fallible.last_check_eq_ok, Bool.not_eq_true]
      exact ⟨fun ⟨occupied, control, content⟩ => ⟨occupied, control, fun _ => content,
        fun not => absurd (quoted.symm.trans not) (by decide)⟩,
        fun ok => ⟨ok.occupied, ok.control, ok.content quoted⟩⟩
  | false =>
      simp only [Bool.false_eq_true, if_false, validateUnquoted_eq_ok]
      exact ⟨fun ⟨occupied, control, unquoted⟩ => ⟨occupied, control,
        fun is => absurd (quoted.symm.trans is) (by decide), fun _ => unquoted⟩,
        fun ok => ⟨ok.occupied, ok.control, ok.unquoted quoted⟩⟩

/-- The sub-segments of a segment or slot. -/
structure SegmentOk (seg : Text) : Prop where
  split : ∃ subs, splitFrom (unit '.') {} [] seg = some subs ∧
    subs.length ≤ MAX_SUB_SEGMENTS_PER_SLOT ∧ ∀ sub ∈ subs, SubOk sub

theorem splitRespectingBrackets_eq_ok {delim : UInt16} {original : Option Text}
    {pieces : List Text} : splitRespectingBrackets seg delim original = .ok pieces ↔
      splitFrom delim {} [] seg = some pieces := by
  unfold splitRespectingBrackets
  cases splitFrom delim {} [] seg <;> simp

/-- A text that can be split is balanced. -/
theorem isBalanced_of_split {delim : UInt16} (plain : isRegionUnit delim = false)
    {pieces : List Text} (split : splitFrom delim {} [] seg = some pieces) :
    isBalanced seg = true := by
  obtain ⟨first, rest, rfl, piece, pieces, rfl⟩ := (splitFrom_eq_some_iff plain).mp split
  have none : ∀ d ∈ ([] : List UInt16), d ∈ [delim] := fun _ mem => absurd mem List.not_mem_nil
  have tail : IsPiece [] (rest.flatMap (delim :: ·)) := by
    clear split
    induction rest with
    | nil => rfl
    | cons r rs ih =>
        obtain ⟨here, there⟩ := List.forall_mem_cons.mp pieces
        have delimited : IsPiece [] (delim :: r) := by
          simp only [IsPiece, isPieceFrom, next_plain_self plain, List.not_mem_nil, decide_false,
            Bool.and_false, Bool.not_false, Bool.true_and]
          exact isPieceFrom_mono none here
        exact delimited.append (ih there)
  exact IsPiece.append (isPieceFrom_mono none piece) tail

theorem validateSegment_eq_ok : validateSegment input seg = .ok u ↔ SegmentOk seg := by
  simp only [validateSegment, Fallible.bind_eq_ok, ↓Fallible.check_eq_ok,
    splitRespectingBrackets_eq_ok, Fallible.forM_eq_ok, validateSubSegment_eq_ok, not_lt,
    validateBrackets, Fallible.last_check_eq_ok]
  refine ⟨fun ⟨_, _, subs, split, few, all⟩ => ⟨subs, split, few, all⟩,
    fun ⟨subs, split, few, all⟩ => ⟨(), ?_, subs, split, few, all⟩⟩
  simp [isBalanced_of_split (by decide) split]

/-- The checks of a file slot. -/
structure FileOk (file : Text) : Prop where
  relative : isAbsoluteFile file = false
  inside : hasParentSegment file = false
  control : hasControlChar file = false

theorem validateFileSlot_eq_ok : validateFileSlot file input = .ok u ↔ FileOk file := by
  simp only [validateFileSlot, ↓Fallible.check_eq_ok, Fallible.last_check_eq_ok, Bool.not_eq_true]
  exact ⟨fun ⟨a, b, c⟩ => ⟨a, b, c⟩, fun ⟨a, b, c⟩ => ⟨a, b, c⟩⟩

structure SessionOk (session : Text) : Prop where
  control : hasControlChar session = false
  reserved : session.any isReservedChar = false

theorem validateSessionSlot_eq_ok : validateSessionSlot sub input = .ok u ↔ SessionOk sub := by
  simp only [validateSessionSlot, ↓Fallible.check_eq_ok, Fallible.last_check_eq_ok,
    Bool.not_eq_true]
  exact ⟨fun ⟨a, b⟩ => ⟨a, b⟩, fun ⟨a, b⟩ => ⟨a, b⟩⟩

end OpenClaw.OcPaths
