import OpenClaw.Lib.JsUnits

/-!
The quote-aware scanner for provider reasoning tags. A tag is read from its opening
angle bracket; while more text may follow, a tag that could still be completed is
pending and ends the scan. Indices count UTF-16 code units of the scanned text.
-/

namespace OpenClaw.ReasoningTags

open JsUnits

def lessThan : UInt16 := unit '<'
def greaterThan : UInt16 := unit '>'
def slash : UInt16 := unit '/'
def doubleQuote : UInt16 := unit '"'
def singleQuote : UInt16 := 0x27

/-- `REASONING_TAG_NAMES`. -/
def reasoningTagNames : List Text :=
  ["think", "thinking", "thought", "reasoning", "internal", "antthinking", "antml:think",
    "antml:thinking", "antml:thought", "antml:reasoning", "mm:think", "mm:thinking",
    "mm:thought", "mm:reasoning"].map lit

def isTagNameCharacter (u : UInt16) : Bool :=
  (0x30 ≤ u.toNat && u.toNat ≤ 0x39) || (0x41 ≤ u.toNat && u.toNat ≤ 0x5A) ||
    (0x61 ≤ u.toNat && u.toNat ≤ 0x7A) || u.toNat == 0x3A

/-- `toLowerCase` on the characters of a tag name. -/
def toLowerCase (u : UInt16) : UInt16 :=
  if 0x41 ≤ u.toNat ∧ u.toNat ≤ 0x5A then u + 0x20 else u

def skipTagWhitespace (text : Text) : Text := text.dropWhile isWhitespace

/-- What a complete tag is, apart from where it stands. -/
structure TagShape where
  length : Nat
  isClose : Bool
  isSelfClosing : Bool
  isPrivate : Bool
  deriving DecidableEq, Repr

inductive ParsedReasoningTag
  | tag (shape : TagShape)
  | pending
  | invalid
  deriving DecidableEq, Repr

inductive AttributeScan
  | closed (length : Nat) (afterSlash : Bool)
  | nested
  | unfinished
  deriving DecidableEq, Repr

/-- The loop over the text behind a tag name, with the open quote and whether the last
significant character was a slash. -/
def scanAttributes : Option UInt16 → Bool → Nat → Text → AttributeScan
  | _, _, _, [] => .unfinished
  | some quote, afterSlash, length, u :: us =>
      scanAttributes (if u = quote then none else some quote) afterSlash (length + 1) us
  | none, afterSlash, length, u :: us =>
      if u = doubleQuote ∨ u = singleQuote then
        scanAttributes (some u) afterSlash (length + 1) us
      else if u = lessThan then .nested
      else if u = greaterThan then .closed (length + 1) afterSlash
      else scanAttributes none (if isWhitespace u then afterSlash else u == slash) (length + 1) us

/-- Behind the name: the boundary character, then the attributes. -/
def parseTagRest (final : Bool) (consumed : Nat) (isClose : Bool) (name rest : Text) :
    ParsedReasoningTag :=
  match rest with
  | [] => if final then .invalid else .pending
  | boundary :: _ =>
      if !isWhitespace boundary && boundary != slash && boundary != greaterThan then .invalid
      else
        match scanAttributes none false 0 rest with
        | .closed length afterSlash =>
            .tag ⟨consumed + length, isClose, !isClose && afterSlash, name == lit "internal"⟩
        | .nested => .invalid
        | .unfinished => if final then .invalid else .pending

/-- `parseReasoningTagAt` on the text from its opening angle bracket on. -/
def parseReasoningTagAt (final : Bool) (text : Text) : ParsedReasoningTag :=
  let opened := skipTagWhitespace (text.drop 1)
  let isClose := opened.head? == some slash
  let named := if isClose then skipTagWhitespace (opened.drop 1) else opened
  let name := (named.takeWhile isTagNameCharacter).map toLowerCase
  let rest := named.dropWhile isTagNameCharacter
  if name = [] then if rest.isEmpty && !final then .pending else .invalid
  else if !reasoningTagNames.contains name then
    if rest.isEmpty && !final && reasoningTagNames.any (name.isPrefixOf ·) then .pending
    else .invalid
  else parseTagRest final (text.length - rest.length) isClose name rest

structure ReasoningTagMatch extends TagShape where
  index : Nat
  deriving DecidableEq, Repr

/-- The first offset behind the tag. -/
def ReasoningTagMatch.stop (tag : ReasoningTagMatch) : Nat := tag.index + tag.length

structure ReasoningTagScan where
  tags : List ReasoningTagMatch
  pendingStart : Option Nat
  deriving DecidableEq, Repr

/-- The scan from an index on, while `skip` units still belong to the last tag. An invalid tag
is left at its first character, so the next angle bracket is tried. -/
def scanFrom (final : Bool) : Nat → Nat → Text → ReasoningTagScan
  | _, _, [] => ⟨[], none⟩
  | index, skip + 1, _ :: us => scanFrom final (index + 1) skip us
  | index, 0, u :: us =>
      if u = lessThan then
        match parseReasoningTagAt final (u :: us) with
        | .tag shape =>
            let rest := scanFrom final (index + 1) (shape.length - 1) us
            ⟨⟨shape, index⟩ :: rest.tags, rest.pendingStart⟩
        | .pending => ⟨[], some index⟩
        | .invalid => scanFrom final (index + 1) 0 us
      else scanFrom final (index + 1) 0 us

/-- `scanReasoningTags`. -/
def scanReasoningTags (text : Text) (final : Bool) : ReasoningTagScan := scanFrom final 0 0 text

/-- The loop of `isInsideCode` between two indices of the spans; every round halves the
interval, so as many rounds as there are spans, and one, are enough. -/
def searchCode (index : Nat) (spans : List (Nat × Nat)) : Nat → Int → Int → Bool
  | 0, _, _ => false
  | rounds + 1, low, high =>
      if low ≤ high then
        let middle := (low + high) / 2
        match spans[middle.toNat]? with
        | none => false
        | some span =>
            if index < span.1 then searchCode index spans rounds low (middle - 1)
            else if span.2 ≤ index then searchCode index spans rounds (middle + 1) high
            else true
      else false

def isInsideCode (index : Nat) (spans : List (Nat × Nat)) : Bool :=
  searchCode index spans (spans.length + 1) 0 (spans.length - 1)

end OpenClaw.ReasoningTags

/-!
The reducer that turns text with reasoning tags into text and thinking deltas. It is
written over any type of characters with a code unit, so that a character may also
carry the place it comes from; the code runs it on plain code units.
-/

namespace OpenClaw.ReasoningTags

open JsUnits

/-- Characters of a modelled string: only their code unit is looked at. -/
class HasUnit (α : Type) where
  unitOf : α → UInt16

export HasUnit (unitOf)

instance : HasUnit UInt16 := ⟨id⟩

variable {α : Type} [HasUnit α]

def units (text : List α) : Text := text.map unitOf

/-- `text.slice(start, end)`. -/
def slice (text : List α) (start stop : Nat) : List α := (text.take stop).drop start

/-- `Boolean(value.trim())`. -/
def hasVisible (value : List α) : Bool := (units value).any (!isWhitespace ·)

inductive DeltaKind
  | text
  | thinking
  deriving DecidableEq, Repr

structure Delta (α : Type) where
  kind : DeltaKind
  text : List α
  deriving DecidableEq, Repr

inductive RecoveryMode
  | hide
  | visible
  | staticStrict
  | staticPreserve
  deriving DecidableEq, Repr

inductive Scope
  | all
  | leading
  deriving DecidableEq, Repr

structure Pending (α : Type) where
  content : List α
  containsPrivate : Bool
  openTag : List α
  protectedClose : Bool
  visibleBefore : Bool
  deriving DecidableEq, Repr

structure ReductionState (α : Type) where
  depth : Nat
  visibleEver : Bool
  pending : Option (Pending α)
  deriving DecidableEq, Repr

structure ReductionOptions where
  final : Bool
  mode : RecoveryMode
  scope : Scope
  start : Nat
  deriving DecidableEq, Repr

/-- The output and the shared state while a call runs. -/
structure Reduction (α : Type) where
  output : List (Delta α)
  state : ReductionState α
  deriving DecidableEq, Repr

/-- A delta joins the previous one of its kind. -/
def pushDelta (output : List (Delta α)) (kind : DeltaKind) (value : List α) : List (Delta α) :=
  match output.getLast? with
  | some previous =>
      if previous.kind = kind then output.dropLast ++ [⟨kind, previous.text ++ value⟩]
      else output ++ [⟨kind, value⟩]
  | none => [⟨kind, value⟩]

def Reduction.emit (r : Reduction α) (kind : DeltaKind) (value : List α) : Reduction α :=
  if value.isEmpty then r
  else
    ⟨pushDelta r.output kind value,
      if kind = .text ∧ hasVisible value then { r.state with visibleEver := true } else r.state⟩

def Reduction.append (r : Reduction α) (value : List α) : Reduction α :=
  if value.isEmpty then r
  else
    match r.state.pending with
    | some pending =>
        if 0 < r.state.depth then
          { r with state := { r.state with pending := some { pending with
              content := pending.content ++ value
              protectedClose := pending.protectedClose ||
                (scanReasoningTags (units value) true).tags.any (·.isClose) } } }
        else r.emit .text value
    | none => r.emit .text value

/-- The tags of a text outside code, indices counted from its beginning. -/
def visibleTags (text : List α) (codeSpans : List (Nat × Nat)) (options : ReductionOptions) :
    List ReasoningTagMatch :=
  ((scanReasoningTags (units (text.drop options.start)) options.final).tags.map
    fun tag => { tag with index := tag.index + options.start }).filter
      fun tag => !isInsideCode tag.index codeSpans

/-- For every tag, whether the text from it on must be parsed; and whether any of it must. -/
def mustParseRemainder : List ReasoningTagMatch → List Bool × Bool
  | [] => ([], false)
  | tag :: tags =>
      let later := mustParseRemainder tags
      let mustParse := later.2 || tag.isPrivate
      (mustParse :: later.1, mustParse || tag.isClose)

/-- An opening tag that does not end the call. -/
def Reduction.openBlock (r : Reduction α) (tag : ReasoningTagMatch) (openTag : List α) :
    Reduction α :=
  if r.state.depth = 0 then
    { r with state := { r.state with
        depth := 1
        pending := some ⟨[], tag.isPrivate, openTag, false, r.state.visibleEver⟩ } }
  else
    { r with state := { r.state with
        depth := r.state.depth + 1
        pending := r.state.pending.map fun pending =>
          { pending with containsPrivate := pending.containsPrivate || tag.isPrivate } } }

/-- A closing tag inside a block. -/
def Reduction.closeBlock (r : Reduction α) : Reduction α :=
  match r.state.pending with
  | some pending =>
      if r.state.depth = 1 then
        let closed : Reduction α := { r with state := { r.state with depth := 0 } }
        let emitted := if pending.containsPrivate then closed
          else closed.emit .thinking pending.content
        { emitted with state := { emitted.state with pending := none } }
      else
        { r with state := { r.state with
            depth := r.state.depth - 1
            pending := some { pending with protectedClose := true } } }
  | none => { r with state := { r.state with depth := r.state.depth - 1 } }

/-- A closing tag outside a block, with the text before and behind it. -/
def Reduction.strayClose (r : Reduction α) (mode : RecoveryMode) (tag before after : List α) :
    Reduction α :=
  if mode = .visible then r.append tag
  else if hasVisible before && hasVisible after then
    { output := r.output.filter (·.kind == .thinking),
      state := { r.state with visibleEver := false } }
  else r

/-- The loop over the tags from a cursor on; a `leading` call may end at a tag, with the rest
of the text as visible text. The cursor behind the loop is the end of the text then. -/
def Reduction.loop (text : List α) (options : ReductionOptions) :
    List (ReasoningTagMatch × Bool) → Nat → Reduction α → Reduction α × Nat
  | [], cursor, r => (r, cursor)
  | (tag, mustParse) :: tags, cursor, r =>
      let before := slice text cursor tag.index
      let r := r.append before
      let exits := r.state.depth = 0 ∧ options.scope = .leading ∧ r.state.visibleEver = true
      if tag.isSelfClosing then
        if exits then (r.emit .text (text.drop tag.index), text.length)
        else loop text options tags tag.stop r
      else if !tag.isClose then
        if exits ∧ mustParse = false then (r.emit .text (text.drop tag.index), text.length)
        else loop text options tags tag.stop (r.openBlock tag (slice text tag.index tag.stop))
      else if 0 < r.state.depth then loop text options tags tag.stop r.closeBlock
      else
        loop text options tags tag.stop
          (r.strayClose options.mode (slice text tag.index tag.stop) before (text.drop tag.stop))

/-- The block that is still open when the text ends. -/
def Reduction.recover (r : Reduction α) (mode : RecoveryMode) : Reduction α :=
  match r.state.pending with
  | some pending =>
      if 0 < r.state.depth then
        let recoverAsText :=
          mode = .staticPreserve ∨
            (mode = .staticStrict ∧ pending.visibleBefore = false ∧
              pending.protectedClose = false) ∨
            (mode = .visible ∧ pending.protectedClose = false)
        let recovered :=
          if pending.containsPrivate then r
          else if recoverAsText then
            r.emit .text
              (if mode = .visible ∧ pending.visibleBefore = true then
                pending.openTag ++ pending.content
              else pending.content)
          else r.emit .thinking pending.content
        { recovered with state := { recovered.state with depth := 0, pending := none } }
      else r
  | none => r

/-- `reduceReasoningText`: the deltas of the call and the state it leaves. -/
def reduceReasoningText (text : List α) (codeSpans : List (Nat × Nat)) (state : ReductionState α)
    (options : ReductionOptions) : Reduction α :=
  let tags := visibleTags text codeSpans options
  let (r, cursor) := Reduction.loop text options (tags.zip (mustParseRemainder tags).1)
    options.start ⟨[], state⟩
  let r := r.append (text.drop cursor)
  if options.final then r.recover options.mode else r

inductive StripMode
  | strict
  | preserve
  deriving DecidableEq, Repr

/-- `stripReasoningTagsFromMarkdown`, over the code ranges the Markdown parser reports. -/
def stripReasoningTagsFromMarkdown (codeSpans : List (Nat × Nat)) (text : List α)
    (mode : StripMode) (scope : Scope) (recoverUnclosed : Bool) : List α :=
  let recovery := if recoverUnclosed = false then .hide
    else if mode = .preserve then .staticPreserve else .staticStrict
  ((reduceReasoningText text codeSpans ⟨0, false, none⟩ ⟨true, recovery, scope, 0⟩).output.filter
    (·.kind == .text)).flatMap (·.text)

end OpenClaw.ReasoningTags
