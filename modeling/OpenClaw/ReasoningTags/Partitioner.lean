import OpenClaw.ReasoningTags.Reducer

/-!
The block-incremental partitioner of streamed text. It keeps the source that is not
settled yet, emits what no later text can change, and holds the rest; which code spans
a text has and where its last block starts is asked of the Markdown parser, which is a
parameter here.
-/

namespace OpenClaw.ReasoningTags

open JsUnits

def backtick : UInt16 := 0x60

def isLineBreak (u : UInt16) : Bool := u == carriageReturn || u == lineFeed

/-- The class `[\r\n]` with the backtick. -/
def breaksFastPath (u : UInt16) : Bool := isLineBreak u || u == backtick

/-- `text.indexOf(u, start)`. -/
def indexOf (text : Text) (u : UInt16) (start : Nat) : Option Nat :=
  ((text.drop start).findIdx? (· == u)).map (· + start)

def findNextLineEnding (text : Text) (start : Nat) : Option Nat :=
  ((text.drop start).findIdx? isLineBreak).map (· + start)

/-- The start of the line that the position is in, or ends: one behind the last line break at
or before the position. -/
def lineStartBefore (text : Text) (position : Nat) : Nat :=
  let front := text.take (position + 1)
  front.length - (front.reverse.takeWhile (!isLineBreak ·)).length

section Patterns

def isLineTerminator (u : UInt16) : Bool := isLineBreak u || u == 0x2028 || u == 0x2029

def startsContainer (line : Text) : Bool :=
  let indent := (line.takeWhile (· == space)).length
  let rest := line.dropWhile (· == space)
  let digits := (rest.takeWhile isDigit).length
  indent ≤ 3 &&
    (rest.head? == some (unit '>') ||
      (rest.head?.any [unit '-', unit '+', unit '*'].contains &&
        (rest.drop 1).head?.any isHorizontal) ||
      (1 ≤ digits && digits ≤ 9 &&
        (rest.drop digits).head?.any [unit '.', unit ')'].contains &&
        (rest.drop (digits + 1)).head?.any isHorizontal))

/-- `MARKDOWN_CONTAINER_LINE_RE`, tried at every line start. -/
def hasContainerLine (atLineStart : Bool) : Text → Bool
  | [] => false
  | u :: us =>
      (atLineStart && startsContainer (u :: us)) || hasContainerLine (isLineTerminator u) us

/-- `BLANK_BOUNDARY_RE`, read from the end of the text. -/
def endsBlankBoundary (text : Text) : Bool :=
  let before :=
    match text.reverse with
    | u :: v :: rest =>
        if u = lineFeed ∧ v = carriageReturn then some rest
        else if isLineBreak u then some (v :: rest) else none
    | _ => none
  before.any fun rest => (rest.dropWhile isHorizontal).head?.any isLineBreak

end Patterns

section Probe

structure PendingTagProbe where
  nameResolved : Bool
  quote : Option UInt16
  resolved : Bool
  scannedThrough : Nat
  start : Nat
  deriving DecidableEq, Repr

inductive TagNameStatus
  | invalid
  | incomplete
  | resolved
  deriving DecidableEq, Repr

def reasoningTagNameStatus (text : Text) : TagNameStatus :=
  let opened := skipTagWhitespace (text.drop 1)
  let named := if opened.head? == some slash then skipTagWhitespace (opened.drop 1) else opened
  let name := (named.takeWhile isTagNameCharacter).map toLowerCase
  let rest := named.dropWhile isTagNameCharacter
  if name = [] then if rest.isEmpty then .incomplete else .invalid
  else if !reasoningTagNames.contains name then
    if reasoningTagNames.any (name.isPrefixOf ·) && rest.isEmpty then .incomplete else .invalid
  else
    match rest with
    | [] => .incomplete
    | boundary :: _ =>
        if isWhitespace boundary || boundary == slash || boundary == greaterThan then .resolved
        else .invalid

def advancePendingTagProbe (probe : PendingTagProbe) : Text → PendingTagProbe
  | [] => probe
  | u :: us =>
      match probe.quote with
      | some quote =>
          advancePendingTagProbe
            { probe with quote := if u = quote then none else some quote } us
      | none =>
          if u = doubleQuote ∨ u = singleQuote then
            advancePendingTagProbe { probe with quote := some u } us
          else if u = greaterThan ∨ u = lessThan then { probe with resolved := true }
          else advancePendingTagProbe probe us

end Probe

structure MarkdownOwnership where
  codeSpans : List (Nat × Nat)
  retainStart : Nat
  deriving DecidableEq, Repr

/-- A text cut before its pending tag shows, scanned on its own, the tags it showed before. -/
def cutShowsTags (text : Text) (cut : Nat) : Bool :=
  (scanReasoningTags (text.take cut) false).tags == (scanReasoningTags text false).tags

/-- The variables of a partitioner, with the deltas of the call in progress. The last field is
a ghost that no step reads: every fast-path reduction so far was given such a cut. -/
structure Partitioner where
  reduction : ReductionState UInt16
  source : Text
  blockStart : Nat
  emitted : Nat
  holdStart : Option Nat
  heldBacktickStart : Option Nat
  strictMode : Bool
  pendingTagProbe : Option PendingTagProbe
  fastPathCheckedThrough : Nat
  fastPathCodeSafe : Bool
  nonFinalFullParses : Nat
  nonFinalCodeSpans : Option (List (Nat × Nat))
  nonFinalCodeSpansEnd : Nat
  nonFinalOpenEndedCode : Bool
  nonFinalRetainStart : Nat
  nonFinalCloseReparseUsed : Bool
  output : List (Delta UInt16)
  cleanCuts : Bool
  deriving DecidableEq, Repr

def createReasoningTagTextPartitioner : Partitioner where
  reduction := ⟨0, false, none⟩
  source := []
  blockStart := 0
  emitted := 0
  holdStart := none
  heldBacktickStart := none
  strictMode := false
  pendingTagProbe := none
  fastPathCheckedThrough := 0
  fastPathCodeSafe := false
  nonFinalFullParses := 0
  nonFinalCodeSpans := none
  nonFinalCodeSpansEnd := 0
  nonFinalOpenEndedCode := false
  nonFinalRetainStart := 0
  nonFinalCloseReparseUsed := false
  output := []
  cleanCuts := true

namespace Partitioner

def compactCommittedSource (p : Partitioner) (retainStart : Nat) : Partitioner :=
  let source := p.source.drop retainStart
  { p with
    source
    blockStart := source.length
    emitted := source.length
    holdStart := none
    heldBacktickStart := none
    pendingTagProbe := none
    fastPathCheckedThrough := 0
    fastPathCodeSafe := false
    nonFinalFullParses := 0
    nonFinalCodeSpans := none
    nonFinalCodeSpansEnd := 0
    nonFinalOpenEndedCode := false
    nonFinalRetainStart := 0
    nonFinalCloseReparseUsed := false }

/-- `merge`: additions join the last delta of their kind. -/
def mergeDeltas (target additions : List (Delta UInt16)) : List (Delta UInt16) :=
  additions.foldl (fun target addition => pushDelta target addition.kind addition.text) target

/-- Reduce a text on the shared state and merge what it emits. -/
def reduceInto (p : Partitioner) (text : Text) (codeSpans : List (Nat × Nat))
    (options : ReductionOptions) : Partitioner :=
  let r := reduceReasoningText text codeSpans p.reduction options
  { p with reduction := r.state, output := mergeDeltas p.output r.output }

def streamOptions : ReductionOptions := ⟨false, .visible, .all, 0⟩

/-- Visible text that needs no reduction. -/
def emitText (p : Partitioner) (text : Text) : Partitioner :=
  if text = [] then p
  else
    { p with
      output := mergeDeltas p.output [⟨.text, text⟩]
      reduction := { p.reduction with
        visibleEver := p.reduction.visibleEver || hasVisible text } }

def beginProbe (p : Partitioner) (start limit : Nat) : Partitioner :=
  let probe := advancePendingTagProbe ⟨false, none, false, limit, start⟩
    (slice p.source (start + 1) limit)
  { p with pendingTagProbe := some probe }

/-- `emitSafePrefix` inside a reasoning block. -/
def emitInsideReasoning (p : Partitioner) (limit : Nat) : Partitioner :=
  let p := { p with holdStart := some (p.holdStart.getD p.emitted) }
  let segment := slice p.source p.emitted limit
  if !p.fastPathCodeSafe || segment.any breaksFastPath then p
  else
    let pendingStart := (scanReasoningTags segment false).pendingStart
    let reduceEnd := (pendingStart.map (p.emitted + ·)).getD limit
    let p := { p with
      cleanCuts := p.cleanCuts && cutShowsTags segment (reduceEnd - p.emitted) }
    let p := p.reduceInto (slice p.source p.emitted reduceEnd) [] streamOptions
    let p := { p with emitted := reduceEnd, fastPathCheckedThrough := reduceEnd }
    let p := if pendingStart.isSome then p.beginProbe reduceEnd limit else p
    { p with holdStart :=
        if 0 < p.reduction.depth ∨ pendingStart.isSome then some p.emitted else none }

variable (parseMarkdownOwnership : Text → MarkdownOwnership)

/-- Whether the tag at `special` may be reduced on the fast path; one full parse may be spent
to find out. -/
def checkFastPath (p : Partitioner) (special limit : Nat) : Partitioner × Bool :=
  let invalidated := (slice p.source p.fastPathCheckedThrough special).any breaksFastPath
  if !p.fastPathCodeSafe || invalidated then
    if 1 ≤ p.nonFinalFullParses then (p, false)
    else
      let ownership := parseMarkdownOwnership (p.source.take limit)
      let safe := !(slice p.source p.blockStart special).contains backtick &&
        !isInsideCode special ownership.codeSpans
      ({ p with
        nonFinalFullParses := p.nonFinalFullParses + 1
        nonFinalCodeSpans := some ownership.codeSpans
        nonFinalCodeSpansEnd := limit
        nonFinalOpenEndedCode := ownership.codeSpans.any (·.2 == limit)
        nonFinalRetainStart := ownership.retainStart
        fastPathCodeSafe := safe }, safe)
  else (p, p.fastPathCodeSafe)

/-- The complete tag at `special`, where the partitioner already holds. -/
def emitTag (p : Partitioner) (special limit : Nat) : Partitioner :=
  if (slice p.source p.blockStart special).any isLineBreak then p
  else
    match p.checkFastPath parseMarkdownOwnership special limit with
    | (p, false) => p
    | (p, true) =>
        let safeLimit := (((slice p.source special limit).findIdx? breaksFastPath).map
          (special + ·)).getD limit
        let safeTail := slice p.source special safeLimit
        let pendingAt := (scanReasoningTags safeTail false).pendingStart
        let reduceEnd := (pendingAt.map (special + ·)).getD safeLimit
        let p := { p with
          cleanCuts := p.cleanCuts && cutShowsTags safeTail (reduceEnd - special) }
        let p := p.reduceInto (slice p.source special reduceEnd) [] streamOptions
        let p := { p with emitted := reduceEnd, fastPathCheckedThrough := reduceEnd }
        if pendingAt.isSome then
          ({ p with holdStart := some reduceEnd }).beginProbe reduceEnd limit
        else { p with holdStart := if 0 < p.reduction.depth then some p.emitted else none }

/-- The loop of `emitSafePrefix` outside reasoning; every round that goes on has emitted
something, so as many rounds as there are units up to the limit are enough. -/
def emitVisible (limit : Nat) : Nat → Partitioner → Partitioner
  | 0, p => p
  | rounds + 1, p =>
      if p.emitted < limit ∧ p.holdStart = none then
        match (slice p.source p.emitted limit).findIdx? (fun u => u == lessThan || u == backtick) with
        | none => { (p.emitText (slice p.source p.emitted limit)) with emitted := limit }
        | some distance =>
            let special := p.emitted + distance
            if p.source[special]? = some backtick then
              { p with heldBacktickStart := some special, holdStart := some p.emitted }
            else
              let p := { (p.emitText (slice p.source p.emitted special)) with emitted := special }
              match parseReasoningTagAt false (slice p.source special limit) with
              | .invalid =>
                  emitVisible limit rounds
                    { (p.emitText [lessThan]) with emitted := special + 1 }
              | .pending => ({ p with holdStart := some special }).beginProbe special limit
              | .tag _ =>
                  emitVisible limit rounds
                    (({ p with holdStart := some special }).emitTag parseMarkdownOwnership
                      special limit)
      else p

def emitSafePrefix (p : Partitioner) (limit : Nat) : Partitioner :=
  if p.strictMode then { p with holdStart := some (p.holdStart.getD p.emitted) }
  else if 0 < p.reduction.depth then p.emitInsideReasoning limit
  else if p.holdStart.isSome ∨ limit ≤ p.emitted then p
  else p.emitVisible parseMarkdownOwnership limit (limit - p.emitted)

section Blocks

def finalizePending (p : Partitioner) (final : Bool) : Partitioner :=
  if !final || p.reduction.depth == 0 then p
  else p.reduceInto [] [] ⟨true, if p.strictMode then .hide else .visible, .all, 0⟩

/-- The end of `processBlock`, when everything up to `stop` has been emitted. -/
def finishBlock (p : Partitioner) (previousBlockStart stop : Nat) (final : Bool)
    (ownership : Option MarkdownOwnership) : Partitioner :=
  let p := p.finalizePending final
  let lastLineStart := lineStartBefore p.source (stop - 1)
  let crossedLineBoundary := (slice p.source previousBlockStart stop).any isLineBreak
  let openEnded := ownership.any fun o => o.codeSpans.any (·.2 == p.source.length)
  let p := { p with
    blockStart := if crossedLineBoundary && lastLineStart < stop then lastLineStart else stop
    holdStart := if p.strictMode ∨ 0 < p.reduction.depth then some stop else none
    heldBacktickStart := none
    nonFinalCloseReparseUsed :=
      if p.reduction.depth = 0 then false else p.nonFinalCloseReparseUsed
    pendingTagProbe := none
    fastPathCheckedThrough := stop
    fastPathCodeSafe := !final && !crossedLineBoundary && p.emitted == p.source.length &&
      !openEnded }
  let retainStart := (ownership.map (·.retainStart)).getD 0
  if !final && p.reduction.depth == 0 && p.emitted == p.source.length &&
      endsBlankBoundary p.source && !hasContainerLine true (p.source.drop retainStart) &&
      !openEnded then
    p.compactCommittedSource retainStart
  else p

/-- The held part of a block up to `stop`: it waits while a tag in it may still be completed. -/
def processHeld (p : Partitioner) (previousBlockStart start stop : Nat) (final : Bool)
    (parsed : Option MarkdownOwnership) : Partitioner :=
  let held := slice p.source start stop
  let pendingStart := (scanReasoningTags held false).pendingStart
  if !final && p.pendingTagProbe.any (!·.resolved) then p
  else if !final && pendingStart.isSome then
    p.beginProbe (start + pendingStart.getD 0) stop
  else
    let p := if final then p else { p with pendingTagProbe := none }
    let block := p.source.take stop
    let ownership := parsed.getD (parseMarkdownOwnership block)
    let p := p.reduceInto block ownership.codeSpans
      ⟨final, if p.strictMode then .hide else .visible, .all, start⟩
    ({ p with emitted := stop }).finishBlock previousBlockStart stop final (some ownership)

def processBlock (p : Partitioner) (stop : Nat) (final : Bool)
    (parsed : Option MarkdownOwnership) : Partitioner :=
  if stop ≤ p.blockStart then p.finalizePending final
  else if stop ≤ p.emitted then
    { (p.finalizePending final) with
      blockStart := stop
      fastPathCheckedThrough := max p.fastPathCheckedThrough stop }
  else
    let previousBlockStart := p.blockStart
    let p := p.emitSafePrefix parseMarkdownOwnership stop
    match p.holdStart with
    | some start =>
        if start < stop then
          p.processHeld parseMarkdownOwnership previousBlockStart start stop final parsed
        else
          ({ (p.emitText (slice p.source p.emitted stop)) with
            emitted := max p.emitted stop }).finishBlock previousBlockStart stop final parsed
    | none =>
        ({ (p.emitText (slice p.source p.emitted stop)) with
          emitted := max p.emitted stop }).finishBlock previousBlockStart stop final parsed

end Blocks

section Consume

/-- What the source decides about a pending tag. -/
def resolveProbe (source : Text) (probe : PendingTagProbe) : PendingTagProbe :=
  if probe.resolved then probe
  else
    let advanced := { (advancePendingTagProbe probe (source.drop probe.scannedThrough)) with
      scannedThrough := source.length }
    if advanced.nameResolved then advanced
    else
      let status := reasoningTagNameStatus (source.drop advanced.start)
      { advanced with
        nameResolved := status == .resolved
        resolved := advanced.resolved || status == .invalid }

/-- A chunk decides whether the pending tag can still be completed; when it cannot, nothing
is held any more. -/
def resumeProbe (p : Partitioner) : Partitioner :=
  match p.pendingTagProbe with
  | none => p
  | some probe =>
      let probe := resolveProbe p.source probe
      if probe.resolved && p.holdStart.isSome then
        { p with pendingTagProbe := none, holdStart := none, heldBacktickStart := none }
      else { p with pendingTagProbe := some probe }

/-- A table row on the held line may still need the line below it. -/
def tableLookaheadPending (source : Text) (ownershipStart : Nat) : Bool :=
  let heldLineStart := lineStartBefore source (ownershipStart - 1)
  let heldLineEnd := findNextLineEnding source ownershipStart
  let heldLine := slice source heldLineStart (heldLineEnd.getD source.length)
  heldLine.contains (unit '|') &&
    heldLineEnd.all fun stop =>
      let pair := source[stop]? = some carriageReturn ∧ source[stop + 1]? = some lineFeed
      (findNextLineEnding source (stop + if pair then 2 else 1)).isNone

/-- How far the held text is settled, once the parser has spoken about the whole source. -/
def heldProcessEnd (p : Partitioner) (start : Nat) (heldCodeSpan : Option (Nat × Nat))
    (stableNonDelimiter mayCloseTopLevelBlock stableCode : Bool) : Nat :=
  if stableNonDelimiter || mayCloseTopLevelBlock then p.source.length
  else
    match stableCode, heldCodeSpan with
    | true, some span =>
        span.2 + ((p.source.drop span.2).takeWhile fun u =>
          !(breaksFastPath u || u == lessThan)).length
    | _, _ => (indexOf p.source backtick start).getD p.source.length

/-- Whether the appended text gives a reason to ask who owns the held text. -/
def shouldTryParser (p : Partitioner) (start : Nat) (appended : Text) : Bool :=
  let ownershipStart := p.heldBacktickStart.getD start
  let heldBacktick := p.heldBacktickStart.isSome
  let openingRunEnd := ownershipStart +
    ((p.source.drop ownershipStart).takeWhile (· == backtick)).length
  let hasLaterBacktick := !heldBacktick || (p.source.drop openingRunEnd).contains backtick
  let terminatedBacktickTail := !heldBacktick || p.source.getLast? != some backtick
  match p.pendingTagProbe with
  | some probe => probe.resolved
  | none =>
      if 0 < p.reduction.depth then appended.contains lessThan
      else !heldBacktick || (hasLaterBacktick && terminatedBacktickTail) ||
        endsBlankBoundary p.source

def mayResolveHeldReasoning (p : Partitioner) (start : Nat) (appended : Text) : Bool :=
  decide (0 < p.reduction.depth) && !p.nonFinalCloseReparseUsed &&
    (appended.contains lessThan || appended.contains greaterThan) &&
    (scanReasoningTags (p.source.drop start) false).tags.any (·.isClose)

def mayCloseTopLevelBlock (p : Partitioner) (appendedStartsTopLevelBlock : Bool) : Bool :=
  endsBlankBoundary p.source &&
    (!hasContainerLine true (p.source.drop p.nonFinalRetainStart) ||
      appendedStartsTopLevelBlock) && !p.nonFinalOpenEndedCode

def reusableCodeSpans (p : Partitioner) : Option (List (Nat × Nat)) :=
  if p.nonFinalCodeSpansEnd = p.source.length then p.nonFinalCodeSpans else none

/-- What the parser says about the source, from the last parse where it was of the same text. -/
def sourceOwnership (p : Partitioner) : MarkdownOwnership :=
  match p.reusableCodeSpans with
  | some codeSpans => ⟨codeSpans, p.nonFinalRetainStart⟩
  | none => parseMarkdownOwnership p.source

/-- The held text, once the owner of its first character is known. -/
def settleOwned (p : Partitioner) (start : Nat) (ownership : MarkdownOwnership)
    (mayCloseTopLevelBlock : Bool) : Partitioner :=
  let length := p.source.length
  let ownershipStart := p.heldBacktickStart.getD start
  let heldBacktick := p.heldBacktickStart.isSome
  let heldCodeSpan := ownership.codeSpans.find? fun span =>
    span.1 ≤ ownershipStart && ownershipStart < span.2
  let heldInOpenEndedCode := heldCodeSpan.any (·.2 == length)
  let stableCode := heldCodeSpan.isSome && !heldInOpenEndedCode
  let stableNonDelimiter := heldBacktick && heldCodeSpan.isNone && endsBlankBoundary p.source
  if (!heldBacktick && !heldInOpenEndedCode) || stableCode || stableNonDelimiter then
    let processEnd := p.heldProcessEnd start heldCodeSpan stableNonDelimiter
      mayCloseTopLevelBlock stableCode
    if start < processEnd then
      let stableTagSuffix := decide (processEnd < length) &&
        p.source[processEnd]? == some lessThan && !isInsideCode processEnd ownership.codeSpans
      let p := p.processBlock parseMarkdownOwnership processEnd false (some ownership)
      if stableTagSuffix then
        let p := { p with fastPathCodeSafe := true, fastPathCheckedThrough := processEnd }
        p.emitSafePrefix parseMarkdownOwnership p.source.length
      else p
    else p
  else p

/-- `consume` where text is held: try to settle it. -/
def settleHeld (p : Partitioner) (start : Nat) (appended : Text)
    (appendedStartsTopLevelBlock : Bool) : Partitioner :=
  let mayResolve := p.mayResolveHeldReasoning start appended
  let mayClose := p.mayCloseTopLevelBlock appendedStartsTopLevelBlock
  let reusable := p.reusableCodeSpans.isSome
  if (p.shouldTryParser start appended || mayResolve) &&
      !tableLookaheadPending p.source (p.heldBacktickStart.getD start) &&
      (reusable || decide (p.nonFinalFullParses < 1) || mayClose || mayResolve) then
    let ownership := p.sourceOwnership parseMarkdownOwnership
    ({ p with
      nonFinalFullParses := p.nonFinalFullParses + if reusable then 0 else 1
      nonFinalCloseReparseUsed := p.nonFinalCloseReparseUsed || mayResolve
      nonFinalRetainStart := ownership.retainStart
      nonFinalOpenEndedCode := ownership.codeSpans.any (·.2 == p.source.length)
      }).settleOwned parseMarkdownOwnership start ownership mayClose
  else p

/-- `consume` where everything is emitted behind a blank line: drop the settled blocks. -/
def dropSettledBlocks (p : Partitioner) (appendedStartsTopLevelBlock : Bool) : Partitioner :=
  if p.holdStart.isNone && p.reduction.depth == 0 && p.emitted == p.source.length &&
      endsBlankBoundary p.source &&
      (!hasContainerLine true (p.source.drop p.nonFinalRetainStart) ||
        appendedStartsTopLevelBlock) &&
      decide (p.nonFinalFullParses < 1) then
    let ownership := parseMarkdownOwnership p.source
    let openEnded := ownership.codeSpans.any (·.2 == p.source.length)
    let p := { p with
      nonFinalFullParses := p.nonFinalFullParses + 1
      nonFinalRetainStart := ownership.retainStart
      nonFinalOpenEndedCode := openEnded }
    if openEnded then p else p.compactCommittedSource ownership.retainStart
  else p

def consume (p : Partitioner) (chunk : Text) (strict final : Bool) :
    Partitioner × List (Delta UInt16) :=
  let previousEndedBlankBlock := endsBlankBoundary p.source
  let appendedBlock := chunk.dropWhile isLineBreak
  let appendedStartsTopLevelBlock := previousEndedBlankBlock &&
    appendedBlock.head?.any (fun u => !(isHorizontal u || isLineBreak u)) &&
    !hasContainerLine true appendedBlock
  let p := resumeProbe
    { p with strictMode := p.strictMode || strict, source := p.source ++ chunk, output := [] }
  let p :=
    if final then
      let p := p.processBlock parseMarkdownOwnership p.source.length true none
      p.compactCommittedSource p.source.length
    else
      let p := p.emitSafePrefix parseMarkdownOwnership p.source.length
      let p :=
        match p.holdStart with
        | some start =>
            if !p.strictMode && decide (start < p.source.length) then
              p.settleHeld parseMarkdownOwnership start chunk appendedStartsTopLevelBlock
            else p
        | none => p
      p.dropSettledBlocks parseMarkdownOwnership appendedStartsTopLevelBlock
  (p, p.output)

def markStrict (p : Partitioner) : Partitioner :=
  { p with strictMode := true, holdStart := some (p.holdStart.getD p.emitted) }

def push (p : Partitioner) (chunk : Text) : Partitioner × List (Delta UInt16) :=
  p.consume parseMarkdownOwnership chunk true false

def pushVisible (p : Partitioner) (chunk : Text) : Partitioner × List (Delta UInt16) :=
  p.consume parseMarkdownOwnership chunk false false

def flush (p : Partitioner) : Partitioner × List (Delta UInt16) :=
  p.consume parseMarkdownOwnership [] p.strictMode true

end Consume
end Partitioner
end OpenClaw.ReasoningTags
