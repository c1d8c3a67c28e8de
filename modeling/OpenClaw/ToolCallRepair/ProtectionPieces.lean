import OpenClaw.Lib.FenceScan

/-!
The incremental protection tracker of the streaming normalizer. It carries the block
state at the end of the accumulated text, with the unfinished last line, and answers
for the lines of an incoming piece only where fence state alone decides; every shape
it does not model makes the answer undefined.
-/

namespace OpenClaw.ToolCallRepair

open JsUnits FenceScan

structure ProtectionScanState where
  fenceChar : Option Marker
  fenceLength : Nat
  paragraphAmbiguous : Bool
  structuralUnknown : Bool
  partialLine : Text
  deriving DecidableEq, Repr

def createProtectionScanState : ProtectionScanState := ⟨none, 0, false, false, []⟩

section Patterns

/-- `FENCE_OPEN`. -/
def fenceOpen (line : Text) : Option Delimiter := delimiter line

/-- The closing pattern: a delimiter with only spaces and tabs behind it. -/
def fenceClose (line : Text) : Option Fence :=
  ((delimiter line).filter fun run => run.info.all isHorizontal).map (·.fence)

/-- `UNCLASSIFIED_FENCE_DELIMITER`. -/
def unclassifiedFenceDelimiter (line : Text) : Bool :=
  line.tails.any fun rest => 3 ≤ runLength .backtick rest || 3 ≤ runLength .tilde rest

/-- The alternative `(?:\s|$)` at the start of a text. -/
def endsMarker (rest : Text) : Bool := rest.head?.all isWhitespace

/-- `UNMODELED_BLOCK_START`. -/
def unmodeledBlockStart (line : Text) : Bool :=
  let indent := (line.takeWhile (· == space)).length
  let rest := line.dropWhile (· == space)
  let digits := (rest.takeWhile isDigit).length
  (indent ≤ 3 &&
      (rest.head? == some (unit '>') ||
        (rest.head?.any [unit '-', unit '*', unit '+'].contains && endsMarker (rest.drop 1)) ||
        (1 ≤ digits && digits ≤ 9 &&
          (rest.drop digits).head?.any [unit '.', unit ')'].contains &&
          endsMarker (rest.drop (digits + 1))))) ||
    4 ≤ indent || rest.head? == some tab

end Patterns

/-- Applies one whole line, its line ending excluded, to the carried state. -/
def applyLine (state : ProtectionScanState) (line : Text) : ProtectionScanState :=
  if state.structuralUnknown then state
  else
    match state.fenceChar with
    | some fenceChar =>
        match fenceClose line with
        | some run =>
            if run.marker = fenceChar ∧ state.fenceLength ≤ run.length then
              { state with fenceChar := none, fenceLength := 0 }
            else state
        | none => state
    | none =>
        if isBlank line then { state with paragraphAmbiguous := false }
        else
          match fenceOpen line with
          | some opened =>
              -- only fences at column zero in unambiguous context are tracked
              if state.paragraphAmbiguous ∨ opened.indent ≠ 0 ∨
                  (opened.fence.marker = .backtick ∧ Marker.backtick.unit ∈ opened.info) then
                { state with structuralUnknown := true }
              else
                { state with
                  fenceChar := some opened.fence.marker, fenceLength := opened.fence.length }
          | none =>
              if unclassifiedFenceDelimiter line then { state with structuralUnknown := true }
              else if hasBacktick line || unmodeledBlockStart line then
                { state with paragraphAmbiguous := true }
              else state

/-- Feeds appended visible text into the carried state. -/
def advanceProtectionScanState (state : ProtectionScanState) (text : Text) :
    ProtectionScanState :=
  if text = [] then state
  else if hasBareCarriageReturn text then { state with structuralUnknown := true }
  else
    match splitLines text with
    | ([], _) => { state with partialLine := state.partialLine ++ text }
    | (line :: lines, rest) =>
        let first := applyLine state (stripCarriageReturn (state.partialLine ++ line))
        { lines.foldl (fun state line => applyLine state (stripCarriageReturn line)) first with
          partialLine := rest }

/-- The line starts recorded for one whole line that begins at `start`. -/
def recordLine (state : ProtectionScanState) (start : Int) (line : Text) :
    Option (List (Int × Bool)) :=
  if state.fenceChar.isSome then some [(start, true)]
  else
    let probe := applyLine state line
    if probe.paragraphAmbiguous || probe.structuralUnknown then none
    else
      match if probe.fenceChar.isSome then fenceOpen line else none with
      | some opened => some [(start, false), (start + opened.indent, true)]
      | none => some [(start, false)]

/-- The walk over the lines of the incoming piece on a copy of the carried state. Offsets
are relative to the piece; a carried partial line began before it. -/
def walkLines (state : ProtectionScanState) (lineStart : Nat) :
    List Text → Text → Option (List (Int × Bool))
  | [], rest =>
      if rest = [] ∧ state.partialLine = [] then some []
      else if state.fenceChar.isSome then
        some [((lineStart : Int) - state.partialLine.length, true)]
      else none
  | piece :: pieces, rest =>
      let line := stripCarriageReturn (state.partialLine ++ piece)
      (recordLine state ((lineStart : Int) - state.partialLine.length) line).bind fun recorded =>
        let state := applyLine state line
        if state.paragraphAmbiguous || state.structuralUnknown then none
        else
          (walkLines { state with partialLine := [] } (lineStart + piece.length + 1)
            pieces rest).map (recorded ++ ·)

/-- The closure the fast path returns: the line starts its cursor has not passed, and the
verdict of the last one it passed. -/
structure Resolver where
  lineStarts : List (Int × Bool)
  isProtected : Bool
  deriving DecidableEq, Repr

/-- One call of the closure. -/
def Resolver.query (resolver : Resolver) (offset : Nat) : Bool × Resolver :=
  let passed := resolver.lineStarts.takeWhile fun entry => decide (entry.1 ≤ (offset : Int))
  let isProtected := (passed.getLast?.map (·.2)).getD resolver.isProtected
  (isProtected,
    ⟨resolver.lineStarts.dropWhile fun entry => decide (entry.1 ≤ (offset : Int)), isProtected⟩)

/-- The answers to successive calls of the closure. -/
def Resolver.answers (resolver : Resolver) : List Nat → List Bool
  | [] => []
  | offset :: offsets =>
      (resolver.query offset).1 :: (resolver.query offset).2.answers offsets

def resolveProtectionFastPath (carried : ProtectionScanState) (incoming : Text) :
    Option Resolver :=
  if carried.paragraphAmbiguous || carried.structuralUnknown then none
  else if hasBareCarriageReturn incoming then none
  else
    match splitLines incoming with
    | (pieces, rest) => (walkLines carried 0 pieces rest).map fun lineStarts => ⟨lineStarts, false⟩

end OpenClaw.ToolCallRepair

/-!
How the carried state depends on the pieces the text came in. Pieces without an
unpaired carriage return give the state of their concatenation; a piece with one
leaves fence parity unknown for good, and where the text itself pairs every carriage
return, such a piece ends inside a pair.
-/

namespace OpenClaw.ToolCallRepair

open JsUnits FenceScan

section Lines

theorem applyLine_withPartial (state : ProtectionScanState) (line unfinished : Text) :
    applyLine { state with partialLine := unfinished } line =
      { applyLine state line with partialLine := unfinished } := by
  obtain ⟨fenceChar, fenceLength, ambiguous, unknown, rest⟩ := state
  cases unknown with
  | true => rfl
  | false =>
      cases fenceChar with
      | some fenceChar =>
          simp only [applyLine]
          cases fenceClose line with
          | none => rfl
          | some run =>
              by_cases fits : run.marker = fenceChar ∧ fenceLength ≤ run.length <;> simp [fits]
      | none =>
          simp only [applyLine]
          cases isBlank line with
          | true => rfl
          | false =>
              cases fenceOpen line with
              | some opened =>
                  by_cases vague : ambiguous = true ∨ opened.indent ≠ 0 ∨
                    (opened.fence.marker = .backtick ∧ Marker.backtick.unit ∈ opened.info) <;>
                    simp only [Bool.false_eq_true, if_false, vague, if_true]
              | none =>
                  cases unclassifiedFenceDelimiter line with
                  | true => rfl
                  | false => cases hasBacktick line || unmodeledBlockStart line <;> rfl

theorem applyLine_unknown {state : ProtectionScanState} (unknown : state.structuralUnknown)
    (line : Text) : applyLine state line = state := by
  simp [applyLine, unknown]

/-- The lines of a piece, applied in order. -/
def applyLines (state : ProtectionScanState) (lines : List Text) : ProtectionScanState :=
  lines.foldl (fun state line => applyLine state (stripCarriageReturn line)) state

theorem applyLines_withPartial (state : ProtectionScanState) (lines : List Text)
    (unfinished : Text) :
    applyLines { state with partialLine := unfinished } lines =
      { applyLines state lines with partialLine := unfinished } := by
  induction lines generalizing state with
  | nil => rfl
  | cons line lines ih =>
      simp only [applyLines, List.foldl_cons] at ih ⊢
      rw [applyLine_withPartial, ih]

theorem applyLines_unknown {state : ProtectionScanState} (unknown : state.structuralUnknown)
    (lines : List Text) : applyLines state lines = state := by
  induction lines with
  | nil => rfl
  | cons line lines ih =>
      simp only [applyLines, List.foldl_cons] at ih ⊢
      rw [applyLine_unknown unknown, ih]

end Lines

section Pieces

/-- A piece that leaves no carriage return unpaired is its lines, applied in order. -/
theorem advance_eq_applyLines {state : ProtectionScanState} {text : Text}
    (paired : hasBareCarriageReturn text = false) :
    advanceProtectionScanState state text =
      match splitLines text with
      | ([], rest) => { state with partialLine := state.partialLine ++ rest }
      | (line :: lines, rest) =>
          { applyLines state ((state.partialLine ++ line) :: lines) with partialLine := rest } := by
  by_cases empty : text = []
  · subst empty
    simp [advanceProtectionScanState, splitLines]
  · simp only [advanceProtectionScanState, if_neg empty, paired, Bool.false_eq_true, if_false]
    rcases split : splitLines text with ⟨_ | ⟨line, lines⟩, rest⟩
    · have same : rest = text := by
        have := @splitLines_fst_eq_nil text (by rw [split])
        rwa [split] at this
      simp [same]
    · simp [applyLines]

theorem advance_append {state : ProtectionScanState} {a b : Text}
    (left : hasBareCarriageReturn a = false) (right : hasBareCarriageReturn b = false) :
    advanceProtectionScanState (advanceProtectionScanState state a) b =
      advanceProtectionScanState state (a ++ b) := by
  rw [advance_eq_applyLines left, advance_eq_applyLines right,
    advance_eq_applyLines (hasBareCarriageReturn_append left right), splitLines_append]
  rcases splitLines a with ⟨_ | ⟨lineA, linesA⟩, restA⟩ <;>
    rcases splitLines b with ⟨_ | ⟨lineB, linesB⟩, restB⟩
  · simp
  · simp only [List.nil_append, List.append_assoc, applyLines_withPartial]
  · simp
  · simp only [List.cons_append, applyLines_withPartial]
    simp only [applyLines, List.foldl_cons, List.foldl_append]

theorem advance_unknown {state : ProtectionScanState} (unknown : state.structuralUnknown)
    (text : Text) : (advanceProtectionScanState state text).structuralUnknown := by
  unfold advanceProtectionScanState
  split
  · exact unknown
  · split
    · rfl
    · rcases splitLines text with ⟨_ | ⟨line, lines⟩, rest⟩
      · exact unknown
      · simp only [applyLine_unknown unknown]
        exact (congrArg _ (applyLines_unknown unknown lines)).trans unknown

theorem foldl_advance_unknown {state : ProtectionScanState} (unknown : state.structuralUnknown)
    (pieces : List Text) :
    (pieces.foldl advanceProtectionScanState state).structuralUnknown := by
  induction pieces generalizing state with
  | nil => exact unknown
  | cons piece pieces ih => exact ih (advance_unknown unknown piece)

theorem advance_bare {state : ProtectionScanState} {text : Text}
    (bare : hasBareCarriageReturn text) :
    (advanceProtectionScanState state text).structuralUnknown := by
  have nonempty : text ≠ [] := by
    rintro rfl
    simp [hasBareCarriageReturn] at bare
  simp [advanceProtectionScanState, nonempty, bare]

theorem advance_nil (state : ProtectionScanState) : advanceProtectionScanState state [] = state :=
  if_pos rfl

theorem foldl_advance_bare {pieces : List Text} {piece : Text} (mem : piece ∈ pieces)
    (bare : hasBareCarriageReturn piece) (state : ProtectionScanState) :
    (pieces.foldl advanceProtectionScanState state).structuralUnknown := by
  obtain ⟨front, back, rfl⟩ := List.append_of_mem mem
  rw [List.foldl_append, List.foldl_cons]
  exact foldl_advance_unknown (advance_bare bare) back

theorem flatten_paired {pieces : List Text}
    (paired : ∀ piece ∈ pieces, hasBareCarriageReturn piece = false) :
    hasBareCarriageReturn pieces.flatten = false := by
  induction pieces with
  | nil => rfl
  | cons piece pieces ih =>
      exact hasBareCarriageReturn_append (paired piece (by simp))
        (ih fun other mem => paired other (by simp [mem]))

/-- How the text was cut does not matter where no piece ends in an unpaired carriage return. -/
theorem foldl_advance_eq (state : ProtectionScanState) {pieces : List Text}
    (paired : ∀ piece ∈ pieces, hasBareCarriageReturn piece = false) :
    pieces.foldl advanceProtectionScanState state =
      advanceProtectionScanState state pieces.flatten := by
  induction pieces generalizing state with
  | nil => exact (advance_nil state).symm
  | cons piece pieces ih =>
      have later : ∀ other ∈ pieces, hasBareCarriageReturn other = false :=
        fun other mem => paired other (by simp [mem])
      rw [List.foldl_cons, ih _ later, advance_append (paired piece (by simp))
        (flatten_paired later), List.flatten_cons]

/-- A carriage return that is unpaired in a piece and paired in the text ends the piece. -/
theorem ends_inside_pair {a b : Text} (bare : hasBareCarriageReturn a)
    (paired : hasBareCarriageReturn (a ++ b) = false) :
    a.getLast? = some carriageReturn ∧ b.head? = some lineFeed := by
  induction a with
  | nil => simp [hasBareCarriageReturn] at bare
  | cons u us ih =>
      simp only [List.cons_append, hasBareCarriageReturn, Bool.or_eq_false_iff] at paired
      cases us with
      | nil =>
          have ret : u = carriageReturn := by simpa [hasBareCarriageReturn] using bare
          subst ret
          simpa using paired.1
      | cons v vs =>
          have later : hasBareCarriageReturn (v :: vs) = true := by
            have first := paired.1
            simp only [List.cons_append, List.head?_cons] at first
            rw [hasBareCarriageReturn, List.head?_cons, first, Bool.false_or] at bare
            exact bare
          obtain ⟨last, next⟩ := ih later paired.2
          exact ⟨by rw [List.getLast?_cons_cons]; exact last, next⟩

theorem split_inside_pair {pieces : List Text} (paired : hasBareCarriageReturn pieces.flatten = false)
    {piece : Text} (mem : piece ∈ pieces) (bare : hasBareCarriageReturn piece) :
    ∃ front back : List Text, ∃ cut : Text, pieces = front ++ cut :: back ∧
      cut.getLast? = some carriageReturn ∧ back.flatten.head? = some lineFeed := by
  induction pieces with
  | nil => simp at mem
  | cons first pieces ih =>
      by_cases here : hasBareCarriageReturn first = true
      · obtain ⟨last, next⟩ := ends_inside_pair here paired
        exact ⟨[], pieces, first, rfl, last, next⟩
      · have later : piece ∈ pieces := by
          rcases List.mem_cons.mp mem with rfl | later
          · exact absurd bare here
          · exact later
        have rest : hasBareCarriageReturn pieces.flatten = false := by
          cases bareRest : hasBareCarriageReturn pieces.flatten with
          | false => rfl
          | true =>
              have whole : hasBareCarriageReturn (first ++ pieces.flatten) = true := by
                clear ih paired mem here
                induction first with
                | nil => exact bareRest
                | cons u us ih => simp [hasBareCarriageReturn, ih]
              rw [List.flatten_cons, whole] at paired
              exact absurd paired (by decide)
        obtain ⟨front, back, cut, rfl, last, next⟩ := ih rest later
        exact ⟨first :: front, back, cut, rfl, last, next⟩

end Pieces

end OpenClaw.ToolCallRepair
