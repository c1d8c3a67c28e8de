import OpenClaw.ToolCallRepair.ProtectionPieces

/-!
The fast path against the fence scan of the whole text. While fence parity is known
the carried state tracks the scan line by line; the line starts recorded for an
incoming piece then carry the scan's verdicts, and the cursor of the returned closure
finds them as long as it is asked from left to right.
-/

namespace OpenClaw.ToolCallRepair

open JsUnits FenceScan

section LineKinds

theorem indentColumns_of_spaces {rest : Text} (column : Nat) (line : Text)
    (split : line.dropWhile (· == space) = rest) (noTab : rest.head? ≠ some tab) :
    indentColumns column line = column + (line.takeWhile (· == space)).length := by
  induction line generalizing column with
  | nil => simp [indentColumns]
  | cons u us ih =>
      by_cases blank : u = space
      · subst blank
        have tail : us.dropWhile (· == space) = rest := by simpa using split
        have length : ((space :: us).takeWhile (· == space)).length =
            (us.takeWhile (· == space)).length + 1 := by simp
        rw [indentColumns, if_pos rfl, ih (column + 1) tail, length]
        omega
      · have whole : u :: us = rest := by simpa [blank] using split
        have notTab : u ≠ tab := fun same => noTab (by rw [← whole, same]; rfl)
        simp [indentColumns, blank, notTab]

theorem head_endsMarker {rest : Text} (blank : rest.head?.all isHorizontal) :
    endsMarker rest := by
  cases rest with
  | nil => rfl
  | cons u us =>
      have horizontal : isHorizontal u = true := blank
      show isWhitespace u = true
      rcases Bool.or_eq_true_iff.mp horizontal with same | same
      · rw [eq_of_beq same]; decide
      · rw [eq_of_beq same]; decide

theorem unmodeled_of_quote {line : Text} (quote : isQuote line) : unmodeledBlockStart line := by
  obtain ⟨rest, content, head⟩ := (Option.any_eq_true _ _).mp quote
  obtain ⟨few, same⟩ := Option.ite_none_right_eq_some.mp content
  cases same
  simp [unmodeledBlockStart, few, head]

theorem unmodeled_of_listItem {line : Text} (item : isListItem line) :
    unmodeledBlockStart line := by
  obtain ⟨rest, content, marker⟩ := (Option.any_eq_true _ _).mp item
  obtain ⟨few, same⟩ := Option.ite_none_right_eq_some.mp content
  cases same
  rcases Bool.or_eq_true_iff.mp marker with bullet | ordinal
  · obtain ⟨head, blank⟩ := Bool.and_eq_true_iff.mp bullet
    simp only [unmodeledBlockStart, decide_eq_true few, head, head_endsMarker blank,
      Bool.and_self, Bool.or_true, Bool.true_or]
  · simp only [isOrdinal, Bool.and_eq_true] at ordinal
    obtain ⟨⟨⟨some, nine⟩, head⟩, blank⟩ := ordinal
    simp only [unmodeledBlockStart, decide_eq_true few, some, nine, head,
      head_endsMarker blank, Bool.and_self, Bool.or_true, Bool.true_or]

theorem unmodeled_of_indentedCode {line : Text} (code : isIndentedCode line) :
    unmodeledBlockStart line := by
  have columns := (Bool.and_eq_true_iff.mp code).2
  by_cases noTab : (line.dropWhile (· == space)).head? = some tab
  · simp [unmodeledBlockStart, noTab]
  · rw [indentColumns_of_spaces 0 line rfl noTab, Nat.zero_add] at columns
    simp only [unmodeledBlockStart, columns, Bool.or_true, Bool.true_or]

theorem isPlain_of_modeled {line : Text} (noTick : hasBacktick line = false)
    (modeled : unmodeledBlockStart line = false) : IsPlain line := by
  refine ⟨noTick, ?_, ?_, ?_⟩
  · exact Bool.eq_false_iff.mpr fun code => by simp [unmodeled_of_indentedCode code] at modeled
  · exact Bool.eq_false_iff.mpr fun quote => by simp [unmodeled_of_quote quote] at modeled
  · exact Bool.eq_false_iff.mpr fun item => by simp [unmodeled_of_listItem item] at modeled

end LineKinds

section Tracking

/-- What the carried state knows of the scan, while fence parity is known. -/
structure Tracks (state : ProtectionScanState) (block : Block) : Prop where
  fence : state.structuralUnknown = false →
    block.fence = state.fenceChar.map (⟨·, state.fenceLength⟩)
  paragraph : state.structuralUnknown = false → state.paragraphAmbiguous = false →
    ∀ line ∈ block.paragraph, IsPlain line

theorem Tracks.initial : Tracks createProtectionScanState .initial :=
  ⟨fun _ => rfl, fun _ _ line mem => absurd mem (by simp [Block.initial])⟩

theorem closes_eq (fence : Fence) (line : Text) :
    closes fence line =
      (fenceClose line).any fun run =>
        decide (run.marker = fence.marker ∧ fence.length ≤ run.length) := by
  unfold closes fenceClose
  cases delimiter line with
  | none => rfl
  | some run =>
      cases blank : run.info.all isHorizontal <;>
        simp [Option.filter, blank]

/-- In unambiguous context a delimiter at column zero opens the fence it spells. -/
theorem opens_of_fenceOpen {line : Text} {opened : Delimiter} (found : fenceOpen line = some opened)
    (proper : ¬(opened.fence.marker = .backtick ∧ Marker.backtick.unit ∈ opened.info)) :
    opens line = some opened.fence := by
  simp only [fenceOpen] at found
  simp [opens, found, proper]

theorem opens_eq_none {line : Text} (missing : fenceOpen line = none) : opens line = none := by
  simp only [fenceOpen] at missing
  simp [opens, missing]

theorem Tracks.applyLine {state : ProtectionScanState} {block : Block} (tracks : Tracks state block)
    (line : Text) : Tracks (applyLine state line) (block.step line) := by
  by_cases unknown : state.structuralUnknown = true
  · rw [applyLine_unknown unknown]
    exact ⟨fun known => by simp [unknown] at known, fun known => by simp [unknown] at known⟩
  · have known : state.structuralUnknown = false := Bool.eq_false_iff.mpr unknown
    have fence := tracks.fence known
    have plain := tracks.paragraph known
    simp only [ToolCallRepair.applyLine, known, Bool.false_eq_true, if_false]
    cases char : state.fenceChar with
    | some fenceChar =>
        rw [char] at fence
        simp only [Block.step, fence, Option.map_some, closes_eq]
        cases fenceClose line with
        | none => exact ⟨fun _ => by simp [char], fun _ _ => by simp⟩
        | some run =>
            by_cases fits : run.marker = fenceChar ∧ state.fenceLength ≤ run.length
            · simp only [fits, and_self, if_true, Option.any_some, decide_true]
              exact ⟨fun _ => by simp, fun _ _ => by simp⟩
            · simp only [fits, if_false, Option.any_some, decide_false, Bool.false_eq_true]
              exact ⟨fun _ => by simp [char], fun _ _ => by simp⟩
    | none =>
        rw [char] at fence
        simp only [Block.step, fence, Option.map_none]
        by_cases blank : isBlank line = true
        · simp only [blank, if_true]
          exact ⟨fun _ => by simp, fun _ _ => by simp⟩
        · simp only [blank, Bool.false_eq_true, if_false]
          cases found : fenceOpen line with
          | some opened =>
              by_cases vague : state.paragraphAmbiguous = true ∨ opened.indent ≠ 0 ∨
                  (opened.fence.marker = .backtick ∧ Marker.backtick.unit ∈ opened.info)
              · simp only [vague, if_true]
                exact ⟨fun absent => by simp at absent, fun absent => by simp at absent⟩
              · simp only [vague, if_false]
                have opening := opens_of_fenceOpen found fun tick => vague (.inr (.inr tick))
                simp only [opening]
                exact ⟨fun _ => by simp, fun _ _ => by simp⟩
          | none =>
              simp only [opens_eq_none found]
              cases unclassifiedFenceDelimiter line with
              | true => exact ⟨fun absent => by simp at absent, fun absent => by simp at absent⟩
              | false =>
                  simp only [Bool.false_eq_true, if_false]
                  cases modeled : hasBacktick line || unmodeledBlockStart line with
                  | true => exact ⟨fun _ => by simp, fun _ absent => by simp at absent⟩
                  | false =>
                      obtain ⟨noTick, start⟩ := Bool.or_eq_false_iff.mp modeled
                      refine ⟨fun _ => by simp [char], fun _ clear other mem => ?_⟩
                      rcases List.mem_append.mp mem with old | new
                      · exact plain clear other old
                      · rw [List.mem_singleton.mp new]
                        exact isPlain_of_modeled noTick start

theorem Tracks.withPartial {state : ProtectionScanState} {block : Block}
    (tracks : Tracks state block) (unfinished : Text) :
    Tracks { state with partialLine := unfinished } block :=
  ⟨tracks.fence, tracks.paragraph⟩

theorem Tracks.applyLines {state : ProtectionScanState} {block : Block}
    (tracks : Tracks state block) (lines : List Text) :
    Tracks (applyLines state lines)
      ((lines.map stripCarriageReturn).foldl Block.step block) := by
  induction lines generalizing state block with
  | nil => exact tracks
  | cons line lines ih => exact ih (tracks.applyLine (stripCarriageReturn line))

end Tracking

section Lookup

/-- The verdict of the last recorded line start at or before the offset. -/
def lookup (isProtected : Bool) (lineStarts : List (Int × Bool)) (offset : Nat) : Bool :=
  (((lineStarts.takeWhile fun entry => decide (entry.1 ≤ (offset : Int))).getLast?).map
    (·.2)).getD isProtected

theorem lookup_append {isProtected : Bool} {front back : List (Int × Bool)} {offset : Nat}
    (passed : ∀ entry ∈ front, entry.1 ≤ (offset : Int)) :
    lookup isProtected (front ++ back) offset =
      lookup ((front.getLast?.map (·.2)).getD isProtected) back offset := by
  have whole : ∀ entry ∈ front, decide (entry.1 ≤ (offset : Int)) = true :=
    fun entry mem => decide_eq_true (passed entry mem)
  unfold lookup
  rw [List.takeWhile_append_of_pos whole, List.getLast?_append]
  cases (back.takeWhile fun entry => decide (entry.1 ≤ (offset : Int))).getLast? <;> simp

theorem lookup_of_lt {isProtected : Bool} {lineStarts : List (Int × Bool)} {offset : Nat}
    (later : ∀ entry ∈ lineStarts, (offset : Int) < entry.1) :
    lookup isProtected lineStarts offset = isProtected := by
  cases lineStarts with
  | nil => rfl
  | cons entry rest =>
      have := later entry (by simp)
      simp [lookup, this]

theorem lookup_dropWhile {isProtected : Bool} {lineStarts : List (Int × Bool)}
    {first offset : Nat} (le : first ≤ offset) :
    lookup (lookup isProtected lineStarts first)
        (lineStarts.dropWhile fun entry => decide (entry.1 ≤ (first : Int))) offset =
      lookup isProtected lineStarts offset := by
  have passed : ∀ entry ∈ lineStarts.takeWhile fun entry => decide (entry.1 ≤ (first : Int)),
      entry.1 ≤ (offset : Int) := by
    intro entry mem
    have := List.mem_takeWhile_imp mem
    have early : entry.1 ≤ (first : Int) := by simpa using this
    omega
  conv_rhs => rw [← List.takeWhile_append_dropWhile
    (p := fun entry : Int × Bool => decide (entry.1 ≤ (first : Int))) (l := lineStarts)]
  rw [lookup_append passed]
  rfl

/-- Asked from left to right, the closure answers with the nearest preceding line start. -/
theorem answers_eq_lookup (resolver : Resolver) {offsets : List Nat}
    (ordered : offsets.Pairwise (· ≤ ·)) :
    resolver.answers offsets =
      offsets.map (lookup resolver.isProtected resolver.lineStarts) := by
  induction offsets generalizing resolver with
  | nil => rfl
  | cons first offsets ih =>
      obtain ⟨le, rest⟩ := List.pairwise_cons.mp ordered
      simp only [Resolver.answers, List.map_cons]
      refine congrArg₂ _ rfl ?_
      rw [ih _ rest]
      exact List.map_congr_left fun offset mem => lookup_dropWhile (le offset mem)

end Lookup

section Walk

theorem applyLine_opens {state : ProtectionScanState} {line : Text}
    (known : state.structuralUnknown = false) (closed : state.fenceChar = none)
    (after : (applyLine state line).structuralUnknown = false)
    (inside : (applyLine state line).fenceChar.isSome) :
    ∃ opened, fenceOpen line = some opened ∧ opened.indent = 0 := by
  simp only [applyLine, known, Bool.false_eq_true, if_false, closed] at after inside
  by_cases blank : isBlank line = true
  · simp [blank] at inside
  · simp only [blank, Bool.false_eq_true, if_false] at after inside
    cases found : fenceOpen line with
    | some opened =>
        refine ⟨opened, rfl, ?_⟩
        by_contra indented
        simp [found, indented] at after
    | none =>
        simp only [found] at after inside
        cases unclassified : unclassifiedFenceDelimiter line with
        | true => simp [unclassified] at after
        | false =>
            cases modeled : hasBacktick line || unmodeledBlockStart line <;>
              simp [unclassified, modeled, closed] at inside

theorem le_of_mem_recordLine {state : ProtectionScanState} {start : Int} {line : Text}
    {recorded : List (Int × Bool)} (found : recordLine state start line = some recorded) :
    ∀ entry ∈ recorded, start ≤ entry.1 := by
  unfold recordLine at found
  split at found
  · cases found
    simp
  · dsimp only at found
    split at found
    · cases found
    · split at found <;> cases found <;> simp

/-- What a whole line records is its start, last with the verdict of the scan. -/
theorem recordLine_agrees {state : ProtectionScanState} {block : Block} {start : Int} {line : Text}
    {recorded : List (Int × Bool)} (tracks : Tracks state block)
    (known : state.structuralUnknown = false)
    (found : recordLine state start line = some recorded) :
    (∀ entry ∈ recorded, entry.1 = start) ∧
      recorded.getLast?.map (·.2) = some (block.protects line) := by
  have fence := tracks.fence known
  unfold recordLine at found
  cases char : state.fenceChar with
  | some fenceChar =>
      rw [char] at found fence
      cases found
      simp [Block.protects, fence]
  | none =>
      rw [char] at found fence
      simp only [Option.isSome_none, Bool.false_eq_true, if_false] at found
      have next := tracks.applyLine line
      by_cases doubt : ((applyLine state line).paragraphAmbiguous ||
          (applyLine state line).structuralUnknown) = true
      · simp [doubt] at found
      · simp only [doubt, Bool.false_eq_true, if_false] at found
        have after : (applyLine state line).structuralUnknown = false := by
          simpa using (Bool.or_eq_false_iff.mp (Bool.eq_false_iff.mpr doubt)).2
        have opening : opens line = (applyLine state line).fenceChar.map
            (⟨·, (applyLine state line).fenceLength⟩) := by
          rw [← Block.step_fence fence line]
          exact next.fence after
        by_cases inside : (applyLine state line).fenceChar.isSome = true
        · obtain ⟨opened, delimited, column⟩ := applyLine_opens known char after inside
          simp only [inside, if_true, delimited] at found
          cases found
          exact ⟨by simp [column], by simp [Block.protects, opening, inside]⟩
        · simp only [inside, Bool.false_eq_true, if_false] at found
          cases found
          exact ⟨by simp, by simp [Block.protects, opening, inside, fence]⟩

theorem le_of_mem_walkLines {pieces : List Text} {rest : Text} {state : ProtectionScanState}
    {lineStart : Nat} {lineStarts : List (Int × Bool)}
    (walked : walkLines state lineStart pieces rest = some lineStarts) :
    ∀ entry ∈ lineStarts, (lineStart : Int) - state.partialLine.length ≤ entry.1 := by
  induction pieces generalizing state lineStart lineStarts with
  | nil =>
      unfold walkLines at walked
      split at walked
      · cases walked
        simp
      · split at walked
        · cases walked
          simp
        · cases walked
  | cons piece pieces ih =>
      obtain ⟨recorded, found, taken⟩ := Option.bind_eq_some_iff.mp walked
      dsimp only at taken
      split at taken
      · cases taken
      · obtain ⟨later, walkedLater, rfl⟩ := Option.map_eq_some_iff.mp taken
        intro entry mem
        rcases List.mem_append.mp mem with own | next
        · exact le_of_mem_recordLine found entry own
        · have bound := ih walkedLater entry next
          simp only [List.length_nil, Nat.cast_add, Nat.cast_one, Nat.cast_zero] at bound
          omega

theorem le_start_of_mem_scanFrom {lines : List Text} {rest : Text} {block : Block}
    {start : Nat} {verdict : Verdict}
    (mem : verdict ∈ scanFrom block (numberLines start lines rest)) :
    start ≤ verdict.start := by
  induction lines generalizing block start with
  | nil =>
      rw [List.mem_singleton.mp mem]
  | cons line lines ih =>
      rcases List.mem_cons.mp mem with rfl | later
      · exact Nat.le_refl _
      · have := ih later
        omega

/-- The length of the walked text, line feeds included. -/
def walkedLength (pieces : List Text) (rest : Text) : Nat :=
  (pieces.map fun piece => piece.length + 1).sum + rest.length

/-- Line by line the recorded line starts carry the verdicts of the scan, and no unmodelled
line stands in the paragraph open before any of them. -/
theorem walkLines_agrees {pieces : List Text} {rest : Text} {state : ProtectionScanState}
    {block : Block} {base lineStart start : Nat} {lineStarts : List (Int × Bool)}
    {isProtected : Bool} (tracks : Tracks state block)
    (known : state.structuralUnknown = false) (clear : state.paragraphAmbiguous = false)
    (walked : walkLines state lineStart pieces rest = some lineStarts)
    (position : (start : Int) = base + lineStart - state.partialLine.length)
    {verdict : Verdict} {offset : Nat}
    (mem : verdict ∈ scanFrom block (numberFrom start state.partialLine pieces rest))
    (asked : verdict.start = base + offset)
    (inside : offset < lineStart + walkedLength pieces rest) :
    lookup isProtected lineStarts offset = verdict.inFence ∧
      ∀ line ∈ verdict.paragraph, IsPlain line := by
  induction pieces generalizing state block lineStart start lineStarts isProtected with
  | nil =>
      have same : verdict = _ := List.mem_singleton.mp mem
      subst same
      refine ⟨?_, tracks.paragraph known clear⟩
      have fence := tracks.fence known
      unfold walkLines at walked
      split at walked
      case isTrue empty =>
        simp only [walkedLength, empty.1, empty.2, List.length_nil, List.map_nil, List.sum_nil]
          at inside position asked
        omega
      case isFalse nonempty =>
        split at walked
        case isFalse outside => cases walked
        case isTrue fenced =>
          cases walked
          have here : ((lineStart : Int) - state.partialLine.length) ≤ (offset : Int) := by
            dsimp only at asked
            omega
          have blockFenced : block.fence.isSome = true := by rw [fence]; simpa using fenced
          simp [lookup, here, Block.protects, blockFenced]
  | cons piece pieces ih =>
      obtain ⟨recorded, found, taken⟩ := Option.bind_eq_some_iff.mp walked
      dsimp only at taken
      split at taken
      case isTrue doubt => cases taken
      case isFalse sure =>
        obtain ⟨later, walkedLater, rfl⟩ := Option.map_eq_some_iff.mp taken
        obtain ⟨starts, last⟩ := recordLine_agrees tracks known found
        have stay := Bool.or_eq_false_iff.mp (Bool.eq_false_iff.mpr sure)
        have bound := le_of_mem_walkLines walkedLater
        simp only [List.length_nil, Nat.cast_zero, Int.sub_zero] at bound
        rcases List.mem_cons.mp mem with same | next
        · subst same
          dsimp only at asked
          have passed : ∀ entry ∈ recorded, entry.1 ≤ (offset : Int) := by
            intro entry own
            rw [starts entry own]
            omega
          refine ⟨?_, tracks.paragraph known clear⟩
          rw [lookup_append passed, last]
          refine lookup_of_lt fun entry own => ?_
          have := bound entry own
          omega
        · have le := le_start_of_mem_scanFrom next
          have passed : ∀ entry ∈ recorded, entry.1 ≤ (offset : Int) := by
            intro entry own
            rw [starts entry own]
            omega
          rw [lookup_append passed]
          rw [← numberFrom_nil] at next
          refine ih (tracks.applyLine _ |>.withPartial []) stay.2 stay.1 walkedLater ?_ next ?_
          · simp only [List.length_append, List.length_nil] at position ⊢
            push_cast
            omega
          · simp only [walkedLength, List.map_cons, List.sum_cons] at inside ⊢
            omega

end Walk

section Agreement

theorem length_splitLines (text : Text) :
    text.length = walkedLength (splitLines text).1 (splitLines text).2 := by
  induction text with
  | nil => rfl
  | cons u us ih =>
      simp only [splitLines, List.length_cons]
      by_cases feed : u = lineFeed
      · simp only [if_pos feed, walkedLength, List.map_cons, List.sum_cons, List.length_nil] at ih ⊢
        omega
      · simp only [if_neg feed]
        rcases split : splitLines us with ⟨_ | ⟨line, lines⟩, rest⟩ <;>
          simp only [split, walkedLength, List.map_cons, List.map_nil, List.sum_cons,
            List.sum_nil, List.length_cons] at ih ⊢ <;> omega

/-- A verdict behind the first lines is one of the scan that starts after them. -/
theorem mem_scanFrom_append {lines more : List Text} {rest : Text} {block : Block} {start : Nat}
    {verdict : Verdict} (mem : verdict ∈ scanFrom block (numberLines start (lines ++ more) rest))
    (behind : start + walkedLength lines [] ≤ verdict.start) :
    verdict ∈ scanFrom ((lines.map stripCarriageReturn).foldl Block.step block)
      (numberLines (start + walkedLength lines []) more rest) := by
  induction lines generalizing block start with
  | nil => simpa [walkedLength] using mem
  | cons line lines ih =>
      have shift : start + line.length + 1 + walkedLength lines [] =
          start + walkedLength (line :: lines) [] := by
        simp only [walkedLength, List.map_cons, List.sum_cons, List.length_nil]
        omega
      rcases List.mem_cons.mp mem with rfl | later
      · simp only [walkedLength, List.map_cons, List.sum_cons, List.length_nil] at behind
        omega
      · rw [← shift] at behind ⊢
        exact ih later behind

theorem scan_eq {text : Text} (paired : hasBareCarriageReturn text = false) :
    scan text = scanFrom .initial (numberLines 0 (splitLines text).1 (splitLines text).2) := by
  rw [scan, linesFrom_eq_numberFrom 0 0 [] text paired (by simp) rfl, numberFrom_nil]

/-- The scan of a text behind its first part is the scan of the second part from the block
state and the unfinished line the first part leaves. -/
theorem mem_scan_append {a b : Text} (left : hasBareCarriageReturn a = false)
    (right : hasBareCarriageReturn b = false) {verdict : Verdict}
    (mem : verdict ∈ scan (a ++ b)) (behind : a.length ≤ verdict.start) :
    verdict ∈ scanFrom (((splitLines a).1.map stripCarriageReturn).foldl Block.step .initial)
      (numberFrom (walkedLength (splitLines a).1 []) (splitLines a).2 (splitLines b).1
        (splitLines b).2) := by
  have length := length_splitLines a
  rw [scan_eq (hasBareCarriageReturn_append left right), splitLines_append] at mem
  rcases splitA : splitLines a with ⟨linesA, restA⟩
  rw [splitA] at mem length
  have front : 0 + walkedLength linesA [] ≤ verdict.start := by
    simp only [walkedLength, List.length_nil] at length ⊢
    omega
  rcases splitB : splitLines b with ⟨_ | ⟨line, linesB⟩, restB⟩
  · rw [splitB] at mem
    rw [← List.append_nil linesA] at mem
    simpa [numberLines, numberFrom] using mem_scanFrom_append mem front
  · rw [splitB] at mem
    simpa [numberFrom] using mem_scanFrom_append mem front

theorem advance_tracks {text : Text} (paired : hasBareCarriageReturn text = false) :
    Tracks (advanceProtectionScanState createProtectionScanState text)
        (((splitLines text).1.map stripCarriageReturn).foldl Block.step .initial) ∧
      (advanceProtectionScanState createProtectionScanState text).partialLine =
        (splitLines text).2 := by
  rw [advance_eq_applyLines paired]
  rcases splitLines text with ⟨_ | ⟨line, lines⟩, rest⟩
  · exact ⟨Tracks.initial.withPartial _, rfl⟩
  · exact ⟨(Tracks.initial.applyLines (line :: lines)).withPartial rest, rfl⟩

/-- For every text and every way it was cut into pieces: a returned closure, asked from left
to right at line starts of the incoming piece, gives the verdicts of the fence scan of the
whole text, and the paragraph open before such a line holds no line with a backtick, no
list, no quote and no indented code. The cut decides the result only where it falls inside a
line-ending pair, and there it leaves it undefined. -/
theorem fast_path_agrees_with_scan (pieces : List Text) (incoming : Text) :
    (∀ resolver, resolveProtectionFastPath
          (pieces.foldl advanceProtectionScanState createProtectionScanState) incoming =
            some resolver →
      ∀ asked : List Verdict,
        (∀ verdict ∈ asked, verdict ∈ scan (pieces.flatten ++ incoming) ∧
          pieces.flatten.length ≤ verdict.start ∧
          verdict.start < (pieces.flatten ++ incoming).length) →
        asked.Pairwise (·.start ≤ ·.start) →
        resolver.answers (asked.map (·.start - pieces.flatten.length)) = asked.map (·.inFence) ∧
          ∀ verdict ∈ asked, ∀ line ∈ verdict.paragraph, IsPlain line) ∧
    (resolveProtectionFastPath
          (pieces.foldl advanceProtectionScanState createProtectionScanState) incoming =
        resolveProtectionFastPath
          (advanceProtectionScanState createProtectionScanState pieces.flatten) incoming ∨
      resolveProtectionFastPath
          (pieces.foldl advanceProtectionScanState createProtectionScanState) incoming = none ∧
        ∃ front back : List Text, ∃ cut : Text, pieces = front ++ cut :: back ∧
          cut.getLast? = some carriageReturn ∧ back.flatten.head? = some lineFeed) := by
  have unresolved : ∀ {state : ProtectionScanState}, state.structuralUnknown →
      resolveProtectionFastPath state incoming = none := by
    intro state unknown
    simp [resolveProtectionFastPath, unknown]
  by_cases bare : ∃ piece ∈ pieces, hasBareCarriageReturn piece = true
  · obtain ⟨piece, mem, bare⟩ := bare
    have declined := unresolved (foldl_advance_bare mem bare createProtectionScanState)
    refine ⟨fun resolver found => absurd (declined.symm.trans found) (by simp), ?_⟩
    cases paired : hasBareCarriageReturn pieces.flatten with
    | true => exact .inl (declined.trans (unresolved (advance_bare paired)).symm)
    | false => exact .inr ⟨declined, split_inside_pair paired mem bare⟩
  · have paired : ∀ piece ∈ pieces, hasBareCarriageReturn piece = false :=
      fun piece mem => Bool.eq_false_iff.mpr fun h => bare ⟨piece, mem, h⟩
    rw [foldl_advance_eq _ paired]
    refine ⟨fun resolver found asked starts ordered => ?_, .inl rfl⟩
    obtain ⟨tracks, unfinished⟩ := advance_tracks (flatten_paired paired)
    unfold resolveProtectionFastPath at found
    split at found
    case isTrue doubt => cases found
    case isFalse sure =>
      split at found
      case isTrue bare => cases found
      case isFalse incomingPaired =>
        obtain ⟨lineStarts, walked, same⟩ := Option.map_eq_some_iff.mp found
        obtain ⟨clear, known⟩ := Bool.or_eq_false_iff.mp (Bool.eq_false_iff.mpr sure)
        have agrees : ∀ verdict ∈ asked,
            lookup resolver.isProtected resolver.lineStarts
                (verdict.start - pieces.flatten.length) = verdict.inFence ∧
              ∀ line ∈ verdict.paragraph, IsPlain line := by
          intro verdict mem
          obtain ⟨scanned, behind, before⟩ := starts verdict mem
          have own := mem_scan_append (flatten_paired paired)
            (Bool.eq_false_iff.mpr incomingPaired) scanned behind
          rw [← unfinished] at own
          rw [← same]
          have lengthCarried := length_splitLines pieces.flatten
          have lengthIncoming := length_splitLines incoming
          have position : ((walkedLength (splitLines pieces.flatten).1 [] : Nat) : Int) =
              (pieces.flatten.length : Nat) + (0 : Nat) -
                ((advanceProtectionScanState createProtectionScanState
                  pieces.flatten).partialLine).length := by
            rw [unfinished, lengthCarried]
            simp only [walkedLength, List.length_nil]
            push_cast
            omega
          rw [List.length_append] at before
          exact walkLines_agrees tracks known clear walked position own (by omega) (by omega)
        have distances : (asked.map (·.start - pieces.flatten.length)).Pairwise (· ≤ ·) := by
          rw [List.pairwise_map]
          exact ordered.imp fun le => Nat.sub_le_sub_right le _
        rw [answers_eq_lookup resolver distances, List.map_map]
        exact ⟨List.map_congr_left fun verdict mem => (agrees verdict mem).1,
          fun verdict mem => (agrees verdict mem).2⟩

theorem fast_path_agrees_with_scan_fenced :
    ∃ resolver, resolveProtectionFastPath
        ([lit "intro\n\n\x60\x60", lit "\x60toml\n"].foldl advanceProtectionScanState
          createProtectionScanState)
        (lit "[read]\n\x60\x60\x60\nend\n") = some resolver ∧
      resolver.answers [0, 7, 11] = [true, true, false] := by
  have found : resolveProtectionFastPath
      ([lit "intro\n\n\x60\x60", lit "\x60toml\n"].foldl advanceProtectionScanState
        createProtectionScanState)
      (lit "[read]\n\x60\x60\x60\nend\n") =
        some ⟨[(0, true), (7, true), (11, false)], false⟩ := by decide +kernel
  exact ⟨_, found, ((fast_path_agrees_with_scan _ _).1 _ found
    [⟨15, true, []⟩, ⟨22, true, []⟩, ⟨26, false, []⟩] (by decide +kernel) (by decide)).1⟩

end Agreement

end OpenClaw.ToolCallRepair
