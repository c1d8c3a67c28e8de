import OpenClaw.Lib.JsUnits

/-!
The line-by-line scan for fenced code blocks: a fence opens at a run of at least
three equal markers behind at most three spaces, and a run of the same marker that
is at least as long and followed by blanks alone closes it. Outside a fence the
lines since the last blank or fence line form the open paragraph.
-/

namespace FenceScan

open JsUnits

inductive Marker
  | backtick
  | tilde
  deriving DecidableEq, Repr

def Marker.unit : Marker → UInt16
  | .backtick => 0x60
  | .tilde => 0x7E

structure Fence where
  marker : Marker
  length : Nat
  deriving DecidableEq, Repr

/-- The delimiter run a line starts with: its indentation, its fence and the text behind it. -/
structure Delimiter where
  indent : Nat
  fence : Fence
  info : Text
  deriving DecidableEq, Repr

def runLength (marker : Marker) (text : Text) : Nat :=
  (text.takeWhile (· == marker.unit)).length

def delimiter (line : Text) : Option Delimiter :=
  let indent := (line.takeWhile (· == space)).length
  let rest := line.dropWhile (· == space)
  if 3 < indent then none
  else if 3 ≤ runLength .backtick rest then
    some ⟨indent, ⟨.backtick, runLength .backtick rest⟩, rest.drop (runLength .backtick rest)⟩
  else if 3 ≤ runLength .tilde rest then
    some ⟨indent, ⟨.tilde, runLength .tilde rest⟩, rest.drop (runLength .tilde rest)⟩
  else none

/-- The fence a line opens: the info string of a backtick fence has no backtick. -/
def opens (line : Text) : Option Fence :=
  (delimiter line).bind fun d =>
    if d.fence.marker = .backtick ∧ Marker.backtick.unit ∈ d.info then none else some d.fence

/-- The line closes the fence. -/
def closes (fence : Fence) (line : Text) : Bool :=
  (delimiter line).any fun d =>
    d.fence.marker = fence.marker && fence.length ≤ d.fence.length && d.info.all isHorizontal

def isBlank (line : Text) : Bool := line.all isHorizontal

/-- Where the scan stands before a line. -/
structure Block where
  fence : Option Fence
  paragraph : List Text
  deriving DecidableEq, Repr

def Block.initial : Block := ⟨none, []⟩

def Block.step (block : Block) (line : Text) : Block :=
  match block.fence with
  | some fence => ⟨if closes fence line then none else some fence, []⟩
  | none =>
      if isBlank line then ⟨none, []⟩
      else
        match opens line with
        | some fence => ⟨some fence, []⟩
        | none => ⟨none, block.paragraph ++ [line]⟩

/-- The line is inside a fenced block, its opener and closer included. -/
def Block.protects (block : Block) (line : Text) : Bool :=
  block.fence.isSome || (opens line).isSome

/-- The lines of a text with the offsets they start at; a line ends at a line feed, at a
carriage return or at the pair of both. -/
def linesFrom (start pos : Nat) (line : Text) : Text → List (Nat × Text)
  | [] => [(start, line)]
  | u :: us =>
      if u = lineFeed then (start, line) :: linesFrom (pos + 1) (pos + 1) [] us
      else if u = carriageReturn then
        match us with
        | [] => (start, line) :: linesFrom (pos + 1) (pos + 1) [] []
        | v :: vs =>
            if v = lineFeed then (start, line) :: linesFrom (pos + 2) (pos + 2) [] vs
            else (start, line) :: linesFrom (pos + 1) (pos + 1) [] (v :: vs)
      else linesFrom start (pos + 1) (line ++ [u]) us

theorem runLength_of_isBlank (marker : Marker) {text : Text} (blank : isBlank text) :
    runLength marker text = 0 := by
  cases text with
  | nil => rfl
  | cons u us =>
      have horizontal : isHorizontal u = true := (Bool.and_eq_true_iff.mp blank).1
      have other : (u == marker.unit) = false := by
        rcases Bool.or_eq_true_iff.mp horizontal with same | same <;>
          rw [eq_of_beq same] <;> cases marker <;> decide
      simp [runLength, other]

theorem opens_of_isBlank {line : Text} (blank : isBlank line) : opens line = none := by
  have rest : isBlank (line.dropWhile (· == space)) = true :=
    List.all_eq_true.mpr fun u mem =>
      List.all_eq_true.mp blank u (List.dropWhile_sublist _ |>.subset mem)
  simp [opens, delimiter, runLength_of_isBlank _ rest]

/-- Outside a fence the line after which one is open is its opener. -/
theorem Block.step_fence {block : Block} (outside : block.fence = none) (line : Text) :
    (block.step line).fence = opens line := by
  simp only [Block.step, outside]
  by_cases blank : isBlank line = true
  · rw [if_pos blank, opens_of_isBlank blank]
  · rw [if_neg blank]
    cases opens line <;> rfl

/-- What the scan says about one line: its first offset, the verdict and the lines of the
paragraph that is open before it. -/
structure Verdict where
  start : Nat
  inFence : Bool
  paragraph : List Text
  deriving DecidableEq, Repr

def scanFrom (block : Block) : List (Nat × Text) → List Verdict
  | [] => []
  | (start, line) :: lines =>
      ⟨start, block.protects line, block.paragraph⟩ :: scanFrom (block.step line) lines

/-- The fence scan of a whole text. -/
def scan (text : Text) : List Verdict := scanFrom .initial (linesFrom 0 0 [] text)

section Numbering

/-- The lines of a split text with their offsets. -/
def numberLines (start : Nat) : List Text → Text → List (Nat × Text)
  | [], rest => [(start, rest)]
  | line :: lines, rest =>
      (start, stripCarriageReturn line) :: numberLines (start + line.length + 1) lines rest

/-- Number the lines of a text behind the beginning of its first line. -/
def numberFrom (start : Nat) (line : Text) (lines : List Text) (rest : Text) :
    List (Nat × Text) :=
  match lines with
  | [] => [(start, line ++ rest)]
  | first :: lines => numberLines start ((line ++ first) :: lines) rest

theorem stripCarriageReturn_append_cr (line : Text) :
    stripCarriageReturn (line ++ [carriageReturn]) = line := by
  simp [stripCarriageReturn]

theorem stripCarriageReturn_of_not_mem {line : Text} (free : carriageReturn ∉ line) :
    stripCarriageReturn line = line := by
  unfold stripCarriageReturn
  split
  · exact absurd (List.mem_of_getLast? ‹_›) free
  · rfl

theorem numberFrom_cons {u : UInt16} {us : Text} (start : Nat) (line : Text)
    (other : u ≠ lineFeed) :
    numberFrom start line (splitLines (u :: us)).1 (splitLines (u :: us)).2 =
      numberFrom start (line ++ [u]) (splitLines us).1 (splitLines us).2 := by
  simp only [splitLines, if_neg other]
  cases (splitLines us).1 <;> simp [numberFrom]

theorem linesFrom_lineFeed (start pos : Nat) (line us : Text) :
    linesFrom start pos line (lineFeed :: us) =
      (start, line) :: linesFrom (pos + 1) (pos + 1) [] us := by
  rw [linesFrom.eq_def]
  exact if_pos rfl

theorem linesFrom_pair (start pos : Nat) (line us : Text) :
    linesFrom start pos line (carriageReturn :: lineFeed :: us) =
      (start, line) :: linesFrom (pos + 2) (pos + 2) [] us := by
  rw [linesFrom.eq_def]
  exact if_neg (by decide)

theorem linesFrom_other {u : UInt16} (start pos : Nat) (line us : Text) (notFeed : u ≠ lineFeed)
    (notReturn : u ≠ carriageReturn) :
    linesFrom start pos line (u :: us) = linesFrom start (pos + 1) (line ++ [u]) us := by
  rw [linesFrom.eq_def]
  simp only [if_neg notFeed, if_neg notReturn]

theorem numberFrom_nil (start : Nat) (lines : List Text) (rest : Text) :
    numberFrom start [] lines rest = numberLines start lines rest := by
  cases lines <;> simp [numberFrom, numberLines]

/-- Where every carriage return begins a pair, lines end at line feeds alone. -/
theorem linesFrom_eq_numberFrom (start pos : Nat) (line text : Text)
    (paired : hasBareCarriageReturn text = false) (free : carriageReturn ∉ line)
    (position : pos = start + line.length) :
    linesFrom start pos line text =
      numberFrom start line (splitLines text).1 (splitLines text).2 := by
  induction start, pos, line, text using linesFrom.induct with
  | case1 start pos line => simp [linesFrom, splitLines, numberFrom]
  | case2 start pos line us ih =>
      have rest : hasBareCarriageReturn us = false :=
        (Bool.or_eq_false_iff.mp paired).2
      rw [linesFrom_lineFeed, ih rest (by simp) (by simp), numberFrom_nil]
      simp only [splitLines, if_true, numberFrom, numberLines, List.append_nil, position,
        stripCarriageReturn_of_not_mem free]
  | case3 => simp [hasBareCarriageReturn] at paired
  | case4 start pos line vs different ih =>
      have rest : hasBareCarriageReturn vs = false := by
        simp only [hasBareCarriageReturn, Bool.or_eq_false_iff] at paired
        exact paired.2.2
      have next : start + (line ++ [carriageReturn]).length + 1 = pos + 2 := by
        simp [position, Nat.add_assoc]
      rw [linesFrom_pair, ih rest (by simp) (by simp), numberFrom_nil]
      simp only [splitLines, if_true, if_neg different, numberFrom, numberLines,
        stripCarriageReturn_append_cr, next]
  | case5 start pos line v vs different other ih =>
      simp [hasBareCarriageReturn] at paired
      exact absurd paired.1 different
  | case6 start pos line u us notFeed notReturn ih =>
      have rest : hasBareCarriageReturn us = false :=
        (Bool.or_eq_false_iff.mp paired).2
      rw [linesFrom_other start pos line us notFeed notReturn,
        numberFrom_cons start line notFeed]
      exact ih rest (by simp [free, Ne.symm notReturn]) (by simp [position]; omega)

end Numbering

section LineKinds

/-- The columns a line is indented by, tab stops being four apart. -/
def indentColumns (column : Nat) : Text → Nat
  | [] => column
  | u :: us =>
      if u = space then indentColumns (column + 1) us
      else if u = tab then indentColumns (column + (4 - column % 4)) us
      else column

/-- The line without at most three columns of spaces, when it has no more of them. -/
def contentOf (line : Text) : Option Text :=
  if (line.takeWhile (· == space)).length ≤ 3 then some (line.dropWhile (· == space)) else none

def hasBacktick (line : Text) : Bool := line.contains Marker.backtick.unit

def isIndentedCode (line : Text) : Bool := !isBlank line && 4 ≤ indentColumns 0 line

def isQuote (line : Text) : Bool :=
  (contentOf line).any fun rest => rest.head? == some (unit '>')

/-- A bullet, followed by a blank or the line's end. -/
def isBullet (rest : Text) : Bool :=
  rest.head?.any [unit '-', unit '*', unit '+'].contains && (rest.drop 1).head?.all isHorizontal

/-- At most nine digits with their delimiter, followed by a blank or the line's end. -/
def isOrdinal (rest : Text) : Bool :=
  let digits := (rest.takeWhile isDigit).length
  1 ≤ digits && digits ≤ 9 && (rest.drop digits).head?.any [unit '.', unit ')'].contains &&
    (rest.drop (digits + 1)).head?.all isHorizontal

def isListItem (line : Text) : Bool :=
  (contentOf line).any fun rest => isBullet rest || isOrdinal rest

/-- No construct in the line can make text behind it code, or part of a container. -/
def IsPlain (line : Text) : Prop :=
  hasBacktick line = false ∧ isIndentedCode line = false ∧ isQuote line = false ∧
    isListItem line = false

instance (line : Text) : Decidable (IsPlain line) := inferInstanceAs (Decidable (_ ∧ _ ∧ _ ∧ _))

end LineKinds
end FenceScan
