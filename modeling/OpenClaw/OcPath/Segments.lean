import OpenClaw.Lib.JsUnits
import OpenClaw.NormalizationCore.Utf16Slice

/-!
The scan that respects brackets, braces and quoted regions. A piece is a text that the
scan leaves as it entered it, with no delimiter at the top on the way; splitting a text
at a delimiter and joining pieces with it are inverse to each other.
-/

namespace OpenClaw.OcPaths

open JsUnits

/-- The depths of brackets and braces, and whether the scan is in a quoted region. -/
structure ScanState where
  depthBracket : Nat := 0
  depthBrace : Nat := 0
  inQuote : Bool := false
  deriving DecidableEq

namespace ScanState

/-- One unit; none if a bracket or brace is closed that is not open. -/
def next (σ : ScanState) (c : UInt16) : Option ScanState :=
  if σ.inQuote then some { σ with inQuote := c ≠ unit '"' }
  else if c = unit '"' then some { σ with inQuote := true }
  else if c = unit '[' then some { σ with depthBracket := σ.depthBracket + 1 }
  else if c = unit ']' then
    if σ.depthBracket = 0 then none else some { σ with depthBracket := σ.depthBracket - 1 }
  else if c = unit '{' then some { σ with depthBrace := σ.depthBrace + 1 }
  else if c = unit '}' then
    if σ.depthBrace = 0 then none else some { σ with depthBrace := σ.depthBrace - 1 }
  else some σ

/-- Whether the unit that led to this state stands at the top. -/
def atTop (σ : ScanState) (c : UInt16) : Bool := σ = {} && c ≠ unit '"'

end ScanState

/-- The index of the first delimiter at the top; the outer option is the balance. -/
def indexOfTopLevelFrom (delim : UInt16) : ScanState → Text → Option (Option Nat)
  | σ, [] => if σ = {} then some none else none
  | σ, c :: cs =>
      match σ.next c with
      | none => none
      | some σ =>
          if σ.atTop c && c = delim then some (some 0)
          else (indexOfTopLevelFrom delim σ cs).map fun index => index.map (· + 1)

/-- The pieces between the delimiters at the top, behind the buffer; none if unbalanced. -/
def splitFrom (delim : UInt16) : ScanState → Text → Text → Option (List Text)
  | σ, buf, [] => if σ = {} then some [buf] else none
  | σ, buf, c :: cs =>
      match σ.next c with
      | none => none
      | some σ =>
          if σ.atTop c && c = delim then (splitFrom delim σ [] cs).map (buf :: ·)
          else splitFrom delim σ (buf ++ [c]) cs

/-- The rest of a piece: the scan ends balanced, and meets no delimiter at the top. -/
def isPieceFrom (delims : List UInt16) : ScanState → Text → Bool
  | σ, [] => σ = {}
  | σ, c :: cs =>
      match σ.next c with
      | none => false
      | some σ => !(σ.atTop c && c ∈ delims) && isPieceFrom delims σ cs

def IsPiece (delims : List UInt16) (text : Text) : Prop := isPieceFrom delims {} text = true

def isBalanced (text : Text) : Bool := isPieceFrom [] {} text

/-- The units that change the state of the scan. -/
def isRegionUnit (c : UInt16) : Bool :=
  c ∈ [unit '"', unit '[', unit ']', unit '{', unit '}']

variable {delim c : UInt16} {delims : List UInt16} {σ τ : ScanState} {text buf : Text}

theorem next_plain (plain : isRegionUnit c = false) : σ.next c =
    some (if σ.inQuote then { σ with inQuote := true } else σ) := by
  simp only [isRegionUnit, List.mem_cons, List.not_mem_nil, or_false, decide_eq_false_iff_not,
    not_or] at plain
  obtain ⟨quote, openBracket, closeBracket, openBrace, closeBrace⟩ := plain
  simp only [ScanState.next, quote, openBracket, closeBracket, openBrace, closeBrace, ne_eq,
    not_false_eq_true, decide_true, if_false]
  split <;> rfl

theorem next_plain_self (plain : isRegionUnit c = false) : σ.next c = some σ := by
  rw [next_plain plain]
  split
  case isTrue quoted => cases σ; simp_all
  case isFalse => rfl

theorem isPieceFrom_append {a b : Text} (left : isPieceFrom delims σ a = true) :
    isPieceFrom delims σ (a ++ b) = isPieceFrom delims {} b := by
  induction a generalizing σ with
  | nil =>
      simp only [isPieceFrom, decide_eq_true_eq] at left
      rw [List.nil_append, left]
  | cons c cs ih =>
      simp only [List.cons_append, isPieceFrom] at left ⊢
      cases moved : σ.next c with
      | none => simp [moved] at left
      | some τ =>
          simp only [moved, Bool.and_eq_true] at left ⊢
          rw [left.1, Bool.true_and, ih left.2]

theorem IsPiece.append {a b : Text} (left : IsPiece delims a) (right : IsPiece delims b) :
    IsPiece delims (a ++ b) := (isPieceFrom_append left).trans right

theorem isPieceFrom_mono {delims' : List UInt16} (fewer : ∀ d ∈ delims', d ∈ delims)
    (piece : isPieceFrom delims σ text = true) : isPieceFrom delims' σ text = true := by
  induction text generalizing σ with
  | nil => exact piece
  | cons c cs ih =>
      simp only [isPieceFrom] at piece ⊢
      cases moved : σ.next c with
      | none => simp [moved] at piece
      | some τ =>
          simp only [moved, Bool.and_eq_true, Bool.not_eq_true', Bool.and_eq_false_imp,
            decide_eq_false_iff_not] at piece ⊢
          exact ⟨fun top mem => piece.1 top (fewer c mem), ih piece.2⟩

theorem isPieceFrom_union {left right : List UInt16} :
    isPieceFrom (left ++ right) σ text = true ↔
      isPieceFrom left σ text = true ∧ isPieceFrom right σ text = true := by
  induction text generalizing σ with
  | nil => simp [isPieceFrom]
  | cons c cs ih =>
      simp only [isPieceFrom]
      cases σ.next c with
      | none => simp
      | some τ =>
          simp only [Bool.and_eq_true, ih, Bool.not_eq_true', Bool.and_eq_false_imp,
            decide_eq_false_iff_not, List.mem_append, not_or]
          exact ⟨fun ⟨apart, both⟩ => ⟨⟨fun top => (apart top).1, both.1⟩,
            ⟨fun top => (apart top).2, both.2⟩⟩,
            fun ⟨⟨no, first⟩, ⟨no', second⟩⟩ => ⟨fun top => ⟨no top, no' top⟩, first, second⟩⟩

/-- At the top a delimiter that is no region unit is met as such. -/
theorem atTop_plain (plain : isRegionUnit c = false) : ScanState.atTop {} c = true := by
  simp only [isRegionUnit, List.mem_cons, decide_eq_false_iff_not, not_or] at plain
  simp [ScanState.atTop, plain.1]

theorem isPieceFrom_delim (plain : isRegionUnit delim = false) {a b : Text}
    (left : isPieceFrom [] σ a = true) (mem : delim ∈ delims) :
    isPieceFrom delims σ (a ++ delim :: b) = false := by
  induction a generalizing σ with
  | nil =>
      simp only [isPieceFrom, decide_eq_true_eq] at left
      simp [left, isPieceFrom, next_plain_self plain, atTop_plain plain, mem]
  | cons c cs ih =>
      simp only [List.cons_append, isPieceFrom] at left ⊢
      cases moved : σ.next c with
      | none => rfl
      | some τ =>
          simp only [moved, Bool.and_eq_true] at left ⊢
          rw [ih left.2, Bool.and_false]

/-- Pieces with a delimiter in front of every one but the first. -/
def joined (delim : UInt16) (first : Text) (rest : List Text) : Text :=
  first ++ rest.flatMap (delim :: ·)

theorem splitFrom_eq_some_iff (plain : isRegionUnit delim = false) {pieces : List Text} :
    splitFrom delim σ buf text = some pieces ↔
      ∃ first rest, pieces = (buf ++ first) :: rest ∧ isPieceFrom [delim] σ first = true ∧
        (∀ piece ∈ rest, IsPiece [delim] piece) ∧ text = joined delim first rest := by
  induction text generalizing σ buf pieces with
  | nil =>
      constructor
      · intro split
        simp only [splitFrom, Option.ite_none_right_eq_some, Option.some.injEq] at split
        exact ⟨[], [], by simp [← split.2], by simpa [isPieceFrom] using split.1, by simp, rfl⟩
      · rintro ⟨first, rest, rfl, piece, _, whole⟩
        obtain ⟨rfl, none⟩ := List.append_eq_nil_iff.mp whole.symm
        cases rest with
        | nil => simpa [splitFrom, isPieceFrom] using piece
        | cons r rs => simp at none
  | cons c cs ih =>
      simp only [splitFrom]
      cases moved : σ.next c with
      | none =>
          refine iff_of_false (by simp) ?_
          rintro ⟨first, rest, rfl, piece, _, whole⟩
          cases first with
          | nil =>
              cases rest with
              | nil => simp [joined] at whole
              | cons r rs =>
                  obtain ⟨rfl, _⟩ := List.cons.inj whole
                  simp [next_plain_self plain] at moved
          | cons d ds =>
              obtain ⟨rfl, _⟩ := List.cons.inj whole
              simp [isPieceFrom, moved] at piece
      | some τ =>
          dsimp only
          split
          case isTrue delimited =>
            obtain ⟨top, rfl⟩ : τ.atTop c = true ∧ c = delim := by simpa using delimited
            obtain rfl : σ = τ := by simpa [next_plain_self plain] using moved
            have start : σ = {} := by
              simp only [ScanState.atTop, Bool.and_eq_true, decide_eq_true_eq] at top
              exact top.1
            subst start
            simp only [Option.map_eq_some_iff, ih]
            constructor
            · rintro ⟨_, ⟨first, rest, rfl, piece, pieces, rfl⟩, rfl⟩
              refine ⟨[], first :: rest, by simp, rfl, ?_, rfl⟩
              exact List.forall_mem_cons.mpr ⟨piece, pieces⟩
            · rintro ⟨first, rest, rfl, piece, pieces, whole⟩
              cases first with
              | nil =>
                  cases rest with
                  | nil => simp [joined] at whole
                  | cons r rs =>
                      have body : cs = joined c r rs := (List.cons.inj whole).2
                      obtain ⟨here, there⟩ := List.forall_mem_cons.mp pieces
                      exact ⟨_, ⟨r, rs, rfl, here, there, body⟩, by simp⟩
              | cons d ds =>
                  obtain ⟨rfl, _⟩ := List.cons.inj whole
                  simp [isPieceFrom, next_plain_self plain, top] at piece
          case isFalse inside =>
            rw [ih]
            constructor
            · rintro ⟨first, rest, rfl, piece, pieces, rfl⟩
              refine ⟨c :: first, rest, by simp, ?_, pieces, rfl⟩
              simp only [isPieceFrom, moved, List.mem_singleton, piece, Bool.and_true]
              exact (Bool.not_eq_true' _).mpr (Bool.eq_false_iff.mpr inside)
            · rintro ⟨first, rest, rfl, piece, pieces, whole⟩
              cases first with
              | nil =>
                  cases rest with
                  | nil => simp [joined] at whole
                  | cons r rs =>
                      obtain ⟨rfl, _⟩ := List.cons.inj whole
                      obtain rfl : σ = τ := by simpa [next_plain_self plain] using moved
                      have start : σ = {} := by simpa [isPieceFrom] using piece
                      simp [start, atTop_plain plain] at inside
              | cons d ds =>
                  obtain ⟨rfl, body⟩ := List.cons.inj whole
                  simp only [isPieceFrom, moved, Bool.and_eq_true] at piece
                  exact ⟨ds, rest, by simp, piece.2, pieces, body⟩

theorem indexOfTopLevelFrom_eq_none : indexOfTopLevelFrom delim σ text = some none ↔
    isPieceFrom [delim] σ text = true := by
  induction text generalizing σ with
  | nil => simp [indexOfTopLevelFrom, isPieceFrom]
  | cons c cs ih =>
      simp only [indexOfTopLevelFrom, isPieceFrom]
      cases σ.next c with
      | none => simp
      | some τ =>
          dsimp only
          split
          case isTrue delimited =>
            simp only [List.mem_singleton, delimited, Bool.not_true, Bool.false_and]
            exact iff_of_false (by simp) (by simp)
          case isFalse inside =>
            simp only [Option.map_eq_some_iff, Option.map_eq_none_iff, exists_eq_right, ih,
              List.mem_singleton, Bool.and_eq_true]
            exact (and_iff_right ((Bool.not_eq_true' _).mpr (Bool.eq_false_iff.mpr inside))).symm

theorem indexOfTopLevelFrom_eq_some (plain : isRegionUnit delim = false) {index : Nat} :
    indexOfTopLevelFrom delim σ text = some (some index) ↔
      ∃ before after, text = before ++ delim :: after ∧ before.length = index ∧
        isPieceFrom [delim] σ before = true := by
  induction text generalizing σ index with
  | nil => simp [indexOfTopLevelFrom]
  | cons c cs ih =>
      simp only [indexOfTopLevelFrom]
      cases moved : σ.next c with
      | none =>
          refine iff_of_false (by simp) ?_
          rintro ⟨before, after, whole, _, piece⟩
          cases before with
          | nil =>
              obtain ⟨rfl, _⟩ := List.cons.inj whole
              simp [next_plain_self plain] at moved
          | cons d ds =>
              obtain ⟨rfl, _⟩ := List.cons.inj whole
              simp [isPieceFrom, moved] at piece
      | some τ =>
          dsimp only
          split
          case isTrue delimited =>
            obtain ⟨top, rfl⟩ : τ.atTop c = true ∧ c = delim := by simpa using delimited
            obtain rfl : σ = τ := by simpa [next_plain_self plain] using moved
            simp only [Option.some.injEq]
            constructor
            · rintro rfl
              simp only [ScanState.atTop, Bool.and_eq_true, decide_eq_true_eq] at top
              exact ⟨[], cs, rfl, rfl, by simpa [isPieceFrom] using top.1⟩
            · rintro ⟨before, after, whole, rfl, piece⟩
              cases before with
              | nil => rfl
              | cons d ds =>
                  obtain ⟨rfl, _⟩ := List.cons.inj whole
                  simp [isPieceFrom, next_plain_self plain, top] at piece
          case isFalse inside =>
            simp only [Option.map_eq_some_iff]
            constructor
            · rintro ⟨a, found, n, rfl, rfl⟩
              obtain ⟨before, after, rfl, rfl, piece⟩ := ih.mp found
              refine ⟨c :: before, after, rfl, rfl, ?_⟩
              simp only [isPieceFrom, moved, List.mem_singleton, piece, Bool.and_true]
              exact (Bool.not_eq_true' _).mpr (Bool.eq_false_iff.mpr inside)
            · rintro ⟨before, after, whole, rfl, piece⟩
              cases before with
              | nil =>
                  obtain ⟨rfl, _⟩ := List.cons.inj whole
                  obtain rfl : σ = τ := by simpa [next_plain_self plain] using moved
                  have start : σ = {} := by simpa [isPieceFrom] using piece
                  simp [start, atTop_plain plain] at inside
              | cons d ds =>
                  obtain ⟨rfl, body⟩ := List.cons.inj whole
                  simp only [isPieceFrom, moved, Bool.and_eq_true] at piece
                  exact ⟨_, ih.mpr ⟨ds, after, body, rfl, piece.2⟩, _, rfl, rfl⟩

end OpenClaw.OcPaths

/-!
The errors of `oc://` paths, and the checks and quoting of one segment or sub-segment.
A sub-segment is quoted, a predicate or literal in brackets, a union in braces, or a raw
key.
-/

namespace OpenClaw.OcPaths

open JsUnits NormalizationCore

inductive OcPathErrorCode where
  | tooLong
  | missingScheme
  | controlChar
  | empty
  | emptySegment
  | tooDeep
  | absoluteFile
  | parentTraversal
  | reservedChar
  | unbalanced
  | emptySubSegment
  | unquotable
  | whitespace
  | malformedPredicate
  | malformedUnion
  | fileRequired
  | nesting
  deriving DecidableEq

/-- What a call throws: an `OcPathError`, or the guard of the redaction sentinel. -/
inductive Thrown where
  | path (message input : Text) (code : OcPathErrorCode)
  | emitSentinel (path : Text)

def isControlChar (u : UInt16) : Bool := u.toNat ≤ 0x1F || u.toNat = 0x7F

def hasControlChar (text : Text) : Bool := text.any isControlChar

/-- `RESERVED_CHARS_RE`. -/
def isReservedChar (u : UInt16) : Bool := u ∈ [unit '?', unit '&', unit '%']

def printable (text : Text) : Text :=
  text.flatMap fun u =>
    if isControlChar u then lit "\\x" ++ [hexDigit (u.toNat / 16), hexDigit (u.toNat % 16)] else [u]

/-- `split(/[\\/]/)` finds a segment `..`. -/
def hasParentSegment (file : Text) : Bool :=
  (file.splitOnP fun u => u = unit '\\' || u = unit '/').any (· = lit "..")

def isAbsoluteFile : Text → Bool
  | [] => false
  | u :: us =>
      u = unit '/' || u = unit '\\' ||
        (((0x41 ≤ u.toNat && u.toNat ≤ 0x5A) || (0x61 ≤ u.toNat && u.toNat ≤ 0x7A)) &&
          us.head? = some (unit ':'))

def validateFileSlot (file contextInput : Text) : Except Thrown Unit := do
  if isAbsoluteFile file then
    throw (.path (lit "Absolute file slot not allowed (oc:// paths are workspace-relative): " ++
      printable contextInput) contextInput .absoluteFile)
  if hasParentSegment file then
    throw (.path (lit "Parent-directory segment ('..') not allowed in oc:// file slot: " ++
      printable contextInput) contextInput .parentTraversal)
  if hasControlChar file then
    throw (.path (lit "Control character in oc:// file slot: " ++ printable contextInput)
      contextInput .controlChar)

def validateSessionSlot (session contextInput : Text) : Except Thrown Unit := do
  if hasControlChar session then
    throw (.path (lit "Control character in oc:// session query: " ++ printable contextInput)
      contextInput .controlChar)
  if session.any isReservedChar then
    throw (.path (lit "Reserved character (`?` / `&` / `%`) in oc:// session query: " ++
      printable contextInput) contextInput .reservedChar)

def indexOfTopLevel (text : Text) (delim : UInt16) : Except Thrown (Option Nat) :=
  match indexOfTopLevelFrom delim {} text with
  | some index => .ok index
  | none => .error (.path (lit "Unbalanced bracket/brace in oc:// path: " ++ text) text .unbalanced)

def splitRespectingBrackets (text : Text) (delim : UInt16) (originalInput : Option Text := none) :
    Except Thrown (List Text) :=
  let ctx := originalInput.getD text
  match splitFrom delim {} [] text with
  | some pieces => .ok pieces
  | none => .error (.path (lit "Unbalanced bracket/brace in oc:// path: " ++ ctx) ctx .unbalanced)

def isQuotedSeg (seg : Text) : Bool :=
  seg.length ≥ 2 && seg.head? = some (unit '"') && seg.getLast? = some (unit '"')

/-- `seg.slice(1, -1)`. -/
def inner (seg : Text) : Text := seg.tail.dropLast

def unquoteSeg (seg : Text) : Text := if isQuotedSeg seg then inner seg else seg

def isUnquotable (value : Text) : Bool := unit '"' ∈ value || unit '\\' ∈ value

/-- The class `[/.[\]{}?&%\s]`. -/
def needsQuote (u : UInt16) : Bool :=
  u ∈ [unit '/', unit '.', unit '[', unit ']', unit '{', unit '}', unit '?', unit '&', unit '%'] ||
    isWhitespace u

def quoted (value : Text) : Text := unit '"' :: value ++ [unit '"']

def quoteSeg (value : Text) : Except Thrown Text := do
  if value.length = 0 then return quoted []
  if isUnquotable value then
    throw (.path (lit "Cannot quote value containing '\"' or '\\\\': " ++ printable value)
      value .unquotable)
  return if value.any needsQuote then quoted value else value

def validateBrackets (seg input : Text) : Except Thrown Unit := do
  if !isBalanced seg then
    throw (.path (lit "Unbalanced bracket/brace in segment \"" ++ seg ++ lit "\": " ++
      printable input) input .unbalanced)

def PREDICATE_OPS : List Text := [lit "!=", lit "<=", lit ">=", lit "<", lit ">", lit "="]

/-- A predicate `[key<op>value]`. -/
structure PredicateSpec where
  key : Text
  op : Text
  value : Text

def parsePredicateSeg (seg : Text) : Option PredicateSpec :=
  if seg.length < 4 || seg.head? ≠ some (unit '[') || seg.getLast? ≠ some (unit ']') then none
  else
    let body := inner seg
    (List.range' 1 (body.length - 1)).findSome? fun i =>
      PREDICATE_OPS.findSome? fun op =>
        if op <+: body.drop i ∧ ¬ i + op.length ≥ body.length then
          some { key := body.take i, op, value := body.drop (i + op.length) }
        else none

def startsWith (seg : Text) (u : UInt16) : Bool := seg.head? = some u

def endsWith (seg : Text) (u : UInt16) : Bool := seg.getLast? = some u

/-- The checks of a sub-segment that is not quoted. -/
def validateUnquoted (sub input : Text) : Except Thrown Unit := do
  let startsBracket := startsWith sub (unit '[')
  let endsBracket := endsWith sub (unit ']')
  let startsBrace := startsWith sub (unit '{')
  let endsBrace := endsWith sub (unit '}')
  if !startsBracket && !startsBrace && sub.any isReservedChar then
    throw (.path (lit "Reserved character (`?` / `&` / `%`) in oc:// segment \"" ++ sub ++
      lit "\": " ++ printable input) input .reservedChar)
  if !startsBracket && !startsBrace && sub.any isWhitespace then
    throw (.path (lit "Whitespace in oc:// segment \"" ++ sub ++ lit "\": " ++ printable input)
      input .whitespace)
  if startsBracket ≠ endsBracket then
    throw (.path (lit "Mismatched bracket in segment \"" ++ sub ++ lit "\": " ++ printable input)
      input .malformedPredicate)
  if startsBracket && endsBracket && (inner sub).length = 0 then
    throw (.path (lit "Empty bracket segment \"" ++ sub ++ lit "\": " ++ printable input)
      input .malformedPredicate)
  if startsBracket && endsBracket && PREDICATE_OPS.any (fun op => op <:+: inner sub) &&
      (parsePredicateSeg sub).all fun parsed => parsed.key.length = 0 || parsed.value.length = 0 then
    throw (.path (lit "Malformed predicate \"" ++ sub ++
      lit "\" — must be `[key<op>value]` with non-empty key and value: " ++ printable input)
      input .malformedPredicate)
  if startsBrace ≠ endsBrace then
    throw (.path (lit "Mismatched brace in segment \"" ++ sub ++ lit "\": " ++ printable input)
      input .malformedUnion)
  if startsBrace && endsBrace && (inner sub).length = 0 then
    throw (.path (lit "Empty union \"" ++ sub ++ lit "\" — must contain at least one alternative: " ++
      printable input) input .malformedUnion)
  if startsBrace && endsBrace && ((inner sub).splitOn (unit ',')).any (·.length = 0) then
    throw (.path (lit "Empty alternative in union \"" ++ sub ++ lit "\": " ++ printable input)
      input .malformedUnion)

def validateSubSegment (sub input : Text) : Except Thrown Unit := do
  if sub.length = 0 then
    throw (.path (lit "Empty dotted sub-segment in oc:// path: " ++ printable input)
      input .emptySubSegment)
  if hasControlChar sub then
    throw (.path (lit "Control character in oc:// segment \"" ++ printable sub ++ lit "\": " ++
      printable input) input .controlChar)
  if isQuotedSeg sub then
    if isUnquotable (inner sub) then
      throw (.path (lit "Quoted segment cannot contain '\"' or '\\\\': " ++ printable sub)
        input .unquotable)
  else validateUnquoted sub input

end OpenClaw.OcPaths
