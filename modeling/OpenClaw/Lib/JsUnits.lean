import Mathlib

/-!
JavaScript strings as their sequences of UTF-16 code units. Every string value is
one, unpaired surrogates included, and cutting a string at any index again gives
two strings; character classes of the scanners are predicates on code units.
-/

namespace JsUnits

abbrev Text := List UInt16

instance : LawfulBEq Text := inferInstance

/-- The code unit of a character of the basic multilingual plane. -/
def unit (c : Char) : UInt16 := c.val.toUInt16

/-- A literal of the source written in the basic multilingual plane. -/
def lit (s : String) : Text := s.toList.map unit

def space : UInt16 := 0x20
def tab : UInt16 := 0x09
def lineFeed : UInt16 := 0x0A
def carriageReturn : UInt16 := 0x0D

/-- ECMAScript `WhiteSpace` and `LineTerminator`, the class `\s`. -/
def isWhitespace (u : UInt16) : Bool :=
  [0x9, 0xA, 0xB, 0xC, 0xD, 0x20, 0xA0, 0x1680, 0x2028, 0x2029, 0x202F, 0x205F, 0x3000,
    0xFEFF].contains u.toNat || (0x2000 ≤ u.toNat && u.toNat ≤ 0x200A)

def isDigit (u : UInt16) : Bool := 0x30 ≤ u.toNat && u.toNat ≤ 0x39

/-- The class `[ \t]`. -/
def isHorizontal (u : UInt16) : Bool := u == space || u == tab

/-- `/\r(?!\n)/.test(text)`. -/
def hasBareCarriageReturn : Text → Bool
  | [] => false
  | u :: us =>
      (u == carriageReturn && us.head? != some lineFeed) || hasBareCarriageReturn us

/-- `line.replace(/\r$/, "")`. -/
def stripCarriageReturn (line : Text) : Text :=
  if line.getLast? = some carriageReturn then line.dropLast else line

/-- The lines of a text that a line feed ends, and the unfinished rest. -/
def splitLines : Text → List Text × Text
  | [] => ([], [])
  | u :: us =>
      match splitLines us with
      | (lines, rest) =>
          if u = lineFeed then ([] :: lines, rest)
          else
            match lines with
            | [] => ([], u :: rest)
            | line :: lines => ((u :: line) :: lines, rest)

theorem hasBareCarriageReturn_append {a b : Text} (left : hasBareCarriageReturn a = false)
    (right : hasBareCarriageReturn b = false) : hasBareCarriageReturn (a ++ b) = false := by
  induction a with
  | nil => exact right
  | cons u us ih =>
      simp only [hasBareCarriageReturn, Bool.or_eq_false_iff] at left
      simp only [List.cons_append, hasBareCarriageReturn, Bool.or_eq_false_iff]
      refine ⟨?_, ih left.2⟩
      cases us with
      | nil =>
          -- a carriage return at the end of the first text would be bare there
          have other : (u == carriageReturn) = false := by simpa using left.1
          rw [other, Bool.false_and]
      | cons v vs => exact left.1

theorem splitLines_append (a b : Text) :
    splitLines (a ++ b) =
      match splitLines a, splitLines b with
      | (linesA, restA), ([], restB) => (linesA, restA ++ restB)
      | (linesA, restA), (line :: linesB, restB) =>
          (linesA ++ (restA ++ line) :: linesB, restB) := by
  induction a with
  | nil => cases h : splitLines b with | mk lines rest => cases lines <;> simp [splitLines, h]
  | cons u us ih =>
      rw [List.cons_append, splitLines, ih, splitLines]
      rcases hb : splitLines b with ⟨_ | ⟨line, linesB⟩, restB⟩ <;>
        rcases ha : splitLines us with ⟨_ | ⟨lineA, linesA⟩, restA⟩ <;>
        by_cases feed : u = lineFeed <;> simp [feed]

theorem splitLines_fst_eq_nil {text : Text} (whole : (splitLines text).1 = []) :
    (splitLines text).2 = text := by
  induction text with
  | nil => rfl
  | cons u us ih =>
      simp only [splitLines] at whole ⊢
      rcases split : splitLines us with ⟨_ | ⟨line, lines⟩, rest⟩ <;>
        by_cases feed : u = lineFeed <;> simp_all

end JsUnits

/-!
`JSON.stringify` of a string: the quoted text in which quotation marks, backslashes,
control characters and unpaired surrogates are escaped. A quoted text holds no control
character, and quotation marks stand at both of its ends.
-/

namespace JsUnits

def isHighSurrogate (u : UInt16) : Bool := 0xD800 ≤ u.toNat && u.toNat ≤ 0xDBFF

def isLowSurrogate (u : UInt16) : Bool := 0xDC00 ≤ u.toNat && u.toNat ≤ 0xDFFF

def quotationMark : UInt16 := 0x22
def reverseSolidus : UInt16 := 0x5C

/-- The lower-case hexadecimal digit of a value below 16. -/
def hexDigit (n : Nat) : UInt16 := (if n < 10 then 0x30 + n else 0x57 + n).toUInt16

/-- `UnicodeEscape`: a backslash, `u` and four digits. -/
def unicodeEscape (u : UInt16) : Text :=
  let n := u.toNat
  [reverseSolidus, 0x75, hexDigit (n / 4096 % 16), hexDigit (n / 256 % 16), hexDigit (n / 16 % 16),
    hexDigit (n % 16)]

/-- The escape of one code unit that no surrogate pair contains. -/
def quoteUnit (u : UInt16) : Text :=
  if u = 0x08 then [reverseSolidus, 0x62]
  else if u = tab then [reverseSolidus, 0x74]
  else if u = lineFeed then [reverseSolidus, 0x6E]
  else if u = 0x0C then [reverseSolidus, 0x66]
  else if u = carriageReturn then [reverseSolidus, 0x72]
  else if u = quotationMark then [reverseSolidus, quotationMark]
  else if u = reverseSolidus then [reverseSolidus, reverseSolidus]
  else if u.toNat < 0x20 || isHighSurrogate u || isLowSurrogate u then unicodeEscape u
  else [u]

def quoteUnits : Text → Text
  | [] => []
  | [u] => quoteUnit u
  | u :: v :: rest =>
      if isHighSurrogate u && isLowSurrogate v then u :: v :: quoteUnits rest
      else quoteUnit u ++ quoteUnits (v :: rest)

/-- `JSON.stringify(text)`. -/
def stringify (text : Text) : Text := quotationMark :: quoteUnits text ++ [quotationMark]

theorem hexDigit_ge {n : Nat} (digit : n < 16) : 0x20 ≤ (hexDigit n).toNat := by
  interval_cases n <;> decide

theorem unicodeEscape_ge {u w : UInt16} (mem : w ∈ unicodeEscape u) : 0x20 ≤ w.toNat := by
  have digits : ∀ n : Nat, 0x20 ≤ (hexDigit (n % 16)).toNat := fun n =>
    hexDigit_ge (Nat.mod_lt n (by decide))
  simp only [unicodeEscape, List.mem_cons, List.not_mem_nil, or_false] at mem
  rcases mem with rfl | rfl | rfl | rfl | rfl | rfl
  · decide
  · decide
  all_goals exact digits _

theorem quoteUnit_ge {u w : UInt16} (mem : w ∈ quoteUnit u) : 0x20 ≤ w.toNat := by
  have short : ∀ letter : UInt16, 0x20 ≤ letter.toNat → w ∈ [reverseSolidus, letter] →
      0x20 ≤ w.toNat := by
    intro letter large mem
    simp only [List.mem_cons, List.not_mem_nil, or_false] at mem
    rcases mem with rfl | rfl
    · decide
    · exact large
  simp only [quoteUnit] at mem
  repeat' split at mem
  any_goals exact short _ (by decide) mem
  · exact unicodeEscape_ge mem
  · rename_i plain
    simp only [Bool.or_eq_true, decide_eq_true_eq, not_or, not_lt] at plain
    rw [List.mem_singleton.mp mem]
    exact plain.1.1

theorem surrogate_ge {u : UInt16} (half : isHighSurrogate u = true ∨ isLowSurrogate u = true) :
    0x20 ≤ u.toNat := by
  simp only [isHighSurrogate, isLowSurrogate, Bool.and_eq_true, decide_eq_true_eq] at half
  omega

theorem quoteUnits_ge (text : Text) {w : UInt16} (mem : w ∈ quoteUnits text) : 0x20 ≤ w.toNat := by
  induction text using quoteUnits.induct with
  | case1 => simp [quoteUnits] at mem
  | case2 u => exact quoteUnit_ge mem
  | case3 u v rest pair ih =>
      simp only [Bool.and_eq_true] at pair
      simp only [quoteUnits, pair, Bool.and_self, if_true, List.mem_cons] at mem
      rcases mem with rfl | rfl | mem
      · exact surrogate_ge (.inl pair.1)
      · exact surrogate_ge (.inr pair.2)
      · exact ih mem
  | case4 u v rest pair ih =>
      simp only [quoteUnits, pair, Bool.false_eq_true, if_false, List.mem_append] at mem
      rcases mem with mem | mem
      · exact quoteUnit_ge mem
      · exact ih mem

theorem stringify_ge (text : Text) {w : UInt16} (mem : w ∈ stringify text) : 0x20 ≤ w.toNat := by
  simp only [stringify, List.cons_append, List.mem_cons, List.mem_append, List.not_mem_nil,
    or_false] at mem
  rcases mem with rfl | mem | rfl
  · decide
  · exact quoteUnits_ge text mem
  · decide

theorem lineFeed_not_mem_stringify (text : Text) : lineFeed ∉ stringify text := fun mem =>
  absurd (stringify_ge text mem) (by decide)

theorem stringify_getLast? (text : Text) : (stringify text).getLast? = some quotationMark := by
  rw [stringify, List.getLast?_append, List.getLast?_singleton, Option.some_or]

end JsUnits
