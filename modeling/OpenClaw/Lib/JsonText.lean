import Mathlib

/-!
`JSON.parse`, and the JSON texts of strings and integers. Texts are lists of characters, so a
string with half a surrogate pair is not read; numbers keep their decimal value. The reader of
nested values recurses on a bound, and the length of the text bounds any nesting.
-/

inductive Json where
  | null
  | boolean (value : Bool)
  | number (value : ℚ)
  | string (text : String)
  | array (items : List Json)
  | object (fields : List (String × Json))

namespace Json

/-- The last field under a name. -/
def field? (name : String) : Json → Option Json
  | object fields => (fields.reverse.find? fun entry => entry.1 = name).map Prod.snd
  | _ => none

def hexDigit (n : Nat) : Char := Char.ofNat (if n < 10 then 0x30 + n else 0x57 + n)

def hexValue (c : Char) : Option Nat :=
  if c.isDigit then some (c.toNat - 0x30)
  else if 'a' ≤ c && c ≤ 'f' then some (c.toNat - 0x57)
  else if 'A' ≤ c && c ≤ 'F' then some (c.toNat - 0x37)
  else none

/-- The characters of the short escapes, and the letters they are escaped by. -/
def shortEscapes : List (Char × Char) :=
  [('\x08', 'b'), ('\t', 't'), ('\n', 'n'), ('\x0c', 'f'), ('\r', 'r'), ('"', '"'), ('\\', '\\')]

def escape (c : Char) : List Char :=
  match shortEscapes.find? fun known => known.1 = c with
  | some known => ['\\', known.2]
  | none =>
      if c.toNat < 0x20 then
        ['\\', 'u', '0', '0', hexDigit (c.toNat / 16), hexDigit (c.toNat % 16)]
      else [c]

/-- `JSON.stringify(text)`. -/
def quote (text : String) : List Char := '"' :: (text.toList.flatMap escape ++ ['"'])

/-- The decimal text of a natural number. -/
def decimal (n : Nat) : List Char :=
  if n = 0 then ['0'] else (Nat.digits 10 n).reverse.map fun d => Char.ofNat (0x30 + d)

/-- `JSON.stringify` of an integer. -/
def integer (n : Int) : List Char := if n < 0 then '-' :: decimal n.natAbs else decimal n.natAbs

def skipSpace (text : List Char) : List Char :=
  text.dropWhile fun c => c = ' ' || c = '\t' || c = '\n' || c = '\r'

/-- A code unit written as four hexadecimal digits. -/
def readUnit : List Char → Option (Nat × List Char)
  | a :: b :: c :: d :: rest => do
      let a ← hexValue a
      let b ← hexValue b
      let c ← hexValue c
      let d ← hexValue d
      some (a * 4096 + b * 256 + c * 16 + d, rest)
  | _ => none

/-- The escape after `\u`: one code unit, or two halves of a pair. -/
def readEscapedUnit (text : List Char) : Option (Char × List Char) := do
  let (unit, rest) ← readUnit text
  if unit < 0xD800 ∨ 0xE000 ≤ unit then some (Char.ofNat unit, rest)
  else
    match rest with
    | '\\' :: 'u' :: rest =>
        let (low, rest) ← readUnit rest
        guard (unit < 0xDC00 ∧ 0xDC00 ≤ low ∧ low < 0xE000)
        some (Char.ofNat (0x10000 + (unit - 0xD800) * 0x400 + (low - 0xDC00)), rest)
    | _ => none

/-- One character of a string, escaped or not. -/
def readChar : List Char → Option (Char × List Char)
  | [] => none
  | c :: rest =>
      if c = '\\' then
        match rest with
        | [] => none
        | 'u' :: rest => readEscapedUnit rest
        | letter :: rest =>
            if letter = '/' then some ('/', rest)
            else (shortEscapes.find? fun known => known.2 = letter).map fun known => (known.1, rest)
      else if c.toNat < 0x20 then none
      else some (c, rest)

/-- A string after its opening quotation mark. -/
def readChars : Nat → List Char → Option (List Char × List Char)
  | 0, _ => none
  | bound + 1, text =>
      if text.head? = some '"' then some ([], text.tail)
      else do
        let (c, rest) ← readChar text
        let (cs, rest) ← readChars bound rest
        some (c :: cs, rest)

def natOf (digits : List Char) : Nat := digits.foldl (fun n d => 10 * n + (d.toNat - 0x30)) 0

/-- A run of digits, which must not be empty. -/
def readDigits (text : List Char) : Option (List Char × List Char) :=
  let digits := text.takeWhile Char.isDigit
  if digits = [] then none else some (digits, text.dropWhile Char.isDigit)

def readFraction : List Char → Option (ℚ × List Char)
  | '.' :: rest => (readDigits rest).map fun read =>
      ((natOf read.1 : ℚ) / 10 ^ read.1.length, read.2)
  | text => some (0, text)

def readExponent : List Char → Option (Int × List Char)
  | c :: rest =>
      if c = 'e' ∨ c = 'E' then
        match rest with
        | '-' :: rest => (readDigits rest).map fun read => (-(natOf read.1 : Int), read.2)
        | '+' :: rest => (readDigits rest).map fun read => ((natOf read.1 : Int), read.2)
        | rest => (readDigits rest).map fun read => ((natOf read.1 : Int), read.2)
      else some (0, c :: rest)
  | [] => some (0, [])

def readUnsigned (text : List Char) : Option (ℚ × List Char) := do
  let (whole, rest) ← readDigits text
  guard (whole.head? ≠ some '0' ∨ whole.length = 1)
  let (fraction, rest) ← readFraction rest
  let (exponent, rest) ← readExponent rest
  some ((natOf whole + fraction) * 10 ^ exponent, rest)

def readNumber (text : List Char) : Option (ℚ × List Char) :=
  if text.head? = some '-' then (readUnsigned text.tail).map fun read => (-read.1, read.2)
  else readUnsigned text

def readWord (word : String) (value : Json) (text : List Char) : Option (Json × List Char) :=
  if word.toList.isPrefixOf text then some (value, text.drop word.toList.length) else none

def readScalar (text : List Char) : Option (Json × List Char) :=
  readWord "null" null text <|> readWord "true" (boolean true) text <|>
    readWord "false" (boolean false) text <|>
    (readNumber text).map fun read => (number read.1, read.2)

/-- The text after a character that must come next. -/
def expect (c : Char) (text : List Char) : Option (List Char) :=
  if (skipSpace text).head? = some c then some (skipSpace text).tail else none

mutual

def readValue : Nat → List Char → Option (Json × List Char)
  | 0, _ => none
  | bound + 1, text =>
      match skipSpace text with
      | '"' :: rest => (readChars (rest.length + 1) rest).map fun read =>
          (string (String.ofList read.1), read.2)
      | '[' :: rest =>
          match expect ']' rest with
          | some rest => some (array [], rest)
          | none => (readItems bound rest).map fun read => (array read.1, read.2)
      | '\x7b' :: rest =>
          match expect '\x7d' rest with
          | some rest => some (object [], rest)
          | none => (readFields bound rest).map fun read => (object read.1, read.2)
      | rest => readScalar rest

def readItems : Nat → List Char → Option (List Json × List Char)
  | 0, _ => none
  | bound + 1, text => do
      let (value, rest) ← readValue bound text
      match expect ',' rest with
      | some rest =>
          let (values, rest) ← readItems bound rest
          some (value :: values, rest)
      | none =>
          let rest ← expect ']' rest
          some ([value], rest)

def readFields : Nat → List Char → Option (List (String × Json) × List Char)
  | 0, _ => none
  | bound + 1, text => do
      let rest ← expect '"' text
      let (name, rest) ← readChars (rest.length + 1) rest
      let rest ← expect ':' rest
      let (value, rest) ← readValue bound rest
      match expect ',' rest with
      | some rest =>
          let (fields, rest) ← readFields bound rest
          some ((String.ofList name, value) :: fields, rest)
      | none =>
          let rest ← expect '\x7d' rest
          some ([(String.ofList name, value)], rest)

end

/-- `JSON.parse(text)`; `none` where it throws. -/
def parse (text : List Char) : Option Json := do
  let (value, rest) ← readValue (text.length + 1) text
  guard (skipSpace rest = [])
  some value

variable {c : Char} {cs rest text : List Char} {bound n : Nat}

theorem hexValue_hexDigit (below : n < 16) : hexValue (hexDigit n) = some n := by
  interval_cases n <;> decide

theorem not_isDigit_of_mem {c : Char} (mem : c ∈ [',', ':', '.', 'e', 'E', '"', '\x7d', ']']) :
    c.isDigit = false := by
  fin_cases mem <;> decide

theorem readEscapedUnit_control (control : c.toNat < 0x20) :
    readEscapedUnit ('0' :: '0' :: hexDigit (c.toNat / 16) :: hexDigit (c.toNat % 16) :: rest) =
      some (c, rest) := by
  have zero : hexValue '0' = some 0 := by decide
  have high := hexValue_hexDigit (n := c.toNat / 16) (by omega)
  have low := hexValue_hexDigit (n := c.toNat % 16) (by omega)
  have unit : c.toNat / 16 * 16 + c.toNat % 16 = c.toNat := Nat.div_add_mod' _ _
  simp only [readEscapedUnit, readUnit, zero, high, low, Option.bind_eq_bind, Option.bind_some,
    Nat.zero_mul, Nat.zero_add, unit]
  rw [if_pos (.inl (by omega)), Char.ofNat_toNat]

/-- An escaped character is read back. -/
theorem readChar_escape (c : Char) (rest : List Char) :
    readChar (escape c ++ rest) = some (c, rest) := by
  unfold escape
  cases known : shortEscapes.find? fun known => known.1 = c with
  | some entry =>
      have mem := List.mem_of_find?_eq_some known
      have same : entry.1 = c := by simpa using List.find?_some known
      subst same
      simp only [shortEscapes, List.mem_cons, List.not_mem_nil, or_false] at mem
      rcases mem with rfl | rfl | rfl | rfl | rfl | rfl | rfl <;> rfl
  | none =>
      have plain : c ≠ '\\' := by
        rintro rfl
        exact absurd known (by decide)
      dsimp only
      split
      case isTrue control => exact readEscapedUnit_control control
      case isFalse visible => simp [readChar, plain, visible]

theorem escape_head_ne (c : Char) (rest : List Char) : (escape c ++ rest).head? ≠ some '"' := by
  unfold escape
  cases known : shortEscapes.find? fun known => known.1 = c with
  | some entry => simp
  | none =>
      dsimp only
      split
      · simp
      · intro same
        have quoted : c = '"' := by simpa using same
        subst quoted
        exact absurd known (by decide)

theorem readChars_escaped (enough : cs.length < bound) :
    readChars bound (cs.flatMap escape ++ '"' :: rest) = some (cs, rest) := by
  induction cs generalizing bound with
  | nil =>
      obtain ⟨bound, rfl⟩ := Nat.exists_eq_add_of_lt enough
      simp [readChars]
  | cons c cs ih =>
      obtain ⟨bound, rfl⟩ : ∃ less, bound = less + 1 := ⟨bound - 1, by omega⟩
      rw [List.flatMap_cons, List.append_assoc, readChars, if_neg (escape_head_ne c _)]
      have shorter : cs.length < bound := by simpa using enough
      simp [readChar_escape, ih shorter]

theorem length_le_escaped (cs : List Char) : cs.length ≤ (cs.flatMap escape).length := by
  induction cs with
  | nil => exact le_rfl
  | cons c cs ih =>
      have some_ : 1 ≤ (escape c).length := by
        unfold escape
        split
        · simp
        · split <;> simp
      simp only [List.flatMap_cons, List.length_append, List.length_cons]
      omega

/-- A text that is read as a value in front of a comma or a closing brace. -/
def Spells (text : List Char) (value : Json) : Prop :=
  ∀ bound rest, rest.head? = some ',' ∨ rest.head? = some '\x7d' →
    readValue (bound + 1) (text ++ rest) = some (value, rest)

theorem spells_quote (text : String) : Spells (quote text) (string text) := by
  intro bound rest _
  let inside := text.toList.flatMap escape ++ '"' :: rest
  have enough : text.toList.length < inside.length + 1 := by
    have longer := length_le_escaped text.toList
    rw [List.length_append]
    omega
  have opened : skipSpace (quote text ++ rest) = '"' :: inside := by
    simp [quote, skipSpace, inside]
  have read : readChars (inside.length + 1) inside = some (text.toList, rest) :=
    readChars_escaped enough
  simp only [readValue, opened, read, Option.map_some, String.ofList_toList]

theorem isDigit_digit (below : n < 10) : (Char.ofNat (0x30 + n)).isDigit = true := by
  interval_cases n <;> decide

theorem toNat_digit (below : n < 10) : (Char.ofNat (0x30 + n)).toNat = 0x30 + n := by
  interval_cases n <;> decide

theorem isDigit_of_mem_decimal (mem : c ∈ decimal n) : c.isDigit = true := by
  unfold decimal at mem
  split at mem
  · rw [List.mem_singleton.mp mem]
    decide
  · obtain ⟨d, inside, rfl⟩ := List.mem_map.mp mem
    exact isDigit_digit (Nat.digits_lt_base (by decide) (List.mem_reverse.mp inside))

theorem natOf_decimal (n : Nat) : natOf (decimal n) = n := by
  unfold decimal
  split
  case isTrue zero =>
    rw [zero]
    decide
  case isFalse =>
    have values : ∀ ds : List Nat, (∀ d ∈ ds, d < 10) →
        natOf (ds.reverse.map fun d => Char.ofNat (0x30 + d)) = Nat.ofDigits 10 ds := by
      intro ds
      induction ds with
      | nil => intro _; rfl
      | cons d ds ih =>
          intro below
          obtain ⟨first, later⟩ := List.forall_mem_cons.mp below
          rw [Nat.ofDigits_cons, ← ih later]
          simp only [natOf, List.reverse_cons, List.map_append, List.map_cons, List.map_nil,
            List.foldl_append, List.foldl_cons, List.foldl_nil, toNat_digit first]
          omega
    rw [values _ fun d mem => Nat.digits_lt_base (by decide) mem, Nat.ofDigits_digits]

/-- No leading zero but in zero itself. -/
theorem head_decimal (n : Nat) : (decimal n).head? ≠ some '0' ∨ (decimal n).length = 1 := by
  unfold decimal
  split
  · exact .inr rfl
  case isFalse positive =>
    refine .inl ?_
    have last := Nat.getLast_digit_ne_zero 10 positive
    have below := Nat.digits_lt_base (b := 10) (m := n) (by decide)
      (List.getLast_mem (Nat.digits_ne_nil_iff_ne_zero.mpr positive))
    rw [List.head?_map, List.head?_reverse,
      List.getLast?_eq_some_getLast (Nat.digits_ne_nil_iff_ne_zero.mpr positive)]
    intro same
    have digit : Char.ofNat (0x30 + (Nat.digits 10 n).getLast _) = '0' := Option.some.inj same
    have value := congrArg Char.toNat digit
    rw [toNat_digit below] at value
    exact last (by simpa using value)

theorem decimal_ne_nil (n : Nat) : decimal n ≠ [] := by
  unfold decimal
  split
  · simp
  case isFalse positive => simpa [Nat.digits_eq_nil_iff_eq_zero] using positive

theorem readDigits_append (digits : ∀ c ∈ cs, c.isDigit = true) (some_ : cs ≠ [])
    (ends : ∀ c ∈ rest.head?, c.isDigit = false) : readDigits (cs ++ rest) = some (cs, rest) := by
  have none_ : rest.takeWhile Char.isDigit = [] ∧ rest.dropWhile Char.isDigit = rest := by
    cases rest with
    | nil => exact ⟨rfl, rfl⟩
    | cons d rest => simp [ends d rfl]
  unfold readDigits
  rw [List.takeWhile_append_of_pos digits, List.dropWhile_append_of_pos digits, none_.1, none_.2,
    List.append_nil]
  exact if_neg some_

theorem readUnsigned_decimal (ends : rest.head? = some ',' ∨ rest.head? = some '\x7d') :
    readUnsigned (decimal n ++ rest) = some ((n : ℚ), rest) := by
  have stops : ∀ c ∈ rest.head?, c.isDigit = false := by
    rcases ends with ends | ends <;> simp [ends]
  have whole : readFraction rest = some (0, rest) ∧ readExponent rest = some (0, rest) := by
    cases rest with
    | nil => simp at ends
    | cons c rest =>
        rcases ends with ends | ends <;> obtain rfl := Option.some.inj ends <;> exact ⟨rfl, rfl⟩
  have read := readDigits_append (fun c => isDigit_of_mem_decimal) (decimal_ne_nil n) stops
  simp [readUnsigned, read, whole, head_decimal n, natOf_decimal]

theorem readNumber_integer {z : Int} (ends : rest.head? = some ',' ∨ rest.head? = some '\x7d') :
    readNumber (integer z ++ rest) = some ((z : ℚ), rest) := by
  have read := readUnsigned_decimal (n := z.natAbs) ends
  unfold integer
  split
  case isTrue negative =>
    have value : -((z.natAbs : ℕ) : ℚ) = z := by
      have exact_ : (z.natAbs : ℤ) = -z := by omega
      rw [← Int.cast_natCast, exact_, Int.cast_neg, neg_neg]
    rw [List.cons_append, readNumber, List.head?_cons, if_pos rfl, List.tail_cons, read, Option.map_some, value]
  case isFalse positive =>
    have value : ((z.natAbs : ℕ) : ℚ) = z := by
      have exact_ : (z.natAbs : ℤ) = z := by omega
      rw [← Int.cast_natCast, exact_]
    have unsigned : (decimal z.natAbs ++ rest).head? ≠ some '-' := by
      cases digits : decimal z.natAbs with
      | nil => exact absurd digits (decimal_ne_nil _)
      | cons c cs =>
          intro same
          obtain rfl : c = '-' := by simpa using same
          have mem : '-' ∈ decimal z.natAbs := digits ▸ List.mem_cons_self
          exact absurd (isDigit_of_mem_decimal mem) (by decide)
    rw [readNumber, if_neg unsigned, read, value]

theorem head_integer (z : Int) : ∃ c cs, integer z = c :: cs ∧ (c = '-' ∨ c.isDigit = true) := by
  unfold integer
  split
  · exact ⟨_, _, rfl, .inl rfl⟩
  · cases digits : decimal z.natAbs with
    | nil => exact absurd digits (decimal_ne_nil _)
    | cons c cs => exact ⟨c, cs, rfl, .inr (isDigit_of_mem_decimal (digits ▸ List.mem_cons_self))⟩

theorem readWord_of_head_ne {word : String} {value : Json} {d : Char} {ds : List Char}
    (spelled : word.toList = d :: ds) (apart : c ≠ d) : readWord word value (c :: rest) = none := by
  have other : (d == c) = false := by simpa using apart.symm
  rw [readWord, spelled, List.isPrefixOf, other, Bool.false_and]
  exact if_neg (by decide)

theorem spells_integer (z : Int) : Spells (integer z) (number z) := by
  intro bound rest ends
  obtain ⟨c, cs, same, head⟩ := head_integer z
  have read := readNumber_integer (z := z) ends
  have apart : ∀ d : Char, d ≠ '-' → d.isDigit = false → c ≠ d := by
    rintro d dash digit rfl
    rcases head with rfl | isDigit
    · exact dash rfl
    · rw [digit] at isDigit
      cases isDigit
  rw [same, List.cons_append] at read ⊢
  have closed : skipSpace (c :: (cs ++ rest)) = c :: (cs ++ rest) := by
    have solid : ¬ (decide (c = ' ') || decide (c = '\t') || decide (c = '\n') ||
        decide (c = '\r')) = true := by
      simp [apart ' ' (by decide) rfl, apart '\t' (by decide) rfl, apart '\n' (by decide) rfl,
        apart '\r' (by decide) rfl]
    exact List.dropWhile_cons_of_neg solid
  have scalar : readScalar (c :: (cs ++ rest)) = some (number z, rest) := by
    have null_ : readWord "null" null (c :: (cs ++ rest)) = none :=
      readWord_of_head_ne rfl (apart 'n' (by decide) rfl)
    have true_ : readWord "true" (boolean true) (c :: (cs ++ rest)) = none :=
      readWord_of_head_ne rfl (apart 't' (by decide) rfl)
    have false_ : readWord "false" (boolean false) (c :: (cs ++ rest)) = none :=
      readWord_of_head_ne rfl (apart 'f' (by decide) rfl)
    simp [readScalar, null_, true_, false_, read]
  rw [readValue, closed]
  split
  case h_1 quoted => exact absurd (List.cons.inj quoted).1 (apart '"' (by decide) rfl)
  case h_2 opened => exact absurd (List.cons.inj opened).1 (apart '[' (by decide) rfl)
  case h_3 opened => exact absurd (List.cons.inj opened).1 (apart '\x7b' (by decide) rfl)
  case h_4 => exact scalar

/-- A field of an object: its name, its text and its value. -/
structure Field where
  name : String
  text : List Char
  value : Json

namespace Field

def member (field : Field) : List Char := quote field.name ++ ':' :: field.text

/-- The members between the braces. -/
def members : List Field → List Char
  | [] => []
  | [field] => field.member
  | field :: next :: later => field.member ++ ',' :: members (next :: later)

end Field

/-- The text of an object. -/
def objectText (fields : List Field) : List Char := '\x7b' :: (Field.members fields ++ ['\x7d'])

theorem expect_cons (solid : skipSpace (c :: rest) = c :: rest) : expect c (c :: rest) = some rest := by
  rw [expect, solid]
  exact if_pos rfl

theorem readFields_members {fields : List Field} (some_ : fields ≠ [])
    (spells : ∀ field ∈ fields, Spells field.text field.value) (enough : fields.length < bound) :
    readFields bound (Field.members fields ++ '\x7d' :: rest) =
      some (fields.map fun field => (field.name, field.value), rest) := by
  induction fields generalizing bound with
  | nil => exact absurd rfl some_
  | cons field later ih =>
      obtain ⟨bound, rfl⟩ : ∃ less, bound = less + 2 := ⟨bound - 2, by simp at enough; omega⟩
      obtain ⟨first, others⟩ := List.forall_mem_cons.mp spells
      have step : ∀ after : List Char, after.head? = some ',' ∨ after.head? = some '\x7d' →
          readFields (bound + 2) (field.member ++ after) =
            match expect ',' after with
            | some rest => (readFields (bound + 1) rest).map fun read =>
                ((field.name, field.value) :: read.1, read.2)
            | none => (expect '\x7d' after).map fun rest => ([(field.name, field.value)], rest) := by
        intro after ends
        let inside := field.name.toList.flatMap escape ++ '"' :: ':' :: (field.text ++ after)
        have enough_ : field.name.toList.length < inside.length + 1 := by
          have longer := length_le_escaped field.name.toList
          rw [List.length_append]
          omega
        have member : field.member ++ after = '"' :: inside := by
          simp [Field.member, quote, inside]
        have name : readChars (inside.length + 1) inside =
            some (field.name.toList, ':' :: (field.text ++ after)) := readChars_escaped enough_
        rw [member, readFields, expect_cons rfl]
        simp only [Option.bind_eq_bind, Option.bind_some, name, expect_cons (c := ':') rfl,
          first bound after ends, String.ofList_toList]
        cases expect ',' after with
        | none => simp [Option.map_eq_bind]
        | some rest => simp [Option.map_eq_bind]
      cases later with
      | nil =>
          rw [Field.members, step _ (.inr rfl)]
          rfl
      | cons next later =>
          have enough' : (next :: later).length < bound + 1 := by simpa using enough
          have read := ih nofun others enough'
          rw [Field.members, List.append_assoc, List.cons_append, step _ (.inl rfl)]
          simp only [expect_cons (c := ',') rfl, read]
          rfl

theorem length_members (fields : List Field) : fields.length ≤ (Field.members fields).length := by
  induction fields using Field.members.induct with
  | case1 => exact le_rfl
  | case2 field => simp [Field.members, Field.member, quote]
  | case3 field next later ih =>
      simp only [Field.members, List.length_append, List.length_cons] at ih ⊢
      omega

theorem parse_objectText {fields : List Field} (some_ : fields ≠ [])
    (spells : ∀ field ∈ fields, Spells field.text field.value) :
    parse (objectText fields) = some (object (fields.map fun field => (field.name, field.value))) := by
  have enough : fields.length < (objectText fields).length := by
    have members := length_members fields
    simp only [objectText, List.length_cons, List.length_append, List.length_nil]
    omega
  have open_ : expect '\x7d' (Field.members fields ++ ['\x7d']) = none := by
    cases fields with
    | nil => exact absurd rfl some_
    | cons field later => cases later <;> simp [Field.members, Field.member, quote, expect, skipSpace]
  have value : ∀ bound, fields.length < bound → readValue (bound + 1) (objectText fields) =
      some (object (fields.map fun field => (field.name, field.value)), []) := by
    intro bound enough
    have closed : skipSpace (objectText fields) = '\x7b' :: (Field.members fields ++ ['\x7d']) := by
      simp [objectText, skipSpace]
    simp only [readValue, closed, open_, readFields_members some_ spells enough, Option.map_some]
  rw [parse, value _ enough]
  rfl

end Json
