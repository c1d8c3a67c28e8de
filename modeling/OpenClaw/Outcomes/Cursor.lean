import OpenClaw.Lib.Base64Url
import OpenClaw.Lib.JsonText
import OpenClaw.Outcomes.Operation

/-!
The pagination token of the outcome list. It is the base64url text of a small JSON object that
names the last record of a page and the digest of the profile it was minted for; it decodes to
that record for this profile and to nothing for another one.
-/

namespace Outcomes

/-- The SHA-256 digests of the profile ids, in hexadecimal. -/
structure ProfileDigests where
  profileDigest : String → String
  hex : ∀ profileId, (profileDigest profileId).toList.length = 64 ∧
    ∀ c ∈ (profileDigest profileId).toList, isHex c = true

/-- What a cursor resumes after. Numbers read from a token keep their decimal value. -/
structure CursorAnchor where
  updatedAt : Finite
  id : String
  deriving DecidableEq

/-- The largest finite double. -/
def maxFinite : ℚ := 2 ^ 1024 - 2 ^ 971

/-- `Number.isFinite` of a decimal value: it does not round to infinity. -/
def isFiniteNumber (value : ℚ) : Bool := |value| < 2 ^ 1024 - 2 ^ 970

variable (D : ProfileDigests)

/-- The fields of a cursor by name, as `stableStringify` orders them. -/
def cursorFields (profileId : String) (updatedAt : Int) (id : String) : List Json.Field :=
  [⟨"id", Json.quote id, .string id⟩,
    ⟨"profileDigest", Json.quote (D.profileDigest profileId), .string (D.profileDigest profileId)⟩,
    ⟨"updatedAt", Json.integer updatedAt, .number updatedAt⟩,
    ⟨"v", Json.integer 1, .number (1 : Int)⟩]

def cursorText (profileId : String) (updatedAt : Int) (id : String) : String :=
  String.ofList (Json.objectText (cursorFields D profileId updatedAt id))

def encodeOutcomeCursor (profileId : String) (updatedAt : Int) (id : String) : String :=
  String.ofList (Base64Url.encode (cursorText D profileId updatedAt id).toUTF8.data.toList)

/-- The field checks on a parsed token. -/
def validatedAnchor (profileId : String) (parsed : Json) : Option CursorAnchor :=
  match parsed.field? "v", parsed.field? "updatedAt", parsed.field? "id",
      parsed.field? "profileDigest" with
  | some (.number v), some (.number updatedAt), some (.string id), some (.string profileDigest) =>
      if v = 1 ∧ isFiniteNumber updatedAt ∧ profileDigest = D.profileDigest profileId then
        some { updatedAt, id }
      else none
  | _, _, _, _ => none

def decodeOutcomeCursor (profileId cursor : String) : Option CursorAnchor := do
  let text ← String.fromUTF8? ⟨(Base64Url.decode cursor.toList).toArray⟩
  let parsed ← Json.parse text.toList
  validatedAnchor D profileId parsed

variable {D} {profileId other id : String} {updatedAt : Int}

/-- A clock reading that a double holds. -/
def FiniteReading (updatedAt : Int) : Prop := |(updatedAt : ℚ)| ≤ maxFinite

instance (updatedAt : Int) : Decidable (FiniteReading updatedAt) :=
  inferInstanceAs (Decidable (_ ≤ _))

theorem isFiniteNumber_of_reading (finite : FiniteReading updatedAt) :
    isFiniteNumber updatedAt = true := by
  refine decide_eq_true (lt_of_le_of_lt finite ?_)
  have larger : (2 : ℚ) ^ 970 < 2 ^ 971 := pow_lt_pow_right₀ one_lt_two (by decide)
  exact sub_lt_sub_left larger _

theorem fromUTF8?_toUTF8 (text : String) : String.fromUTF8? text.toUTF8 = some text :=
  dif_pos text.isValidUTF8

theorem parse_cursorText : Json.parse (cursorText D profileId updatedAt id).toList =
    some (.object ((cursorFields D profileId updatedAt id).map fun field =>
      (field.name, field.value))) := by
  rw [cursorText, String.toList_ofList]
  refine Json.parse_objectText nofun fun field mem => ?_
  simp only [cursorFields, List.mem_cons, List.not_mem_nil, or_false] at mem
  rcases mem with rfl | rfl | rfl | rfl
  · exact Json.spells_quote id
  · exact Json.spells_quote _
  · exact Json.spells_integer updatedAt
  · exact Json.spells_integer 1

/-- A minted cursor decodes for the profiles with the digest of its own one. -/
theorem decode_encodeOutcomeCursor (finite : FiniteReading updatedAt) :
    decodeOutcomeCursor D other (encodeOutcomeCursor D profileId updatedAt id) =
      if D.profileDigest profileId = D.profileDigest other then some ⟨updatedAt, id⟩ else none := by
  let parsed : Json := .object ((cursorFields D profileId updatedAt id).map fun field =>
    (field.name, field.value))
  have bytes : String.fromUTF8? ⟨(Base64Url.decode
      (encodeOutcomeCursor D profileId updatedAt id).toList).toArray⟩ =
        some (cursorText D profileId updatedAt id) := by
    rw [encodeOutcomeCursor, String.toList_ofList, Base64Url.decode_encode, Array.toArray_toList]
    exact fromUTF8?_toUTF8 _
  have v : parsed.field? "v" = some (.number (1 : Int)) := by
    simp [parsed, Json.field?, cursorFields]
  have updatedAt_ : parsed.field? "updatedAt" = some (.number updatedAt) := by
    simp [parsed, Json.field?, cursorFields]
  have id_ : parsed.field? "id" = some (.string id) := by
    simp [parsed, Json.field?, cursorFields]
  have digest : parsed.field? "profileDigest" = some (.string (D.profileDigest profileId)) := by
    simp [parsed, Json.field?, cursorFields]
  simp only [decodeOutcomeCursor, bytes, Option.bind_eq_bind, Option.bind_some, parse_cursorText]
  rw [validatedAnchor, v, updatedAt_, id_, digest]
  simp [isFiniteNumber_of_reading finite]

/-- The bytes of a text in UTF-8. -/
def byteLength (cs : List Char) : Nat := (String.ofList cs).utf8ByteSize

@[simp] theorem byteLength_nil : byteLength [] = 0 := rfl

@[simp] theorem byteLength_append (cs ds : List Char) :
    byteLength (cs ++ ds) = byteLength cs + byteLength ds := by
  rw [byteLength, String.ofList_append, String.utf8ByteSize_append]
  rfl

theorem byteLength_singleton (c : Char) : byteLength [c] = c.utf8Size := by
  rw [byteLength, ← String.singleton_eq_ofList, String.utf8ByteSize_singleton]

theorem byteLength_cons (c : Char) (cs : List Char) :
    byteLength (c :: cs) = c.utf8Size + byteLength cs := by
  rw [← byteLength_singleton c, ← byteLength_append, List.singleton_append]

theorem byteLength_flatMap_le {f : Char → List Char} (size : Nat) (cs : List Char)
    (each : ∀ c ∈ cs, byteLength (f c) ≤ size) : byteLength (cs.flatMap f) ≤ size * cs.length := by
  induction cs with
  | nil => exact le_rfl
  | cons c cs ih =>
      obtain ⟨first, later⟩ := List.forall_mem_cons.mp each
      rw [List.flatMap_cons, byteLength_append, List.length_cons, Nat.mul_succ]
      have := ih later
      omega

theorem utf8Size_hexDigit {n : Nat} (below : n < 16) : (Json.hexDigit n).utf8Size = 1 := by
  interval_cases n <;> decide

theorem utf8Size_isDigit {c : Char} (digit : c.isDigit = true) : c.utf8Size = 1 := by
  simp only [Char.isDigit, ge_iff_le, Bool.and_eq_true, decide_eq_true_eq] at digit
  have ascii : c.val ≤ 0x7F := UInt32.le_trans digit.2 (by decide)
  simp [Char.utf8Size, ascii]

/-- An escape takes six bytes at most. -/
theorem byteLength_escape_le (c : Char) : byteLength (Json.escape c) ≤ 6 := by
  have four : ∀ d : Char, d.utf8Size ≤ 4 := Char.utf8Size_le_four
  have backslash : '\\'.utf8Size = 1 := by decide
  unfold Json.escape
  split
  case h_1 known _ =>
    have := four known.2
    simp only [byteLength_cons, byteLength_nil, backslash]
    omega
  case h_2 =>
    split
    case isTrue control =>
      have high := utf8Size_hexDigit (n := c.toNat / 16) (by omega)
      have low := utf8Size_hexDigit (n := c.toNat % 16) (by omega)
      have plain : 'u'.utf8Size = 1 ∧ '0'.utf8Size = 1 := by decide
      simp only [byteLength_cons, byteLength_nil, backslash, plain.1, plain.2, high, low]
      decide
    case isFalse =>
      have := four c
      rw [byteLength_singleton]
      omega

theorem byteLength_escape_of_isHex {c : Char} (hex : isHex c = true) :
    byteLength (Json.escape c) = 1 := by
  have range : 0x30 ≤ c.toNat ∧ c.toNat ≤ 0x39 ∨ 0x61 ≤ c.toNat ∧ c.toNat ≤ 0x66 := by
    simpa [isHex, Char.isDigit, Char.le_def, UInt32.le_iff_toNat_le] using hex
  rw [← Char.ofNat_toNat c]
  generalize c.toNat = n at range
  rcases range with ⟨low, high⟩ | ⟨low, high⟩
  all_goals interval_cases n <;> decide

theorem byteLength_quote (text : String) :
    byteLength (Json.quote text) = byteLength (text.toList.flatMap Json.escape) + 2 := by
  have mark : '"'.utf8Size = 1 := by decide
  rw [Json.quote, byteLength_cons, byteLength_append, byteLength_singleton, mark]
  omega

theorem byteLength_integer_le {digits : Nat} (below : updatedAt.natAbs < 10 ^ digits)
    (some_ : 1 ≤ digits) : byteLength (Json.integer updatedAt) ≤ digits + 1 := by
  have dash : '-'.utf8Size = 1 := by decide
  have short : (Json.decimal updatedAt.natAbs).length ≤ digits := by
    unfold Json.decimal
    split
    · exact some_
    · rw [List.length_map, List.length_reverse]
      exact (Nat.digits_length_le_iff (by decide) _).mpr below
  have ascii : byteLength (Json.decimal updatedAt.natAbs) ≤ (Json.decimal updatedAt.natAbs).length := by
    have each := byteLength_flatMap_le (f := fun c => [c]) 1 (Json.decimal updatedAt.natAbs)
      fun c mem => by
        rw [byteLength_singleton, utf8Size_isDigit (Json.isDigit_of_mem_decimal mem)]
    simpa using each
  unfold Json.integer
  split
  · rw [byteLength_cons, dash]
    omega
  · omega

theorem natAbs_lt_of_finite (finite : FiniteReading updatedAt) : updatedAt.natAbs < 10 ^ 309 := by
  have doubles : 2 ^ 1024 < 10 ^ 309 := by decide +kernel
  have below : ((updatedAt.natAbs : ℕ) : ℚ) < ((2 ^ 1024 : ℕ) : ℚ) := by
    have abs_ : ((updatedAt.natAbs : ℕ) : ℚ) = |(updatedAt : ℚ)| := by
      rw [Nat.cast_natAbs, Int.cast_abs]
    have positive : (0 : ℚ) < 2 ^ 971 := by positivity
    rw [abs_, Nat.cast_pow, Nat.cast_ofNat]
    exact lt_of_le_of_lt finite (sub_lt_self _ positive)
  exact (Nat.cast_lt.mp below).trans doubles

theorem utf8ByteSize_cursorText_le (short : id.length ≤ 160) (finite : FiniteReading updatedAt) :
    (cursorText D profileId updatedAt id).utf8ByteSize ≤ 1400 := by
  obtain ⟨digits, hex⟩ := D.hex profileId
  have id_ := byteLength_flatMap_le (f := Json.escape) 6 id.toList
    fun c _ => byteLength_escape_le c
  have digest := byteLength_flatMap_le (f := Json.escape) 1 (D.profileDigest profileId).toList
    fun c mem => (byteLength_escape_of_isHex (hex c mem)).le
  have updatedAt_ := byteLength_integer_le (natAbs_lt_of_finite finite) (by decide)
  have names : byteLength (Json.quote "id") = 4 ∧ byteLength (Json.quote "profileDigest") = 15 ∧
      byteLength (Json.quote "updatedAt") = 11 ∧ byteLength (Json.quote "v") = 3 ∧
      byteLength (Json.integer 1) = 1 := by decide
  have marks : ','.utf8Size = 1 ∧ ':'.utf8Size = 1 ∧ '\x7b'.utf8Size = 1 ∧ '\x7d'.utf8Size = 1 := by
    decide
  change byteLength (Json.objectText (cursorFields D profileId updatedAt id)) ≤ 1400
  rw [String.length_toList] at id_
  simp only [cursorFields, Json.objectText, Json.Field.members, Json.Field.member,
    byteLength_cons, byteLength_append, byteLength_nil, names, marks]
  rw [byteLength_quote id, byteLength_quote (D.profileDigest profileId)]
  omega

/-- The token of a record passes the length bound of the list request. -/
theorem length_encodeOutcomeCursor_le (short : id.length ≤ 160) (finite : FiniteReading updatedAt) :
    (encodeOutcomeCursor D profileId updatedAt id).length ≤ 2048 := by
  have bytes : (cursorText D profileId updatedAt id).utf8ByteSize ≤ 1400 :=
    utf8ByteSize_cursorText_le short finite
  have digits := Base64Url.length_encode (cursorText D profileId updatedAt id).toUTF8.data.toList
  have size : (cursorText D profileId updatedAt id).toUTF8.data.toList.length =
      (cursorText D profileId updatedAt id).utf8ByteSize := by
    rw [Array.length_toList]
    rfl
  rw [size] at digits
  rw [encodeOutcomeCursor, String.length_ofList]
  omega

end Outcomes
